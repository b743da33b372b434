/-
Plans put into words. The sentence is itself a query: filters in the order of the catalog, then the
sectors asked for, the sectors left out, the order, and the limit.
-/
import EquityScreen.Plan
import EquityScreen.Catalog
import EquityScreen.Sector
import EquityScreen.Text.Joined
import EquityScreen.Wording.Amount

namespace EquityScreen

open Text (joined)

/-- What a filter stands under. -/
inductive Connective where
  | and | or
  deriving DecidableEq, Repr

/-- A text in parentheses where the condition asks for them. -/
def grouped (inParentheses : Bool) (s : String) : String :=
  if inParentheses then "(" ++ s ++ ")" else s

/-- The field with a key, for its label. -/
def Catalog.named (c : Catalog) (key : String) : Except WordingError Field :=
  match c.field? key with
  | some f => .ok f
  | none => .error (.unknownField key)

/-- A comparison in words. -/
def Comparison.worded (c : Catalog) (style : CurrencyStyle) (cmp : Comparison) :
    Except WordingError String :=
  match c.named cmp.field with
  | .error e => .error e
  | .ok f =>
    (cmp.value.worded f.kind style).map fun value =>
      f.label ++ " " ++ cmp.op.sign ++ " " ++ value

/-- Texts of two parts with a word between them. -/
def wordedPair (word : String) (l r : Except WordingError String) : Except WordingError String :=
  match l, r with
  | .ok s, .ok t => .ok (s ++ word ++ t)
  | .error e, _ => .error e
  | _, .error e => .error e

/-- The text of everything. -/
def allSecurities : String := "all securities"

/-- A filter in words, as it stands under a connective. -/
def Predicate.worded (c : Catalog) (style : CurrencyStyle) :
    Connective → Predicate → Except WordingError String
  | _, .all => .ok allSecurities
  | _, .compare cmp => cmp.worded c style
  | under, .sectorIn s =>
    let names := Sector.sorted s.names
    .ok (grouped (under == .and && 1 < names.length) (joined " or " (names.map ("sector = " ++ ·))))
  | under, .sectorOut s =>
    let names := Sector.sorted s.names
    .ok (grouped (under == .or && 1 < names.length) (joined " and " (names.map ("sector != " ++ ·))))
  | _, .and l r => wordedPair " and " (l.worded c style .and) (r.worded c style .and)
  | under, .or l r =>
    (wordedPair " or " (l.worded c style .or) (r.worded c style .or)).map (grouped (under == .and))

/-- Filters that all have to hold, in words. -/
def wordedAll (c : Catalog) (style : CurrencyStyle) (ps : List Predicate) :
    Except WordingError (List String) :=
  ps.mapM (Predicate.worded c style .and)

/-- A filter in words, without the frame of a plan. -/
def Predicate.phrase (c : Catalog) (style : CurrencyStyle) (p : Predicate) :
    Except WordingError String :=
  (wordedAll c style p.conjuncts).map fun parts =>
    if parts.isEmpty then allSecurities else joined " and " parts

/-! ## The parts of a sentence -/

/-- The conjuncts of a filter, sorted out for a sentence. -/
structure Outline where
  /-- Conjuncts with a text of their own. -/
  rest : List Predicate := []
  /-- The sectors that are asked for. -/
  included : Option SectorSet := none
  /-- The sectors that are left out, each once. -/
  excluded : List String := []

namespace Outline

/-- The outline with one conjunct more. Only the first set of sectors asked for has a part of its
own. -/
def add (o : Outline) (p : Predicate) : Outline :=
  match p, o.included with
  | .sectorIn s, none => { o with included := some s }
  | .sectorOut s, _ =>
    { o with excluded := o.excluded ++ (Sector.sorted s.names).filter (!o.excluded.contains ·) }
  | p, _ => { o with rest := o.rest ++ [p] }

/-- The outline of a filter. -/
def ofPredicate (p : Predicate) : Outline := p.conjuncts.foldl add {}

end Outline

/-- The place of a filter in a sentence: that of its foremost field in the catalog. -/
def Catalog.placeOf (c : Catalog) (p : Predicate) : Nat :=
  match p.fields.map c.position with
  | [] => c.position ""
  | n :: ns => ns.foldl min n

/-- Filters in the order of the catalog; those of one place keep their order. -/
def Catalog.arranged (c : Catalog) (ps : List Predicate) : List Predicate :=
  ps.mergeSort fun a b => c.placeOf a ≤ c.placeOf b

/-- Names of sectors followed by the noun. -/
def sectorPhrase (names : List String) : String :=
  joined ", " (Sector.sorted names) ++ " " ++ if names.length = 1 then "sector" else "sectors"

/-- The part about filters, where there is one. -/
def filterPart (texts : List String) : List String :=
  if texts.isEmpty then [] else [joined " and " texts]

/-- The part about sectors asked for. -/
def includedPart (s : Option SectorSet) : List String :=
  (s.map fun s => "in " ++ sectorPhrase s.names).toList

/-- The part about sectors left out. -/
def excludedPart (names : List String) : List String :=
  if names.isEmpty then [] else ["excluding " ++ sectorPhrase names]

/-- The part about an order. -/
def orderPart (c : Catalog) : Option Ranking → Except WordingError (List String)
  | none => .ok []
  | some o =>
    (c.named o.field).map fun f => ["sorted by " ++ f.label ++ " " ++ o.direction.word]

/-- The part about a limit. -/
def limitPart (limit : Option Int) (fromBottom : Bool) : List String :=
  (limit.map fun n =>
    "limited to " ++ (if fromBottom then "bottom" else "top") ++ " " ++ toString n).toList

/-- What every sentence begins with. -/
def opening : String := "Screening for: "

/-- A plan in words. -/
def Plan.sentence (c : Catalog) (style : CurrencyStyle) (p : Plan) : Except WordingError String := do
  let o := Outline.ofPredicate p.predicate
  let texts ← wordedAll c style (c.arranged o.rest)
  let parts := filterPart texts ++ includedPart o.included ++ excludedPart o.excluded
  let order ← orderPart c p.sort
  return opening ++ joined ", "
    ((if parts.isEmpty then [allSecurities] else parts) ++ order ++ limitPart p.limit p.fromBottom)

end EquityScreen
