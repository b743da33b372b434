/-
A bad clause never disturbs the others.

A row of statements, with connectives and parentheses anywhere among them or none, is read piece by piece: every
statement whose number is a value of its field becomes an item, every other is skipped as a whole, and the query is what
the items alone amount to (`ofTokens_pieces`). The exception is a number that cannot be worked out: then nothing is
returned at all, however good the other statements are (`not_forall_ofTokens_pieces`).
-/
import EquityScreen.Proofs.Clause.Statement
import EquityScreen.Proofs.Query.Sentence
import EquityScreen.Proofs.Query.WellFormed

namespace EquityScreen

/-- A piece of a row: a statement, or a connective or a parenthesis. -/
inductive Piece where
  | statement (s : Clause.Statement)
  | mark (t : Token) (i : Item) (h : Draft.Marks t i)

namespace Piece

/-- The tokens of a piece. -/
def tokens : Piece → List Token
  | .statement s => s.tokens
  | .mark t .. => [t]

/-- What a piece says. -/
def clause : Piece → Clause
  | .statement s => s.clause
  | .mark _ i _ => .mark i

/-- A statement whose number is a value of its field. -/
def isGood : Piece → Bool
  | .statement s => s.outcome.isOk
  | .mark .. => false

/-- The item that a piece is, unless its number is no value of its field. -/
def item? : Piece → Option Item
  | .statement s => s.outcome.toOption.map fun v => .filter (s.filter v)
  | .mark _ i _ => some i

/-- A statement whose number is no value of its field. -/
def skipped? : Piece → Option Skipped
  | .statement s =>
    match s.outcome with
    | .ok _ => none
    | .error e => some (s.skipped e)
  | .mark .. => none

/-- Why the number of a statement cannot be worked out. -/
def breakdown? : Piece → Option CoercionError
  | .statement s =>
    match s.outcome with
    | .ok _ => none
    | .error e => if e.isBreakdown then some e else none
  | .mark .. => none

/-! ## The draft -/

/-- A piece breaks down, or it is an item or skipped. -/
theorem add_clause (d : Draft) (p : Piece) : d.add p.clause =
    match p.breakdown? with
    | some e => d.stopped e
    | none => { d with items := d.items ++ p.item?.toList, skipped := d.skipped ++ p.skipped?.toList,
                       clauseCount := d.clauseCount + if p.isGood then 1 else 0 } := by
  cases p with
  | mark t i h => simp [clause, Draft.add, breakdown?, item?, skipped?, isGood]
  | statement s =>
    simp only [clause, Clause.Statement.clause, breakdown?, item?, skipped?]
    cases h : s.outcome with
    | ok v => simp [Draft.add, Draft.addFilter, Draft.counted, isGood, h, Except.toOption, Except.isOk, Except.toBool]
    | error e =>
      cases he : e.isBreakdown <;> simp [he, Draft.add, Draft.addSkipped, isGood, h, Except.toOption, Except.isOk, Except.toBool]

variable {ps : List Piece} {d : Draft}

/-- What was said before a breakdown, or by it, is why reading stopped. -/
theorem breakdown_foldl (ps : List Piece) (d : Draft) :
    (ps.foldl (fun d p => d.add p.clause) d).breakdown = (d.breakdown <|> ps.findSome? breakdown?) := by
  induction ps generalizing d with
  | nil => cases h : d.breakdown <;> simp [h]
  | cons p ps ih =>
    rw [List.foldl_cons, ih, add_clause, List.findSome?_cons]
    cases p.breakdown? with
    | none => rfl
    | some e => cases h : d.breakdown <;> simp [Draft.stopped, h]

/-- **The pieces add up** where none breaks down. -/
theorem foldl_add (h : ∀ p ∈ ps, p.breakdown? = none) : ps.foldl (fun d p => d.add p.clause) d =
    { d with items := d.items ++ ps.filterMap item?, skipped := d.skipped ++ ps.filterMap skipped?,
             clauseCount := d.clauseCount + ps.countP isGood } := by
  induction ps generalizing d with
  | nil => simp
  | cons p ps ih =>
    rw [List.forall_mem_cons] at h
    rw [List.foldl_cons, add_clause, h.1, ih h.2]
    cases hitem : p.item? <;> cases hskipped : p.skipped? <;> cases hgood : p.isGood <;>
      simp [hitem, hskipped, hgood, Nat.add_comm, Nat.add_left_comm]

/-! ## Reading -/

/-- The first token of a piece, and how it is read. -/
theorem read (p : Piece) : ∃ t more, p.tokens = t :: more ∧ (t.isName = true ∨ ∃ i, Draft.Marks t i) ∧
    ∀ rest, Clause.Valueless rest → Clause.read Catalog.builtin t (more ++ rest) = ⟨[p.clause], p.tokens.length⟩ := by
  cases p with
  | mark t i h => exact ⟨t, [], rfl, .inr ⟨i, h⟩, fun rest _ => Draft.read_mark h rest⟩
  | statement s =>
    obtain ⟨t, more, hts, hname, hread⟩ := s.read
    exact ⟨t, more, hts, .inl hname, hread⟩

/-- A row begins with a word, a connective or a parenthesis. -/
theorem head_tokens {t : Token} (ht : t ∈ (ps.flatMap tokens).head?) : t.isName = true ∨ ∃ i, Draft.Marks t i := by
  cases ps with
  | nil => exact absurd ht (by simp)
  | cons p ps =>
    obtain ⟨u, more, hts, hu, -⟩ := p.read
    rw [List.flatMap_cons, hts] at ht
    exact Option.some.inj ht ▸ hu

theorem valueless (ps : List Piece) : Clause.Valueless (ps.flatMap tokens) := by
  intro t ht
  rcases head_tokens ht with hname | ⟨i, hmark⟩
  · rw [Clause.isValue, show t.content = .name by simpa [Token.isName] using hname]
  · cases i <;> first | exact absurd hmark id | rw [Clause.isValue, show t.content = _ from hmark]

/-- A row announces nothing. -/
theorem announced_tokens (ps : List Piece) : Query.announced (ps.flatMap tokens) = (.newScreen, ps.flatMap tokens) := by
  cases hts : ps.flatMap tokens with
  | nil => rfl
  | cons t ts =>
    have hhead : t ∈ (ps.flatMap tokens).head? := by rw [hts]; rfl
    unfold Query.announced
    rcases head_tokens hhead with hname | ⟨i, hmark⟩
    · simp only [show t.content = .name by simpa [Token.isName] using hname]
    · cases i <;> first | exact absurd hmark id | simp only [show t.content = _ from hmark]

/-- **Each piece takes one reading.** -/
theorem gather_tokens {fuel : Nat} (hfuel : ps.length ≤ fuel) :
    Draft.gather Catalog.builtin fuel (ps.flatMap tokens) d = ps.foldl (fun d p => d.add p.clause) d := by
  induction ps generalizing fuel d with
  | nil => cases fuel <;> rfl
  | cons p ps ih =>
    obtain ⟨fuel, rfl⟩ : ∃ n, fuel = n + 1 := ⟨fuel - 1, by simp only [List.length_cons] at hfuel; omega⟩
    obtain ⟨t, more, hts, -, hread⟩ := p.read
    rw [List.flatMap_cons, List.foldl_cons, Draft.gather_read hts (hread _ (valueless ps)), ih (Nat.le_of_succ_le_succ hfuel)]
    rfl

theorem length_le (ps : List Piece) : ps.length ≤ (ps.flatMap tokens).length := by
  induction ps with
  | nil => exact Nat.le_refl 0
  | cons p ps ih =>
    obtain ⟨t, more, hts, -⟩ := p.read
    rw [List.flatMap_cons, hts, List.length_append, List.length_cons, List.length_cons]
    omega

/-- No piece is a request. -/
theorem no_request {p : Piece} {t : Token} (ht : t ∈ p.tokens) : t.content ≠ .keyword .help ∧ t.content ≠ .keyword .clear := by
  cases p with
  | mark u i h =>
    rw [List.mem_singleton.1 ht]
    cases i <;> first | exact absurd h id | simp [show u.content = _ from h]
  | statement s =>
    simp only [tokens, Clause.Statement.tokens, List.mem_append, List.mem_cons, List.not_mem_nil, or_false] at ht
    rcases ht with ht | rfl | rfl
    · have hname := s.names t ht
      simp [show t.content = .name by simpa [Token.isName] using hname]
    · simp [s.compares]
    · simp [s.counts]

end Piece

namespace Query

open Piece (item? skipped? breakdown? isGood)

/-- **A bad clause never disturbs the others.** A row of statements, with connectives and parentheses or nothing between
them, is read as what the items amount to without the statements whose numbers are no values of their fields; these are
skipped, in order, and the others count; and the row is refused for saying nothing if there are no others. A number that
cannot be worked out is the exception: then reading stops. -/
theorem ofTokens_pieces (ps : List Piece) : ofTokens Catalog.builtin (ps.flatMap Piece.tokens) =
    match ps.findSome? breakdown? with
    | some e => .error (.lex (.breakdown e))
    | none =>
      if ps.countP isGood = 0 then .error (.empty (Token.joinedText (ps.flatMap Piece.tokens)))
      else .ok { intent := .newScreen, plan := { predicate := .ofItems (ps.filterMap item?) },
                 skipped := ps.filterMap skipped?, heuristics := [], clauseCount := ps.countP isGood } := by
  have hrequest : request? (ps.flatMap Piece.tokens) = none := request?_eq_none fun t ht => by
    obtain ⟨p, -, ht⟩ := List.mem_flatMap.1 ht
    exact Piece.no_request ht
  have hdraft := Piece.gather_tokens (d := {}) (Piece.length_le ps)
  have hbreakdown := Piece.breakdown_foldl ps {}
  rw [ofTokens, hrequest]
  dsimp only
  rw [Piece.announced_tokens]
  dsimp only
  rw [Draft.ofTokens, hdraft, hbreakdown]
  cases hnone : ps.findSome? breakdown? with
  | some e => rfl
  | none =>
    rw [Piece.foldl_add (List.findSome?_eq_none_iff.1 hnone)]
    simp only [Nat.zero_add, List.nil_append]
    rfl

/-- So many trillions make a statement. -/
theorem exists_statement_trillions {zeros : Nat} {field sign amount : Token} (hfield : field.said = (.name, "Mcap"))
    (hsign : sign.content = .compare .gt)
    (hamount : amount.content = .number ⟨false, 10 ^ zeros, 0⟩ (some (.magnitude .trillion)) false) :
    ∃ s : Clause.Statement, s.tokens = [field, sign, amount] := by
  obtain ⟨hname, htext⟩ := Prod.mk.inj hfield
  have hfound : Catalog.builtin.field? mcapField.key = some mcapField := by decide +kernel
  have hnames : ∀ u ∈ [field], u.isName = true := by simp [Token.isName, hname]
  have hspelled : [field].map Token.word = (Text.words mcapField.label).map Text.lower := by
    rw [List.map_singleton, Token.word, htext]
    decide +kernel
  exact ⟨⟨mcapField, [field], sign, .gt, amount, _, _, _, hfound, rfl, hnames, hspelled, hsign, by decide, hamount⟩, rfl⟩

/-- A statement that is neither read nor skipped. -/
theorem not_forall_ofTokens_pieces :
    ¬ ∀ ps : List Piece, ofTokens Catalog.builtin (ps.flatMap Piece.tokens) =
      if ps.countP isGood = 0 then .error (.empty (Token.joinedText (ps.flatMap Piece.tokens)))
      else .ok { intent := .newScreen, plan := { predicate := .ofItems (ps.filterMap item?) },
                 skipped := ps.filterMap skipped?, heuristics := [], clauseCount := ps.countP isGood } := by
  intro h
  obtain ⟨field, sign, amount, -, hfield, hsign, hamount⟩ := tokenize_trillions 999988
  obtain ⟨s, hs⟩ := exists_statement_trillions hfield hsign hamount
  have hrow := h [.statement s]
  have hbreaks : ofTokens Catalog.builtin [field, sign, amount] = .error (.lex (.breakdown (.fault .tooLarge))) :=
    ofTokens_trillions (by decide) hfield hsign hamount
  have htokens : [Piece.statement s].flatMap Piece.tokens = [field, sign, amount] := by
    rw [List.flatMap_singleton]
    exact hs
  rw [htokens, hbreaks] at hrow
  split at hrow
  · exact absurd hrow (by simp)
  · exact absurd hrow (by simp)

end Query
end EquityScreen
