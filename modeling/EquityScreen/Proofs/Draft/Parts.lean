/-
The parts of a sentence, and what each of them adds to a plan in the making.

Wherever it ends, a part is read to its end and has one effect on what was noted before (`Draft.Adds`): filters
add their items, sectors asked for or left out their names, an order and a limit themselves, and the text of
everything nothing. Parts with a comma between each two of them have their effects one after the other
(`AddsAll.joined`).
-/
import EquityScreen.Proofs.Clause.Framing
import EquityScreen.Proofs.Query.Expression
import EquityScreen.Proofs.Wording.Outline

namespace EquityScreen

open Scan (Spells wordSaid)
open Text (joined)

namespace Draft

variable {d : Draft} {text text' : String} {texts texts' : List String} {g g' : Draft → Draft} {names : List String}

/-- A part of a sentence ends: a comma comes next, or nothing. -/
def PartEnds (rest : List Token) : Prop := ∀ t ∈ rest.head?, t.content = .comma

theorem PartEnds.ends {rest : List Token} (h : PartEnds rest) : Clause.Ends rest ∧ ∀ t ∈ rest.head?, t.Plain := by
  cases rest with
  | nil => exact ⟨trivial, by simp⟩
  | cons t rest =>
    have ht := h t rfl
    refine ⟨.inr (.inr (.inr ht)), fun u hu => ?_⟩
    rw [← Option.some.inj hu]
    constructor <;> simp [Token.said, ht]

/-- Wherever a part of a sentence ends, the text is read with this effect on what was noted before, and what
comes next is not tied to it. -/
def Adds (text : String) (g : Draft → Draft) : Prop :=
  ∃ (said : List (Content × String)) (n : Nat), Spells text.toList said ∧ n ≤ said.length ∧
    (∀ d : Draft, d.joins = false → (g d).joins = false) ∧
    ∀ ts, ts.map Token.said = said → ∀ d : Draft, d.joins = false → ∀ rest, PartEnds rest → ∀ fuel,
      gather Catalog.builtin (n + fuel) (ts ++ rest) d = gather Catalog.builtin fuel rest (g d)

/-- A part that is read at once. -/
theorem Adds.of_read {said : List (Content × String)} (hspells : Spells text.toList said) (hne : said ≠ [])
    (hjoins : ∀ d : Draft, d.joins = false → (g d).joins = false)
    (h : ∀ ts, ts.map Token.said = said → ∃ t more, ts = t :: more ∧ ∀ rest, PartEnds rest →
      ∃ cl, Clause.read Catalog.builtin t (more ++ rest) = ⟨[cl], ts.length⟩ ∧ ∀ d : Draft, d.joins = false → d.add cl = g d) :
    Adds text g := by
  refine ⟨said, 1, hspells, List.length_pos_iff.2 hne, hjoins, fun ts hts d hd rest hrest fuel => ?_⟩
  obtain ⟨t, more, hmore, hread⟩ := h ts hts
  obtain ⟨cl, hread, hadd⟩ := hread rest hrest
  rw [Nat.add_comm, gather_read hmore hread, List.foldl_cons, hadd d hd]
  rfl

/-! ## Parts in a row -/

/-- **Two parts** with a comma between them. -/
theorem Adds.comma (h : Adds text g) (h' : Adds text' g') : Adds (text ++ ", " ++ text') fun d => g' (g d) := by
  obtain ⟨said, n, hspells, hn, hjoins, hgather⟩ := h
  obtain ⟨said', n', hspells', hn', hjoins', hgather'⟩ := h'
  refine ⟨said ++ (.comma, ",") :: said', n + 1 + n', ?_, ?_, fun d hd => hjoins' _ (hjoins d hd), fun ts hts d hd rest hrest fuel => ?_⟩
  · have hall := hspells.comma hspells'
    simpa using hall
  · simp only [List.length_append, List.length_cons]
    omega
  · obtain ⟨us, ws, rfl, hus, hws⟩ := List.map_eq_append_iff.1 hts
    obtain ⟨t, vs, rfl, ht, hvs⟩ := List.map_eq_cons_iff.1 hws
    have hcomma : t.content = .comma := (Prod.mk.inj ht).1
    have hends : PartEnds (t :: (vs ++ rest)) := fun u hu => Option.some.inj hu ▸ hcomma
    have hskip : Clause.read Catalog.builtin t (vs ++ rest) = ⟨[], 1⟩ := by simp [Clause.read, hcomma]
    rw [List.append_assoc, List.cons_append, Nat.add_assoc, Nat.add_assoc, hgather us hus d hd _ hends, Nat.add_comm 1,
      gather, hskip]
    exact hgather' vs hvs (g d) (hjoins d hd) rest hrest fuel

/-- The parts of a sentence each have an effect, and one after the other they have this one. -/
inductive AddsAll : List String → (Draft → Draft) → Prop
  | nil : AddsAll [] fun d => d
  | cons {text : String} {texts : List String} {g g' : Draft → Draft} :
    Adds text g → AddsAll texts g' → AddsAll (text :: texts) fun d => g' (g d)

theorem AddsAll.one (h : Adds text g) : AddsAll [text] g := by
  have hone := AddsAll.cons h .nil
  exact hone

theorem AddsAll.append (h : AddsAll texts g) (h' : AddsAll texts' g') : AddsAll (texts ++ texts') fun d => g' (g d) := by
  induction h with
  | nil => exact h'
  | cons hx _ ih =>
    have hall := AddsAll.cons hx ih
    exact hall

/-- **Parts in a row** have their effects one after the other. -/
theorem AddsAll.joined (h : AddsAll texts g) (hne : texts ≠ []) : Adds (joined ", " texts) g := by
  induction h with
  | nil => exact absurd rfl hne
  | cons hx hxs ih =>
    cases hxs with
    | nil => exact hx
    | cons => exact hx.comma (ih (List.cons_ne_nil _ _))

/-! ## Filters -/

/-- What comes after an expression is not tied to it. -/
theorem joins_items (f : Formula) (d : Draft) (n : Nat) : (d.extended f.items n).joins = false := by
  obtain ⟨is, i, hitems, hi⟩ : ∃ is i, f.items = is ++ [i] ∧ ({ items := [i] } : Draft).joins = false := by
    induction f with
    | filter | sector => exact ⟨[], _, rfl, rfl⟩
    | group f => exact ⟨.opening :: f.items, .closing, rfl, rfl⟩
    | and l r _ ihr =>
      obtain ⟨is, i, hitems, hi⟩ := ihr
      exact ⟨l.items ++ .and :: is, i, by rw [Formula.items, hitems]; simp, hi⟩
    | or l r _ ihr =>
      obtain ⟨is, i, hitems, hi⟩ := ihr
      exact ⟨l.items ++ .or :: is, i, by rw [Formula.items, hitems]; simp, hi⟩
  rw [hitems, joins_extended_snoc, hi]

/-- **Filters** add their items. -/
theorem adds_filters {p : Predicate} (h : p.Expressed .and text) :
    ∃ is n, 0 < n ∧ Predicate.ofItems is ≠ .all ∧ (Predicate.ofItems is).Agrees p ∧ Adds text (·.extended is n) := by
  obtain ⟨f, said, hf, -⟩ := h
  have hnonempty : ∀ ts p, Clause.Filters Catalog.builtin Token.Plain ts p → ts ≠ [] := by
    rintro ts p ⟨t, more, rfl, -⟩
    exact List.cons_ne_nil _ _
  have hlength := (hf.written (said.map Clause.unplaced) (by simp [Function.comp_def, Token.said, Clause.unplaced])).length_items
    hnonempty
  rw [List.length_map] at hlength
  obtain ⟨hne, hagrees⟩ := Formula.ofItems_items Predicate.congruence_agrees hf.proper
  refine ⟨f.items, f.clauses, hlength.2, hne, hagrees.trans hf.agrees, said, f.items.length, hf.spells, hlength.1,
    fun d _ => joins_items f d _, fun ts hts d hd rest hrest fuel => ?_⟩
  have hplain : ∀ t ∈ ts, t.Plain := fun t ht => hf.spells.plainly _ (hts ▸ List.mem_map_of_mem ht)
  rw [gather_written_start (fun _ _ h => h) (hf.written ts hts) hplain hd hrest.ends.1 hrest.ends.2, started, hf.unlifted]

/-! ## Sectors -/

/-- The tokens of names are words and commas. -/
def Worded (said : List (Content × String)) : Prop := ∀ x ∈ said, x.1 = .comma ∨ ∃ w, x = wordSaid w

theorem worded_words (ws : List String) : Worded (ws.map wordSaid) := fun x hx => by
  obtain ⟨w, -, rfl⟩ := List.mem_map.1 hx
  exact .inr ⟨w, rfl⟩

/-- The names of sectors in words. -/
theorem spells_names (hne : names ≠ []) (h : ∀ name ∈ names, name ∈ Sector.listed) :
    ∃ said, Spells (joined ", " names).toList said ∧ Worded said ∧
      ∀ ts, ts.map Token.said = said → Clause.NamesSectors ts names := by
  induction names with
  | nil => exact absurd rfl hne
  | cons name names ih =>
    rw [List.forall_mem_cons] at h
    obtain ⟨hjoined, hwords, hspelled, -⟩ := Sector.spelled_of_listed h.1
    have hname := Scan.spells_words hwords hspelled
    rw [hjoined] at hname
    cases names with
    | nil => exact ⟨_, hname, worded_words _, fun ts hts => .one (Clause.namesSector_of_listed h.1 hts)⟩
    | cons other names =>
      obtain ⟨said, hsaid, hworded, hmore⟩ := ih (List.cons_ne_nil _ _) h.2
      refine ⟨(Text.words name).map wordSaid ++ (.comma, ",") :: said, ?_, ?_, fun ts hts => ?_⟩
      · have hall := hname.comma hsaid
        rw [Text.joined_cons_cons, String.append_assoc, String.toList_append, String.toList_append]
        exact hall
      · exact List.forall_mem_append.2 ⟨worded_words _, List.forall_mem_cons.2 ⟨.inl rfl, hworded⟩⟩
      · obtain ⟨us, ws, rfl, hus, hws⟩ := List.map_eq_append_iff.1 hts
        obtain ⟨t, vs, rfl, ht, hvs⟩ := List.map_eq_cons_iff.1 hws
        exact .cons (Clause.namesSector_of_listed h.1 hus) (Prod.mk.inj ht).1 (hmore vs hvs)

theorem sorted_listed (h : Sector.Listed names) : Sector.sorted names ≠ [] ∧ ∀ name ∈ Sector.sorted names, name ∈ Sector.listed :=
  ⟨Predicate.sorted_ne_nil h.1, fun name hname => h.2 name (Predicate.mem_sorted.1 hname)⟩

/-- A word, the names of sectors, and the noun. -/
theorem spells_sectors (h : Sector.Listed names) {w : String} (hw : Scan.isSpelled w.toList = true) :
    ∃ said noun, Spells (w ++ " " ++ sectorPhrase names).toList (wordSaid w :: (said ++ [wordSaid noun])) ∧
      Worded said ∧ Scan.wordContent noun.toList = .keyword .sector ∧
      ∀ ts, ts.map Token.said = said → Clause.NamesSectors ts (Sector.sorted names) := by
  obtain ⟨hne, hlisted⟩ := sorted_listed h
  obtain ⟨said, hsaid, hworded, hnames⟩ := spells_names hne hlisted
  obtain ⟨noun, hnoun, hphrase⟩ : ∃ noun, (noun = "sector" ∨ noun = "sectors") ∧
      sectorPhrase names = joined ", " (Sector.sorted names) ++ " " ++ noun := by
    unfold sectorPhrase
    split <;> exact ⟨_, by simp, rfl⟩
  refine ⟨said, noun, ?_, hworded, ?_, hnames⟩
  · have hspelled : Scan.isSpelled noun.toList = true := by rcases hnoun with rfl | rfl <;> decide
    have hfirst : ∀ c ∈ noun.toList.head?, c ≠ '%' ∧ Text.foldLetter c ∉ Scan.markInitials := by
      rcases hnoun with rfl | rfl <;> exact fun c hc => Option.some.inj hc ▸ by decide
    have hall := (hsaid.space (Scan.spells_word hspelled) hfirst).cons_word hw
    rw [hphrase]
    simpa using hall
  · rcases hnoun with rfl | rfl <;> decide

/-- The tokens of sectors between a word and the noun. -/
theorem sectors_tokens {said : List (Content × String)} {w noun : String} {ts : List Token}
    (hts : ts.map Token.said = wordSaid w :: (said ++ [wordSaid noun])) :
    ∃ first us last, ts = first :: (us ++ [last]) ∧ first.content = Scan.wordContent w.toList ∧ us.map Token.said = said ∧
      last.content = Scan.wordContent noun.toList := by
  obtain ⟨first, ws, rfl, hfirst, hws⟩ := List.map_eq_cons_iff.1 hts
  obtain ⟨us, vs, rfl, hus, hvs⟩ := List.map_eq_append_iff.1 hws
  obtain ⟨last, vs, rfl, hlast, hnil⟩ := List.map_eq_cons_iff.1 hvs
  rw [List.map_eq_nil_iff.1 hnil]
  exact ⟨first, us, last, rfl, (Prod.mk.inj hfirst).1, hus, (Prod.mk.inj hlast).1⟩

/-- **Sectors asked for** are noted as those of the whole plan. -/
theorem adds_included (h : Sector.Listed names) (hnodup : names.Nodup) :
    Adds ("in " ++ sectorPhrase names)
      fun d => { d.counted with included := union d.included (Sector.sorted names) } := by
  obtain ⟨said, noun, hspells, -, hnoun, hnames⟩ := spells_sectors h (w := "in") (by decide)
  refine .of_read hspells (List.cons_ne_nil _ _) (fun d hd => hd) fun ts hts => ?_
  obtain ⟨first, us, last, rfl, hfirst, hus, hlast⟩ := sectors_tokens hts
  refine ⟨first, us ++ [last], rfl, fun rest hrest => ⟨.sectors (Sector.sorted names) false, ?_, fun d hd => ?_⟩⟩
  · have hread := (hnames us hus).read_inside (Sector.sorted_nodup hnodup) (hfirst.trans (by decide)) (hlast.trans hnoun)
      hrest.ends.1 (c := Catalog.builtin)
    have hor : Clause.nextIs .or rest = false := by
      cases rest with
      | nil => rfl
      | cons t rest => simp [Clause.nextIs, Token.isKeyword, hrest t rfl]
    rw [hor] at hread
    rw [List.append_assoc, List.singleton_append, hread]
    simp
  · rw [add, addSectors, hd]
    rfl

/-- **Sectors left out** are noted as those of the whole plan. -/
theorem adds_excluded (h : Sector.Listed names) (hnodup : names.Nodup) :
    Adds ("excluding " ++ sectorPhrase names)
      fun d => { d.counted with excluded := union d.excluded (Sector.sorted names) } := by
  obtain ⟨said, noun, hspells, -, hnoun, hnames⟩ := spells_sectors h (w := "excluding") (by decide)
  refine .of_read hspells (List.cons_ne_nil _ _) (fun d hd => hd) fun ts hts => ?_
  obtain ⟨first, us, last, rfl, hfirst, hus, hlast⟩ := sectors_tokens hts
  refine ⟨first, us ++ [last], rfl, fun rest _ => ⟨.excludedSectors (Sector.sorted names), ?_, fun d _ => rfl⟩⟩
  have hread := (hnames us hus).read_exclude (Sector.sorted_nodup hnodup) (hfirst.trans (by decide)) (hlast.trans hnoun) rest
    (c := Catalog.builtin)
  rw [List.append_assoc, List.singleton_append, hread]
  simp

/-! ## Order and limit -/

/-- What the tokens of an order say. -/
def orderSaid (f : Field) (direction : Direction) : List (Content × String) :=
  wordSaid "sorted" :: wordSaid "by" :: ((Text.words f.label).map wordSaid ++ [wordSaid direction.word])

section Order

variable {f : Field} {key : String} (hf : Catalog.builtin.field? key = some f) (hk : f.kind ≠ .sector)
include hf hk

/-- An order in words. -/
theorem spells_order (direction : Direction) :
    Spells ("sorted by " ++ f.label ++ " " ++ direction.word).toList (orderSaid f direction) := by
  have hmem : f ∈ Catalog.builtinFields := Catalog.fields_ofFields Catalog.builtinFields ▸ Catalog.mem_fields_of_field? hf
  obtain ⟨hlabel, ⟨w, ws, hwords, -⟩, hspelled, -⟩ := Catalog.spelled_of_label hmem hk
  have hdirection : Scan.isSpelled direction.word.toList = true := by cases direction <;> decide
  have hall := (((Scan.spells_word hdirection).append_words (hwords ▸ List.cons_ne_nil _ _) hspelled).cons_word
    (w := "by") (by decide)).cons_word (w := "sorted") (by decide)
  rw [hlabel] at hall
  simpa [orderSaid] using hall

/-- An order is read as such, whatever comes next. -/
theorem read_order {direction : Direction} {ts : List Token} (hts : ts.map Token.said = orderSaid f direction) :
    ∃ t more, ts = t :: more ∧ t.content = .keyword .sort ∧ ∀ rest,
      Clause.read Catalog.builtin t (more ++ rest) = ⟨[.order ⟨key, direction⟩], ts.length⟩ := by
  obtain ⟨t, us, rfl, ht, hus⟩ := List.map_eq_cons_iff.1 hts
  obtain ⟨b, vs, rfl, hb, hvs⟩ := List.map_eq_cons_iff.1 hus
  obtain ⟨label, ws, rfl, hlabel, hws⟩ := List.map_eq_append_iff.1 hvs
  obtain ⟨last, ws, rfl, hlast, hnil⟩ := List.map_eq_cons_iff.1 hws
  rw [List.map_eq_nil_iff.1 hnil]
  have hcontent : t.content = .keyword .sort := (Prod.mk.inj ht).1.trans (by decide)
  refine ⟨t, b :: (label ++ [last]), rfl, hcontent, fun rest => ?_⟩
  have hby : b.isKeyword .by = true := by rw [Token.isKeyword, (Prod.mk.inj hb).1]; decide
  have hfield := Clause.fieldAt?_label_direction hf hk hlabel hlast rest
  have hat : Clause.directionAt .descending (last :: rest) = (direction, 1) := by
    have hlast : last.content = _ := (Prod.mk.inj hlast).1
    cases direction <;> simp only [Clause.directionAt, Token.isKeyword, hlast] <;> rfl
  have horder : Clause.orderBy Catalog.builtin .descending 2 (t :: b :: (label ++ last :: rest)) =
      ([.order ⟨key, direction⟩], 2 + label.length + 1) := by
    rw [Clause.orderBy, List.drop_succ_cons, List.drop_succ_cons, List.drop_zero, hfield]
    simp only [← List.drop_drop, List.drop_succ_cons, List.drop_zero, List.drop_left, hat, Catalog.key_of_field? hf]
  rw [Clause.read.eq_def]
  simp only [hcontent, Clause.readKeyword, List.cons_append, List.append_assoc, List.nil_append, List.drop_succ_cons,
    List.drop_zero, Clause.nextIs, hby, if_true, horder, List.length_cons, List.length_append, List.length_nil]
  congr 1
  omega

/-- **An order** is noted. -/
theorem adds_order (direction : Direction) :
    Adds ("sorted by " ++ f.label ++ " " ++ direction.word) fun d => { d.counted with sort := some ⟨key, direction⟩ } := by
  refine .of_read (spells_order hf hk direction) (List.cons_ne_nil _ _) (fun d hd => hd) fun ts hts => ?_
  obtain ⟨t, more, hmore, -, hread⟩ := read_order hf hk hts
  exact ⟨t, more, hmore, fun rest _ => ⟨_, hread rest, fun d _ => rfl⟩⟩

end Order

/-- No field is named where a part ends. -/
theorem PartEnds.fieldAt? {rest : List Token} (h : PartEnds rest) (c : Catalog) : Clause.fieldAt? c rest = none := by
  cases hfield : Clause.fieldAt? c rest with
  | none => rfl
  | some r =>
    obtain ⟨u, more, rfl, hu⟩ := Clause.exists_cons_of_longest? hfield
    rw [Token.isName, h u rfl] at hu
    exact absurd hu (by decide)

/-- A limit at the end of a part is read as such. -/
theorem read_limit {t u : Token} {fromBottom : Bool} {n : Nat} {rest : List Token}
    (ht : t.content = .keyword (if fromBottom then .bottom else .top)) (hu : u.content = .number ⟨false, n, 0⟩ none false)
    (hn : n ≠ 0) (hrest : PartEnds rest) :
    Clause.read Catalog.builtin t (u :: rest) = ⟨[.limit n fromBottom], 2⟩ := by
  have hby : Clause.nextIs .by rest = false := by
    cases rest with
    | nil => rfl
    | cons v rest => simp [Clause.nextIs, Token.isKeyword, hrest v rfl]
  have hlimit : Clause.limitClause Catalog.builtin fromBottom (t :: u :: rest) = ([.limit n fromBottom], 2) := by
    simp only [Clause.limitClause, List.drop_succ_cons, List.drop_zero, hu, hby, Clause.orderUnlessCompared, hrest.fieldAt?]
    simp [Decimal.isWhole, Decimal.truncate, hn]
  rw [Clause.read.eq_def]
  cases fromBottom <;> simp only [ht, Bool.false_eq_true, if_false, if_true, Clause.readKeyword, hlimit]

/-- A count in words. -/
theorem spells_count (n : Nat) :
    Spells (toString (n : Int)).toList [(.number ⟨false, n, 0⟩ none false, toString (n : Int))] := by
  have hspells := Scan.spells_number false (Decimal.digits_toDigits n) Nat.toDigits_ne_nil Scan.digits_nil
    (show ∀ s, none ≠ some (UnitMark.other s) by simp)
  have hchars : Scan.numeralChars false (Nat.toDigits 10 n) [] ++ Scan.markChars none = (toString (n : Int)).toList := by
    show [] ++ (Nat.toDigits 10 n ++ []) ++ [] = (Nat.repr n).toList
    rw [Nat.repr, String.toList_ofList]
    simp
  rw [hchars, String.ofList_toList, List.append_nil, Text.digitsValue_toDigits] at hspells
  exact hspells

/-- The word for the end that a limit keeps. -/
def endWord (fromBottom : Bool) : String := if fromBottom then "bottom" else "top"

/-- What the tokens of a limit say. -/
def limitSaid (fromBottom : Bool) (n : Nat) : List (Content × String) :=
  [wordSaid "limited", wordSaid "to", wordSaid (endWord fromBottom), (.number ⟨false, n, 0⟩ none false, toString (n : Int))]

/-- A limit in words. -/
theorem spells_limit (fromBottom : Bool) (n : Nat) :
    Spells ("limited to " ++ endWord fromBottom ++ " " ++ toString (n : Int)).toList (limitSaid fromBottom n) := by
  have hend : Scan.isSpelled (endWord fromBottom).toList = true := by cases fromBottom <;> decide
  have hall := (((spells_count n).cons_word hend).cons_word (w := "to") (by decide)).cons_word (w := "limited") (by decide)
  have hchars : ("limited to " ++ endWord fromBottom ++ " " ++ toString (n : Int)).toList =
      "limited".toList ++ ' ' :: ("to".toList ++ ' ' :: ((endWord fromBottom).toList ++ ' ' :: (toString (n : Int)).toList)) := by
    simp
  rwa [hchars]

/-- A limit at the end of a part has its effect, whatever was noted before. -/
theorem gather_limit {fromBottom : Bool} {n : Nat} (hn : n ≠ 0) {ts : List Token} (hts : ts.map Token.said = limitSaid fromBottom n)
    (d : Draft) {rest : List Token} (hrest : PartEnds rest) (fuel : Nat) :
    gather Catalog.builtin (3 + fuel) (ts ++ rest) d =
      gather Catalog.builtin fuel rest { d.counted with limit := some n, fromBottom } := by
  obtain ⟨limited, us, rfl, hlimited, hus⟩ := List.map_eq_cons_iff.1 hts
  obtain ⟨before, vs, rfl, hbefore, hvs⟩ := List.map_eq_cons_iff.1 hus
  obtain ⟨t, ws, rfl, ht, hws⟩ := List.map_eq_cons_iff.1 hvs
  obtain ⟨u, xs, rfl, hu, hnil⟩ := List.map_eq_cons_iff.1 hws
  rw [List.map_eq_nil_iff.1 hnil]
  have hcontent : t.content = .keyword (if fromBottom then .bottom else .top) :=
    (Prod.mk.inj ht).1.trans (by cases fromBottom <;> decide)
  have hnumber : u.content = .number ⟨false, n, 0⟩ none false := (Prod.mk.inj hu).1
  have hword : Clause.isWord u = false := by
    simp [Clause.isWord, Token.isName, Clause.words?.isKeywordToken, hnumber]
  have hframing := Clause.read_framing (w := "limited") (by decide) hlimited (before :: t :: u :: rest)
  have hpassed := Clause.read_to hbefore (u := t) (by rw [ht]; cases fromBottom <;> simp [endWord]) hword rest
  have hread := read_limit hcontent hnumber hn hrest
  rw [show 3 + fuel = fuel + 1 + 1 + 1 by omega]
  simp only [List.cons_append, List.nil_append, gather, hframing, hpassed, hread, List.drop_succ_cons, List.drop_zero]
  rfl

/-- **A limit** is noted. -/
theorem adds_limit (fromBottom : Bool) {n : Nat} (hn : n ≠ 0) :
    Adds ("limited to " ++ endWord fromBottom ++ " " ++ toString (n : Int))
      fun d => { d.counted with limit := some n, fromBottom } :=
  ⟨limitSaid fromBottom n, 3, spells_limit fromBottom n, by simp [limitSaid], fun _ hd => hd,
    fun _ hts d _ _ hrest fuel => gather_limit hn hts d hrest fuel⟩

/-! ## Words without effect -/

/-- **Words that frame a plan** have no effect. -/
theorem gather_framing {ws : List String} (hws : ∀ w ∈ ws, w ∈ Catalog.framing) {ts : List Token}
    (hts : ts.map Token.said = ws.map wordSaid) (d : Draft) (rest : List Token) (fuel : Nat) :
    gather Catalog.builtin (ws.length + fuel) (ts ++ rest) d = gather Catalog.builtin fuel rest d := by
  induction ws generalizing ts with
  | nil => rw [List.map_eq_nil_iff.1 hts, List.length_nil, Nat.zero_add, List.nil_append]
  | cons w ws ih =>
    rw [List.forall_mem_cons] at hws
    obtain ⟨t, ts, rfl, ht, hts⟩ := List.map_eq_cons_iff.1 hts
    rw [List.length_cons, Nat.add_right_comm, List.cons_append, gather, Clause.read_framing hws.1 ht]
    exact ih hws.2 hts

/-- **The text of everything** has no effect. -/
theorem adds_all : Adds allSecurities fun d => d := by
  have hne : ["all", "securities"] ≠ [] := List.cons_ne_nil _ _
  have hframing : ∀ w ∈ ["all", "securities"], w ∈ Catalog.framing := by decide
  exact ⟨_, 2, Scan.spells_words hne (by decide), by decide, fun d hd => hd,
    fun ts hts d _ rest _ fuel => gather_framing hframing hts d rest fuel⟩

end Draft
end EquityScreen
