/-
Filters in words are expressions of filters of the same form.

Every filter that a query can write is put into words as an expression (`Predicate.Sayable.expressed`): its tokens
write the expression clause by clause, what stands under a conjunction is no bare alternative, no clause of it
can be taken for one on the whole query, and its tree has the form of the filter (`Formula.Says`).
-/
import EquityScreen.Proofs.Draft.Expression
import EquityScreen.Proofs.Predicate.WellFormed
import EquityScreen.Proofs.Wording.Clauses

namespace EquityScreen

open Clause (Filters)
open Form (SameSet)
open Text (joined)

/-- A filter that a query can write: comparisons on fields other than the sector, and sets of known sectors. -/
def Predicate.Sayable : Predicate → Prop
  | .all => False
  | .compare cmp => cmp.Sayable
  | .sectorIn s | .sectorOut s => Sector.Listed s.names
  | .and l r | .or l r => l.Sayable ∧ r.Sayable

/-- The text is the expression: its tokens write it, however they are placed, and its tree has the form of
`p`. -/
structure Formula.Says (f : Formula) (text : String) (said : List (Content × String)) (p : Predicate) : Prop where
  spells : Scan.Spells text.toList said
  written : ∀ ts, ts.map Token.said = said → f.Written (Filters Catalog.builtin Token.Plain) ts
  proper : f.Proper
  unlifted : ∀ b, f.lifted b = none
  agrees : Predicate.Agrees f.tree p

variable {f l r : Formula} {text tl tr : String} {said sl sr : List (Content × String)} {p q : Predicate}

/-! ## Connectives -/

namespace Connective

/-- The word for a connective. -/
def word : Connective → String
  | .and => "and"
  | .or => "or"

/-- The expression of two under a connective. -/
def formula : Connective → Formula → Formula → Formula
  | .and => .and
  | .or => .or

/-- The filter of two under a connective. -/
def predicate : Connective → Predicate → Predicate → Predicate
  | .and => .and
  | .or => .or

/-- Filters in a row under a connective. -/
def row (k : Connective) : List Predicate → Predicate
  | [] => .all
  | [p] => p
  | p :: ps => k.predicate p (k.row ps)

end Connective

namespace Formula

theorem Says.of_filters {p' : Predicate} (hspells : Scan.Spells text.toList said) (hne : p' ≠ .all)
    (hfilters : ∀ ts, ts.map Token.said = said → Filters Catalog.builtin Token.Plain ts p')
    (hagrees : Predicate.Agrees p' p) : (Formula.filter p').Says text said p where
  spells := hspells
  written ts hts := .filter (hfilters ts hts)
  proper := hne
  unlifted _ := rfl
  agrees := hagrees

/-- Two expressions under a connective; under a conjunction neither is an alternative. -/
theorem Says.join (k : Connective) (hl : l.Says tl sl p) (hr : r.Says tr sr q)
    (halternative : k = .and → l.isAlternative = false ∧ r.isAlternative = false) :
    (k.formula l r).Says (tl ++ (" " ++ k.word ++ " ") ++ tr) (sl ++ Scan.wordSaid k.word :: sr) (k.predicate p q) where
  spells := by
    have hword := hr.spells.cons_word (w := k.word) (by cases k <;> decide)
    have hall := hl.spells.space hword (by cases k <;> simp [Connective.word] <;> decide)
    simpa using hall
  written ts hts := by
    obtain ⟨us, ws, rfl, hus, hws⟩ := List.map_eq_append_iff.1 hts
    obtain ⟨t, vs, rfl, ht, hvs⟩ := List.map_eq_cons_iff.1 hws
    have hcontent := (Prod.mk.inj ht).1
    cases k with
    | and => exact .and (hl.written us hus) (hcontent.trans (by decide)) (hr.written vs hvs)
    | or => exact .or (hl.written us hus) (hcontent.trans (by decide)) (hr.written vs hvs)
  proper := by
    cases k with
    | and => exact ⟨hl.proper, hr.proper, halternative rfl⟩
    | or => exact ⟨hl.proper, hr.proper⟩
  unlifted b := by cases k <;> exact hl.unlifted _
  agrees := by
    cases k with
    | and => exact Predicate.congruence_agrees.and hl.agrees hr.agrees
    | or => exact Predicate.congruence_agrees.or hl.agrees hr.agrees

/-- An expression in parentheses. -/
theorem Says.group (h : f.Says text said p) :
    (Formula.group f).Says ("(" ++ text ++ ")") ((.openParen, "(") :: (said ++ [(.closeParen, ")")])) p where
  spells := by
    have hall := h.spells.parens
    simpa using hall
  written ts hts := by
    obtain ⟨first, ts, rfl, hfirst, hts⟩ := List.map_eq_cons_iff.1 hts
    obtain ⟨us, vs, rfl, hus, hvs⟩ := List.map_eq_append_iff.1 hts
    obtain ⟨last, vs, rfl, hlast, hvs⟩ := List.map_eq_cons_iff.1 hvs
    rw [List.map_eq_nil_iff.1 hvs]
    exact .group (Prod.mk.inj hfirst).1 (h.written us hus) (Prod.mk.inj hlast).1
  proper := h.proper
  unlifted _ := rfl
  agrees := h.agrees

end Formula

namespace Predicate

/-- The text is an expression of the form of the filter; as it stands under a conjunction it is no bare
alternative. -/
def Expressed (under : Connective) (p : Predicate) (text : String) : Prop :=
  ∃ (f : Formula) (said : List (Content × String)), f.Says text said p ∧ (under = .and → f.isAlternative = false)

variable {k : Connective}

theorem Expressed.under (h : p.Expressed .and text) (k : Connective) : p.Expressed k text := by
  obtain ⟨f, said, hf, hand⟩ := h
  exact ⟨f, said, hf, fun _ => hand rfl⟩

theorem Expressed.of_agrees (h : p.Expressed k text) (hpq : Agrees p q) : q.Expressed k text := by
  obtain ⟨f, said, hf, hand⟩ := h
  exact ⟨f, said, { hf with agrees := hf.agrees.trans hpq }, hand⟩

/-- Two expressions under a connective. -/
theorem Expressed.join (hl : p.Expressed k tl) (hr : q.Expressed k tr) :
    (k.predicate p q).Expressed k (tl ++ (" " ++ k.word ++ " ") ++ tr) := by
  obtain ⟨l, sl, hl, hland⟩ := hl
  obtain ⟨r, sr, hr, hrand⟩ := hr
  refine ⟨_, _, hl.join k hr fun hk => ⟨hland hk, hrand hk⟩, ?_⟩
  rintro rfl
  rfl

/-- An expression in parentheses. -/
theorem Expressed.group (h : p.Expressed k text) : p.Expressed .and ("(" ++ text ++ ")") := by
  obtain ⟨f, said, hf, -⟩ := h
  exact ⟨_, _, hf.group, fun _ => rfl⟩

/-- An expression in parentheses where they are asked for. -/
theorem Expressed.grouped (h : p.Expressed k text) {under : Connective} {b : Bool} (hb : b = true ∨ p.Expressed under text) :
    p.Expressed under (EquityScreen.grouped b text) := by
  cases b with
  | true => exact h.group.under under
  | false => exact hb.resolve_left Bool.false_ne_true

/-- **Expressions in a row** under a connective. -/
theorem Expressed.row {xs : List (String × Predicate)} (hne : xs ≠ []) (h : ∀ x ∈ xs, x.2.Expressed k x.1) :
    (k.row (xs.map (·.2))).Expressed k (joined (" " ++ k.word ++ " ") (xs.map (·.1))) := by
  induction xs with
  | nil => exact absurd rfl hne
  | cons x xs ih =>
    rw [List.forall_mem_cons] at h
    cases xs with
    | nil => exact h.1
    | cons y ys =>
      have hrow := h.1.join (ih (List.cons_ne_nil _ _) h.2)
      exact hrow

end Predicate

/-! ## Forms of rows -/

namespace Predicate

theorem Formed.row {k : Connective} {ps : List Predicate} (hne : ps ≠ []) (h : ∀ p ∈ ps, p.Formed) : (k.row ps).Formed := by
  induction ps with
  | nil => exact absurd rfl hne
  | cons p ps ih =>
    rw [List.forall_mem_cons] at h
    cases ps with
    | nil => exact h.1
    | cons q qs => cases k <;> exact ⟨h.1, ih (List.cons_ne_nil _ _) h.2⟩

/-- The parts of a conjunction in a row. -/
theorem bothParts_row {ps : List Predicate} (hne : ps ≠ []) (h : ∀ p ∈ ps, p.Formed) :
    SameSet (Connective.and.row ps).form.bothParts (parts ps) := by
  induction ps with
  | nil => exact absurd rfl hne
  | cons p ps ih =>
    rw [List.forall_mem_cons] at h
    cases ps with
    | nil =>
      rw [parts_singleton]
      exact .refl h.1.bothParts_normal
    | cons q qs =>
      have hcons : q :: qs ≠ [] := List.cons_ne_nil _ _
      rw [← List.singleton_append, parts_append, parts_singleton]
      exact (bothParts_and h.1 (Formed.row hcons h.2)).trans ((SameSet.refl h.1.bothParts_normal).append (ih hcons h.2))

/-- The parts of alternatives in a row. -/
theorem eitherParts_row {ps : List Predicate} (hne : ps ≠ []) (h : ∀ p ∈ ps, p.Formed) :
    SameSet (Connective.or.row ps).form.eitherParts (ps.flatMap fun p => p.form.eitherParts) := by
  induction ps with
  | nil => exact absurd rfl hne
  | cons p ps ih =>
    rw [List.forall_mem_cons] at h
    cases ps with
    | nil =>
      rw [List.flatMap_singleton]
      exact .refl h.1.eitherParts_normal
    | cons q qs =>
      have hcons : q :: qs ≠ [] := List.cons_ne_nil _ _
      rw [List.flatMap_cons]
      exact (eitherParts_or h.1 (Formed.row hcons h.2)).trans ((SameSet.refl h.1.eitherParts_normal).append (ih hcons h.2))

/-- Sectors asked for one by one, or all at once. -/
theorem agrees_sectorIn {names : List String} {s : SectorSet} (hne : names ≠ []) (h : ∀ x, x ∈ names ↔ x ∈ s.names) :
    Agrees (Connective.or.row (names.map fun name => .sectorIn (.ofList [name]))) (.sectorIn s) := by
  have hmap : names.map (fun name => Predicate.sectorIn (.ofList [name])) ≠ [] := by simpa using hne
  have hformed : ∀ p ∈ names.map (fun name => Predicate.sectorIn (.ofList [name])), p.Formed := by
    simp [Formed]
  refine ⟨iff_of_true (Formed.row hmap hformed) trivial, fun hrow => sameForm_of_eitherParts hrow trivial ?_⟩
  refine (eitherParts_row hmap hformed).trans (SameSet.trans ?_ (Form.eitherParts_bundle (eitherParts_sector _)).symm)
  have hparts : (names.map fun name => Predicate.sectorIn (.ofList [name])).flatMap (fun p => p.form.eitherParts) =
      names.map Form.sector := by
    rw [List.flatMap_map]
    exact List.map_eq_flatMap.symm
  rw [hparts]
  exact .of_mem_iff (fun a ha => (eitherParts_sector _ a ha).1) fun a => by simp [h]

/-- Sectors left out one by one, or all at once. -/
theorem agrees_sectorOut {names : List String} {s : SectorSet} (hne : names ≠ []) (h : ∀ x, x ∈ names ↔ x ∈ s.names) :
    Agrees (Connective.and.row (names.map fun name => .sectorOut (.ofList [name]))) (.sectorOut s) := by
  have hmap : names.map (fun name => Predicate.sectorOut (.ofList [name])) ≠ [] := by simpa using hne
  have hformed : ∀ p ∈ names.map (fun name => Predicate.sectorOut (.ofList [name])), p.Formed := by
    simp [Formed]
  refine ⟨iff_of_true (Formed.row hmap hformed) trivial, fun hrow => sameForm_of_bothParts hrow trivial ?_⟩
  refine (bothParts_row hmap hformed).trans (SameSet.trans ?_ (bothParts_sectorOut s).symm)
  have hparts : parts (names.map fun name => Predicate.sectorOut (.ofList [name])) = names.map Form.notSector := by
    rw [parts, List.flatMap_map]
    exact List.map_eq_flatMap.symm
  rw [hparts]
  exact .of_mem_iff (fun a ha => (bothParts_notSector _ a ha).1) fun a => by simp [h]

end Predicate

/-! ## Filters in words -/

namespace Predicate

variable {style : CurrencyStyle}

theorem Sayable.formed (h : p.Sayable) : p.Formed := by
  induction p with
  | all => exact h
  | compare cmp =>
    obtain ⟨_, _, v, -, hsame, -⟩ := Comparison.Sayable.worded h .western
    exact Value.same_trans (Value.same_symm hsame) hsame
  | sectorIn | sectorOut => trivial
  | and l r ihl ihr | or l r ihl ihr => exact ⟨ihl h.1, ihr h.2⟩

/-- A comparison in words is an expression. -/
theorem expressed_compare {cmp : Comparison} (h : cmp.Sayable) (style : CurrencyStyle) :
    ∃ text, cmp.worded Catalog.builtin style = .ok text ∧ (Predicate.compare cmp).Expressed .and text := by
  obtain ⟨text, said, v, hworded, hsame, hspells, hfilters⟩ := h.worded style
  refine ⟨text, hworded, .filter (.compare _), said, .of_filters hspells (by simp) hfilters ⟨?_, fun _ => ?_⟩, fun _ => rfl⟩
  · exact iff_of_true (Value.same_trans hsame (Value.same_symm hsame)) (Value.same_trans (Value.same_symm hsame) hsame)
  · simp [sameForm, form, Form.same, hsame]

/-- A sector in words is an expression. -/
theorem expressed_sector {op : Operator} (hop : op = .eq ∨ op = .ne) {name : String} (h : name ∈ Sector.listed) :
    (Clause.sectorFilter op name).Expressed .and ("sector " ++ op.sign ++ " " ++ name) := by
  obtain ⟨said, hspells, hfilters⟩ := Clause.filters_sector hop h
  refine ⟨.filter _, said, .of_filters hspells ?_ hfilters (.refl _), fun _ => rfl⟩
  unfold Clause.sectorFilter
  split <;> exact nofun

/-- **Sectors in a row** are an expression, each a set of its own. -/
theorem expressed_sectors (k : Connective) {op : Operator} (hop : op = .eq ∨ op = .ne) {names : List String} (hne : names ≠ [])
    (h : ∀ name ∈ names, name ∈ Sector.listed) :
    (k.row (names.map (Clause.sectorFilter op))).Expressed k
      (joined (" " ++ k.word ++ " ") (names.map ("sector " ++ op.sign ++ " " ++ ·))) := by
  have hrow := @Expressed.row k (names.map fun name => ("sector " ++ op.sign ++ " " ++ name, Clause.sectorFilter op name))
    (by simpa using hne) (List.forall_mem_map.2 fun name hname => (expressed_sector hop (h name hname)).under k)
  simpa only [List.map_map, Function.comp_def] using hrow

theorem mem_sorted {names : List String} {x : String} : x ∈ Sector.sorted names ↔ x ∈ names := List.mem_mergeSort

theorem sorted_ne_nil {names : List String} (h : names ≠ []) : Sector.sorted names ≠ [] := by
  obtain ⟨x, hx⟩ := List.exists_mem_of_ne_nil _ h
  exact List.ne_nil_of_mem (mem_sorted.2 hx)

/-- **A filter in words is an expression** of the form of the filter. -/
theorem Sayable.expressed (h : p.Sayable) (style : CurrencyStyle) (under : Connective) :
    ∃ text, p.worded Catalog.builtin style under = .ok text ∧ p.Expressed under text := by
  induction p generalizing under with
  | all => exact absurd h id
  | compare cmp =>
    obtain ⟨text, hworded, htext⟩ := expressed_compare h style
    exact ⟨text, hworded, htext.under under⟩
  | sectorIn s =>
    have hne := sorted_ne_nil h.1
    have hlisted : ∀ name ∈ Sector.sorted s.names, name ∈ Sector.listed := fun name hname => h.2 name (mem_sorted.1 hname)
    have hagrees := agrees_sectorIn (s := s) hne fun _ => mem_sorted
    have hrow := (expressed_sectors .or (.inl rfl) hne hlisted).of_agrees hagrees
    refine ⟨_, rfl, hrow.grouped ?_⟩
    cases under with
    | or => exact .inr hrow
    | and =>
      rcases Nat.lt_or_ge 1 (Sector.sorted s.names).length with hmany | hone
      · exact .inl (by simpa using hmany)
      · obtain ⟨name, hname⟩ := List.length_eq_one_iff.1 (Nat.le_antisymm hone (List.length_pos_iff.2 hne))
        rw [hname] at hlisted hagrees ⊢
        exact .inr ((expressed_sector (.inl rfl) (hlisted name List.mem_cons_self)).of_agrees hagrees)
  | sectorOut s =>
    have hne := sorted_ne_nil h.1
    have hlisted : ∀ name ∈ Sector.sorted s.names, name ∈ Sector.listed := fun name hname => h.2 name (mem_sorted.1 hname)
    have hrow := (expressed_sectors .and (.inr rfl) hne hlisted).of_agrees (agrees_sectorOut hne fun _ => mem_sorted)
    exact ⟨_, rfl, hrow.grouped (.inr (hrow.under under))⟩
  | and l r ihl ihr =>
    obtain ⟨tl, hwl, hl⟩ := ihl h.1 .and
    obtain ⟨tr, hwr, hr⟩ := ihr h.2 .and
    refine ⟨tl ++ " and " ++ tr, by rw [worded, hwl, hwr]; rfl, ?_⟩
    exact (hl.join hr).under under
  | or l r ihl ihr =>
    obtain ⟨tl, hwl, hl⟩ := ihl h.1 .or
    obtain ⟨tr, hwr, hr⟩ := ihr h.2 .or
    refine ⟨grouped (under == .and) (tl ++ " or " ++ tr), by rw [worded, hwl, hwr]; rfl, (hl.join hr).grouped ?_⟩
    cases under with
    | and => exact .inl rfl
    | or => exact .inr (hl.join hr)

/-- **Filters that all have to hold** are an expression in words. -/
theorem expressed_wordedAll {ps : List Predicate} (hne : ps ≠ []) (h : ∀ p ∈ ps, p.Sayable) (style : CurrencyStyle) :
    ∃ texts, wordedAll Catalog.builtin style ps = .ok texts ∧ texts ≠ [] ∧
      (Connective.and.row ps).Expressed .and (joined " and " texts) := by
  have hall : ∃ xs : List (String × Predicate), wordedAll Catalog.builtin style ps = .ok (xs.map (·.1)) ∧ xs.map (·.2) = ps ∧
      ∀ x ∈ xs, x.2.Expressed .and x.1 := by
    clear hne
    induction ps with
    | nil => exact ⟨[], rfl, rfl, nofun⟩
    | cons p ps ih =>
      rw [List.forall_mem_cons] at h
      obtain ⟨text, hworded, htext⟩ := h.1.expressed style .and
      obtain ⟨xs, hwords, hxs, hall⟩ := ih h.2
      refine ⟨(text, p) :: xs, ?_, by rw [List.map_cons, hxs], List.forall_mem_cons.2 ⟨htext, hall⟩⟩
      unfold wordedAll at hwords ⊢
      rw [List.mapM_cons, hworded, hwords]
      rfl
  obtain ⟨xs, hwords, rfl, hxs⟩ := hall
  have hne : xs ≠ [] := by simpa using hne
  exact ⟨_, hwords, by simpa using hne, Expressed.row hne hxs⟩

end Predicate
end EquityScreen
