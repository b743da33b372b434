/-
What the form of a filter forgets: the order, the grouping and the repetition of its parts, what holds of everything
under `and`, and how a set of sectors is put together.

Two filters are of one form when whatever has the form of one has that of the other (`Predicate.OneForm`). For filters
without not-a-number values this is to have the form of each other (`oneForm_iff`); a filter with such a value has the
form of no filter, not even its own. The laws hold for all filters (`form_laws`), and a part may be exchanged for one of
its form wherever it stands (`OneForm.fill`).
-/
import EquityScreen.Proofs.Predicate.Form

namespace EquityScreen

/-! ## Values that are numbers or texts -/

theorem Number.same_self_iff (n : Number) : n.same n = true ↔ n.isNaN = false := by
  rw [same_iff]
  cases n with
  | int n => exact iff_of_true ⟨_, rfl, rfl⟩ rfl
  | double x =>
    cases x with
    | nan => exact iff_of_false (fun ⟨p, h, _⟩ => absurd h nofun) (by decide)
    | infinite negative => exact iff_of_true ⟨_, rfl, rfl⟩ rfl
    | finite negative steps below fits => exact iff_of_true ⟨_, rfl, rfl⟩ rfl

theorem Value.same_self_iff (v : Value) : v.same v = true ↔ v.isNaN = false := by
  cases v with
  | number n => exact n.same_self_iff
  | text s => exact iff_of_true (beq_self_eq_true s) rfl

namespace Form

variable {f g : Form} {as : List Form}

/-- What is the same as anything is the same as itself. -/
theorem same_self (h : same f g = true) : same f f = true := same_trans h (same_symm h)

/-- Nothing that a list held is lost but what is the same as something. -/
theorem same_self_of_distinct (h : ∀ a ∈ distinct as, same a a = true) : ∀ a ∈ as, same a a = true := by
  induction as with
  | nil => exact h
  | cons b as ih =>
    simp only [distinct] at h
    split at h
    · next hone =>
      obtain ⟨a, -, hab⟩ := hasOne_iff.1 hone
      exact List.forall_mem_cons.2 ⟨same_self (same_symm hab), ih h⟩
    · obtain ⟨hb, h⟩ := List.forall_mem_cons.1 h
      exact List.forall_mem_cons.2 ⟨hb, ih h⟩

/-- The parts of a bundle that is the same as itself are so too. -/
theorem same_self_of_bundle {connective : List Form → Form}
    (hsame : ∀ {as bs}, same (connective as) (connective bs) = true ↔ SameSet as bs)
    (h : same (bundle connective as) (bundle connective as) = true) : ∀ a ∈ as, same a a = true := by
  refine same_self_of_distinct ?_
  rcases bundle_cases connective as with ⟨a, hdistinct, heq⟩ | ⟨-, heq⟩ <;> rw [heq] at h
  · rw [hdistinct]
    exact List.forall_mem_singleton.2 h
  · intro a ha
    obtain ⟨b, -, hab⟩ := (hsame.1 h).left a ha
    exact same_self hab

theorem same_self_of_bothParts (h : ∀ a ∈ f.bothParts, same a a = true) : same f f = true := by
  cases f with
  | all => rfl
  | both ps => exact same_both.2 (.refl_of h)
  | _ => exact h _ List.mem_cons_self

theorem same_self_of_eitherParts (h : ∀ a ∈ f.eitherParts, same a a = true) : same f f = true := by
  cases f with
  | either ps => exact same_either.2 (.refl_of h)
  | _ => exact h _ List.mem_cons_self

end Form

namespace Predicate

open Form (Regular Connective connective_both connective_either)

variable {p q r p' q' : Predicate}

/-- Every value of the filter is a number or a text. -/
def Valued (p : Predicate) : Prop := ∀ c ∈ p.comparisons, c.value.isNaN = false

theorem valued_and : (Predicate.and p q).Valued ↔ p.Valued ∧ q.Valued := List.forall_mem_append

theorem valued_or : (Predicate.or p q).Valued ↔ p.Valued ∧ q.Valued := List.forall_mem_append

theorem valued_of_comparisons (h : p.comparisons = []) : p.Valued := fun _ hc => absurd (h ▸ hc) List.not_mem_nil

theorem regular_sectorIn (s : SectorSet) : Form.Normal (Predicate.sectorIn s).form := Formed.normal (p := .sectorIn s) trivial

theorem regular_sectorOut (s : SectorSet) : Form.Normal (Predicate.sectorOut s).form := Formed.normal (p := .sectorOut s) trivial

theorem Valued.regular (h : p.Valued) : Regular True p.form := by
  induction p with
  | all => exact .all trivial
  | compare c => exact .compare ((Value.same_self_iff _).2 (h c List.mem_cons_self))
  | sectorIn s => exact (regular_sectorIn s).mono False.elim
  | sectorOut s => exact (regular_sectorOut s).mono False.elim
  | and l r ihl ihr =>
    obtain ⟨hl, hr⟩ := valued_and.1 h
    exact Form.regular_bundle_both (List.forall_mem_append.2 ⟨(ihl hl).bothParts, (ihr hr).bothParts⟩)
  | or l r ihl ihr =>
    obtain ⟨hl, hr⟩ := valued_or.1 h
    exact Form.regular_bundle_either (List.forall_mem_append.2 ⟨(ihl hl).eitherParts, (ihr hr).eitherParts⟩)

/-- **A filter has its own form** when each of its values is a number or a text. -/
theorem sameForm_self_iff : p.sameForm p = true ↔ p.Valued := by
  refine ⟨fun h => ?_, fun h => h.regular.same_refl⟩
  induction p with
  | compare c =>
    have hvalue : c.value.same c.value = true := by simpa [sameForm, form, Form.same] using h
    exact List.forall_mem_singleton.2 ((Value.same_self_iff _).1 hvalue)
  | and l r ihl ihr =>
    have hparts := List.forall_mem_append.1 (Form.same_self_of_bundle Form.same_both h)
    exact valued_and.2 ⟨ihl (Form.same_self_of_bothParts hparts.1), ihr (Form.same_self_of_bothParts hparts.2)⟩
  | or l r ihl ihr =>
    have hparts := List.forall_mem_append.1 (Form.same_self_of_bundle Form.same_either h)
    exact valued_or.2 ⟨ihl (Form.same_self_of_eitherParts hparts.1), ihr (Form.same_self_of_eitherParts hparts.2)⟩
  | all | sectorIn | sectorOut => exact valued_of_comparisons rfl

/-! ## Filters of one form -/

/-- Whatever has the form of one filter has that of the other. -/
def OneForm (p q : Predicate) : Prop := ∀ o : Predicate, p.sameForm o = q.sameForm o

theorem OneForm.symm (h : OneForm p q) : OneForm q p := fun o => (h o).symm

theorem OneForm.trans (h : OneForm p q) (h' : OneForm q r) : OneForm p r := fun o => (h o).trans (h' o)

/-- Filters of which one has values that are not numbers only if the other does, and else have the form of each other. -/
theorem oneForm_of_valued (hvalued : p.Valued ↔ q.Valued) (h : p.Valued → q.Valued → p.sameForm q = true) :
    OneForm p q := by
  intro o
  rw [Bool.eq_iff_iff]
  constructor
  · intro hpo
    have hp := sameForm_self_iff.1 (Form.same_self hpo)
    exact Form.same_trans (Form.same_symm (h hp (hvalued.1 hp))) hpo
  · intro hqo
    have hq := sameForm_self_iff.1 (Form.same_self hqo)
    exact Form.same_trans (h (hvalued.2 hq) hq) hqo

theorem OneForm.valued_iff (h : OneForm p q) : p.Valued ↔ q.Valued := by
  rw [← sameForm_self_iff, ← sameForm_self_iff]
  constructor
  · intro hp
    rw [h p] at hp
    exact Form.same_self hp
  · intro hq
    rw [← h q] at hq
    exact Form.same_self hq

/-- Filters without not-a-number values are of one form when they have the form of each other. -/
theorem oneForm_iff (hp : p.Valued) : OneForm p q ↔ p.sameForm q = true := by
  constructor
  · intro h
    rw [h q]
    exact sameForm_self_iff.2 (h.valued_iff.1 hp)
  · intro h
    have hq : q.Valued := sameForm_self_iff.1 (Form.same_self (Form.same_symm h))
    exact oneForm_of_valued (iff_of_true hp hq) fun _ _ => h

/-! ## Connectives -/

theorem OneForm.and (hp : OneForm p p') (hq : OneForm q q') : OneForm (.and p q) (.and p' q') := by
  refine oneForm_of_valued ?_ fun h h' => ?_
  · rw [valued_and, valued_and, hp.valued_iff, hq.valued_iff]
  · rw [valued_and] at h h'
    exact connective_both.congr h.1.regular h'.1.regular h.2.regular h'.2.regular ((oneForm_iff h.1).1 hp)
      ((oneForm_iff h.2).1 hq)

theorem OneForm.or (hp : OneForm p p') (hq : OneForm q q') : OneForm (.or p q) (.or p' q') := by
  refine oneForm_of_valued ?_ fun h h' => ?_
  · rw [valued_or, valued_or, hp.valued_iff, hq.valued_iff]
  · rw [valued_or] at h h'
    exact connective_either.congr h.1.regular h'.1.regular h.2.regular h'.2.regular ((oneForm_iff h.1).1 hp)
      ((oneForm_iff h.2).1 hq)

theorem oneForm_and_comm (p q : Predicate) : OneForm (.and p q) (.and q p) := by
  refine oneForm_of_valued (by rw [valued_and, valued_and, and_comm]) fun h _ => ?_
  rw [valued_and] at h
  exact connective_both.comm h.1.regular h.2.regular

theorem oneForm_or_comm (p q : Predicate) : OneForm (.or p q) (.or q p) := by
  refine oneForm_of_valued (by rw [valued_or, valued_or, and_comm]) fun h _ => ?_
  rw [valued_or] at h
  exact connective_either.comm h.1.regular h.2.regular

theorem oneForm_and_assoc (p q r : Predicate) : OneForm (.and (.and p q) r) (.and p (.and q r)) := by
  refine oneForm_of_valued (by simp only [valued_and, and_assoc]) fun h h' => ?_
  rw [valued_and] at h h'
  exact connective_both.assoc h'.1.regular (valued_and.1 h.1).2.regular h.2.regular h.1.regular h'.2.regular

theorem oneForm_or_assoc (p q r : Predicate) : OneForm (.or (.or p q) r) (.or p (.or q r)) := by
  refine oneForm_of_valued (by simp only [valued_or, and_assoc]) fun h h' => ?_
  rw [valued_or] at h h'
  exact connective_either.assoc h'.1.regular (valued_or.1 h.1).2.regular h.2.regular h.1.regular h'.2.regular

/-- What has not the form of everything has another form. -/
theorem form_ne_all (h : p.sameForm .all = false) : p.form ≠ .all := fun heq => by
  rw [sameForm, heq] at h
  exact absurd h (by decide)

theorem oneForm_and_self (h : p.sameForm .all = false) : OneForm (.and p p) p := by
  refine oneForm_of_valued (by rw [valued_and, and_self]) fun _ hp => ?_
  exact connective_both.idem hp.regular (hp.regular.bundle_bothParts (form_ne_all h))

theorem oneForm_or_self (p : Predicate) : OneForm (.or p p) p := by
  refine oneForm_of_valued (by rw [valued_or, and_self]) fun _ hp => ?_
  exact connective_either.idem hp.regular hp.regular.bundle_eitherParts

/-- What holds of everything is left out of a conjunction. -/
theorem oneForm_all_and (h : p.sameForm .all = false) : OneForm (.and .all p) p := by
  have hvalued : (Predicate.and .all p).Valued ↔ p.Valued := by
    rw [valued_and]
    exact and_iff_right (valued_of_comparisons rfl)
  refine oneForm_of_valued hvalued fun _ hp => ?_
  have hform : (Predicate.and .all p).form = p.form := hp.regular.bundle_bothParts (form_ne_all h)
  rw [sameForm, hform]
  exact hp.regular.same_refl

theorem oneForm_and_all (h : p.sameForm .all = false) : OneForm (.and p .all) p :=
  (oneForm_and_comm p .all).trans (oneForm_all_and h)

/-! ## Sectors -/

/-- A set of sectors that is put together from two is an alternative of the two. -/
theorem oneForm_sectorIn (s t : SectorSet) :
    OneForm (.sectorIn (.ofList (s.names ++ t.names))) (.or (.sectorIn s) (.sectorIn t)) := by
  refine oneForm_of_valued (iff_of_true (valued_of_comparisons rfl) (valued_of_comparisons rfl)) fun _ _ => ?_
  have hparts := (Form.eitherParts_bundle (eitherParts_sector s.names)).append
    (Form.eitherParts_bundle (eitherParts_sector t.names))
  refine Form.same_bundle Form.same_either (fun a ha => (eitherParts_sector _ a ha).1) (fun a ha => ?_) (.trans ?_ hparts.symm)
  · exact connective_either.append_regular (regular_sectorIn s) (regular_sectorIn t) a ha
  · rw [← List.map_append]
    refine .of_mem_iff (fun a ha => (eitherParts_sector _ a ha).1) fun a => ?_
    simp only [List.mem_map, SectorSet.mem_names_ofList]

/-- An excluded set of sectors that is put together from two excludes both. -/
theorem oneForm_sectorOut (s t : SectorSet) :
    OneForm (.sectorOut (.ofList (s.names ++ t.names))) (.and (.sectorOut s) (.sectorOut t)) := by
  refine oneForm_of_valued (iff_of_true (valued_of_comparisons rfl) (valued_of_comparisons rfl)) fun _ _ => ?_
  have hparts := (bothParts_sectorOut s).append (bothParts_sectorOut t)
  refine Form.same_bundle Form.same_both (fun a ha => (bothParts_notSector _ a ha).1) (fun a ha => ?_) (.trans ?_ hparts.symm)
  · exact connective_both.append_regular (regular_sectorOut s) (regular_sectorOut t) a ha
  · rw [← List.map_append]
    refine .of_mem_iff (fun a ha => (bothParts_notSector _ a ha).1) fun a => ?_
    simp only [List.mem_map, SectorSet.mem_names_ofList]

/-! ## Parts at any depth -/

/-- A filter with one of its parts left open. -/
inductive Frame where
  | here
  | andLeft (frame : Frame) (right : Predicate)
  | andRight (left : Predicate) (frame : Frame)
  | orLeft (frame : Frame) (right : Predicate)
  | orRight (left : Predicate) (frame : Frame)

/-- The filter with the part put in. -/
def Frame.fill : Frame → Predicate → Predicate
  | .here, p => p
  | .andLeft f r, p => .and (f.fill p) r
  | .andRight l f, p => .and l (f.fill p)
  | .orLeft f r, p => .or (f.fill p) r
  | .orRight l f, p => .or l (f.fill p)

/-- **A part may be exchanged** for one of its form. -/
theorem OneForm.fill (h : OneForm p q) (f : Frame) : OneForm (f.fill p) (f.fill q) := by
  have refl : ∀ p, OneForm p p := fun _ _ => rfl
  induction f with
  | here => exact h
  | andLeft f r ih => exact ih.and (refl r)
  | andRight l f ih => exact (refl l).and ih
  | orLeft f r ih => exact ih.or (refl r)
  | orRight l f ih => exact (refl l).or ih

/-- **What the form of a filter forgets.** A conjunction and an alternative have the form of the same with its sides
exchanged or regrouped. A filter that is not of the form of everything has that of the filter joined with itself, and
with what holds of everything. A set of sectors counts as the alternative of its parts, an excluded one as the
conjunction. And a part anywhere in a filter may be exchanged for one of its form. (Being of one form is having the form
of each other, wherever values are numbers and texts.) -/
theorem form_laws {p : Predicate} (hp : p.sameForm .all = false) (q r : Predicate) :
    (∀ a b : Predicate, a.Valued → (OneForm a b ↔ a.sameForm b = true)) ∧
      (OneForm (.and p q) (.and q p) ∧ OneForm (.or p q) (.or q p)) ∧
      (OneForm (.and p (.and q r)) (.and (.and p q) r) ∧ OneForm (.or p (.or q r)) (.or (.or p q) r)) ∧
      (OneForm (.and p p) p ∧ OneForm (.or p p) p ∧ OneForm (.and .all p) p ∧ OneForm (.and p .all) p) ∧
      (∀ s t : SectorSet, OneForm (.sectorIn (.ofList (s.names ++ t.names))) (.or (.sectorIn s) (.sectorIn t)) ∧
        OneForm (.sectorOut (.ofList (s.names ++ t.names))) (.and (.sectorOut s) (.sectorOut t))) ∧
      ∀ (f : Frame) (a b : Predicate), OneForm a b → OneForm (f.fill a) (f.fill b) :=
  ⟨fun _ _ h => oneForm_iff h, ⟨oneForm_and_comm p q, oneForm_or_comm p q⟩,
    ⟨(oneForm_and_assoc p q r).symm, (oneForm_or_assoc p q r).symm⟩,
    ⟨oneForm_and_self hp, oneForm_or_self p, oneForm_all_and hp, oneForm_and_all hp⟩,
    fun s t => ⟨oneForm_sectorIn s t, oneForm_sectorOut s t⟩, fun f _ _ h => h.fill f⟩

/-- An alternative to what holds of everything is not of its form. -/
theorem form_laws_alternative :
    let p : Predicate := .or .all (.sectorIn (.ofList ["IT"]))
    let q : Predicate := .sectorOut (.ofList ["Energy"])
    p.sameForm .all = false ∧ OneForm (.and .all p) p ∧ OneForm (.or q (.and p p)) (.or q p) := by
  intro p q
  have hp : p.sameForm .all = false := by decide
  obtain ⟨-, -, -, ⟨hself, -, hall, -⟩, -, hfill⟩ := form_laws hp q q
  exact ⟨hp, hall, hfill (.orRight q .here) _ _ hself⟩

end Predicate
end EquityScreen
