/-
Sameness of forms, and what it forgets.

Two lists of parts are the same as sets when each part of either is the same as one of the other
(`SameSet`). A form that is bundled from such parts depends on the set alone (`same_bundle`), and its
parts are that set again (`parts_bundle`). So filters that agree do so however their conjunctions and
alternatives are grouped (`congruence_agrees`), and a filter has the form of its conjuncts, in any
order (`sameForm_of_conjuncts`).

A comparison with a not-a-number value has no form of its own, so all this is about filters
whose values are the same as themselves.
-/
import EquityScreen.Plan
import EquityScreen.Proofs.Grouping.Formula
import EquityScreen.Proofs.Predicate.Comparisons

namespace EquityScreen

/-! ## Values -/

theorem Number.same_iff {a b : Number} : a.same b = true ↔ ∃ p, a.place? = some p ∧ b.place? = some p := by
  unfold same
  cases a.place? with
  | none => exact iff_of_false Bool.false_ne_true fun ⟨p, h, _⟩ => absurd h nofun
  | some p =>
    cases b.place? with
    | none => exact iff_of_false Bool.false_ne_true fun ⟨q, _, h⟩ => absurd h nofun
    | some q =>
      rw [beq_iff_eq]
      exact ⟨fun h => ⟨p, rfl, congrArg some h.symm⟩, fun ⟨r, h, h'⟩ => Option.some.inj (h.trans h'.symm)⟩

theorem Value.same_symm {a b : Value} (h : a.same b = true) : b.same a = true := by
  cases a <;> cases b <;> simp only [same, Bool.false_eq_true, beq_iff_eq, Number.same_iff] at h ⊢
  · obtain ⟨p, ha, hb⟩ := h
    exact ⟨p, hb, ha⟩
  · exact h.symm

theorem Value.same_trans {a b c : Value} (h : a.same b = true) (h' : b.same c = true) : a.same c = true := by
  cases a <;> cases b <;> cases c <;>
    simp only [same, Bool.false_eq_true, beq_iff_eq, Number.same_iff] at h h' ⊢
  · obtain ⟨p, ha, hb⟩ := h
    obtain ⟨q, hb', hc⟩ := h'
    rw [hb] at hb'
    rw [Option.some.inj hb'] at ha
    exact ⟨q, ha, hc⟩
  · exact h.trans h'

namespace Form

variable {a b c f g : Form} {as bs cs ps qs : List Form}

/-! ## Sets of parts -/

theorem allIn_iff : allIn as bs = true ↔ ∀ a ∈ as, ∃ b ∈ bs, same a b = true := by
  induction as with
  | nil => simp [allIn]
  | cons a as ih => simp [allIn, ih]

theorem hasOne_iff : hasOne as b = true ↔ ∃ a ∈ as, same a b = true := by
  induction as with
  | nil => simp [hasOne]
  | cons a as ih => simp [hasOne, ih]

/-- Each part of either list is the same as one of the other. -/
structure SameSet (as bs : List Form) : Prop where
  left : ∀ a ∈ as, ∃ b ∈ bs, same a b = true
  right : ∀ b ∈ bs, ∃ a ∈ as, same a b = true

theorem same_both : same (.both as) (.both bs) = true ↔ SameSet as bs := by
  simp only [same, Bool.and_eq_true, allIn_iff, List.all_eq_true, hasOne_iff]
  exact ⟨fun ⟨h, h'⟩ => ⟨h, h'⟩, fun ⟨h, h'⟩ => ⟨h, h'⟩⟩

theorem same_either : same (.either as) (.either bs) = true ↔ SameSet as bs := by
  simp only [same, Bool.and_eq_true, allIn_iff, List.all_eq_true, hasOne_iff]
  exact ⟨fun ⟨h, h'⟩ => ⟨h, h'⟩, fun ⟨h, h'⟩ => ⟨h, h'⟩⟩

/-! Sameness of sets is an equivalence as far as it is one on their parts: -/

theorem SameSet.refl_of (h : ∀ a ∈ as, same a a = true) : SameSet as as :=
  ⟨fun a ha => ⟨a, ha, h a ha⟩, fun a ha => ⟨a, ha, h a ha⟩⟩

theorem SameSet.symm_of (h : SameSet as bs) (hsymm : ∀ a ∈ as, ∀ b, same a b = true → same b a = true) :
    SameSet bs as := by
  refine ⟨fun b hb => ?_, fun a ha => ?_⟩
  · obtain ⟨a, ha, hab⟩ := h.right b hb
    exact ⟨a, ha, hsymm a ha b hab⟩
  · obtain ⟨b, hb, hab⟩ := h.left a ha
    exact ⟨b, hb, hsymm a ha b hab⟩

theorem SameSet.trans_of (h : SameSet as bs) (h' : SameSet bs cs)
    (htrans : ∀ a ∈ as, ∀ b c, same a b = true → same b c = true → same a c = true) : SameSet as cs := by
  refine ⟨fun a ha => ?_, fun c hc => ?_⟩
  · obtain ⟨b, hb, hab⟩ := h.left a ha
    obtain ⟨c, hc, hbc⟩ := h'.left b hb
    exact ⟨c, hc, htrans a ha b c hab hbc⟩
  · obtain ⟨b, hb, hbc⟩ := h'.right c hc
    obtain ⟨a, ha, hab⟩ := h.right b hb
    exact ⟨a, ha, htrans a ha b c hab hbc⟩

/-- Induction on a form, all parts of a set at once. -/
@[elab_as_elim] theorem induct {motive : Form → Prop} (all : motive .all) (compare : ∀ c, motive (.compare c))
    (sector : ∀ s, motive (.sector s)) (notSector : ∀ s, motive (.notSector s))
    (both : ∀ ps, (∀ a ∈ ps, motive a) → motive (.both ps))
    (either : ∀ ps, (∀ a ∈ ps, motive a) → motive (.either ps)) : ∀ f, motive f
  | .all => all
  | .compare c => compare c
  | .sector s => sector s
  | .notSector s => notSector s
  | .both ps => both ps fun a _ => induct all compare sector notSector both either a
  | .either ps => either ps fun a _ => induct all compare sector notSector both either a
termination_by f => sizeOf f
decreasing_by
  all_goals
    have := List.sizeOf_lt_of_mem ‹_ ∈ ps›
    simp only [Form.both.sizeOf_spec, Form.either.sizeOf_spec]
    omega

theorem same_symm : ∀ {a b : Form}, same a b = true → same b a = true := by
  intro a
  induction a using induct with
  | all => intro b h; cases b <;> simp_all [same]
  | compare c =>
    intro b h
    cases b <;> simp only [same, Bool.false_eq_true, Bool.and_eq_true, beq_iff_eq] at h ⊢
    exact ⟨⟨h.1.1.symm, h.1.2.symm⟩, Value.same_symm h.2⟩
  | sector s => intro b h; cases b <;> simp_all [same]
  | notSector s => intro b h; cases b <;> simp_all [same]
  | both ps ih =>
    intro b h
    cases b with
    | both qs => exact same_both.2 ((same_both.1 h).symm_of fun a ha _ => ih a ha)
    | _ => exact absurd h (by simp [same])
  | either ps ih =>
    intro b h
    cases b with
    | either qs => exact same_either.2 ((same_either.1 h).symm_of fun a ha _ => ih a ha)
    | _ => exact absurd h (by simp [same])

theorem same_trans : ∀ {a b c : Form}, same a b = true → same b c = true → same a c = true := by
  intro a
  induction a using induct with
  | all => intro b c h h'; cases b <;> cases c <;> simp_all [same]
  | compare x =>
    intro b c h h'
    cases b <;> cases c <;> simp only [same, Bool.false_eq_true, Bool.and_eq_true, beq_iff_eq] at h h' ⊢
    exact ⟨⟨h.1.1.trans h'.1.1, h.1.2.trans h'.1.2⟩, Value.same_trans h.2 h'.2⟩
  | sector s => intro b c h h'; cases b <;> cases c <;> simp_all [same]
  | notSector s => intro b c h h'; cases b <;> cases c <;> simp_all [same]
  | both ps ih =>
    intro b c h h'
    cases b with
    | both qs =>
      cases c with
      | both rs =>
        exact same_both.2 ((same_both.1 h).trans_of (same_both.1 h') fun a ha _ _ => ih a ha)
      | _ => exact absurd h' (by simp [same])
    | _ => exact absurd h (by simp [same])
  | either ps ih =>
    intro b c h h'
    cases b with
    | either qs =>
      cases c with
      | either rs =>
        exact same_either.2 ((same_either.1 h).trans_of (same_either.1 h') fun a ha _ _ => ih a ha)
      | _ => exact absurd h' (by simp [same])
    | _ => exact absurd h (by simp [same])

/-! ## Forms of filters -/

/-- A form as filters have them: every value is a number or a text; the parts of a set are of another
connective than the set, no two of them the same, and there is never just one. What holds of everything is a
form if `top` says so; it may be a part under `or`, and is none under `and`. -/
inductive Regular (top : Prop) : Form → Prop
  | all : top → Regular top .all
  | compare {c : Comparison} : c.value.same c.value = true → Regular top (.compare c)
  | sector (name : String) : Regular top (.sector name)
  | notSector (name : String) : Regular top (.notSector name)
  | both {ps : List Form} : (∀ a ∈ ps, Regular top a) → (∀ a ∈ ps, a.bothParts = [a]) → ps.Pairwise (same · · = false) →
    ps.length ≠ 1 → Regular top (.both ps)
  | either {ps : List Form} : (∀ a ∈ ps, Regular top a) → (∀ a ∈ ps, a.eitherParts = [a]) → ps.Pairwise (same · · = false) →
    ps.length ≠ 1 → Regular top (.either ps)

/-- A form of which no part holds of everything. -/
abbrev Normal : Form → Prop := Regular False

theorem Normal.ne_all (h : Normal f) : f ≠ .all := by
  rintro rfl
  cases h
  contradiction

variable {top : Prop}

theorem Regular.same_refl (h : Regular top f) : same f f = true := by
  induction h with
  | all => rfl
  | compare hv => simp [same, hv]
  | sector | notSector => simp [same]
  | both _ _ _ _ ih => exact same_both.2 (.refl_of ih)
  | either _ _ _ _ ih => exact same_either.2 (.refl_of ih)

theorem Regular.mono {top' : Prop} (htop : top → top') (h : Regular top f) : Regular top' f := by
  induction h with
  | all h => exact .all (htop h)
  | compare hv => exact .compare hv
  | sector name => exact .sector name
  | notSector name => exact .notSector name
  | both _ hparts hpairwise hlength ih => exact .both ih hparts hpairwise hlength
  | either _ hparts hpairwise hlength ih => exact .either ih hparts hpairwise hlength

/-- The parts under `and` have no such parts of their own. -/
theorem Regular.bothParts (h : Regular top f) : ∀ a ∈ f.bothParts, Regular top a ∧ a.bothParts = [a] := by
  intro a ha
  cases h with
  | all => exact absurd ha List.not_mem_nil
  | both hps hparts => exact ⟨hps a ha, hparts a ha⟩
  | compare hv => rw [List.mem_singleton.1 ha]; exact ⟨.compare hv, rfl⟩
  | sector name => rw [List.mem_singleton.1 ha]; exact ⟨.sector name, rfl⟩
  | notSector name => rw [List.mem_singleton.1 ha]; exact ⟨.notSector name, rfl⟩
  | either h1 h2 h3 h4 => rw [List.mem_singleton.1 ha]; exact ⟨.either h1 h2 h3 h4, rfl⟩

/-- The parts under `or` have no such parts of their own. -/
theorem Regular.eitherParts (h : Regular top f) : ∀ a ∈ f.eitherParts, Regular top a ∧ a.eitherParts = [a] := by
  intro a ha
  cases h with
  | all htop => rw [List.mem_singleton.1 ha]; exact ⟨.all htop, rfl⟩
  | either hps hparts => exact ⟨hps a ha, hparts a ha⟩
  | compare hv => rw [List.mem_singleton.1 ha]; exact ⟨.compare hv, rfl⟩
  | sector name => rw [List.mem_singleton.1 ha]; exact ⟨.sector name, rfl⟩
  | notSector name => rw [List.mem_singleton.1 ha]; exact ⟨.notSector name, rfl⟩
  | both h1 h2 h3 h4 => rw [List.mem_singleton.1 ha]; exact ⟨.both h1 h2 h3 h4, rfl⟩

/-! ## Sets of parts, once each -/

theorem SameSet.refl (h : ∀ a ∈ as, Regular top a) : SameSet as as := .refl_of fun a ha => (h a ha).same_refl

theorem SameSet.symm (h : SameSet as bs) : SameSet bs as := h.symm_of fun _ _ _ => same_symm

theorem SameSet.trans (h : SameSet as bs) (h' : SameSet bs cs) : SameSet as cs :=
  h.trans_of h' fun _ _ _ _ => same_trans

theorem SameSet.singleton (h : same f g = true) : SameSet [f] [g] :=
  ⟨fun _ ha => ⟨g, List.mem_cons_self, List.mem_singleton.1 ha ▸ h⟩,
    fun _ hb => ⟨f, List.mem_cons_self, List.mem_singleton.1 hb ▸ h⟩⟩

theorem SameSet.append (h : SameSet as bs) (h' : SameSet ps qs) : SameSet (as ++ ps) (bs ++ qs) := by
  refine ⟨fun a ha => ?_, fun b hb => ?_⟩
  · rcases List.mem_append.1 ha with ha | ha
    · obtain ⟨b, hb, hab⟩ := h.left a ha
      exact ⟨b, List.mem_append_left _ hb, hab⟩
    · obtain ⟨b, hb, hab⟩ := h'.left a ha
      exact ⟨b, List.mem_append_right _ hb, hab⟩
  · rcases List.mem_append.1 hb with hb | hb
    · obtain ⟨a, ha, hab⟩ := h.right b hb
      exact ⟨a, List.mem_append_left _ ha, hab⟩
    · obtain ⟨a, ha, hab⟩ := h'.right b hb
      exact ⟨a, List.mem_append_right _ ha, hab⟩

/-- Lists with the same members are the same as sets. -/
theorem SameSet.of_mem_iff (h : ∀ a ∈ as, Regular top a) (hmem : ∀ a, a ∈ as ↔ a ∈ bs) : SameSet as bs :=
  ⟨fun a ha => ⟨a, (hmem a).1 ha, (h a ha).same_refl⟩, fun b hb => ⟨b, (hmem b).2 hb, (h b ((hmem b).2 hb)).same_refl⟩⟩

theorem mem_of_mem_distinct (h : a ∈ distinct as) : a ∈ as := by
  induction as with
  | nil => exact h
  | cons b as ih =>
    simp only [distinct] at h
    split at h
    · exact List.mem_cons_of_mem _ (ih h)
    · rcases List.mem_cons.1 h with rfl | h
      · exact List.mem_cons_self
      · exact List.mem_cons_of_mem _ (ih h)

/-- No two of the parts are the same. -/
theorem pairwise_distinct (as : List Form) : (distinct as).Pairwise (same · · = false) := by
  induction as with
  | nil => exact List.Pairwise.nil
  | cons b as ih =>
    simp only [distinct]
    split
    · exact ih
    · next hone =>
      refine List.pairwise_cons.2 ⟨fun a ha => ?_, ih⟩
      rw [Bool.eq_false_iff]
      exact fun hba => hone (hasOne_iff.2 ⟨a, ha, same_symm hba⟩)

theorem sameSet_distinct (h : ∀ a ∈ as, Regular top a) : SameSet (distinct as) as := by
  induction as with
  | nil => exact .refl h
  | cons b as ih =>
    rw [List.forall_mem_cons] at h
    have ih := ih h.2
    simp only [distinct]
    split
    · next hone =>
      obtain ⟨a, ha, hab⟩ := hasOne_iff.1 hone
      obtain ⟨a', ha', haa'⟩ := ih.left a ha
      refine ⟨fun c hc => ?_, fun c hc => ?_⟩
      · obtain ⟨c', hc', hcc'⟩ := ih.left c hc
        exact ⟨c', List.mem_cons_of_mem _ hc', hcc'⟩
      · rcases List.mem_cons.1 hc with rfl | hc
        · exact ⟨a, ha, hab⟩
        · exact ih.right c hc
    · exact SameSet.append (@SameSet.refl [b] top fun a ha => List.mem_singleton.1 ha ▸ h.1) ih

/-- Parts of which no two are the same are each there once. -/
theorem distinct_of_pairwise (h : as.Pairwise (same · · = false)) : distinct as = as := by
  induction as with
  | nil => rfl
  | cons a as ih =>
    rw [List.pairwise_cons] at h
    have hone : ¬ hasOne (distinct as) a = true := fun hone => by
      obtain ⟨b, hb, hba⟩ := hasOne_iff.1 hone
      have hab := h.1 b (mem_of_mem_distinct hb)
      rw [same_symm hba] at hab
      exact absurd hab (by simp)
    simp only [distinct]
    rw [if_neg hone, ih h.2]

/-! ## Bundles -/

theorem bundle_cases (connective : List Form → Form) (as : List Form) :
    (∃ a, distinct as = [a] ∧ bundle connective as = a) ∨
      (distinct as).length ≠ 1 ∧ bundle connective as = connective (distinct as) := by
  unfold bundle
  split
  · next a heq => exact .inl ⟨a, heq, rfl⟩
  · next hne =>
    refine .inr ⟨fun hlength => ?_, rfl⟩
    obtain ⟨a, ha⟩ := List.length_eq_one_iff.1 hlength
    exact hne a ha

section
variable {connective : List Form → Form} {parts : Form → List Form}

theorem regular_bundle (hregular : ∀ {ps : List Form}, (∀ a ∈ ps, Regular top a) → (∀ a ∈ ps, parts a = [a]) →
      ps.Pairwise (same · · = false) → ps.length ≠ 1 → Regular top (connective ps))
    (h : ∀ a ∈ as, Regular top a ∧ parts a = [a]) : Regular top (bundle connective as) := by
  have hmem : ∀ a ∈ distinct as, Regular top a ∧ parts a = [a] := fun a ha => h a (mem_of_mem_distinct ha)
  rcases bundle_cases connective as with ⟨a, hdistinct, heq⟩ | ⟨hlength, heq⟩ <;> rw [heq]
  · exact (hmem a (by rw [hdistinct]; exact List.mem_singleton_self a)).1
  · exact hregular (fun a ha => (hmem a ha).1) (fun a ha => (hmem a ha).2) (pairwise_distinct as) hlength

/-- **The parts of a bundle** are the parts that it was made from. -/
theorem parts_bundle (hparts : ∀ ps, parts (connective ps) = ps) (h : ∀ a ∈ as, Regular top a ∧ parts a = [a]) :
    SameSet (parts (bundle connective as)) as := by
  have hset := sameSet_distinct fun a ha => (h a ha).1
  rcases bundle_cases connective as with ⟨a, hdistinct, heq⟩ | ⟨-, heq⟩ <;> rw [heq]
  · rw [hdistinct] at hset
    rw [(h a (mem_of_mem_distinct (by rw [hdistinct]; exact List.mem_singleton_self a))).2]
    exact hset
  · rw [hparts]
    exact hset

end

theorem regular_bundle_both (h : ∀ a ∈ as, Regular top a ∧ a.bothParts = [a]) : Regular top (bundle .both as) :=
  regular_bundle .both h

theorem regular_bundle_either (h : ∀ a ∈ as, Regular top a ∧ a.eitherParts = [a]) : Regular top (bundle .either as) :=
  regular_bundle .either h

theorem bothParts_bundle (h : ∀ a ∈ as, Regular top a ∧ a.bothParts = [a]) : SameSet (bundle .both as).bothParts as :=
  parts_bundle (fun _ => rfl) h

theorem eitherParts_bundle (h : ∀ a ∈ as, Regular top a ∧ a.eitherParts = [a]) :
    SameSet (bundle .either as).eitherParts as :=
  parts_bundle (fun _ => rfl) h

/-- A form is the bundle of its parts. -/
theorem Regular.bundle_bothParts (h : Regular top f) (hne : f ≠ .all) : bundle .both f.bothParts = f := by
  cases h with
  | all => exact absurd rfl hne
  | both _ _ hpairwise hlength =>
    unfold bundle
    rw [Form.bothParts, distinct_of_pairwise hpairwise]
    split
    · exact absurd rfl hlength
    · rfl
  | _ => rfl

theorem Regular.bundle_eitherParts (h : Regular top f) : bundle .either f.eitherParts = f := by
  cases h with
  | either _ _ hpairwise hlength =>
    unfold bundle
    rw [Form.eitherParts, distinct_of_pairwise hpairwise]
    split
    · exact absurd rfl hlength
    · rfl
  | _ => rfl

/-- No two of a list being the same, a set with one member has one member only. -/
theorem length_of_sameSet (has : as.Pairwise (same · · = false)) (h : SameSet as [b]) : as.length = 1 := by
  have hall : ∀ a ∈ as, same a b = true := fun a ha => by
    obtain ⟨b', hb', hab⟩ := h.left a ha
    rwa [List.mem_singleton.1 hb'] at hab
  match as with
  | [] =>
    obtain ⟨a, ha, -⟩ := h.right b List.mem_cons_self
    exact absurd ha List.not_mem_nil
  | [_] => rfl
  | a :: a' :: as =>
    have hne := (List.pairwise_cons.1 has).1 a' List.mem_cons_self
    rw [same_trans (hall a List.mem_cons_self) (same_symm (hall a' (List.mem_cons_of_mem _ List.mem_cons_self)))] at hne
    exact absurd hne (by simp)

/-- **A bundle depends on the set of its parts alone.** -/
theorem same_bundle {connective : List Form → Form}
    (hsame : ∀ {as bs}, same (connective as) (connective bs) = true ↔ SameSet as bs)
    (has : ∀ a ∈ as, Regular top a) (hbs : ∀ b ∈ bs, Regular top b) (h : SameSet as bs) :
    same (bundle connective as) (bundle connective bs) = true := by
  have hset : SameSet (distinct as) (distinct bs) :=
    (sameSet_distinct has).trans (h.trans (sameSet_distinct hbs).symm)
  rcases bundle_cases connective as with ⟨a, hdas, heqa⟩ | ⟨hla, heqa⟩ <;>
    rcases bundle_cases connective bs with ⟨b, hdbs, heqb⟩ | ⟨hlb, heqb⟩ <;> rw [heqa, heqb]
  · rw [hdas, hdbs] at hset
    obtain ⟨b', hb', hab⟩ := hset.left a List.mem_cons_self
    rwa [List.mem_singleton.1 hb'] at hab
  · rw [hdas] at hset
    exact absurd (length_of_sameSet (pairwise_distinct bs) hset.symm) hlb
  · rw [hdbs] at hset
    exact absurd (length_of_sameSet (pairwise_distinct as) hset) hla
  · exact hsame.2 hset

/-- Forms that are the same have the same parts. -/
theorem sameSet_bothParts (h : same f g = true) : SameSet f.bothParts g.bothParts := by
  cases f <;> cases g <;> try exact absurd h Bool.false_ne_true
  case all.all => exact ⟨nofun, nofun⟩
  case both.both => exact same_both.1 h
  all_goals exact .singleton h

theorem sameSet_eitherParts (h : same f g = true) : SameSet f.eitherParts g.eitherParts := by
  cases f <;> cases g <;> try exact absurd h Bool.false_ne_true
  case either.either => exact same_either.1 h
  all_goals exact .singleton h

/-! ## Connectives -/

/-- A connective of forms with the parts that a form has under it. -/
structure Connective (top : Prop) (connective : List Form → Form) (parts : Form → List Form) : Prop where
  same_iff : ∀ {as bs}, same (connective as) (connective bs) = true ↔ SameSet as bs
  regular : ∀ {f}, Regular top f → ∀ a ∈ parts f, Regular top a ∧ parts a = [a]
  parts_bundle : ∀ {as}, (∀ a ∈ as, Regular top a ∧ parts a = [a]) → SameSet (parts (bundle connective as)) as
  parts_same : ∀ {f g}, same f g = true → SameSet (parts f) (parts g)

theorem connective_both : Connective top .both bothParts where
  same_iff := same_both
  regular := Regular.bothParts
  parts_bundle := bothParts_bundle
  parts_same := sameSet_bothParts

theorem connective_either : Connective top .either eitherParts where
  same_iff := same_either
  regular := Regular.eitherParts
  parts_bundle := eitherParts_bundle
  parts_same := sameSet_eitherParts

namespace Connective

variable {connective : List Form → Form} {parts : Form → List Form} {f' g' k : Form}

theorem parts_regular (h : Connective top connective parts) (hf : Regular top f) : ∀ a ∈ parts f, Regular top a :=
  fun a ha => (h.regular hf a ha).1

/-- The parts of two forms together are regular. -/
theorem append_regular (h : Connective top connective parts) (hf : Regular top f) (hg : Regular top g) :
    ∀ a ∈ parts f ++ parts g, Regular top a := List.forall_mem_append.2 ⟨h.parts_regular hf, h.parts_regular hg⟩

/-- The parts of two forms that are joined are those of both. -/
theorem parts_join (h : Connective top connective parts) (hf : Regular top f) (hg : Regular top g) :
    SameSet (parts (bundle connective (parts f ++ parts g))) (parts f ++ parts g) :=
  h.parts_bundle (List.forall_mem_append.2 ⟨h.regular hf, h.regular hg⟩)

theorem congr (h : Connective top connective parts) (hf : Regular top f) (hf' : Regular top f') (hg : Regular top g)
    (hg' : Regular top g') (hff' : same f f' = true) (hgg' : same g g' = true) :
    same (bundle connective (parts f ++ parts g)) (bundle connective (parts f' ++ parts g')) = true :=
  same_bundle h.same_iff (h.append_regular hf hg) (h.append_regular hf' hg') ((h.parts_same hff').append (h.parts_same hgg'))

theorem assoc (h : Connective top connective parts) (hf : Regular top f) (hg : Regular top g) (hk : Regular top k)
    (hfg : Regular top (bundle connective (parts f ++ parts g))) (hgk : Regular top (bundle connective (parts g ++ parts k))) :
    same (bundle connective (parts (bundle connective (parts f ++ parts g)) ++ parts k))
      (bundle connective (parts f ++ parts (bundle connective (parts g ++ parts k)))) = true := by
  refine same_bundle h.same_iff (h.append_regular hfg hk) (h.append_regular hf hgk) ?_
  have hleft := (h.parts_join hf hg).append (.refl (h.parts_regular hk))
  rw [List.append_assoc] at hleft
  exact hleft.trans ((SameSet.refl (h.parts_regular hf)).append (h.parts_join hg hk).symm)

theorem comm (h : Connective top connective parts) (hf : Regular top f) (hg : Regular top g) :
    same (bundle connective (parts f ++ parts g)) (bundle connective (parts g ++ parts f)) = true :=
  same_bundle h.same_iff (h.append_regular hf hg) (h.append_regular hg hf)
    (.of_mem_iff (h.append_regular hf hg) fun a => by rw [List.mem_append, List.mem_append, or_comm])

/-- A form joined with itself is the form, where that is the bundle of its parts. -/
theorem idem (h : Connective top connective parts) (hf : Regular top f) (hbundle : bundle connective (parts f) = f) :
    same (bundle connective (parts f ++ parts f)) f = true := by
  have hsame := same_bundle h.same_iff (h.append_regular hf hf) (h.parts_regular hf)
    (.of_mem_iff (h.append_regular hf hf) fun a => by rw [List.mem_append, or_self])
  rwa [hbundle] at hsame

end Connective
end Form

/-! ## Filters of one form -/

namespace Predicate

variable {p q p' q' : Predicate}

/-- No part of the filter holds of everything, and every value is the same as itself. -/
def Formed : Predicate → Prop
  | .all => False
  | .compare c => c.value.same c.value = true
  | .sectorIn _ | .sectorOut _ => True
  | .and p q | .or p q => p.Formed ∧ q.Formed

open Form (Normal SameSet)

theorem bothParts_notSector (names : List String) :
    ∀ a ∈ names.map Form.notSector, Normal a ∧ a.bothParts = [a] := by
  intro a ha
  obtain ⟨name, -, rfl⟩ := List.mem_map.1 ha
  exact ⟨.notSector name, rfl⟩

theorem eitherParts_sector (names : List String) : ∀ a ∈ names.map Form.sector, Normal a ∧ a.eitherParts = [a] := by
  intro a ha
  obtain ⟨name, -, rfl⟩ := List.mem_map.1 ha
  exact ⟨.sector name, rfl⟩

theorem Formed.normal (h : p.Formed) : p.form.Normal := by
  induction p with
  | all => exact absurd h id
  | compare c => exact .compare h
  | sectorIn s => exact Form.regular_bundle_either (eitherParts_sector _)
  | sectorOut s => exact Form.regular_bundle_both (bothParts_notSector _)
  | and l r ihl ihr =>
    exact Form.regular_bundle_both (List.forall_mem_append.2 ⟨(ihl h.1).bothParts, (ihr h.2).bothParts⟩)
  | or l r ihl ihr =>
    exact Form.regular_bundle_either (List.forall_mem_append.2 ⟨(ihl h.1).eitherParts, (ihr h.2).eitherParts⟩)

/-- The filters have one form, if they have a form at all. -/
def Agrees (p q : Predicate) : Prop := (p.Formed ↔ q.Formed) ∧ (p.Formed → p.sameForm q = true)

theorem Agrees.refl (p : Predicate) : Agrees p p := ⟨Iff.rfl, fun h => h.normal.same_refl⟩

theorem Agrees.symm (h : Agrees p q) : Agrees q p :=
  ⟨h.1.symm, fun hq => Form.same_symm (h.2 (h.1.2 hq))⟩

theorem Agrees.trans {r : Predicate} (h : Agrees p q) (h' : Agrees q r) : Agrees p r :=
  ⟨h.1.trans h'.1, fun hp => Form.same_trans (h.2 hp) (h'.2 (h.1.1 hp))⟩

/-- The parts of a conjunction are those of both sides. -/
theorem bothParts_and (hp : p.Formed) (hq : q.Formed) :
    SameSet (Predicate.and p q).form.bothParts (p.form.bothParts ++ q.form.bothParts) :=
  Form.bothParts_bundle (List.forall_mem_append.2 ⟨hp.normal.bothParts, hq.normal.bothParts⟩)

theorem eitherParts_or (hp : p.Formed) (hq : q.Formed) :
    SameSet (Predicate.or p q).form.eitherParts (p.form.eitherParts ++ q.form.eitherParts) :=
  Form.eitherParts_bundle (List.forall_mem_append.2 ⟨hp.normal.eitherParts, hq.normal.eitherParts⟩)

/-- Filters with the same parts under `and` have one form. -/
theorem sameForm_of_bothParts (hp : p.Formed) (hq : q.Formed) (h : SameSet p.form.bothParts q.form.bothParts) :
    p.sameForm q = true := by
  have hsame := Form.same_bundle Form.same_both (fun a ha => (hp.normal.bothParts a ha).1)
    (fun a ha => (hq.normal.bothParts a ha).1) h
  rwa [hp.normal.bundle_bothParts hp.normal.ne_all, hq.normal.bundle_bothParts hq.normal.ne_all] at hsame

/-- Filters with the same parts under `or` have one form. -/
theorem sameForm_of_eitherParts (hp : p.Formed) (hq : q.Formed) (h : SameSet p.form.eitherParts q.form.eitherParts) :
    p.sameForm q = true := by
  have hsame := Form.same_bundle Form.same_either (fun a ha => (hp.normal.eitherParts a ha).1)
    (fun a ha => (hq.normal.eitherParts a ha).1) h
  rwa [hp.normal.bundle_eitherParts, hq.normal.bundle_eitherParts] at hsame

theorem Formed.bothParts_normal (h : p.Formed) : ∀ a ∈ p.form.bothParts, Normal a :=
  fun a ha => (h.normal.bothParts a ha).1

theorem Formed.eitherParts_normal (h : p.Formed) : ∀ a ∈ p.form.eitherParts, Normal a :=
  fun a ha => (h.normal.eitherParts a ha).1

/-- **Agreeing is a congruence** for which the connectives are associative. -/
theorem congruence_agrees : Congruence Agrees where
  equiv := ⟨Agrees.refl, Agrees.symm, Agrees.trans⟩
  and := by
    intro p p' q q' hp hq
    refine ⟨and_congr hp.1 hq.1, fun h => ?_⟩
    exact Form.connective_both.congr h.1.normal (hp.1.1 h.1).normal h.2.normal (hq.1.1 h.2).normal (hp.2 h.1) (hq.2 h.2)
  or := by
    intro p p' q q' hp hq
    refine ⟨and_congr hp.1 hq.1, fun h => ?_⟩
    exact Form.connective_either.congr h.1.normal (hp.1.1 h.1).normal h.2.normal (hq.1.1 h.2).normal (hp.2 h.1) (hq.2 h.2)
  and_assoc := by
    intro p q r
    refine ⟨and_assoc, fun h => ?_⟩
    obtain ⟨⟨hp, hq⟩, hr⟩ := h
    have hpq : (Predicate.and p q).Formed := ⟨hp, hq⟩
    have hqr : (Predicate.and q r).Formed := ⟨hq, hr⟩
    exact Form.connective_both.assoc hp.normal hq.normal hr.normal hpq.normal hqr.normal
  or_assoc := by
    intro p q r
    refine ⟨and_assoc, fun h => ?_⟩
    obtain ⟨⟨hp, hq⟩, hr⟩ := h
    have hpq : (Predicate.or p q).Formed := ⟨hp, hq⟩
    have hqr : (Predicate.or q r).Formed := ⟨hq, hr⟩
    exact Form.connective_either.assoc hp.normal hq.normal hr.normal hpq.normal hqr.normal

/-! ## Conjuncts -/

/-- The parts of filters under `and`. -/
def parts (ps : List Predicate) : List Form := ps.flatMap fun p => p.form.bothParts

theorem parts_append (ps qs : List Predicate) : parts (ps ++ qs) = parts ps ++ parts qs := List.flatMap_append

theorem parts_singleton (p : Predicate) : parts [p] = p.form.bothParts := List.flatMap_singleton ..

/-- The parts of a filter are those of its conjuncts. -/
theorem bothParts_conjuncts (h : p.Formed) : SameSet p.form.bothParts (parts p.conjuncts) := by
  have hone : ∀ {p : Predicate}, p.Formed → p.conjuncts = [p] → SameSet p.form.bothParts (parts p.conjuncts) := by
    intro p h hp
    rw [hp, parts_singleton]
    exact .refl h.bothParts_normal
  induction p with
  | and l r ihl ihr =>
    rw [conjuncts, parts_append]
    exact (bothParts_and h.1 h.2).trans ((ihl h.1).append (ihr h.2))
  | all => exact absurd h id
  | _ => exact hone h rfl

/-- **Filters whose conjuncts have the same parts** have one form. -/
theorem sameForm_of_conjuncts (hp : p.Formed) (hq : q.Formed) (h : SameSet (parts p.conjuncts) (parts q.conjuncts)) :
    p.sameForm q = true :=
  sameForm_of_bothParts hp hq ((bothParts_conjuncts hp).trans (h.trans (bothParts_conjuncts hq).symm))

/-- The parts of an excluded set are its sectors. -/
theorem bothParts_sectorOut (s : SectorSet) :
    SameSet (Predicate.sectorOut s).form.bothParts (s.names.map Form.notSector) :=
  Form.bothParts_bundle (bothParts_notSector _)

end Predicate
end EquityScreen
