/-
What a form means. A form holds or fails where its comparisons do and in a sector (`Form.holds`), and
the form of a filter does where the filter does (`holds_form`); forms that are the same hold alike
(`holds_of_same`), so filters of one form say the same of everything (`meets_of_sameForm`). They also
have the same comparisons, up to the spelling of values (`every_of_sameForm`).

A test of comparisons has to treat values that are the same alike; that is asked for of the
comparisons at hand only (`Respects`), since texts and numbers are not always told apart by it.
-/
import EquityScreen.Proofs.Predicate.Form

namespace EquityScreen

/-- Two comparisons of one form. -/
def Comparison.Same (a b : Comparison) : Prop :=
  a.field = b.field ∧ a.op = b.op ∧ a.value.same b.value = true

theorem Form.same_compare {a b : Comparison} : same (.compare a) (.compare b) = true ↔ a.Same b := by
  simp only [same, Bool.and_eq_true, beq_iff_eq, Comparison.Same, and_assoc]

/-- The test says the same of the comparisons and of others of their form. -/
def Respects (test : Comparison → Bool) (cmps : List Comparison) : Prop :=
  ∀ a ∈ cmps, ∀ b, a.Same b → test a = test b

theorem Respects.mono {test : Comparison → Bool} {cmps more : List Comparison} (h : Respects test more)
    (hsub : cmps ⊆ more) : Respects test cmps :=
  fun a ha => h a (hsub ha)

namespace Form

/-! ## Comparisons of a form -/

mutual
/-- The comparisons of a form. -/
def comparisons : Form → List Comparison
  | .compare c => [c]
  | .both parts | .either parts => comparisonsOf parts
  | .all | .sector _ | .notSector _ => []
termination_by structural f => f

/-- The comparisons of all parts. -/
def comparisonsOf : List Form → List Comparison
  | [] => []
  | a :: as => comparisons a ++ comparisonsOf as
termination_by structural fs => fs
end

variable {f g : Form} {as bs ps : List Form} {cmp : Comparison}

theorem mem_comparisonsOf : cmp ∈ comparisonsOf as ↔ ∃ a ∈ as, cmp ∈ a.comparisons := by
  induction as with
  | nil => simp [comparisonsOf]
  | cons a as ih => simp [comparisonsOf, ih]

theorem comparisonsOf_append (as bs : List Form) : comparisonsOf (as ++ bs) = comparisonsOf as ++ comparisonsOf bs := by
  induction as with
  | nil => rfl
  | cons a as ih => simp [comparisonsOf, ih]

theorem comparisonsOf_bothParts (f : Form) : comparisonsOf f.bothParts = f.comparisons := by
  cases f <;> simp [bothParts, comparisonsOf, comparisons]

theorem comparisonsOf_eitherParts (f : Form) : comparisonsOf f.eitherParts = f.comparisons := by
  cases f <;> simp [eitherParts, comparisonsOf, comparisons]

/-- Every comparison of a form has its like in a form that is the same. -/
theorem exists_same_comparison : ∀ {f g : Form}, same f g = true → ∀ a ∈ f.comparisons, ∃ b ∈ g.comparisons, a.Same b := by
  have hparts : ∀ {as bs : List Form}, SameSet as bs →
      (∀ x ∈ as, ∀ {y : Form}, same x y = true → ∀ a ∈ x.comparisons, ∃ b ∈ y.comparisons, a.Same b) →
      ∀ a ∈ comparisonsOf as, ∃ b ∈ comparisonsOf bs, a.Same b := by
    intro as bs h ih a ha
    obtain ⟨x, hx, ha⟩ := mem_comparisonsOf.1 ha
    obtain ⟨y, hy, hxy⟩ := h.left x hx
    obtain ⟨b, hb, hab⟩ := ih x hx hxy a ha
    exact ⟨b, mem_comparisonsOf.2 ⟨y, hy, hb⟩, hab⟩
  intro f
  induction f using induct with
  | all => exact fun _ _ ha => absurd ha List.not_mem_nil
  | sector s => exact fun _ _ ha => absurd ha List.not_mem_nil
  | notSector s => exact fun _ _ ha => absurd ha List.not_mem_nil
  | compare c =>
    intro g h a ha
    cases g with
    | compare d => exact ⟨d, List.mem_singleton_self d, List.mem_singleton.1 ha ▸ same_compare.1 h⟩
    | _ => exact absurd h (by simp [same])
  | both ps ih =>
    intro g h
    cases g with
    | both qs => exact hparts (same_both.1 h) ih
    | _ => exact absurd h (by simp [same])
  | either ps ih =>
    intro g h
    cases g with
    | either qs => exact hparts (same_either.1 h) ih
    | _ => exact absurd h (by simp [same])

/-! ## Where a form holds -/

section
variable (test : Comparison → Bool) (sector : String)

mutual
/-- The form holds where its comparisons do as the test says, in the sector. -/
def holds : Form → Bool
  | .all => true
  | .compare c => test c
  | .sector name => name == sector
  | .notSector name => name != sector
  | .both parts => allHold parts
  | .either parts => anyHolds parts
termination_by structural f => f

/-- All parts hold. -/
def allHold : List Form → Bool
  | [] => true
  | a :: as => holds a && allHold as
termination_by structural fs => fs

/-- Some part holds. -/
def anyHolds : List Form → Bool
  | [] => false
  | a :: as => holds a || anyHolds as
termination_by structural fs => fs
end

end

variable {test : Comparison → Bool} {sector : String}

theorem allHold_iff : allHold test sector as = true ↔ ∀ a ∈ as, a.holds test sector = true := by
  induction as with
  | nil => simp [allHold]
  | cons a as ih => simp [allHold, ih]

theorem anyHolds_iff : anyHolds test sector as = true ↔ ∃ a ∈ as, a.holds test sector = true := by
  induction as with
  | nil => simp [anyHolds]
  | cons a as ih => simp [anyHolds, ih]

theorem allHold_append (as bs : List Form) :
    allHold test sector (as ++ bs) = (allHold test sector as && allHold test sector bs) := by
  induction as with
  | nil => rfl
  | cons a as ih => simp [allHold, ih, Bool.and_assoc]

theorem anyHolds_append (as bs : List Form) :
    anyHolds test sector (as ++ bs) = (anyHolds test sector as || anyHolds test sector bs) := by
  induction as with
  | nil => rfl
  | cons a as ih => simp [anyHolds, ih, Bool.or_assoc]

theorem allHold_bothParts (f : Form) : allHold test sector f.bothParts = f.holds test sector := by
  cases f <;> simp [bothParts, allHold, holds]

theorem anyHolds_eitherParts (f : Form) : anyHolds test sector f.eitherParts = f.holds test sector := by
  cases f <;> simp [eitherParts, anyHolds, holds]

/-- Parts that are like parts of another list, one by one, hold together where those do. -/
theorem allHold_of_forall (h : ∀ b ∈ bs, ∃ a ∈ as, a.holds test sector = b.holds test sector)
    (has : allHold test sector as = true) : allHold test sector bs = true := by
  refine allHold_iff.2 fun b hb => ?_
  obtain ⟨a, ha, hab⟩ := h b hb
  rw [← hab]
  exact allHold_iff.1 has a ha

theorem anyHolds_of_forall (h : ∀ b ∈ bs, ∃ a ∈ as, a.holds test sector = b.holds test sector)
    (hbs : anyHolds test sector bs = true) : anyHolds test sector as = true := by
  obtain ⟨b, hb, hholds⟩ := anyHolds_iff.1 hbs
  obtain ⟨a, ha, hab⟩ := h b hb
  exact anyHolds_iff.2 ⟨a, ha, hab.trans hholds⟩

/-- **Forms that are the same** hold alike. -/
theorem holds_of_same : ∀ {f g : Form}, same f g = true → Respects test f.comparisons →
    f.holds test sector = g.holds test sector := by
  have hparts : ∀ {as bs : List Form}, SameSet as bs → Respects test (comparisonsOf as) →
      (∀ x ∈ as, ∀ {y : Form}, same x y = true → Respects test x.comparisons →
        x.holds test sector = y.holds test sector) →
      (∀ a ∈ as, ∃ b ∈ bs, b.holds test sector = a.holds test sector) ∧
        ∀ b ∈ bs, ∃ a ∈ as, a.holds test sector = b.holds test sector := by
    intro as bs h htest ih
    have hpart : ∀ x ∈ as, Respects test x.comparisons := fun x hx =>
      htest.mono fun cmp hcmp => mem_comparisonsOf.2 ⟨x, hx, hcmp⟩
    refine ⟨fun a ha => ?_, fun b hb => ?_⟩
    · obtain ⟨b, hb, hab⟩ := h.left a ha
      exact ⟨b, hb, (ih a ha hab (hpart a ha)).symm⟩
    · obtain ⟨a, ha, hab⟩ := h.right b hb
      exact ⟨a, ha, ih a ha hab (hpart a ha)⟩
  intro f
  induction f using induct with
  | all => intro g h _; cases g <;> simp_all [same, holds]
  | sector s => intro g h _; cases g <;> simp_all [same, holds]
  | notSector s => intro g h _; cases g <;> simp_all [same, holds]
  | compare c =>
    intro g h htest
    cases g with
    | compare d => exact htest c (List.mem_singleton_self c) d (same_compare.1 h)
    | _ => exact absurd h (by simp [same])
  | both ps ih =>
    intro g h htest
    cases g with
    | both qs =>
      obtain ⟨hleft, hright⟩ := hparts (same_both.1 h) htest ih
      exact Bool.eq_iff_iff.2 ⟨allHold_of_forall hright, allHold_of_forall hleft⟩
    | _ => exact absurd h (by simp [same])
  | either ps ih =>
    intro g h htest
    cases g with
    | either qs =>
      obtain ⟨hleft, hright⟩ := hparts (same_either.1 h) htest ih
      exact Bool.eq_iff_iff.2 ⟨anyHolds_of_forall hleft, anyHolds_of_forall hright⟩
    | _ => exact absurd h (by simp [same])

/-! ## Bundles -/

/-- What is left out of a list of parts, each once, is the same as one that is kept. -/
theorem exists_mem_distinct {a : Form} (h : a ∈ as) : ∃ b ∈ distinct as, b = a ∨ same b a = true := by
  induction as with
  | nil => exact absurd h List.not_mem_nil
  | cons x as ih =>
    simp only [distinct]
    split
    · next hone =>
      rcases List.mem_cons.1 h with rfl | h
      · obtain ⟨b, hb, hab⟩ := hasOne_iff.1 hone
        exact ⟨b, hb, .inr hab⟩
      · exact ih h
    · rcases List.mem_cons.1 h with rfl | h
      · exact ⟨a, List.mem_cons_self, .inl rfl⟩
      · obtain ⟨b, hb, hab⟩ := ih h
        exact ⟨b, List.mem_cons_of_mem _ hb, hab⟩

/-- The parts that are kept hold like those that they were chosen from. -/
theorem exists_distinct_holds (htest : Respects test (comparisonsOf as)) {a : Form} (h : a ∈ as) :
    ∃ b ∈ distinct as, b.holds test sector = a.holds test sector := by
  obtain ⟨b, hb, rfl | hsame⟩ := exists_mem_distinct h
  · exact ⟨b, hb, rfl⟩
  · refine ⟨b, hb, holds_of_same hsame (htest.mono fun cmp hcmp => ?_)⟩
    exact mem_comparisonsOf.2 ⟨b, mem_of_mem_distinct hb, hcmp⟩

theorem holds_bundle_both (htest : Respects test (comparisonsOf as)) :
    (bundle .both as).holds test sector = allHold test sector as := by
  have hdistinct : allHold test sector (distinct as) = allHold test sector as :=
    Bool.eq_iff_iff.2 ⟨allHold_of_forall fun a ha => exists_distinct_holds htest ha,
      allHold_of_forall fun a ha => ⟨a, mem_of_mem_distinct ha, rfl⟩⟩
  rw [← hdistinct]
  rcases bundle_cases .both as with ⟨a, hone, heq⟩ | ⟨-, heq⟩ <;> rw [heq]
  · simp [hone, allHold]
  · rfl

theorem holds_bundle_either (htest : Respects test (comparisonsOf as)) :
    (bundle .either as).holds test sector = anyHolds test sector as := by
  have hdistinct : anyHolds test sector (distinct as) = anyHolds test sector as :=
    Bool.eq_iff_iff.2 ⟨anyHolds_of_forall fun a ha => ⟨a, mem_of_mem_distinct ha, rfl⟩,
      anyHolds_of_forall fun a ha => exists_distinct_holds htest ha⟩
  rw [← hdistinct]
  rcases bundle_cases .either as with ⟨a, hone, heq⟩ | ⟨-, heq⟩ <;> rw [heq]
  · simp [hone, anyHolds]
  · rfl

/-- A bundle has no comparisons but those of its parts. -/
theorem comparisons_bundle_subset {connective : List Form → Form}
    (hconnective : ∀ as, (connective as).comparisons = comparisonsOf as) :
    (bundle connective as).comparisons ⊆ comparisonsOf as := by
  have hdistinct : comparisonsOf (distinct as) ⊆ comparisonsOf as := by
    intro cmp hcmp
    obtain ⟨a, ha, hcmp⟩ := mem_comparisonsOf.1 hcmp
    exact mem_comparisonsOf.2 ⟨a, mem_of_mem_distinct ha, hcmp⟩
  rcases bundle_cases connective as with ⟨a, hone, heq⟩ | ⟨-, heq⟩ <;> rw [heq]
  · intro cmp hcmp
    exact hdistinct (mem_comparisonsOf.2 ⟨a, by rw [hone]; exact List.mem_singleton_self a, hcmp⟩)
  · rw [hconnective]
    exact hdistinct

/-- Every comparison of the parts has its like in the bundle, with the same field and sign. -/
theorem exists_bundle_comparison {connective : List Form → Form}
    (hconnective : ∀ as, (connective as).comparisons = comparisonsOf as) (h : cmp ∈ comparisonsOf as) :
    ∃ b ∈ (bundle connective as).comparisons, b.field = cmp.field ∧ b.op = cmp.op := by
  obtain ⟨a, ha, hcmp⟩ := mem_comparisonsOf.1 h
  obtain ⟨b, hb, hlike⟩ : ∃ b ∈ comparisonsOf (distinct as), b.field = cmp.field ∧ b.op = cmp.op := by
    obtain ⟨x, hx, rfl | hsame⟩ := exists_mem_distinct ha
    · exact ⟨cmp, mem_comparisonsOf.2 ⟨x, hx, hcmp⟩, rfl, rfl⟩
    · obtain ⟨b, hb, hfield, hop, -⟩ := exists_same_comparison (same_symm hsame) cmp hcmp
      exact ⟨b, mem_comparisonsOf.2 ⟨x, hx, hb⟩, hfield.symm, hop.symm⟩
  refine ⟨b, ?_, hlike⟩
  rcases bundle_cases connective as with ⟨x, hone, heq⟩ | ⟨-, heq⟩ <;> rw [heq]
  · simpa [hone, comparisonsOf] using hb
  · rwa [hconnective]

end Form

/-! ## Filters -/

namespace Predicate

open Form (comparisonsOf allHold anyHolds)

variable {p q : Predicate} {test : Comparison → Bool} {sector : String}

/-- The filter holds where its comparisons do as the test says, in the sector. -/
def meets (test : Comparison → Bool) (sector : String) : Predicate → Bool
  | .all => true
  | .compare c => test c
  | .sectorIn s => s.contains sector
  | .sectorOut s => !s.contains sector
  | .and l r => l.meets test sector && r.meets test sector
  | .or l r => l.meets test sector || r.meets test sector

theorem comparisonsOf_sectors {atom : String → Form} (hatom : ∀ s, (atom s).comparisons = []) (names : List String) :
    comparisonsOf (names.map atom) = [] := by
  induction names with
  | nil => rfl
  | cons name names ih => simp [comparisonsOf, hatom, ih]

theorem comparisons_form_subset (p : Predicate) : p.form.comparisons ⊆ p.comparisons := by
  induction p with
  | all | compare c => exact List.Subset.refl _
  | sectorIn s =>
    refine List.Subset.trans (Form.comparisons_bundle_subset fun _ => rfl) ?_
    rw [comparisonsOf_sectors fun _ => rfl]
    exact List.nil_subset _
  | sectorOut s =>
    refine List.Subset.trans (Form.comparisons_bundle_subset fun _ => rfl) ?_
    rw [comparisonsOf_sectors fun _ => rfl]
    exact List.nil_subset _
  | and l r ihl ihr =>
    refine List.Subset.trans (Form.comparisons_bundle_subset fun _ => rfl) ?_
    rw [Form.comparisonsOf_append, Form.comparisonsOf_bothParts, Form.comparisonsOf_bothParts]
    exact List.append_subset.2 ⟨List.subset_append_of_subset_left _ ihl, List.subset_append_of_subset_right _ ihr⟩
  | or l r ihl ihr =>
    refine List.Subset.trans (Form.comparisons_bundle_subset fun _ => rfl) ?_
    rw [Form.comparisonsOf_append, Form.comparisonsOf_eitherParts, Form.comparisonsOf_eitherParts]
    exact List.append_subset.2 ⟨List.subset_append_of_subset_left _ ihl, List.subset_append_of_subset_right _ ihr⟩

/-- Every comparison of a filter has its like in the form. -/
theorem exists_form_comparison {cmp : Comparison} (h : cmp ∈ p.comparisons) :
    ∃ b ∈ p.form.comparisons, b.field = cmp.field ∧ b.op = cmp.op := by
  -- The parts of a connective bring the likes of the comparisons of both sides into the bundle.
  have hpair : ∀ {l r : Predicate} {connective : List Form → Form} {parts : Form → List Form},
      (∀ as, (connective as).comparisons = comparisonsOf as) → (∀ f, comparisonsOf (parts f) = f.comparisons) →
      ((∃ b ∈ l.form.comparisons, b.field = cmp.field ∧ b.op = cmp.op) ∨
        ∃ b ∈ r.form.comparisons, b.field = cmp.field ∧ b.op = cmp.op) →
      ∃ b ∈ (Form.bundle connective (parts l.form ++ parts r.form)).comparisons,
        b.field = cmp.field ∧ b.op = cmp.op := by
    intro l r connective parts hconnective hparts h
    obtain ⟨b, hb, hfield, hop⟩ : ∃ b ∈ comparisonsOf (parts l.form ++ parts r.form),
        b.field = cmp.field ∧ b.op = cmp.op := by
      rw [Form.comparisonsOf_append, hparts, hparts]
      rcases h with ⟨b, hb, hlike⟩ | ⟨b, hb, hlike⟩
      · exact ⟨b, List.mem_append_left _ hb, hlike⟩
      · exact ⟨b, List.mem_append_right _ hb, hlike⟩
    obtain ⟨b', hb', hfield', hop'⟩ := Form.exists_bundle_comparison hconnective hb
    exact ⟨b', hb', hfield'.trans hfield, hop'.trans hop⟩
  induction p with
  | all | sectorIn _ | sectorOut _ => exact absurd h List.not_mem_nil
  | compare c => exact ⟨cmp, h, rfl, rfl⟩
  | and l r ihl ihr =>
    exact hpair (fun _ => rfl) Form.comparisonsOf_bothParts ((List.mem_append.1 h).imp ihl ihr)
  | or l r ihl ihr =>
    exact hpair (fun _ => rfl) Form.comparisonsOf_eitherParts ((List.mem_append.1 h).imp ihl ihr)

/-- **The form of a filter** holds where the filter does. -/
theorem holds_form (htest : Respects test p.comparisons) : p.form.holds test sector = p.meets test sector := by
  have hsectors : ∀ {atom : String → Form} {names : List String}, (∀ s, (atom s).comparisons = []) →
      Respects test (comparisonsOf (names.map atom)) := by
    intro atom names hatom
    rw [comparisonsOf_sectors hatom]
    exact fun _ h => absurd h List.not_mem_nil
  induction p with
  | all | compare c => rfl
  | sectorIn s =>
    rw [form, Form.holds_bundle_either (hsectors fun _ => rfl), meets, Bool.eq_iff_iff, Form.anyHolds_iff]
    simp only [List.mem_map, SectorSet.contains, List.contains_eq_mem, decide_eq_true_eq]
    constructor
    · rintro ⟨_, ⟨name, hname, rfl⟩, hholds⟩
      exact beq_iff_eq.1 hholds ▸ hname
    · exact fun h => ⟨_, ⟨sector, h, rfl⟩, beq_self_eq_true sector⟩
  | sectorOut s =>
    rw [form, Form.holds_bundle_both (hsectors fun _ => rfl), meets, Bool.eq_iff_iff, Form.allHold_iff]
    simp only [List.mem_map, forall_exists_index, and_imp, forall_apply_eq_imp_iff₂, Form.holds, bne_iff_ne,
      SectorSet.contains, Bool.not_eq_true', List.contains_eq_mem, decide_eq_false_iff_not]
    exact ⟨fun h hmem => h sector hmem rfl, fun h name hname heq => h (heq ▸ hname)⟩
  | and l r ihl ihr =>
    have hl : Respects test l.comparisons := htest.mono (List.subset_append_left _ _)
    have hr : Respects test r.comparisons := htest.mono (List.subset_append_right _ _)
    have hparts : Respects test (comparisonsOf (l.form.bothParts ++ r.form.bothParts)) := by
      rw [Form.comparisonsOf_append, Form.comparisonsOf_bothParts, Form.comparisonsOf_bothParts]
      exact htest.mono (List.append_subset.2 ⟨List.subset_append_of_subset_left _ (comparisons_form_subset l),
        List.subset_append_of_subset_right _ (comparisons_form_subset r)⟩)
    rw [form, Form.holds_bundle_both hparts, Form.allHold_append, Form.allHold_bothParts, Form.allHold_bothParts,
      ihl hl, ihr hr, meets]
  | or l r ihl ihr =>
    have hl : Respects test l.comparisons := htest.mono (List.subset_append_left _ _)
    have hr : Respects test r.comparisons := htest.mono (List.subset_append_right _ _)
    have hparts : Respects test (comparisonsOf (l.form.eitherParts ++ r.form.eitherParts)) := by
      rw [Form.comparisonsOf_append, Form.comparisonsOf_eitherParts, Form.comparisonsOf_eitherParts]
      exact htest.mono (List.append_subset.2 ⟨List.subset_append_of_subset_left _ (comparisons_form_subset l),
        List.subset_append_of_subset_right _ (comparisons_form_subset r)⟩)
    rw [form, Form.holds_bundle_either hparts, Form.anyHolds_append, Form.anyHolds_eitherParts, Form.anyHolds_eitherParts,
      ihl hl, ihr hr, meets]

/-- **Filters of one form** say the same. -/
theorem meets_of_sameForm (h : p.sameForm q = true) (hp : Respects test p.comparisons)
    (hq : Respects test q.comparisons) : p.meets test sector = q.meets test sector := by
  rw [← holds_form hp, ← holds_form hq]
  exact Form.holds_of_same h (hp.mono (comparisons_form_subset p))

/-- What fields and signs settle holds of every comparison of a filter if it does for another filter of
its form. -/
theorem every_of_sameForm {P : Comparison → Prop} (hP : ∀ a b, a.field = b.field → a.op = b.op → P a → P b)
    (h : p.sameForm q = true) (hp : p.Every P) : q.Every P := by
  intro cmp hcmp
  obtain ⟨b, hb, hfield, hop⟩ := exists_form_comparison hcmp
  obtain ⟨a, ha, hfield', hop', -⟩ := Form.exists_same_comparison (Form.same_symm h) b hb
  exact hP a cmp (hfield'.symm.trans hfield) (hop'.symm.trans hop) (hp a (comparisons_form_subset p ha))

end Predicate
end EquityScreen
