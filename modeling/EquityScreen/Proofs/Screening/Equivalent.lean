/-
Equivalent plans run alike. Where the comparisons of a filter have definite values, what the filter says
of a security is settled by its form (`selects_of_sameForm`); so plans that are equivalent are refused
together, and otherwise give the same rows, total and cap (`screen_equivalent`).

On a field of texts a value is definite when it is a text. Others are not: one and one as a double are
the same number, but texts are compared with how they are written. Not-a-number is the same as nothing,
so no plan that has it is equivalent to another.
-/
import EquityScreen.Proofs.Predicate.Meaning
import EquityScreen.Proofs.Screening.Rows

namespace EquityScreen

variable {c : Catalog} {maxResults : Int} {securities : List Security} {s : Security}

/-! ## Values that are the same -/

/-- Values that are the same compare alike with any other. -/
theorem Operator.holds?_of_same (op : Operator) (u : Value) {v w : Value} (h : v.same w = true) :
    op.holds? u v = op.holds? u w := by
  obtain ⟨r, hv, hw⟩ := Value.same_iff.1 h
  have hlt : u.lt v = u.lt w := Bool.eq_iff_iff.2 (by rw [Value.lt_iff, Value.lt_iff, hv, hw])
  have hgt : v.lt u = w.lt u := Bool.eq_iff_iff.2 (by rw [Value.lt_iff, Value.lt_iff, hv, hw])
  have hle : u.le v = u.le w := Bool.eq_iff_iff.2 (by rw [Value.le_iff, Value.le_iff, hv, hw])
  have hge : v.le u = w.le u := Bool.eq_iff_iff.2 (by rw [Value.le_iff, Value.le_iff, hv, hw])
  have hsame : u.same v = u.same w := Bool.eq_iff_iff.2 (by rw [Value.same_iff, Value.same_iff, hv, hw])
  cases op <;> simp only [holds?, hlt, hgt, hle, hge, hsame]

/-- A comparison on a field of texts has a text for its value. -/
def Comparison.Definite (c : Catalog) (cmp : Comparison) : Prop :=
  ∀ f, c.field? cmp.field = some f → f.kind = .text → ∃ t, cmp.value = .text t

/-- Values of comparisons of one form are one for the field, too, if the value is definite. -/
theorem Comparison.Same.operand {a b : Comparison} (h : a.Same b) (ha : a.Definite c) {f : Field}
    (hf : c.field? a.field = some f) : (f.kind.operand a.value).same (f.kind.operand b.value) = true := by
  obtain ⟨-, -, hvalue⟩ := h
  unfold Kind.operand
  split
  · next hkind =>
    obtain ⟨t, ht⟩ := ha f hf hkind
    obtain ⟨r, hr, hb⟩ := Value.same_iff.1 hvalue
    have hbt : b.value = .text t := by
      rw [ht, Value.rank?, Option.some.injEq] at hr
      subst hr
      cases hbv : b.value with
      | text u => simpa [hbv, Value.rank?] using hb
      | number n => simp [hbv, Value.rank?] at hb
    rw [ht, hbt]
    exact beq_self_eq_true _
  · exact hvalue

/-- Comparisons of one form say the same of every security. -/
theorem Comparison.Same.holds {a b : Comparison} (h : a.Same b) (ha : a.Definite c) (s : Security) :
    a.holds c s = b.holds c s := by
  obtain ⟨hfield, hop, -⟩ := id h
  unfold Comparison.holds
  rw [← hfield, ← hop]
  cases hf : c.field? a.field with
  | none => rfl
  | some f =>
    dsimp only
    cases f.read s with
    | none => rfl
    | some v => simp only [a.op.holds?_of_same (f.kind.operand v) (h.operand ha hf)]

/-! ## Filters of one form -/

namespace Predicate

variable {p q : Predicate}

/-- What a filter says of a security is said by its comparisons and the sector. -/
theorem meets_of_holds {b : Bool} {name : String} (hname : ∀ n, s.sector = .ok n → n = name)
    (h : p.holds c s = .ok b) : p.meets (fun cmp => (cmp.holds c s).toOption == some true) name = b := by
  induction p generalizing b with
  | all => exact Except.ok.inj h
  | compare cmp =>
    rw [holds] at h
    rw [meets, h]
    cases b <;> rfl
  | sectorIn set =>
    rw [holds, Except.map_ok_iff] at h
    obtain ⟨n, hn, rfl⟩ := h
    rw [meets, hname n hn]
  | sectorOut set =>
    rw [holds, Except.map_ok_iff] at h
    obtain ⟨n, hn, rfl⟩ := h
    rw [meets, hname n hn]
  | and l r ihl ihr =>
    rw [holds_and] at h
    rw [meets]
    cases hl : l.holds c s with
    | error e => simp [hl] at h
    | ok bl =>
      rw [ihl hl]
      cases bl with
      | false => simpa [hl] using h
      | true => exact ihr (by simpa [hl] using h)
  | or l r ihl ihr =>
    rw [holds_or] at h
    rw [meets]
    cases hl : l.holds c s with
    | error e => simp [hl] at h
    | ok bl =>
      rw [ihl hl]
      cases bl with
      | true => simpa [hl] using h
      | false => exact ihr (by simpa [hl] using h)

/-- **Filters of one form** that can both be looked at on a security say the same of it. -/
theorem selects_of_sameForm (h : p.sameForm q = true) (hp : p.Every (·.Definite c)) (hq : q.Every (·.Definite c))
    (hps : ∃ b, p.holds c s = .ok b) (hqs : ∃ b, q.holds c s = .ok b) : p.selects c s = q.selects c s := by
  have hrespects : ∀ {r : Predicate}, r.Every (·.Definite c) →
      Respects (fun cmp => (cmp.holds c s).toOption == some true) r.comparisons := by
    intro r hr a ha b hab
    dsimp only
    rw [hab.holds (hr a ha) s]
  obtain ⟨bp, hbp⟩ := hps
  obtain ⟨bq, hbq⟩ := hqs
  have hname : ∀ n, s.sector = .ok n → n = (s.sector.toOption.getD "") := fun n hn => by rw [hn]; rfl
  have hsame : p.meets _ (s.sector.toOption.getD "") = q.meets _ (s.sector.toOption.getD "") :=
    meets_of_sameForm h (hrespects hp) (hrespects hq)
  rw [meets_of_holds hname hbp, meets_of_holds hname hbq] at hsame
  rw [selects, selects, hbp, hbq, hsame]

end Predicate

/-! ## Refusal -/

/-- The plan is at fault, whatever the securities. -/
def ScreenError.ofPlan : ScreenError → Bool
  | .mixedOrder _ | .sectorNotText => false
  | _ => true

/-- The run is refused for a fault of the plan. -/
def Refused (run : Except ScreenError Screened) : Prop := ∃ e, run = .error e ∧ e.ofPlan = true

/-- Checking a filter finds faults of the plan. -/
theorem Predicate.ofPlan_of_check {p : Predicate} {e : ScreenError} (h : p.check c = .error e) : e.ofPlan = true := by
  have hpair : ∀ {l r : Predicate}, (∀ {e}, l.check c = .error e → e.ofPlan = true) →
      (∀ {e}, r.check c = .error e → e.ofPlan = true) → ∀ {e}, (Predicate.and l r).check c = .error e →
      e.ofPlan = true := by
    intro l r hl hr e h
    rw [check] at h
    split at h
    · next e' he =>
      cases h
      exact hl he
    · exact hr h
  induction p generalizing e with
  | all | sectorIn _ | sectorOut _ => exact absurd h (by simp [check])
  | compare cmp =>
    simp only [check, Catalog.checkOperator, Catalog.require] at h
    split at h
    · cases h
      rfl
    · cases hf : c.field? cmp.field with
      | none =>
        rw [hf] at h
        cases h
        rfl
      | some f =>
        simp only [hf] at h
        split at h
        · exact absurd h (by simp)
        · cases h
          rfl
  | and l r ihl ihr => exact hpair ihl ihr h
  | or l r ihl ihr => exact hpair ihl ihr h

variable {p q : Plan}

/-- Checking a plan finds faults of the plan. -/
theorem Plan.ofPlan_of_check {e : ScreenError} (h : p.check c = .error e) : e.ofPlan = true := by
  rcases Except.bind_error_iff.1 h with h | ⟨-, -, h⟩
  · exact Predicate.ofPlan_of_check h
  · rcases Except.bind_error_iff.1 h with h | ⟨-, -, h⟩
    · unfold checkRanking Catalog.require at h
      split at h
      · exact absurd h (by simp)
      · split at h
        · exact absurd h (by simp [Except.map])
        · cases h
          rfl
    · unfold checkLimit at h
      split at h
      · exact absurd h (by simp)
      · split at h
        · cases h
          rfl
        · exact absurd h (by simp)

/-- Running a plan that fits the catalog fails for the securities only: one has a number for its sector, or
their values have no common order. -/
theorem screen_error_cases (hp : p.check c = .ok ()) {e : ScreenError}
    (h : screen c maxResults securities p = .error e) :
    (e = .sectorNotText ∧ ∃ s ∈ securities, s.sector = .error .sectorNotText) ∨
      (∃ key, e = .mixedOrder key) ∧ ∀ s ∈ securities, ∃ b, p.predicate.holds c s = .ok b := by
  have hallowed := (Plan.check_ok_iff.1 hp).1
  have hfield := (Plan.check_ok_iff.1 hp).2.1
  rcases Except.bind_error_iff.1 h with h | ⟨-, -, h⟩
  · rw [hp] at h
    exact absurd h (by simp)
  rcases Except.bind_error_iff.1 h with h | ⟨found, hfound, h⟩
  · obtain ⟨s, hs, herror⟩ := exists_of_select_error h
    rcases Predicate.holds_cases (s := s) hallowed with ⟨b, hb⟩ | ⟨hnot, hsector⟩
    · rw [herror] at hb
      exact absurd hb (by simp)
    · rw [herror] at hnot
      exact .inl ⟨Except.error.inj hnot, s, hs, hsector⟩
  rcases Except.bind_error_iff.1 h with h | ⟨sorted, -, h⟩
  · refine .inr ⟨?_, (select_ok_iff.1 hfound).1⟩
    cases hranking : p.sort with
    | none => simp [hranking, sortRows] at h
    | some o =>
      obtain ⟨f, hf⟩ := Option.isSome_iff_exists.1 (hfield o hranking)
      simp only [hranking, sortRows, Catalog.require, hf, sortBy] at h
      split at h
      · exact ⟨f.key, (Except.error.inj h).symm⟩
      · exact absurd h (by simp)
  · exact absurd h (by simp [pure, Except.pure])

/-- **A run is refused** exactly if the plan does not fit the catalog. -/
theorem refused_screen_iff : Refused (screen c maxResults securities p) ↔ p.check c ≠ .ok () := by
  constructor
  · rintro ⟨e, he, hplan⟩ hcheck
    rcases screen_error_cases hcheck he with ⟨rfl, -⟩ | ⟨⟨key, rfl⟩, -⟩ <;> exact absurd hplan (by simp [ScreenError.ofPlan])
  · intro hcheck
    cases h : p.check c with
    | ok u => exact absurd h hcheck
    | error e => exact ⟨e, by simp only [screen, h, bind, Except.bind], Plan.ofPlan_of_check h⟩

/-! ## Equivalence -/

theorem Plan.equivalent_iff : p.equivalent q = true ↔
    p.predicate.sameForm q.predicate = true ∧ p.sort = q.sort ∧ p.limit = q.limit ∧ p.fromBottom = q.fromBottom := by
  simp only [equivalent, Bool.and_eq_true, beq_iff_eq, and_assoc]

/-- Whether a plan fits the catalog does not depend on the order and grouping of its filters. -/
theorem check_of_equivalent (h : p.equivalent q = true) (hp : p.check c = .ok ()) : q.check c = .ok () := by
  obtain ⟨hform, hsort, hlimit, -⟩ := Plan.equivalent_iff.1 h
  obtain ⟨hallowed, hfield, hnonneg⟩ := Plan.check_ok_iff.1 hp
  refine Plan.check_ok_iff.2 ⟨Predicate.every_of_sameForm (fun a b hf hop ha => ?_) hform hallowed,
    hsort ▸ hfield, hlimit ▸ hnonneg⟩
  rwa [Comparison.Allowed, ← hf, ← hop]

theorem Plan.equivalent_symm (h : p.equivalent q = true) : q.equivalent p = true := by
  obtain ⟨hform, hsort, hlimit, hbottom⟩ := equivalent_iff.1 h
  exact equivalent_iff.2 ⟨Form.same_symm hform, hsort.symm, hlimit.symm, hbottom.symm⟩

/-- Plans that differ in their filters only, with filters that select the same, run alike. -/
theorem screen_congr (hp : p.check c = .ok ()) (hq : q.check c = .ok ()) (hsort : p.sort = q.sort)
    (hlimit : p.limit = q.limit) (hbottom : p.fromBottom = q.fromBottom)
    (hps : ∀ s ∈ securities, ∃ b, p.predicate.holds c s = .ok b)
    (hqs : ∀ s ∈ securities, ∃ b, q.predicate.holds c s = .ok b)
    (hselects : ∀ s ∈ securities, p.predicate.selects c s = q.predicate.selects c s) :
    screen c maxResults securities p = screen c maxResults securities q := by
  have hfound : select (p.predicate.holds c) securities = select (q.predicate.holds c) securities := by
    rw [select_ok_iff.2 ⟨hps, rfl⟩, select_ok_iff.2 ⟨hqs, rfl⟩]
    exact congrArg _ (List.filter_congr hselects)
  unfold screen
  rw [hp, hq, hfound, hsort, hlimit, hbottom]

/-- **Equivalent plans run alike**, whatever the securities, if the values of their comparisons are
definite. They are refused together; and if they are not, then both runs end the same, unless some
security has a number for its sector and one of the runs comes upon it. Over securities whose cells are of
the kinds of their attributes both give the same rows in the same order, the same total and the same
cap. -/
theorem screen_equivalent (h : p.equivalent q = true) (hp : p.predicate.Every (·.Definite c))
    (hq : q.predicate.Every (·.Definite c)) (maxResults : Int) (securities : List Security) :
    (Refused (screen c maxResults securities p) ↔ Refused (screen c maxResults securities q)) ∧
      (¬ Refused (screen c maxResults securities p) →
        (screen c maxResults securities p = screen c maxResults securities q ∨
          (∃ s ∈ securities, s.sector = .error .sectorNotText) ∧
            (screen c maxResults securities p = .error .sectorNotText ∨
              screen c maxResults securities q = .error .sectorNotText)) ∧
        ((∀ s ∈ securities, s.Typed) → ∃ result, screen c maxResults securities p = .ok result ∧
          screen c maxResults securities q = .ok result)) := by
  obtain ⟨hform, hsort, hlimit, hbottom⟩ := Plan.equivalent_iff.1 h
  have hcheck : p.check c = .ok () ↔ q.check c = .ok () :=
    ⟨check_of_equivalent h, check_of_equivalent (Plan.equivalent_symm h)⟩
  refine ⟨refused_screen_iff.trans ((not_congr hcheck).trans refused_screen_iff.symm), fun hrefused => ?_⟩
  rw [refused_screen_iff, not_not] at hrefused
  -- Where both filters can be looked at on every security they select the same.
  have hsame : (∀ s ∈ securities, ∃ b, p.predicate.holds c s = .ok b) →
      (∀ s ∈ securities, ∃ b, q.predicate.holds c s = .ok b) →
      screen c maxResults securities p = screen c maxResults securities q := fun hps hqs =>
    screen_congr hrefused (hcheck.1 hrefused) hsort hlimit hbottom hps hqs fun s hs =>
      Predicate.selects_of_sameForm hform hp hq (hps s hs) (hqs s hs)
  have hlooked : ∀ {r : Plan}, r.check c = .ok () → (∀ s ∈ securities, ∃ b, r.predicate.holds c s = .ok b) ∨
      (∃ s ∈ securities, s.sector = .error .sectorNotText) ∧ screen c maxResults securities r = .error .sectorNotText := by
    intro r hr
    cases hrun : screen c maxResults securities r with
    | ok result => exact .inl (screen_ok_iff.1 hrun).2.1
    | error e =>
      rcases screen_error_cases hr hrun with ⟨rfl, hsector⟩ | ⟨-, hall⟩
      · exact .inr ⟨hsector, rfl⟩
      · exact .inl hall
  refine ⟨?_, fun htyped => ?_⟩
  · rcases hlooked hrefused with hps | ⟨hsector, hrun⟩
    · rcases hlooked (hcheck.1 hrefused) with hqs | ⟨hsector, hrun⟩
      · exact .inl (hsame hps hqs)
      · exact .inr ⟨hsector, .inr hrun⟩
    · exact .inr ⟨hsector, .inl hrun⟩
  · obtain ⟨result, hresult, -⟩ := screen_of_check hrefused htyped maxResults
    refine ⟨result, hresult, hresult ▸ (hsame (screen_ok_iff.1 hresult).2.1 fun s hs => ?_).symm⟩
    exact Predicate.holds_of_allowed (Plan.check_ok_iff.1 (hcheck.1 hrefused)).1 (htyped s hs)

/-- Two sectors and a bound, written two ways: as a set beside the bound, and as alternatives grouped with
the bound as a double, twice, and a filter that holds of everything. -/
theorem screen_equivalent_two_sectors :
    let sectors : Predicate := .or (.sectorIn (.ofList ["Banking"])) (.sectorIn (.ofList ["IT"]))
    let bound : Predicate := .compare ⟨"pe", .lt, .number (.decimal 15 0)⟩
    let p : Plan := { predicate := .and (.compare ⟨"pe", .lt, .number (.int 15)⟩) (.sectorIn (.ofList ["IT", "Banking"])) }
    let q : Plan := { predicate := .and sectors (.and (.and bound .all) bound) }
    let securities := [("IT", 12), ("Banking", 9), ("Pharma", 3)].map fun x : String × Int =>
      Security.ofCells [(.sector, some (.text x.1)), (.pe, some (.number (.int x.2)))]
    p.equivalent q = true ∧ p.predicate.Every (·.Definite Catalog.builtin) ∧
      q.predicate.Every (·.Definite Catalog.builtin) ∧
      (Refused (screen Catalog.builtin 500 securities p) ↔ Refused (screen Catalog.builtin 500 securities q)) ∧
      (¬ Refused (screen Catalog.builtin 500 securities p) →
        (screen Catalog.builtin 500 securities p = screen Catalog.builtin 500 securities q ∨
          (∃ s ∈ securities, s.sector = .error .sectorNotText) ∧
            (screen Catalog.builtin 500 securities p = .error .sectorNotText ∨
              screen Catalog.builtin 500 securities q = .error .sectorNotText)) ∧
        ((∀ s ∈ securities, s.Typed) → ∃ result, screen Catalog.builtin 500 securities p = .ok result ∧
          screen Catalog.builtin 500 securities q = .ok result)) := by
  intro sectors bound p q securities
  have hequivalent : p.equivalent q = true := by decide +kernel
  have hkind : (Catalog.builtin.field? "pe").any (·.kind ≠ .text) = true := by decide +kernel
  have hpe : ∀ op v, Comparison.Definite Catalog.builtin ⟨"pe", op, v⟩ := by
    intro op v f hf htext
    rw [show Catalog.builtin.field? "pe" = some f from hf] at hkind
    exact absurd htext (by simpa using hkind)
  have hp : p.predicate.Every (·.Definite Catalog.builtin) := by simp [p, hpe]
  have hq : q.predicate.Every (·.Definite Catalog.builtin) := by simp [q, sectors, bound, hpe]
  exact ⟨hequivalent, hp, hq, screen_equivalent hequivalent hp hq 500 securities⟩

end EquityScreen
