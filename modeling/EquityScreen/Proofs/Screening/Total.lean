/-
Running a plan that fits the catalog on securities whose cells are of the kinds of their attributes
always gives rows (`screen_of_check`), and the rows are securities of the list.
-/
import EquityScreen.Proofs.Draft.Sound
import EquityScreen.Screening

namespace EquityScreen

/-- Every cell is empty or holds a value of the kind of its attribute. -/
def Security.Typed (s : Security) : Prop :=
  ∀ a v, s.cell a = some v → match v with
    | .text _ => a.isText = true
    | .number _ => a.isText = false

/-- A security has its kinds of cells if the listed ones have. -/
theorem Security.Typed.ofCells {cells : List (Attribute × Option Value)}
    (h : ∀ a v, (a, some v) ∈ cells → match v with
      | .text _ => a.isText = true
      | .number _ => a.isText = false) : (ofCells cells).Typed := by
  intro a v hv
  unfold Security.ofCells at hv
  dsimp only at hv
  cases hl : cells.lookup a with
  | none =>
    simp only [hl, Option.getD_none, defaultCell] at hv
    split at hv
    · next ha => exact Option.some.inj hv ▸ ha
    · exact absurd hv (by simp)
  | some cell =>
    rw [hl] at hv
    obtain ⟨l, r, rfl, -⟩ := List.lookup_eq_some_iff.1 hl
    exact h a v (by simp [show cell = some v from hv])

variable {c : Catalog} {s : Security} {p : Predicate}

/-! ## Filters -/

theorem Operator.holds?_isSome {op : Operator} (h : op ≠ .between) (a b : Value) :
    ∃ r, op.holds? a b = some r := by
  cases op <;> first | exact ⟨_, rfl⟩ | exact absurd rfl h

/-- The comparison names a field of the catalog and is one that the field allows. -/
def Comparison.Allowed (c : Catalog) (cmp : Comparison) : Prop :=
  ∃ f, c.field? cmp.field = some f ∧ cmp.op ≠ .between ∧ cmp.op ∈ f.operators

theorem Comparison.Fits.allowed {cmp : Comparison} (h : cmp.Fits c) : cmp.Allowed c := by
  obtain ⟨f, hf, hop, hmem, -⟩ := h
  exact ⟨f, hf, hop, hmem⟩

theorem Comparison.holds_ok {cmp : Comparison} (h : cmp.Allowed c) (s : Security) :
    ∃ b, cmp.holds c s = .ok b := by
  obtain ⟨f, hf, hop, -⟩ := h
  unfold holds
  rw [hf]
  dsimp only
  split
  · exact ⟨_, rfl⟩
  · split
    · exact ⟨_, rfl⟩
    · next v _ _ =>
      obtain ⟨r, hr⟩ := Operator.holds?_isSome hop (f.kind.operand v) (f.kind.operand cmp.value)
      exact ⟨r, by rw [hr]⟩

theorem Security.Typed.sector_ok (h : s.Typed) : ∃ name, s.sector = .ok name := by
  unfold sector
  split
  · exact ⟨_, rfl⟩
  · exact ⟨_, rfl⟩
  · next n hn =>
    have htext : Attribute.sector.isText = false := h .sector _ hn
    exact absurd htext (by decide)

theorem Security.sector_cases (s : Security) : (∃ name, s.sector = .ok name) ∨ s.sector = .error .sectorNotText := by
  unfold sector
  split
  · exact .inl ⟨_, rfl⟩
  · exact .inl ⟨_, rfl⟩
  · split
    · exact .inl ⟨_, rfl⟩
    · exact .inr rfl

/-- A filter of allowed comparisons can be looked at unless the sector of the security is a number. -/
theorem Predicate.holds_cases (hp : p.Every (·.Allowed c)) :
    (∃ b, p.holds c s = .ok b) ∨ p.holds c s = .error .sectorNotText ∧ s.sector = .error .sectorNotText := by
  induction p with
  | all => exact .inl ⟨_, rfl⟩
  | compare cmp => exact .inl (Comparison.holds_ok (every_compare.1 hp) s)
  | sectorIn set =>
    rcases s.sector_cases with ⟨name, hn⟩ | hn
    · exact .inl ⟨set.contains name, by rw [holds, hn]; rfl⟩
    · exact .inr ⟨by rw [holds, hn]; rfl, hn⟩
  | sectorOut set =>
    rcases s.sector_cases with ⟨name, hn⟩ | hn
    · exact .inl ⟨!set.contains name, by rw [holds, hn]; rfl⟩
    · exact .inr ⟨by rw [holds, hn]; rfl, hn⟩
  | and l r ihl ihr =>
    obtain ⟨hl, hr⟩ := every_and.1 hp
    rw [holds]
    rcases ihl hl with ⟨b, hb⟩ | ⟨herror, hs⟩
    · cases b with
      | false => exact .inl ⟨false, by rw [hb]⟩
      | true => simpa only [hb] using ihr hr
    · exact .inr ⟨by rw [herror], hs⟩
  | or l r ihl ihr =>
    obtain ⟨hl, hr⟩ := every_or.1 hp
    rw [holds]
    rcases ihl hl with ⟨b, hb⟩ | ⟨herror, hs⟩
    · cases b with
      | true => exact .inl ⟨true, by rw [hb]⟩
      | false => simpa only [hb] using ihr hr
    · exact .inr ⟨by rw [herror], hs⟩

theorem Predicate.holds_of_allowed (hp : p.Every (·.Allowed c)) (hs : s.Typed) :
    ∃ b, p.holds c s = .ok b := by
  obtain ⟨name, hn⟩ := hs.sector_ok
  rcases holds_cases (s := s) hp with h | ⟨-, h⟩
  · exact h
  · rw [hn] at h
    exact absurd h (by simp)

theorem Predicate.holds_ok (hp : p.Every (·.Fits c)) (hs : s.Typed) : ∃ b, p.holds c s = .ok b :=
  holds_of_allowed (fun cmp hcmp => (hp cmp hcmp).allowed) hs

/-- **Selecting** succeeds where the test does on every member, and keeps the members that pass. -/
theorem select_ok_iff {α ε : Type} {test : α → Except ε Bool} {l kept : List α} :
    select test l = .ok kept ↔
      (∀ a ∈ l, ∃ b, test a = .ok b) ∧ kept = l.filter fun a => (test a).toOption == some true := by
  induction l generalizing kept with
  | nil => simp [select, eq_comm]
  | cons a l ih =>
    rw [List.forall_mem_cons, select]
    cases ha : test a with
    | error e => simp
    | ok b =>
      rw [Except.map_ok_iff]
      simp only [ih, Except.ok.injEq, exists_eq', true_and]
      constructor
      · rintro ⟨rest, ⟨hall, rfl⟩, rfl⟩
        refine ⟨hall, ?_⟩
        cases b <;> simp [ha, Except.toOption]
      · rintro ⟨hall, rfl⟩
        refine ⟨_, ⟨hall, rfl⟩, ?_⟩
        cases b <;> simp [ha, Except.toOption]

theorem exists_of_select_error {α ε : Type} {test : α → Except ε Bool} {l : List α} {e : ε}
    (h : select test l = .error e) : ∃ a ∈ l, test a = .error e := by
  induction l with
  | nil => exact absurd h (by simp [select])
  | cons a l ih =>
    rw [select] at h
    cases ha : test a with
    | error e' =>
      rw [ha] at h
      exact ⟨a, List.mem_cons_self, Except.error.inj h ▸ ha⟩
    | ok b =>
      rw [ha] at h
      obtain ⟨x, hx, hxe⟩ := ih (Except.map_error_iff.1 h)
      exact ⟨x, List.mem_cons_of_mem _ hx, hxe⟩

theorem select_ok {α ε : Type} {test : α → Except ε Bool} {l : List α} (h : ∀ a ∈ l, ∃ b, test a = .ok b) :
    ∃ kept, select test l = .ok kept ∧ ∀ a ∈ kept, a ∈ l :=
  ⟨_, select_ok_iff.2 ⟨h, rfl⟩, fun _ ha => (List.mem_filter.1 ha).1⟩

/-! ## Checking, order, limit -/

/-- **A filter passes the check** exactly if each of its comparisons is allowed. -/
theorem Predicate.check_ok_iff : p.check c = .ok () ↔ p.Every (·.Allowed c) := by
  have hpair : ∀ l r : Predicate, (Predicate.and l r).check c = .ok () ↔
      l.check c = .ok () ∧ r.check c = .ok () := by
    intro l r
    rw [check]
    cases l.check c <;> simp
  induction p with
  | all => simp [check]
  | sectorIn set => simp [check]
  | sectorOut set => simp [check]
  | compare cmp =>
    rw [every_compare, check]
    by_cases hop : cmp.op = .between
    · simp [hop, Comparison.Allowed]
    · rw [if_neg hop]
      unfold Catalog.checkOperator Catalog.require Comparison.Allowed
      cases c.field? cmp.field <;> simp [hop]
  | and l r ihl ihr => exact (hpair l r).trans ((and_congr ihl ihr).trans every_and.symm)
  | or l r ihl ihr => exact (hpair l r).trans ((and_congr ihl ihr).trans every_or.symm)

theorem checkRanking_ok_iff {sort : Option Ranking} :
    checkRanking c sort = .ok () ↔ ∀ o, sort = some o → (c.field? o.field).isSome = true := by
  cases sort with
  | none => simp [checkRanking]
  | some o =>
    simp only [checkRanking, Catalog.require, Option.some.injEq, forall_eq']
    cases c.field? o.field <;> simp [Except.map]

theorem checkLimit_ok_iff {limit : Option Int} : checkLimit limit = .ok () ↔ ∀ n, limit = some n → 0 ≤ n := by
  cases limit with
  | none => simp [checkLimit]
  | some n => simp [checkLimit]

/-- **A plan passes the check** exactly if each of its comparisons is allowed, its order is by a field
of the catalog and its limit is not negative. -/
theorem Plan.check_ok_iff {plan : Plan} :
    plan.check c = .ok () ↔ plan.predicate.Every (·.Allowed c) ∧
      (∀ o, plan.sort = some o → (c.field? o.field).isSome = true) ∧ ∀ n, plan.limit = some n → 0 ≤ n := by
  rw [← Predicate.check_ok_iff, ← checkRanking_ok_iff, ← checkLimit_ok_iff]
  unfold check
  cases plan.predicate.check c <;> cases checkRanking c plan.sort <;> simp [bind, Except.bind]

theorem Plan.Sound.check_ok {plan : Plan} (h : plan.Sound c) : plan.check c = .ok () :=
  Plan.check_ok_iff.2 ⟨fun cmp hcmp => (h.predicate cmp hcmp).allowed, h.sort, h.limit⟩

/-- The values of one field are all texts or all numbers. -/
theorem mixed_eq_false (f : Field) {rows : List Security} (h : ∀ s ∈ rows, s.Typed) :
    mixed f rows = false := by
  refine Bool.eq_false_iff.2 fun hmixed => ?_
  simp only [mixed, Bool.and_eq_true, List.any_eq_true] at hmixed
  obtain ⟨⟨s, hs, hst⟩, u, hu, hun⟩ := hmixed
  unfold Field.read at hst hun
  split at hst
  · next t ht =>
    split at hun
    · next n hn =>
      have h1 := h s hs f.attr _ ht
      have h2 := h u hu f.attr _ hn
      dsimp only at h1 h2
      rw [h1] at h2
      exact absurd h2 (by simp)
    · exact absurd hun (by simp)
  · exact absurd hst (by simp)

theorem sortBy_ok (f : Field) (d : Direction) {rows : List Security} (h : ∀ s ∈ rows, s.Typed) :
    ∃ sorted, sortBy f d rows = .ok sorted ∧ ∀ s ∈ sorted, s ∈ rows := by
  have hmixed : mixed f (rows.filter fun s => !isMissing (f.read s)) = false :=
    mixed_eq_false f fun s hs => h s ((List.mem_filter.1 hs).1)
  refine ⟨(rows.filter fun s => !isMissing (f.read s)).mergeSort (inOrder f d) ++
    rows.filter fun s => isMissing (f.read s), ?_, fun s hs => ?_⟩
  · simp only [sortBy, hmixed, Bool.false_eq_true, if_false]
  rcases List.mem_append.1 hs with hs | hs
  · exact (List.mem_filter.1 (List.mem_mergeSort.1 hs)).1
  · exact (List.mem_filter.1 hs).1

theorem mem_takeSigned {α : Type} {n : Int} {l : List α} {a : α} (h : a ∈ takeSigned n l) : a ∈ l := by
  unfold takeSigned at h
  split at h
  · exact List.mem_of_mem_take h
  · exact List.mem_of_mem_take h

theorem mem_limitRows {α : Type} {limit : Option Int} {fromBottom : Bool} {rows : List α} {a : α}
    (h : a ∈ limitRows limit fromBottom rows) : a ∈ rows := by
  unfold limitRows at h
  split at h
  · exact h
  · split at h
    · exact List.mem_of_mem_drop h
    · exact List.mem_of_mem_take h

/-- **Running a plan** that fits the catalog gives rows. -/
theorem screen_of_check {plan : Plan} (h : plan.check c = .ok ()) {securities : List Security}
    (hs : ∀ s ∈ securities, s.Typed) (maxResults : Int) :
    ∃ found, screen c maxResults securities plan = .ok found ∧ ∀ s ∈ found.rows, s ∈ securities := by
  obtain ⟨hallowed, hsort, -⟩ := Plan.check_ok_iff.1 h
  obtain ⟨kept, hkept, hsub⟩ :=
    select_ok fun s (hmem : s ∈ securities) => Predicate.holds_of_allowed hallowed (hs s hmem)
  obtain ⟨sorted, hsorted, hmem⟩ : ∃ sorted, sortRows c kept plan.sort = .ok sorted ∧ ∀ s ∈ sorted, s ∈ kept := by
    cases hranking : plan.sort with
    | none => exact ⟨kept, rfl, fun _ h => h⟩
    | some o =>
      obtain ⟨f, hf⟩ := Option.isSome_iff_exists.1 (hsort o hranking)
      obtain ⟨sorted, hs', hmem⟩ := sortBy_ok f o.direction fun s (h : s ∈ kept) => hs s (hsub s h)
      exact ⟨sorted, by rw [sortRows, Catalog.require, hf]; exact hs', hmem⟩
  refine ⟨_, by simp only [screen, h, hkept, hsorted, bind, Except.bind]; rfl, fun s hrow => ?_⟩
  dsimp only at hrow
  have hlimited : s ∈ limitRows plan.limit plan.fromBottom sorted := by
    split at hrow
    · exact mem_takeSigned hrow
    · exact hrow
  exact hsub s (hmem s (mem_limitRows hlimited))

/-! ## Selectivity -/

/-- The selectivity of a clause: the number of securities that it holds of. -/
def measured (c : Catalog) (securities : List Security) (p : Predicate) : Selectivity :=
  ⟨p, (securities.filter fun s => (p.holds c s).toOption == some true).length, securities.length⟩

theorem clauseCounts_ok_iff {securities : List Security} {ps : List Predicate} {l : List Selectivity} :
    clauseCounts c securities ps = .ok l ↔
      (∀ p ∈ ps, ∀ s ∈ securities, ∃ b, p.holds c s = .ok b) ∧ l = ps.map (measured c securities) := by
  induction ps generalizing l with
  | nil => simp [clauseCounts, eq_comm]
  | cons p ps ih =>
    simp only [clauseCounts, Except.bind_ok_iff, Except.pure_ok_iff, select_ok_iff, ih, List.forall_mem_cons]
    constructor
    · rintro ⟨_, ⟨hp, rfl⟩, _, ⟨hps, rfl⟩, rfl⟩
      exact ⟨⟨hp, hps⟩, rfl⟩
    · rintro ⟨⟨hp, hps⟩, rfl⟩
      exact ⟨_, ⟨hp, rfl⟩, _, ⟨hps, rfl⟩, rfl⟩

/-- **The selectivity can be worked out** where each clause can be looked at on every security. -/
theorem selectivity_ok_iff {plan : Plan} {securities : List Security} {l : List Selectivity} :
    selectivity c securities plan = .ok l ↔
      (∀ q ∈ plan.predicate.conjuncts, ∀ s ∈ securities, ∃ b, q.holds c s = .ok b) ∧
        l = (plan.predicate.conjuncts.map (measured c securities)).mergeSort fun a b => a.passing ≤ b.passing := by
  simp only [selectivity, Except.map_ok_iff, clauseCounts_ok_iff]
  constructor
  · rintro ⟨_, ⟨h, rfl⟩, rfl⟩
    exact ⟨h, rfl⟩
  · rintro ⟨h, rfl⟩
    exact ⟨_, ⟨h, rfl⟩, rfl⟩

/-- Where each clause can be looked at on every security, the selectivity can be worked out, and is that
of the clauses. -/
theorem selectivity_ok {plan : Plan} {securities : List Security}
    (h : ∀ q ∈ plan.predicate.conjuncts, ∀ s ∈ securities, ∃ b, q.holds c s = .ok b) :
    ∃ l, selectivity c securities plan = .ok l ∧ ∀ x ∈ l, x.clause ∈ plan.predicate.conjuncts := by
  refine ⟨_, selectivity_ok_iff.2 ⟨h, rfl⟩, fun x hx => ?_⟩
  obtain ⟨q, hq, rfl⟩ := List.mem_map.1 (List.mem_mergeSort.1 hx)
  exact hq

end EquityScreen
