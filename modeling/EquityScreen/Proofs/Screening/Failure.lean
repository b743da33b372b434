/-
Where a run fails.

Cells need not be of the kinds of their attributes. Of a plan that fits the catalog nothing else can go wrong then
than two things: a filter asks for a sector that is a number other than zero, or the rows are to be put in the order
of texts and numbers (`screen_error_iff`).
-/
import EquityScreen.Proofs.Screening.Rows

namespace EquityScreen

variable {c : Catalog} {s : Security} {e : ScreenError} {securities rows : List Security}

/-! ## Where looking at a filter fails -/

theorem Security.sector_error_iff :
    s.sector = .error e ↔
      e = .sectorNotText ∧ ∃ n, s.cell .sector = some (.number n) ∧ n.same (.int 0) = false := by
  unfold sector
  split
  · next h => simp [h]
  · next h => simp [h]
  · next n h =>
    simp only [h, Option.some.injEq, Value.number.injEq, exists_eq_left']
    split
    · next hzero => simp [hzero]
    · next hzero => simp [hzero, eq_comm]

namespace Predicate

/-- Looking at the filter comes to a test of the sector. -/
def AsksSector (c : Catalog) (s : Security) : Predicate → Prop
  | .all | .compare _ => False
  | .sectorIn _ | .sectorOut _ => True
  | .and p q => p.AsksSector c s ∨ p.holds c s = .ok true ∧ q.AsksSector c s
  | .or p q => p.AsksSector c s ∨ p.holds c s = .ok false ∧ q.AsksSector c s

/-- Looking at two parts, the second only where the first says `go`, fails where one of them that is looked at
does. -/
theorem holds_error_of_parts {l r : Predicate} {go : Bool}
    (hl : ∀ e, l.holds c s = .error e ↔ s.sector = .error e ∧ l.AsksSector c s)
    (hr : ∀ e, r.holds c s = .error e ↔ s.sector = .error e ∧ r.AsksSector c s) {both : Except ScreenError Bool}
    (hboth : both = match l.holds c s with
      | .ok b => if b = go then r.holds c s else .ok b
      | .error e => .error e) :
    both = .error e ↔ s.sector = .error e ∧ (l.AsksSector c s ∨ l.holds c s = .ok go ∧ r.AsksSector c s) := by
  cases hholds : l.holds c s with
  | error e' =>
    rw [hholds] at hboth
    simpa [hboth, hholds] using hl e
  | ok b =>
    rw [hholds] at hboth
    -- A first part that was looked at did not come to a sector that is no text.
    have hasked : s.sector = .error e → ¬ l.AsksSector c s :=
      fun hs hasks => absurd (hholds.symm.trans ((hl e).2 ⟨hs, hasks⟩)) nofun
    by_cases hgo : b = go
    · subst hgo
      rw [hboth]
      simp only [if_true, true_and]
      rw [hr]
      exact and_congr_right fun hs => (or_iff_right (hasked hs)).symm
    · rw [hboth]
      simp only [hgo, if_false, Except.ok.injEq, false_and, or_false]
      exact iff_of_false nofun fun h => hasked h.1 h.2

/-- **Looking at a filter** of allowed comparisons fails where it comes to a sector that is no text. -/
theorem holds_error_iff {p : Predicate} (hp : p.Every (·.Allowed c)) :
    p.holds c s = .error e ↔ s.sector = .error e ∧ p.AsksSector c s := by
  induction p generalizing e with
  | all => exact iff_of_false (by simp [holds]) fun h => h.2
  | compare cmp =>
    obtain ⟨b, hb⟩ := Comparison.holds_ok (every_compare.1 hp) s
    exact iff_of_false (by simp [holds, hb]) fun h => h.2
  | sectorIn set => rw [holds, Except.map_error_iff, AsksSector, and_true]
  | sectorOut set => rw [holds, Except.map_error_iff, AsksSector, and_true]
  | and l r ihl ihr =>
    obtain ⟨hl, hr⟩ := every_and.1 hp
    refine holds_error_of_parts (fun e => ihl hl) (fun e => ihr hr) ?_
    rw [holds_and]
    rcases l.holds c s with e' | _ | _ <;> rfl
  | or l r ihl ihr =>
    obtain ⟨hl, hr⟩ := every_or.1 hp
    refine holds_error_of_parts (fun e => ihl hl) (fun e => ihr hr) ?_
    rw [holds_or]
    rcases l.holds c s with e' | _ | _ <;> rfl

end Predicate

/-! ## Where a run fails -/

/-- Both kinds of values occur among the values that rows have for a field. -/
theorem mixed_present_iff {f : Field} :
    mixed f (rows.filter fun s => !isMissing (f.read s)) = true ↔
      (∃ s ∈ rows, ∃ u, f.read s = some (.text u)) ∧ ∃ s ∈ rows, ∃ n, f.read s = some (.number n) ∧ n.isNaN = false := by
  simp only [mixed, Bool.and_eq_true, List.any_eq_true, List.mem_filter, Bool.not_eq_true', and_assoc]
  refine and_congr (exists_congr fun s => and_congr_right fun _ => ?_)
    (exists_congr fun s => and_congr_right fun _ => ?_)
  · cases hread : f.read s with
    | none => simp [isMissing]
    | some v => cases v <;> simp [isMissing, Value.isNaN]
  · cases hread : f.read s with
    | none => simp [isMissing]
    | some v => cases v <;> simp [isMissing, Value.isNaN]

/-- The filter comes to the sector of the security, and the sector is a number other than zero. -/
def Predicate.Baffled (c : Catalog) (p : Predicate) (s : Security) : Prop :=
  (∃ n, s.cell .sector = some (.number n) ∧ n.same (.int 0) = false) ∧ p.AsksSector c s

theorem Predicate.holds_error_iff_baffled {p : Predicate} (hp : p.Every (·.Allowed c)) :
    p.holds c s = .error e ↔ e = .sectorNotText ∧ p.Baffled c s := by
  rw [holds_error_iff hp, Security.sector_error_iff, Baffled, and_assoc]

theorem Predicate.exists_holds_iff {p : Predicate} (hp : p.Every (·.Allowed c)) :
    (∃ b, p.holds c s = .ok b) ↔ ¬ p.Baffled c s := by
  rw [← not_iff_not, ← Except.exists_error_iff, not_not]
  simp only [holds_error_iff_baffled hp, exists_eq_left]

theorem select_error_iff {p : Predicate} (hp : p.Every (·.Allowed c)) :
    select (p.holds c) securities = .error e ↔ e = .sectorNotText ∧ ∃ s ∈ securities, p.Baffled c s := by
  constructor
  · intro h
    obtain ⟨s, hs, he⟩ := exists_of_select_error h
    obtain ⟨rfl, hbaffled⟩ := (Predicate.holds_error_iff_baffled hp).1 he
    exact ⟨rfl, s, hs, hbaffled⟩
  · rintro ⟨rfl, s, hs, hbaffled⟩
    have hno : ¬ ∃ kept, select (p.holds c) securities = .ok kept := fun ⟨kept, hkept⟩ =>
      (Predicate.exists_holds_iff hp).1 ((select_ok_iff.1 hkept).1 s hs) hbaffled
    obtain ⟨e, he⟩ := Except.exists_error_iff.2 hno
    obtain ⟨s', -, he'⟩ := exists_of_select_error he
    rw [he, ((Predicate.holds_error_iff_baffled hp).1 he').1]

theorem sortRows_error_iff {sort : Option Ranking} (hsort : ∀ o, sort = some o → (c.field? o.field).isSome = true) :
    sortRows c rows sort = .error e ↔ ∃ o f, sort = some o ∧ c.field? o.field = some f ∧ e = .mixedOrder f.key ∧
      mixed f (rows.filter fun s => !isMissing (f.read s)) = true := by
  cases sort with
  | none => simp [sortRows]
  | some o =>
    obtain ⟨f, hf⟩ := Option.isSome_iff_exists.1 (hsort o rfl)
    rw [show sortRows c rows (some o) = sortBy f o.direction rows by rw [sortRows, Catalog.require, hf], sortBy]
    constructor
    · intro h
      split at h
      · next hmixed => exact ⟨o, f, rfl, hf, (Except.error.inj h).symm, hmixed⟩
      · exact absurd h (by simp)
    · rintro ⟨_, f', ⟨⟩, hf', rfl, hmixed⟩
      cases hf.symm.trans hf'
      rw [if_pos hmixed]

variable {p : Plan} {maxResults : Int}

theorem Predicate.found_all (c : Catalog) (securities : List Security) :
    Predicate.found c .all securities = securities :=
  List.filter_eq_self.2 fun _ _ => rfl

/-- **A run fails** in two ways only when the plan fits the catalog: the filter comes to a sector that is a number,
or else the matches have to be put in the order of texts and numbers. -/
theorem screen_error_iff (hp : p.check c = .ok ()) :
    screen c maxResults securities p = .error e ↔
      (e = .sectorNotText ∧ ∃ s ∈ securities, p.predicate.Baffled c s) ∨
        (¬ ∃ s ∈ securities, p.predicate.Baffled c s) ∧ ∃ o f, p.sort = some o ∧ c.field? o.field = some f ∧
          e = .mixedOrder f.key ∧
          mixed f ((p.predicate.found c securities).filter fun s => !isMissing (f.read s)) = true := by
  obtain ⟨hallowed, hsort, -⟩ := Plan.check_ok_iff.1 hp
  have hchain : screen c maxResults securities p = .error e ↔
      select (p.predicate.holds c) securities = .error e ∨
        ∃ found, select (p.predicate.holds c) securities = .ok found ∧ sortRows c found p.sort = .error e := by
    unfold screen
    simp only [Except.bind_error_iff, hp, reduceCtorEq, false_or, pure, Except.pure, and_false, exists_false, or_false,
      exists_const, true_and]
  rw [hchain, select_error_iff hallowed]
  refine or_congr_right ?_
  have hok : ∀ kept, select (p.predicate.holds c) securities = .ok kept ↔
      (¬ ∃ s ∈ securities, p.predicate.Baffled c s) ∧ kept = p.predicate.found c securities := fun kept => by
    rw [select_ok_iff, Predicate.found, not_exists]
    simp only [Predicate.exists_holds_iff hallowed, not_and]
    rfl
  simp only [hok, sortRows_error_iff hsort, and_assoc]
  exact ⟨fun ⟨kept, hnone, hkept, h⟩ => ⟨hnone, by rwa [hkept] at h⟩, fun ⟨hnone, h⟩ => ⟨_, hnone, rfl, h⟩⟩

/-- A text is in no order with a number and differs from it. -/
theorem Comparison.holds_of_text {key : String} {f : Field} {op : Operator} {n : Number} {u : String}
    (hf : c.field? key = some f) (hkind : f.kind ≠ .text) (hread : f.read s = some (.text u)) :
    (Comparison.mk key op (.number n)).holds c s = .ok true ↔ op = .ne := by
  unfold holds Kind.operand
  dsimp only
  rw [hf]
  dsimp only
  rw [hread]
  simp only [Value.isNaN, Bool.false_eq_true, if_false, if_neg hkind]
  cases op <;> simp [Operator.holds?, Value.lt, Value.le, Value.same]

end EquityScreen
