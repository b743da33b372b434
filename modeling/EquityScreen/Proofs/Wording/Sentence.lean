/-
When a plan can be put into words: exactly when each of its comparisons can, and its order is by a field
of the catalog (`sentence_ok_iff`). The account of an answer takes no more than that, but for a field to
advise an order by and for the notes on qualitative phrases (`Account.of_ok_iff`, `countHint_ok`). Of a
sound plan it is only an unwieldy amount that cannot be put into words (`Account.of_error_iff`).
-/
import EquityScreen.Advice
import EquityScreen.Proofs.Draft.Sound
import EquityScreen.Proofs.Wording.Amount

namespace EquityScreen

open Clause (Settled)

variable {c : Catalog} {style : CurrencyStyle} {p : Predicate} {plan : Plan}

/-- The comparison can be put into words in the style. -/
def Comparison.WordableIn (c : Catalog) (style : CurrencyStyle) (cmp : Comparison) : Prop :=
  ∃ text, cmp.worded c style = .ok text

/-! ## Filters -/

theorem wordedPair_ok_iff {word : String} {l r : Except WordingError String} :
    (∃ text, wordedPair word l r = .ok text) ↔ (∃ s, l = .ok s) ∧ ∃ t, r = .ok t := by
  cases l <;> cases r <;> simp [wordedPair]

namespace Predicate

theorem worded_ok_iff (under : Connective) :
    (∃ text, p.worded c style under = .ok text) ↔ p.Every (·.WordableIn c style) := by
  induction p generalizing under with
  | all | sectorIn _ | sectorOut _ => simp [worded]
  | compare cmp => simp [worded, Comparison.WordableIn]
  | and l r ihl ihr => rw [worded, wordedPair_ok_iff, ihl, ihr, every_and]
  | or l r ihl ihr =>
    have hpair : (∃ text, wordedPair " or " (l.worded c style .or) (r.worded c style .or) = .ok text) ↔ _ :=
      wordedPair_ok_iff
    rw [every_or, ← ihl .or, ← ihr .or, ← hpair, worded]
    simp only [Except.map_ok_iff]
    exact ⟨fun ⟨_, text, h, _⟩ => ⟨text, h⟩, fun ⟨text, h⟩ => ⟨_, text, h, rfl⟩⟩

theorem wordedAll_ok_iff {ps : List Predicate} :
    (∃ texts, wordedAll c style ps = .ok texts) ↔ ∀ p ∈ ps, p.Every (·.WordableIn c style) := by
  unfold wordedAll
  simp only [Except.exists_mapM_ok_iff, worded_ok_iff]

/-- A filter can be put into words if its comparisons can. -/
theorem phrase_ok (h : p.Every (·.WordableIn c style)) : ∃ text, p.phrase c style = .ok text := by
  obtain ⟨texts, ht⟩ := wordedAll_ok_iff.2 (Predicate.every_conjuncts.2 h)
  exact ⟨_, by rw [phrase, ht]; rfl⟩

end Predicate

/-! ## Sentences -/

/-- Sorting conjuncts out loses no comparison. -/
theorem Outline.every_rest {P : Comparison → Prop} :
    (∀ q ∈ (Outline.ofPredicate p).rest, q.Every P) ↔ p.Every P := by
  have hfold : ∀ (ps : List Predicate) (o : Outline),
      (∀ q ∈ (ps.foldl add o).rest, q.Every P) ↔ (∀ q ∈ o.rest, q.Every P) ∧ ∀ q ∈ ps, q.Every P := by
    intro ps
    induction ps with
    | nil => simp
    | cons p ps ih =>
      intro o
      rw [List.foldl_cons, ih, List.forall_mem_cons, ← and_assoc]
      refine and_congr_left' ?_
      unfold add
      split
      · simp
      · simp
      · simp [or_imp, forall_and]
  rw [ofPredicate, hfold, Predicate.every_conjuncts]
  simp

/-- **A plan can be put into words** exactly if its comparisons can and its order is by a field of the
catalog. -/
theorem Plan.sentence_ok_iff :
    (∃ text, plan.sentence c style = .ok text) ↔
      plan.predicate.Every (·.WordableIn c style) ∧ ∀ o, plan.sort = some o → (c.field? o.field).isSome = true := by
  have horder : (∃ order, orderPart c plan.sort = .ok order) ↔
      ∀ o, plan.sort = some o → (c.field? o.field).isSome = true := by
    cases plan.sort with
    | none => simp [orderPart]
    | some o =>
      simp only [orderPart, Catalog.named, Option.some.injEq, forall_eq']
      cases c.field? o.field <;> simp [Except.map]
  have hwords : (∃ texts, wordedAll c style (c.arranged (Outline.ofPredicate plan.predicate).rest) = .ok texts) ↔
      plan.predicate.Every (·.WordableIn c style) := by
    rw [Predicate.wordedAll_ok_iff, ← Outline.every_rest]
    exact forall_congr' fun q => imp_congr_left List.mem_mergeSort
  rw [← horder, ← hwords]
  unfold sentence
  simp only [Except.bind_ok_iff, Except.pure_ok_iff]
  constructor
  · rintro ⟨_, texts, ht, order, ho, -⟩
    exact ⟨⟨texts, ht⟩, order, ho⟩
  · rintro ⟨⟨texts, ht⟩, order, ho⟩
    exact ⟨_, texts, ht, order, ho, rfl⟩

/-! ## Advice -/

/-- Advice on the number of matches takes a field to order by where there are many. -/
theorem countHint_ok {config : Config} (h : plan.predicate.Every (·.WordableIn c config.style))
    {clauses : List Selectivity} (hclauses : ∀ x ∈ clauses, x.clause ∈ plan.predicate.conjuncts) {matchCount : Int}
    (hcrowd : matchCount ≠ 0 → config.largeResult < matchCount →
      ∃ f, c.named ((plan.sort.map (·.field)).getD (plan.rankField c)) = .ok f) :
    ∃ hint, countHint c config plan matchCount clauses = .ok hint := by
  have hphrase : ∀ q ∈ plan.predicate.conjuncts, ∃ s, q.phrase c config.style = .ok s := fun q hq =>
    Predicate.phrase_ok (Predicate.every_conjuncts.2 h q hq)
  unfold countHint
  split
  · suffices hl : ∃ s, loosenHint c config.style plan clauses = .ok s by
      obtain ⟨s, hs⟩ := hl
      exact ⟨[s], by rw [hs]; rfl⟩
    cases clauses with
    | cons x xs =>
      obtain ⟨s, hs⟩ := hphrase x.clause (hclauses x List.mem_cons_self)
      exact ⟨_, by simp only [loosenHint, hs]; rfl⟩
    | nil =>
      cases hq : plan.predicate.conjuncts with
      | cons q qs =>
        obtain ⟨s, hs⟩ := hphrase q (by rw [hq]; exact List.mem_cons_self)
        exact ⟨_, by simp only [loosenHint, hq, hs]; rfl⟩
      | nil => exact ⟨_, by simp only [loosenHint, hq]; rfl⟩
  · next hmatches =>
    split
    · next hlarge =>
      rw [Bool.and_eq_true, decide_eq_true_iff] at hlarge
      obtain ⟨f, hf⟩ := hcrowd hmatches hlarge.1
      exact ⟨_, by simp only [crowdHint, hf]; rfl⟩
    · exact ⟨[], rfl⟩

/-- **An account of an answer** can be given exactly if the plan can be put into words, advice on the
number of matches can be given, and the phrases can be noted. -/
theorem Account.of_ok_iff {config : Config} {intent : Intent} {matchCount : Int} {skipped : List Skipped}
    {heuristics : List Heuristic} {clauses : List Selectivity} :
    (∃ account, Account.of c config plan intent matchCount skipped heuristics clauses = .ok account) ↔
      (∃ text, plan.sentence c config.style = .ok text) ∧
        (∃ hint, countHint c config plan matchCount clauses = .ok hint) ∧
        ∀ h ∈ heuristics, ∃ note, h.note c config.style = .ok note := by
  rw [← Except.exists_mapM_ok_iff]
  unfold Account.of
  simp only [Except.bind_ok_iff, Except.pure_ok_iff]
  constructor
  · rintro ⟨_, text, ht, hint, hh, notes, hn, -⟩
    exact ⟨⟨text, ht⟩, ⟨hint, hh⟩, notes, hn⟩
  · rintro ⟨⟨text, ht⟩, ⟨hint, hh⟩, notes, hn⟩
    exact ⟨_, text, ht, hint, hh, notes, hn, rfl⟩

/-- An account begins with the plan in words, after the preface of its intent. -/
theorem Account.interpretation_eq {config : Config} {intent : Intent} {matchCount : Int} {skipped : List Skipped}
    {heuristics : List Heuristic} {clauses : List Selectivity} {account : Account} {text : String}
    (h : Account.of c config plan intent matchCount skipped heuristics clauses = .ok account)
    (htext : plan.sentence c config.style = .ok text) : account.interpretation = intent.preface ++ text := by
  unfold Account.of at h
  simp only [htext, Except.bind_ok_iff, Except.pure_ok_iff, Except.ok.injEq] at h
  obtain ⟨_, rfl, _, -, _, -, rfl⟩ := h
  rfl

/-! ## Sound plans -/

/-- The comparison is with an amount that cannot be written. -/
def Comparison.Unwieldy (c : Catalog) (style : CurrencyStyle) (cmp : Comparison) : Prop :=
  ∃ f n, c.field? cmp.field = some f ∧ (f.kind = .currency ∨ f.kind = .numeric) ∧
    cmp.value = .number n ∧ n.Unwieldy style

theorem Comparison.worded_error_iff {cmp : Comparison} (h : cmp.Fits c) :
    (∃ e, cmp.worded c style = .error e) ↔ cmp.Unwieldy c style := by
  obtain ⟨f, hf, -, -, hv⟩ := h
  have hworded : (∃ e, cmp.worded c style = .error e) ↔ ∃ e, cmp.value.worded f.kind style = .error e := by
    simp only [worded, Catalog.named, hf, Except.map_error_iff]
  have hunwieldy : cmp.Unwieldy c style ↔ (f.kind = .currency ∨ f.kind = .numeric) ∧
      ∃ n, cmp.value = .number n ∧ n.Unwieldy style := by
    constructor
    · rintro ⟨g, n, hg, hk, hn⟩
      rw [hf] at hg
      cases hg
      exact ⟨hk, n, hn⟩
    · rintro ⟨hk, n, hn⟩
      exact ⟨f, n, hf, hk, hn⟩
  rw [hworded, hunwieldy]
  have hok : ∀ {r : Except WordingError String}, (∃ s, r = .ok s) → ¬ ∃ e, r = .error e := by
    rintro _ ⟨s, rfl⟩ ⟨e, h⟩
    exact absurd h (by simp)
  cases hk : f.kind with
  | text =>
    rw [hk] at hv
    exact ⟨fun h => absurd h (hok ⟨_, rfl⟩), fun h => absurd h.1 (by simp)⟩
  | sector =>
    rw [hk] at hv
    exact absurd hv id
  | percentage | ratio =>
    rw [hk] at hv
    refine ⟨fun h => ?_, fun h => absurd h.1 (by simp)⟩
    cases hval : cmp.value with
    | text s => rw [hval] at hv; exact absurd hv id
    | number n =>
      cases n with
      | int n => rw [hval] at hv; exact absurd hv id
      | double x =>
        rw [hval] at h
        exact absurd h (hok (Value.worded_double (by simp) style x))
  | currency | numeric =>
    rw [hk] at hv
    cases hval : cmp.value with
    | text s => rw [hval] at hv; exact absurd hv id
    | number n =>
      rw [Value.worded_amount_error_iff (by simp) style n]
      simp

theorem Comparison.Fits.wordableIn_iff {cmp : Comparison} (h : cmp.Fits c) :
    cmp.WordableIn c style ↔ ¬ cmp.Unwieldy c style := by
  rw [← Comparison.worded_error_iff h, Except.exists_error_iff, Classical.not_not]
  rfl

/-- Advice on an order is by a field of the catalog. -/
theorem rankField_named (hc : c.Regular) (plan : Plan) : ∃ f, c.named (plan.rankField c) = .ok f := by
  have hsome : (c.field? (plan.rankField c)).isSome = true := by
    unfold Plan.rankField
    cases hfind : plan.referencedFields.find? fun key => ((c.field? key).map (·.kind.isNumeric)).getD false with
    | none => exact hc.fallback
    | some key =>
      have := List.find?_some hfind
      cases hf : c.field? key with
      | none => rw [hf] at this; exact absurd this (by simp)
      | some f => exact hf ▸ rfl
  obtain ⟨f, hf⟩ := Option.isSome_iff_exists.1 hsome
  exact ⟨f, by rw [Catalog.named, hf]⟩

theorem rankField_or_sort_named (hc : c.Regular) (hsort : ∀ o, plan.sort = some o → (c.field? o.field).isSome = true) :
    ∃ f, c.named ((plan.sort.map (·.field)).getD (plan.rankField c)) = .ok f := by
  cases hs : plan.sort with
  | none => exact rankField_named hc plan
  | some o =>
    obtain ⟨f, hf⟩ := Option.isSome_iff_exists.1 (hsort o hs)
    exact ⟨f, by simp only [Option.map_some, Option.getD_some, Catalog.named, hf]⟩

/-- **The account of an answer** about a sound plan fails exactly for an unwieldy amount. -/
theorem Account.of_error_iff (hc : c.Regular) (config : Config) (h : plan.Sound c) (intent : Intent)
    (matchCount : Int) (skipped : List Skipped) {heuristics : List Heuristic} {clauses : List Selectivity}
    (hheuristics : ∀ x ∈ heuristics, Settled c x.predicate)
    (hclauses : ∀ x ∈ clauses, x.clause ∈ plan.predicate.conjuncts) :
    (∃ e, Account.of c config plan intent matchCount skipped heuristics clauses = .error e) ↔
      ∃ cmp ∈ plan.predicate.comparisons, cmp.Unwieldy c config.style := by
  have hwordable : plan.predicate.Every (·.WordableIn c config.style) ↔
      ¬ ∃ cmp ∈ plan.predicate.comparisons, cmp.Unwieldy c config.style := by
    rw [not_exists]
    refine forall_congr' fun cmp => ?_
    rw [not_and]
    exact forall_congr' fun hcmp => (h.predicate cmp hcmp).wordableIn_iff
  have hok : (∃ account, Account.of c config plan intent matchCount skipped heuristics clauses = .ok account) ↔
      plan.predicate.Every (·.WordableIn c config.style) := by
    rw [Account.of_ok_iff, Plan.sentence_ok_iff]
    refine ⟨fun hok => hok.1.1, fun hw => ⟨⟨hw, h.sort⟩,
      countHint_ok hw hclauses fun _ _ => rankField_or_sort_named hc h.sort, fun x hx => ?_⟩⟩
    obtain ⟨s, hs⟩ := Predicate.phrase_ok fun cmp hcmp => (hheuristics x hx).wordable cmp hcmp config.style
    exact ⟨_, by rw [Heuristic.note, hs]; rfl⟩
  exact Except.exists_error_iff.trans ((not_congr (hok.trans hwordable)).trans Classical.not_not)

end EquityScreen
