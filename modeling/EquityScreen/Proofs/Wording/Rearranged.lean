/-
Plans that differ in the order of their conjuncts only are put into the same words.

Conjuncts with places of their own in the catalog come out in one order, whatever order they had
(`Catalog.arranged_eq_of_perm`); at most one of them asks for sectors, so it is no matter which comes first; and the
sectors left out are one set, put into the order of the vocabulary (`Sector.sorted_eq_of_perm`).

* `sentence_of_rearranged`: the sentence is the same, and so is the error where there is no sentence.
-/
import EquityScreen.Catalog.Builtin
import EquityScreen.Proofs.Wording.Outline
import Mathlib.Data.List.Sort

namespace EquityScreen

/-! ## Sectors in the order of the vocabulary -/

namespace Sector

theorem inOrder_iff {a b : String} : inOrder a b = true ↔ rank a < rank b ∨ rank a = rank b ∧ a ≤ b := by
  simp [inOrder]

theorem inOrder_trans (a b c : String) (hab : inOrder a b = true) (hbc : inOrder b c = true) : inOrder a c = true := by
  rw [inOrder_iff] at hab hbc ⊢
  rcases hab with hab | ⟨hab, hle⟩ <;> rcases hbc with hbc | ⟨hbc, hle'⟩
  · exact .inl (hab.trans hbc)
  · exact .inl (hbc ▸ hab)
  · exact .inl (hab ▸ hbc)
  · exact .inr ⟨hab.trans hbc, String.le_trans hle hle'⟩

theorem inOrder_total (a b : String) : (inOrder a b || inOrder b a) = true := by
  rw [Bool.or_eq_true, inOrder_iff, inOrder_iff]
  rcases Nat.lt_trichotomy (rank a) (rank b) with h | h | h
  · exact .inl (.inl h)
  · exact (String.le_total a b).imp (fun hle => .inr ⟨h, hle⟩) fun hle => .inr ⟨h.symm, hle⟩
  · exact .inr (.inl h)

theorem inOrder_antisymm {a b : String} (hab : inOrder a b = true) (hba : inOrder b a = true) : a = b := by
  rw [inOrder_iff] at hab hba
  rcases hab with hab | ⟨hab, hle⟩ <;> rcases hba with hba | ⟨hba, hle'⟩
  · exact absurd hba (Nat.lt_asymm hab)
  · exact absurd hba.symm (Nat.ne_of_lt hab)
  · exact absurd hab.symm (Nat.ne_of_lt hba)
  · exact String.le_antisymm hle hle'

/-- **One arrangement**: names in the order of the vocabulary do not tell in what order they came. -/
theorem sorted_eq_of_perm {names others : List String} (h : names.Perm others) : sorted names = sorted others := by
  have hsorted := fun l => List.pairwise_mergeSort inOrder_trans inOrder_total l
  refine List.Perm.eq_of_pairwise (fun _ _ _ _ => inOrder_antisymm) (hsorted names) (hsorted others) ?_
  exact ((List.mergeSort_perm names _).trans h).trans (List.mergeSort_perm others _).symm

end Sector

theorem sectorPhrase_eq_of_perm {names others : List String} (h : names.Perm others) :
    sectorPhrase names = sectorPhrase others := by
  rw [sectorPhrase, sectorPhrase, Sector.sorted_eq_of_perm h, h.length_eq]

theorem excludedPart_eq_of_perm {names others : List String} (h : names.Perm others) :
    excludedPart names = excludedPart others := by
  rw [excludedPart, excludedPart, sectorPhrase_eq_of_perm h, h.isEmpty_eq]

/-! ## Filters in the order of the catalog -/

namespace Catalog

/-- The filters have places of their own in the catalog. -/
def OwnPlaces (c : Catalog) (ps : List Predicate) : Prop := (ps.map c.placeOf).Nodup

variable {c : Catalog} {ps qs : List Predicate}

theorem OwnPlaces.sublist (h : c.OwnPlaces ps) (hsub : qs.Sublist ps) : c.OwnPlaces qs :=
  List.Nodup.sublist (hsub.map _) h

theorem OwnPlaces.perm (h : c.OwnPlaces ps) (hperm : ps.Perm qs) : c.OwnPlaces qs := (hperm.map _).nodup_iff.1 h

/-- Filters of one place are one. -/
theorem OwnPlaces.eq_of_place (h : c.OwnPlaces ps) {p q : Predicate} (hp : p ∈ ps) (hq : q ∈ ps)
    (hplace : c.placeOf p = c.placeOf q) : p = q :=
  List.inj_on_of_nodup_map h hp hq hplace

/-- **One arrangement**: filters with places of their own come out in one order. -/
theorem arranged_eq_of_perm (h : c.OwnPlaces ps) (hperm : ps.Perm qs) : c.arranged ps = c.arranged qs := by
  have hsorted : ∀ l, (c.arranged l).Pairwise fun a b => c.placeOf a ≤ c.placeOf b := fun l =>
    (List.pairwise_mergeSort (by grind) (by grind) l).imp of_decide_eq_true
  have hps : (c.arranged ps).Perm ps := List.mergeSort_perm ps _
  have hqs : (c.arranged qs).Perm ps := (List.mergeSort_perm qs _).trans hperm.symm
  refine List.Perm.eq_of_pairwise (fun a b ha hb hab hba => ?_) (hsorted ps) (hsorted qs) (hps.trans hqs.symm)
  exact h.eq_of_place (hps.mem_iff.1 ha) (hqs.mem_iff.1 hb) (Nat.le_antisymm hab hba)

end Catalog

/-! ## Conjuncts sorted out -/

namespace Predicate

/-- The sectors that a filter asks for. -/
def asked? : Predicate → Option SectorSet
  | .sectorIn s => some s
  | _ => none

/-- The sectors that a filter leaves out. -/
def leftOut? : Predicate → Option SectorSet
  | .sectorOut s => some s
  | _ => none

theorem asked?_eq_some {p : Predicate} {s : SectorSet} : p.asked? = some s ↔ p = .sectorIn s := by
  cases p <;> simp [asked?]

theorem leftOut?_eq_some {p : Predicate} {s : SectorSet} : p.leftOut? = some s ↔ p = .sectorOut s := by
  cases p <;> simp [leftOut?]

end Predicate

/-- The conjuncts with a place in the sentence: all but those that leave sectors out. -/
def placed (ps : List Predicate) : List Predicate := ps.filter (·.leftOut?.isNone)

theorem placed_append (ps qs : List Predicate) : placed (ps ++ qs) = placed ps ++ placed qs :=
  List.filter_append ..

/-- Filters that ask for sectors have one place, so one at most does. -/
theorem Catalog.OwnPlaces.one_asked {c : Catalog} {ps : List Predicate} (h : c.OwnPlaces (placed ps)) :
    (ps.filterMap Predicate.asked?).length ≤ 1 := by
  have hsub : (ps.filter (·.asked?.isSome)).Sublist (placed ps) :=
    List.monotone_filter_right ps fun p hp => by
      obtain ⟨s, hs⟩ := Option.isSome_iff_exists.1 hp
      rw [Predicate.asked?_eq_some.1 hs]; rfl
  have hplace : ∀ p ∈ ps.filter (·.asked?.isSome), c.placeOf p = c.position "sector" := fun p hp => by
    obtain ⟨s, hs⟩ := Option.isSome_iff_exists.1 (List.mem_filter.1 hp).2
    rw [Predicate.asked?_eq_some.1 hs]; rfl
  have honce : ((ps.filter (·.asked?.isSome)).map c.placeOf).Nodup := h.sublist hsub
  rw [List.map_eq_replicate_iff.2 hplace, List.nodup_replicate] at honce
  rwa [List.length_filterMap_eq_countP, List.countP_eq_length_filter]

namespace Outline

/-- A conjunct that is not about sectors alone stands for itself. -/
theorem add_plain {o : Outline} {p : Predicate} (hasked : p.asked? = none) (hout : p.leftOut? = none) :
    o.add p = { o with rest := o.rest ++ [p] } := by
  cases p with
  | sectorIn s => exact absurd hasked (Option.some_ne_none s)
  | sectorOut s => exact absurd hout (Option.some_ne_none s)
  | _ => rfl

theorem add_sectorIn {o : Outline} {s : SectorSet} (h : o.included = none) :
    o.add (.sectorIn s) = { o with included := some s } := by
  simp only [add, h]

theorem add_sectorOut (o : Outline) (s : SectorSet) : o.add (.sectorOut s) =
    { o with excluded := o.excluded ++ (Sector.sorted s.names).filter (!o.excluded.contains ·) } := by
  cases o with
  | mk rest included excluded => cases included <;> rfl

/-- **The outline of a row of conjuncts** of which one at most asks for sectors. -/
theorem foldl_add {ps : List Predicate} (h : (ps.filterMap Predicate.asked?).length ≤ 1) :
    (ps.foldl add {}).rest = (placed ps).filter (·.asked?.isNone) ∧
    (ps.foldl add {}).included = (ps.filterMap Predicate.asked?).head? ∧
    (ps.foldl add {}).excluded.Nodup ∧
    ∀ name, name ∈ (ps.foldl add {}).excluded ↔ ∃ s ∈ ps.filterMap Predicate.leftOut?, name ∈ s.names := by
  induction ps using List.reverseRecOn with
  | nil => exact ⟨rfl, rfl, .nil, fun _ => by simp⟩
  | append_singleton ps p ih =>
    rw [List.filterMap_append, List.length_append] at h
    obtain ⟨hrest, hincluded, honce, hexcluded⟩ := ih (by omega)
    rw [List.foldl_append, List.foldl_cons, List.foldl_nil, placed_append, List.filterMap_append,
      List.filterMap_append]
    cases hasked : p.asked? with
    | some s =>
      obtain rfl := Predicate.asked?_eq_some.1 hasked
      have hnil : ps.filterMap Predicate.asked? = [] := by
        rw [List.filterMap_cons_some hasked, List.length_cons] at h
        exact List.eq_nil_of_length_eq_zero (by omega)
      rw [hnil, List.head?_nil] at hincluded
      rw [add_sectorIn hincluded]
      exact ⟨by simpa [placed, Predicate.asked?, Predicate.leftOut?] using hrest, by rw [hnil]; rfl, honce,
        by simpa [Predicate.leftOut?] using hexcluded⟩
    | none =>
      cases hout : p.leftOut? with
      | some s =>
        obtain rfl := Predicate.leftOut?_eq_some.1 hout
        rw [add_sectorOut]
        refine ⟨by simpa [placed, Predicate.leftOut?] using hrest, by simpa [Predicate.asked?] using hincluded,
          nodup_excluded_with honce, fun name => ?_⟩
        dsimp only
        rw [mem_excluded_with, hexcluded]
        simp [Predicate.leftOut?, or_and_right, exists_or]
      | none =>
        rw [add_plain hasked hout]
        exact ⟨by simp [placed, hrest, hasked, hout], by simpa [hasked] using hincluded, honce,
          by simpa [hout] using hexcluded⟩

/-- **Conjuncts in another order** are sorted out alike. -/
theorem foldl_add_perm {c : Catalog} {ps qs : List Predicate} (h : c.OwnPlaces (placed ps)) (hperm : ps.Perm qs) :
    c.arranged (ps.foldl add {}).rest = c.arranged (qs.foldl add {}).rest ∧
    (ps.foldl add {}).included = (qs.foldl add {}).included ∧
    (ps.foldl add {}).excluded.Perm (qs.foldl add {}).excluded := by
  have hqs : c.OwnPlaces (placed qs) := h.perm (hperm.filter _)
  obtain ⟨hrest, hincluded, honce, hexcluded⟩ := foldl_add h.one_asked
  obtain ⟨hrest', hincluded', honce', hexcluded'⟩ := foldl_add hqs.one_asked
  refine ⟨?_, ?_, (List.perm_ext_iff_of_nodup honce honce').2 fun name => ?_⟩
  · rw [hrest, hrest']
    exact Catalog.arranged_eq_of_perm (h.sublist List.filter_sublist) ((hperm.filter _).filter _)
  · rw [hincluded, hincluded']
    have hasked := hperm.filterMap Predicate.asked?
    match hps : ps.filterMap Predicate.asked?, h.one_asked with
    | [], _ => rw [hps] at hasked; rw [hasked.nil_eq]
    | [s], _ => rw [hps] at hasked; rw [List.singleton_perm.1 hasked]
    | _ :: _ :: _, hone => simp at hone
  · simp only [hexcluded, hexcluded', (hperm.filterMap _).mem_iff]

end Outline

/-! ## Sentences -/

/-- **The order of conjuncts is not heard.** Of two plans whose filters have the same conjuncts, in any order and
grouping, with places of their own in the catalog but for those that leave sectors out, either both have the same
sentence, or neither has one, for the same reason. -/
theorem sentence_of_rearranged (c : Catalog) (style : CurrencyStyle) (p : Plan) (filter : Predicate)
    (hperm : filter.conjuncts.Perm p.predicate.conjuncts) (hplaces : c.OwnPlaces (placed p.predicate.conjuncts)) :
    Plan.sentence c style { p with predicate := filter } = p.sentence c style := by
  obtain ⟨hrest, hincluded, hexcluded⟩ := Outline.foldl_add_perm hplaces hperm.symm
  simp only [Plan.sentence, Outline.ofPredicate, ← hrest, ← hincluded, excludedPart_eq_of_perm hexcluded]

/-- Two comparisons, a set of sectors asked for and two left out, in two groupings. -/
theorem sentence_of_rearranged_regrouped :
    let pe : Predicate := .compare ⟨"pe", .lt, .number (.int 15)⟩
    let roe : Predicate := .compare ⟨"roe", .gt, .number (.int 20)⟩
    let asked : Predicate := .sectorIn (.ofList ["IT", "Auto"])
    let power : Predicate := .sectorOut (.ofList ["Power"])
    let media : Predicate := .sectorOut (.ofList ["Media", "Banking"])
    let p : Plan := { predicate := .and (.and pe power) (.and asked (.and media roe)), sort := none, limit := some 5 }
    let filter : Predicate := .and media (.and (.and (.and roe asked) power) pe)
    Plan.sentence Catalog.builtin .indian { p with predicate := filter } = p.sentence Catalog.builtin .indian := by
  intro pe roe asked power media p filter
  have hplaces : Catalog.builtin.OwnPlaces (placed p.predicate.conjuncts) := by
    unfold Catalog.OwnPlaces; decide +kernel
  exact sentence_of_rearranged Catalog.builtin .indian p filter (by decide +kernel) hplaces

end EquityScreen
