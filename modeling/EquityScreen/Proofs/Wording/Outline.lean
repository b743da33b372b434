/-
Sorting the conjuncts of a filter out loses none of them.

An outline has the parts of the filter that it was made from, and something stands in it
(`Outline.ofPredicate_sayable`). The filters kept as they are, the sectors asked for and those left out are
such as a query can write (`Outline.Sayable`). A filter that is put together from the three again has the same
parts (`Predicate.bothParts_conjoin`), and so the same form.
-/
import EquityScreen.Proofs.Wording.Filters
import Mathlib.Data.List.Induction

namespace EquityScreen

open Form (Normal SameSet)

theorem SectorSet.nodup (s : SectorSet) : s.names.Nodup := by
  refine s.ordered.imp fun hlt heq => ?_
  rw [heq] at hlt
  exact String.lt_irrefl _ hlt

theorem Sector.sorted_nodup {names : List String} (h : names.Nodup) : (sorted names).Nodup :=
  (List.mergeSort_perm _ _).nodup_iff.2 h

/-! ## Filters put together -/

namespace Predicate

variable {p q : Predicate}

/-- A filter with a form, or the one that holds of everything. -/
def FormedOrAll (p : Predicate) : Prop := p = .all ∨ p.Formed

theorem Formed.ne_all (h : p.Formed) : p ≠ .all := by
  rintro rfl
  exact h

theorem FormedOrAll.bothParts_normal (h : p.FormedOrAll) : ∀ a ∈ p.form.bothParts, Normal a := by
  rcases h with rfl | h
  · exact fun a ha => absurd ha List.not_mem_nil
  · exact h.bothParts_normal

theorem FormedOrAll.conjoin (hp : p.FormedOrAll) (hq : q.FormedOrAll) : (p.conjoin q).FormedOrAll := by
  rcases hp with rfl | hp
  · rwa [all_conjoin]
  · rcases hq with rfl | hq
    · exact .inr (by rwa [conjoin_all])
    · exact .inr (by rw [conjoin_eq_and hp.ne_all hq.ne_all]; exact ⟨hp, hq⟩)

/-- **The parts of filters put together** are those of both. -/
theorem bothParts_conjoin (hp : p.FormedOrAll) (hq : q.FormedOrAll) :
    SameSet (p.conjoin q).form.bothParts (p.form.bothParts ++ q.form.bothParts) := by
  rcases hp with rfl | hp
  · rw [all_conjoin]
    exact .refl hq.bothParts_normal
  · rcases hq with rfl | hq
    · rw [conjoin_all, form, Form.bothParts, List.append_nil]
      exact .refl hp.bothParts_normal
    · rw [conjoin_eq_and hp.ne_all hq.ne_all]
      exact bothParts_and hp hq

theorem Sayable.conjuncts (h : p.Sayable) : ∀ q ∈ p.conjuncts, q.Sayable :=
  forall_conjuncts (fun _ _ h => h) h

theorem Sayable.conjuncts_ne_nil (h : p.Sayable) : p.conjuncts ≠ [] := by
  induction p with
  | all => exact absurd h id
  | and l r ihl ihr => exact fun hnil => ihl h.1 (List.append_eq_nil_iff.1 hnil).1
  | _ => exact List.cons_ne_nil _ _

end Predicate

/-! ## Outlines -/

namespace Outline

variable {o : Outline} {p : Predicate} {ps : List Predicate}

/-- The parts of the conjuncts that are sorted out. -/
def parts (o : Outline) : List Form :=
  Predicate.parts o.rest ++ Predicate.parts (o.included.map .sectorIn).toList ++ o.excluded.map .notSector

/-- Everything in the outline is such as a query can write. -/
structure Sayable (o : Outline) : Prop where
  rest : ∀ p ∈ o.rest, p.Sayable
  included : ∀ s ∈ o.included, Sector.Listed s.names
  excluded : ∀ name ∈ o.excluded, name ∈ Sector.listed
  once : o.excluded.Nodup

theorem Sayable.normal (h : o.Sayable) : ∀ a ∈ o.parts, Normal a := by
  refine List.forall_mem_append.2 ⟨List.forall_mem_append.2 ⟨fun a ha => ?_, fun a ha => ?_⟩, fun a ha => ?_⟩
  · obtain ⟨p, hp, ha⟩ := List.mem_flatMap.1 ha
    exact (h.rest p hp).formed.bothParts_normal a ha
  · obtain ⟨p, hp, ha⟩ := List.mem_flatMap.1 ha
    obtain ⟨s, -, rfl⟩ := Option.map_eq_some_iff.1 (Option.mem_toList.1 hp)
    exact Predicate.Formed.bothParts_normal (p := .sectorIn s) trivial a ha
  · exact (Predicate.bothParts_notSector _ a ha).1

/-- The names left out with those of a set more. -/
theorem mem_excluded_with {excluded : List String} {s : SectorSet} {name : String} :
    name ∈ excluded ++ (Sector.sorted s.names).filter (!excluded.contains ·) ↔ name ∈ excluded ∨ name ∈ s.names := by
  by_cases hname : name ∈ excluded <;> simp [hname, Predicate.mem_sorted]

theorem nodup_excluded_with {excluded : List String} {s : SectorSet} (h : excluded.Nodup) :
    (excluded ++ (Sector.sorted s.names).filter (!excluded.contains ·)).Nodup := by
  refine List.nodup_append.2 ⟨h, (Sector.sorted_nodup s.nodup).filter _, fun a ha b hb hab => ?_⟩
  simpa [← hab, ha] using (List.mem_filter.1 hb).2

/-- **A conjunct more** is sorted out, and something stands in the outline. -/
theorem Sayable.add (h : o.Sayable) (hp : p.Sayable) :
    (o.add p).Sayable ∧ SameSet (o.add p).parts (o.parts ++ p.form.bothParts) ∧
      ((o.add p).rest ≠ [] ∨ (o.add p).included ≠ none ∨ (o.add p).excluded ≠ []) := by
  have hnormal := List.forall_mem_append.2 ⟨h.normal, hp.formed.bothParts_normal⟩
  unfold Outline.add
  split
  · next s hnone =>
    refine ⟨⟨h.rest, fun s' hs' => Option.some.inj hs' ▸ hp, h.excluded, h.once⟩, .symm (.of_mem_iff hnormal fun a => ?_), ?_⟩
    · simp only [parts, hnone, Option.map_none, Option.map_some, Option.toList_none, Option.toList_some,
        Predicate.parts_singleton, List.mem_append]
      simp [Predicate.parts, or_comm, or_left_comm]
    · exact .inr (.inl (Option.some_ne_none _))
  · next _ s =>
    have hmem := fun {name} => @mem_excluded_with o.excluded s name
    refine ⟨⟨h.rest, h.included, fun name hname => ?_, nodup_excluded_with h.once⟩, ?_, .inr (.inr ?_)⟩
    · exact (hmem.1 hname).elim (h.excluded name) (hp.2 name)
    · have hnames := List.forall_mem_append.2 ⟨h.normal, fun a ha => (Predicate.bothParts_notSector s.names a ha).1⟩
      refine SameSet.trans (.symm (.of_mem_iff hnames fun a => ?_))
        ((SameSet.refl h.normal).append (Predicate.bothParts_sectorOut s).symm)
      simp only [parts, List.mem_append, List.mem_map, hmem, or_and_right, exists_or, or_assoc]
    · obtain ⟨name, hname⟩ := List.exists_mem_of_ne_nil _ hp.1
      exact List.ne_nil_of_mem (hmem.2 (.inr hname))
  · next hin hout =>
    refine ⟨⟨List.forall_mem_append.2 ⟨h.rest, List.forall_mem_singleton.2 hp⟩, h.included, h.excluded, h.once⟩,
      .symm (.of_mem_iff hnormal fun a => ?_), .inl (by simp)⟩
    simp only [parts, Predicate.parts_append, Predicate.parts_singleton, List.mem_append]
    simp only [or_assoc, or_comm, or_left_comm]

theorem sayable_empty : ({} : Outline).Sayable := ⟨nofun, nofun, nofun, .nil⟩

/-- **The outline of a filter** has the parts of the filter. -/
theorem ofPredicate_sayable (hp : p.Sayable) :
    (ofPredicate p).Sayable ∧ SameSet (ofPredicate p).parts p.form.bothParts ∧
      ((ofPredicate p).rest ≠ [] ∨ (ofPredicate p).included ≠ none ∨ (ofPredicate p).excluded ≠ []) := by
  have hfold : ∀ ps : List Predicate, (∀ q ∈ ps, q.Sayable) → (ps.foldl add {}).Sayable ∧
      SameSet (ps.foldl add {}).parts (Predicate.parts ps) ∧ (ps ≠ [] → (ps.foldl add {}).rest ≠ [] ∨
        (ps.foldl add {}).included ≠ none ∨ (ps.foldl add {}).excluded ≠ []) := by
    intro ps hps
    induction ps using List.reverseRecOn with
    | nil => exact ⟨sayable_empty, ⟨nofun, nofun⟩, fun h => absurd rfl h⟩
    | append_singleton ps p ih =>
      obtain ⟨hps, hp⟩ := List.forall_mem_append.1 hps
      have hp := hp p List.mem_cons_self
      obtain ⟨ho, hparts, -⟩ := ih hps
      obtain ⟨hadd, hsame, hsome⟩ := ho.add hp
      rw [List.foldl_append, List.foldl_cons, List.foldl_nil, Predicate.parts_append, Predicate.parts_singleton]
      exact ⟨hadd, hsame.trans (hparts.append (.refl hp.formed.bothParts_normal)), fun _ => hsome⟩
  obtain ⟨hsayable, hparts, hsome⟩ := hfold p.conjuncts hp.conjuncts
  exact ⟨hsayable, hparts.trans (Predicate.bothParts_conjuncts hp.formed).symm, hsome hp.conjuncts_ne_nil⟩

end Outline
end EquityScreen
