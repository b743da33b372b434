/-
Filters as reading builds them: comparisons that fit the catalog, sets of sectors of the vocabulary,
and conjunctions and alternatives of such. Joining them and turning them round gives others
(`WellFormed.conjoin`, `WellFormed.negate`).
-/
import EquityScreen.Proofs.Catalog.Regular
import EquityScreen.Proofs.Predicate.Negation
import EquityScreen.Sector

namespace EquityScreen

namespace Sector

/-- Sectors of the vocabulary, one at least. -/
def Listed (names : List String) : Prop := names ≠ [] ∧ ∀ name ∈ names, name ∈ listed

theorem mem_listed_of_resolve? {term sector : String} {anchored : Bool} (h : resolve? term anchored = some sector) :
    sector ∈ listed := by
  simp only [resolve?] at h
  split at h
  · exact absurd h (by simp)
  · obtain ⟨entry, hentry, rfl⟩ := Option.map_eq_some_iff.1 h
    exact List.mem_map_of_mem (List.mem_of_find?_eq_some hentry)

theorem listed_singleton {sector : String} (h : sector ∈ listed) : Listed [sector] :=
  ⟨List.cons_ne_nil _ _, fun _ hname => List.mem_singleton.1 hname ▸ h⟩

theorem listed_ofList {names : List String} : Listed (SectorSet.ofList names).names ↔ Listed names := by
  have hnil : (SectorSet.ofList names).names = [] ↔ names = [] := by
    simp only [List.eq_nil_iff_forall_not_mem, SectorSet.mem_names_ofList]
  simp only [Listed, ne_eq, hnil, SectorSet.mem_names_ofList]

end Sector

/-- The comparison fits the catalog, and a symbol in it is in capitals. -/
structure Comparison.WellFormed (c : Catalog) (cmp : Comparison) : Prop where
  fits : cmp.Fits c
  symbol : cmp.field = "symbol" → ∃ s, cmp.value = .text (Text.upper s)

/-- A comparison with a number that fits is about no symbol. -/
theorem Comparison.Fits.wellFormed_number {c : Catalog} (hc : c.Regular) {key : String} {op : Operator} {n : Number}
    (h : Comparison.Fits c ⟨key, op, .number n⟩) : Comparison.WellFormed c ⟨key, op, .number n⟩ := by
  refine ⟨h, fun hkey => ?_⟩
  obtain ⟨f, hf, -, -, htakes⟩ := h
  obtain ⟨g, hg, hk⟩ := hc.symbol
  have hfg : f = g := Option.some.inj (hf.symm.trans (by rw [show key = "symbol" from hkey]; exact hg))
  rw [hfg, hk] at htakes
  exact absurd htakes id

namespace Predicate

/-- The filter is made of well-formed comparisons and sets of listed sectors, none of them empty; no
part of it holds of everything. -/
def WellFormed (c : Catalog) : Predicate → Prop
  | .all => False
  | .compare cmp => cmp.WellFormed c
  | .sectorIn s | .sectorOut s => Sector.Listed s.names
  | .and p q | .or p q => p.WellFormed c ∧ q.WellFormed c

variable {c : Catalog} {p q : Predicate}

theorem WellFormed.ne_all (h : p.WellFormed c) : p ≠ .all := by
  rintro rfl
  exact h

theorem WellFormed.conjoin (hp : p.WellFormed c) (hq : q.WellFormed c) : (p.conjoin q).WellFormed c := by
  rw [conjoin_eq_and hp.ne_all hq.ne_all]
  exact ⟨hp, hq⟩

theorem WellFormed.disjoin (hp : p.WellFormed c) (hq : q.WellFormed c) : (p.disjoin q).WellFormed c := by
  rw [disjoin_eq_or hp.ne_all hq.ne_all]
  exact ⟨hp, hq⟩

theorem WellFormed.every (h : p.WellFormed c) : p.Every (·.Fits c) := by
  induction p with
  | all => exact every_all
  | compare cmp => exact every_compare.2 h.fits
  | sectorIn s => exact every_sectorIn
  | sectorOut s => exact every_sectorOut
  | and p q ihp ihq => exact every_and.2 ⟨ihp h.1, ihq h.2⟩
  | or p q ihp ihq => exact every_or.2 ⟨ihp h.1, ihq h.2⟩

/-- **The complement of a well-formed filter** is one. -/
theorem WellFormed.negate (hc : c.Regular) (h : p.WellFormed c) (hq : p.negate = .ok q) : q.WellFormed c := by
  have hcomplement := complement_of_negate hq
  clear hq
  induction hcomplement with
  | compare hop => exact ⟨h.fits.negated hc hop, h.symbol⟩
  | sectorIn s | sectorOut s => exact h
  | and _ _ ihl ihr | or _ _ ihl ihr => exact ⟨ihl h.1, ihr h.2⟩

end Predicate
end EquityScreen
