/-
Sectors that a query leaves out. Wherever in a text an exclude clause with a list of sectors stands,
inside parentheses or beside a connective, its sectors join those that the whole query leaves out
(`mem_excluded_of_excludes`); a security in one of them satisfies the filter of the query in no
spelling of its sector (`resolve?_ne_of_excludes`).
-/
import EquityScreen.Proofs.Draft.Reading
import EquityScreen.Proofs.Screening.Rows

namespace EquityScreen

open Clause (Reached excludeLength sectorList)

/-- The tokens have an exclude clause with a list of sectors, and the sector is one of the list. -/
def Clause.Excludes (c : Catalog) (ts : List Token) (sector : String) : Prop :=
  ∃ t rest, Reached c (t :: rest) ts ∧ t.content = .keyword .exclude ∧
    sector ∈ (sectorList ((t :: rest).drop (excludeLength (t :: rest))) true).1

/-- An exclude clause with a list of sectors is read as such. -/
theorem Clause.read_exclude {c : Catalog} {t : Token} {ts : List Token}
    (ht : t.content = .keyword .exclude)
    (hs : (sectorList ((t :: ts).drop (excludeLength (t :: ts))) true).1 ≠ []) :
    (read c t ts).clauses = [.excludedSectors (sectorList ((t :: ts).drop (excludeLength (t :: ts))) true).1] := by
  rw [clauses_of_exclude ht]
  unfold exclude
  dsimp only [excludeLength] at hs ⊢
  split
  · next heq => exact absurd (congrArg Prod.fst heq) hs
  · next names n _ heq => rw [heq]

namespace Draft

variable {c : Catalog}

/-- **Every exclude clause counts**: its sectors are among those that the query leaves out. -/
theorem mem_excluded_of_excludes {ts : List Token} {sector : String} (h : Clause.Excludes c ts sector) :
    sector ∈ (ofTokens c ts).excluded := by
  obtain ⟨t, rest, hreached, ht, hmem⟩ := h
  obtain ⟨d, hcomes⟩ := comes_of_reached hreached {}
  obtain ⟨left, hgather⟩ := hcomes.gather (Nat.le_refl _)
  rw [ofTokens, hgather]
  refine (continues_gather c left _ _).excluded ?_
  rw [advance, Clause.read_exclude ht (List.ne_nil_of_mem hmem)]
  exact mem_union.2 (.inr hmem)

end Draft

/-! ## What a query leaves out -/

/-- What an anchored spelling means is the sector that it counts as. -/
theorem Sector.normalize_of_resolve? {raw sector : String} (h : resolve? raw true = some sector) :
    normalize raw = sector := by
  simp only [resolve?, Bool.not_true, Bool.and_false, Bool.false_and, Bool.false_eq_true, if_false] at h
  rw [normalize, h, Option.getD_some]

namespace Query

/-- The text has an exclude clause with a list of sectors, and the sector is one of the list. -/
def Excludes (c : Catalog) (text sector : String) : Prop :=
  ∃ ts, tokenize text = .ok ts ∧ Clause.Excludes c (announced ts).2 sector

variable {c : Catalog} {text : String} {q : Query}

/-- **A sector that a query leaves out** is the sector of no security that satisfies its filter, in
whatever spelling. -/
theorem resolve?_ne_of_excludes (h : parse c text = .ok q)
    (hi : q.intent = .newScreen ∨ ∃ n, q.intent = .refinement n) {sector : String}
    (hexcludes : Excludes c text sector) {s : Security} (hs : q.plan.predicate.selects c s = true)
    {raw : String} (hraw : s.cell .sector = some (.text raw)) : Sector.resolve? raw true ≠ some sector := by
  intro hresolve
  obtain ⟨ts, hts, -, hplan, -⟩ := parse_plan h hi
  obtain ⟨ts', hts', hexcludes⟩ := hexcludes
  cases hts.symm.trans hts'
  have hmem := Draft.mem_excluded_of_excludes hexcludes
  have hout : (Predicate.sectorOut (.ofList (Draft.ofTokens c (announced ts).2).excluded)).selects c s = true := by
    rw [hplan] at hs
    have hne : (Draft.ofTokens c (announced ts).2).excluded.isEmpty = false := by
      simpa using List.ne_nil_of_mem hmem
    simp only [Draft.plan, Draft.predicate, hne, Bool.false_eq_true, if_false] at hs
    rw [Predicate.selects_conjoin, Bool.and_eq_true] at hs
    exact hs.2
  simp only [Predicate.selects_iff, Predicate.holds, Security.sector, hraw, Sector.normalize_of_resolve? hresolve, Except.map,
    Except.ok.injEq, Bool.not_eq_true', SectorSet.contains_ofList.2 hmem] at hout
  exact absurd hout (by simp)

end Query
end EquityScreen
