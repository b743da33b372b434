/-
Pairs put into pairs, as a look-up sees them.

A name keeps its place and takes the value that was put in last (`value?_putAll`); names that are told apart stay so
(`Distinct.putAll`), and then a look-up sees every pair (`Distinct.value?_eq_some_iff`). What a scope binds is such a
row.
-/
import EquityScreen.Log.Scope
import Mathlib.Data.List.Nodup

namespace EquityScreen.Log

namespace Pairs

/-- The value that a name has last in a row of pairs. -/
def last? (pairs : Pairs) (key : String) : Option Datum := value? pairs.reverse key

/-- The names are told apart. -/
def Distinct (pairs : Pairs) : Prop := (pairs.map (·.1)).Nodup

theorem value?_cons (p : String × Datum) (pairs : Pairs) (key : String) :
    value? (p :: pairs) key = if key = p.1 then some p.2 else value? pairs key := by
  obtain ⟨name, d⟩ := p
  rw [value?, List.lookup_cons, value?]
  by_cases h : key = name
  · simp [h]
  · simp [h, beq_eq_false_iff_ne.2 h]

theorem value?_append (pairs others : Pairs) (key : String) :
    value? (pairs ++ others) key = (value? pairs key).or (value? others key) :=
  List.lookup_append

theorem last?_append (pairs others : Pairs) (key : String) :
    last? (pairs ++ others) key = (last? others key).or (last? pairs key) := by
  rw [last?, List.reverse_append, value?_append, last?, last?]

theorem last?_cons (p : String × Datum) (pairs : Pairs) (key : String) :
    last? (p :: pairs) key = (last? pairs key).or (if key = p.1 then some p.2 else none) := by
  rw [last?, List.reverse_cons, value?_append, value?_cons, value?_nil, last?]

theorem value?_eq_none {pairs : Pairs} {key : String} (h : key ∉ pairs.map (·.1)) : value? pairs key = none := by
  induction pairs with
  | nil => rfl
  | cons p pairs ih =>
    rw [List.map_cons, List.mem_cons, not_or] at h
    rw [value?_cons, if_neg h.1, ih h.2]

/-! ## Pairs put in -/

theorem value?_put (pairs : Pairs) (name : String) (d : Datum) (key : String) :
    (put name d pairs).value? key = if key = name then some d else value? pairs key := by
  split
  · next h => rw [h, value?_put_self]
  · next h => exact value?_put_other pairs d h

theorem putAll_cons (pairs : Pairs) (p : String × Datum) (others : Pairs) :
    putAll pairs (p :: others) = putAll (put p.1 p.2 pairs) others := rfl

/-- **Pairs put in win** over those that were there, and of several with one name the last. -/
theorem value?_putAll (pairs others : Pairs) (key : String) :
    value? (putAll pairs others) key = (last? others key).or (value? pairs key) := by
  induction others generalizing pairs with
  | nil => rfl
  | cons p others ih =>
    rw [putAll_cons, ih, value?_put, last?_cons, Option.or_assoc]
    split <;> rfl

theorem putAll_putAll (pairs first second : Pairs) :
    putAll (putAll pairs first) second = putAll pairs (first ++ second) :=
  List.foldl_append.symm

/-! ## Names told apart -/

theorem map_fst_put (name : String) (d : Datum) (pairs : Pairs) :
    (put name d pairs).map (·.1) = if name ∈ pairs.map (·.1) then pairs.map (·.1) else pairs.map (·.1) ++ [name] := by
  induction pairs with
  | nil => rfl
  | cons p pairs ih =>
    by_cases h : p.1 = name
    · simp [put, h]
    · simp only [put, h, if_false, List.map_cons, ih, List.mem_cons, Ne.symm h, false_or]
      split <;> rfl

theorem Distinct.put {pairs : Pairs} (h : Distinct pairs) (name : String) (d : Datum) :
    Distinct (put name d pairs) := by
  rw [Distinct, map_fst_put]
  split
  · exact h
  · next hnew => exact List.nodup_append.2 ⟨h, List.nodup_singleton _, fun _ ha _ hb hab =>
      hnew (List.mem_singleton.1 hb ▸ hab ▸ ha)⟩

theorem Distinct.putAll {pairs : Pairs} (h : Distinct pairs) (others : Pairs) : Distinct (putAll pairs others) := by
  induction others generalizing pairs with
  | nil => exact h
  | cons p others ih => exact ih (h.put p.1 p.2)

/-- A name told apart from the others has one value, first and last. -/
theorem Distinct.last?_eq {pairs : Pairs} (h : Distinct pairs) (key : String) : last? pairs key = value? pairs key := by
  induction pairs with
  | nil => rfl
  | cons p pairs ih =>
    obtain ⟨hnew, hrest⟩ := List.nodup_cons.1 h
    rw [last?_cons, ih hrest, value?_cons]
    split
    · next hkey => rw [value?_eq_none (hkey ▸ hnew), Option.none_or]
    · rw [Option.or_none]

/-- **Of names told apart** a look-up sees every pair. -/
theorem Distinct.value?_eq_some_iff {pairs : Pairs} (h : Distinct pairs) {key : String} {d : Datum} :
    value? pairs key = some d ↔ (key, d) ∈ pairs := by
  induction pairs with
  | nil => simp
  | cons p pairs ih =>
    obtain ⟨hnew, hrest⟩ := List.nodup_cons.1 h
    obtain ⟨name, d'⟩ := p
    rw [value?_cons, List.mem_cons, Prod.mk.injEq]
    by_cases hkey : key = name
    · have hother : (key, d) ∉ pairs := fun hmem => hnew (List.mem_map.2 ⟨_, hmem, hkey⟩)
      rw [if_pos hkey, or_iff_left hother]
      simp [hkey, eq_comm]
    · rw [if_neg hkey, ih hrest]
      simp [hkey]

end Pairs

/-! ## What a scope binds -/

namespace Scope

theorem bound_distinct (s : Scope) : Pairs.Distinct s.bound := by
  refine Pairs.Distinct.putAll ?_ s.pairs
  unfold named
  split <;> split <;> simp [Pairs.Distinct]

/-- Under a name that is not that of an id only the pairs of a scope bind anything. -/
theorem value?_bound (s : Scope) {key : String} (hsession : key ≠ "session_id") (hquery : key ≠ "query_id") :
    Pairs.value? s.bound key = Pairs.last? s.pairs key := by
  have hids : key ∉ (named "session_id" s.session ++ named "query_id" s.query).map (·.1) := by
    unfold named
    split <;> split <;> simp [hsession, hquery]
  rw [bound, Pairs.value?_putAll, Pairs.value?_eq_none hids, Option.or_none]

end Scope

end EquityScreen.Log
