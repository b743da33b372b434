/-
Finite sets of sector names, kept in the order of their code points without repetition, so that two
sets with the same members are equal.
-/
namespace EquityScreen

/-- A set of sector names. -/
structure SectorSet where
  names : List String
  ordered : names.Pairwise (· < ·)
  deriving DecidableEq

namespace SectorSet

/-- A name put into its place in an ordered list. -/
def insertName (x : String) : List String → List String
  | [] => [x]
  | a :: as =>
    if x < a then x :: a :: as
    else if a < x then a :: insertName x as
    else a :: as

theorem mem_insertName {x y : String} {l : List String} (h : y ∈ insertName x l) :
    y = x ∨ y ∈ l := by
  induction l with
  | nil => simpa [insertName] using h
  | cons a as ih =>
    simp only [insertName] at h
    split at h
    · simpa using h
    · split at h
      · rcases List.mem_cons.1 h with rfl | h
        · simp
        · rcases ih h with rfl | h <;> simp [*]
      · exact .inr h

theorem pairwise_insertName {x : String} {l : List String} (h : l.Pairwise (· < ·)) :
    (insertName x l).Pairwise (· < ·) := by
  induction l with
  | nil => simp [insertName]
  | cons a as ih =>
    rw [List.pairwise_cons] at h
    simp only [insertName]
    split
    · rename_i hx
      refine List.pairwise_cons.2 ⟨fun y hy => ?_, List.pairwise_cons.2 h⟩
      rcases List.mem_cons.1 hy with rfl | hy
      · exact hx
      · exact String.lt_trans hx (h.1 y hy)
    · split
      · rename_i hax
        refine List.pairwise_cons.2 ⟨fun y hy => ?_, ih h.2⟩
        rcases mem_insertName hy with rfl | hy
        · exact hax
        · exact h.1 y hy
      · exact List.pairwise_cons.2 h

/-- The set with one name more. -/
def insert (x : String) (s : SectorSet) : SectorSet :=
  ⟨insertName x s.names, pairwise_insertName s.ordered⟩

/-- The set of the names in a list. -/
def ofList (names : List String) : SectorSet :=
  names.foldr insert ⟨[], List.Pairwise.nil⟩

/-- The name is in the set. -/
def contains (s : SectorSet) (x : String) : Bool := s.names.contains x

theorem mem_insertName_iff {x y : String} {l : List String} : y ∈ insertName x l ↔ y = x ∨ y ∈ l := by
  refine ⟨mem_insertName, fun h => ?_⟩
  induction l with
  | nil => simpa [insertName] using h
  | cons a as ih =>
    simp only [insertName]
    split
    · simpa using h
    · next hxa =>
      split
      · rcases h with h | h
        · exact List.mem_cons_of_mem _ (ih (.inl h))
        · rcases List.mem_cons.1 h with rfl | h
          · exact List.mem_cons_self
          · exact List.mem_cons_of_mem _ (ih (.inr h))
      · next hax =>
        rcases h with rfl | h
        · rw [String.le_antisymm (String.not_lt.1 hax) (String.not_lt.1 hxa)]
          exact List.mem_cons_self
        · exact h

@[simp] theorem mem_names_ofList {names : List String} {x : String} : x ∈ (ofList names).names ↔ x ∈ names := by
  induction names with
  | nil => exact Iff.rfl
  | cons a as ih => exact mem_insertName_iff.trans (by rw [List.mem_cons, ← ih]; rfl)

@[simp] theorem contains_ofList {names : List String} {x : String} :
    (ofList names).contains x = true ↔ x ∈ names := by
  rw [contains, List.contains_iff_mem, mem_names_ofList]

end SectorSet

end EquityScreen
