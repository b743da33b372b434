/-
Reading goes forward. Every reading takes up a token at least (`one_le_used`), so going from clause to
clause comes to the end; `Reached` says which tokens the reading stands before on its way.
-/
import EquityScreen.Proofs.Clause.Operand

namespace EquityScreen
namespace Clause

variable {c : Catalog} {f : Field} {t : Token} {ts : List Token}

/-! ## Names -/

theorem one_le_longest? {α : Type} {most n : Nat} {meaning? : String → Option α} {a : α}
    (h : longest? most meaning? ts = some (a, n)) : 1 ≤ n := (longest?_spec h).1

theorem one_le_sectorAt? {anchored : Bool} {sector : String} {n : Nat}
    (h : sectorAt? ts anchored = some (sector, n)) : 1 ≤ n := (sectorAt?_spec h).1

theorem one_le_sectorsFrom {anchored : Bool} {fuel : Nat} (h : (sectorsFrom anchored fuel ts []).1 ≠ []) :
    1 ≤ (sectorsFrom anchored fuel ts []).2 := by
  cases fuel with
  | zero => exact absurd rfl h
  | succ fuel =>
    cases hsector : sectorAt? (ts.drop (if articleNext ts then 1 else 0)) anchored with
    | none =>
      simp only [sectorsFrom, hsector] at h
      exact absurd rfl h
    | some named =>
      obtain ⟨sector, n⟩ := named
      have hn := one_le_sectorAt? hsector
      simp only [sectorsFrom, hsector]
      generalize (if articleNext ts = true then 1 else 0) = article
      have hused : 1 ≤ article + n := Nat.le_add_left_of_le hn
      split
      · split
        · exact hused
        · exact Nat.le_add_right_of_le (Nat.le_add_left _ _)
      · exact hused

theorem one_le_sectorList {anchored : Bool} (h : (sectorList ts anchored).1 ≠ []) :
    1 ≤ (sectorList ts anchored).2 := by
  unfold sectorList at h ⊢
  dsimp only at h ⊢
  split at h
  · exact absurd rfl h
  · next hne =>
    rw [if_neg hne]
    exact Nat.le_trans (one_le_sectorsFrom h) (Nat.le_add_right _ _)

/-! ## Readings -/

theorem le_readComparison (f : Field) (n : Nat) (op : Operator) (ts : List Token) :
    n + 1 ≤ (readComparison f n op ts).2 := by
  rcases readComparison_cases f n op ts with ⟨_, _, -, h⟩ | ⟨_, _, _, -, -, h⟩ | ⟨_, _, -, -, h⟩ <;>
    rw [h] <;> exact Nat.le_add_right _ _

theorem one_le_readWord : 1 ≤ (readWord c t ts).2 := by
  refine readWord_cases (P := fun r => 1 ≤ r.2) ?_ ?_ ?_ ?_ ?_
  · intro d r h
    obtain ⟨o, n, rfl⟩ := superlative?_some h
    exact Nat.le_add_left _ _
  · intro r h
    simp only [phrase?, Option.bind_eq_bind, Option.bind_eq_some_iff] at h
    obtain ⟨⟨terms, n⟩, hn, h⟩ := h
    split at h
    · exact absurd h (by simp)
    · simp only [Option.bind_eq_some_iff, Option.pure_def, Option.some.injEq] at h
      obtain ⟨p, -, rfl⟩ := h
      exact one_le_longest? hn
  · intro q r h
    obtain ⟨f, n, -, ⟨_, _, -, -, rfl⟩ | ⟨_, rfl⟩⟩ := quality?_some h <;> exact Nat.le_add_left _ _
  · intro f n h
    have hn := one_le_longest? h
    rcases fieldClause_cases f n ts with ⟨op, -, h⟩ | ⟨d, h⟩ | ⟨reason, h⟩ <;> rw [h]
    · exact Nat.le_trans (Nat.le_add_left _ _) (le_readComparison f n op ts)
    · exact Nat.le_add_left _ _
    · exact hn
  · rcases plainWord_cases t ts with ⟨n, heq, hne, h⟩ | h | h
    · rw [h, ← congrArg Prod.snd heq]
      exact one_le_sectorList hne
    · exact Nat.le_of_eq (congrArg Prod.snd h).symm
    · exact Nat.le_of_eq (congrArg Prod.snd h).symm

theorem le_orderBy {d : Direction} {n : Nat} : n ≤ (orderBy c d n ts).2 := by
  unfold orderBy
  split
  · exact Nat.le_refl n
  · dsimp only
    omega

theorem le_orderUnlessCompared {d : Direction} {n : Nat} : n ≤ (orderUnlessCompared c d n ts).2 := by
  unfold orderUnlessCompared
  split
  · exact Nat.le_refl n
  · split
    · exact Nat.le_refl n
    · exact le_orderBy

theorem one_le_limitClause {bottom : Bool} : 1 ≤ (limitClause c bottom ts).2 := by
  unfold limitClause
  dsimp only
  split
  · exact Nat.le_refl 1
  · split
    · split
      · exact Nat.le_add_left _ _
      · split
        · exact Nat.le_trans (Nat.le_add_left 1 2) le_orderBy
        · exact Nat.le_trans (Nat.le_add_left 1 1) le_orderUnlessCompared
    · exact le_orderUnlessCompared

theorem one_le_exclude : 1 ≤ (exclude c ts).2 := by
  have hstart : 1 ≤ if nextIs .inside (ts.drop 1) then 2 else 1 := by split <;> decide
  unfold exclude
  dsimp only
  split
  · unfold reverse
    dsimp only
    split
    · simp only [skip]
      omega
    · split
      · dsimp only
        omega
      · simp only [skip]
        omega
  · dsimp only
    omega

theorem one_le_inside : 1 ≤ (inside ts).2 := by
  unfold inside
  dsimp only
  split
  · exact Nat.le_add_right _ _
  · dsimp only [sectorClause]
    omega

theorem one_le_readKeyword (k : Keyword) : 1 ≤ (readKeyword c k ts).2 := by
  have hdirection : ∀ d, 1 ≤ (readKeyword.orderOnly c ts d).2 := by
    intro d
    unfold readKeyword.orderOnly
    split
    · exact Nat.le_refl 1
    · exact Nat.le_add_left _ _
  cases k with
  | and | or | help | clear => exact Nat.le_refl 1
  | exclude => exact one_le_exclude
  | inside => exact one_le_inside
  | top | bottom => exact one_le_limitClause
  | ascending | descending => exact hdirection _
  | sort =>
    refine Nat.le_trans ?_ le_orderBy
    split <;> decide
  | «by» => exact le_orderBy
  | sector =>
    dsimp only [readKeyword]
    split
    · split
      · exact Nat.le_trans (Nat.le_add_left _ _) (le_readComparison _ _ _ _)
      · exact Nat.le_refl 1
    · exact Nat.le_refl 1

/-- **Reading goes forward**: it takes up one token at least. -/
theorem one_le_used (c : Catalog) (t : Token) (ts : List Token) : 1 ≤ (read c t ts).used := by
  unfold read
  dsimp only
  split
  · exact Nat.le_refl 1
  · exact Nat.le_refl 1
  · exact Nat.le_refl 1
  · exact Nat.le_refl 1
  · exact one_le_readKeyword _
  · exact Nat.le_refl 1
  · show 1 ≤ strayComparison ts
    unfold strayComparison
    split
    · split <;> decide
    · decide
  · split <;> exact Nat.le_refl 1
  · exact one_le_readWord

/-! ## From clause to clause -/

theorem drop_takeWhile_length (p : Token → Bool) (ts : List Token) : ts.drop (ts.takeWhile p).length = ts.dropWhile p := by
  have h : ((ts.takeWhile p) ++ ts.dropWhile p).drop (ts.takeWhile p).length = ts.dropWhile p := List.drop_left
  rwa [List.takeWhile_append_dropWhile] at h

/-- Going from clause to clause, reading comes to stand before the tokens `rest`. -/
inductive Reached (c : Catalog) (rest : List Token) : List Token → Prop where
  | here : Reached c rest rest
  | later {t : Token} {ts : List Token} (h : Reached c rest ((t :: ts).drop (read c t ts).used)) :
      Reached c rest (t :: ts)

end Clause
end EquityScreen
