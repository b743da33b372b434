/-
The nearest whole number to a quotient, a half going to the even neighbour.

* `roundDiv_cases`: it is the floor or the next number, whichever is not farther.
* `roundDiv_of_dvd`: an exact quotient is its own rounding.
-/
namespace EquityScreen

/-- The nearest whole number to `a / d`; a tie goes to the even one. -/
def roundDiv (a d : Nat) : Nat :=
  let q := a / d
  let r := a % d
  if 2 * r < d then q
  else if d < 2 * r then q + 1
  else if q % 2 = 0 then q else q + 1

theorem roundDiv_cases (a d : Nat) :
    (roundDiv a d = a / d ∧ 2 * (a % d) ≤ d) ∨ (roundDiv a d = a / d + 1 ∧ d ≤ 2 * (a % d)) := by
  unfold roundDiv
  dsimp only
  split
  · exact .inl ⟨rfl, by omega⟩
  · split
    · exact .inr ⟨rfl, by omega⟩
    · split
      · exact .inl ⟨rfl, by omega⟩
      · exact .inr ⟨rfl, by omega⟩

theorem roundDiv_of_dvd {a d : Nat} (hd : 0 < d) (h : d ∣ a) : roundDiv a d = a / d := by
  have hr : a % d = 0 := Nat.mod_eq_zero_of_dvd h
  unfold roundDiv
  simp [hr, hd]

theorem roundDiv_le {a d m : Nat} (hd : 0 < d) (h : a ≤ m * d) : roundDiv a d ≤ m := by
  have hq : a / d ≤ m := Nat.div_le_of_le_mul (by rw [Nat.mul_comm]; exact h)
  rcases roundDiv_cases a d with ⟨he, _⟩ | ⟨he, hr⟩ <;> rw [he]
  · exact hq
  · rcases Nat.lt_or_ge (a / d) m with hlt | hge
    · exact hlt
    · have heq : a / d = m := by omega
      have hdm := Nat.div_add_mod a d
      rw [heq, Nat.mul_comm] at hdm
      omega

end EquityScreen
