/-
The words of a text that is put together from parts with blanks between them (`splitWords_blank`).
-/
import EquityScreen.Text.Blank

namespace EquityScreen.Text

variable {xs cs : List Char} {c d : Char}

theorem splitWords_cons_blank (hc : isBlank c = true) (cs : List Char) : splitWords (c :: cs) = splitWords cs := by
  rw [splitWords.eq_def]
  dsimp only
  rw [if_pos hc]

/-- A character that a blank follows is a word. -/
theorem splitWords_cons_before (hc : isBlank c = false) (hd : ∀ d ∈ cs.head?, isBlank d = true) :
    splitWords (c :: cs) = [c] :: splitWords cs := by
  rw [splitWords.eq_def]
  dsimp only
  rw [hc, if_neg Bool.false_ne_true]
  cases cs with
  | nil => rfl
  | cons d cs =>
    cases splitWords (d :: cs) with
    | nil => rfl
    | cons w ws => exact if_pos (hd d rfl)

theorem splitWords_cons_within (hc : isBlank c = false) (hd : isBlank d = false) (cs : List Char) :
    ∃ w ws, splitWords (d :: cs) = w :: ws ∧ splitWords (c :: d :: cs) = (c :: w) :: ws := by
  obtain ⟨w, ws, hws⟩ : ∃ w ws, splitWords (d :: cs) = w :: ws := by
    rw [splitWords.eq_def]
    dsimp only
    rw [hd, if_neg Bool.false_ne_true]
    split
    · split <;> exact ⟨_, _, rfl⟩
    · exact ⟨_, _, rfl⟩
  refine ⟨w, ws, hws, ?_⟩
  rw [splitWords.eq_def]
  dsimp only
  rw [hc, if_neg Bool.false_ne_true, hws]
  dsimp only
  rw [hd, if_neg Bool.false_ne_true]

/-- The words before a blank and those after it. -/
theorem splitWords_blank {b : Char} (hb : isBlank b = true) (xs ys : List Char) :
    splitWords (xs ++ b :: ys) = splitWords xs ++ splitWords ys := by
  induction xs with
  | nil => exact splitWords_cons_blank hb ys
  | cons c xs ih =>
    rw [List.cons_append]
    cases hc : isBlank c with
    | true => rw [splitWords_cons_blank hc, splitWords_cons_blank hc, ih]
    | false =>
      cases xs with
      | nil =>
        rw [splitWords_cons_before hc (by simpa using hb), splitWords_cons_before hc (by simp), ih, List.cons_append]
      | cons d xs =>
        cases hd : isBlank d with
        | true =>
          rw [splitWords_cons_before hc (by simpa using hd), splitWords_cons_before hc (by simpa using hd), ih,
            List.cons_append]
        | false =>
          obtain ⟨w, ws, hws, heq⟩ := splitWords_cons_within hc hd xs
          obtain ⟨w', ws', hws', heq'⟩ := splitWords_cons_within hc hd (xs ++ b :: ys)
          rw [List.cons_append, heq', heq]
          rw [List.cons_append, hws', hws] at ih
          obtain ⟨rfl, rfl⟩ := List.cons.inj ih
          rfl

/-- The characters of the words of a text are those that are no blanks. -/
theorem mem_splitWords (hc : c ∈ cs) (hblank : isBlank c = false) : ∃ w ∈ splitWords cs, c ∈ w := by
  induction cs with
  | nil => exact absurd hc List.not_mem_nil
  | cons x cs ih =>
    cases hx : isBlank x with
    | true =>
      rw [splitWords_cons_blank hx]
      rcases List.mem_cons.1 hc with rfl | hc
      · exact absurd hx (by simp [hblank])
      · exact ih hc
    | false =>
      by_cases hnext : ∀ d ∈ cs.head?, isBlank d = true
      · rw [splitWords_cons_before hx hnext]
        rcases List.mem_cons.1 hc with rfl | hc
        · exact ⟨[c], List.mem_cons_self, List.mem_singleton_self c⟩
        · obtain ⟨w, hw, hmem⟩ := ih hc
          exact ⟨w, List.mem_cons_of_mem _ hw, hmem⟩
      · cases cs with
        | nil => exact absurd (fun _ hd => absurd hd (by simp)) hnext
        | cons d cs =>
          have hd : isBlank d = false := by simpa using hnext
          obtain ⟨w, ws, hws, heq⟩ := splitWords_cons_within hx hd cs
          rw [heq]
          rcases List.mem_cons.1 hc with rfl | hc
          · exact ⟨c :: w, List.mem_cons_self, List.mem_cons_self⟩
          · obtain ⟨w', hw', hmem⟩ := ih hc
            rw [hws] at hw'
            rcases List.mem_cons.1 hw' with rfl | hw'
            · exact ⟨x :: w', List.mem_cons_self, List.mem_cons_of_mem _ hmem⟩
            · exact ⟨w', List.mem_cons_of_mem _ hw', hmem⟩

theorem mem_intercalate {sep : List Char} {ws : List (List Char)} {w : List Char} (hw : w ∈ ws) (hc : c ∈ w) :
    c ∈ sep.intercalate ws := by
  induction ws with
  | nil => exact absurd hw List.not_mem_nil
  | cons x ws ih =>
    cases ws with
    | nil =>
      rw [List.mem_singleton.1 hw] at hc
      simpa [List.intercalate] using hc
    | cons y ws =>
      rw [List.intercalate_cons_cons]
      rcases List.mem_cons.1 hw with rfl | hw
      · exact List.mem_append_left _ (List.mem_append_left _ hc)
      · exact List.mem_append_right _ (ih hw)

/-- A word is the only word of its characters. -/
theorem splitWords_word (hne : xs ≠ []) (h : ∀ c ∈ xs, isBlank c = false) : splitWords xs = [xs] := by
  induction xs with
  | nil => exact absurd rfl hne
  | cons x xs ih =>
    rw [List.forall_mem_cons] at h
    cases xs with
    | nil => exact splitWords_cons_before h.1 (by simp)
    | cons y xs =>
      obtain ⟨w, ws, hws, heq⟩ := splitWords_cons_within h.1 (h.2 y List.mem_cons_self) xs
      rw [ih (List.cons_ne_nil _ _) h.2] at hws
      obtain ⟨rfl, rfl⟩ := List.cons.inj hws
      exact heq

theorem splitWords_blanks (h : ∀ c ∈ xs, isBlank c = true) (cs : List Char) : splitWords (xs ++ cs) = splitWords cs := by
  induction xs with
  | nil => rfl
  | cons x xs ih =>
    rw [List.forall_mem_cons] at h
    rw [List.cons_append, splitWords_cons_blank h.1, ih h.2]

end EquityScreen.Text
