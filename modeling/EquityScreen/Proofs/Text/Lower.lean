/-
Lower case of lower case is the same (`lowerFrom_lowerFrom`), and what is no blank leaves something that is
none (`trimChars_lowerFrom_ne_nil`). Both are read off the table: no run of letters leads into a run of
capitals or of blanks (`CaseRun.avoids`).
-/
import EquityScreen.Proofs.Text.Case

namespace EquityScreen.Text

/-! ## The table -/

/-- No code point of the run is sent into the other run: the images lie before it, behind it, or between its
code points. -/
def CaseRun.avoids (r r' : CaseRun) : Bool :=
  Nat.blt (r.last + r.shift).toNat r'.first || Nat.blt r'.last (r.first + r.shift).toNat ||
    ((r.step == 2 || r.first == r.last) && r'.step == 2 && 0 ≤ r.first + r.shift &&
      ((r.first + r.shift).toNat + r'.first) % 2 == 1)

/-- Capitals: A to Z, the dotted I and the sigma, which have rules of their own, and those of the table. -/
def capitalRuns : List CaseRun :=
  ⟨0x41, 0x5a, 1, 0⟩ :: ⟨0x130, 0x130, 1, 0⟩ :: ⟨0x3a3, 0x3a3, 1, 0⟩ :: lowerRuns

/-- Blanks. -/
def blankRuns : List CaseRun := [
  ⟨9, 13, 1, 0⟩, ⟨28, 32, 1, 0⟩, ⟨0x85, 0x85, 1, 0⟩, ⟨0xa0, 0xa0, 1, 0⟩, ⟨0x1680, 0x1680, 1, 0⟩,
  ⟨0x2000, 0x200a, 1, 0⟩, ⟨0x2028, 0x2029, 1, 0⟩, ⟨0x202f, 0x202f, 1, 0⟩, ⟨0x205f, 0x205f, 1, 0⟩,
  ⟨0x3000, 0x3000, 1, 0⟩]

theorem lowerRuns_avoid :
    (lowerRuns.all fun r => capitalRuns.all r.avoids && blankRuns.all r.avoids) = true := by
  decide +kernel

/-- A code point of the run. -/
def CaseRun.Holds (r : CaseRun) (n : Nat) : Prop := r.first ≤ n ∧ n ≤ r.last ∧ (n - r.first) % r.step = 0

theorem CaseRun.image?_eq_some_iff {r : CaseRun} {n m : Nat} :
    r.image? n = some m ↔ r.Holds n ∧ (n + r.shift).toNat = m := by
  unfold image? Holds
  simp only [Bool.and_eq_true, decide_eq_true_eq, beq_iff_eq, Option.ite_none_right_eq_some, Option.some.injEq, and_assoc]

theorem CaseRun.not_holds_of_avoids {r r' : CaseRun} (h : r.avoids r' = true) {n : Nat} (hn : r.Holds n) :
    ¬ r'.Holds (n + r.shift).toNat := by
  rintro ⟨hfirst', hlast', hstep'⟩
  obtain ⟨hfirst, hlast, hstep⟩ := hn
  simp only [avoids, Nat.blt_eq, Bool.or_eq_true, Bool.and_eq_true, decide_eq_true_eq, beq_iff_eq] at h
  rcases h with (h | h) | ⟨⟨⟨htwo | hone, htwo'⟩, hpos⟩, hodd⟩
  · omega
  · omega
  · rw [htwo] at hstep
    rw [htwo'] at hstep'
    omega
  · rw [htwo'] at hstep'
    omega

/-- **What the table gives** is held by no run of capitals or of blanks. -/
theorem not_holds_image {r : CaseRun} (hr : r ∈ lowerRuns) {n m : Nat} (hm : r.image? n = some m) {r' : CaseRun}
    (hr' : r' ∈ capitalRuns ∨ r' ∈ blankRuns) : ¬ r'.Holds m := by
  obtain ⟨hn, rfl⟩ := CaseRun.image?_eq_some_iff.1 hm
  have hall := List.all_eq_true.1 lowerRuns_avoid r hr
  rw [Bool.and_eq_true] at hall
  exact CaseRun.not_holds_of_avoids (hr'.elim (List.all_eq_true.1 hall.1 r') (List.all_eq_true.1 hall.2 r')) hn

theorem isBlank_iff (c : Char) : isBlank c = true ↔ ∃ r ∈ blankRuns, r.Holds c.toNat := by
  simp only [isBlank, blankRuns, CaseRun.Holds, Bool.or_eq_true, Bool.and_eq_true, decide_eq_true_eq, beq_iff_eq,
    List.mem_cons, List.not_mem_nil, or_false, exists_eq_or_imp, exists_eq_left, Nat.mod_one, and_true]
  omega

/-! ## Lower case twice -/

/-- The character is left alone by lower case, wherever it stands. -/
def Settled (c : Char) : Prop := c ≠ '\u03a3' ∧ lowerAlone c = [c]

theorem settled_of_isSmall {c : Char} (h : isSmall c = true) : Settled c :=
  ⟨by rintro rfl; exact absurd h (by decide), lowerChar_small h⟩

/-- A character that no run of capitals holds is settled. -/
theorem settled_of_not_holds {c : Char} (h : ∀ r ∈ capitalRuns, ¬ r.Holds c.toNat) : Settled c := by
  simp only [capitalRuns, List.forall_mem_cons] at h
  obtain ⟨hlatin, hdotted, hsigma, htable⟩ := h
  have hsigma : c ≠ '\u03a3' := by
    rintro rfl
    exact hsigma ⟨by decide, by decide, by decide⟩
  have hdotted : c ≠ '\u0130' := by
    rintro rfl
    exact hdotted ⟨by decide, by decide, by decide⟩
  have hshift : shiftBy lowerRuns c.toNat = c.toNat := by
    have hnone : lowerRuns.findSome? (·.image? c.toNat) = none := by
      refine List.findSome?_eq_none_iff.2 fun r hr => Option.eq_none_iff_forall_ne_some.2 fun m hm => ?_
      exact htable r hr (CaseRun.image?_eq_some_iff.1 hm).1
    rw [shiftBy, hnone]
    rfl
  refine ⟨hsigma, ?_⟩
  rw [lowerAlone, lowerChar]
  split
  · have hno : ¬ ('A' ≤ c ∧ c ≤ 'Z') := fun h =>
      hlatin ⟨show 65 ≤ c.toNat from h.1, show c.toNat ≤ 90 from h.2, Nat.mod_one _⟩
    rw [if_neg (by simpa using hno)]
  · rw [if_neg (by simpa using hsigma), if_neg (by simpa using hdotted), hshift, Char.ofNat_toNat]

theorem shiftBy_cases (runs : List CaseRun) (n : Nat) :
    (∃ r ∈ runs, r.image? n = some (shiftBy runs n)) ∨ shiftBy runs n = n ∧ ∀ r ∈ runs, ¬ r.Holds n := by
  unfold shiftBy
  cases hfound : runs.findSome? (·.image? n) with
  | some m => exact .inl (List.exists_of_findSome?_eq_some hfound)
  | none =>
    refine .inr ⟨rfl, fun r hr hholds => ?_⟩
    have himage := CaseRun.image?_eq_some_iff.2 ⟨hholds, rfl⟩
    rw [List.findSome?_eq_none_iff.1 hfound r hr] at himage
    exact absurd himage nofun

/-- **What lower case makes of a character** is settled, and a blank only if the character was one. -/
theorem lowerChar_cases {before after : List Char} {c d : Char} (hd : d ∈ lowerChar before c after) :
    Settled d ∧ (isBlank d = true → isBlank c = true) := by
  by_cases hsigma : c = '\u03a3'
  · obtain ⟨e, he, hsmall⟩ := lowerChar_sigma before after
    rw [hsigma, he, List.mem_singleton] at hd
    subst hd
    exact ⟨⟨by rintro rfl; exact absurd hsmall (by decide), lowerChar_isSigma hsmall⟩,
      fun hblank => absurd hblank (by simp [isBlank_isSigma hsmall])⟩
  rw [lowerChar_eq hsigma] at hd
  by_cases hascii : c.toNat < 128
  · have hall : ∀ n < 128, (lowerAlone (Char.ofNat n)).all
        (fun d => isSmall d && (!isBlank d || isBlank (Char.ofNat n))) = true := by decide +kernel
    have h := List.all_eq_true.1 (hall c.toNat hascii)
    rw [Char.ofNat_toNat] at h
    have h := h d hd
    simp only [Bool.and_eq_true, Bool.or_eq_true, Bool.not_eq_true'] at h
    exact ⟨settled_of_isSmall h.1, fun hblank => h.2.resolve_left (by simp [hblank])⟩
  by_cases hdotted : c = '\u0130'
  · have hletters : ∀ d ∈ lowerAlone '\u0130', Settled d ∧ isBlank d = false := by
      have hlower : lowerAlone '\u0130' = ['i', '\u0307'] := by decide
      rw [hlower]
      exact List.forall_mem_cons.2 ⟨⟨⟨by decide, by decide⟩, by decide⟩,
        List.forall_mem_singleton.2 ⟨⟨by decide, by decide +kernel⟩, by decide⟩⟩
    rw [hdotted] at hd
    exact ⟨(hletters d hd).1, fun hblank => absurd hblank (by simp [(hletters d hd).2])⟩
  rw [lowerAlone, lowerChar, if_neg hascii, if_neg (by simpa using hsigma), if_neg (by simpa using hdotted),
    List.mem_singleton] at hd
  rcases shiftBy_cases lowerRuns c.toNat with ⟨r, hr, himage⟩ | ⟨hsame, hno⟩
  · generalize shiftBy lowerRuns c.toNat = m at hd himage
    by_cases hvalid : m.isValidChar
    · have hm : d.toNat = m := by rw [hd, Char.ofNat, dif_pos hvalid]; rfl
      refine ⟨settled_of_not_holds fun r' hr' => hm ▸ not_holds_image hr himage (.inl hr'), fun hblank => ?_⟩
      obtain ⟨r', hr', hholds⟩ := (isBlank_iff d).1 hblank
      exact absurd (hm ▸ hholds) (not_holds_image hr himage (.inr hr'))
    · have hnull : d = '\x00' := by rw [hd, Char.ofNat, dif_neg hvalid]; rfl
      rw [hnull]
      exact ⟨settled_of_isSmall (by decide), fun hblank => absurd hblank (by decide)⟩
  · rw [hsame, Char.ofNat_toNat] at hd
    subst hd
    refine ⟨settled_of_not_holds (List.forall_mem_cons.2 ⟨fun h => ?_, List.forall_mem_cons.2 ⟨fun h => ?_,
      List.forall_mem_cons.2 ⟨fun h => ?_, hno⟩⟩⟩), id⟩
    · exact hascii (Nat.lt_of_le_of_lt h.2.1 (by decide))
    · exact hdotted (Char.toNat_inj.1 (Nat.le_antisymm h.2.1 h.1))
    · exact hsigma (Char.toNat_inj.1 (Nat.le_antisymm h.2.1 h.1))

theorem mem_lowerFrom {before cs : List Char} {d : Char} (hd : d ∈ lowerFrom before cs) :
    ∃ b c a, c ∈ cs ∧ d ∈ lowerChar b c a := by
  induction cs generalizing before with
  | nil => exact absurd hd List.not_mem_nil
  | cons c cs ih =>
    rcases List.mem_append.1 (show d ∈ lowerChar before c cs ++ lowerFrom (c :: before) cs from hd) with hd | hd
    · exact ⟨_, c, _, List.mem_cons_self, hd⟩
    · obtain ⟨b, e, a, he, hd⟩ := ih hd
      exact ⟨b, e, a, List.mem_cons_of_mem _ he, hd⟩

theorem settled_of_mem_lowerFrom {before cs : List Char} {d : Char} (hd : d ∈ lowerFrom before cs) : Settled d := by
  obtain ⟨_, _, _, -, hd⟩ := mem_lowerFrom hd
  exact (lowerChar_cases hd).1

/-- Settled characters are left as they are. -/
theorem lowerFrom_settled {before cs : List Char} (h : ∀ c ∈ cs, Settled c) : lowerFrom before cs = cs := by
  rw [lowerFrom_eq_flatMap fun hmem => (h _ hmem).1 rfl]
  induction cs with
  | nil => rfl
  | cons c cs ih =>
    rw [List.forall_mem_cons] at h
    rw [List.flatMap_cons, h.1.2, ih h.2]
    rfl

/-- **Lower case of lower case** is the same, and so it is of any part of it. -/
theorem lowerFrom_lowerFrom {before before' cs ds : List Char} (h : ds ⊆ lowerFrom before cs) :
    lowerFrom before' ds = ds :=
  lowerFrom_settled fun _ hd => settled_of_mem_lowerFrom (h hd)

/-! ## Blanks -/

/-- What is no blank leaves a character that is none. -/
theorem exists_visible_lowerChar (before after : List Char) {c : Char} (hc : isBlank c = false) :
    ∃ d ∈ lowerChar before c after, isBlank d = false := by
  have hne : lowerChar before c after ≠ [] := by
    unfold lowerChar
    split
    · exact List.cons_ne_nil _ _
    · split
      · exact List.cons_ne_nil _ _
      · split <;> exact List.cons_ne_nil _ _
  obtain ⟨d, ds, hds⟩ := List.exists_cons_of_ne_nil hne
  have hd : d ∈ lowerChar before c after := hds ▸ List.mem_cons_self
  exact ⟨d, hd, Bool.eq_false_iff.2 fun hblank => Bool.eq_false_iff.1 hc ((lowerChar_cases hd).2 hblank)⟩

/-- **A text that is not blank** has something left in lower case when its ends are trimmed. -/
theorem trimChars_lowerFrom_ne_nil {before cs : List Char} (h : ∃ c ∈ cs, isBlank c = false) :
    trimChars (lowerFrom before cs) ≠ [] := by
  obtain ⟨c, hc, hvisible⟩ := h
  obtain ⟨front, rest, rfl⟩ := List.append_of_mem hc
  obtain ⟨zs, hzs⟩ := lowerFrom_append before front (c :: rest)
  obtain ⟨d, hd, hdvisible⟩ := exists_visible_lowerChar (front.reverse ++ before) rest hvisible
  rw [hzs]
  exact List.ne_nil_of_mem (mem_trimChars (List.mem_append_right _ (List.mem_append_left _ hd)) hdvisible)

theorem trimChars_subset (cs : List Char) : trimChars cs ⊆ cs := fun _ hc =>
  (List.dropWhile_suffix isBlank).subset (List.mem_reverse.1
    ((List.dropWhile_suffix isBlank).subset (List.mem_reverse.1 hc)))

/-- Trimming drops nothing that a test lets through, when it lets no blank through. -/
theorem filter_trimChars {p : Char → Bool} (hp : ∀ c, isBlank c = true → p c = false) (cs : List Char) :
    (trimChars cs).filter p = cs.filter p := by
  have hdrop : ∀ l : List Char, (l.dropWhile isBlank).filter p = l.filter p := by
    intro l
    induction l with
    | nil => rfl
    | cons c l ih =>
      rw [List.dropWhile_cons]
      split
      · next hc => rw [ih, List.filter_cons_of_neg (by simp [hp c hc])]
      · rfl
  rw [trimChars, List.filter_reverse, hdrop, List.filter_reverse, List.reverse_reverse, hdrop]

end EquityScreen.Text
