/-
What a piece is cut from: a part of the text that is not empty (`piece?_slice`), so cutting comes to the end.

A comma lies in a piece in three ways only: it is the whole piece, or a digit of the same numeral stands behind
it, or the piece is quoted text, which ends with its quote (`Slice`). So no other piece reaches past a comma with
a blank behind it.
-/
import EquityScreen.Token.Scan

namespace EquityScreen
namespace Scan

open Text

variable {c : Char} {cs rest : List Char}

/-! ## Parts without a loose comma -/

/-- A digit stands behind every comma. -/
def Tight (xs : List Char) : Prop := ∀ ys zs, xs = ys ++ ',' :: zs → ∃ d zs', zs = d :: zs' ∧ isDigit d = true

theorem tight_nil : Tight [] := fun ys zs h => absurd h (by simp)

theorem tight_of_not_mem {xs : List Char} (h : ',' ∉ xs) : Tight xs := fun ys zs heq => by
  rw [heq] at h
  exact absurd (List.mem_append_right ys List.mem_cons_self) h

theorem Tight.append {xs ys : List Char} (hxs : Tight xs) (hys : Tight ys) : Tight (xs ++ ys) := by
  intro us vs h
  rcases List.append_eq_append_iff.1 h with ⟨ws, rfl, hws⟩ | ⟨ws, rfl, hws⟩
  · exact hys ws vs hws
  · cases ws with
    | nil => exact hys [] vs hws.symm
    | cons w ws =>
      rw [List.cons_append, List.cons.injEq] at hws
      obtain ⟨rfl, rfl⟩ := hws
      obtain ⟨d, ws', rfl, hd⟩ := hxs us ws rfl
      exact ⟨d, ws' ++ ys, rfl, hd⟩

/-- The second text is what a part without a loose comma leaves of the first. -/
def Leaves (cs rest : List Char) : Prop := ∃ xs, cs = xs ++ rest ∧ Tight xs

theorem Leaves.refl (cs : List Char) : Leaves cs cs := ⟨[], rfl, tight_nil⟩

theorem Leaves.trans {cs' : List Char} (h : Leaves cs cs') (h' : Leaves cs' rest) : Leaves cs rest := by
  obtain ⟨xs, rfl, hxs⟩ := h
  obtain ⟨ys, rfl, hys⟩ := h'
  exact ⟨xs ++ ys, (List.append_assoc _ _ _).symm, hxs.append hys⟩

theorem Leaves.char (hc : c ≠ ',') (cs : List Char) : Leaves (c :: cs) cs :=
  ⟨[c], rfl, tight_of_not_mem (by simpa using hc.symm)⟩

theorem Leaves.cons (h : Leaves cs rest) (hc : c ≠ ',') : Leaves (c :: cs) rest := (Leaves.char hc cs).trans h

/-- A comma and what begins with a digit. -/
theorem Leaves.comma {d : Char} (hd : isDigit d = true) (h : Leaves cs rest) : Leaves (',' :: d :: cs) rest := by
  have hne : d ≠ ',' := by
    rintro rfl
    exact absurd hd (by decide)
  obtain ⟨xs, rfl, hxs⟩ := h
  refine ⟨',' :: d :: xs, rfl, fun ys zs heq => ?_⟩
  cases ys with
  | nil => exact ⟨d, xs, (List.cons.inj heq).2.symm, hd⟩
  | cons y ys =>
    obtain ⟨-, heq⟩ := List.cons.inj heq
    cases ys with
    | nil => exact absurd (List.cons.inj heq).1 hne
    | cons y ys => exact hxs ys zs (List.cons.inj heq).2

theorem leaves_dropWhile {p : Char → Bool} (hp : p ',' = false) (cs : List Char) : Leaves cs (cs.dropWhile p) :=
  ⟨cs.takeWhile p, List.takeWhile_append_dropWhile.symm, tight_of_not_mem fun h => by
    rw [List.all_eq_true.1 List.all_takeWhile _ h] at hp
    exact absurd hp (by decide)⟩

theorem leaves_readWord? {word : List Char} (hword : ',' ∉ word) (h : readWord? word cs = some rest) :
    Leaves cs rest := by
  induction word generalizing cs with
  | nil =>
    rw [← Option.some.inj h]
    exact .refl cs
  | cons w word ih =>
    cases cs with
    | nil => exact absurd h (by simp [readWord?])
    | cons c cs =>
      simp only [readWord?] at h
      split at h
      · next hc =>
        refine (ih (fun hmem => hword (List.mem_cons_of_mem _ hmem)) h).cons ?_
        rintro rfl
        exact hword (by rw [← beq_iff_eq.1 hc]; exact List.mem_cons_self)
      · exact absurd h (by simp)

/-! ## Numbers -/

theorem ne_comma_of_isDigit (hc : isDigit c = true) : c ≠ ',' := by
  rintro rfl
  exact absurd hc (by decide)

theorem ne_comma_of_isBlank (hc : isBlank c = true) : c ≠ ',' := by
  rintro rfl
  exact absurd hc (by decide)

theorem dropDigits?_leaves {n : Nat} (h : Numeral.dropDigits? n cs = some rest) :
    Leaves cs rest ∧ rest.length + n = cs.length := by
  induction n generalizing cs with
  | zero =>
    rw [← Option.some.inj h]
    exact ⟨.refl cs, rfl⟩
  | succ n ih =>
    cases cs with
    | nil => exact absurd h (by simp [Numeral.dropDigits?])
    | cons c cs =>
      rw [Numeral.dropDigits?] at h
      split at h
      · next hc =>
        obtain ⟨hleaves, hlength⟩ := ih h
        exact ⟨hleaves.cons (ne_comma_of_isDigit hc), by rw [List.length_cons, ← hlength, Nat.add_assoc]⟩
      · exact absurd h (by simp)

theorem afterDigits_leaves {found : List (List Char)} (h : rest ∈ Numeral.afterDigits cs found) :
    rest ∈ found ∨ Leaves cs rest ∧ rest.length < cs.length := by
  induction cs generalizing found with
  | nil => exact .inl h
  | cons c cs ih =>
    rw [Numeral.afterDigits] at h
    split at h
    · next hc =>
      rcases ih h with hmem | ⟨hleaves, hlength⟩
      · rcases List.mem_cons.1 hmem with rfl | hmem
        · exact .inr ⟨.char (ne_comma_of_isDigit hc) rest, Nat.lt_succ_self _⟩
        · exact .inl hmem
      · exact .inr ⟨hleaves.cons (ne_comma_of_isDigit hc), Nat.lt_succ_of_lt hlength⟩
    · exact .inl h

theorem afterGroups_leaves {fuel : Nat} (h : rest ∈ Numeral.afterGroups fuel cs) :
    Leaves cs rest ∧ rest.length ≤ cs.length := by
  induction fuel generalizing cs with
  | zero => exact absurd h (by simp [Numeral.afterGroups])
  | succ fuel ih =>
    unfold Numeral.afterGroups at h
    split at h
    · exact absurd h (by simp)
    · next fuel' cs heq =>
      cases heq
      obtain ⟨n, hn, h⟩ := List.mem_flatMap.1 h
      split at h
      · next rest' hdrop =>
        have hpos : 0 < n := by
          have hall : ∀ n ∈ [3, 2], 0 < n := by decide
          exact hall n hn
        have hgroup : Leaves (',' :: cs) rest' := by
          cases cs with
          | nil =>
            have hlength := (dropDigits?_leaves hdrop).2
            simp only [List.length_nil] at hlength
            omega
          | cons d cs =>
            obtain ⟨m, rfl⟩ := Nat.exists_eq_add_of_lt hpos
            rw [Nat.zero_add, Numeral.dropDigits?] at hdrop
            split at hdrop
            · next hd => exact .comma hd (dropDigits?_leaves hdrop).1
            · exact absurd hdrop (by simp)
        have hlength := (dropDigits?_leaves hdrop).2
        rcases List.mem_append.1 h with h | h
        · obtain ⟨hleaves, hle⟩ := ih h
          exact ⟨hgroup.trans hleaves, by rw [List.length_cons]; omega⟩
        · rw [List.mem_singleton.1 h]
          exact ⟨hgroup, by rw [List.length_cons]; omega⟩
      · exact absurd h (by simp)
    · exact absurd h (by simp)

theorem afterWhole_leaves (h : rest ∈ Numeral.afterWhole cs) : Leaves cs rest ∧ rest.length < cs.length := by
  rcases List.mem_append.1 h with h | h
  · obtain ⟨rest', hmem, h⟩ := List.mem_flatMap.1 h
    obtain ⟨n, hn, hdrop⟩ := List.mem_filterMap.1 hmem
    obtain ⟨hgroups, hle⟩ := afterGroups_leaves h
    obtain ⟨hdigits, hlength⟩ := dropDigits?_leaves hdrop
    have hpos : 0 < n := by
      have hall : ∀ n ∈ [3, 2, 1], 0 < n := by decide
      exact hall n hn
    exact ⟨hdigits.trans hgroups, by omega⟩
  · exact (afterDigits_leaves h).resolve_left List.not_mem_nil

theorem afterFraction_leaves (h : rest ∈ Numeral.afterFraction cs) : Leaves cs rest ∧ rest.length ≤ cs.length := by
  unfold Numeral.afterFraction at h
  split at h
  · next ds =>
    rcases afterDigits_leaves h with hmem | ⟨hleaves, hlength⟩
    · rw [List.mem_singleton.1 hmem]
      exact ⟨.refl _, Nat.le_refl _⟩
    · exact ⟨hleaves.cons (by decide), Nat.le_succ_of_le (Nat.le_of_lt hlength)⟩
  · rw [List.mem_singleton.1 h]
    exact ⟨.refl _, Nat.le_refl _⟩

theorem dropSign_leaves (cs : List Char) : Leaves cs (Numeral.dropSign cs) ∧ (Numeral.dropSign cs).length ≤ cs.length := by
  unfold Numeral.dropSign
  split
  · exact ⟨.char (by decide) _, Nat.le_succ _⟩
  · exact ⟨.char (by decide) _, Nat.le_succ _⟩
  · exact ⟨.refl _, Nat.le_refl _⟩

theorem afterNumeral_leaves (h : rest ∈ Numeral.afterNumeral cs) : Leaves cs rest ∧ rest.length < cs.length := by
  obtain ⟨hsign, hle⟩ := dropSign_leaves cs
  rcases List.mem_append.1 h with h | h
  · obtain ⟨rest', hmem, h⟩ := List.mem_flatMap.1 h
    obtain ⟨hwhole, hlt⟩ := afterWhole_leaves hmem
    obtain ⟨hfraction, hle'⟩ := afterFraction_leaves h
    exact ⟨hsign.trans (hwhole.trans hfraction), by omega⟩
  · split at h
    · next ds hunsigned =>
      rw [hunsigned] at hsign hle
      rw [List.length_cons] at hle
      obtain ⟨hleaves, hlt⟩ := (afterDigits_leaves h).resolve_left List.not_mem_nil
      exact ⟨hsign.trans (hleaves.cons (by decide)), by omega⟩
    · exact absurd h List.not_mem_nil

theorem afterBlank_leaves (h : rest ∈ Numeral.afterBlank cs) : Leaves cs rest := by
  unfold Numeral.afterBlank at h
  split at h
  · next c cs =>
    split at h
    · next hc =>
      rcases List.mem_cons.1 h with rfl | h
      · exact .char (ne_comma_of_isBlank hc) rest
      · rw [List.mem_singleton.1 h]
        exact .refl _
    · rw [List.mem_singleton.1 h]
      exact .refl _
  · rw [List.mem_singleton.1 h]
    exact .refl _

theorem afterCurrency_leaves (h : rest ∈ Numeral.afterCurrency cs) : Leaves cs rest := by
  unfold Numeral.afterCurrency at h
  rcases List.mem_append.1 h with h | h
  · rcases List.mem_append.1 h with h | h
    · split at h
      · next c cs =>
        split at h
        · next hc =>
          rw [List.mem_singleton.1 h]
          refine .char ?_ _
          rintro rfl
          exact absurd hc (by decide)
        · exact absurd h List.not_mem_nil
      · exact absurd h List.not_mem_nil
    · split at h
      · next rest' hread =>
        have hrupees : Leaves cs ('.' :: rest') := leaves_readWord? (by decide) hread
        rcases List.mem_append.1 h with h | h
        · exact hrupees.trans ((afterBlank_leaves h).cons (by decide))
        · rw [List.mem_singleton.1 h]
          exact hrupees
      · next rest' _ hread => exact (leaves_readWord? (by decide) hread).trans (afterBlank_leaves h)
      · exact absurd h List.not_mem_nil
  · split at h
    · next rest' hread => exact (leaves_readWord? (by decide) hread).trans (afterBlank_leaves h)
    · exact absurd h List.not_mem_nil

theorem readSuffix?_leaves {word : String} {found : List Char × List Char} (hword : ',' ∉ word.toList)
    (h : Numeral.readSuffix? cs word = some found) : Leaves cs found.2 := by
  unfold Numeral.readSuffix? at h
  split at h
  · next rest hread =>
    split at h
    · rw [← Option.some.inj h]
      exact leaves_readWord? hword hread
    · exact absurd h (by simp)
  · exact absurd h (by simp)

theorem afterSuffix_leaves {found : Option Numeral.Suffix × List Char} (h : found ∈ Numeral.afterSuffix cs) :
    Leaves cs found.2 := by
  rcases List.mem_append.1 h with h | h
  · obtain ⟨⟨mark, rest⟩, hmem, rfl⟩ := List.mem_map.1 h
    dsimp only
    rcases List.mem_append.1 hmem with hmem | hmem
    · rcases List.mem_append.1 hmem with hmem | hmem
      · have hblanks : Leaves cs (cs.dropWhile isBlank) := leaves_dropWhile (by decide) cs
        refine hblanks.trans ?_
        unfold Numeral.afterPercent at hmem
        dsimp only at hmem
        generalize cs.dropWhile isBlank = cs' at hmem
        rcases List.mem_append.1 hmem with hmem | hmem
        · split at hmem
          · rw [(Prod.mk.inj (List.mem_singleton.1 hmem)).2]
            exact .char (by decide) _
          · exact absurd hmem List.not_mem_nil
        · obtain ⟨p, hp, heq⟩ := List.mem_map.1 hmem
          obtain ⟨word, hword, hread⟩ := List.mem_filterMap.1 hp
          have hall : ∀ word ∈ ["percent", "pct"], ',' ∉ word.toList := by decide
          rw [← (Prod.mk.inj heq).2]
          exact readSuffix?_leaves (hall word hword) hread
      · unfold Numeral.afterLetter at hmem
        split at hmem
        · exact absurd hmem List.not_mem_nil
        · next c cs =>
          split at hmem
          · next hc =>
            rw [(Prod.mk.inj (List.mem_singleton.1 hmem)).2]
            refine .char ?_ _
            rintro rfl
            exact absurd (Bool.and_eq_true_iff.1 hc).1 (by decide)
          · exact absurd hmem List.not_mem_nil
    · obtain ⟨cs', hcs', hmem⟩ := List.mem_flatMap.1 hmem
      obtain ⟨p, hp, heq⟩ := List.mem_map.1 hmem
      obtain ⟨word, hword, hread⟩ := List.mem_filterMap.1 hp
      have hall : ∀ word ∈ Magnitude.words.map (·.1), ',' ∉ word.toList := by decide
      rw [← (Prod.mk.inj heq).2]
      exact (afterBlank_leaves hcs').trans (readSuffix?_leaves (hall word hword) hread)
  · rw [List.mem_singleton.1 h]
    exact .refl cs

theorem Leaves.length_le (h : Leaves cs rest) : rest.length ≤ cs.length := by
  obtain ⟨xs, rfl, -⟩ := h
  simp

/-- The mark of a number stands behind its numeral. -/
theorem find?_parts {f : Numeral.Found} (h : Numeral.find? cs = some f) : ∃ afterwards, Leaves cs afterwards ∧
    afterwards.length < cs.length ∧ (f.suffix, f.rest) ∈ Numeral.afterSuffix afterwards := by
  obtain ⟨_, ⟨currency, start⟩, _, hstarts, hfound, -⟩ := List.findSome?_eq_some_iff.1 h
  obtain ⟨_, afterwards, _, hafterwards, hfound, -⟩ := List.findSome?_eq_some_iff.1 hfound
  obtain ⟨⟨mark, rest⟩, hmark, rfl⟩ := Option.map_eq_some_iff.1 hfound
  have hstart : Leaves cs start := by
    have hmem : (currency, start) ∈ (Numeral.afterCurrency cs).map (true, ·) ++ [(false, cs)] :=
      hstarts ▸ List.mem_append_right _ List.mem_cons_self
    rcases List.mem_append.1 hmem with hmem | hmem
    · obtain ⟨start', hcurrency, heq⟩ := List.mem_map.1 hmem
      obtain ⟨-, rfl⟩ := Prod.mk.inj heq
      exact afterCurrency_leaves hcurrency
    · obtain ⟨-, rfl⟩ := Prod.mk.inj (List.mem_singleton.1 hmem)
      exact .refl _
  have hnumeral := afterNumeral_leaves (hafterwards ▸ List.mem_append_right _ List.mem_cons_self)
  exact ⟨afterwards, hstart.trans hnumeral.1, Nat.lt_of_lt_of_le hnumeral.2 hstart.length_le,
    List.mem_of_find?_eq_some hmark⟩

/-- **A number** takes up something. -/
theorem find?_leaves {f : Numeral.Found} (h : Numeral.find? cs = some f) :
    Leaves cs f.rest ∧ f.rest.length < cs.length := by
  obtain ⟨afterwards, hleaves, hlt, hmark⟩ := find?_parts h
  have hsuffix := afterSuffix_leaves hmark
  exact ⟨hleaves.trans hsuffix, Nat.lt_of_le_of_lt hsuffix.length_le hlt⟩

/-! ## Pieces -/

/-- What a piece is cut from. -/
inductive Slice : List Char → Prop
  | quoted {xs : List Char} {close : Char} (h : close ∈ ['\x22', '”', '\x27']) : Slice (xs ++ [close])
  | comma : Slice [',']
  | tight {xs : List Char} (hne : xs ≠ []) (h : Tight xs) : Slice xs

theorem Slice.ne_nil {xs : List Char} (h : Slice xs) : xs ≠ [] := by
  cases h with
  | quoted => simp
  | comma => simp
  | tight hne => exact hne

/-- Whatever piece is found is cut from the front of the text. -/
def CutFrom (cs : List Char) (o : Outcome) : Prop :=
  ∀ content rest, o = some (.ok ⟨content, rest⟩) → ∃ xs, cs = xs ++ rest ∧ Slice xs

theorem cutFrom_none : CutFrom cs none := fun _ _ h => absurd h (by simp)

theorem CutFrom.orElse {a b : Outcome} (ha : CutFrom cs a) (hb : CutFrom cs b) : CutFrom cs (a <|> b) := by
  intro content rest h
  cases a with
  | none => exact hb content rest h
  | some r => exact ha content rest h

/-- A piece that leaves less than there was, with no loose comma in what it takes. -/
theorem cutFrom_of_leaves {content : Option Content} (h : Leaves cs rest) (hlt : rest.length < cs.length) :
    CutFrom cs (some (.ok ⟨content, rest⟩)) := by
  intro content' rest' heq
  obtain ⟨-, rfl⟩ := Piece.mk.inj (Except.ok.inj (Option.some.inj heq))
  obtain ⟨xs, rfl, hxs⟩ := h
  refine ⟨xs, rfl, .tight ?_ hxs⟩
  rintro rfl
  exact absurd hlt (by simp)

theorem cutFrom_blanks : CutFrom cs (blanks? cs) := by
  unfold blanks?
  split
  · next c cs =>
    split
    · next hc =>
      exact cutFrom_of_leaves ((leaves_dropWhile (by decide) cs).cons (ne_comma_of_isBlank hc))
        (Nat.lt_succ_of_le (List.dropWhile_suffix _).length_le)
    · exact cutFrom_none
  · exact cutFrom_none

theorem upTo?_some {close : Char} {inner : List Char} (h : upTo? close cs = some (inner, rest)) :
    cs = inner ++ close :: rest ∧ close ∉ inner := by
  unfold upTo? at h
  split at h
  · next c rest' hdrop =>
    obtain ⟨rfl, rfl⟩ := Prod.mk.inj (Option.some.inj h)
    have hclose : c = close := by
      have hhead : cs.dropWhile (· != close) ≠ [] := by rw [hdrop]; exact List.cons_ne_nil _ _
      have hnot := List.head_dropWhile_not (· != close) hhead
      simpa [hdrop] using hnot
    refine ⟨?_, fun hmem => absurd (List.all_eq_true.1 List.all_takeWhile _ hmem) (by simp)⟩
    conv => lhs; rw [← List.takeWhile_append_dropWhile (p := (· != close)) (l := cs), hdrop, hclose]
  · exact absurd h (by simp)

/-- Text up to a closing quote, behind the opening one. -/
theorem cutFrom_phrase {close opening : Char} {inner : List Char} (hclose : close ∈ ['\x22', '”', '\x27'])
    (h : upTo? close cs = some (inner, rest)) : CutFrom (opening :: cs) (some (phrasePiece inner rest)) := by
  intro content rest' heq
  obtain ⟨-, rfl⟩ := Piece.mk.inj (Except.ok.inj (Option.some.inj heq))
  refine ⟨opening :: inner ++ [close], ?_, .quoted hclose⟩
  rw [(upTo?_some h).1]
  simp

theorem cutFrom_quoted {before : Option Char} : CutFrom cs (quoted? before cs) := by
  unfold quoted?
  split
  · next cs =>
    cases h : upTo? '\x22' cs with
    | none => exact cutFrom_none
    | some p => exact cutFrom_phrase (by simp) h
  · next cs =>
    cases h : upTo? '”' cs with
    | none => exact cutFrom_none
    | some p => exact cutFrom_phrase (by simp) h
  · next cs =>
    split
    · exact cutFrom_none
    · split
      · next inner rest h =>
        split
        · exact cutFrom_none
        · exact cutFrom_phrase (by simp) h
      · exact cutFrom_none
  · exact cutFrom_none

theorem cutFrom_number : CutFrom cs (number? cs) := by
  unfold number?
  cases h : Numeral.find? cs with
  | none => exact cutFrom_none
  | some f =>
    obtain ⟨hleaves, hlt⟩ := find?_leaves h
    rw [Option.map_some, numberPiece]
    split
    · exact cutFrom_of_leaves hleaves hlt
    · split
      · exact cutFrom_of_leaves hleaves hlt
      · exact fun _ _ heq => absurd heq (by simp)

theorem cutFrom_sign : CutFrom cs (sign? cs) := by
  intro content rest h
  obtain ⟨_, ⟨s, op⟩, _, hsigns, hfound, -⟩ := List.findSome?_eq_some_iff.1 h
  have hall : ∀ p ∈ Operator.signs, ',' ∉ p.1.toList ∧ p.1.toList ≠ [] := by decide
  obtain ⟨hcomma, hne⟩ := hall (s, op) (hsigns ▸ List.mem_append_right _ List.mem_cons_self)
  dsimp only at hfound hcomma hne
  split at hfound
  · next hprefix =>
    obtain ⟨ys, rfl⟩ := List.isPrefixOf_iff_prefix.1 hprefix
    obtain ⟨-, rfl⟩ := Piece.mk.inj (Except.ok.inj (Option.some.inj hfound))
    exact ⟨s.toList, by rw [← String.length_toList, List.drop_left], .tight hne (tight_of_not_mem hcomma)⟩
  · exact absurd hfound (by simp)

theorem leaves_readPhrase? {words : List (List Char)} (hwords : ∀ w ∈ words, ',' ∉ w)
    (h : readPhrase? words cs = some rest) : Leaves cs rest := by
  induction words generalizing cs with
  | nil =>
    rw [← Option.some.inj h]
    exact .refl cs
  | cons w words ih =>
    obtain ⟨hw, hwords⟩ := List.forall_mem_cons.1 hwords
    cases words with
    | nil => exact leaves_readWord? hw h
    | cons w' words =>
      rw [readPhrase?] at h
      · split at h
        · next c rest' hread =>
          split at h
          · next hc =>
            have hblanks : Leaves (c :: rest') (rest'.dropWhile isBlank) :=
              (leaves_dropWhile (by decide) rest').cons (ne_comma_of_isBlank hc)
            exact ((leaves_readWord? hw hread).trans hblanks).trans (ih hwords h)
          · exact absurd h (by simp)
        · exact absurd h (by simp)
      · exact List.cons_ne_nil _ _

theorem readPhrase?_length {words : List (List Char)} (h : readPhrase? words cs = some rest) :
    rest.length + words.flatten.length ≤ cs.length := by
  induction words generalizing cs with
  | nil => exact Nat.le_of_eq (congrArg List.length (Option.some.inj h).symm)
  | cons w words ih =>
    rw [List.flatten_cons, List.length_append]
    cases words with
    | nil => exact Nat.le_of_eq (by simpa using readWord?_length h)
    | cons w' words =>
      rw [readPhrase?] at h
      · split at h
        · next c rest' hread =>
          split at h
          · have hword := readWord?_length hread
            have hblanks := (List.dropWhile_suffix (l := rest') isBlank).length_le
            have hrest := ih h
            rw [List.length_cons] at hword
            omega
          · exact absurd h (by simp)
        · exact absurd h (by simp)
      · exact List.cons_ne_nil _ _

theorem cutFrom_phrases : CutFrom cs (phrase? cs) := by
  intro content rest h
  obtain ⟨_, ⟨s, op⟩, _, hphrases, hfound, -⟩ := List.findSome?_eq_some_iff.1 h
  have hall : ∀ p ∈ Operator.phrases, (∀ w ∈ splitWords p.1.toList, ',' ∉ w) ∧
      0 < (splitWords p.1.toList).flatten.length := by decide
  obtain ⟨hcomma, hpos⟩ := hall (s, op) (hphrases ▸ List.mem_append_right _ List.mem_cons_self)
  dsimp only at hfound hcomma hpos
  split at hfound
  · next rest' hread =>
    have hlt : rest'.length < cs.length := by
      have hlength := readPhrase?_length hread
      omega
    split at hfound
    · split at hfound
      · exact cutFrom_of_leaves (leaves_readPhrase? hcomma hread) hlt content rest hfound
      · exact absurd hfound (by simp)
    · exact absurd hfound (by simp)
  · exact absurd hfound (by simp)

theorem cutFrom_word : CutFrom cs (word? cs) := by
  unfold word?
  split
  · next c cs =>
    split
    · next hc =>
      have hne : c ≠ ',' := by
        rintro rfl
        exact absurd hc (by decide)
      exact cutFrom_of_leaves ((leaves_dropWhile (by decide) cs).cons hne)
        (Nat.lt_succ_of_le (List.dropWhile_suffix _).length_le)
    · exact cutFrom_none
  · exact cutFrom_none

theorem cutFrom_punctuation : CutFrom cs (punctuation? cs) := by
  have hchar : ∀ {c : Char} {content : Option Content} (cs : List Char), c ≠ ',' →
      CutFrom (c :: cs) (some (.ok ⟨content, cs⟩)) := fun cs hc =>
    cutFrom_of_leaves (.char hc cs) (Nat.lt_succ_self _)
  unfold punctuation?
  split
  · next cs =>
    exact cutFrom_of_leaves ((Leaves.char (by decide) cs).cons (by decide)) (Nat.lt_succ_of_lt (Nat.lt_succ_self _))
  · exact hchar _ (by decide)
  · next cs =>
    intro content rest heq
    obtain ⟨-, rfl⟩ := Piece.mk.inj (Except.ok.inj (Option.some.inj heq))
    exact ⟨[','], rfl, .comma⟩
  · exact hchar _ (by decide)
  · exact hchar _ (by decide)
  · exact cutFrom_none

/-- **A piece is cut from the front of the text**, and from no empty part of it. -/
theorem piece?_slice {before : Option Char} {content : Option Content}
    (h : piece? before cs = some (.ok ⟨content, rest⟩)) : ∃ xs, cs = xs ++ rest ∧ Slice xs :=
  CutFrom.orElse cutFrom_blanks (.orElse cutFrom_quoted (.orElse cutFrom_number (.orElse cutFrom_sign
    (.orElse cutFrom_phrases (.orElse cutFrom_word cutFrom_punctuation))))) content rest h

end Scan
end EquityScreen
