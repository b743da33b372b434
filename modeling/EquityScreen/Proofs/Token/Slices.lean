/-
Tokens as slices of the text that they are cut from.

Every place that cutting comes to is a place in the text (`Place.In`): what stands in front of it and what follows
it are read off the text. So the token of a piece is the part of the text that begins at its position, later tokens
begin where earlier ones have ended, and what lies between two tokens is blank or was passed over, character by
character, where no pattern fits (`Scans.cutBetween`).
-/
import EquityScreen.Proofs.Outcome
import EquityScreen.Proofs.Token.Places

namespace EquityScreen
namespace Scan

open Text

/-! ## Blanks say nothing, everything else does -/

/-- Whatever piece is found says something. -/
def Speaks (o : Outcome) : Prop := ∀ rest, o ≠ some (.ok ⟨none, rest⟩)

theorem speaks_none : Speaks none := fun _ => nofun

theorem speaks_error (e : LexError) : Speaks (some (.error e)) := fun _ => by simp

theorem speaks_content (content : Content) (rest : List Char) : Speaks (some (.ok ⟨some content, rest⟩)) :=
  fun _ => by simp

theorem Speaks.orElse {a b : Outcome} (ha : Speaks a) (hb : Speaks b) : Speaks (a <|> b) := by
  cases a with
  | none => exact hb
  | some r => exact ha

variable {cs rest : List Char}

theorem speaks_quoted (before : Option Char) (cs : List Char) : Speaks (quoted? before cs) := by
  have hupTo : ∀ close cs, Speaks ((upTo? close cs).map fun p => phrasePiece p.1 p.2) := fun close cs => by
    cases upTo? close cs with
    | none => exact speaks_none
    | some p => exact speaks_content _ _
  unfold quoted?
  split
  · exact hupTo _ _
  · exact hupTo _ _
  · split
    · exact speaks_none
    · split
      · split
        · exact speaks_none
        · exact speaks_content _ _
      · exact speaks_none
  · exact speaks_none

theorem speaks_number (cs : List Char) : Speaks (number? cs) := by
  unfold number?
  cases Numeral.find? cs with
  | none => exact speaks_none
  | some f =>
    rw [Option.map_some, numberPiece]
    split
    · exact speaks_content _ _
    · split
      · exact speaks_content _ _
      · exact speaks_error _

theorem speaks_sign (cs : List Char) : Speaks (sign? cs) := by
  intro rest h
  obtain ⟨_, ⟨s, op⟩, _, -, hfound, -⟩ := List.findSome?_eq_some_iff.1 h
  dsimp only at hfound
  split at hfound
  · exact speaks_content _ _ rest hfound
  · exact speaks_none rest hfound

theorem speaks_phrase (cs : List Char) : Speaks (phrase? cs) := by
  intro rest h
  obtain ⟨_, ⟨s, op⟩, _, -, hfound, -⟩ := List.findSome?_eq_some_iff.1 h
  dsimp only at hfound
  split at hfound
  · split at hfound
    · split at hfound
      · exact speaks_content _ _ rest hfound
      · exact speaks_error _ rest hfound
    · exact speaks_none rest hfound
  · exact speaks_none rest hfound

theorem speaks_word (cs : List Char) : Speaks (word? cs) := by
  unfold word?
  split
  · split
    · exact speaks_content _ _
    · exact speaks_none
  · exact speaks_none

theorem speaks_punctuation (cs : List Char) : Speaks (punctuation? cs) := by
  unfold punctuation?
  split
  · exact speaks_content _ _
  · exact speaks_content _ _
  · exact speaks_content _ _
  · exact speaks_content _ _
  · exact speaks_content _ _
  · exact speaks_none

/-- **A piece that says nothing is blank.** -/
theorem blank_of_piece? {before : Option Char} (h : Scan.piece? before cs = some (.ok ⟨none, rest⟩)) :
    ∃ xs, cs = xs ++ rest ∧ ∀ c ∈ xs, isBlank c = true := by
  have hspeaks : Speaks (quoted? before cs <|> number? cs <|> sign? cs <|> phrase? cs <|> word? cs <|> punctuation? cs) :=
    (speaks_quoted before cs).orElse ((speaks_number cs).orElse ((speaks_sign cs).orElse
      ((speaks_phrase cs).orElse ((speaks_word cs).orElse (speaks_punctuation cs)))))
  rw [Scan.piece?] at h
  cases hblanks : blanks? cs with
  | none =>
    rw [hblanks] at h
    exact absurd h (hspeaks rest)
  | some r =>
    rw [hblanks] at h
    obtain rfl : r = .ok ⟨none, rest⟩ := Option.some.inj h
    unfold blanks? at hblanks
    split at hblanks
    · next c cs =>
      split at hblanks
      · next hc =>
        obtain ⟨-, rfl⟩ := Piece.mk.inj (Except.ok.inj (Option.some.inj hblanks))
        refine ⟨c :: cs.takeWhile isBlank, ?_, List.forall_mem_cons.2 ⟨hc, List.all_eq_true.1 List.all_takeWhile⟩⟩
        rw [List.cons_append, List.takeWhile_append_dropWhile]
      · exact absurd hblanks (by simp)
    · exact absurd hblanks (by simp)

/-! ## Places in a text -/

/-- The place so many characters into a text. -/
def placeAt (cs : List Char) (offset : Nat) : Place := ⟨(cs.take offset).getLast?, offset, cs.drop offset⟩

/-- The place is one in the text. -/
def Place.In (p : Place) (cs : List Char) : Prop := p.position ≤ cs.length ∧ p = placeAt cs p.position

variable {p q : Place} {ts : List Token}

theorem in_placeAt {offset : Nat} (h : offset ≤ cs.length) : (placeAt cs offset).In cs := ⟨h, rfl⟩

theorem Place.In.following (h : p.In cs) : p.following = cs.drop p.position := congrArg Place.following h.2

/-- The place behind a part of the text that is not empty. -/
theorem Place.In.beyond (h : p.In cs) {xs : List Char} (hxs : p.following = xs ++ rest) (hne : xs ≠ []) :
    (⟨xs.getLast?, p.position + xs.length, rest⟩ : Place).In cs := by
  have hdrop : cs.drop p.position = xs ++ rest := h.following.symm.trans hxs
  have hlength : p.position + (xs.length + rest.length) = cs.length := by
    rw [← List.length_append, ← hdrop, List.length_drop, Nat.add_sub_cancel' h.1]
  refine ⟨Nat.le_of_add_right_le (by rw [Nat.add_assoc]; exact Nat.le_of_eq hlength), ?_⟩
  have htake : cs.take (p.position + xs.length) = cs.take p.position ++ xs := by
    rw [List.take_add, hdrop, List.take_left]
  have hlast : (cs.take p.position ++ xs).getLast? = xs.getLast? := by
    rw [List.getLast?_append, List.getLast?_eq_some_getLast hne]
    rfl
  rw [placeAt, htake, hlast, ← List.drop_drop, hdrop, List.drop_left]

theorem Place.In.after {content : Option Content} (h : p.In cs) (hpiece : p.piece? = some (.ok ⟨content, rest⟩)) :
    (p.after rest).In cs ∧ p.following = p.slice rest ++ rest ∧ p.slice rest ≠ [] := by
  obtain ⟨xs, hxs, hslice⟩ := piece?_slice hpiece
  have heq : p.slice rest = xs := by rw [slice, hxs, List.length_append, Nat.add_sub_cancel, List.take_left]
  rw [Place.after, heq]
  exact ⟨h.beyond hxs hslice.ne_nil, hxs, hslice.ne_nil⟩

theorem Place.In.passed (h : p.In cs) (hne : p.following ≠ []) : p.passed.In cs := by
  obtain ⟨c, more, hmore⟩ := List.exists_cons_of_ne_nil hne
  have hfollowing : p.following = [c] ++ more := hmore
  have hpassed : p.passed = ⟨[c].getLast?, p.position + [c].length, more⟩ := by rw [Place.passed, hmore]; rfl
  rw [hpassed]
  exact h.beyond hfollowing (by simp)

theorem Place.In.position_eq (h : p.In cs) (hend : p.following = []) : p.position = cs.length :=
  Nat.le_antisymm h.1 (List.drop_eq_nil_iff.1 (h.following.symm.trans hend))

/-! ## Tokens in a text -/

/-- The token is the part of the text that begins at its position, and not empty. -/
def IsSlice (cs : List Char) (t : Token) : Prop := t.text.toList ≠ [] ∧ t.text.toList <+: cs.drop t.position

/-- The character at the offset belongs to the token. -/
def Covers (t : Token) (offset : Nat) : Prop := t.position ≤ offset ∧ offset < t.position + t.text.length

/-- The first token ends before the second begins. -/
def Precedes (t u : Token) : Prop := t.position + t.text.length ≤ u.position

/-- The character at the offset belongs to a token, is blank, or begins no piece where cutting comes to stand
before it. -/
def Accounted (p : Place) (cs : List Char) (ts : List Token) (offset : Nat) : Prop :=
  (∃ t ∈ ts, Covers t offset) ∨ (∀ c ∈ cs[offset]?, isBlank c = true) ∨
    (placeAt cs offset).piece? = none ∧ ∃ us, Scans p us (placeAt cs offset)

/-- The tokens between two places are slices of the text between them, one behind the other, and leave over only blanks
and characters that begin no piece. -/
structure CutBetween (cs : List Char) (p : Place) (ts : List Token) (q : Place) : Prop where
  ends : q.In cs
  forward : p.position ≤ q.position
  slices : ∀ t ∈ ts, IsSlice cs t
  within : ∀ t ∈ ts, p.position ≤ t.position ∧ t.position + t.text.length ≤ q.position
  ordered : ts.Pairwise Precedes
  accounted : ∀ offset, p.position ≤ offset → offset < q.position → Accounted p cs ts offset

/-- What a step more leaves over. -/
theorem Accounted.step {p p' : Place} {offset : Nat} {us : List Token}
    (hstep : ∀ {ts q}, Scans p' ts q → Scans p (us ++ ts) q) (h : Accounted p' cs ts offset) :
    Accounted p cs (us ++ ts) offset := by
  rcases h with ⟨t, ht, hcovers⟩ | hblank | ⟨hnone, vs, hscans⟩
  · exact .inl ⟨t, List.mem_append_right _ ht, hcovers⟩
  · exact .inr (.inl hblank)
  · exact .inr (.inr ⟨hnone, us ++ vs, hstep hscans⟩)

/-- A step that cuts off no token. -/
theorem CutBetween.skip {p p' : Place} (hstep : ∀ {ts q}, Scans p' ts q → Scans p ts q)
    (hforward : p.position ≤ p'.position)
    (hbetween : ∀ offset, p.position ≤ offset → offset < p'.position → Accounted p cs [] offset)
    (h : CutBetween cs p' ts q) : CutBetween cs p ts q where
  ends := h.ends
  forward := Nat.le_trans hforward h.forward
  slices := h.slices
  within t ht := ⟨Nat.le_trans hforward (h.within t ht).1, (h.within t ht).2⟩
  ordered := h.ordered
  accounted offset hle hlt := by
    rcases Nat.lt_or_ge offset p'.position with hbefore | hbehind
    · rcases hbetween offset hle hbefore with ⟨t, ht, -⟩ | hleft
      · exact absurd ht List.not_mem_nil
      · exact .inr hleft
    · have hstep' : ∀ {ts q}, Scans p' ts q → Scans p ([] ++ ts) q := hstep
      exact (h.accounted offset hbehind hlt).step hstep'

/-- **The tokens that cutting passes are slices of the text**, and everything else is accounted for. -/
theorem Scans.cutBetween (h : Scans p ts q) (hp : p.In cs) : CutBetween cs p ts q := by
  induction h with
  | done p =>
    exact ⟨hp, Nat.le_refl _, nofun, nofun, .nil, fun offset hle hlt => absurd hle (Nat.not_le_of_lt hlt)⟩
  | @blank p q rest ts hpiece _ ih =>
    obtain ⟨hin, hslice, hne⟩ := hp.after hpiece
    obtain ⟨xs, hxs, hblank⟩ := blank_of_piece? hpiece
    obtain rfl : xs = p.slice rest := List.append_cancel_right (hxs.symm.trans hslice)
    refine (ih hin).skip (.blank hpiece) (Nat.le_add_right _ _) fun offset hle hlt => .inr (.inl fun c hc => ?_)
    obtain ⟨n, rfl⟩ := Nat.exists_eq_add_of_le hle
    have hn : n < (p.slice rest).length := Nat.lt_of_add_lt_add_left hlt
    rw [← List.getElem?_drop, ← hp.following, hslice, List.getElem?_append_left hn] at hc
    exact hblank c (List.mem_of_getElem? hc)
  | @token p q content rest ts hpiece _ ih =>
    obtain ⟨hin, hslice, hne⟩ := hp.after hpiece
    have ih := ih hin
    have htext : (p.token content rest).text.toList = p.slice rest := String.toList_ofList
    have hlength : (p.token content rest).text.length = (p.slice rest).length := by
      rw [← String.length_toList, htext]
    have hend : (p.token content rest).position + (p.token content rest).text.length = (p.after rest).position := by
      rw [hlength]
      rfl
    refine ⟨ih.ends, Nat.le_trans (Nat.le_add_right _ _) ih.forward, List.forall_mem_cons.2 ⟨⟨?_, ?_⟩, ih.slices⟩,
      List.forall_mem_cons.2 ⟨⟨Nat.le_refl _, hend ▸ ih.forward⟩, fun t ht => ?_⟩,
      List.pairwise_cons.2 ⟨fun t ht => ?_, ih.ordered⟩, fun offset hle hlt => ?_⟩
    · rw [htext]
      exact hne
    · rw [htext]
      exact ⟨rest, hslice.symm.trans hp.following⟩
    · exact ⟨Nat.le_trans (Nat.le_add_right _ _) (ih.within t ht).1, (ih.within t ht).2⟩
    · rw [Precedes, hend]
      exact (ih.within t ht).1
    · rcases Nat.lt_or_ge offset (p.after rest).position with hbefore | hbehind
      · exact .inl ⟨_, List.mem_cons_self, hle, hend ▸ hbefore⟩
      · have hstep : ∀ {ts q}, Scans (p.after rest) ts q → Scans p ([p.token content rest] ++ ts) q := .token hpiece
        exact (ih.accounted offset hbehind hlt).step hstep
  | @passed p q ts hne hnone _ ih =>
    have hstep : ∀ {ts q}, Scans p.passed ts q → Scans p ts q := .passed hne hnone
    refine (ih (hp.passed hne)).skip hstep (Nat.le_succ _) fun offset hle hlt => .inr (.inr ?_)
    obtain rfl : offset = p.position := Nat.le_antisymm (Nat.le_of_lt_succ hlt) hle
    rw [← hp.2]
    exact ⟨hnone, [], .done p⟩

/-! ## Whole texts -/

/-- A refinement mark is a plus sign and digits, behind blanks. -/
theorem refinement?_some {t : Token} (h : refinement? cs = some (t, rest)) :
    ∃ blanks digits, cs = blanks ++ '+' :: (digits ++ rest) ∧ (∀ c ∈ blanks, isBlank c = true) ∧
      t.text.toList = '+' :: digits ∧ t.position = blanks.length := by
  unfold refinement? at h
  split at h
  · next more hdrop =>
    dsimp only at h
    split at h
    · exact absurd h (by simp)
    · obtain ⟨rfl, rfl⟩ := Prod.mk.inj (Option.some.inj h)
      have hblanks : cs.takeWhile isBlank ++ '+' :: more = cs := by rw [← hdrop, List.takeWhile_append_dropWhile]
      have hlength := congrArg List.length hblanks
      simp only [List.length_append, List.length_cons] at hlength
      refine ⟨cs.takeWhile isBlank, more.takeWhile isDigit, ?_, List.all_eq_true.1 List.all_takeWhile, String.toList_ofList,
        by dsimp only; omega⟩
      rw [List.takeWhile_append_dropWhile, hblanks]
  · exact absurd h (by simp)

end Scan

open Scan

/-- The refinement mark of a text, if it has one, is a slice of it with nothing but blanks in front, and cutting begins
behind it. -/
theorem start_cut (text : String) : (start text).2.In text.toList ∧ (∀ t ∈ (start text).1, IsSlice text.toList t) ∧
    (start text).1.Pairwise Precedes ∧
    (∀ t ∈ (start text).1, t.position + t.text.length ≤ (start text).2.position) ∧
    ∀ offset < (start text).2.position, (∃ t ∈ (start text).1, Covers t offset) ∨
      ∀ c ∈ text.toList[offset]?, Text.isBlank c = true := by
  unfold start
  split
  · next t rest h =>
    obtain ⟨blanks, digits, htext, hblank, hmark, hposition⟩ := refinement?_some h
    have hlength : t.text.length = digits.length + 1 := by rw [← String.length_toList, hmark, List.length_cons]
    have hend : text.toList.length - rest.length = blanks.length + t.text.length := by
      rw [htext, hlength]
      simp only [List.length_append, List.length_cons]
      omega
    have hfront : (placeAt text.toList blanks.length).In text.toList := in_placeAt (by simp [htext])
    have hfollowing : (placeAt text.toList blanks.length).following = t.text.toList ++ rest := by
      rw [placeAt, htext, hmark, List.drop_left]
      rfl
    have hne : t.text.toList ≠ [] := by simp [hmark]
    dsimp only
    rw [hend, ← String.length_toList]
    refine ⟨hfront.beyond hfollowing hne, List.forall_mem_singleton.2 ⟨hne, ?_⟩, List.pairwise_singleton _ _,
      List.forall_mem_singleton.2 (Nat.le_of_eq (by rw [hposition, String.length_toList])), fun offset hlt => ?_⟩
    · rw [hposition]
      exact ⟨rest, hfollowing.symm⟩
    · rcases Nat.lt_or_ge offset blanks.length with hbefore | hbehind
      · refine .inr fun c hc => hblank c ?_
        rw [htext, List.getElem?_append_left hbefore] at hc
        exact List.mem_of_getElem? hc
      · refine .inl ⟨t, List.mem_singleton_self t, hposition ▸ hbehind, ?_⟩
        rwa [hposition, ← String.length_toList]
  · exact ⟨in_placeAt (Nat.zero_le _), nofun, .nil, nofun, fun offset hlt => absurd hlt (Nat.not_lt_zero _)⟩

/-- **Tokens are slices of their text**: where a text is cut into tokens, each of them is the part of the text that
begins at its position, none is empty, and each ends before the next begins. A character that belongs to none is
blank, or stands at an offset that cutting comes to and where no pattern fits. -/
theorem tokenize_slices {text : String} {ts : List Token} (h : tokenize text = .ok ts) :
    (∀ t ∈ ts, t.text.toList ≠ [] ∧ t.text.toList <+: text.toList.drop t.position) ∧
    ts.Pairwise (fun t u => t.position + t.text.length ≤ u.position) ∧
    ∀ offset, ∀ c ∈ text.toList[offset]?,
      (∃ t ∈ ts, t.position ≤ offset ∧ offset < t.position + t.text.length) ∨ Text.isBlank c = true ∨
        (placeAt text.toList offset).piece? = none ∧ ∃ us, Scans (start text).2 us (placeAt text.toList offset) := by
  obtain ⟨hin, hmark, hordered, hbehind, hfront⟩ := start_cut text
  rw [tokenize_eq] at h
  rcases (start text).2.tokens_cases with ⟨us, q, hscans, hend, htokens⟩ | ⟨us, q, e, -, -, htokens⟩
  · rw [htokens] at h
    obtain rfl : (start text).1 ++ us = ts := Except.ok.inj h
    have hcut := hscans.cutBetween hin
    refine ⟨List.forall_mem_append.2 ⟨hmark, hcut.slices⟩, List.pairwise_append.2 ⟨hordered, hcut.ordered, fun t ht u hu =>
      Nat.le_trans (hbehind t ht) (hcut.within u hu).1⟩, fun offset c hc => ?_⟩
    rcases Nat.lt_or_ge offset (start text).2.position with hbefore | hle
    · rcases hfront offset hbefore with ⟨t, ht, hcovers⟩ | hblank
      · exact .inl ⟨t, List.mem_append_left _ ht, hcovers⟩
      · exact .inr (.inl (hblank c hc))
    · have hlt : offset < q.position := by
        rw [hcut.ends.position_eq hend]
        exact (List.getElem?_eq_some_iff.1 hc).1
      rcases hcut.accounted offset hle hlt with ⟨t, ht, hcovers⟩ | hblank | hnone
      · exact .inl ⟨t, List.mem_append_right _ ht, hcovers⟩
      · exact .inr (.inl (hblank c hc))
      · exact .inr (.inr hnone)
  · rw [htokens] at h
    exact absurd h nofun

/-- A refinement mark behind a blank, a stray bracket, and a phrase between apostrophes that holds a blank. -/
theorem tokenize_slices_refined :
    let ts : List Token := [⟨.refinement 2, "+2", 1⟩, ⟨.name, "PE", 4⟩, ⟨.quoted "a b", "' a b'", 9⟩]
    tokenize " +2 PE [ ' a b'" = .ok ts ∧
      (∀ t ∈ ts, t.text.toList ≠ [] ∧ t.text.toList <+: " +2 PE [ ' a b'".toList.drop t.position) ∧
      (placeAt " +2 PE [ ' a b'".toList 7).piece? = none := by
  intro ts
  have h : tokenize " +2 PE [ ' a b'" = .ok ts := Except.toOption_eq_some.1 (by decide +kernel)
  obtain ⟨hslices, -, haccounted⟩ := tokenize_slices h
  refine ⟨h, hslices, ?_⟩
  rcases haccounted 7 '[' (by decide) with ⟨t, ht, hcovers⟩ | hblank | ⟨hnone, -⟩
  · revert t
    decide
  · exact absurd hblank (by decide)
  · exact hnone

end EquityScreen
