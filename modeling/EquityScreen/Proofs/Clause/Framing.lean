/-
The words that a plan in words is framed with.

Whatever comes next, such a word is passed over (`read_framing`): no name of a field, no phrase and no sector
starts with it. The word before the end of a limit is passed over there (`read_to`), though names of fields
start like it.
-/
import EquityScreen.Proofs.Clause.Labels

namespace EquityScreen

/-- The texts of tokens start with that of the first. -/
theorem Token.joinedText_cons (t : Token) (ts : List Token) :
    joinedText (t :: ts) = t.text ∨ ∃ rest, joinedText (t :: ts) = t.text ++ " " ++ rest := by
  cases ts with
  | nil => exact .inl rfl
  | cons u ts => exact .inr ⟨joinedText (u :: ts), Text.joined_cons_cons ..⟩

namespace Clause

open Catalog (framing)
open Scan (wordSaid)

variable {c : Catalog} {t u : Token} {ts rest : List Token} {w : String}

/-- A word that no other reading claims is passed over. -/
theorem read_filler (ht : t.content = .name) (hsuperlative : Vocabulary.superlatives.lookup t.word = none)
    (hquality : Vocabulary.qualities.lookup t.word = none) (hfiller : Vocabulary.fillers.contains t.word = true)
    (harticle : t.word ≠ "the") (hphrase : phrase? c (t :: ts) = none) (hfield : fieldAt? c (t :: ts) = none)
    (hsector : sectorAt? (t :: ts) false = none) : read c t ts = ⟨[.filler], 1⟩ := by
  have harticle' : articleNext (t :: ts) = false := by simp [articleNext, harticle]
  have hlist : sectorList (t :: ts) false = ([], 0) := by
    unfold sectorList
    rw [List.length_cons, sectorsFrom, harticle', if_neg Bool.false_ne_true, List.drop_zero, hsector]
    rfl
  have hword : readWord c t (t :: ts) = (.filler, 1) := by
    rw [readWord, hsuperlative, hphrase, hquality, hfield]
    simp only [Option.bind_none, Option.map_none, plainWord, hlist, hfiller, Bool.true_or, if_true]
    rfl
  rw [read.eq_def]
  simp only [ht, hword]

/-- No sector starts with a word that no spelling begins with. -/
theorem sectorAt?_of_isUnlisted (ht : t.content = .name) (h : Sector.isUnlisted t.text = true) (ts : List Token)
    (anchored : Bool) : sectorAt? (t :: ts) anchored = none := by
  refine List.findSome?_eq_none_iff.2 fun n _ => ?_
  simp only [Option.bind_eq_bind, Option.bind_eq_none_iff]
  intro term hterm
  obtain ⟨u, more, htake, -, hcases⟩ := sectorTerm?_some hterm
  have hu : t = u := by
    cases n with
    | zero => exact absurd htake (by simp)
    | succ n => exact (List.cons.inj htake).1
  subst hu
  rcases hcases with ⟨-, hquoted⟩ | ⟨-, -, rfl⟩
  · rw [ht] at hquoted
    exact absurd hquoted nofun
  · rw [Sector.resolve?_of_isUnlisted h (Token.joinedText_cons t more)]
    simp

/-- What the words that plans are framed with are, and are not. -/
structure Frames (w : String) : Prop where
  spelled : Scan.isSpelled w.toList = true
  name : Scan.wordContent w.toList = .name
  filler : Vocabulary.fillers.contains (Text.lower w) = true
  article : Text.lower w ≠ "the"
  superlative : Vocabulary.superlatives.lookup (Text.lower w) = none
  quality : Vocabulary.qualities.lookup (Text.lower w) = none
  phrase : ∀ e ∈ Vocabulary.phrases, ∀ s ∈ e.1, ¬ (Text.lower w).toList <+: s.toList
  letters : ∀ ch ∈ (Text.lower w).toList, Text.isSmall ch = true ∧ isSeparator ch = false
  unlisted : Sector.isUnlisted w = true

theorem frames_of_mem (h : w ∈ framing) : Frames w := by
  have hall : framing.all (fun w => Scan.isSpelled w.toList && Scan.wordContent w.toList == .name &&
      Vocabulary.fillers.contains (Text.lower w) && Text.lower w != "the" &&
      (Vocabulary.superlatives.lookup (Text.lower w)).isNone && (Vocabulary.qualities.lookup (Text.lower w)).isNone &&
      Vocabulary.phrases.all (·.1.all fun s => !(Text.lower w).toList.isPrefixOf s.toList) &&
      (Text.lower w).toList.all (fun ch => Text.isSmall ch && !isSeparator ch) && Sector.isUnlisted w) = true := by
    decide +kernel
  have h := List.all_eq_true.1 hall w h
  simp only [Bool.and_eq_true, beq_iff_eq, bne_iff_ne, Option.isNone_iff_eq_none, List.all_eq_true, Bool.not_eq_true'] at h
  obtain ⟨⟨⟨⟨⟨⟨⟨⟨hspelled, hname⟩, hfiller⟩, harticle⟩, hsuperlative⟩, hquality⟩, hphrase⟩, hletters⟩, hunlisted⟩ := h
  refine ⟨hspelled, hname, hfiller, harticle, hsuperlative, hquality, fun e he s hs hprefix => ?_, hletters, hunlisted⟩
  have hno := hphrase e he s hs
  rw [List.isPrefixOf_iff_prefix.2 hprefix] at hno
  exact absurd hno (by decide)

/-- **A word that frames a plan is passed over**, whatever comes next. -/
theorem read_framing (hw : w ∈ framing) (ht : t.said = wordSaid w) (ts : List Token) :
    read Catalog.builtin t ts = ⟨[.filler], 1⟩ := by
  have hframes := frames_of_mem hw
  obtain ⟨hcontent, htext⟩ := Prod.mk.inj ht
  have hword : t.word = Text.lower w := (isWord_of_said ht).2
  refine read_filler (hcontent.trans hframes.name) (hword ▸ hframes.superlative) (hword ▸ hframes.quality)
    (hword ▸ hframes.filler) (hword ▸ hframes.article) ?_ ?_ ?_
  · have hnone : longest? Vocabulary.phraseWords (Vocabulary.phrase? <| unhyphenated ·) (t :: ts) = none := by
      refine longest?_phrase_eq_none (fun hhyphen => ?_) (hword ▸ hframes.phrase) ts
      rw [hword] at hhyphen
      exact absurd (hframes.letters _ hhyphen).2 (by decide)
    rw [phrase?, hnone]
    rfl
  · cases hfield : fieldAt? Catalog.builtin (t :: ts) with
    | none => rfl
    | some r =>
      exfalso
      obtain ⟨ws, hws, hnamed⟩ := longest?_some hfield
      simp only [fieldNamed?, Option.bind_eq_bind, Option.bind_eq_some_iff] at hnamed
      obtain ⟨key, hkey, -⟩ := hnamed
      obtain ⟨more, hmore⟩ := prefix_words hws
      rw [Catalog.builtin_eq] at hkey
      refine (Catalog.unclaimed_of_mem (Catalog.resolve?_bare hkey)).framing w hw ?_
      rw [← Text.toList_lower, ← hmore, hword]
      exact prefix_bare_word hframes.letters
  · exact sectorAt?_of_isUnlisted (hcontent.trans hframes.name) (htext ▸ hframes.unlisted) ts false

/-! ## The end of a limit -/

theorem longest?_said {α : Type} (most : Nat) (meaning? : String → Option α) {us vs : List Token}
    (h : us.map Token.said = vs.map Token.said) : longest? most meaning? us = longest? most meaning? vs := by
  unfold longest?
  simp only [words?_said h]

/-- The end of a limit is no name of a field. -/
theorem fieldAt?_to (ht : t.said = wordSaid "to") (hu : u.said = wordSaid "top" ∨ u.said = wordSaid "bottom") :
    fieldAt? Catalog.builtin [t, u] = none := by
  cases hfield : fieldAt? Catalog.builtin [t, u] with
  | none => rfl
  | some r =>
    exfalso
    obtain ⟨hne, hbare⟩ := bareWords_mem hfield
    have hlimit := (Catalog.unclaimed_of_mem hbare).limit
    have hto := (isWord_of_said ht).2
    have hcases : [t, u].take r.2 = [t] ∨ [t, u].take r.2 = [t, u] := by
      cases hn : r.2 with
      | zero => exact absurd (by rw [hn]; rfl) hne
      | succ n => cases n with
        | zero => exact .inl rfl
        | succ n => exact .inr (by simp)
    rcases hu with hu | hu <;> have hend := (isWord_of_said hu).2 <;> rcases hcases with hcases | hcases <;>
      rw [hcases, bareWords, List.map_cons, hto] at hlimit
    · exact hlimit "totop" (by decide) (by decide)
    · rw [List.map_cons, hend] at hlimit
      exact hlimit "totop" (by decide) (by decide)
    · exact hlimit "totop" (by decide) (by decide)
    · rw [List.map_cons, hend] at hlimit
      exact hlimit "tobottom" (by decide) (by decide)

/-- **The word before the end of a limit is passed over.** -/
theorem read_to (ht : t.said = wordSaid "to") (hu : u.said = wordSaid "top" ∨ u.said = wordSaid "bottom")
    {v : Token} (hv : isWord v = false) (rest : List Token) : read Catalog.builtin t (u :: v :: rest) = ⟨[.filler], 1⟩ := by
  obtain ⟨hcontent, htext⟩ := Prod.mk.inj ht
  have hword : t.word = Text.lower "to" := (isWord_of_said ht).2
  have hname : t.content = .name := hcontent.trans (by decide)
  refine read_filler hname (hword ▸ by decide) (hword ▸ by decide) (hword ▸ by decide) (hword ▸ by decide) ?_ ?_
    (sectorAt?_of_isUnlisted hname (htext ▸ by decide +kernel) _ false)
  · have hnone : longest? Vocabulary.phraseWords (Vocabulary.phrase? <| unhyphenated ·) ([t, u] ++ v :: rest) = none := by
      rw [longest?_append _ _ hv]
      rcases hu with hu | hu
      · rw [longest?_said _ _ (show [t, u].map Token.said = [unplaced (wordSaid "to"), unplaced (wordSaid "top")].map Token.said by
          simp only [List.map_cons, List.map_nil, ht, hu]; rfl)]
        decide
      · rw [longest?_said _ _ (show [t, u].map Token.said = [unplaced (wordSaid "to"), unplaced (wordSaid "bottom")].map Token.said by
          simp only [List.map_cons, List.map_nil, ht, hu]; rfl)]
        decide
    rw [phrase?, show t :: u :: v :: rest = [t, u] ++ v :: rest from rfl, hnone]
    rfl
  · rw [show t :: u :: v :: rest = [t, u] ++ v :: rest from rfl, fieldAt?_append hv]
    exact fieldAt?_to ht hu

end Clause
end EquityScreen
