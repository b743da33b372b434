/-
Names of fields in a row of tokens.

What stands behind a name does not change what the name means unless it goes on with a word
(`longest?_append`). No other reading of a word claims the name of a built-in field, however it is
spelled (`readWord_named`).
-/
import EquityScreen.Proofs.Catalog.Spelling
import EquityScreen.Proofs.Clause.Operand
import EquityScreen.Proofs.Token.Cutting

namespace EquityScreen

namespace Text

/-- Texts joined in a row go on as the first of them do. -/
theorem joined_append (separator : String) {texts more : List String} (h : texts ≠ []) :
    (joined separator (texts ++ more)).toList = (joined separator texts).toList ++
      if more = [] then [] else separator.toList ++ (joined separator more).toList := by
  induction texts with
  | nil => exact absurd rfl h
  | cons s texts ih =>
    cases texts with
    | nil =>
      cases more with
      | nil => simp
      | cons m more => simp [joined_cons_cons]
    | cons t texts =>
      have hcons := ih (by simp)
      rw [List.cons_append, List.cons_append, joined_cons_cons, joined_cons_cons, String.toList_append,
        ← List.cons_append, hcons]
      simp

end Text

namespace Clause

open Text (isSmall isBlank)

/-- An ordinary word or a keyword. -/
def isWord (t : Token) : Bool := t.isName || words?.isKeywordToken t

variable {ts rest : List Token} {t : Token}

/-! ## Words -/

theorem words?_some {n : Nat} {ws : List String} (h : words? ts n = some ws) :
    ∃ u more, ts.take n = u :: more ∧ u.isName = true ∧ more.all isWord = true ∧ more.length + 1 = n ∧
      ws = (u :: more).map (·.word) := by
  unfold words? at h
  split at h
  · exact absurd h (by simp)
  · next u more htake =>
    split at h
    · next hcond =>
      simp only [Bool.and_eq_true, decide_eq_true_eq] at hcond
      exact ⟨u, more, htake, hcond.1.2, hcond.2, hcond.1.1, (Option.some.inj h).symm⟩
    · exact absurd h (by simp)

theorem length_le_of_words? {n : Nat} {ws : List String} (h : words? ts n = some ws) : n ≤ ts.length := by
  obtain ⟨u, more, htake, -, -, hlength, -⟩ := words?_some h
  have hle := congrArg List.length htake
  simp only [List.length_take, List.length_cons] at hle
  omega

/-- What is named at the front is named from an ordinary word on. -/
theorem exists_cons_of_longest? {α : Type} {most n : Nat} {meaning? : String → Option α} {a : α}
    (h : longest? most meaning? ts = some (a, n)) : ∃ u more, ts = u :: more ∧ u.isName = true := by
  obtain ⟨ws, hws, -⟩ := longest?_some h
  obtain ⟨u, more, htake, hu, -⟩ := words?_some hws
  have hmem : u ∈ (ts.take n).head? := by rw [htake]; rfl
  cases ts with
  | nil => exact absurd hmem (by simp)
  | cons t rest =>
    cases n with
    | zero => exact absurd hmem (by simp)
    | succ n =>
      obtain rfl : t = u := Option.some.inj hmem
      exact ⟨t, rest, rfl, hu⟩

/-- The words at the front start with the first. -/
theorem prefix_words {n : Nat} {ws : List String} (h : words? (t :: ts) n = some ws) :
    t.word.toList <+: (Text.joined " " ws).toList := by
  obtain ⟨u, more, htake, -, -, hlength, rfl⟩ := words?_some h
  rw [← hlength, List.take_succ_cons] at htake
  rw [List.map_cons, ← (List.cons.inj htake).1, ← List.singleton_append, Text.joined_append " " (List.cons_ne_nil _ _)]
  exact List.prefix_append _ _

/-- A hyphen counts as a space only where there is one. -/
theorem prefix_unhyphenated {xs : List Char} {s : String} (hxs : ∀ ch ∈ xs, ch ≠ '-') (h : xs <+: s.toList) :
    xs <+: (unhyphenated s).toList := by
  rw [unhyphenated, String.toList_ofList]
  have hsame : (xs.map fun ch => if ch == '-' then ' ' else ch) = xs := by
    conv => rhs; rw [← List.map_id xs]
    exact List.map_congr_left fun ch hch => if_neg (by simpa using hxs ch hch)
  have hmap := h.map fun ch => if ch == '-' then ' ' else ch
  rwa [hsame] at hmap

/-- No phrase stands where no listed phrase begins with the first word. -/
theorem longest?_phrase_eq_none (hhyphen : '-' ∉ t.word.toList)
    (h : ∀ e ∈ Vocabulary.phrases, ∀ s ∈ e.1, ¬ t.word.toList <+: s.toList) (ts : List Token) :
    longest? Vocabulary.phraseWords (Vocabulary.phrase? <| unhyphenated ·) (t :: ts) = none := by
  refine Option.eq_none_iff_forall_ne_some.2 fun r hr => ?_
  obtain ⟨ws, hws, hphrase⟩ := longest?_some hr
  obtain ⟨e, hfind, -⟩ := Option.map_eq_some_iff.1 hphrase
  have hlisted := List.find?_some hfind
  exact h e (List.mem_of_find?_eq_some hfind) _ (List.contains_iff_mem.1 hlisted)
    (prefix_unhyphenated (fun _ hch heq => hhyphen (heq ▸ hch)) (prefix_words hws))

theorem words?_append (ht : isWord t = false) (n : Nat) : words? (ts ++ t :: rest) n = words? ts n := by
  rcases Nat.lt_or_ge ts.length n with hn | hn
  · have hnone : ∀ l : List Token, (t ∈ l.take n ∨ l.length < n) → words? l n = none := by
      intro l hl
      cases hw : words? l n with
      | none => rfl
      | some ws =>
        obtain ⟨u, more, htake, hname, hmore, -, -⟩ := words?_some hw
        rcases hl with hl | hl
        · rw [htake] at hl
          rcases List.mem_cons.1 hl with rfl | hl
          · exact absurd ht (by simp [isWord, hname])
          · exact absurd (List.all_eq_true.1 hmore t hl) (by simp [ht])
        · exact absurd (length_le_of_words? hw) (Nat.not_le.2 hl)
    rw [hnone ts (.inr hn), hnone _ (.inl ?_)]
    obtain ⟨k, hk⟩ := Nat.exists_eq_add_of_lt hn
    rw [hk, Nat.add_assoc, List.take_length_add_append, List.take_succ_cons]
    exact List.mem_append_right _ List.mem_cons_self
  · rw [words?, List.take_append_of_le_length hn, words?]

/-- **A name goes no further** than the words. -/
theorem longest?_append {α : Type} (most : Nat) (meaning? : String → Option α) (ht : isWord t = false) :
    longest? most meaning? (ts ++ t :: rest) = longest? most meaning? ts := by
  unfold longest?
  congr 1
  funext n
  rw [words?_append ht]

theorem fieldAt?_append {c : Catalog} (ht : isWord t = false) :
    fieldAt? c (ts ++ t :: rest) = fieldAt? c ts := longest?_append _ _ ht

variable {us vs : List Token}

/-- Where the tokens stand does not count for the words that they are. -/
theorem words?_said (h : us.map Token.said = vs.map Token.said) (n : Nat) : words? us n = words? vs n := by
  have htake : (us.take n).map Token.said = (vs.take n).map Token.said := by rw [List.map_take, List.map_take, h]
  have hall : ∀ {ts us : List Token}, ts.map Token.said = us.map Token.said →
      ts.all isWord = us.all isWord ∧ ts.map (·.word) = us.map (·.word) := by
    intro ts us h
    have hword : isWord = (fun x : Content × String => x.1 == .name || words?.isKeywordToken ⟨x.1, "", 0⟩) ∘ Token.said := rfl
    have hlower : Token.word = (fun x : Content × String => Text.lower x.2) ∘ Token.said := rfl
    rw [hword, hlower, ← List.all_map, ← List.all_map, ← List.map_map, ← List.map_map, h]
    exact ⟨rfl, rfl⟩
  unfold words?
  cases hu : us.take n with
  | nil =>
    rw [hu] at htake
    rw [List.map_eq_nil_iff.1 htake.symm]
  | cons u us' =>
    cases hv : vs.take n with
    | nil => rw [hu, hv] at htake; exact absurd htake (by simp)
    | cons v vs' =>
      rw [hu, hv, List.map_cons, List.map_cons] at htake
      obtain ⟨hhead, hmore⟩ := List.cons.inj htake
      obtain ⟨hwords, hlower⟩ := hall hmore
      have hlength : us'.length = vs'.length := by simpa using congrArg List.length hmore
      have hname : u.isName = v.isName := by rw [Token.isName, Token.isName, (Prod.mk.inj hhead).1]
      have hword : u.word = v.word := by rw [Token.word, Token.word, (Prod.mk.inj hhead).2]
      have hwords : us'.all (fun w => w.isName || words?.isKeywordToken w) =
          vs'.all (fun w => w.isName || words?.isKeywordToken w) := hwords
      dsimp only
      rw [hlength, hname, hwords, List.map_cons, List.map_cons, hword, hlower]

theorem fieldAt?_said {c : Catalog} (h : us.map Token.said = vs.map Token.said) : fieldAt? c us = fieldAt? c vs := by
  unfold fieldAt? longest?
  simp only [words?_said h]

/-- The bare name of the words of tokens. -/
def bareWords (ts : List Token) : List Char := bare (Text.joined " " (ts.map (·.word))).toList

/-- The bare name of the words of a field at the front is that of a built-in field. -/
theorem bareWords_mem {f : Field} {n : Nat} (h : fieldAt? Catalog.builtin ts = some (f, n)) :
    ts.take n ≠ [] ∧ bareWords (ts.take n) ∈ Catalog.bareNames Catalog.builtinFields := by
  obtain ⟨ws, hws, hname⟩ := longest?_some h
  obtain ⟨u, more, htake, -, -, -, rfl⟩ := words?_some hws
  simp only [fieldNamed?, Option.bind_eq_bind, Option.bind_eq_some_iff] at hname
  obtain ⟨key, hkey, -⟩ := hname
  rw [Catalog.builtin_eq] at hkey
  rw [htake]
  exact ⟨List.cons_ne_nil _ _, Catalog.resolve?_bare hkey⟩

/-! ## Other readings -/

variable {u : Token} {more : List Token}

theorem no_superlative (h : Catalog.Unclaimed (bareWords (u :: more))) :
    Vocabulary.superlatives.lookup u.word = none := by
  refine Classical.byContradiction fun hsome => ?_
  obtain ⟨d, hd⟩ := Option.ne_none_iff_exists'.1 hsome
  obtain ⟨l, r, hl, -⟩ := List.lookup_eq_some_iff.1 hd
  have hmem : (u.word, d) ∈ Vocabulary.superlatives := by rw [hl]; simp
  refine h.superlative _ hmem ?_
  rw [bareWords, List.map_cons, ← List.singleton_append, Text.joined_append " " (List.cons_ne_nil _ _)]
  exact prefix_bare_word (Catalog.plain_words (List.mem_append_left _ (List.mem_map_of_mem hmem)))

theorem no_phrase {c : Catalog} {names : List Token} (h : Catalog.Unclaimed (bareWords names))
    (ht : isWord t = false) : phrase? c (names ++ t :: rest) = none := by
  unfold phrase?
  rw [longest?_append _ _ ht]
  cases hlongest : longest? Vocabulary.phraseWords (fun s => Vocabulary.phrase? (unhyphenated s)) names with
  | none => rfl
  | some r =>
    exfalso
    obtain ⟨terms, k⟩ := r
    obtain ⟨ws, hws, hphrase⟩ := longest?_some hlongest
    obtain ⟨u, more, htake, -, -, -, rfl⟩ := words?_some hws
    simp only [Vocabulary.phrase?, Option.map_eq_some_iff] at hphrase
    obtain ⟨⟨spellings, terms'⟩, hfind, -⟩ := hphrase
    have hmem := List.mem_of_find?_eq_some hfind
    have hfound := List.find?_some hfind
    have hcontains := List.contains_iff_mem.1 hfound
    obtain ⟨hsmall, hhead, hlast⟩ := Catalog.plain_phrases hmem hcontains
    refine h.phrase _ hmem _ hcontains ?_
    have hnames : names.map (·.word) = (u :: more).map (·.word) ++ (names.drop k).map (·.word) := by
      rw [← htake, ← List.map_append, List.take_append_drop]
    rw [bareWords, hnames, Text.joined_append " " (by simp)]
    generalize (Text.joined " " ((u :: more).map (·.word))) = name at *
    simp only [unhyphenated, String.toList_ofList] at hsmall hhead hlast ⊢
    rw [withoutSeparators_unhyphenated]
    have hkept : ∀ d, isSmall (if (d == '-') = true then ' ' else d) = true → isSmall d = true := by
      intro d hd
      split at hd
      · next hc => rw [beq_iff_eq.1 hc]; rfl
      · exact hd
    have hblank : ∀ d, isBlank (if (d == '-') = true then ' ' else d) = false → isBlank d = false := by
      intro d hd
      split at hd
      · exact absurd hd (by decide)
      · exact hd
    refine prefix_bare (fun d hd => hkept d (hsmall _ (List.mem_map_of_mem hd))) (fun d hd => ?_) fun d hd => ?_
    · exact hblank d (hhead _ (by rw [List.head?_map, hd]; rfl))
    · exact hblank d (hlast _ (by rw [List.getLast?_map, hd]; rfl))

/-- A qualitative word at the front of a name is part of it. -/
theorem no_quality {f : Field} (h : fieldAt? Catalog.builtin (u :: more) = some (f, more.length + 1))
    (ht : isWord t = false) {q : Vocabulary.Quality} (hq : Vocabulary.qualities.lookup u.word = some q) :
    quality? Catalog.builtin (u :: (more ++ t :: rest)) q = none := by
  cases hquality : quality? Catalog.builtin (u :: (more ++ t :: rest)) q with
  | none => rfl
  | some r =>
    exfalso
    obtain ⟨g, n, hg, -⟩ := quality?_some hquality
    rw [List.drop_succ_cons, List.drop_zero, fieldAt?_append ht] at hg
    obtain ⟨hne, hname⟩ := bareWords_mem hg
    have hwhole := (bareWords_mem h).2
    rw [List.take_of_length_le (by simp)] at hwhole
    have hname := Catalog.unclaimed_of_mem hname
    have hwhole := Catalog.unclaimed_of_mem hwhole
    obtain ⟨l, r, hl, -⟩ := List.lookup_eq_some_iff.1 hq
    have hmem : (u.word, q) ∈ Vocabulary.qualities := by rw [hl]; simp
    have hword := Catalog.plain_words (List.mem_append_right _ (List.mem_map_of_mem hmem))
    have hmore : more.map (·.word) = (more.take n).map (·.word) ++ (more.drop n).map (·.word) := by
      rw [← List.map_append, List.take_append_drop]
    obtain ⟨tail, hspelling⟩ : ∃ tail, (Text.joined " " ((u :: more).map (·.word))).toList =
        u.word.toList ++ ' ' :: ((Text.joined " " ((more.take n).map (·.word))).toList ++ tail) := by
      have hmap : (more.take n).map (·.word) ≠ [] := by simpa using hne
      rw [List.map_cons, ← List.singleton_append, Text.joined_append " " (List.cons_ne_nil _ _),
        if_neg (by rw [hmore]; exact List.append_ne_nil_of_left_ne_nil hmap _), hmore,
        Text.joined_append " " hmap]
      exact ⟨_, rfl⟩
    have hsmall := hwhole.small
    rw [bareWords, hspelling] at hsmall hwhole
    obtain ⟨zs, hzs⟩ := bare_after_word hword hsmall hname.small
    rw [hzs, List.append_assoc] at hwhole
    have hshort := hwhole.quality _ hmem (List.prefix_append _ _)
    rw [List.drop_left] at hshort
    exact hname.long ⟨zs, hshort⟩

/-- **Names of fields mean fields**: no superlative, phrase or quality takes the words of a name that
a sign follows. -/
theorem readWord_named {f : Field} (h : fieldAt? Catalog.builtin (u :: more) = some (f, more.length + 1))
    (ht : isWord t = false) :
    readWord Catalog.builtin u (u :: (more ++ t :: rest)) = fieldClause f (more.length + 1) (u :: (more ++ t :: rest)) := by
  have hunclaimed := Catalog.unclaimed_of_mem (bareWords_mem h).2
  rw [List.take_of_length_le (by simp)] at hunclaimed
  have hfield : fieldAt? Catalog.builtin (u :: (more ++ t :: rest)) = some (f, more.length + 1) := by
    rw [← List.cons_append, fieldAt?_append ht, h]
  have hphrase : phrase? Catalog.builtin (u :: (more ++ t :: rest)) = none := no_phrase hunclaimed ht
  have hquality : (Vocabulary.qualities.lookup u.word).bind
      (quality? Catalog.builtin (u :: (more ++ t :: rest))) = none := by
    cases hq : Vocabulary.qualities.lookup u.word with
    | none => rfl
    | some q => exact no_quality h ht hq
  rw [readWord, no_superlative hunclaimed, hphrase, hquality, hfield]
  rfl

end Clause
end EquityScreen
