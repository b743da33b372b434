/-
How a text is spelled.

A text spells tokens when it is cut into them wherever something follows that closes what stands before it
(`Spells`). Words in a row, comparison signs, numbers and quoted phrases spell theirs, and texts with a
blank or a comma between them, or parentheses around them, spell what their parts do. So what a longer
text is cut into is read off the way it was put together.
-/
import EquityScreen.Proofs.Token.Numbers

namespace EquityScreen

/-- The words of a text. -/
def Text.words (s : String) : List String := (Text.splitWords s.toList).map String.ofList

namespace Scan

open Text

variable {cs cs' rest : List Char} {c : Char} {said said' : List (Content × String)}

/-! ## Punctuation -/

/-- The letters that a comparison in words begins with. -/
def phraseInitials : List Char := ['g', 'l', 'n', 'h', 'f', 'm', 'e', 'a', 'b', 'u', 'o']

/-- No comparison in words begins with a sign. -/
theorem phrase?_of_sign (hc : foldLetter c ∉ phraseInitials) : phrase? (c :: cs) = none := by
  have hfirst : ∀ p ∈ Operator.phrases, ∀ x ∈ (splitWords p.1.toList).head?, x.head?.any phraseInitials.contains = true := by
    decide
  exact phrase?_eq_none fun p hp x hx => readWord?_of_initial hc (hfirst p hp x hx)

/-- A point or a minus sign that begins no number is passed over. -/
theorem Cuts.idle (h : Cuts rest said) (hc : c ∈ ['.', '-']) (hnumeral : Numeral.afterNumeral (c :: rest) = []) :
    Cuts (c :: rest) said := by
  refine h.skip fun before => ?_
  have hidle := List.all_eq_true.1 (show ['.', '-'].all (fun c => !isBlank c &&
    !(['\x22', '“', '\x27', '$', '₹'].contains c) && !(['r', 'i'].contains (foldLetter c)) &&
    !signInitials.contains c && !phraseInitials.contains (foldLetter c) &&
    !isNameChar c) = true by decide) c hc
  simp only [Bool.and_eq_true, Bool.not_eq_true', List.contains_eq_mem, decide_eq_false_iff_not] at hidle
  obtain ⟨⟨⟨⟨⟨hblank, hopener⟩, hletter⟩, hsign⟩, hphrase⟩, hname⟩ := hidle
  have hquote : c ∉ ['\x22', '“', '\x27'] := fun h => hopener (mem_of_all (by decide) h)
  have hcurrency : c ∉ ['$', '₹'] := fun h => hopener (mem_of_all (by decide) h)
  have hfound : Numeral.find? (c :: rest) = none :=
    find?_eq_none (by simp [afterCurrency_eq_nil hcurrency hletter]) (by simp [hnumeral])
  have hword : word? (c :: rest) = none := by simp [word?, hname]
  have hmark : punctuation? (c :: rest) = none := by
    simp only [List.mem_cons, List.not_mem_nil, or_false] at hc
    rcases hc with rfl | rfl <;> rfl
  rw [piece?_of_opener hblank hquote hfound, sign?_eq_none hsign, phrase?_of_sign hphrase, hword, hmark]
  rfl

/-- What punctuation is cut into. -/
theorem piece?_of_mark {before : Option Char} (hc : c ∈ [',', '(', ')', '&']) :
    piece? before (c :: cs) = punctuation? (c :: cs) := by
  have hfacts := List.all_eq_true.1 (show [',', '(', ')', '&'].all (fun c => punctuation.contains c &&
    !signInitials.contains c && !phraseInitials.contains (foldLetter c) && !isNameChar c) = true by decide) c hc
  simp only [Bool.and_eq_true, Bool.not_eq_true', List.contains_eq_mem, decide_eq_false_iff_not, decide_eq_true_eq] at hfacts
  obtain ⟨⟨⟨hpunctuation, hsign⟩, hphrase⟩, hname⟩ := hfacts
  have hword : word? (c :: cs) = none := by simp [word?, hname]
  rw [piece?_of_punctuation hpunctuation, sign?_eq_none hsign, phrase?_of_sign hphrase, hword]
  rfl

theorem begins_comma : Begins [','] rest (some .comma) := ⟨by simp, fun _ => piece?_of_mark (by decide)⟩

theorem begins_openParen : Begins ['('] rest (some .openParen) := ⟨by simp, fun _ => piece?_of_mark (by decide)⟩

theorem begins_closeParen : Begins [')'] rest (some .closeParen) := ⟨by simp, fun _ => piece?_of_mark (by decide)⟩

/-- An ampersand on its own is a word. -/
theorem begins_ampersand (hrest : Stops rest) : Begins ['&'] rest (some (wordContent ['&'])) := by
  refine ⟨by simp, fun _ => (piece?_of_mark (by decide)).trans ?_⟩
  cases rest with
  | nil => rfl
  | cons c rest =>
    have hc : c ≠ '&' := by
      rintro rfl
      exact absurd (hrest '&' rfl) (by decide)
    simp [punctuation?, hc]

/-- A phrase between quotes is what stands between them, without blanks at its ends. -/
theorem begins_quoted {inner : List Char} (h : '\x22' ∉ inner) :
    Begins ('\x22' :: (inner ++ ['\x22'])) rest (some (.quoted (String.ofList (trimChars inner)))) := by
  refine ⟨List.cons_ne_nil _ _, fun before => ?_⟩
  have hinner : ∀ c ∈ inner, (c != '\x22') = true := fun c hc => by
    rw [bne_iff_ne]
    rintro rfl
    exact h hc
  have hupTo : upTo? '\x22' (inner ++ ['\x22'] ++ rest) = some (inner, rest) := by
    rw [List.append_assoc, List.singleton_append, upTo?, List.dropWhile_append_of_pos hinner,
      List.takeWhile_append_of_pos hinner]
    simp
  have hblanks : blanks? ('\x22' :: (inner ++ ['\x22'] ++ rest)) = none := by
    rw [blanks?, if_neg (by decide)]
  have hquoted : quoted? before ('\x22' :: (inner ++ ['\x22'] ++ rest)) = some (phrasePiece inner rest) := by
    simp only [quoted?, hupTo, Option.map_some]
  rw [List.cons_append, piece?, hblanks, hquoted]
  rfl

/-! ## Spelling -/

/-- The text begins with something other than a blank. -/
def Visible (cs : List Char) : Prop := ∃ c more, cs = c :: more ∧ isBlank c = false

/-- The conjunction goes by no other word than its own, and the word is no request. -/
structure Plainly (x : Content × String) : Prop where
  conjunction : x.1 = .keyword .and → x.2 = "and"
  no_help : x.1 ≠ .keyword .help
  no_clear : x.1 ≠ .keyword .clear

/-- Whatever closes it, the text is cut into tokens that say this. -/
structure Spells (cs : List Char) (said : List (Content × String)) : Prop where
  visible : Visible cs
  plainly : ∀ x ∈ said, Plainly x
  cuts : ∀ {rest more}, Closes rest → Cuts rest more → Cuts (cs ++ rest) (said ++ more)

theorem Cuts.blank_visible (h : Cuts (cs ++ rest) said) (hcs : Visible cs) : Cuts (' ' :: (cs ++ rest)) said := by
  obtain ⟨c, more, rfl, hc⟩ := hcs
  exact h.blank hc

/-- A piece that is cut off before whatever closes it spells its token. -/
theorem Spells.of_begins {content : Content} (hcs : Visible cs) (hplain : Plainly (content, String.ofList cs))
    (h : ∀ {rest}, Closes rest → Begins cs rest (some content)) : Spells cs [(content, String.ofList cs)] :=
  ⟨hcs, fun _ hx => List.mem_singleton.1 hx ▸ hplain, fun hrest hcuts => hcuts.cons (h hrest)⟩

theorem spells_number (negative : Bool) {ds fs : List Char} (hds : Digits ds) (hne : ds ≠ []) (hfs : Digits fs)
    {u : Option UnitMark} (hu : ∀ s, u ≠ some (.other s)) :
    Spells (numeralChars negative ds fs ++ markChars u)
      [(.number ⟨negative, digitsValue (ds ++ fs), -(fs.length : Int)⟩ u false,
        String.ofList (numeralChars negative ds fs ++ markChars u))] := by
  refine .of_begins ?_ ⟨nofun, nofun, nofun⟩ fun hrest => begins_number negative hds hne hfs hu hrest
  obtain ⟨c, cs, hcs, hc⟩ := numeralChars_cons negative fs hds hne
  exact ⟨c, cs ++ markChars u, by rw [hcs, List.cons_append], (numeral_first hc).1⟩

theorem spells_quoted {inner : List Char} (h : '\x22' ∉ inner) :
    Spells ('\x22' :: (inner ++ ['\x22'])) [(.quoted (String.ofList (trimChars inner)),
      String.ofList ('\x22' :: (inner ++ ['\x22'])))] :=
  .of_begins ⟨_, _, rfl, by decide⟩ ⟨nofun, nofun, nofun⟩ fun _ => begins_quoted h

/-! ## Words in a row -/

/-- A word that is cut off as it stands, no request and no other word for the conjunction. -/
def isSpelled (w : List Char) : Bool :=
  w.head?.any (!isBlank ·) && (isPlain w || isNumbered w || w == ['&']) &&
    match wordContent w with
    | .keyword .and => w == "and".toList
    | .keyword .help | .keyword .clear => false
    | _ => true

/-- What a word says. -/
def wordSaid (w : String) : Content × String := (wordContent w.toList, w)

theorem begins_spelled {w : List Char} (hw : isSpelled w = true) (hrest : Stops rest) :
    Begins w rest (some (wordContent w)) := by
  simp only [isSpelled, Bool.and_eq_true, Bool.or_eq_true] at hw
  rcases hw.1.2 with (h | h) | h
  · exact begins_word h hrest
  · exact begins_numbered h hrest
  · rw [beq_iff_eq.1 h]
    exact begins_ampersand hrest

theorem visible_of_isSpelled {w : List Char} (hw : isSpelled w = true) : Visible w := by
  simp only [isSpelled, Bool.and_eq_true] at hw
  cases w with
  | nil => exact absurd hw.1.1 (by simp)
  | cons c w => exact ⟨c, w, rfl, by simpa using hw.1.1⟩

theorem plainly_of_isSpelled {w : String} (hw : isSpelled w.toList = true) : Plainly (wordSaid w) := by
  rw [isSpelled, Bool.and_eq_true] at hw
  unfold wordSaid
  generalize wordContent w.toList = content at hw ⊢
  refine ⟨?_, ?_, ?_⟩
  · rintro rfl
    exact String.toList_inj.1 (eq_of_beq hw.2)
  · rintro rfl
    exact absurd hw.2 Bool.false_ne_true
  · rintro rfl
    exact absurd hw.2 Bool.false_ne_true

theorem spells_word {w : String} (hw : isSpelled w.toList = true) : Spells w.toList [wordSaid w] := by
  have hplain := plainly_of_isSpelled hw
  have h := Spells.of_begins (visible_of_isSpelled hw) (by rwa [String.ofList_toList]) fun hrest => begins_spelled hw hrest.stops
  rwa [String.ofList_toList] at h

theorem Visible.append (h : Visible cs) (rest : List Char) : Visible (cs ++ rest) := by
  obtain ⟨c, more, rfl, hc⟩ := h
  exact ⟨c, more ++ rest, rfl, hc⟩

/-- A word more in front. -/
theorem Spells.cons_word (h : Spells cs said) {w : String} (hw : isSpelled w.toList = true) :
    Spells (w.toList ++ ' ' :: cs) (wordSaid w :: said) := by
  refine ⟨(visible_of_isSpelled hw).append _, List.forall_mem_cons.2 ⟨plainly_of_isSpelled hw, h.plainly⟩,
    fun hrest hcuts => ?_⟩
  have hword := ((h.cuts hrest hcuts).blank_visible h.visible).cons (begins_spelled hw (stops_cons (by decide)))
  rw [String.ofList_toList] at hword
  rwa [List.append_assoc, List.cons_append]

/-- Words in front. -/
theorem Spells.append_words (h : Spells cs said) {ws : List String} (hne : ws ≠ [])
    (hws : ∀ w ∈ ws, isSpelled w.toList = true) :
    Spells ((joined " " ws).toList ++ ' ' :: cs) (ws.map wordSaid ++ said) := by
  induction ws with
  | nil => exact absurd rfl hne
  | cons w ws ih =>
    rw [List.forall_mem_cons] at hws
    cases ws with
    | nil => exact h.cons_word hws.1
    | cons w' ws =>
      have hmore := (ih (by simp) hws.2).cons_word hws.1
      rw [joined_cons_cons, String.toList_append, String.toList_append, List.append_assoc, List.append_assoc]
      exact hmore

theorem spells_words {ws : List String} (hne : ws ≠ []) (hws : ∀ w ∈ ws, isSpelled w.toList = true) :
    Spells (joined " " ws).toList (ws.map wordSaid) := by
  induction ws with
  | nil => exact absurd rfl hne
  | cons w ws ih =>
    rw [List.forall_mem_cons] at hws
    cases ws with
    | nil => exact spells_word hws.1
    | cons w' ws =>
      have hmore := (ih (by simp) hws.2).cons_word hws.1
      rw [joined_cons_cons, String.toList_append, String.toList_append, List.append_assoc]
      exact hmore

/-! ## Putting texts together -/

/-- A comparison sign in front. -/
theorem Spells.cons_sign (h : Spells cs said) {op : Operator} (hop : op ≠ .between) :
    Spells (op.sign.toList ++ ' ' :: cs) ((.compare op, op.sign) :: said) := by
  refine ⟨?_, List.forall_mem_cons.2 ⟨⟨nofun, nofun, nofun⟩, h.plainly⟩, fun hrest hcuts => ?_⟩
  · cases op with
    | between => exact absurd rfl hop
    | _ => exact ⟨_, _, by simp only [Operator.sign]; rfl, by decide⟩
  · rw [List.append_assoc, List.cons_append]
    exact ((h.cuts hrest hcuts).blank_visible h.visible).sign hop

/-- A text after a blank, which a number before the blank cannot take for its mark. -/
theorem Spells.space (h : Spells cs said) (h' : Spells cs' said')
    (hc : ∀ c ∈ cs'.head?, c ≠ '%' ∧ foldLetter c ∉ markInitials) : Spells (cs ++ ' ' :: cs') (said ++ said') := by
  refine ⟨h.visible.append _, List.forall_mem_append.2 ⟨h.plainly, h'.plainly⟩, fun hrest hcuts => ?_⟩
  have hcuts := (h'.cuts hrest hcuts).blank_visible h'.visible
  obtain ⟨c, more, rfl, hblank⟩ := h'.visible
  obtain ⟨hpercent, hmark⟩ := hc c rfl
  rw [List.append_assoc, List.append_assoc, List.cons_append]
  exact h.cuts (.blank _ hblank hpercent hmark) hcuts

/-- A text after a comma. -/
theorem Spells.comma (h : Spells cs said) (h' : Spells cs' said') :
    Spells (cs ++ ',' :: ' ' :: cs') (said ++ (.comma, ",") :: said') := by
  refine ⟨h.visible.append _, List.forall_mem_append.2 ⟨h.plainly, List.forall_mem_cons.2 ⟨⟨nofun, nofun, nofun⟩, h'.plainly⟩⟩,
    fun hrest hcuts => ?_⟩
  have hcomma := ((h'.cuts hrest hcuts).blank_visible h'.visible).cons begins_comma
  rw [List.append_assoc, List.append_assoc, List.cons_append]
  exact h.cuts (.comma _) hcomma

/-- Parentheses around a text. -/
theorem Spells.parens (h : Spells cs said) :
    Spells ('(' :: (cs ++ [')'])) ((.openParen, "(") :: (said ++ [(.closeParen, ")")])) := by
  refine ⟨⟨_, _, rfl, by decide⟩, List.forall_mem_cons.2 ⟨⟨nofun, nofun, nofun⟩, List.forall_mem_append.2
    ⟨h.plainly, List.forall_mem_singleton.2 ⟨nofun, nofun, nofun⟩⟩⟩, fun hrest hcuts => ?_⟩
  have hinner := h.cuts (.paren _) (hcuts.cons begins_closeParen)
  have houter := hinner.cons begins_openParen
  simpa using houter

/-- The end of a text closes it. -/
theorem Spells.all (h : Spells cs said) : Cuts cs said := by
  have hcuts := h.cuts .nil cuts_nil
  rwa [List.append_nil, List.append_nil] at hcuts

end Scan
end EquityScreen
