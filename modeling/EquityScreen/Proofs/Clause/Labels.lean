/-
Labels of fields in a row of tokens.

A label is cut into words that mean the field (`fieldAt?_label`), and they still do when the direction of an
order comes next (`fieldAt?_label_direction`): no name of a field goes on with one.
-/
import EquityScreen.Proofs.Catalog.Registration
import EquityScreen.Proofs.Clause.Sectors

namespace EquityScreen

/-- A text in a row is a part of the joined texts. -/
theorem Text.infix_joined (separator : String) {w : String} {ws : List String} (h : w ∈ ws) :
    w.toList <:+: (joined separator ws).toList := by
  obtain ⟨before, after, rfl⟩ := List.append_of_mem h
  have hw : w.toList <:+: (joined separator (w :: after)).toList := by
    rw [← List.singleton_append, joined_append separator (List.cons_ne_nil _ _)]
    exact (List.prefix_append _ _).isInfix
  cases before with
  | nil => exact hw
  | cons v before =>
    rw [joined_append separator (List.cons_ne_nil _ _), if_neg (List.cons_ne_nil _ _)]
    exact (hw.trans (List.suffix_append _ _).isInfix).trans (List.suffix_append _ _).isInfix

namespace Catalog

variable {f : Field} {key : String}

/-- The label of a field is made of words that are cut off as they stand; only that of the sector is a
keyword. -/
theorem spelled_of_label (hf : f ∈ builtinFields) (hk : f.kind ≠ .sector) :
    Text.joined " " (Text.words f.label) = f.label ∧ (∃ w ws, Text.words f.label = w :: ws ∧ Scan.wordContent w.toList = .name) ∧
      (∀ w ∈ Text.words f.label, Scan.isSpelled w.toList = true) ∧ (Text.words f.label).length ≤ Clause.fieldWords := by
  have hall : builtinFields.all (fun f => f.kind == .sector || Text.joined " " (Text.words f.label) == f.label &&
      (Text.words f.label).head?.any (Scan.wordContent ·.toList == .name) &&
      (Text.words f.label).all (fun w => Scan.isSpelled w.toList) &&
      decide ((Text.words f.label).length ≤ Clause.fieldWords)) = true := by decide +kernel
  have h := List.all_eq_true.1 hall f hf
  simp only [Bool.or_eq_true, beq_iff_eq, hk, false_or, Bool.and_eq_true, decide_eq_true_eq] at h
  obtain ⟨⟨⟨hjoined, hfirst⟩, hspelled⟩, hlength⟩ := h
  refine ⟨hjoined, ?_, List.all_eq_true.1 hspelled, hlength⟩
  cases hwords : Text.words f.label with
  | nil => rw [hwords] at hfirst; exact absurd hfirst (by simp)
  | cons w ws => exact ⟨w, ws, rfl, by simpa [hwords] using hfirst⟩

/-- A label in lower case is a label but for the case, and no blank one. -/
theorem label_lower (hf : f ∈ builtinFields) :
    Text.isBlankText (Text.joined " " ((Text.words f.label).map Text.lower)) = false ∧
      squeezeChars (Text.joined " " ((Text.words f.label).map Text.lower)).toList = squeezeChars f.label.toList := by
  have hall : builtinFields.all (fun f => !Text.isBlankText (Text.joined " " ((Text.words f.label).map Text.lower)) &&
      squeezeChars (Text.joined " " ((Text.words f.label).map Text.lower)).toList == squeezeChars f.label.toList) = true := by
    decide +kernel
  simpa using List.all_eq_true.1 hall f hf

end Catalog

namespace Clause

variable {ts rest : List Token} {t : Token} {f : Field} {key : String}

/-- **The longest name** is that of the first words that mean something if no more words do. -/
theorem longest?_eq_some {α : Type} {meaning? : String → Option α} {most n : Nat} {ws : List String} {a : α} (hn : 0 < n)
    (hmost : n ≤ most) (hws : words? ts n = some ws) (ha : meaning? (Text.joined " " ws) = some a)
    (hlonger : ∀ m more, n < m → words? ts m = some more → meaning? (Text.joined " " more) = none) :
    longest? most meaning? ts = some (a, n) := by
  have hat : ∀ m, n < m → (do let ws ← words? ts m; let a ← meaning? (Text.joined " " ws); return (a, m)) = none := by
    intro m hm
    cases hmore : words? ts m with
    | none => rfl
    | some more => simp [hlonger m more hm hmore]
  unfold longest?
  induction most with
  | zero => omega
  | succ most ih =>
    rw [countdown, List.findSome?_cons]
    rcases Nat.lt_or_ge most n with hlt | hle
    · rw [show most + 1 = n by omega, hws]
      simp [ha]
    · rw [hat (most + 1) (by omega)]
      exact ih hle

/-- Words in a row are words, the first of them an ordinary one. -/
theorem words?_length (hname : ∀ u ∈ ts.head?, u.isName = true) (hts : ∀ u ∈ ts, isWord u = true) (hne : ts ≠ []) :
    words? ts ts.length = some (ts.map (·.word)) := by
  obtain ⟨u, more, rfl⟩ := List.exists_cons_of_ne_nil hne
  rw [List.forall_mem_cons] at hts
  have hmore : more.all (fun v => v.isName || words?.isKeywordToken v) = true := List.all_eq_true.2 hts.2
  rw [words?, List.take_length]
  dsimp only
  rw [hname u rfl, hmore, List.length_cons]
  simp

/-- A token that says a word is one, and it is looked up by the word in lower case. -/
theorem isWord_of_said {w : String} (h : t.said = Scan.wordSaid w) : isWord t = true ∧ t.word = Text.lower w := by
  obtain ⟨hcontent, htext⟩ := Prod.mk.inj h
  refine ⟨?_, by rw [Token.word, htext]⟩
  unfold Scan.wordContent at hcontent
  split at hcontent <;> simp [isWord, Token.isName, words?.isKeywordToken, hcontent]

theorem words_of_said {ws : List String} (h : ts.map Token.said = ws.map Scan.wordSaid) :
    (∀ u ∈ ts, isWord u = true) ∧ ts.map (·.word) = ws.map Text.lower := by
  induction ts generalizing ws with
  | nil =>
    rw [List.map_eq_nil_iff.1 h.symm]
    exact ⟨nofun, rfl⟩
  | cons t ts ih =>
    obtain ⟨w, ws', rfl, hw, hws⟩ := List.map_eq_cons_iff.1 h.symm
    obtain ⟨hword, hlower⟩ := isWord_of_said hw.symm
    obtain ⟨hwords, hlowers⟩ := ih hws.symm
    exact ⟨List.forall_mem_cons.2 ⟨hword, hwords⟩, by rw [List.map_cons, List.map_cons, hlower, hlowers]⟩

/-- A label means its field. -/
theorem fieldNamed?_label (hf : Catalog.builtin.field? key = some f) :
    fieldNamed? Catalog.builtin (Text.joined " " ((Text.words f.label).map Text.lower)) = some f := by
  have hmem : f ∈ Catalog.builtinFields := Catalog.fields_ofFields Catalog.builtinFields ▸ Catalog.mem_fields_of_field? hf
  obtain ⟨hvisible, hletters⟩ := Catalog.label_lower hmem
  have hlabel : f.label ∈ f.key :: f.label :: f.aliases := by simp
  have hresolve : Catalog.builtin.resolve? (Text.joined " " ((Text.words f.label).map Text.lower)) = some f.key := by
    rw [Catalog.builtin_eq, Catalog.apart_builtin.resolve?_eq hvisible, hletters,
      Catalog.apart_builtin.find?_eq hmem (FieldInfo.mem_bareNames hlabel)]
    rfl
  have hkey : f.key ≠ "" := Catalog.apart_builtin.keys f hmem
  simp [fieldNamed?, hresolve, hkey, Catalog.field?_key hf]

/-- The words of a label, in any case, mean its field in a row of tokens. -/
theorem fieldAt?_label_words (hf : Catalog.builtin.field? key = some f) (hne : ts ≠ []) (hlength : ts.length ≤ fieldWords)
    (hwords : words? ts ts.length = some ((Text.words f.label).map Text.lower)) :
    fieldAt? Catalog.builtin ts = some (f, ts.length) := by
  refine longest?_eq_some (List.length_pos_iff.2 hne) hlength hwords (fieldNamed?_label hf) fun m more hm hmore => ?_
  exact absurd (length_le_of_words? hmore) (Nat.not_le.2 hm)

variable (hf : Catalog.builtin.field? key = some f) (hk : f.kind ≠ .sector)
  (hts : ts.map Token.said = (Text.words f.label).map Scan.wordSaid)
include hf hk hts

theorem label_tokens : ts ≠ [] ∧ ts.length ≤ fieldWords ∧ words? ts ts.length = some ((Text.words f.label).map Text.lower) := by
  have hmem : f ∈ Catalog.builtinFields := Catalog.fields_ofFields Catalog.builtinFields ▸ Catalog.mem_fields_of_field? hf
  obtain ⟨-, ⟨w, ws, hwords, hname⟩, -, hlength⟩ := Catalog.spelled_of_label hmem hk
  obtain ⟨hall, hlower⟩ := words_of_said hts
  have hlengths := congrArg List.length hts
  rw [List.length_map, List.length_map] at hlengths
  rw [hwords] at hts
  obtain ⟨t, more, rfl, ht, -⟩ := List.map_eq_cons_iff.1 hts
  have hfirst : ∀ u ∈ (t :: more).head?, u.isName = true := by
    intro u hu
    rw [← Option.some.inj hu, Token.isName, show t.content = .name from (Prod.mk.inj ht).1.trans hname]
    rfl
  exact ⟨List.cons_ne_nil _ _, hlengths ▸ hlength, hlower ▸ words?_length hfirst hall (List.cons_ne_nil _ _)⟩

/-- **A label means its field** in a row of tokens. -/
theorem fieldAt?_label : fieldAt? Catalog.builtin ts = some (f, ts.length) := by
  obtain ⟨hne, hlength, hwords⟩ := label_tokens hf hk hts
  exact fieldAt?_label_words hf hne hlength hwords

/-- **A label means its field** also where a direction comes next. -/
theorem fieldAt?_label_direction {d : Direction} (ht : t.said = Scan.wordSaid d.word) (rest : List Token) :
    fieldAt? Catalog.builtin (ts ++ t :: rest) = some (f, ts.length) := by
  obtain ⟨hne, hlength, hwords⟩ := label_tokens hf hk hts
  have hwords' : words? (ts ++ t :: rest) ts.length = some ((Text.words f.label).map Text.lower) := by
    rw [← hwords, words?, List.take_append_of_le_length (Nat.le_refl _), words?]
  refine longest?_eq_some (List.length_pos_iff.2 hne) hlength hwords' (fieldNamed?_label hf) fun m more hm hmore => ?_
  obtain ⟨k, rfl⟩ := Nat.exists_eq_add_of_lt hm
  obtain ⟨u, vs, htake, -, -, -, rfl⟩ := words?_some hmore
  -- The words hold the direction, and no name of a field does.
  have hdirection : (Text.lower d.word) ∈ (u :: vs).map (·.word) := by
    rw [← htake, Nat.add_assoc, List.take_length_add_append, List.take_succ_cons, ← (isWord_of_said ht).2]
    exact List.mem_map_of_mem (List.mem_append_right _ List.mem_cons_self)
  have hend : "scending".toList <:+: (Text.lower d.word).toList := by
    refine ⟨(Text.lower d.word).toList.take ((Text.lower d.word).toList.length - 8), [], ?_⟩
    cases d <;> decide
  have hbare := infix_bare (hend.trans (Text.infix_joined " " hdirection)) (List.all_eq_true.1 (by decide))
    fun c hc => by simpa using List.all_eq_true.1 (show "scending".toList.all (!isSeparator ·) = true by decide) c hc
  unfold fieldNamed?
  cases hresolve : Catalog.builtin.resolve? (Text.joined " " ((u :: vs).map (·.word))) with
  | none => rfl
  | some key =>
    rw [Catalog.builtin_eq] at hresolve
    exact absurd hbare (Catalog.unclaimed_of_mem (Catalog.resolve?_bare hresolve)).undirected

end Clause
end EquityScreen
