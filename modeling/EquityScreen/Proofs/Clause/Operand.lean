/-
What the reading of an ordinary word can give. Each reading is told apart once
(`readWord_cases`); everything that is said of all readings of a word goes through it.

* `readWord_isOperand`: the clause at a word is a filter with a complement, a list of sectors, an
  order, or nothing that filters; never a connective, a limit, or another exclusion.
-/
import EquityScreen.Clause.Read
import EquityScreen.Proofs.Outcome
import EquityScreen.Proofs.Predicate.Negation

namespace EquityScreen
namespace Clause

variable {c : Catalog} {t : Token} {ts : List Token} {r : Clause × Nat}

/-! ## The readings of a word -/

/-- The readings of a word, in the order in which they are tried: where one from a qualitative word or phrase
is not the one taken, it was tried in vain. -/
theorem readWord_tried {P : Clause × Nat → Prop}
    (hs : ∀ d r, Vocabulary.superlatives.lookup t.word = some d → superlative? c d ts = some r → P r)
    (hp : ∀ r, phrase? c ts = some r → P r)
    (hq : ∀ q r, phrase? c ts = none → Vocabulary.qualities.lookup t.word = some q → quality? c ts q = some r → P r)
    (hf : ∀ f n, phrase? c ts = none → (Vocabulary.qualities.lookup t.word).bind (quality? c ts) = none →
      fieldAt? c ts = some (f, n) → P (fieldClause f n ts))
    (hw : phrase? c ts = none → (Vocabulary.qualities.lookup t.word).bind (quality? c ts) = none →
      P (plainWord t ts)) :
    P (readWord c t ts) := by
  unfold readWord
  cases hsuperlative : (Vocabulary.superlatives.lookup t.word).bind (superlative? c · ts) with
  | some r =>
    obtain ⟨d, hd, hr⟩ := Option.bind_eq_some_iff.1 hsuperlative
    exact hs d r hd hr
  | none =>
    cases hphrase : phrase? c ts with
    | some r => exact hp r hphrase
    | none =>
      cases hquality : (Vocabulary.qualities.lookup t.word).bind (quality? c ts) with
      | some r =>
        obtain ⟨q, hlookup, hr⟩ := Option.bind_eq_some_iff.1 hquality
        exact hq q r hphrase hlookup hr
      | none =>
        cases hfield : fieldAt? c ts with
        | some named => exact hf named.1 named.2 hphrase hquality hfield
        | none => exact hw hphrase hquality

/-- **The readings of a word.** -/
theorem readWord_cases {P : Clause × Nat → Prop} (hs : ∀ d r, superlative? c d ts = some r → P r)
    (hp : ∀ r, phrase? c ts = some r → P r) (hq : ∀ q r, quality? c ts q = some r → P r)
    (hf : ∀ f n, fieldAt? c ts = some (f, n) → P (fieldClause f n ts)) (hw : P (plainWord t ts)) :
    P (readWord c t ts) :=
  readWord_tried (fun d r _ => hs d r) hp (fun q r _ _ => hq q r) (fun f n _ _ => hf f n) fun _ _ => hw

theorem superlative?_some {d : Direction} (h : superlative? c d ts = some r) :
    ∃ o n, r = (.order o, n + 1) := by
  unfold superlative? at h
  dsimp only at h
  split at h
  · next o n _ => exact ⟨_, n, (Option.some.inj h).symm⟩
  · simp only [Option.map_eq_some_iff] at h
    obtain ⟨⟨f, n⟩, -, rfl⟩ := h
    exact ⟨_, n, rfl⟩

/-- The terms that a phrase stands for are listed with it. -/
theorem mem_phrases_of_phrase? {s : String} {terms : List Vocabulary.PhraseTerm}
    (h : Vocabulary.phrase? s = some terms) : ∃ names, (names, terms) ∈ Vocabulary.phrases := by
  simp only [Vocabulary.phrase?, Option.map_eq_some_iff] at h
  obtain ⟨⟨names, _⟩, hfind, rfl⟩ := h
  exact ⟨names, List.mem_of_find?_eq_some hfind⟩

theorem one_le_of_mem_countdown {most n : Nat} (h : n ∈ countdown most) : 1 ≤ n := by
  induction most with
  | zero => exact absurd h (List.not_mem_nil)
  | succ m ih =>
    rcases List.mem_cons.1 h with rfl | h
    · exact Nat.succ_pos m
    · exact ih h

/-- What is found in a countdown is found at some number of words. -/
theorem exists_of_countdown {α : Type} {most : Nat} {found? : Nat → Option α} {a : α}
    (h : (countdown most).findSome? found? = some a) : ∃ n, 1 ≤ n ∧ found? n = some a := by
  obtain ⟨_, n, _, hcountdown, hn, -⟩ := List.findSome?_eq_some_iff.1 h
  exact ⟨n, one_le_of_mem_countdown (by rw [hcountdown]; simp), hn⟩

/-- What the longest row of words with a meaning means. -/
theorem longest?_spec {α : Type} {most n : Nat} {meaning? : String → Option α} {a : α}
    (h : longest? most meaning? ts = some (a, n)) :
    1 ≤ n ∧ ∃ ws, words? ts n = some ws ∧ meaning? (Text.joined " " ws) = some a := by
  obtain ⟨m, hm, hfound⟩ := exists_of_countdown h
  simp only [Option.bind_eq_bind, Option.bind_eq_some_iff, Option.pure_def, Option.some.injEq,
    Prod.mk.injEq] at hfound
  obtain ⟨ws, hws, b, hb, rfl, rfl⟩ := hfound
  exact ⟨hm, ws, hws, hb⟩

theorem longest?_some {α : Type} {most n : Nat} {meaning? : String → Option α} {a : α}
    (h : longest? most meaning? ts = some (a, n)) :
    ∃ ws, words? ts n = some ws ∧ meaning? (Text.joined " " ws) = some a :=
  (longest?_spec h).2

/-- What the longest term for a sector stands for. -/
theorem sectorAt?_spec {anchored : Bool} {name : String} {n : Nat} (h : sectorAt? ts anchored = some (name, n)) :
    1 ≤ n ∧ ∃ term, sectorTerm? ts n = some term ∧
      Sector.resolve? term (anchored || anchorNext (ts.drop n)) = some name := by
  obtain ⟨m, hm, hfound⟩ := exists_of_countdown h
  simp only [Option.bind_eq_bind, Option.bind_eq_some_iff, Option.pure_def, Option.some.injEq,
    Prod.mk.injEq] at hfound
  obtain ⟨term, hterm, sector, hsector, rfl, rfl⟩ := hfound
  exact ⟨hm, term, hterm, hsector⟩

theorem phrase?_some (h : phrase? c ts = some r) :
    ∃ names terms n p, (names, terms) ∈ Vocabulary.phrases ∧
      Vocabulary.termsPredicate? c terms = some p ∧
      r = (.heuristic (Token.joinedText (ts.take n)) p, n) := by
  simp only [phrase?, Option.bind_eq_bind, Option.bind_eq_some_iff] at h
  obtain ⟨⟨terms, n⟩, hterms, h⟩ := h
  split at h
  · exact absurd h (by simp)
  · simp only [Option.bind_eq_some_iff, Option.pure_def, Option.some.injEq] at h
    obtain ⟨p, hp, rfl⟩ := h
    obtain ⟨ws, -, hws⟩ := longest?_some hterms
    obtain ⟨names, hmem⟩ := mem_phrases_of_phrase? hws
    exact ⟨names, terms, n, p, hmem, hp, rfl⟩

theorem quality?_some {q : Vocabulary.Quality} (h : quality? c ts q = some r) :
    ∃ f n, fieldAt? c (ts.drop 1) = some (f, n) ∧
      ((∃ op threshold, q.operator? f = some op ∧ f.threshold = some threshold ∧
        r = (.heuristic (Token.joinedText (ts.take (n + 1)))
          (.compare ⟨f.key, op, .number threshold⟩), n + 1)) ∨
      ∃ reason, r = skip ts (n + 1) reason) := by
  simp only [quality?, Option.bind_eq_bind, Option.bind_eq_some_iff] at h
  obtain ⟨⟨f, n⟩, hf, h⟩ := h
  refine ⟨f, n, hf, ?_⟩
  split at h
  · exact absurd h (by simp)
  · split at h
    · next op threshold hop hthreshold =>
      simp only [Option.pure_def, Option.some.injEq] at h
      exact .inl ⟨op, threshold, hop, hthreshold, h.symm⟩
    · simp only [Option.pure_def, Option.some.injEq] at h
      exact .inr ⟨_, h.symm⟩

theorem fieldClause_cases (f : Field) (n : Nat) (ts : List Token) :
    (∃ op, (∃ t more, ts.drop n = t :: more ∧ t.content = .compare op) ∧
        fieldClause f n ts = readComparison f n op ts) ∨
      (∃ d, fieldClause f n ts = (.order ⟨f.key, d⟩, n + 1)) ∨
      ∃ reason, fieldClause f n ts = skip ts n reason := by
  unfold fieldClause
  split
  · exact .inr (.inr ⟨_, rfl⟩)
  · next t more hmore =>
    split
    · next ht => exact .inl ⟨_, ⟨t, more, hmore, ht⟩, rfl⟩
    · exact .inr (.inl ⟨_, rfl⟩)
    · exact .inr (.inl ⟨_, rfl⟩)
    · exact .inr (.inr ⟨_, rfl⟩)

theorem readComparison_cases (f : Field) (n : Nat) (op : Operator) (ts : List Token) :
    (∃ p used, readFilter f op (ts.drop (n + 1)) = .ok (p, used) ∧
      readComparison f n op ts = (.filter p, n + 1 + used)) ∨
    (∃ e broken used, readFilter f op (ts.drop (n + 1)) = .error e ∧ e.breakdown? = some broken ∧
      readComparison f n op ts = (.breakdown broken, n + 1 + used)) ∨
    ∃ e used, readFilter f op (ts.drop (n + 1)) = .error e ∧ e.breakdown? = none ∧
      readComparison f n op ts =
        (.skipped ⟨Token.joinedText (ts.take (n + 1 + used)), e.message⟩, n + 1 + used) := by
  unfold readComparison
  dsimp only
  split
  · next p used h => exact .inl ⟨p, used, h, rfl⟩
  · next e h =>
    split
    · next broken hb => exact .inr (.inl ⟨e, broken, _, h, hb, rfl⟩)
    · next hb => exact .inr (.inr ⟨e, _, h, hb, rfl⟩)

/-- A number or a quoted text. -/
def isValue (t : Token) : Bool :=
  match t.content with
  | .number .. | .quoted _ => true
  | _ => false

theorem badValueLength_eq (ts : List Token) : badValueLength ts =
    if (ts.takeWhile isValue).length = 0 then (match ts with | t :: _ => if t.isName then 1 else 0 | [] => 0)
    else (ts.takeWhile isValue).length := by
  simp only [badValueLength, List.isEmpty_iff_length_eq_zero]
  rfl

theorem plainWord_cases (t : Token) (ts : List Token) :
    (∃ n, (sectorList ts false) = ((sectorList ts false).1, n) ∧ (sectorList ts false).1 ≠ [] ∧
      plainWord t ts = (.sectors (sectorList ts false).1 (orAhead (ts.drop n)), n)) ∨
    plainWord t ts = (.filler, 1) ∨ plainWord t ts = skip ts 1 "unrecognized term" := by
  unfold plainWord
  split
  · split
    · exact .inr (.inl rfl)
    · exact .inr (.inr rfl)
  · next names n hne heq =>
    rw [heq]
    exact .inl ⟨n, rfl, hne, rfl⟩

/-! ## Filters of a word have a complement -/

theorem reversible_range (f : Field) (a b : Number) : (range f a b).Reversible := by
  unfold range
  split
  exact Predicate.Reversible.conjoin (by simp [Predicate.Reversible]) (by simp [Predicate.Reversible])

theorem reversible_comparison {f : Field} {op : Operator} {v : Value} (h : op ≠ .between) :
    (comparison f op v).Reversible := by
  unfold comparison
  split
  · split <;> trivial
  · exact h

theorem readFilter_reversible {f : Field} {op : Operator} {p : Predicate} {n : Nat}
    (h : readFilter f op ts = .ok (p, n)) : p.Reversible := by
  unfold readFilter at h
  split at h
  · simp only [readBetween, Except.bind_ok_iff] at h
    obtain ⟨⟨first, m⟩, -, ⟨last, k⟩, -, h⟩ := h
    split at h
    · simp only [Except.pure_ok_iff, Prod.mk.injEq] at h
      exact h.1 ▸ reversible_range ..
    · exact absurd h (by simp [throw, throwThe, MonadExceptOf.throw])
  · next hop =>
    simp only [Except.bind_ok_iff] at h
    obtain ⟨⟨v, m⟩, -, h⟩ := h
    split at h
    · simp only [Except.pure_ok_iff, Prod.mk.injEq] at h
      exact h.1 ▸ reversible_comparison hop
    · exact absurd h (by simp [throw, throwThe, MonadExceptOf.throw])

/-- Every listed phrase stands for a comparison at least, and for none with `between`. -/
theorem phrases_plain : ∀ e ∈ Vocabulary.phrases, e.2 ≠ [] ∧ ∀ term ∈ e.2, term.op ≠ .between := by
  decide

/-- A quality asks for no `between`. -/
theorem operator?_ne_between {q : Vocabulary.Quality} {f : Field} {op : Operator}
    (h : q.operator? f = some op) : op ≠ .between := by
  rintro rfl
  cases q with
  | low | high => exact absurd h (by simp [Vocabulary.Quality.operator?])
  | good | bad =>
    simp only [Vocabulary.Quality.operator?, Option.map_eq_some_iff] at h
    obtain ⟨better, -, h⟩ := h
    cases better <;> exact absurd h (by simp)

/-- What holds of each comparison of a phrase, and of two filters together if it does of each, holds
of the filter of the phrase. -/
theorem termsPredicate?_closed {P : Predicate → Prop} (hjoin : ∀ p q, P p → P q → P (p.conjoin q))
    {terms : List Vocabulary.PhraseTerm} {p : Predicate} (hne : terms ≠ [])
    (hterm : ∀ term ∈ terms, ∀ value,
      (term.value <|> (c.field? term.field).bind (·.threshold)) = some value →
        P (.compare ⟨term.field, term.op, .number value⟩))
    (h : Vocabulary.termsPredicate? c terms = some p) : P p := by
  unfold Vocabulary.termsPredicate? at h
  -- The filter so far is either none yet or one that the property holds of.
  suffices hgen : ∀ (terms : List Vocabulary.PhraseTerm) (o : Option Predicate),
      (∀ p, o = some p → p = .all ∧ terms ≠ [] ∨ P p) →
      (∀ term ∈ terms, ∀ value,
        (term.value <|> (c.field? term.field).bind (·.threshold)) = some value →
          P (.compare ⟨term.field, term.op, .number value⟩)) →
      terms.foldl (fun p t => do
        let p ← p
        let value ← t.value <|> (c.field? t.field).bind (·.threshold)
        return p.conjoin (.compare ⟨t.field, t.op, .number value⟩)) o = some p → P p from
    hgen terms (some .all) (fun p hp => .inl ⟨(Option.some.inj hp).symm, hne⟩) hterm h
  clear h hterm hne terms
  intro terms
  induction terms with
  | nil =>
    intro o ho _ h
    rcases ho p h with ⟨-, hne⟩ | hp
    · exact absurd rfl hne
    · exact hp
  | cons term terms ih =>
    intro o ho hterm h
    refine ih _ (fun q hq => .inr ?_) (fun t ht => hterm t (List.mem_cons_of_mem _ ht)) h
    simp only [Option.bind_eq_bind, Option.bind_eq_some_iff, Option.pure_def, Option.some.injEq] at hq
    obtain ⟨p', hp', value, hvalue, rfl⟩ := hq
    have hcmp := hterm term (List.mem_cons_self ..) value hvalue
    rcases ho p' hp' with ⟨rfl, -⟩ | hP
    · rw [Predicate.all_conjoin]; exact hcmp
    · exact hjoin _ _ hP hcmp

/-! ## What a word gives -/

/-- A clause that a word can begin: filters among them have a complement. -/
def IsOperand : Clause → Prop
  | .filter p | .heuristic _ p => p.Reversible
  | .sectors .. | .order _ | .filler | .skipped _ | .breakdown _ => True
  | .mark _ | .excludedSectors _ | .limit .. | .reversed .. => False

theorem readWord_isOperand (c : Catalog) (t : Token) (ts : List Token) :
    (readWord c t ts).1.IsOperand := by
  refine readWord_cases (P := fun r => r.1.IsOperand) ?_ ?_ ?_ ?_ ?_
  · intro d r h
    obtain ⟨o, n, rfl⟩ := superlative?_some h
    trivial
  · intro r h
    obtain ⟨names, terms, n, p, hmem, hp, rfl⟩ := phrase?_some h
    obtain ⟨hne, hops⟩ := phrases_plain _ hmem
    exact termsPredicate?_closed (fun _ _ hp hq => hp.conjoin hq) hne (fun term ht _ _ => hops term ht) hp
  · intro q r h
    obtain ⟨f, n, -, ⟨op, threshold, hop, -, rfl⟩ | ⟨reason, rfl⟩⟩ := quality?_some h
    · exact operator?_ne_between hop
    · trivial
  · intro f n _
    rcases fieldClause_cases f n ts with ⟨op, -, h⟩ | ⟨d, h⟩ | ⟨reason, h⟩ <;> rw [h]
    · rcases readComparison_cases f n op ts with ⟨p, used, hp, h⟩ | ⟨_, _, _, -, -, h⟩ | ⟨_, _, -, -, h⟩ <;>
        rw [h]
      · exact readFilter_reversible hp
      · trivial
      · trivial
    · trivial
    · trivial
  · rcases plainWord_cases t ts with ⟨n, -, -, h⟩ | h | h <;> rw [h] <;> trivial

/-! ## Where a word begins a clause -/

/-- A word is read by itself. -/
theorem clauses_of_name (ht : t.content = .name) : (read c t ts).clauses = [(readWord c t (t :: ts)).1] := by
  unfold read
  rw [ht]

/-- An exclude word is read with what follows it. -/
theorem clauses_of_exclude (ht : t.content = .keyword .exclude) : (read c t ts).clauses = [(exclude c (t :: ts)).1] := by
  unfold read
  rw [ht]
  rfl

end Clause
end EquityScreen
