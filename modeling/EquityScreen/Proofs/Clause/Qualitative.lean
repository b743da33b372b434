/-
Qualitative words and phrases.

A phrase of the table stands for its comparisons, and a qualifier before a field for a comparison with the threshold
of the field, unless a comparison is written behind it (`QualitativeAt`). What is read at a word is reported as a
heuristic exactly if one of the two stands there, and then with their filter (`heuristic?_readWord`). Superlatives,
which are tried before, do not get in the way: no phrase begins with one, and none is a qualifier.
-/
import EquityScreen.Proofs.Clause.Naming
import EquityScreen.Proofs.Clause.Reading

namespace EquityScreen
namespace Clause

variable {c : Catalog} {t : Token} {ts : List Token} {p q : Predicate}

/-- A phrase of the table stands at the front, the longest there, and no comparison behind it: the filter is that of
its comparisons. -/
def PhraseAt (c : Catalog) (ts : List Token) (p : Predicate) : Prop :=
  ∃ terms n, longest? Vocabulary.phraseWords (Vocabulary.phrase? <| unhyphenated ·) ts = some (terms, n) ∧
    compareNext (ts.drop n) = false ∧ Vocabulary.termsPredicate? c terms = some p

/-- A qualifier stands at the front, a field behind it, and no comparison behind the field: the filter compares the
field with its threshold, on the side that the qualifier asks for. -/
def QualifierAt (c : Catalog) (t : Token) (rest : List Token) (p : Predicate) : Prop :=
  ∃ quality f n op threshold, Vocabulary.qualities.lookup t.word = some quality ∧ fieldAt? c rest = some (f, n) ∧
    compareNext (rest.drop n) = false ∧ quality.operator? f = some op ∧ f.threshold = some threshold ∧
    p = .compare ⟨f.key, op, .number threshold⟩

/-- The filter that a qualitative word or phrase at the front stands for; a phrase goes before a qualifier. -/
inductive QualitativeAt (c : Catalog) : List Token → Predicate → Prop
  | phrase {ts : List Token} {p : Predicate} (h : PhraseAt c ts p) : QualitativeAt c ts p
  | qualifier {t : Token} {rest : List Token} {p : Predicate} (hno : ∀ p, ¬ PhraseAt c (t :: rest) p)
    (h : QualifierAt c t rest p) : QualitativeAt c (t :: rest) p

theorem PhraseAt.unique (hp : PhraseAt c ts p) (hq : PhraseAt c ts q) : p = q := by
  obtain ⟨terms, n, hterms, -, hp⟩ := hp
  obtain ⟨terms', n', hterms', -, hq⟩ := hq
  obtain ⟨rfl, rfl⟩ := Prod.mk.inj (Option.some.inj (hterms.symm.trans hterms'))
  exact Option.some.inj (hp.symm.trans hq)

/-- A phrase is read as such. -/
theorem phraseAt_iff : PhraseAt c ts p ↔ ∃ text n, phrase? c ts = some (.heuristic text p, n) := by
  simp only [phrase?, Option.bind_eq_bind, Option.bind_eq_some_iff]
  constructor
  · rintro ⟨terms, n, hterms, hcompare, hp⟩
    exact ⟨Token.joinedText (ts.take n), n, (terms, n), hterms, by simp [hcompare, hp]⟩
  · rintro ⟨text, n, ⟨terms, m⟩, hterms, h⟩
    split at h
    · exact absurd h (by simp)
    · next hcompare =>
      simp only [Option.bind_eq_some_iff, Option.pure_def, Option.some.injEq, Prod.mk.injEq, heuristic.injEq] at h
      obtain ⟨p', hp, ⟨-, rfl⟩, -⟩ := h
      exact ⟨terms, m, hterms, by simpa using hcompare, hp⟩

/-- A qualifier is read as such. -/
theorem qualifierAt_iff {quality : Vocabulary.Quality} (hquality : Vocabulary.qualities.lookup t.word = some quality) :
    QualifierAt c t ts p ↔ ∃ text n, quality? c (t :: ts) quality = some (.heuristic text p, n) := by
  simp only [quality?, Option.bind_eq_bind, Option.bind_eq_some_iff, List.drop_succ_cons, List.drop_zero]
  constructor
  · rintro ⟨quality', f, n, op, threshold, hquality', hf, hcompare, hop, hthreshold, rfl⟩
    obtain rfl := Option.some.inj (hquality.symm.trans hquality')
    exact ⟨Token.joinedText ((t :: ts).take (n + 1)), n + 1, (f, n), hf, by simp [hcompare, hop, hthreshold]⟩
  · rintro ⟨text, m, ⟨f, n⟩, hf, h⟩
    split at h
    · exact absurd h (by simp)
    · next hcompare =>
      split at h
      · next op threshold hop hthreshold =>
        simp only [Option.pure_def, Option.some.injEq, Prod.mk.injEq, heuristic.injEq] at h
        exact ⟨quality, f, n, op, threshold, hquality, hf, by simpa using hcompare, hop, hthreshold, h.1.2.symm⟩
      · exact absurd h (by simp [skip])

/-! ## Superlatives -/

/-- A superlative has no hyphen, begins no phrase of the table, and is no qualifier. -/
theorem superlatives_apart : ∀ e ∈ Vocabulary.superlatives, '-' ∉ e.1.toList ∧
    (∀ names ∈ Vocabulary.phrases, ∀ name ∈ names.1, ¬ e.1.toList <+: name.toList) ∧
    Vocabulary.qualities.lookup e.1 = none := by
  decide +kernel

theorem mem_superlatives {d : Direction} {w : String} (h : Vocabulary.superlatives.lookup w = some d) :
    (w, d) ∈ Vocabulary.superlatives := by
  obtain ⟨before, after, hmem, -⟩ := List.lookup_eq_some_iff.1 h
  rw [hmem]
  exact List.mem_append_right _ List.mem_cons_self

theorem not_phraseAt_of_superlative {d : Direction} (h : Vocabulary.superlatives.lookup t.word = some d) :
    ¬ PhraseAt c (t :: ts) p := by
  obtain ⟨hhyphen, hphrases, -⟩ := superlatives_apart _ (mem_superlatives h)
  rintro ⟨terms, n, hterms, -, -⟩
  exact absurd (hterms.symm.trans (longest?_phrase_eq_none hhyphen hphrases ts)) (by simp)

theorem not_qualifierAt_of_superlative {d : Direction} (h : Vocabulary.superlatives.lookup t.word = some d) :
    ¬ QualifierAt c t ts p := by
  obtain ⟨-, -, hnone⟩ := superlatives_apart _ (mem_superlatives h)
  rintro ⟨quality, _, _, _, _, hquality, -⟩
  exact absurd (hquality.symm.trans hnone) (by simp)

/-! ## What is reported -/

/-- The filter that a clause adds to the heuristics. -/
def heuristic? : Clause → Option Predicate
  | .heuristic _ p => some p
  | .reversed (.heuristic _ p) _ _ => p.negate.toOption
  | _ => none

/-- Nothing is reported away from qualitative words and phrases. -/
theorem ordinary_heuristic? (c : Catalog) (tokens : List Token) : Ordinary c tokens (·.heuristic? = none) := by
  refine ⟨fun _ _ => rfl, rfl, fun _ => rfl, fun _ _ _ => rfl, fun _ _ => rfl, fun _ _ _ => rfl, fun _ _ => rfl,
    fun _ _ _ _ => rfl, fun f n op ts _ _ _ => ?_⟩
  rcases readComparison_cases f n op ts with ⟨_, _, -, h⟩ | ⟨_, _, _, -, -, h⟩ | ⟨_, _, -, -, h⟩ <;> rw [h] <;> rfl

/-- **What is read at a word is reported** exactly if it is a qualitative word or phrase, and with its filter. -/
theorem heuristic?_readWord (c : Catalog) (t : Token) (ts : List Token) (p : Predicate) :
    (readWord c t (t :: ts)).1.heuristic? = some p ↔ QualitativeAt c (t :: ts) p := by
  have hordinary := ordinary_heuristic? c (t :: ts)
  have hnone : ∀ {r : Clause × Nat}, r.1.heuristic? = none → (∀ p, ¬ PhraseAt c (t :: ts) p) →
      ¬ QualifierAt c t ts p → (r.1.heuristic? = some p ↔ QualitativeAt c (t :: ts) p) := by
    intro r hr hphrase hqualifier
    refine iff_of_false (by simp [hr]) ?_
    rintro (h | ⟨-, h⟩)
    · exact hphrase p h
    · exact hqualifier h
  have hphrase : phrase? c (t :: ts) = none → ∀ p, ¬ PhraseAt c (t :: ts) p := fun h p hp => by
    obtain ⟨text, n, hread⟩ := phraseAt_iff.1 hp
    exact absurd (hread.symm.trans h) (by simp)
  have hqualifier : (Vocabulary.qualities.lookup t.word).bind (quality? c (t :: ts)) = none →
      ¬ QualifierAt c t ts p := by
    intro h hp
    obtain ⟨quality, -, -, -, -, hquality, -⟩ := id hp
    obtain ⟨text, n, hread⟩ := (qualifierAt_iff hquality).1 hp
    rw [hquality, Option.bind_some] at h
    exact absurd (hread.symm.trans h) (by simp)
  refine readWord_tried (P := fun r => r.1.heuristic? = some p ↔ QualitativeAt c (t :: ts) p) ?_ ?_ ?_ ?_ ?_
  · intro d r hd hr
    exact hnone (hordinary.superlative hr) (fun _ => not_phraseAt_of_superlative hd)
      (not_qualifierAt_of_superlative hd)
  · intro r hr
    obtain ⟨-, -, n, q, -, -, rfl⟩ := phrase?_some hr
    have hq : PhraseAt c (t :: ts) q := phraseAt_iff.2 ⟨_, n, hr⟩
    constructor
    · intro h
      exact .phrase (Option.some.inj h ▸ hq)
    · rintro (h | ⟨hno, -⟩)
      · exact congrArg some (hq.unique h)
      · exact absurd hq (hno q)
  · intro quality r hnophrase hquality hr
    have hno := hphrase hnophrase
    obtain ⟨f, n, -, ⟨op, threshold, -, -, rfl⟩ | ⟨reason, rfl⟩⟩ := quality?_some hr
    · constructor
      · intro h
        exact .qualifier hno ((qualifierAt_iff hquality).2 ⟨_, _, Option.some.inj h ▸ hr⟩)
      · rintro (h | ⟨-, h⟩)
        · exact absurd h (hno p)
        · obtain ⟨text, m, hread⟩ := (qualifierAt_iff hquality).1 h
          rw [hr] at hread
          exact congrArg (·.1.heuristic?) (Option.some.inj hread)
    · refine hnone rfl hno fun h => ?_
      obtain ⟨text, m, hread⟩ := (qualifierAt_iff hquality).1 h
      exact absurd (hr.symm.trans hread) (by simp [skip])
  · exact fun f n h hnoqualifier hf =>
      hnone (hordinary.field (List.suffix_refl _) hf) (hphrase h) (hqualifier hnoqualifier)
  · exact fun h hnoqualifier => hnone hordinary.plainWord (hphrase h) (hqualifier hnoqualifier)

end Clause
end EquityScreen
