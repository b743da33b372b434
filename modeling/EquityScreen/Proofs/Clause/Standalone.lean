/-
Words that stand alone.

A word stands alone where nothing is read but the word itself, and no filter comes of it (`standsAlone_iff`). A word that
a query knows nothing of does (`StandsAlone.of_unknown`). So does many a word that it knows: the name of a field without
a comparison or a direction behind it, a qualifier or a superlative without a field behind it, a phrase with a
comparison behind it, and a sector where it would hold for the whole query.
-/
import EquityScreen.Proofs.Clause.Progress
import EquityScreen.Proofs.Clause.Qualitative

namespace EquityScreen
namespace Clause

variable {c : Catalog} {u : Token} {more ts : List Token} {joined : Bool}

/-- The word at the front begins something that a query knows: the name of a field or of a sector, a phrase, or a
superlative; or it is a qualifier. -/
inductive Known (c : Catalog) (u : Token) (more : List Token) : Prop
  | field (h : (fieldAt? c (u :: more)).isSome = true)
  | sector (h : (sectorAt? (u :: more) true).isSome = true)
  | phrase
    (h : (longest? Vocabulary.phraseWords (Vocabulary.phrase? <| unhyphenated ·) (u :: more)).isSome = true)
  | superlative (h : (Vocabulary.superlatives.lookup u.word).isSome = true)
  | qualifier (h : (Vocabulary.qualities.lookup u.word).isSome = true)

/-- What makes a clause of a field comes next: a comparison or a direction. -/
def ClauseFollows : List Token → Prop
  | [] => False
  | t :: _ => t.isCompare = true ∨ t.content = .keyword .ascending ∨ t.content = .keyword .descending

/-- Nothing is said at the front but one word, and no filter comes of it. `joined` says that a connective stands before
the word. -/
structure StandsAlone (c : Catalog) (joined : Bool) (u : Token) (more : List Token) : Prop where
  /-- A superlative has no order behind it and no field. -/
  superlative : (Vocabulary.superlatives.lookup u.word).isSome = true →
    longest? Vocabulary.orderWords (Vocabulary.orders.lookup ·) more = none ∧ fieldAt? c more = none
  phrase : ∀ p, ¬ PhraseAt c (u :: more) p
  /-- A qualifier has no field behind it, or a comparison behind the field. -/
  qualifier : (Vocabulary.qualities.lookup u.word).isSome = true →
    ∀ f n, fieldAt? c more = some (f, n) → compareNext (more.drop n) = true
  /-- A field goes by this one word, and nothing makes a clause of it. -/
  field : ∀ f n, fieldAt? c (u :: more) = some (f, n) → n = 1 ∧ ¬ ClauseFollows more
  /-- A sector that is no field goes by this one word, and holds for the whole query. -/
  sector : fieldAt? c (u :: more) = none → (sectorList (u :: more) false).1 ≠ [] →
    (sectorList (u :: more) false).2 = 1 ∧ joined = false ∧ orAhead more = false

/-- A filter comes of the clause where it stands, or reading stops at it. -/
def Acts (joined : Bool) : Clause → Prop
  | .filter _ | .heuristic .. | .breakdown _ => True
  | .sectors _ beforeOr => (joined || beforeOr) = true
  | _ => False

/-! ## The readings of a word, alone -/

/-- A superlative is read with the order or the field behind it. -/
theorem two_le_superlative? {d : Direction} {r : Clause × Nat} (h : superlative? c d ts = some r) : 2 ≤ r.2 := by
  unfold superlative? at h
  dsimp only at h
  split at h
  · next o n hn =>
    rw [← Option.some.inj h]
    exact Nat.succ_le_succ (one_le_longest? hn)
  · obtain ⟨⟨f, n⟩, hf, rfl⟩ := Option.map_eq_some_iff.1 h
    exact Nat.succ_le_succ (one_le_longest? hf)

/-- A qualifier is read with the field behind it. -/
theorem two_le_quality? {q : Vocabulary.Quality} {r : Clause × Nat} (h : quality? c ts q = some r) : 2 ≤ r.2 := by
  obtain ⟨f, n, hf, ⟨_, _, -, -, rfl⟩ | ⟨_, rfl⟩⟩ := quality?_some h <;>
    exact Nat.succ_le_succ (one_le_longest? hf)

theorem superlative?_eq_none_iff {d : Direction} : superlative? c d (u :: more) = none ↔
    longest? Vocabulary.orderWords (Vocabulary.orders.lookup ·) more = none ∧ fieldAt? c more = none := by
  unfold superlative?
  rw [List.drop_succ_cons, List.drop_zero]
  cases longest? Vocabulary.orderWords (Vocabulary.orders.lookup ·) more with
  | none => simp
  | some named => simp

theorem phrase?_eq_none_iff : phrase? c ts = none ↔ ∀ p, ¬ PhraseAt c ts p := by
  simp only [phraseAt_iff, not_exists]
  refine ⟨fun h p text n hread => absurd (hread.symm.trans h) nofun, fun h => ?_⟩
  refine Option.eq_none_iff_forall_ne_some.2 fun r hr => ?_
  obtain ⟨_, _, n, p, -, -, rfl⟩ := phrase?_some hr
  exact h p _ n hr

theorem quality?_eq_none_iff {q : Vocabulary.Quality} : quality? c (u :: more) q = none ↔
    ∀ f n, fieldAt? c more = some (f, n) → compareNext (more.drop n) = true := by
  unfold quality?
  rw [List.drop_succ_cons, List.drop_zero]
  cases fieldAt? c more with
  | none => simp
  | some named =>
    obtain ⟨f, n⟩ := named
    simp only [Option.bind_eq_bind, Option.bind_some, List.drop_succ_cons, Option.some.injEq, Prod.mk.injEq]
    split
    · next h => exact iff_of_true rfl (by rintro _ _ ⟨rfl, rfl⟩; exact h)
    · next h =>
      refine iff_of_false ?_ fun hall => h (hall f n ⟨rfl, rfl⟩)
      split <;> exact nofun

/-- A field alone is a piece that could not be used. -/
theorem fieldClause_alone {f : Field} {n : Nat} (hn : 1 ≤ n) :
    ((fieldClause f n ts).2 = 1 ∧ ¬ (fieldClause f n ts).1.Acts joined) ↔ n = 1 ∧ ¬ ClauseFollows (ts.drop n) := by
  unfold fieldClause
  split
  · next h => rw [h]; simp [skip, Acts, ClauseFollows]
  · next t rest h =>
    rw [h]
    split
    · next op hop =>
      have hused := le_readComparison f n op ts
      refine iff_of_false (fun h => by omega) fun h => h.2 (.inl (by simp [Token.isCompare, hop]))
    · next hop => exact iff_of_false (fun h => by omega) fun h => h.2 (.inr (.inl hop))
    · next hop => exact iff_of_false (fun h => by omega) fun h => h.2 (.inr (.inr hop))
    · next hcompare hascending hdescending =>
      have hfollows : ¬ ClauseFollows (t :: rest) := by
        rintro (h | h | h)
        · unfold Token.isCompare at h
          split at h
          · next op hop => exact hcompare op hop
          · exact absurd h nofun
        · exact hascending h
        · exact hdescending h
      simp [skip, Acts, hfollows]

/-- A word that is no field is alone unless it begins sectors that are more than the word, or a filter. -/
theorem plainWord_alone : ((plainWord u ts).2 = 1 ∧ ¬ (plainWord u ts).1.Acts joined) ↔
    ((sectorList ts false).1 ≠ [] →
      (sectorList ts false).2 = 1 ∧ joined = false ∧ orAhead (ts.drop 1) = false) := by
  unfold plainWord
  split
  · next heq =>
    refine iff_of_true ?_ fun h => absurd (congrArg Prod.fst heq) h
    split <;> exact ⟨rfl, id⟩
  · next names n hne heq =>
    rw [heq]
    simp only [sectorClause, Acts, Bool.or_eq_true, not_or, Bool.not_eq_true]
    constructor
    · rintro ⟨rfl, h⟩ -
      exact ⟨rfl, h⟩
    · intro h
      obtain ⟨rfl, hwhole⟩ := h hne
      exact ⟨rfl, hwhole⟩

/-- **A word stands alone** where its reading is this one token and no filter comes of it. -/
theorem standsAlone_iff : StandsAlone c joined u more ↔
    (readWord c u (u :: more)).2 = 1 ∧ ¬ (readWord c u (u :: more)).1.Acts joined := by
  unfold readWord
  cases hsuperlative : (Vocabulary.superlatives.lookup u.word).bind (superlative? c · (u :: more)) with
  | some r =>
    obtain ⟨d, hd, hr⟩ := Option.bind_eq_some_iff.1 hsuperlative
    refine iff_of_false (fun h => ?_) fun h => absurd (two_le_superlative? hr) (by rw [show r.2 = 1 from h.1]; decide)
    exact absurd (hr.symm.trans (superlative?_eq_none_iff.2 (h.superlative (by rw [hd]; rfl)))) nofun
  | none =>
  cases hphrase : phrase? c (u :: more) with
  | some r =>
    obtain ⟨-, -, n, p, -, -, rfl⟩ := phrase?_some hphrase
    refine iff_of_false (fun h => ?_) fun h => h.2 trivial
    exact absurd (hphrase.symm.trans (phrase?_eq_none_iff.2 h.phrase)) nofun
  | none =>
  cases hquality : (Vocabulary.qualities.lookup u.word).bind (quality? c (u :: more)) with
  | some r =>
    obtain ⟨q, hq, hr⟩ := Option.bind_eq_some_iff.1 hquality
    refine iff_of_false (fun h => ?_) fun h => absurd (two_le_quality? hr) (by rw [show r.2 = 1 from h.1]; decide)
    exact absurd (hr.symm.trans (quality?_eq_none_iff.2 (h.qualifier (by rw [hq]; rfl)))) nofun
  | none =>
  -- All that goes before a field and a sector was tried in vain.
  have hno : StandsAlone c joined u more ↔
      (∀ f n, fieldAt? c (u :: more) = some (f, n) → n = 1 ∧ ¬ ClauseFollows more) ∧
      (fieldAt? c (u :: more) = none → (sectorList (u :: more) false).1 ≠ [] →
        (sectorList (u :: more) false).2 = 1 ∧ joined = false ∧ orAhead more = false) := by
    refine ⟨fun h => ⟨h.field, h.sector⟩, fun h => ⟨fun hs => ?_, phrase?_eq_none_iff.1 hphrase, fun hq => ?_, h.1, h.2⟩⟩
    · obtain ⟨d, hd⟩ := Option.isSome_iff_exists.1 hs
      rw [hd, Option.bind_some] at hsuperlative
      exact superlative?_eq_none_iff.1 hsuperlative
    · obtain ⟨q, hq⟩ := Option.isSome_iff_exists.1 hq
      rw [hq, Option.bind_some] at hquality
      exact quality?_eq_none_iff.1 hquality
  rw [hno]
  cases hfield : fieldAt? c (u :: more) with
  | some named =>
    obtain ⟨f, n⟩ := named
    have halone := @fieldClause_alone (u :: more) joined f n (one_le_longest? hfield)
    refine Iff.trans ⟨fun h => ?_, fun h => ⟨fun f' n' heq => ?_, nofun⟩⟩ halone.symm
    · obtain ⟨rfl, hends⟩ := h.1 f n rfl
      exact ⟨rfl, hends⟩
    · obtain ⟨rfl, rfl⟩ := Prod.mk.inj (Option.some.inj heq)
      obtain ⟨rfl, hends⟩ := h
      exact ⟨rfl, hends⟩
  | none =>
    simp only [Option.map_none, Option.orElse_eq_orElse, Option.orElse_eq_or, Option.or_self, Option.getD_none]
    rw [plainWord_alone]
    exact ⟨fun h => h.2 trivial, fun h => ⟨fun _ _ hnone => absurd hnone nofun, fun _ => h⟩⟩

/-! ## Unknown words -/

/-- A term that means a sector does so wherever a sector is asked for. -/
theorem isSome_sectorAt?_anchored {anchored : Bool} (h : (sectorAt? ts anchored).isSome = true) :
    (sectorAt? ts true).isSome = true := by
  unfold sectorAt? at h ⊢
  simp only [List.findSome?_isSome_iff, Option.bind_eq_bind, Option.isSome_bind, Option.any_eq_true] at h ⊢
  obtain ⟨n, hn, term, hterm, sector, hsector, -⟩ := h
  refine ⟨n, hn, term, hterm, sector, ?_, rfl⟩
  unfold Sector.resolve? at hsector ⊢
  dsimp only at hsector ⊢
  rw [Bool.true_or, Bool.not_true, Bool.and_false, Bool.false_and, if_neg Bool.false_ne_true]
  split at hsector
  · exact absurd hsector nofun
  · exact hsector

/-- A list of sectors begins with one, behind an article perhaps. -/
theorem isSome_sectorAt?_of_sectorList {anchored : Bool} (h : (sectorList ts anchored).1 ≠ [])
    (harticle : articleNext ts = false) : (sectorAt? ts anchored).isSome = true := by
  cases hsector : sectorAt? ts anchored with
  | some named => rfl
  | none =>
    refine absurd ?_ h
    unfold sectorList
    cases ts with
    | nil => rfl
    | cons t ts => simp [sectorsFrom, harticle, hsector]

/-- **A word that a query knows nothing of** stands alone. -/
theorem StandsAlone.of_unknown (h : ¬ Known c u more) (hfiller : isFiller u = false) : StandsAlone c joined u more where
  superlative hs := absurd (.superlative hs) h
  phrase := by
    rintro p ⟨terms, n, hterms, -⟩
    exact h (.phrase (by rw [hterms]; rfl))
  qualifier hq := absurd (.qualifier hq) h
  field f n hf := absurd (.field (by rw [hf]; rfl)) h
  sector _ hsectors := by
    -- The article is a word without meaning.
    have harticle : articleNext (u :: more) = false := Bool.eq_false_iff.2 fun harticle => by
      simp only [articleNext, Bool.and_eq_true, beq_iff_eq] at harticle
      exact absurd hfiller (by rw [isFiller, harticle.1, harticle.2]; decide)
    exact absurd (.sector (isSome_sectorAt?_anchored (isSome_sectorAt?_of_sectorList hsectors harticle))) h

/-! ## The last word -/

theorem longest?_nil {α : Type} {most : Nat} {meaning? : String → Option α} : longest? most meaning? [] = none := by
  refine Option.eq_none_iff_forall_ne_some.2 fun r hr => ?_
  obtain ⟨u, more, hnil, -⟩ := exists_cons_of_longest? hr
  exact absurd hnil nofun

/-- **The last word** stands alone, also if it is known as a field, a qualifier or a superlative: what would make a
clause of it stands behind it. -/
theorem StandsAlone.of_last
    (hphrase : longest? Vocabulary.phraseWords (Vocabulary.phrase? <| unhyphenated ·) [u] = none)
    (hsector : (sectorList [u] false).1 = []) : StandsAlone c joined u [] where
  superlative _ := ⟨longest?_nil, longest?_nil⟩
  phrase := fun _ ⟨_, _, hterms, _⟩ => absurd (hphrase.symm.trans hterms) nofun
  qualifier _ f n hf := absurd (hf.symm.trans longest?_nil) nofun
  field f n hf := by
    obtain ⟨ws, hws, -⟩ := longest?_some hf
    have hle : n ≤ 1 := length_le_of_words? hws
    have hpos := one_le_longest? hf
    exact ⟨by omega, id⟩
  sector _ hne := absurd hsector hne

end Clause
end EquityScreen
