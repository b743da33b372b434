/-
What the tokens of a text can say: whatever every pattern's piece can (`tokenize_contents`). A number
of a text never has a mark without a meaning (`tokenize_units`).
-/
import EquityScreen.Token.Scan

namespace EquityScreen
namespace Scan

/-- The content of a piece that was found has a property. -/
def Found (P : Content → Prop) (o : Outcome) : Prop :=
  ∀ content rest, o = some (.ok ⟨some content, rest⟩) → P content

variable {P : Content → Prop}

theorem Found.none : Found P none := nofun

theorem Found.some {content : Content} {rest : List Char} (h : P content) :
    Found P (some (.ok ⟨some content, rest⟩)) := by
  intro content' rest' heq
  exact Option.some.inj (Piece.mk.inj (Except.ok.inj (Option.some.inj heq))).1 ▸ h

theorem Found.blanks (cs : List Char) : Found P (blanks? cs) := by
  unfold blanks?
  split
  · split
    · intro content rest heq
      simp at heq
    · exact .none
  · exact .none

theorem Found.orElse {a b : Outcome} (ha : Found P a) (hb : Found P b) : Found P (a <|> b) := by
  intro content rest h
  cases a with
  | none => exact hb content rest h
  | some r => exact ha content rest h

/-- A content that has the property wherever it comes from. -/
structure Contents (P : Content → Prop) : Prop where
  quoted : ∀ s, P (.quoted s)
  number : ∀ cs, Found P (number? cs)
  compare : ∀ op, P (.compare op)
  word : ∀ cs, P (wordContent cs)
  comma : P .comma
  openParen : P .openParen
  closeParen : P .closeParen

namespace Contents

theorem quotation (h : Contents P) (before : Option Char) (cs : List Char) : Found P (quoted? before cs) := by
  have hphrase : ∀ {inner rest : List Char}, Found P (.some (phrasePiece inner rest)) := .some (h.quoted _)
  unfold quoted?
  split
  · cases upTo? '\x22' _ with
    | none => exact .none
    | some p => exact hphrase
  · cases upTo? '”' _ with
    | none => exact .none
    | some p => exact hphrase
  · split
    · exact .none
    · split
      · split
        · exact .none
        · exact hphrase
      · exact .none
  · exact .none

theorem sign (h : Contents P) (cs : List Char) : Found P (sign? cs) := by
  intro content rest heq
  obtain ⟨_, ⟨s, op⟩, _, -, heq, -⟩ := List.findSome?_eq_some_iff.1 heq
  dsimp only at heq
  split at heq
  · exact Found.some (h.compare op) _ _ heq
  · exact absurd heq (by simp)

theorem phrase (h : Contents P) (cs : List Char) : Found P (phrase? cs) := by
  intro content rest heq
  obtain ⟨_, ⟨s, op⟩, _, -, heq, -⟩ := List.findSome?_eq_some_iff.1 heq
  dsimp only at heq
  split at heq
  · split at heq
    · split at heq
      · exact Found.some (h.compare _) _ _ heq
      · exact absurd heq (by simp)
    · exact absurd heq (by simp)
  · exact absurd heq (by simp)

theorem spelled (h : Contents P) (cs : List Char) : Found P (word? cs) := by
  unfold word?
  split
  · split
    · exact .some (h.word _)
    · exact .none
  · exact .none

theorem punctuation (h : Contents P) (cs : List Char) : Found P (punctuation? cs) := by
  unfold punctuation?
  split
  · exact .some (h.word _)
  · exact .some (h.word _)
  · exact .some h.comma
  · exact .some h.openParen
  · exact .some h.closeParen
  · exact .none

theorem piece (h : Contents P) (before : Option Char) (cs : List Char) : Found P (piece? before cs) :=
  .orElse (.blanks cs) (.orElse (h.quotation before cs) (.orElse (h.number cs)
    (.orElse (h.sign cs) (.orElse (h.phrase cs) (.orElse (h.spelled cs) (h.punctuation cs))))))

end Contents

theorem tokensFrom_contents (hpiece : ∀ before cs, Found P (piece? before cs)) (fuel : Nat) :
    ∀ before position cs ts, tokensFrom fuel before position cs = .ok ts → ∀ t ∈ ts, P t.content := by
  induction fuel with
  | zero =>
    intro before position cs ts h
    rw [← Except.ok.inj h]
    exact nofun
  | succ fuel ih =>
    intro before position cs ts h
    cases cs with
    | nil =>
      rw [← Except.ok.inj h]
      exact nofun
    | cons c cs =>
      unfold tokensFrom at h
      split at h
      · exact ih _ _ _ _ h
      · exact absurd h (by simp)
      · next content rest hp =>
        dsimp only at h
        split at h
        · exact ih _ _ _ _ h
        · next content =>
          cases hfurther : tokensFrom fuel ((c :: cs).take (cs.length + 1 - rest.length)).getLast?
              (position + ((c :: cs).take (cs.length + 1 - rest.length)).length) rest with
          | error e => rw [hfurther] at h; exact absurd h (by simp [Except.map])
          | ok more =>
            rw [hfurther] at h
            rw [← Except.ok.inj h]
            intro t ht
            rcases List.mem_cons.1 ht with rfl | ht
            · exact hpiece _ _ _ _ hp
            · exact ih _ _ _ _ hfurther t ht

end Scan

/-- **The tokens of a text** say what its pieces say; the first may be a refinement mark. -/
theorem tokenize_contents {P : Content → Prop} (h : Scan.Contents P) (hmark : ∀ n, P (.refinement n))
    {text : String} {ts : List Token} (ht : tokenize text = .ok ts) : ∀ t ∈ ts, P t.content := by
  unfold tokenize at ht
  dsimp only at ht
  split at ht
  · next t rest hr =>
    cases hfurther : Scan.tokensFrom rest.length t.text.toList.getLast? (text.toList.length - rest.length)
        rest with
    | error e => rw [hfurther] at ht; exact absurd ht (by simp [Except.map])
    | ok more =>
      rw [hfurther] at ht
      rw [← Except.ok.inj ht]
      intro u hu
      rcases List.mem_cons.1 hu with rfl | hu
      · unfold Scan.refinement? at hr
        split at hr
        · dsimp only at hr
          split at hr
          · exact absurd hr (by simp)
          · rw [← (Prod.mk.inj (Option.some.inj hr)).1]
            exact hmark _
        · exact absurd hr (by simp)
      · exact Scan.tokensFrom_contents h.piece _ _ _ _ _ hfurther u hu
  · exact Scan.tokensFrom_contents h.piece _ _ _ _ _ ht

/-- The mark of a number in a text has a meaning. -/
theorem tokenize_units {text : String} {ts : List Token} (ht : tokenize text = .ok ts) :
    ∀ t ∈ ts, ∀ d unit currency, t.content = .number d unit currency → ∀ mark, unit ≠ some (.other mark) := by
  refine tokenize_contents (P := fun content => ∀ d unit currency, content = .number d unit currency →
    ∀ mark, unit ≠ some (.other mark)) ⟨nofun, ?_, nofun, ?_, nofun, nofun, nofun⟩ nofun ht
  · intro cs content rest h d unit currency hcontent mark
    rw [hcontent] at h
    obtain ⟨f, -, hf⟩ := Option.map_eq_some_iff.1 h
    unfold Scan.numberPiece at hf
    split at hf
    · simp only [Except.ok.injEq, Scan.Piece.mk.injEq, Option.some.injEq, Content.number.injEq] at hf
      rw [← hf.1.2.1]
      exact nofun
    · next s _ =>
      split at hf
      · next u hu =>
        simp only [Except.ok.injEq, Scan.Piece.mk.injEq, Option.some.injEq, Content.number.injEq] at hf
        rw [← hf.1.2.1, ← hu]
        unfold Numeral.Suffix.mark?
        split
        · simp
        · dsimp only
          split
          · simp
          · intro h
            obtain ⟨m, -, hm⟩ := Option.map_eq_some_iff.1 h
            exact absurd hm (by simp)
        · intro h
          obtain ⟨m, -, hm⟩ := Option.map_eq_some_iff.1 h
          exact absurd hm (by simp)
      · exact absurd hf (by simp)
  · intro cs d unit currency h
    unfold Scan.wordContent at h
    split at h <;> exact absurd h (by simp)

end EquityScreen
