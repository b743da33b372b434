/-
The places that cutting comes to.

From a place cutting goes on behind the piece that it finds there, or behind a character that begins none
(`Scans`). So the tokens from a place on are those up to a later place followed by the tokens from there on
(`Scans.tokens`), and cutting comes either to the end of the text or to a place where it fails
(`Place.tokens_cases`).
-/
import EquityScreen.Proofs.Token.Pieces

namespace EquityScreen
namespace Scan

/-- A place in a text: the character in front of it, how many characters come before it, and what follows. -/
structure Place where
  before : Option Char
  position : Nat
  following : List Char
  deriving DecidableEq, Repr

namespace Place

variable {p q : Place} {content : Content} {rest : List Char} {ts us : List Token}

/-- The first pattern that fits. -/
def piece? (p : Place) : Outcome := Scan.piece? p.before p.following

/-- The characters up to what is left. -/
def slice (p : Place) (rest : List Char) : List Char := p.following.take (p.following.length - rest.length)

/-- The place behind a piece. -/
def after (p : Place) (rest : List Char) : Place := ⟨(p.slice rest).getLast?, p.position + (p.slice rest).length, rest⟩

/-- The place behind the next character. -/
def passed (p : Place) : Place := ⟨p.following.head?, p.position + 1, p.following.tail⟩

/-- The token of a piece. -/
def token (p : Place) (content : Content) (rest : List Char) : Token := ⟨content, String.ofList (p.slice rest), p.position⟩

/-- The tokens from the place on. -/
def tokens (p : Place) : Except LexError (List Token) :=
  tokensFrom p.following.length p.before p.position p.following

theorem slice_append (xs rest : List Char) (before : Option Char) (position : Nat) :
    (⟨before, position, xs ++ rest⟩ : Place).slice rest = xs := by
  simp [slice]

theorem piece?_shorter {content : Option Content} (h : p.piece? = some (.ok ⟨content, rest⟩)) :
    rest.length < p.following.length := by
  obtain ⟨xs, hxs, hslice⟩ := piece?_slice h
  rw [hxs, List.length_append]
  exact Nat.lt_add_of_pos_left (List.length_pos_iff.2 hslice.ne_nil)

/-- More steps than there are characters change nothing. -/
theorem tokensFrom_eq_tokens {fuel : Nat} {before : Option Char} {position : Nat} {cs : List Char} (h : cs.length ≤ fuel) :
    tokensFrom fuel before position cs = (⟨before, position, cs⟩ : Place).tokens := by
  suffices hboth : ∀ (n fuel fuel' : Nat) before position cs, cs.length ≤ n → cs.length ≤ fuel → cs.length ≤ fuel' →
      tokensFrom fuel before position cs = tokensFrom fuel' before position cs from
    hboth cs.length fuel cs.length before position cs (Nat.le_refl _) h (Nat.le_refl _)
  intro n
  induction n with
  | zero =>
    intro fuel fuel' before position cs hn hfuel hfuel'
    rw [List.eq_nil_of_length_eq_zero (Nat.le_zero.1 hn)]
    cases fuel <;> cases fuel' <;> rfl
  | succ n ih =>
    intro fuel fuel' before position cs hn hfuel hfuel'
    cases cs with
    | nil => cases fuel <;> cases fuel' <;> rfl
    | cons c cs =>
      obtain ⟨fuel, rfl⟩ := Nat.exists_eq_succ_of_ne_zero (Nat.ne_of_gt (Nat.lt_of_lt_of_le (Nat.succ_pos _) hfuel))
      obtain ⟨fuel', rfl⟩ := Nat.exists_eq_succ_of_ne_zero (Nat.ne_of_gt (Nat.lt_of_lt_of_le (Nat.succ_pos _) hfuel'))
      simp only [List.length_cons, Nat.succ_le_succ_iff] at hn hfuel hfuel'
      unfold tokensFrom
      split
      · exact ih _ _ _ _ _ hn hfuel hfuel'
      · rfl
      · next content rest hpiece =>
        have hrest : rest.length ≤ cs.length :=
          Nat.le_of_lt_succ (piece?_shorter (p := ⟨before, position, c :: cs⟩) hpiece)
        have hfurther := fun before position => ih fuel fuel' before position rest (Nat.le_trans hrest hn)
          (Nat.le_trans hrest hfuel) (Nat.le_trans hrest hfuel')
        simp only [hfurther]

theorem piece?_nil (before : Option Char) : Scan.piece? before [] = none := by
  have hnumber : number? [] = none := by decide
  have hsign : sign? [] = none := by decide
  have hphrase : phrase? [] = none := by decide
  rw [Scan.piece?, hnumber, hsign, hphrase]
  rfl

theorem tokens_nil (h : p.following = []) : p.tokens = .ok [] := by
  rw [tokens, h]
  rfl

theorem tokens_failed {e : LexError} (h : p.piece? = some (.error e)) : p.tokens = .error e := by
  obtain ⟨before, position, cs⟩ := p
  cases cs with
  | nil =>
    rw [piece?, piece?_nil] at h
    exact absurd h (by simp)
  | cons c cs =>
    rw [piece?] at h
    rw [tokens]
    dsimp only [List.length_cons] at h ⊢
    unfold tokensFrom
    simp only [h]

theorem tokens_passed (hne : p.following ≠ []) (h : p.piece? = none) : p.tokens = p.passed.tokens := by
  obtain ⟨before, position, cs⟩ := p
  obtain ⟨c, cs, rfl⟩ := List.exists_cons_of_ne_nil hne
  rw [piece?] at h
  rw [passed, tokens, tokens]
  dsimp only [List.length_cons, List.tail_cons, List.head?_cons] at h ⊢
  conv => lhs; unfold tokensFrom
  simp only [h]

theorem tokens_after {content : Option Content} (h : p.piece? = some (.ok ⟨content, rest⟩)) :
    p.tokens = (p.after rest).tokens.map ((content.map fun x => p.token x rest).toList ++ ·) := by
  have hshorter : rest.length < p.following.length := piece?_shorter h
  obtain ⟨before, position, cs⟩ := p
  cases cs with
  | nil => exact absurd hshorter (Nat.not_lt_zero _)
  | cons c cs =>
    have hfurther : ∀ before position, tokensFrom cs.length before position rest =
        (⟨before, position, rest⟩ : Place).tokens := fun _ _ => tokensFrom_eq_tokens (Nat.le_of_lt_succ hshorter)
    rw [piece?] at h
    rw [after, tokens]
    dsimp only [List.length_cons] at h ⊢
    unfold tokensFrom
    simp only [h, hfurther]
    cases content with
    | none => exact (congrFun Except.map_id _).symm
    | some content => rfl

end Place

/-! ## From place to place -/

/-- Cutting comes from one place to another, past these tokens. -/
inductive Scans : Place → List Token → Place → Prop
  | done (p : Place) : Scans p [] p
  | blank {p q : Place} {rest : List Char} {ts : List Token} (h : p.piece? = some (.ok ⟨none, rest⟩))
      (further : Scans (p.after rest) ts q) : Scans p ts q
  | token {p q : Place} {content : Content} {rest : List Char} {ts : List Token}
      (h : p.piece? = some (.ok ⟨some content, rest⟩)) (further : Scans (p.after rest) ts q) :
      Scans p (p.token content rest :: ts) q
  | passed {p q : Place} {ts : List Token} (hne : p.following ≠ []) (h : p.piece? = none)
      (further : Scans p.passed ts q) : Scans p ts q

variable {p q : Place} {ts : List Token}

/-- **The tokens from a place on** are those up to a later place, and those from there on. -/
theorem Scans.tokens (h : Scans p ts q) : p.tokens = q.tokens.map (ts ++ ·) := by
  induction h with
  | done p => exact (congrFun Except.map_id _).symm
  | @blank p q rest ts h _ ih =>
    rw [Place.tokens_after h, ih]
    cases q.tokens <;> rfl
  | @token p q content rest ts h _ ih =>
    rw [Place.tokens_after h, ih]
    cases q.tokens <;> rfl
  | passed hne h _ ih => rw [Place.tokens_passed hne h, ih]

/-- What follows a later place is the end of what follows an earlier one. -/
theorem Scans.suffix (h : Scans p ts q) : q.following <:+ p.following := by
  have hafter : ∀ {p : Place} {content : Option Content} {rest : List Char}, p.piece? = some (.ok ⟨content, rest⟩) →
      rest <:+ p.following := fun h => by
    obtain ⟨xs, hxs, -⟩ := piece?_slice h
    exact ⟨xs, hxs.symm⟩
  induction h with
  | done p => exact List.suffix_refl _
  | blank h _ ih => exact ih.trans (hafter h)
  | token h _ ih => exact ih.trans (hafter h)
  | passed _ _ _ ih => exact ih.trans (List.tail_suffix _)

/-- **Cutting comes to the end** of the text, or to a place where it fails. -/
theorem Place.tokens_cases (p : Place) :
    (∃ ts q, Scans p ts q ∧ q.following = [] ∧ p.tokens = .ok ts) ∨
      ∃ ts q e, Scans p ts q ∧ q.piece? = some (.error e) ∧ p.tokens = .error e := by
  suffices hscans : ∃ ts q, Scans p ts q ∧ (q.following = [] ∨ ∃ e, q.piece? = some (.error e)) by
    obtain ⟨ts, q, hscans, hend | ⟨e, he⟩⟩ := hscans
    · exact .inl ⟨ts, q, hscans, hend, by rw [hscans.tokens, tokens_nil hend, Except.map, List.append_nil]⟩
    · exact .inr ⟨ts, q, e, hscans, he, by rw [hscans.tokens, tokens_failed he, Except.map]⟩
  induction hlength : p.following.length using Nat.strongRecOn generalizing p with
  | ind n ih =>
    subst hlength
    by_cases hend : p.following = []
    · exact ⟨[], p, .done p, .inl hend⟩
    · cases hpiece : p.piece? with
      | none =>
        have hshorter : p.passed.following.length < p.following.length := by
          rw [passed, List.length_tail]
          exact Nat.sub_lt (List.length_pos_iff.2 hend) Nat.one_pos
        obtain ⟨ts, q, hscans, hq⟩ := ih _ hshorter p.passed rfl
        exact ⟨ts, q, .passed hend hpiece hscans, hq⟩
      | some found =>
        cases found with
        | error e => exact ⟨[], p, .done p, .inr ⟨e, hpiece⟩⟩
        | ok piece =>
          obtain ⟨content, rest⟩ := piece
          obtain ⟨ts, q, hscans, hq⟩ := ih _ (piece?_shorter hpiece) (p.after rest) rfl
          cases content with
          | none => exact ⟨ts, q, .blank hpiece hscans, hq⟩
          | some content => exact ⟨_, q, .token hpiece hscans, hq⟩

end Scan

/-! ## Whole texts -/

open Scan

/-- The token of the refinement mark of a text, if it has one, and the place where cutting begins. -/
def Scan.start (text : String) : List Token × Place :=
  match refinement? text.toList with
  | some (t, rest) => ([t], ⟨t.text.toList.getLast?, text.toList.length - rest.length, rest⟩)
  | none => ([], ⟨none, 0, text.toList⟩)

theorem start_suffix (text : String) : (start text).2.following <:+ text.toList := by
  unfold start
  split
  · next t rest h =>
    unfold refinement? at h
    split at h
    · next rest' hdrop =>
      dsimp only at h
      split at h
      · exact absurd h (by simp)
      · rw [← (Prod.mk.inj (Option.some.inj h)).2]
        have hmark : rest' <:+ text.toList := (List.suffix_cons _ _).trans (hdrop ▸ List.dropWhile_suffix _)
        exact (List.dropWhile_suffix _).trans hmark
    · exact absurd h (by simp)
  · exact List.suffix_refl _

theorem tokenize_eq (text : String) : tokenize text = (start text).2.tokens.map ((start text).1 ++ ·) := by
  unfold tokenize start
  dsimp only
  cases h : refinement? text.toList with
  | none => exact (congrFun Except.map_id _).symm
  | some found => rfl

end EquityScreen
