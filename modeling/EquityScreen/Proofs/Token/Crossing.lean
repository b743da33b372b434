/-
Cutting a text whose end may be anything.

Wherever the front of a text stands, cutting comes behind it, past tokens that say this (`Crosses`); what it comes to
there, tokens or a failure, is left to what stands behind. So the front of a text is cut as it was put together, even if
the rest of it cannot be cut; and where the rest can be, so can the whole (`Crosses.cuts`).
-/
import EquityScreen.Proofs.Token.Places
import EquityScreen.Proofs.Token.Spelling

namespace EquityScreen
namespace Scan

variable {xs ys rest : List Char} {said said' : List (Content × String)} {p q r : Place} {ts us : List Token}

theorem Scans.trans (h : Scans p ts q) (h' : Scans q us r) : Scans p (ts ++ us) r := by
  induction h with
  | done p => exact h'
  | blank hpiece _ ih => exact .blank hpiece (ih h')
  | token hpiece _ ih => exact .token hpiece (ih h')
  | passed hne hpiece _ ih => exact .passed hne hpiece (ih h')

/-- Wherever the text stands before this rest, cutting comes behind it, past tokens that say this. -/
def Crosses (xs rest : List Char) (said : List (Content × String)) : Prop :=
  ∀ p : Place, p.following = xs ++ rest → ∃ ts q, Scans p ts q ∧ q.following = rest ∧ ts.map Token.said = said

theorem Crosses.append (h : Crosses xs (ys ++ rest) said) (h' : Crosses ys rest said') :
    Crosses (xs ++ ys) rest (said ++ said') := by
  intro p hp
  obtain ⟨ts, q, hfirst, hq, hsaid⟩ := h p (by rw [hp, List.append_assoc])
  obtain ⟨us, r, hsecond, hr, hsaid'⟩ := h' q hq
  exact ⟨ts ++ us, r, hfirst.trans hsecond, hr, by rw [List.map_append, hsaid, hsaid']⟩

/-- What is cut off a text is a token, unless it has no content. -/
theorem Crosses.of_begins {content : Option Content} (h : Begins xs rest content) :
    Crosses xs rest (content.map fun x => (x, String.ofList xs)).toList := by
  intro p hp
  have hpiece : p.piece? = some (.ok ⟨content, rest⟩) := by rw [Place.piece?, hp, h.2]
  have hslice : p.slice rest = xs := by
    obtain ⟨before, position, following⟩ := p
    rw [show following = xs ++ rest from hp, Place.slice_append]
  cases content with
  | none => exact ⟨[], p.after rest, .blank hpiece (.done _), rfl, rfl⟩
  | some content =>
    refine ⟨[p.token content rest], p.after rest, .token hpiece (.done _), rfl, ?_⟩
    rw [List.map_singleton, Token.said, Place.token, hslice]
    rfl

/-- A character that begins no piece is passed over. -/
theorem Crosses.skip {c : Char} (hc : ∀ before, Scan.piece? before (c :: rest) = none) : Crosses [c] rest [] := by
  intro p hp
  have hne : p.following ≠ [] := by rw [hp]; exact List.cons_ne_nil _ _
  have hpiece : p.piece? = none := by rw [Place.piece?, hp]; exact hc _
  exact ⟨[], p.passed, .passed hne hpiece (.done _), by rw [Place.passed, hp]; rfl, rfl⟩

/-- A blank is passed over. -/
theorem Crosses.blank (h : Visible rest) : Crosses [' '] rest [] := by
  obtain ⟨c, more, rfl, hc⟩ := h
  have hfirst : ∀ d ∈ (c :: more).head?, Text.isBlank d = false := fun d hd => Option.some.inj hd ▸ hc
  exact Crosses.of_begins (begins_blank hfirst)

/-- Words in front of what stops them. -/
theorem Crosses.words (ws : List String) (hne : ws ≠ []) (hws : ∀ w ∈ ws, isSpelled w.toList = true) (hrest : Stops rest) :
    Crosses (Text.joined " " ws).toList rest (ws.map wordSaid) := by
  induction ws with
  | nil => exact absurd rfl hne
  | cons w ws ih =>
    rw [List.forall_mem_cons] at hws
    have hword : ∀ {rest}, Stops rest → Crosses w.toList rest [wordSaid w] := fun hrest => by
      have h := Crosses.of_begins (begins_spelled hws.1 hrest)
      rwa [String.ofList_toList] at h
    cases ws with
    | nil => exact hword hrest
    | cons w' ws =>
      have hmore := ih (List.cons_ne_nil _ _) hws.2
      have hvisible : Visible ((Text.joined " " (w' :: ws)).toList ++ rest) :=
        (spells_words (List.cons_ne_nil _ _) hws.2).visible.append rest
      rw [Text.joined_cons_cons, String.toList_append, String.toList_append, List.append_assoc]
      exact (hword (stops_cons (by decide))).append ((Crosses.blank hvisible).append hmore)

/-- **The tokens of a text** are those of its front and those from behind it. -/
theorem Crosses.tokens (h : Crosses xs rest said) (hp : p.following = xs ++ rest) :
    ∃ (ts : List Token) (q : Place), ts.map Token.said = said ∧ q.following = rest ∧ p.tokens = q.tokens.map (ts ++ ·) := by
  obtain ⟨ts, q, hscans, hq, hsaid⟩ := h p hp
  exact ⟨ts, q, hsaid, hq, hscans.tokens⟩

/-- Where the rest is cut into tokens, so is all of it. -/
theorem Crosses.cuts (h : Crosses xs rest said) (hrest : Cuts rest said') : Cuts (xs ++ rest) (said ++ said') := by
  intro fuel before position hfuel
  obtain ⟨ts, q, hts, hq, htokens⟩ := h.tokens (p := ⟨before, position, xs ++ rest⟩) rfl
  obtain ⟨us, hus, hsaid⟩ := hrest rest.length q.before q.position (Nat.le_refl _)
  refine ⟨ts ++ us, ?_, by rw [List.map_append, hts, hsaid]⟩
  rw [Place.tokensFrom_eq_tokens hfuel, htokens, Place.tokens, hq, hus]
  rfl

end Scan
end EquityScreen
