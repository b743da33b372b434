/-
A comma and a blank part a text.

Whatever stands in front of them, no piece reaches past a comma with a blank behind it, unless it is quoted text
that ends further on (`Slice.before_comma`). So where nothing behind the comma closes a quote, cutting fails in
front of it or comes to stand before it, and from there on the text is cut as if it stood alone
(`Place.tokens_parted`).
-/
import EquityScreen.Proofs.Token.Places
import EquityScreen.Proofs.Token.Spelling

namespace EquityScreen
namespace Scan

/-- The characters that end quoted text. -/
def closingQuotes : List Char := ['\x22', '”', '\x27']

/-- Nothing in the text closes a quote. -/
def Unclosing (cs : List Char) : Prop := ∀ c ∈ cs, c ∉ closingQuotes

instance (cs : List Char) : Decidable (Unclosing cs) :=
  decidable_of_iff (cs.all (!closingQuotes.contains ·) = true) (by simp [Unclosing])

variable {xs rest front back : List Char} {said : List (Content × String)} {p : Place}

/-- A piece that begins in front of a comma and a blank ends there at the latest. -/
theorem Slice.before_comma (h : Slice xs) (hfront : front ≠ []) (hback : Unclosing back)
    (heq : front ++ ',' :: ' ' :: back = xs ++ rest) : ∃ more, front = xs ++ more ∧ rest = more ++ ',' :: ' ' :: back := by
  rcases List.append_eq_append_iff.1 heq with ⟨beyond, rfl, hbeyond⟩ | ⟨more, rfl, hmore⟩
  · cases beyond with
    | nil => exact ⟨[], by simp, by simpa using hbeyond.symm⟩
    | cons comma beyond =>
      exfalso
      obtain rfl : ',' = comma := (List.cons.inj hbeyond).1
      generalize hxs : front ++ ',' :: beyond = xs at h
      cases h with
      | @quoted inner close hclose =>
        -- The quote that ends the piece would stand behind the comma.
        have hlast : close ∈ ',' :: beyond := by
          rw [← List.dropLast_concat_getLast (List.cons_ne_nil ',' beyond), ← List.append_assoc] at hxs
          rw [← List.singleton_inj.1 (List.append_inj_right' hxs rfl)]
          exact List.getLast_mem _
        have hmem : close ∈ ',' :: ' ' :: back := by
          rw [hbeyond]
          exact List.mem_append_left _ hlast
        rcases List.mem_cons.1 hmem with rfl | hmem
        · exact absurd hclose (by decide)
        · rcases List.mem_cons.1 hmem with rfl | hmem
          · exact absurd hclose (by decide)
          · exact hback close hmem hclose
      | comma =>
        cases front with
        | nil => exact hfront rfl
        | cons c front => exact absurd (List.cons.inj hxs).2 (by simp)
      | tight hne htight =>
        obtain ⟨d, beyond, rfl, hd⟩ := htight front beyond hxs.symm
        rw [← (List.cons.inj (List.cons.inj hbeyond).2).1] at hd
        exact absurd hd (by decide)
  · exact ⟨more, rfl, hmore⟩

/-- **Cutting fails in front of** a comma and a blank, or comes to stand before them. -/
theorem Place.scans_to_comma (hback : Unclosing back) (h : p.following = front ++ ',' :: ' ' :: back) :
    (∃ e, p.tokens = .error e) ∨ ∃ ts q, Scans p ts q ∧ q.following = ',' :: ' ' :: back := by
  induction hlength : front.length using Nat.strongRecOn generalizing p front with
  | ind n ih =>
    subst hlength
    by_cases hfront : front = []
    · subst hfront
      exact .inr ⟨[], p, .done p, h⟩
    · cases hpiece : p.piece? with
      | none =>
        obtain ⟨c, front, rfl⟩ := List.exists_cons_of_ne_nil hfront
        have hne : p.following ≠ [] := by rw [h]; exact List.cons_ne_nil _ _
        have htail : p.passed.following = front ++ ',' :: ' ' :: back := by rw [Place.passed, h]; rfl
        rcases ih _ (Nat.lt_succ_self _) htail rfl with ⟨e, he⟩ | ⟨ts, q, hscans, hq⟩
        · exact .inl ⟨e, by rw [tokens_passed hne hpiece, he]⟩
        · exact .inr ⟨ts, q, .passed hne hpiece hscans, hq⟩
      | some found =>
        cases found with
        | error e => exact .inl ⟨e, tokens_failed hpiece⟩
        | ok piece =>
          obtain ⟨content, rest⟩ := piece
          obtain ⟨xs, hxs, hslice⟩ := piece?_slice hpiece
          obtain ⟨more, rfl, hrest⟩ := hslice.before_comma hfront hback (h.symm.trans hxs)
          have hshorter : more.length < (xs ++ more).length := by
            rw [List.length_append]
            exact Nat.lt_add_of_pos_left (List.length_pos_iff.2 hslice.ne_nil)
          rcases ih _ hshorter (p := p.after rest) hrest rfl with ⟨e, he⟩ | ⟨ts, q, hscans, hq⟩
          · exact .inl ⟨e, by rw [tokens_after hpiece, he]; rfl⟩
          · cases content with
            | none => exact .inr ⟨ts, q, .blank hpiece hscans, hq⟩
            | some content => exact .inr ⟨_, q, .token hpiece hscans, hq⟩

/-- **A comma and a blank part a text**: behind them it is cut as if it stood alone, unless cutting fails in front
of them. -/
theorem Place.tokens_parted (hback : Unclosing back) (hspells : Spells back said)
    (h : p.following = front ++ ',' :: ' ' :: back) :
    (∃ e, p.tokens = .error e) ∨
      ∃ pre comma ts, p.tokens = .ok (pre ++ comma :: ts) ∧ comma.content = .comma ∧ ts.map Token.said = said := by
  refine (scans_to_comma hback h).imp_right fun ⟨pre, q, hscans, hq⟩ => ?_
  have hblank : Cuts (' ' :: back) said := by
    have hall := hspells.all
    rw [← List.append_nil back] at hall ⊢
    exact hall.blank_visible hspells.visible
  obtain ⟨ts, hts, hsaid⟩ := hblank.cons begins_comma q.following.length q.before q.position (by rw [hq]; exact Nat.le_refl _)
  obtain ⟨comma, ts, rfl, hcomma, hsaid⟩ := List.map_eq_cons_iff.1 hsaid
  refine ⟨pre, comma, ts, ?_, (Prod.mk.inj hcomma).1, hsaid⟩
  have hq' : q.tokens = .ok (comma :: ts) := by
    rw [Place.tokens, ← hts, hq]
    rfl
  rw [hscans.tokens, hq']
  rfl

end Scan
end EquityScreen
