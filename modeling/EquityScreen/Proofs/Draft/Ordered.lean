/-
The order that a sentence ends with.

Going from clause to clause, the reading comes to stand before the comma in front of an order, whatever was read
until then (`gather_pauses`). Behind it the order is noted, and a limit changes nothing about that
(`gather_ordered`). So tokens that end like this have the order, and only a number in front of the comma can fail to
be worked out (`ofTokens_ordered`).
-/
import EquityScreen.Proofs.Clause.Pausing
import EquityScreen.Proofs.Draft.Parts

namespace EquityScreen

open Scan (Spells wordSaid)
open Text (joined)

namespace Draft

/-- **Going from clause to clause** the reading comes to stand before a comma in front of an order. -/
theorem gather_pauses {c : Catalog} {pre : List Token} {comma sort : Token} {rest : List Token}
    (hcomma : comma.content = .comma) (hsort : sort.content = .keyword .sort) (d : Draft) :
    ∃ d' n, n ≤ pre.length ∧
      ∀ fuel, gather c (n + fuel) (pre ++ comma :: sort :: rest) d = gather c fuel (comma :: sort :: rest) d' := by
  induction hlength : pre.length using Nat.strongRecOn generalizing pre d with
  | ind m ih =>
    subst hlength
    cases pre with
    | nil => exact ⟨d, 0, Nat.le_refl 0, fun fuel => by rw [Nat.zero_add, List.nil_append]⟩
    | cons first pre =>
      have hpauses : Clause.PausesAt (pre.length + 1) (first :: (pre ++ comma :: sort :: rest)) :=
        ⟨comma, sort, rest, by rw [List.drop_succ_cons, List.drop_left], hcomma, hsort⟩
      have hlow := Clause.one_le_used c first (pre ++ comma :: sort :: rest)
      have hhigh := Clause.used_le hpauses (Nat.succ_pos _) (c := c)
      generalize hread : Clause.read c first (pre ++ comma :: sort :: rest) = r at hlow hhigh
      have hshorter : ((first :: pre).drop r.used).length < (first :: pre).length := by
        rw [List.length_drop, List.length_cons]
        omega
      obtain ⟨d', n, hn, hgather⟩ := ih _ hshorter (r.clauses.foldl add d) rfl
      refine ⟨d', n + 1, Nat.succ_le_of_lt (Nat.lt_of_le_of_lt hn hshorter), fun fuel => ?_⟩
      have hdrop : (first :: (pre ++ comma :: sort :: rest)).drop r.used =
          (first :: pre).drop r.used ++ comma :: sort :: rest := by
        rw [← List.cons_append, List.drop_append_of_le_length hhigh]
      rw [Nat.add_right_comm, List.cons_append, gather, hread, hdrop]
      exact hgather fuel

theorem gather_nil (c : Catalog) (fuel : Nat) (d : Draft) : gather c fuel [] d = d := by
  cases fuel <;> rfl

/-- A comma between clauses has no effect. -/
theorem gather_comma (c : Catalog) {comma : Token} (hcomma : comma.content = .comma) (fuel : Nat) (ts : List Token) (d : Draft) :
    gather c (fuel + 1) (comma :: ts) d = gather c fuel ts d := by
  rw [gather, Clause.read]
  simp only [hcomma, List.drop_succ_cons, List.drop_zero, List.foldl_nil]

/-- What the tokens of an order say, and of a limit where there is one. -/
def orderedSaid (f : Field) (direction : Direction) (limit : Option Nat) (fromBottom : Bool) : List (Content × String) :=
  orderSaid f direction ++ limit.elim [] fun n => (.comma, ",") :: limitSaid fromBottom n

/-- An order in words, and a limit where there is one. -/
def orderedText (f : Field) (direction : Direction) (limit : Option Nat) (fromBottom : Bool) : String :=
  joined ", " (("sorted by " ++ f.label ++ " " ++ direction.word) :: limitPart (limit.map Int.ofNat) fromBottom)

/-- An order and a limit hold no comparison. -/
theorem ne_compare_of_orderedSaid {f : Field} {direction : Direction} {limit : Option Nat} {fromBottom : Bool}
    {s : Content × String} (hs : s ∈ orderedSaid f direction limit fromBottom) (op : Operator) : s.1 ≠ .compare op := by
  have hword : ∀ w, (wordSaid w).1 ≠ .compare op := fun w => by
    unfold wordSaid Scan.wordContent
    split <;> exact Content.noConfusion
  rcases List.mem_append.1 hs with hs | hs
  · simp only [orderSaid, List.mem_cons, List.mem_append, List.mem_map, List.not_mem_nil, or_false] at hs
    rcases hs with rfl | rfl | ⟨w, -, rfl⟩ | rfl <;> exact hword _
  · cases limit with
    | none => exact absurd hs List.not_mem_nil
    | some n =>
      simp only [Option.elim_some, limitSaid, List.mem_cons, List.not_mem_nil, or_false] at hs
      rcases hs with rfl | rfl | rfl | rfl | rfl
      · exact Content.noConfusion
      · exact hword _
      · exact hword _
      · exact hword _
      · exact Content.noConfusion

section Ordered

variable {f : Field} {key : String} {direction : Direction} {limit : Option Nat} {fromBottom : Bool}
  (hf : Catalog.builtin.field? key = some f) (hk : f.kind ≠ .sector) (hlimit : ∀ n ∈ limit, n ≠ 0)
include hf hk hlimit

omit hlimit in
/-- An order in words is cut into its tokens, and so is a limit behind it. -/
theorem spells_ordered (direction : Direction) (limit : Option Nat) (fromBottom : Bool) :
    Spells (orderedText f direction limit fromBottom).toList (orderedSaid f direction limit fromBottom) := by
  have horder := spells_order hf hk direction
  cases limit with
  | none =>
    rw [orderedSaid, Option.elim_none, List.append_nil]
    exact horder
  | some n =>
    have hchars : (orderedText f direction (some n) fromBottom).toList =
        ("sorted by " ++ f.label ++ " " ++ direction.word).toList ++
          ',' :: ' ' :: ("limited to " ++ endWord fromBottom ++ " " ++ toString (n : Int)).toList := by
      show (_ ++ ", " ++ ("limited to " ++ endWord fromBottom ++ " " ++ toString (n : Int))).toList = _
      rw [String.toList_append, String.toList_append, List.append_assoc]
      rfl
    rw [hchars]
    exact horder.comma (spells_limit fromBottom n)

/-- **An order** is noted, whatever was noted before, and a limit behind it leaves it as it is. -/
theorem gather_ordered {ts : List Token} (hts : ts.map Token.said = orderedSaid f direction limit fromBottom) (d : Draft)
    {fuel : Nat} (hfuel : ts.length ≤ fuel) :
    (gather Catalog.builtin fuel ts d).sort = some ⟨key, direction⟩ ∧ (gather Catalog.builtin fuel ts d).clauseCount ≠ 0 := by
  obtain ⟨us, vs, rfl, hus, hvs⟩ := List.map_eq_append_iff.1 hts
  obtain ⟨t, more, hmore, -, hread⟩ := read_order hf hk hus
  rw [List.length_append] at hfuel
  have hone : 1 ≤ us.length := by rw [hmore]; exact Nat.succ_pos _
  obtain ⟨fuel, rfl⟩ := Nat.exists_eq_add_of_le' (show 1 ≤ fuel by omega)
  rw [gather_read hmore (hread vs), List.foldl_cons, List.foldl_nil]
  cases limit with
  | none =>
    rw [List.map_eq_nil_iff.1 hvs, gather_nil]
    exact ⟨rfl, Nat.succ_ne_zero _⟩
  | some n =>
    obtain ⟨comma, ws, rfl, hcomma, hws⟩ := List.map_eq_cons_iff.1 hvs
    have hlength : ws.length = 4 := by
      have := congrArg List.length hws
      simpa [limitSaid] using this
    rw [List.length_cons, hlength] at hfuel
    obtain ⟨fuel, rfl⟩ := Nat.exists_eq_add_of_le (show 4 ≤ fuel by omega)
    have hnothing : PartEnds [] := by simp [PartEnds]
    have hends := gather_limit (hlimit n rfl) hws (d.add (.order ⟨key, direction⟩)) hnothing fuel
    rw [List.append_nil] at hends
    rw [show 4 + fuel = 3 + fuel + 1 by omega, gather_comma _ (Prod.mk.inj hcomma).1, hends, gather_nil]
    exact ⟨rfl, Nat.succ_ne_zero _⟩

/-- **Tokens that end with an order** have it, and only a number in front of it can fail to be worked out. -/
theorem ofTokens_ordered {pre ts : List Token} {comma : Token} (hcomma : comma.content = .comma)
    (hts : ts.map Token.said = orderedSaid f direction limit fromBottom) :
    let d := ofTokens Catalog.builtin (pre ++ comma :: ts)
    d.sort = some ⟨key, direction⟩ ∧ d.clauseCount ≠ 0 ∧ (¬ Clause.HasImmense pre → d.breakdown = none) := by
  intro d
  obtain ⟨sort, rest, rfl, hsort⟩ : ∃ sort rest, ts = sort :: rest ∧ sort.content = .keyword .sort := by
    obtain ⟨us, vs, rfl, hus, -⟩ := List.map_eq_append_iff.1 hts
    obtain ⟨t, more, rfl, ht, -⟩ := read_order hf hk hus
    exact ⟨t, more ++ vs, rfl, ht⟩
  have hcompare : ∀ u ∈ sort :: rest, ∀ op, u.content ≠ .compare op := fun u hu =>
    ne_compare_of_orderedSaid (hts ▸ List.mem_map_of_mem hu : u.said ∈ _)
  have hworkable : ¬ Clause.HasImmense pre → d.breakdown = none := fun hpre =>
    gather_invariant (I := fun d => d.breakdown = none) (fun _ _ h hcl => add_workable h hcl)
      (fun _ _ hsuffix => Clause.read_workable_before hcomma hsort hpre hcompare hsuffix) _ _ {} (List.suffix_refl _) rfl
  obtain ⟨d', n, hn, hgather⟩ := @gather_pauses Catalog.builtin pre comma sort rest hcomma hsort {}
  have hlength : (pre ++ comma :: sort :: rest).length = n + (pre.length - n + (sort :: rest).length + 1) := by
    rw [List.length_append, List.length_cons]
    omega
  have hd : d = gather Catalog.builtin (pre.length - n + (sort :: rest).length) (sort :: rest) d' := by
    show gather _ (pre ++ comma :: sort :: rest).length _ _ = _
    rw [hlength, hgather, gather_comma _ hcomma]
  obtain ⟨horder, hcount⟩ := gather_ordered hf hk hlimit hts d' (Nat.le_add_left (sort :: rest).length (pre.length - n))
  rw [← hd] at horder hcount
  exact ⟨horder, hcount, hworkable⟩

end Ordered

end Draft
end EquityScreen
