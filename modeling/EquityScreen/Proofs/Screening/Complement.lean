/-
A filter and its complement.

No security satisfies both (`Operator.not_both` for one comparison, carried through the tree), for a comparison
with a missing value holds on neither side. Where every comparison is decided, that is where its field has a value
of its kind, the complement says the opposite of the filter (`Predicate.holds_negate`).
-/
import EquityScreen.Proofs.Predicate.Negation
import EquityScreen.Proofs.Screening.Order
import EquityScreen.Proofs.Screening.Total

namespace EquityScreen

/-! ## Values -/

namespace Operator

variable {op op' : Operator} {a b : Value}

/-- Of two values in order the second neither comes before the first nor is the same. -/
theorem le_eq_false_of_lt (h : a.lt b = true) : b.le a = false := by
  obtain ⟨p, hp, q, hq, hpq⟩ := Value.lt_iff.1 h
  refine Bool.eq_false_iff.2 fun hle => ?_
  obtain ⟨q', hq', p', hp', hback⟩ := Value.le_iff.1 hle
  cases hp.symm.trans hp'
  cases hq.symm.trans hq'
  rcases hback with hback | rfl
  · exact Rank.Before.irrefl _ (hpq.trans hback)
  · exact Rank.Before.irrefl _ hpq

/-- Two values of one kind are in order one way or the other. -/
theorem le_eq_not_lt {p q : Rank} (ha : a.rank? = some p) (hb : b.rank? = some q) (h : p.Alike q) :
    b.le a = !a.lt b := by
  cases hlt : a.lt b with
  | true => exact le_eq_false_of_lt hlt
  | false =>
    have hnot : ¬ p.Before q := fun hpq => by
      rw [Value.lt_iff.2 ⟨p, ha, q, hb, hpq⟩] at hlt
      exact absurd hlt (by simp)
    rcases h.trichotomy with hpq | rfl | hqp
    · exact absurd hpq hnot
    · exact Value.le_iff.2 ⟨p, hb, p, ha, .inr rfl⟩
    · exact Value.le_iff.2 ⟨q, hb, p, ha, .inl hqp⟩

/-- **A comparison and its opposite** never hold of the same values. -/
theorem not_both (h : op.negated? = some op') : ¬ (op.holds? a b = some true ∧ op'.holds? a b = some true) := by
  rintro ⟨hop, hop'⟩
  cases op <;> cases h <;> simp only [holds?, Option.some.injEq] at hop hop'
  case lt => rw [le_eq_false_of_lt hop] at hop'; exact absurd hop' (by simp)
  case le => rw [le_eq_false_of_lt hop'] at hop; exact absurd hop (by simp)
  case gt => rw [le_eq_false_of_lt hop] at hop'; exact absurd hop' (by simp)
  case ge => rw [le_eq_false_of_lt hop'] at hop; exact absurd hop (by simp)
  case eq => rw [hop] at hop'; exact absurd hop' (by simp)
  case ne => rw [hop'] at hop; exact absurd hop (by simp)

/-- **The opposite of a comparison** of two values of one kind holds exactly if the comparison does not. -/
theorem holds?_negated {p q : Rank} (h : op.negated? = some op') (ha : a.rank? = some p) (hb : b.rank? = some q)
    (hpq : p.Alike q) : op'.holds? a b = (op.holds? a b).map (!·) := by
  have hqp : q.Alike p := by cases p <;> cases q <;> trivial
  have hle := le_eq_not_lt ha hb hpq
  have hge := le_eq_not_lt hb ha hqp
  cases op <;> cases h <;> simp [holds?, hle, hge]

end Operator

/-! ## Comparisons -/

/-- A value of a field of the kind can be told apart from the value that it is compared with: figures are compared
with a number, sectors with a text, and texts with anything, as it is written. -/
def Kind.Comparable : Kind → Value → Value → Prop
  | .text, _, _ => True
  | .sector, v, w => (∃ s, v = .text s) ∧ ∃ t, w = .text t
  | _, v, w => (∃ m, v = .number m) ∧ ∃ n, w = .number n ∧ n.isNaN = false

/-- The field of the comparison has a value in the security, and one that can be compared with the other side. -/
def Comparison.Decided (c : Catalog) (s : Security) (cmp : Comparison) : Prop :=
  ∃ f v, c.field? cmp.field = some f ∧ f.read s = some v ∧ v.isNaN = false ∧ f.kind.Comparable v cmp.value

variable {c : Catalog} {s : Security} {cmp : Comparison} {op : Operator} {p q : Predicate}

theorem Number.exists_place {n : Number} (h : n.isNaN = false) : ∃ p, n.place? = some p := by
  cases n with
  | int => exact ⟨_, rfl⟩
  | double x =>
    cases x with
    | nan => exact absurd h (by simp [isNaN, Double.isNaN])
    | infinite | finite => exact ⟨_, rfl⟩

theorem Value.exists_rank {n : Number} (h : n.isNaN = false) : ∃ p, (Value.number n).rank? = some (.place p) := by
  obtain ⟨p, hp⟩ := Number.exists_place h
  exact ⟨p, by rw [rank?, hp]; rfl⟩

theorem Kind.Comparable.ranks {k : Kind} {v w : Value} (h : k.Comparable v w) (hv : v.isNaN = false) :
    ∃ p q, (k.operand v).rank? = some p ∧ (k.operand w).rank? = some q ∧ p.Alike q := by
  have hfigures : ∀ {v w : Value}, v.isNaN = false → ((∃ m, v = .number m) ∧ ∃ n, w = .number n ∧ n.isNaN = false) →
      ∃ p q, v.rank? = some p ∧ w.rank? = some q ∧ p.Alike q := by
    rintro _ _ hv ⟨⟨m, rfl⟩, n, rfl, hn⟩
    obtain ⟨p, hp⟩ := Value.exists_rank (show m.isNaN = false from hv)
    obtain ⟨q, hq⟩ := Value.exists_rank hn
    exact ⟨_, _, hp, hq, trivial⟩
  cases k with
  | text => exact ⟨_, _, rfl, rfl, trivial⟩
  | sector =>
    obtain ⟨⟨s, rfl⟩, t, rfl⟩ := h
    exact ⟨_, _, rfl, rfl, trivial⟩
  | numeric | percentage | currency | ratio => exact hfigures hv h

/-- No security satisfies a comparison and its opposite. -/
theorem Comparison.not_both (h : cmp.op.negated? = some op) :
    ¬ (cmp.holds c s = .ok true ∧ Comparison.holds c { cmp with op } s = .ok true) := by
  rintro ⟨hcmp, hop⟩
  unfold holds at hcmp hop
  cases hf : c.field? cmp.field with
  | none => simp [hf] at hcmp
  | some f =>
    simp only [hf] at hcmp hop
    split at hcmp
    · exact absurd hcmp (by simp)
    · next v hread =>
      simp only [hread] at hop
      split at hcmp
      · exact absurd hcmp (by simp)
      · next hnan =>
        rw [if_neg hnan] at hop
        refine Operator.not_both (a := f.kind.operand v) (b := f.kind.operand cmp.value) h ⟨?_, ?_⟩
        · split at hcmp
          · next b hb => rw [hb, Except.ok.inj hcmp]
          · exact absurd hcmp (by simp)
        · split at hop
          · next b hb => rw [hb, Except.ok.inj hop]
          · exact absurd hop (by simp)

/-- A decided comparison has an outcome, and its opposite the other one. -/
theorem Comparison.Decided.holds_negated (hcmp : cmp.Decided c s) (h : cmp.op.negated? = some op) :
    ∃ b, cmp.holds c s = .ok b ∧ Comparison.holds c { cmp with op } s = .ok (!b) := by
  obtain ⟨f, v, hf, hread, hnan, hcomparable⟩ := hcmp
  obtain ⟨p, q, hp, hq, halike⟩ := hcomparable.ranks hnan
  have hne : cmp.op ≠ .between := fun hbetween => by
    rw [hbetween] at h
    exact absurd h (by simp [Operator.negated?])
  obtain ⟨b, hb⟩ := Operator.holds?_isSome hne (f.kind.operand v) (f.kind.operand cmp.value)
  have hopposite := Operator.holds?_negated h hp hq halike
  rw [hb] at hopposite
  refine ⟨b, ?_, ?_⟩
  · simp [holds, hf, hread, hnan, hb]
  · simp [holds, hf, hread, hnan, hopposite]

/-! ## Filters -/

namespace Predicate

theorem holds_and_true : (and p q).holds c s = .ok true ↔ p.holds c s = .ok true ∧ q.holds c s = .ok true := by
  rw [holds]
  split
  · next hp => simp [hp]
  · next hp => exact ⟨fun h => absurd h hp, fun h => h.1⟩

theorem holds_or_true : (or p q).holds c s = .ok true ↔
    p.holds c s = .ok true ∨ p.holds c s = .ok false ∧ q.holds c s = .ok true := by
  rw [holds]
  split
  · next hp => simp [hp]
  · next hp => exact ⟨.inl, fun h => h.resolve_right fun hq => hp hq.1⟩

/-- No security satisfies a filter and its complement. -/
theorem not_both (h : p.negate = .ok q) : ¬ (p.holds c s = .ok true ∧ q.holds c s = .ok true) := by
  have hcomplement := complement_of_negate h
  clear h
  induction hcomplement with
  | compare hop => exact Comparison.not_both hop
  | sectorIn set | sectorOut set =>
    rintro ⟨hin, hout⟩
    simp only [holds] at hin hout
    rw [Except.map_ok_iff] at hin hout
    obtain ⟨name, hname, hmem⟩ := hin
    obtain ⟨name', hname', hmem'⟩ := hout
    cases hname.symm.trans hname'
    simp_all
  | and _ _ ihl ihr =>
    rw [holds_and_true, holds_or_true]
    rintro ⟨⟨hleft, hright⟩, hl' | ⟨-, hr'⟩⟩
    · exact ihl ⟨hleft, hl'⟩
    · exact ihr ⟨hright, hr'⟩
  | or _ _ ihl ihr =>
    rw [holds_and_true, holds_or_true]
    rintro ⟨hleft | ⟨-, hright⟩, hl', hr'⟩
    · exact ihl ⟨hleft, hl'⟩
    · exact ihr ⟨hright, hr'⟩

/-- **Where every comparison is decided the complement says the opposite**; on a security whose sector is no text
both fail alike. -/
theorem holds_negate (h : p.negate = .ok q) (hp : p.Every (·.Decided c s)) :
    q.holds c s = (p.holds c s).map (!·) := by
  have hcomplement := complement_of_negate h
  clear h
  induction hcomplement with
  | compare hop =>
    obtain ⟨b, hb, hb'⟩ := (every_compare.1 hp).holds_negated hop
    rw [holds, holds, hb, hb']
    rfl
  | sectorIn set | sectorOut set =>
    rw [holds, holds]
    cases s.sector <;> simp [Except.map]
  | @and l _ _ _ _ _ ihl ihr =>
    obtain ⟨hl, hr⟩ := every_and.1 hp
    rw [holds, holds, ihl hl]
    cases l.holds c s with
    | error e => rfl
    | ok b =>
      cases b with
      | false => rfl
      | true => exact ihr hr
  | @or l _ _ _ _ _ ihl ihr =>
    obtain ⟨hl, hr⟩ := every_or.1 hp
    rw [holds, holds, ihl hl]
    cases l.holds c s with
    | error e => rfl
    | ok b =>
      cases b with
      | true => rfl
      | false => exact ihr hr

/-- The complement of the complement is the filter. -/
theorem negate_negate (hp : p.Reversible) (h : p.negate = .ok q) : q.negate = .ok p := by
  have hcomplement := complement_of_negate h
  clear h
  induction hcomplement with
  | compare hop => simp only [negate, Operator.negated?_negated? hop]
  | sectorIn set | sectorOut set => rfl
  | and _ _ ihl ihr =>
    rw [negate, ihl hp.1, ihr hp.2]
    exact congrArg Except.ok (conjoin_eq_and hp.1.ne_all hp.2.ne_all)
  | or _ _ ihl ihr =>
    rw [negate, ihl hp.1, ihr hp.2]
    exact congrArg Except.ok (disjoin_eq_or hp.1.ne_all hp.2.ne_all)

/-- A filter without `between` whose comparisons are decided has an outcome on a security with a sector. -/
theorem holds_of_decided (hp : p.Reversible) (hdecided : p.Every (·.Decided c s)) {name : String}
    (hs : s.sector = .ok name) : ∃ b, p.holds c s = .ok b := by
  induction p with
  | all => exact ⟨true, rfl⟩
  | compare cmp =>
    obtain ⟨op, hop, -⟩ := negated?_of_ne hp
    obtain ⟨b, hb, -⟩ := (every_compare.1 hdecided).holds_negated hop
    exact ⟨b, hb⟩
  | sectorIn set => exact ⟨_, by rw [holds, hs]; rfl⟩
  | sectorOut set => exact ⟨_, by rw [holds, hs]; rfl⟩
  | and l r ihl ihr =>
    obtain ⟨hl, hr⟩ := every_and.1 hdecided
    obtain ⟨b, hb⟩ := ihl hp.1 hl
    rw [holds, hb]
    cases b with
    | false => exact ⟨false, rfl⟩
    | true => exact ihr hp.2 hr
  | or l r ihl ihr =>
    obtain ⟨hl, hr⟩ := every_or.1 hdecided
    obtain ⟨b, hb⟩ := ihl hp.1 hl
    rw [holds, hb]
    cases b with
    | true => exact ⟨true, rfl⟩
    | false => exact ihr hp.2 hr

/-- **The complement of a filter.** A filter without `between` and without a part that holds of everything has a
complement, whose own complement it is. No security satisfies both, whatever is missing. On a security in which the
field of every comparison has a value that can be compared with the other side, the complement holds exactly if the
filter does not; and there both have an outcome unless the sector of the security is a number. -/
theorem exists_complement (hp : p.Reversible) :
    ∃ q, p.negate = .ok q ∧ q.negate = .ok p ∧
      (∀ c s, ¬ (p.holds c s = .ok true ∧ q.holds c s = .ok true)) ∧
      ∀ c s, p.Every (·.Decided c s) →
        (q.holds c s = .ok true ↔ p.holds c s = .ok false) ∧ q.holds c s = (p.holds c s).map (!·) ∧
          (s.Typed → ∃ b, p.holds c s = .ok b ∧ q.holds c s = .ok (!b)) := by
  obtain ⟨q, hq, -⟩ := negate_of_reversible hp
  refine ⟨q, hq, negate_negate hp hq, fun c s => not_both hq, fun c s hdecided => ?_⟩
  have hopposite := holds_negate hq hdecided
  refine ⟨?_, hopposite, fun hs => ?_⟩
  · rw [hopposite, Except.map_ok_iff]
    simp
  · obtain ⟨name, hname⟩ := hs.sector_ok
    obtain ⟨b, hb⟩ := holds_of_decided hp hdecided hname
    exact ⟨b, hb, by rw [hopposite, hb]; rfl⟩

/-- Cheap or of a name, and no bank: a security that is neither cheap nor of the name, and is no bank. -/
theorem exists_complement_cheap_or_named :
    let p : Predicate := .and (.or (.compare ⟨"pe", .lt, .number (.int 15)⟩) (.compare ⟨"name", .eq, .text "Alpha"⟩))
      (.sectorOut (.ofList ["Banking"]))
    let s := Security.ofCells [(.pe, some (.number (.int 20))), (.name, some (.text "Beta")), (.sector, some (.text "it"))]
    p.Reversible ∧ p.Every (·.Decided Catalog.builtin s) ∧ s.Typed ∧ p.holds Catalog.builtin s = .ok false ∧
      ∃ q, p.negate = .ok q ∧ q.negate = .ok p ∧
        (∀ c s, ¬ (p.holds c s = .ok true ∧ q.holds c s = .ok true)) ∧ q.holds Catalog.builtin s = .ok true := by
  intro p s
  have hp : p.Reversible := ⟨⟨Operator.noConfusion, Operator.noConfusion⟩, trivial⟩
  obtain ⟨pe, hpe, hratio⟩ : ∃ f, Catalog.builtin.field? "pe" = some f ∧ f.kind = .ratio ∧ f.attr = .pe :=
    ⟨(Catalog.builtin.field? "pe").get (by decide +kernel), by simp, by decide +kernel⟩
  obtain ⟨name, hname, htext⟩ : ∃ f, Catalog.builtin.field? "name" = some f ∧ f.kind = .text ∧ f.attr = .name :=
    ⟨(Catalog.builtin.field? "name").get (by decide +kernel), by simp, by decide +kernel⟩
  have hdecided : p.Every (·.Decided Catalog.builtin s) := by
    refine every_and.2 ⟨every_or.2 ⟨every_compare.2 ?_, every_compare.2 ?_⟩, every_sectorOut⟩
    · refine ⟨pe, .number (.int 20), hpe, by rw [Field.read, hratio.2]; rfl, rfl, ?_⟩
      rw [hratio.1]
      exact ⟨⟨_, rfl⟩, _, rfl, rfl⟩
    · refine ⟨name, .text "Beta", hname, by rw [Field.read, htext.2]; rfl, rfl, ?_⟩
      rw [htext.1]
      trivial
  have hs : s.Typed := Security.Typed.ofCells fun a v hv => by
    simp only [List.mem_cons, Prod.mk.injEq, Option.some.injEq, List.not_mem_nil, or_false] at hv
    rcases hv with ⟨rfl, rfl⟩ | ⟨rfl, rfl⟩ | ⟨rfl, rfl⟩ <;> rfl
  have hholds : p.holds Catalog.builtin s = .ok false := Except.toOption_eq_some.1 (by decide +kernel)
  obtain ⟨q, hq, hback, hnever, hopposite⟩ := exists_complement hp
  exact ⟨hp, hdecided, hs, hholds, q, hq, hback, hnever, (hopposite _ s hdecided).1.2 hholds⟩

end Predicate
end EquityScreen
