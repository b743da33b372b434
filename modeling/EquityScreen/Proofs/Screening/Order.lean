/-
The order of rows. Of the rows with a value of the field the order is settled by the values, and
rows of equal values keep their order; so there is just one arrangement of given rows
(`Arranged.unique`), and sorting gives it (`sortBy_ok_iff`).

Values are compared by rank: the place on the number line, or the text. Ranks of one kind are in a
linear order; between a number and a text there is none, which is why mixed rows cannot be sorted.
-/
import EquityScreen.Screening
import Mathlib.Data.List.Sort

namespace EquityScreen

/-! ## Ranks -/

/-- What values are compared by. -/
inductive Rank where
  | place (p : Number.Place)
  | text (s : String)
  deriving DecidableEq

namespace Rank

/-- One rank comes strictly before another of its kind. -/
def Before : Rank → Rank → Prop
  | .place p, .place q => p.before q = true
  | .text s, .text t => s < t
  | _, _ => False

/-- Two ranks of one kind. -/
def Alike : Rank → Rank → Prop
  | .place _, .place _ | .text _, .text _ => True
  | _, _ => False

variable {a b c : Rank}

theorem Before.trans (hab : a.Before b) (hbc : b.Before c) : a.Before c := by
  cases a with
  | place p =>
    cases b with
    | text t => exact absurd hab id
    | place q =>
      cases c with
      | text u => exact absurd hbc id
      | place r =>
        cases p <;> cases q <;> cases r <;> simp [Before, Number.Place.before] at hab hbc ⊢
        omega
  | text s =>
    cases b with
    | place q => exact absurd hab id
    | text t =>
      cases c with
      | place r => exact absurd hbc id
      | text u => exact String.lt_trans (a := s) hab hbc

theorem Before.irrefl (a : Rank) : ¬ a.Before a := by
  cases a with
  | place p => cases p <;> simp [Before, Number.Place.before]
  | text s => exact String.lt_irrefl s

theorem Alike.trichotomy (h : a.Alike b) : a.Before b ∨ a = b ∨ b.Before a := by
  cases a with
  | place p =>
    cases b with
    | text t => exact absurd h id
    | place q =>
      cases p <;> cases q <;> simp [Before, Number.Place.before]
      omega
  | text s =>
    cases b with
    | place q => exact absurd h id
    | text t =>
      by_cases hst : s < t
      · exact .inl hst
      · rcases String.le_total s t with hle | hle
        · exact .inr (.inl (congrArg _ (String.le_antisymm hle (String.not_lt.1 hst))))
        · by_cases hts : t < s
          · exact .inr (.inr hts)
          · exact .inr (.inl (congrArg _ (String.le_antisymm (String.not_lt.1 hts) hle)))

end Rank

/-- The rank of a value; not-a-number has none. -/
def Value.rank? : Value → Option Rank
  | .number n => n.place?.map .place
  | .text s => some (.text s)

theorem Value.lt_iff {a b : Value} : a.lt b = true ↔ ∃ p ∈ a.rank?, ∃ q ∈ b.rank?, p.Before q := by
  cases a <;> cases b <;> simp [lt, rank?, Number.lt, Rank.Before]
  next m n => cases m.place? <;> cases n.place? <;> simp

theorem Value.same_iff {a b : Value} : a.same b = true ↔ ∃ p, a.rank? = some p ∧ b.rank? = some p := by
  cases a with
  | number m =>
    cases b with
    | number n =>
      simp only [same, rank?, Number.same]
      cases m.place? <;> cases n.place? <;> simp [@eq_comm Rank]
    | text t => simp [same, rank?]
  | text s =>
    cases b with
    | number n => simp [same, rank?]
    | text t => simp [same, rank?, @eq_comm _ t]

theorem Value.le_iff {a b : Value} :
    a.le b = true ↔ ∃ p ∈ a.rank?, ∃ q ∈ b.rank?, p.Before q ∨ p = q := by
  simp only [le, Bool.or_eq_true, lt_iff, same_iff, Option.mem_def]
  constructor
  · rintro (⟨p, hp, q, hq, h⟩ | ⟨p, hp, hq⟩)
    · exact ⟨p, hp, q, hq, .inl h⟩
    · exact ⟨p, hp, p, hq, .inr rfl⟩
  · rintro ⟨p, hp, q, hq, h | rfl⟩
    · exact .inl ⟨p, hp, q, hq, h⟩
    · exact .inr ⟨p, hp, hq⟩

theorem Value.isNaN_iff {v : Value} : v.isNaN = true ↔ v.rank? = none := by
  cases v with
  | text s => simp [isNaN, rank?]
  | number n =>
    cases n with
    | int m => exact iff_of_false Bool.false_ne_true (Option.some_ne_none _)
    | double x => cases x <;> simp [isNaN, Number.isNaN, Double.isNaN, rank?, Number.place?]

/-! ## Sort keys -/

/-- What a security is ordered by; one without a value has no rank. -/
def rankBy (f : Field) (s : Security) : Option Rank := (sortKey f s).bind Value.rank?

/-- The first rank comes strictly before the second in the direction. -/
def Direction.Strictly : Direction → Rank → Rank → Prop
  | .ascending, p, q => p.Before q
  | .descending, p, q => q.Before p

/-- The values of two securities go in the direction: up, or down, or they are equal. -/
def Follows (f : Field) (d : Direction) (a b : Security) : Prop :=
  ∃ u ∈ sortKey f a, ∃ v ∈ sortKey f b,
    match d with
    | .ascending => u.le v = true
    | .descending => v.le u = true

/-- Two securities have equal values. -/
def ties (f : Field) (a b : Security) : Bool :=
  match sortKey f a, sortKey f b with
  | some u, some v => u.same v
  | _, _ => false

section
variable {f : Field} {d : Direction} {a b s : Security} {p q r : Rank}

theorem Direction.Strictly.trans (hpq : d.Strictly p q) (hqr : d.Strictly q r) : d.Strictly p r := by
  cases d with
  | ascending => exact Rank.Before.trans hpq hqr
  | descending => exact Rank.Before.trans hqr hpq

theorem Direction.Strictly.irrefl (p : Rank) : ¬ d.Strictly p p := by
  cases d <;> exact Rank.Before.irrefl p

theorem Direction.Strictly.antisymm (hpq : d.Strictly p q ∨ p = q) (hqp : d.Strictly q p ∨ q = p) : p = q := by
  rcases hpq with hpq | rfl
  · rcases hqp with hqp | rfl
    · exact absurd (hpq.trans hqp) (irrefl p)
    · rfl
  · rfl

theorem Direction.trichotomy (d : Direction) (h : p.Alike q) : d.Strictly p q ∨ p = q ∨ d.Strictly q p := by
  cases d with
  | ascending => exact h.trichotomy
  | descending => rcases h.trichotomy with h | h | h <;> simp [Strictly, h]

theorem isMissing_iff : isMissing (f.read s) = true ↔ rankBy f s = none := by
  unfold rankBy sortKey
  cases f.read s with
  | none => simp [isMissing]
  | some v =>
    cases v with
    | text t => simp [isMissing, Value.isNaN, Value.rank?]
    | number n => simpa [isMissing] using Value.isNaN_iff (v := .number n)

theorem ties_iff : ties f a b = true ↔ ∃ p, rankBy f a = some p ∧ rankBy f b = some p := by
  unfold ties rankBy
  cases sortKey f a <;> cases sortKey f b <;> simp [Value.same_iff]

theorem follows_iff :
    Follows f d a b ↔ ∃ p ∈ rankBy f a, ∃ q ∈ rankBy f b, d.Strictly p q ∨ p = q := by
  unfold Follows rankBy
  cases sortKey f a <;> cases sortKey f b <;> cases d <;> simp [Value.le_iff, Direction.Strictly]
  next u v =>
    constructor
    · rintro ⟨q, hq, p, hp, h⟩
      exact ⟨p, hp, q, hq, h.imp_right Eq.symm⟩
    · rintro ⟨p, hp, q, hq, h⟩
      exact ⟨q, hq, p, hp, h.imp_right Eq.symm⟩

theorem Follows.trans {c : Security} (hab : Follows f d a b) (hbc : Follows f d b c) : Follows f d a c := by
  rw [follows_iff] at *
  obtain ⟨p, hp, q, hq, h⟩ := hab
  obtain ⟨q', hq', r, hr, h'⟩ := hbc
  cases hq.symm.trans hq'
  refine ⟨p, hp, r, hr, ?_⟩
  rcases h with h | rfl
  · rcases h' with h' | rfl
    · exact .inl (h.trans h')
    · exact .inl h
  · exact h'

/-- Securities that follow each other either way have equal values. -/
theorem Follows.ties (hab : Follows f d a b) (hba : Follows f d b a) : ties f a b = true := by
  rw [follows_iff] at *
  obtain ⟨p, hp, q, hq, h⟩ := hab
  obtain ⟨q', hq', p', hp', h'⟩ := hba
  cases hq.symm.trans hq'
  cases hp.symm.trans hp'
  obtain rfl := Direction.Strictly.antisymm h h'
  exact ties_iff.2 ⟨p, hp, hq⟩

theorem follows_of_ties (h : EquityScreen.ties f a b = true) : Follows f d a b := by
  obtain ⟨p, ha, hb⟩ := ties_iff.1 h
  exact follows_iff.2 ⟨p, ha, p, hb, .inr rfl⟩

/-- Where both securities have values of one kind, the order of sorting is that of the values. -/
theorem inOrder_iff (ha : p ∈ rankBy f a) (hb : q ∈ rankBy f b) (h : p.Alike q) :
    inOrder f d a b = true ↔ Follows f d a b := by
  have hkey : ∀ {x y : Security} {p q : Rank}, p ∈ rankBy f x → q ∈ rankBy f y →
      (keyBefore (sortKey f x) (sortKey f y) = true ↔ p.Before q) := by
    intro x y p q hx hy
    obtain ⟨u, hu, hp⟩ := Option.bind_eq_some_iff.1 hx
    obtain ⟨v, hv, hq⟩ := Option.bind_eq_some_iff.1 hy
    simp [hu, hv, keyBefore, Value.lt_iff, hp, hq]
  have hstrict : inOrder f d a b = true ↔ ¬ d.Strictly q p := by
    cases d <;> simp [inOrder, Direction.Strictly, ← hkey hb ha, ← hkey ha hb]
  rw [hstrict, follows_iff]
  constructor
  · intro hqp
    refine ⟨p, ha, q, hb, ?_⟩
    rcases d.trichotomy h with h | h | h
    · exact .inl h
    · exact .inr h
    · exact absurd h hqp
  · rintro ⟨p', hp', q', hq', h⟩
    cases ha.symm.trans hp'
    cases hb.symm.trans hq'
    rcases h with h | rfl
    · exact fun hqp => Direction.Strictly.irrefl p (h.trans hqp)
    · exact Direction.Strictly.irrefl p

end

/-! ## Sorting where the members are in an order -/

section
variable {α : Type} {le : α → α → Bool} {l : List α}

theorem mergeSort_eq_attach (le : α → α → Bool) (l : List α) :
    l.mergeSort le = (l.attach.mergeSort fun a b => le a.1 b.1).map (·.1) := by
  rw [List.map_mergeSort (s := le) fun _ _ _ _ => rfl, List.attach_map_subtype_val]

variable (htrans : ∀ a ∈ l, ∀ b ∈ l, ∀ c ∈ l, le a b = true → le b c = true → le a c = true)
  (htotal : ∀ a ∈ l, ∀ b ∈ l, (le a b || le b a) = true)
include htrans htotal

theorem pairwise_mergeSort_of_mem : (l.mergeSort le).Pairwise fun a b => le a b = true := by
  rw [mergeSort_eq_attach, List.pairwise_map]
  exact List.pairwise_mergeSort (fun a b c => htrans a.1 a.2 b.1 b.2 c.1 c.2) (fun a b => htotal a.1 a.2 b.1 b.2) _

theorem sublist_mergeSort_of_mem {part : List α} (hp : part.Pairwise fun a b => le a b = true)
    (h : part.Sublist l) : part.Sublist (l.mergeSort le) := by
  rw [← List.attach_map_subtype_val l] at h
  obtain ⟨part', hsub, rfl⟩ := List.sublist_map_iff.1 h
  rw [mergeSort_eq_attach]
  refine List.Sublist.map _ (List.sublist_mergeSort (fun a b c => htrans a.1 a.2 b.1 b.2 c.1 c.2)
    (fun a b => htotal a.1 a.2 b.1 b.2) (List.pairwise_map.1 hp) hsub)

/-- **Sorting is stable**: members that may stand in either order stay in the order of the list. -/
theorem filter_mergeSort_of_ties {tied : α → Bool}
    (hties : ∀ a ∈ l, ∀ b ∈ l, tied a = true → tied b = true → le a b = true) :
    (l.mergeSort le).filter tied = l.filter tied := by
  -- They are in order as they stand, so they pass the sorting unchanged.
  have hsub : (l.filter tied).Sublist (l.mergeSort le) := by
    refine sublist_mergeSort_of_mem htrans htotal (List.pairwise_iff_forall_sublist.2 ?_) List.filter_sublist
    intro a b hab
    obtain ⟨hal, ha⟩ := List.mem_filter.1 (hab.subset (by simp : a ∈ [a, b]))
    obtain ⟨hbl, hb⟩ := List.mem_filter.1 (hab.subset (by simp : b ∈ [a, b]))
    exact hties a hal b hbl ha hb
  have hsub' := hsub.filter tied
  rw [List.filter_filter] at hsub'
  simp only [Bool.and_self] at hsub'
  exact (hsub'.eq_of_length ((List.mergeSort_perm _ _).filter _).length_eq.symm).symm

end

/-! ## Arranged rows -/

/-- The rows of a list that have a value, in order; equal ones stand in the order of the list. -/
structure Arranged (f : Field) (d : Direction) (rows present : List Security) : Prop where
  perm : present.Perm (rows.filter fun s => !isMissing (f.read s))
  ordered : present.Pairwise (Follows f d)
  stable : ∀ s, present.filter (ties f s) = rows.filter (ties f s)

/-- The rows of a list that have no value, in its order. -/
def missingRows (f : Field) (rows : List Security) : List Security :=
  rows.filter fun s => isMissing (f.read s)

section
variable {f : Field} {d : Direction} {rows present l₁ l₂ : List Security} {a b s : Security}

theorem exists_rank (h : isMissing (f.read s) = false) : ∃ p, rankBy f s = some p :=
  Option.ne_none_iff_exists'.1 fun hn => by rw [isMissing_iff.2 hn] at h; exact absurd h (by simp)

theorem present_of_ties (h : ties f a b = true) : isMissing (f.read b) = false := by
  obtain ⟨p, -, hb⟩ := ties_iff.1 h
  refine Bool.eq_false_iff.2 fun hm => ?_
  rw [isMissing_iff.1 hm] at hb
  exact absurd hb (by simp)

theorem Arranged.isMissing (h : Arranged f d rows present) (hs : s ∈ present) :
    isMissing (f.read s) = false := by
  have := (List.mem_filter.1 (h.perm.subset hs)).2
  simpa using this

theorem Arranged.ties_self (h : Arranged f d rows present) (hs : s ∈ present) : ties f s s = true := by
  obtain ⟨p, hp⟩ := exists_rank (h.isMissing hs)
  exact ties_iff.2 ⟨p, hp, hp⟩

/-- Rows that are not of both kinds have ranks of one kind. -/
theorem alike_of_mixed (h : mixed f rows = false) (ha : a ∈ rows) (hb : b ∈ rows) {p q : Rank}
    (hp : p ∈ rankBy f a) (hq : q ∈ rankBy f b) : p.Alike q := by
  have hno : ∀ {x y : Security}, x ∈ rows → y ∈ rows → ∀ {t n},
      f.read x = some (.text t) → f.read y = some (.number n) → False := by
    intro x y hx hy t n hxt hyn
    refine absurd h (by
      rw [Bool.not_eq_false, mixed, Bool.and_eq_true, List.any_eq_true, List.any_eq_true]
      exact ⟨⟨x, hx, by rw [hxt]⟩, y, hy, by rw [hyn]⟩)
  have hkind : ∀ {x : Security} {r : Rank}, r ∈ rankBy f x →
      (∃ t, r = .text (Text.lower t) ∧ f.read x = some (.text t)) ∨
        ∃ m n, r = .place m ∧ f.read x = some (.number n) := by
    intro x r hr
    unfold rankBy sortKey at hr
    cases hx : f.read x with
    | none => simp [hx] at hr
    | some v =>
      cases v with
      | text t => exact .inl ⟨t, by simpa [hx, Value.rank?, eq_comm] using hr, rfl⟩
      | number n =>
        obtain ⟨m, -, rfl⟩ : ∃ m, n.place? = some m ∧ Rank.place m = r := by
          simpa [hx, Value.rank?] using hr
        exact .inr ⟨m, n, rfl, rfl⟩
  rcases hkind hp with ⟨t, rfl, hat⟩ | ⟨m, n, rfl, han⟩
  · rcases hkind hq with ⟨u, rfl, -⟩ | ⟨m, n, rfl, hbn⟩
    · trivial
    · exact (hno ha hb hat hbn).elim
  · rcases hkind hq with ⟨u, rfl, hbu⟩ | ⟨k, l, rfl, -⟩
    · exact (hno hb ha hbu han).elim
    · trivial

/-- **Sorting arranges the rows.** -/
theorem arranged_mergeSort (hm : mixed f (rows.filter fun s => !EquityScreen.isMissing (f.read s)) = false) :
    Arranged f d rows ((rows.filter fun s => !EquityScreen.isMissing (f.read s)).mergeSort (inOrder f d)) := by
  generalize hl : (rows.filter fun s => !EquityScreen.isMissing (f.read s)) = l at hm
  have hrank : ∀ x ∈ l, ∃ p, rankBy f x = some p := by
    intro x hx
    rw [← hl, List.mem_filter] at hx
    exact exists_rank (by simpa using hx.2)
  have hiff : ∀ x ∈ l, ∀ y ∈ l, (inOrder f d x y = true ↔ Follows f d x y) := by
    intro x hx y hy
    obtain ⟨p, hp⟩ := hrank x hx
    obtain ⟨q, hq⟩ := hrank y hy
    exact inOrder_iff hp hq (alike_of_mixed hm hx hy hp hq)
  have htrans : ∀ x ∈ l, ∀ y ∈ l, ∀ z ∈ l,
      inOrder f d x y = true → inOrder f d y z = true → inOrder f d x z = true := by
    intro x hx y hy z hz hxy hyz
    rw [hiff x hx y hy] at hxy
    rw [hiff y hy z hz] at hyz
    exact (hiff x hx z hz).2 (hxy.trans hyz)
  have htotal : ∀ x ∈ l, ∀ y ∈ l, (inOrder f d x y || inOrder f d y x) = true := by
    intro x hx y hy
    obtain ⟨p, hp⟩ := hrank x hx
    obtain ⟨q, hq⟩ := hrank y hy
    rw [Bool.or_eq_true, hiff x hx y hy, hiff y hy x hx, follows_iff, follows_iff]
    rcases d.trichotomy (alike_of_mixed hm hx hy hp hq) with h | h | h
    · exact .inl ⟨p, hp, q, hq, .inl h⟩
    · exact .inl ⟨p, hp, q, hq, .inr h⟩
    · exact .inr ⟨q, hq, p, hp, .inl h⟩
  refine ⟨by rw [hl]; exact List.mergeSort_perm _ _, ?_, fun s => ?_⟩
  · refine (pairwise_mergeSort_of_mem htrans htotal).imp_of_mem fun hx hy h => ?_
    exact (hiff _ (List.mem_mergeSort.1 hx) _ (List.mem_mergeSort.1 hy)).1 h
  · have hrows : rows.filter (ties f s) = l.filter (ties f s) := by
      rw [← hl, List.filter_filter]
      refine List.filter_congr fun x _ => ?_
      cases hx : ties f s x with
      | false => rfl
      | true => simp [present_of_ties hx]
    rw [hrows]
    refine filter_mergeSort_of_ties htrans htotal fun x hx y hy hsx hsy => ?_
    obtain ⟨p, hsp, hxp⟩ := ties_iff.1 hsx
    obtain ⟨q, hsq, hyq⟩ := ties_iff.1 hsy
    cases hsp.symm.trans hsq
    exact (hiff x hx y hy).2 (follows_of_ties (ties_iff.2 ⟨p, hxp, hyq⟩))

/-- Lists in order with the same rows of each value are the same. -/
theorem eq_of_ties (h₁ : l₁.Pairwise (Follows f d)) (h₂ : l₂.Pairwise (Follows f d))
    (hself₁ : ∀ s ∈ l₁, ties f s s = true) (hself₂ : ∀ s ∈ l₂, ties f s s = true)
    (hties : ∀ s, l₁.filter (ties f s) = l₂.filter (ties f s)) : l₁ = l₂ := by
  have hmem : ∀ s, s ∈ l₁ → s ∈ l₂ := fun s hs =>
    (List.mem_filter.1 (hties s ▸ List.mem_filter.2 ⟨hs, hself₁ s hs⟩)).1
  have hmem' : ∀ s, s ∈ l₂ → s ∈ l₁ := fun s hs =>
    (List.mem_filter.1 ((hties s).symm ▸ List.mem_filter.2 ⟨hs, hself₂ s hs⟩)).1
  induction l₁ generalizing l₂ with
  | nil =>
    cases l₂ with
    | nil => rfl
    | cons b l₂ => exact absurd (hmem' b List.mem_cons_self) (by simp)
  | cons a l₁ ih =>
    cases l₂ with
    | nil => exact absurd (hmem a List.mem_cons_self) (by simp)
    | cons b l₂ =>
      rw [List.pairwise_cons] at h₁ h₂
      rw [List.forall_mem_cons] at hself₁ hself₂
      have hab : ties f a b = true := by
        rcases List.mem_cons.1 (hmem a List.mem_cons_self) with rfl | ha
        · exact hself₁.1
        · rcases List.mem_cons.1 (hmem' b List.mem_cons_self) with rfl | hb
          · exact hself₁.1
          · exact (h₁.1 b hb).ties (h₂.1 a ha)
      have heq := hties a
      rw [List.filter_cons_of_pos hself₁.1, List.filter_cons_of_pos hab] at heq
      cases (List.cons.inj heq).1
      have htails : ∀ s, l₁.filter (ties f s) = l₂.filter (ties f s) := by
        intro s
        have := hties s
        rw [List.filter_cons, List.filter_cons] at this
        split at this
        · exact (List.cons.inj this).2
        · exact this
      rw [ih h₁.2 h₂.2 hself₁.2 hself₂.2 htails
        (fun s hs => (List.mem_filter.1 (htails s ▸ List.mem_filter.2 ⟨hs, hself₁.2 s hs⟩)).1)
        (fun s hs => (List.mem_filter.1 ((htails s).symm ▸ List.mem_filter.2 ⟨hs, hself₂.2 s hs⟩)).1)]

/-- **There is one arrangement** of given rows. -/
theorem Arranged.unique (h₁ : Arranged f d rows l₁) (h₂ : Arranged f d rows l₂) : l₁ = l₂ :=
  eq_of_ties h₁.ordered h₂.ordered (fun _ => h₁.ties_self) (fun _ => h₂.ties_self)
    fun s => (h₁.stable s).trans (h₂.stable s).symm

/-- Sorting gives the arranged rows and then those without a value, unless values of both kinds
occur. -/
theorem sortBy_ok_iff {sorted : List Security} :
    sortBy f d rows = .ok sorted ↔
      mixed f (rows.filter fun s => !EquityScreen.isMissing (f.read s)) = false ∧
        ∃ present, Arranged f d rows present ∧ sorted = present ++ missingRows f rows := by
  unfold sortBy
  dsimp only
  cases hm : mixed f (rows.filter fun s => !EquityScreen.isMissing (f.read s)) with
  | true => simp
  | false =>
    have harranged := arranged_mergeSort (d := d) hm
    simp only [Bool.false_eq_true, if_false, Except.ok.injEq, true_and]
    constructor
    · rintro rfl
      exact ⟨_, harranged, rfl⟩
    · rintro ⟨present, hp, rfl⟩
      rw [hp.unique harranged]
      rfl

/-! ## Parts of arranged rows -/

theorem Arranged.filter (h : Arranged f d rows present) (test : Security → Bool) :
    Arranged f d (rows.filter test) (present.filter test) := by
  refine ⟨?_, h.ordered.filter test, fun s => ?_⟩
  · rw [List.filter_comm]
    exact h.perm.filter test
  · rw [List.filter_comm, h.stable s, List.filter_comm]

section
variable {missing : List Security} (hpresent : ∀ s ∈ present, EquityScreen.isMissing (f.read s) = false)
  (hmissing : ∀ s ∈ missing, EquityScreen.isMissing (f.read s) = true)
include hpresent hmissing

theorem missingRows_append : missingRows f (present ++ missing) = missing := by
  have hnone : present.filter (fun s => EquityScreen.isMissing (f.read s)) = [] :=
    List.filter_eq_nil_iff.2 fun s hs => by simp [hpresent s hs]
  rw [missingRows, List.filter_append, hnone, List.filter_eq_self.2 hmissing, List.nil_append]

/-- Rows in order, and then rows without a value, are arranged as they stand. -/
theorem arranged_append (hordered : present.Pairwise (Follows f d)) :
    Arranged f d (present ++ missing) present := by
  have hall : present.filter (fun s => !EquityScreen.isMissing (f.read s)) = present :=
    List.filter_eq_self.2 fun s hs => by simp [hpresent s hs]
  have hnone : missing.filter (fun s => !EquityScreen.isMissing (f.read s)) = [] :=
    List.filter_eq_nil_iff.2 fun s hs => by simp [hmissing s hs]
  refine ⟨by rw [List.filter_append, hall, hnone, List.append_nil], hordered, fun s => ?_⟩
  have hties : missing.filter (ties f s) = [] :=
    List.filter_eq_nil_iff.2 fun x hx htie => by
      have := hmissing x hx
      rw [present_of_ties htie] at this
      exact absurd this (by simp)
  rw [List.filter_append, hties, List.append_nil]

end

/-- Arrangements of the same rows in whatever order show the same values. -/
theorem forall₂_ties_of_perm (h₁ : l₁.Pairwise (Follows f d)) (h₂ : l₂.Pairwise (Follows f d))
    (hself : ∀ s ∈ l₁, ties f s s = true) (hp : l₁.Perm l₂) :
    List.Forall₂ (fun a b => ties f a b = true) l₁ l₂ := by
  let le : Option Rank → Option Rank → Prop := fun o o' => ∃ p ∈ o, ∃ q ∈ o', d.Strictly p q ∨ p = q
  have hmap : ∀ {l : List Security}, l.Pairwise (Follows f d) → (l.map (rankBy f)).Pairwise le :=
    fun h => List.pairwise_map.2 (h.imp follows_iff.1)
  have heq : l₁.map (rankBy f) = l₂.map (rankBy f) := by
    refine List.Perm.eq_of_pairwise (fun o o' => ?_) (hmap h₁) (hmap h₂) (hp.map _)
    rintro - - ⟨p, hp, q, hq, h⟩ ⟨q', hq', p', hp', h'⟩
    cases hq.symm.trans hq'
    cases hp.symm.trans hp'
    obtain rfl := Direction.Strictly.antisymm h h'
    exact hp.trans hq.symm
  clear h₁ h₂ hp
  induction l₁ generalizing l₂ with
  | nil =>
    cases l₂ with
    | nil => exact .nil
    | cons b l₂ => exact absurd heq (by simp)
  | cons a l₁ ih =>
    cases l₂ with
    | nil => exact absurd heq (by simp)
    | cons b l₂ =>
      rw [List.map_cons, List.map_cons, List.cons.injEq] at heq
      rw [List.forall_mem_cons] at hself
      obtain ⟨p, hp, -⟩ := ties_iff.1 hself.1
      exact .cons (ties_iff.2 ⟨p, hp, heq.1 ▸ hp⟩) (ih hself.2 heq.2)

end
end EquityScreen
