/-
Reading with a cursor.

Reading can also go by a cursor: a loop that moves it from clause to clause and, should a reading leave it where it was,
a token further; and within a reading loops over lists of sectors, over words without meaning and over values that
cannot be read. The loops stand here turn by turn, without a bound on their turns: a loop comes to an answer if finitely
many turns lead to it. Wherever the cursor starts, all of them come to one answer, and it is what reading from a row of
tokens gives: the cursor moves right with every reading, so that going from clause to clause takes no more turns than
there are tokens, and never one that only moves the cursor (`Cursor.loops_end`).
-/
import EquityScreen.Draft
import EquityScreen.Proofs.Clause.Progress
import EquityScreen.Proofs.Grouping.Descent

namespace EquityScreen
namespace Cursor

/-! ## The loops -/

/-- The loop over tokens that pass a test comes to this place behind them. -/
inductive Past (p : Token → Bool) (tokens : List Token) : Nat → Nat → Prop
  | done {cursor : Nat} : (∀ t ∈ (tokens.drop cursor).head?, p t = false) → Past p tokens cursor cursor
  | turn {cursor stop : Nat} {t : Token} : (tokens.drop cursor).head? = some t → p t = true →
    Past p tokens (cursor + 1) stop → Past p tokens cursor stop

/-- The place behind a value that cannot be read: behind numbers and quoted texts, or behind one word. -/
def PastBadValue (tokens : List Token) (cursor stop : Nat) : Prop :=
  ∃ n, Past Clause.isValue tokens cursor n ∧
    stop = if n = cursor then cursor + (if (tokens.drop cursor).head?.any Token.isName then 1 else 0) else n

/-- Whether an "or" is the first token from the cursor on that is no word without meaning. -/
def OrAhead (tokens : List Token) (cursor : Nat) (ahead : Bool) : Prop :=
  ∃ n, Past Clause.isFiller tokens cursor n ∧ ahead = Clause.nextIs .or (tokens.drop n)

/-- Where a sector in a list may be named. -/
def behindArticle (tokens : List Token) (cursor : Nat) : Nat :=
  if Clause.articleNext (tokens.drop cursor) then cursor + 1 else cursor

/-- The sectors found, with one more unless it is there already. -/
def noted (found : List String) (sector : String) : List String :=
  if found.contains sector then found else found ++ [sector]

/-- Another sector of the list comes next. -/
def goesOn (anchored : Bool) (tokens : List Token) (stop : Nat) : Bool :=
  Clause.separatorNext (tokens.drop stop) && (Clause.sectorAt? (tokens.drop (stop + 1)) anchored).isSome

/-- The loop over a list of sectors, from the cursor on and after those found already, comes to these sectors and the
place behind the last of them. -/
inductive Lists (anchored : Bool) (tokens : List Token) : Nat → Nat → List String → List String × Nat → Prop
  | nothing {cursor behind : Nat} {found : List String} :
    Clause.sectorAt? (tokens.drop (behindArticle tokens cursor)) anchored = none →
    Lists anchored tokens cursor behind found (found, behind)
  | last {cursor behind n : Nat} {found : List String} {sector : String} :
    Clause.sectorAt? (tokens.drop (behindArticle tokens cursor)) anchored = some (sector, n) →
    goesOn anchored tokens (behindArticle tokens cursor + n) = false →
    Lists anchored tokens cursor behind found (noted found sector, behindArticle tokens cursor + n)
  | turn {cursor behind n : Nat} {found : List String} {sector : String} {r : List String × Nat} :
    Clause.sectorAt? (tokens.drop (behindArticle tokens cursor)) anchored = some (sector, n) →
    goesOn anchored tokens (behindArticle tokens cursor + n) = true →
    Lists anchored tokens (behindArticle tokens cursor + n + 1) (behindArticle tokens cursor + n) (noted found sector) r →
    Lists anchored tokens cursor behind found r

/-- Where the clauses at the front of the tokens `t :: ts`, which start at the cursor, leave it. -/
def after (c : Catalog) (cursor : Nat) (t : Token) (ts : List Token) : Nat := cursor + (Clause.read c t ts).used

/-- What going from clause to clause comes to: the draft, the number of turns, and how many of them had to move a cursor
that the reading left where it was. -/
structure Outcome where
  draft : Draft
  turns : Nat
  unmoved : Nat

/-- Going from clause to clause comes to this. -/
inductive Runs (c : Catalog) (tokens : List Token) : Nat → Draft → Outcome → Prop
  | done {cursor : Nat} {d : Draft} : tokens.drop cursor = [] → Runs c tokens cursor d ⟨d, 0, 0⟩
  | moved {cursor : Nat} {d : Draft} {t : Token} {ts : List Token} {o : Outcome} : tokens.drop cursor = t :: ts →
    after c cursor t ts ≠ cursor → Runs c tokens (after c cursor t ts) ((Clause.read c t ts).clauses.foldl Draft.add d) o →
    Runs c tokens cursor d ⟨o.draft, o.turns + 1, o.unmoved⟩
  | unmoved {cursor : Nat} {d : Draft} {t : Token} {ts : List Token} {o : Outcome} : tokens.drop cursor = t :: ts →
    after c cursor t ts = cursor → Runs c tokens (cursor + 1) ((Clause.read c t ts).clauses.foldl Draft.add d) o →
    Runs c tokens cursor d ⟨o.draft, o.turns + 1, o.unmoved + 1⟩

/-! ## Within a reading -/

variable {c : Catalog} {p : Token → Bool} {tokens : List Token} {cursor stop : Nat}

/-- The loop ends behind the longest run of tokens that pass. -/
theorem past_iff : Past p tokens cursor stop ↔ stop = cursor + ((tokens.drop cursor).takeWhile p).length := by
  induction hrest : tokens.drop cursor generalizing cursor with
  | nil =>
    constructor
    · intro h
      cases h with
      | done => rfl
      | turn ht => exact absurd ht (by simp [hrest])
    · rintro rfl
      exact .done (by simp [hrest])
  | cons t ts ih =>
    have hnext : tokens.drop (cursor + 1) = ts := by rw [← List.drop_drop, hrest]; rfl
    have hhead : (tokens.drop cursor).head? = some t := by rw [hrest]; rfl
    cases hp : p t with
    | false =>
      rw [List.takeWhile_cons_of_neg (by simp [hp])]
      constructor
      · intro h
        cases h with
        | done => rfl
        | turn ht hpass =>
          obtain rfl := Option.some.inj (hhead.symm.trans ht)
          exact absurd (hp.symm.trans hpass) (by decide)
      · rintro rfl
        exact .done fun u hu => Option.some.inj (hhead.symm.trans hu) ▸ hp
    | true =>
      rw [List.takeWhile_cons_of_pos hp, List.length_cons, Nat.add_comm _ 1, ← Nat.add_assoc, ← ih hnext]
      constructor
      · intro h
        cases h with
        | done hstop => exact absurd (hp.symm.trans (hstop t hhead)) (by decide)
        | turn _ _ h => exact h
      · exact fun h => .turn hhead hp h

theorem pastBadValue_iff : PastBadValue tokens cursor stop ↔ stop = cursor + Clause.badValueLength (tokens.drop cursor) := by
  simp only [PastBadValue, past_iff, exists_eq_left, Nat.add_eq_left, Clause.badValueLength_eq]
  split
  · cases tokens.drop cursor <;> rfl
  · rfl

theorem orAhead_iff {ahead : Bool} : OrAhead tokens cursor ahead ↔ ahead = Clause.orAhead (tokens.drop cursor) := by
  simp only [OrAhead, past_iff, exists_eq_left, Clause.orAhead, ← List.drop_drop, Clause.drop_takeWhile_length]

/-- The names of a list of sectors with the place behind them, where reading took up so many tokens from the cursor
on, or none. -/
def placed (cursor behind : Nat) (r : List String × Nat) : List String × Nat :=
  (r.1, if r.2 = 0 then behind else cursor + r.2)

section Lists

variable {anchored : Bool} {behind n : Nat} {found : List String} {sector : String} {r : List String × Nat}

theorem lists_of_nothing (h : Clause.sectorAt? (tokens.drop (behindArticle tokens cursor)) anchored = none) :
    Lists anchored tokens cursor behind found r ↔ r = (found, behind) := by
  constructor
  · intro hlists
    cases hlists with
    | nothing => rfl
    | last hsector => exact absurd (h.symm.trans hsector) (by simp)
    | turn hsector => exact absurd (h.symm.trans hsector) (by simp)
  · rintro rfl
    exact .nothing h

theorem lists_of_sector (h : Clause.sectorAt? (tokens.drop (behindArticle tokens cursor)) anchored = some (sector, n)) :
    Lists anchored tokens cursor behind found r ↔
      if goesOn anchored tokens (behindArticle tokens cursor + n) then
        Lists anchored tokens (behindArticle tokens cursor + n + 1) (behindArticle tokens cursor + n) (noted found sector) r
      else r = (noted found sector, behindArticle tokens cursor + n) := by
  constructor
  · intro hlists
    cases hlists with
    | nothing hnone => exact absurd (h.symm.trans hnone) (by simp)
    | last hsector hlast =>
      obtain ⟨rfl, rfl⟩ := Prod.mk.inj (Option.some.inj (h.symm.trans hsector))
      rw [hlast]
      rfl
    | turn hsector hmore hlists =>
      obtain ⟨rfl, rfl⟩ := Prod.mk.inj (Option.some.inj (h.symm.trans hsector))
      rw [if_pos hmore]
      exact hlists
  · split
    · next hmore => exact .turn h hmore
    · next hlast =>
      rintro rfl
      exact .last h (by simpa using hlast)

/-- The loop over a list of sectors ends: each turn takes up a sector at least. -/
theorem lists_iff {fuel : Nat} (hfuel : (tokens.drop cursor).length ≤ fuel) :
    Lists anchored tokens cursor behind found r ↔
      r = placed cursor behind (Clause.sectorsFrom anchored fuel (tokens.drop cursor) found) := by
  induction fuel generalizing cursor behind found with
  | zero =>
    have hnil : tokens.drop cursor = [] := List.eq_nil_of_length_eq_zero (Nat.le_zero.1 hfuel)
    have hsector : Clause.sectorAt? (tokens.drop (behindArticle tokens cursor)) anchored = none := by
      have hstart : behindArticle tokens cursor = cursor := by
        rw [behindArticle, hnil]
        rfl
      rw [hstart, hnil]
      rfl
    rw [lists_of_nothing hsector]
    rfl
  | succ fuel ih =>
    rw [Clause.sectorsFrom]
    dsimp only
    generalize harticle : (if Clause.articleNext (tokens.drop cursor) = true then 1 else 0) = article
    have hstart : behindArticle tokens cursor = cursor + article := by
      rw [behindArticle, ← harticle]
      split <;> rfl
    rw [List.drop_drop]
    cases hsector : Clause.sectorAt? (tokens.drop (cursor + article)) anchored with
    | none => exact lists_of_nothing (hstart ▸ hsector)
    | some named =>
      obtain ⟨sector, n⟩ := named
      have hn := Clause.one_le_sectorAt? hsector
      have hpos : article + n ≠ 0 := by omega
      have hused : cursor + (article + n) = cursor + article + n := (Nat.add_assoc _ _ _).symm
      rw [← hstart] at hsector
      rw [lists_of_sector hsector, hstart]
      dsimp only
      rw [List.drop_drop, List.drop_drop, hused]
      unfold goesOn
      split
      · have hless : (tokens.drop (cursor + article + n + 1)).length ≤ fuel := by
          rw [List.length_drop] at hfuel ⊢
          omega
        rw [ih hless, noted]
        obtain ⟨names, more⟩ := Clause.sectorsFrom anchored fuel (tokens.drop (cursor + article + n + 1)) _
        cases more with
        | zero =>
          simp only [placed, if_true]
          rw [if_neg hpos, hused]
        | succ more =>
          simp only [placed]
          rw [if_neg (Nat.succ_ne_zero _), if_neg (by omega)]
          rw [show cursor + article + n + 1 + (more + 1) = cursor + (article + n + 1 + (more + 1)) by omega]
      · unfold placed
        rw [if_neg hpos, hused, noted]

end Lists

/-! ## From clause to clause -/

theorem lt_after (cursor : Nat) (t : Token) (ts : List Token) : cursor < after c cursor t ts :=
  Nat.lt_add_of_pos_right (Clause.one_le_used c t ts)

theorem runs_of_nil {d : Draft} {o : Outcome} (h : tokens.drop cursor = []) : Runs c tokens cursor d o ↔ o = ⟨d, 0, 0⟩ := by
  constructor
  · intro hruns
    cases hruns with
    | done => rfl
    | moved hcons => exact absurd (h.symm.trans hcons) (by simp)
    | unmoved hcons => exact absurd (h.symm.trans hcons) (by simp)
  · rintro rfl
    exact .done h

/-- A turn goes on behind what it has read. -/
theorem runs_of_cons {d : Draft} {o : Outcome} {t : Token} {ts : List Token} (h : tokens.drop cursor = t :: ts) :
    Runs c tokens cursor d o ↔ ∃ o', Runs c tokens (after c cursor t ts) ((Clause.read c t ts).clauses.foldl Draft.add d) o' ∧
      o = ⟨o'.draft, o'.turns + 1, o'.unmoved⟩ := by
  have hmoved : after c cursor t ts ≠ cursor := Nat.ne_of_gt (lt_after cursor t ts)
  constructor
  · intro hruns
    cases hruns with
    | done hnil => exact absurd (h.symm.trans hnil) (by simp)
    | moved hcons _ hrest =>
      obtain ⟨rfl, rfl⟩ := List.cons.inj (h.symm.trans hcons)
      exact ⟨_, hrest, rfl⟩
    | unmoved hcons hstays =>
      obtain ⟨rfl, rfl⟩ := List.cons.inj (h.symm.trans hcons)
      exact absurd hstays hmoved
  · rintro ⟨o', hrest, rfl⟩
    exact .moved h hmoved hrest

/-- Going from clause to clause ends, without a turn in which only the cursor is moved: each turn takes up a token at
least. -/
theorem runs_iff {fuel : Nat} (cursor : Nat) (d : Draft) (hfuel : (tokens.drop cursor).length ≤ fuel) :
    ∃ turns ≤ (tokens.drop cursor).length, ∀ o,
      Runs c tokens cursor d o ↔ o = ⟨Draft.gather c fuel (tokens.drop cursor) d, turns, 0⟩ := by
  induction fuel generalizing cursor d with
  | zero =>
    have hnil : tokens.drop cursor = [] := List.eq_nil_of_length_eq_zero (Nat.le_zero.1 hfuel)
    exact ⟨0, Nat.zero_le _, fun o => runs_of_nil hnil⟩
  | succ fuel ih =>
    cases hrest : tokens.drop cursor with
    | nil => exact ⟨0, Nat.zero_le _, fun o => runs_of_nil hrest⟩
    | cons t ts =>
      have hafter : tokens.drop (after c cursor t ts) = (t :: ts).drop (Clause.read c t ts).used := by
        rw [after, ← List.drop_drop, hrest]
      have hmoved := lt_after (c := c) cursor t ts
      have hless : (tokens.drop (after c cursor t ts)).length < (tokens.drop cursor).length := by
        have hsome : 0 < (tokens.drop cursor).length := hrest ▸ Nat.succ_pos _
        rw [List.length_drop] at hsome ⊢
        rw [List.length_drop]
        omega
      obtain ⟨turns, hturns, hrun⟩ := ih (after c cursor t ts) ((Clause.read c t ts).clauses.foldl Draft.add d) (by omega)
      refine ⟨turns + 1, hrest ▸ Nat.lt_of_le_of_lt hturns hless, fun o => ?_⟩
      rw [runs_of_cons hrest]
      simp only [hrun, exists_eq_left, hafter]
      rfl

/-- **Reading ends**, wherever it starts: every reading moves the cursor right, so that going from clause to clause takes
no more turns than there are tokens left and never has to move the cursor by itself; the loops over lists of sectors, over
words without meaning and over values that cannot be read end; and so do the loops that read the items of a filter, with
all of them read. Each of them comes to one answer. -/
theorem loops_end (c : Catalog) (tokens : List Token) (cursor : Nat) :
    (∀ t ts, cursor < after c cursor t ts) ∧
    (∀ d, ∃ turns ≤ (tokens.drop cursor).length, ∀ o, Runs c tokens cursor d o ↔
      o = ⟨Draft.gather c (tokens.drop cursor).length (tokens.drop cursor) d, turns, 0⟩) ∧
    (∀ anchored r, Lists anchored tokens cursor cursor [] r ↔
      r = placed cursor cursor (Clause.sectorsFrom anchored (tokens.drop cursor).length (tokens.drop cursor) [])) ∧
    (∀ stop, Past Clause.isFiller tokens cursor stop ↔
      stop = cursor + ((tokens.drop cursor).takeWhile Clause.isFiller).length) ∧
    (∀ ahead, OrAhead tokens cursor ahead ↔ ahead = Clause.orAhead (tokens.drop cursor)) ∧
    (∀ stop, PastBadValue tokens cursor stop ↔ stop = cursor + Clause.badValueLength (tokens.drop cursor)) ∧
    ∀ items p, Descent.Builds items p ↔ p = Predicate.ofItems items :=
  ⟨lt_after cursor, fun d => runs_iff cursor d (Nat.le_refl _), fun _ _ => lists_iff (Nat.le_refl _), fun _ => past_iff,
    fun _ => orAhead_iff, fun _ => pastBadValue_iff, fun _ _ => Descent.builds_iff⟩

end Cursor
end EquityScreen
