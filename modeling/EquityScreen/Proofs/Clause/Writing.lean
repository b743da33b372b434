/-
How clauses are written, and that they are read as what they write.

A comparison of numbers is the name of a field, a sign, and one value or two bounds; a clause on one
sector is the sector between "in" and "sector". Such clauses are read alike whatever comes after them
(`WritesComparison.read`, `WritesSector.read`).
-/
import EquityScreen.Proofs.Clause.Naming
import EquityScreen.Proofs.Clause.Sound

namespace EquityScreen
namespace Clause

variable {c : Catalog} {f : Field} {op : Operator} {p : Predicate} {ts values : List Token}

/-! ## Comparisons -/

/-- The tokens write a comparison on a field of numbers: its name, the sign, and its value or its
bounds. -/
inductive WritesComparison (c : Catalog) : List Token → Predicate → Prop
  | intro {names values : List Token} {sign : Token} {f : Field} {op : Operator} {p : Predicate} :
    fieldAt? c names = some (f, names.length) → f.kind ≠ .text → f.kind ≠ .sector →
    sign.content = .compare op → readFilter f op values = .ok (p, values.length) →
    WritesComparison c (names ++ sign :: values) p

/-- A value of a field of numbers is one token, a number. -/
theorem readValue_number {v : Value} {n : Nat} (htext : f.kind ≠ .text) (hsector : f.kind ≠ .sector)
    (h : readValue f ts = .ok (v, n)) :
    n = 1 ∧ ∃ t more, ts = t :: more ∧ (∃ d unit currency, t.content = .number d unit currency) ∧
      ∀ rest, readValue f (t :: rest) = .ok (v, 1) := by
  rcases readValue_ok h with ⟨hk, -⟩ | ⟨-, rfl, t, more, raw, unit, currency, rfl, hstands, hv⟩
  · exact absurd hk hsector
  · cases hstands with
    | number ht =>
      refine ⟨rfl, t, more, rfl, ⟨_, _, _, ht⟩, fun rest => ?_⟩
      simp only [readValue, if_neg hsector, ht, hv]
      rfl
    | name hk | quoted hk => exact absurd hk htext

/-- The token is a number. -/
def IsNumber (t : Token) : Prop := ∃ d unit currency, t.content = .number d unit currency

theorem joiner_cons (t : Token) (ts : List Token) : joiner (t :: ts) = joiner [t] := rfl

/-- Two bounds stand next to each other or on both sides of one word, whatever comes after them. -/
theorem joiner_bounds {last : Token} {more behind : List Token} (hlast : more.drop (joiner more) = last :: behind)
    (hlength : joiner more + 1 = more.length) :
    ∃ between, more = between ++ [last] ∧ (∀ j ∈ between, joiner [j] = 1) ∧
      ∀ rest, joiner (more ++ rest) = between.length := by
  cases more with
  | nil => simp at hlast
  | cons j more =>
    have hrest : ∀ rest, joiner (j :: more ++ rest) = joiner [j] := fun rest => joiner_cons j (more ++ rest)
    rw [joiner_cons] at hlast hlength
    have hone : joiner [j] = 0 ∨ joiner [j] = 1 := by
      unfold joiner
      dsimp only
      split <;> simp
    rcases hone with hj | hj <;> rw [hj] at hlast hlength <;> simp only [List.length_cons] at hlength
    · obtain ⟨rfl, rfl⟩ := List.cons.inj hlast
      obtain rfl := List.eq_nil_of_length_eq_zero (l := more) (by omega)
      exact ⟨[], rfl, by simp, fun rest => (hrest rest).trans hj⟩
    · rw [List.drop_succ_cons, List.drop_zero] at hlast
      subst hlast
      simp only [List.length_cons] at hlength
      obtain rfl := List.eq_nil_of_length_eq_zero (l := behind) (by omega)
      exact ⟨[j], rfl, by simpa using hj, fun rest => (hrest rest).trans hj⟩

/-- Two bounds on a field of numbers are read alike whatever comes after them. -/
theorem readBetween_append (htext : f.kind ≠ .text) (hsector : f.kind ≠ .sector)
    (h : readBetween f values = .ok (p, values.length)) :
    (∀ rest, readBetween f (values ++ rest) = .ok (p, values.length)) ∧
      ∀ t ∈ values, IsNumber t ∨ joiner [t] = 1 := by
  unfold readBetween at h ⊢
  obtain ⟨⟨first, n⟩, hfirst, h⟩ := Except.bind_ok_iff.1 h
  obtain ⟨⟨last, m⟩, hlast, h⟩ := Except.bind_ok_iff.1 h
  obtain ⟨rfl, t, more, rfl, ht, hread⟩ := readValue_number htext hsector hfirst
  obtain ⟨rfl, t', behind, hmore, ht', hread'⟩ := readValue_number htext hsector hlast
  dsimp only at h hmore
  rw [List.drop_succ_cons, List.drop_zero] at hmore h
  rw [Nat.add_comm, List.drop_succ_cons] at hmore
  have hlength : 1 + joiner more + 1 = more.length + 1 := by
    split at h
    · exact (Prod.mk.inj (Except.ok.inj h)).2
    · exact absurd h (by simp [throw, throwThe, MonadExceptOf.throw])
  obtain ⟨between, rfl, hbetween, hjoiner⟩ := joiner_bounds hmore (by omega)
  refine ⟨fun rest => ?_, fun u hu => ?_⟩
  · rw [List.cons_append, hread]
    simp only [bind, Except.bind, List.drop_succ_cons, List.drop_zero, hjoiner]
    rw [Nat.add_comm 1, List.drop_succ_cons, List.append_assoc, List.drop_left, List.singleton_append, hread']
    have hnothing := hjoiner []
    rw [List.append_nil] at hnothing
    rw [hnothing, Nat.add_comm 1] at h
    exact h
  · rcases List.mem_cons.1 hu with rfl | hu
    · exact .inl ht
    · rcases List.mem_append.1 hu with hu | hu
      · exact .inr (hbetween u hu)
      · exact .inl (List.mem_singleton.1 hu ▸ ht')

/-- A filter on a field of numbers is read alike whatever comes after its values, and its values are
numbers and the word between them. -/
theorem readFilter_append (htext : f.kind ≠ .text) (hsector : f.kind ≠ .sector)
    (h : readFilter f op values = .ok (p, values.length)) :
    (∀ rest, readFilter f op (values ++ rest) = .ok (p, values.length)) ∧
      ∀ t ∈ values, IsNumber t ∨ joiner [t] = 1 := by
  unfold readFilter at h ⊢
  split
  · next hop =>
    rw [if_pos hop] at h
    exact readBetween_append htext hsector h
  · next hop =>
    rw [if_neg hop] at h
    obtain ⟨⟨v, n⟩, hv, h⟩ := Except.bind_ok_iff.1 h
    obtain ⟨rfl, t, more, rfl, ht, hread⟩ := readValue_number htext hsector hv
    have hmore : more = [] := by
      dsimp only at h
      split at h
      · have hlength := (Prod.mk.inj (Except.ok.inj h)).2
        exact List.eq_nil_of_length_eq_zero (by simpa using hlength.symm)
      · exact absurd h (by simp [throw, throwThe, MonadExceptOf.throw])
    subst hmore
    refine ⟨fun rest => ?_, fun u hu => .inl (List.mem_singleton.1 hu ▸ ht)⟩
    rw [List.cons_append, hread]
    exact h

/-! ## What comes after a clause -/

/-- The tokens after a clause: none, or first a connective, a closing parenthesis or a comma. -/
def Ends : List Token → Prop
  | [] => True
  | t :: _ => t.content = .keyword .and ∨ t.content = .keyword .or ∨ t.content = .closeParen ∨ t.content = .comma

/-- Wherever a clause may end with a token that is as `P` says, the tokens before it are read as a filter. -/
def Filters (c : Catalog) (P : Token → Prop) (ts : List Token) (p : Predicate) : Prop :=
  ∃ t more, ts = t :: more ∧
    ∀ rest, Ends rest → (∀ u ∈ rest.head?, P u) → read c t (more ++ rest) = ⟨[.filter p], ts.length⟩

theorem drop_names (names : List Token) (sign : Token) (values : List Token) :
    (names ++ sign :: values).drop (names.length + 1) = values := by
  rw [← List.drop_drop, List.drop_left]
  rfl

/-- **The name of a field and a sign are read as a comparison**, whatever comes next. -/
theorem read_comparison {names : List Token} {sign : Token}
    (hnames : fieldAt? Catalog.builtin names = some (f, names.length)) (hsign : sign.content = .compare op) :
    ∃ u more, names = u :: more ∧ u.isName = true ∧ ∀ values, read Catalog.builtin u (more ++ sign :: values) =
      ⟨[(readComparison f names.length op (names ++ sign :: values)).1],
        (readComparison f names.length op (names ++ sign :: values)).2⟩ := by
  obtain ⟨u, more, rfl, hu⟩ := exists_cons_of_longest? hnames
  refine ⟨u, more, rfl, hu, fun values => ?_⟩
  have hcontent : u.content = .name := by simpa [Token.isName] using hu
  have hword : isWord sign = false := by simp [isWord, Token.isName, words?.isKeywordToken, hsign]
  have hclause : fieldClause f (more.length + 1) (u :: (more ++ sign :: values)) =
      readComparison f (more.length + 1) op (u :: (more ++ sign :: values)) := by
    unfold fieldClause
    rw [List.drop_succ_cons, List.drop_left]
    simp only [hsign]
  unfold read
  simp only [hcontent]
  rw [readWord_named hnames hword, hclause]
  rfl

/-- The name of a field and a sign are read as a filter if the values behind them are. -/
theorem filters_of_values {P : Token → Prop} {names : List Token} {sign : Token}
    (hnames : fieldAt? Catalog.builtin names = some (f, names.length)) (hsign : sign.content = .compare op)
    (hvalues : ∀ rest, Ends rest → (∀ u ∈ rest.head?, P u) → readFilter f op (values ++ rest) = .ok (p, values.length)) :
    Filters Catalog.builtin P (names ++ sign :: values) p := by
  obtain ⟨u, more, rfl, -, hread⟩ := read_comparison hnames hsign
  refine ⟨u, more ++ sign :: values, rfl, fun rest hends hrest => ?_⟩
  rw [List.append_assoc, List.cons_append, hread, readComparison, drop_names]
  simp only [hvalues rest hends hrest, List.length_cons, List.length_append]
  congr 1
  omega

/-- **A comparison is read as the filter that it writes.** -/
theorem WritesComparison.filters (h : WritesComparison Catalog.builtin ts p) (P : Token → Prop) :
    Filters Catalog.builtin P ts p := by
  obtain ⟨hnames, htext, hsector, hsign, hvalues⟩ := h
  exact filters_of_values hnames hsign fun rest _ _ => (readFilter_append htext hsector hvalues).1 rest

/-- A comparison starts with a word, and a sign stands in it. -/
theorem WritesComparison.shape (h : WritesComparison c ts p) :
    (∃ t more, ts = t :: more ∧ t.isName = true) ∧ ∃ t ∈ ts, t.isCompare = true := by
  obtain ⟨hnames, -, -, hsign, -⟩ := h
  next names values sign f op =>
  obtain ⟨u, more, rfl, hu⟩ := exists_cons_of_longest? hnames
  exact ⟨⟨u, _, rfl, hu⟩, sign, by simp, by simp [Token.isCompare, hsign]⟩

/-- A comparison asks for something, and its parts fit the catalog. -/
theorem WritesComparison.fits (hc : c.Regular) (h : WritesComparison c ts p) :
    p ≠ .all ∧ p.Every (·.Fits c) := by
  obtain ⟨hnames, -, -, -, hvalues⟩ := h
  have hwell := readFilter_wellFormed hc (fieldAt?_some hnames) hvalues
  exact ⟨hwell.ne_all, hwell.every⟩

/-! ## Sectors -/

/-- The tokens write a clause on one sector: the sector between "in" and "sector". -/
def WritesSector (ts : List Token) (name : String) : Prop :=
  ∃ first names last, ts = first :: (names ++ [last]) ∧ first.content = .keyword .inside ∧
    last.content = .keyword .sector ∧ articleNext names = false ∧ sectorAt? names true = some (name, names.length)

variable {t : Token} {rest : List Token}

theorem sectorTerm?_some {n : Nat} {term : String} (h : sectorTerm? ts n = some term) :
    ∃ u more, ts.take n = u :: more ∧ n ≤ more.length + 1 ∧
      ((n = 1 ∧ u.content = .quoted term) ∨ u.isName = true ∧ (∀ v ∈ more, v.isName = true ∨ v.isKeyword .and = true) ∧
        term = Token.joinedText (u :: more)) := by
  unfold sectorTerm? at h
  split at h
  · exact absurd h (by simp)
  · next u more htake =>
    split at h
    · exact absurd h (by simp)
    · next hlength =>
      refine ⟨u, more, htake, by omega, ?_⟩
      split at h
      · next phrase hcontent =>
        split at h
        · next hn =>
          rw [Option.some.inj h] at hcontent
          exact .inl ⟨hn, hcontent⟩
        · exact absurd h (by simp)
      · next hcontent =>
        split at h
        · next hmore =>
            exact .inr ⟨by simp [Token.isName, hcontent], by simpa using hmore, (Option.some.inj h).symm⟩
        · exact absurd h (by simp)
      · exact absurd h (by simp)

theorem sectorTerm?_append_of_le {n : Nat} (hn : n ≤ ts.length) : sectorTerm? (ts ++ rest) n = sectorTerm? ts n := by
  rw [sectorTerm?, List.take_append_of_le_length hn, sectorTerm?]

theorem sectorTerm?_append (hname : t.isName = false) (hand : t.isKeyword .and = false)
    (hquoted : ∀ s, t.content ≠ .quoted s) (n : Nat) : sectorTerm? (ts ++ t :: rest) n = sectorTerm? ts n := by
  rcases Nat.lt_or_ge ts.length n with hn | hn
  · have hnone : ∀ l : List Token, (t ∈ l.take n ∨ l.length < n) → sectorTerm? l n = none := by
      intro l hl
      cases hterm : sectorTerm? l n with
      | none => rfl
      | some term =>
        exfalso
        obtain ⟨u, more, htake, hlength, hcases⟩ := sectorTerm?_some hterm
        rcases hl with hl | hl
        · rw [htake] at hl
          have hmem := List.length_take_le n l
          rw [htake, List.length_cons] at hmem
          rcases hcases with ⟨rfl, hu⟩ | ⟨hu, hmore, -⟩
          · rcases List.mem_cons.1 hl with rfl | hl
            · exact hquoted _ hu
            · rw [List.eq_nil_of_length_eq_zero (l := more) (by omega)] at hl
              exact absurd hl (by simp)
          · rcases List.mem_cons.1 hl with rfl | hl
            · exact absurd hu (by simp [hname])
            · exact absurd (hmore t hl) (by simp [hname, hand])
        · have hmem := congrArg List.length htake
          simp only [List.length_take, List.length_cons] at hmem
          omega
    rw [hnone ts (.inr hn), hnone _ (.inl ?_)]
    obtain ⟨k, hk⟩ := Nat.exists_eq_add_of_lt hn
    rw [hk, Nat.add_assoc, List.take_length_add_append, List.take_succ_cons]
    exact List.mem_append_right _ List.mem_cons_self
  · exact sectorTerm?_append_of_le hn

theorem sectorAt?_append (hname : t.isName = false) (hand : t.isKeyword .and = false)
    (hquoted : ∀ s, t.content ≠ .quoted s) : sectorAt? (ts ++ t :: rest) true = sectorAt? ts true := by
  unfold sectorAt?
  simp only [sectorTerm?_append hname hand hquoted, Bool.true_or]

/-- What is ahead after a clause is the token that comes next. -/
theorem Ends.orAhead (h : Ends rest) : orAhead rest = nextIs .or rest := by
  cases rest with
  | nil => rfl
  | cons t rest =>
    have hfiller : isFiller t = false := by
      rcases h with h | h | h | h <;> simp [isFiller, Token.isName, h]
    rw [Clause.orAhead, List.dropWhile_cons_of_neg (by simp [hfiller])]

/-! ## Lists of sectors -/

/-- The tokens name one sector. -/
def NamesSector (ts : List Token) (name : String) : Prop :=
  articleNext ts = false ∧ sectorAt? ts true = some (name, ts.length)

/-- The tokens name sectors, a comma between each two of them. -/
inductive NamesSectors : List Token → List String → Prop
  | one {ts name} : NamesSector ts name → NamesSectors ts [name]
  | cons {ts name t us names} : NamesSector ts name → t.content = .comma → NamesSectors us names →
    NamesSectors (ts ++ t :: us) (name :: names)

/-- The first token that names a sector is a word or a quoted phrase. -/
theorem NamesSector.first {name : String} (h : NamesSector ts name) :
    ∃ u more, ts = u :: more ∧ u.isKeyword .sector = false ∧ u.isKeyword .inside = false := by
  obtain ⟨-, term, hterm, -⟩ := sectorAt?_spec h.2
  obtain ⟨u, more, htake, -, hcases⟩ := sectorTerm?_some hterm
  rw [List.take_length] at htake
  refine ⟨u, more, htake, ?_⟩
  rcases hcases with ⟨-, hu⟩ | ⟨hu, -⟩
  · simp [Token.isKeyword, hu]
  · simp [Token.isKeyword, show u.content = .name by simpa [Token.isName] using hu]

/-- The tokens that name a sector name it before a comma and before the keyword. -/
theorem NamesSector.at {name : String} (h : NamesSector ts name) (ht : t.content = .comma ∨ t.content = .keyword .sector)
    (rest : List Token) :
    articleNext (ts ++ t :: rest) = false ∧ sectorAt? (ts ++ t :: rest) true = some (name, ts.length) := by
  obtain ⟨u, more, rfl, -⟩ := h.first
  refine ⟨h.1, ?_⟩
  rw [sectorAt?_append, h.2] <;> rcases ht with ht | ht <;> simp [Token.isName, Token.isKeyword, ht]

variable {names : List String}

theorem NamesSectors.ne_nil (h : NamesSectors ts names) :
    names ≠ [] ∧ names.length ≤ ts.length ∧ 0 < ts.length ∧
      ∃ u more, ts = u :: more ∧ u.isKeyword .sector = false ∧ u.isKeyword .inside = false := by
  induction h with
  | one h =>
    obtain ⟨u, more, rfl, hu⟩ := h.first
    exact ⟨List.cons_ne_nil _ _, by simp, by simp, u, more, rfl, hu⟩
  | cons h _ _ ih =>
    obtain ⟨u, more, rfl, hu⟩ := h.first
    refine ⟨List.cons_ne_nil _ _, ?_, by simp, u, _, rfl, hu⟩
    have := ih.2.1
    simp only [List.length_cons, List.length_append]
    omega

/-- The list goes on with whatever sector comes first. -/
theorem NamesSectors.sectorAt? (h : NamesSectors ts names) (ht : t.content = .keyword .sector) (rest : List Token) :
    (Clause.sectorAt? (ts ++ t :: rest) true).isSome = true := by
  cases h with
  | one h => rw [(h.at (.inr ht) rest).2]; rfl
  | cons h hcomma hmore => rw [List.append_assoc, List.cons_append, (h.at (.inl hcomma) _).2]; rfl

/-- **The sectors of a list** are found in their order. -/
theorem NamesSectors.sectorsFrom (h : NamesSectors ts names) (ht : t.content = .keyword .sector) (rest : List Token) :
    ∀ (fuel : Nat) (found : List String), names.length ≤ fuel → (found ++ names).Nodup →
      Clause.sectorsFrom true fuel (ts ++ t :: rest) found = (found ++ names, ts.length) := by
  induction h with
  | @one ts name h =>
    intro fuel found hfuel hnodup
    obtain ⟨fuel, rfl⟩ : ∃ n, fuel = n + 1 := ⟨fuel - 1, by simp only [List.length_singleton] at hfuel; omega⟩
    obtain ⟨harticle, hat⟩ := h.at (.inr ht) rest
    have hnew : found.contains name = false := by
      rw [List.nodup_append] at hnodup
      simpa using fun hmem => hnodup.2.2 name hmem name (List.mem_singleton_self name) rfl
    have hlast : separatorNext (t :: rest) = false := by simp [separatorNext, Token.isKeyword, ht]
    rw [Clause.sectorsFrom, harticle]
    simp only [Bool.false_eq_true, if_false, List.drop_zero, hat, Nat.zero_add, List.drop_left, hlast, Bool.false_and, hnew]
  | @cons ts name comma us names h hcomma hmore ih =>
    intro fuel found hfuel hnodup
    obtain ⟨fuel, rfl⟩ : ∃ n, fuel = n + 1 := ⟨fuel - 1, by simp only [List.length_cons] at hfuel; omega⟩
    obtain ⟨harticle, hat⟩ := h.at (.inl hcomma) (us ++ t :: rest)
    have hnew : found.contains name = false := by
      rw [List.nodup_append] at hnodup
      simpa using fun hmem => hnodup.2.2 name hmem name List.mem_cons_self rfl
    have hseparator : separatorNext (comma :: (us ++ t :: rest)) = true := by simp [separatorNext, hcomma]
    have hfound := ih fuel (found ++ [name]) (Nat.le_of_succ_le_succ hfuel) (by simpa using hnodup)
    obtain ⟨n, hn⟩ : ∃ n, us.length = n + 1 := ⟨us.length - 1, by have := hmore.ne_nil.2.2.1; omega⟩
    rw [List.append_assoc, List.cons_append, Clause.sectorsFrom, harticle]
    simp only [Bool.false_eq_true, if_false, List.drop_zero, hat, Nat.zero_add, List.drop_left, hseparator,
      List.drop_succ_cons, hmore.sectorAt? ht rest, Bool.and_self, if_true, hnew, hfound, hn]
    simp only [List.append_assoc, List.singleton_append, List.length_append, List.length_cons, hn]
    congr 1
    omega

/-- A list of sectors and the keyword. -/
theorem NamesSectors.sectorList (h : NamesSectors ts names) (hnodup : names.Nodup) (ht : t.content = .keyword .sector)
    (rest : List Token) : Clause.sectorList (ts ++ t :: rest) true = (names, ts.length + 1) := by
  obtain ⟨hne, hlength, -⟩ := h.ne_nil
  have hfrom := h.sectorsFrom ht rest (ts ++ t :: rest).length []
    (by rw [List.length_append]; omega) hnodup
  rw [Clause.sectorList, hfrom]
  simp [hne, sectorWord, nextIs, Token.isKeyword, ht]

variable {first last : Token}

/-- **Sectors that are asked for** are read as such. -/
theorem NamesSectors.read_inside (h : NamesSectors ts names) (hnodup : names.Nodup)
    (hfirst : first.content = .keyword .inside) (hlast : last.content = .keyword .sector) (hrest : Ends rest) :
    Clause.read c first (ts ++ last :: rest) = ⟨[.sectors names (nextIs .or rest)], ts.length + 2⟩ := by
  obtain ⟨hne, -, -, u, more, rfl, hu, -⟩ := h.ne_nil
  have hlist := h.sectorList hnodup hlast rest
  obtain ⟨name, names, rfl⟩ := List.exists_cons_of_ne_nil hne
  have hstart : sectorWord (u :: more ++ last :: rest) = 0 := by simp [sectorWord, nextIs, hu]
  have hinside : inside (first :: (u :: more ++ last :: rest)) =
      (.sectors (name :: names) (nextIs .or rest), 1 + ((u :: more).length + 1)) := by
    unfold inside
    rw [List.drop_succ_cons, List.drop_zero, hstart]
    dsimp only
    rw [Nat.add_zero, List.drop_succ_cons, List.drop_zero, hlist]
    dsimp only
    have hafter : (first :: (u :: more ++ last :: rest)).drop (1 + ((u :: more).length + 1)) = rest := by
      rw [Nat.add_comm 1, List.drop_succ_cons, ← List.drop_drop, List.drop_left]
      rfl
    rw [sectorClause, hafter, hrest.orAhead]
  unfold Clause.read
  simp only [hfirst, readKeyword, readKeyword.single, hinside]
  congr 1
  omega

/-- **Sectors that are left out** are read as such. -/
theorem NamesSectors.read_exclude (h : NamesSectors ts names) (hnodup : names.Nodup)
    (hfirst : first.content = .keyword .exclude) (hlast : last.content = .keyword .sector) (rest : List Token) :
    Clause.read c first (ts ++ last :: rest) = ⟨[.excludedSectors names], ts.length + 2⟩ := by
  obtain ⟨hne, -, -, u, more, rfl, hu, hu'⟩ := h.ne_nil
  have hlist := h.sectorList hnodup hlast rest
  obtain ⟨name, names, rfl⟩ := List.exists_cons_of_ne_nil hne
  have hstart : sectorWord (u :: more ++ last :: rest) = 0 := by simp [sectorWord, nextIs, hu]
  have hinside : nextIs .inside (u :: more ++ last :: rest) = false := hu'
  have hexclude : exclude c (first :: (u :: more ++ last :: rest)) =
      (.excludedSectors (name :: names), 1 + ((u :: more).length + 1)) := by
    unfold exclude
    rw [List.drop_succ_cons, List.drop_zero, hinside]
    simp only [Bool.false_eq_true, if_false, List.drop_succ_cons, List.drop_zero, hstart, Nat.add_zero, hlist]
  unfold Clause.read
  simp only [hfirst, readKeyword, readKeyword.single, hexclude]
  congr 1
  omega

/-- **A clause on a sector is read as such.** -/
theorem WritesSector.read {name : String} (h : WritesSector ts name) :
    ∃ t more, ts = t :: more ∧ ∀ rest, Ends rest →
      Clause.read c t (more ++ rest) = ⟨[.sectors [name] (nextIs .or rest)], ts.length⟩ := by
  obtain ⟨first, names, last, rfl, hfirst, hlast, harticle, hsector⟩ := h
  refine ⟨first, names ++ [last], rfl, fun rest hrest => ?_⟩
  have hlist : NamesSectors names [name] := .one ⟨harticle, hsector⟩
  rw [List.append_assoc, List.singleton_append, hlist.read_inside (List.pairwise_singleton ..) hfirst hlast hrest]
  simp

end Clause
end EquityScreen
