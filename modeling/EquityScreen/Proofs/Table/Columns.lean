/-
Which column an attribute takes its cells from.

Columns are heard by their names: of those that stand for an attribute the first one is heard, and of
those with its name the last one (`Column.source`). The names that are kept for the attributes come from a look-up
among the columns themselves (`lookup_sources`), and a column that nobody hears can be added or taken away
(`Column.Idle.source_eq`).
-/
import EquityScreen.Table

namespace EquityScreen

variable {c : Catalog} {a : Attribute}

namespace Column

open Table (attribute?)

/-- The name of the column stands for the attribute. -/
def standsFor (c : Catalog) (a : Attribute) (col : Column) : Bool := attribute? c col.name == some a

theorem standsFor_iff {col : Column} : col.standsFor c a = true ↔ attribute? c col.name = some a := by
  rw [standsFor, beq_iff_eq]

/-- The first column that stands for an attribute. -/
def firstFor (c : Catalog) (a : Attribute) (columns : List Column) : Option Column :=
  columns.find? (·.standsFor c a)

/-- The last column with a name. -/
def lastNamed (name : String) (columns : List Column) : Option Column := columns.reverse.find? (·.name == name)

/-- The column that an attribute takes its cells from: the last one with the name of the first that stands
for it. -/
def source (c : Catalog) (a : Attribute) (columns : List Column) : Option Column :=
  (firstFor c a columns).bind fun first => lastNamed first.name columns

variable {columns l r : List Column} {col first : Column}

theorem standsFor_of_firstFor (h : firstFor c a columns = some first) : first.standsFor c a = true := by
  have := List.find?_some h
  exact this

theorem mem_of_firstFor (h : firstFor c a columns = some first) : first ∈ columns := List.mem_of_find?_eq_some h

theorem lastNamed_append (name : String) (l r : List Column) :
    lastNamed name (l ++ r) = (lastNamed name r).or (lastNamed name l) := by
  rw [lastNamed, List.reverse_append, List.find?_append, lastNamed, lastNamed]

theorem lastNamed_singleton (name : String) (col : Column) :
    lastNamed name [col] = if col.name = name then some col else none := by
  rw [lastNamed, List.reverse_singleton, List.find?_singleton]
  simp only [beq_iff_eq]

theorem exists_lastNamed (h : col ∈ columns) : ∃ last, lastNamed col.name columns = some last := by
  refine Option.isSome_iff_exists.1 (List.find?_isSome.2 ⟨col, List.mem_reverse.2 h, ?_⟩)
  exact beq_self_eq_true _

theorem source_of_firstFor (h : firstFor c a columns = some first) :
    source c a columns = lastNamed first.name columns := by
  rw [source, h, Option.bind_some]

/-- An attribute has a source when some column stands for it. -/
theorem source_eq_none_iff : source c a columns = none ↔ firstFor c a columns = none := by
  cases h : firstFor c a columns with
  | none => simp [source, h]
  | some first =>
    obtain ⟨last, hlast⟩ := exists_lastNamed (mem_of_firstFor h)
    rw [source_of_firstFor h, hlast]
    simp

/-- **The source** is the last column with the name of the first one that stands for the attribute. -/
theorem source_eq_last {m n : List Column} {last : Column} (hl : ∀ x ∈ l, attribute? c x.name ≠ some a)
    (hfirst : attribute? c first.name = some a) (hlast : last.name = first.name)
    (hn : ∀ x ∈ n, x.name ≠ first.name) (hr : first :: r = m ++ last :: n) :
    source c a (l ++ first :: r) = some last := by
  have hfind : firstFor c a (l ++ first :: r) = some first := by
    rw [firstFor, List.find?_append, List.find?_eq_none.2 fun x hx => by rw [standsFor_iff]; exact hl x hx,
      Option.none_or, List.find?_cons_of_pos (standsFor_iff.2 hfirst)]
  have hnone : lastNamed first.name n = none :=
    List.find?_eq_none.2 fun x hx => by simpa using hn x (List.mem_reverse.1 hx)
  rw [source_of_firstFor hfind, hr, ← List.append_assoc, List.append_cons, lastNamed_append, lastNamed_append, hnone,
    Option.none_or, lastNamed_singleton, if_pos hlast, Option.some_or]

/-- A column is heard when it is the first for its attribute and no column behind it has its name. -/
theorem source_eq_first (hl : ∀ x ∈ l, attribute? c x.name ≠ some a) (hfirst : attribute? c first.name = some a)
    (hr : ∀ x ∈ r, x.name ≠ first.name) : source c a (l ++ first :: r) = some first :=
  source_eq_last (m := []) hl hfirst rfl hr rfl

/-- The source of an attribute stands for it. -/
theorem attribute?_of_source (h : source c a columns = some col) :
    col ∈ columns ∧ attribute? c col.name = some a := by
  obtain ⟨first, hfirst, hlast⟩ := Option.bind_eq_some_iff.1 h
  have hname : col.name = first.name := by simpa using List.find?_some hlast
  exact ⟨List.mem_reverse.1 (List.mem_of_find?_eq_some hlast),
    hname ▸ standsFor_iff.1 (standsFor_of_firstFor hfirst)⟩

/-- An attribute that no column stands for has no source. -/
theorem source_eq_none (h : ∀ x ∈ columns, attribute? c x.name ≠ some a) : source c a columns = none :=
  source_eq_none_iff.2 (List.find?_eq_none.2 fun x hx => by rw [standsFor_iff]; exact h x hx)

/-! ## Columns that are not heard -/

/-- Behind these columns the column is not heard: it stands for nothing, or for an attribute for which a
column with another name stands in front of it. -/
def Idle (c : Catalog) (l : List Column) (col : Column) : Prop :=
  ∀ a, attribute? c col.name = some a → ∃ first, firstFor c a l = some first ∧ first.name ≠ col.name

theorem Idle.firstFor_eq (h : Idle c l col) (a : Attribute) (r : List Column) :
    firstFor c a (l ++ col :: r) = firstFor c a (l ++ r) := by
  unfold firstFor
  rw [List.find?_append, List.find?_append, List.find?_cons]
  split
  · next hcol =>
    obtain ⟨first, hfirst, -⟩ := h a (standsFor_iff.1 hcol)
    rw [firstFor] at hfirst
    rw [hfirst, Option.some_or, Option.some_or]
  · rfl

/-- **A column that is not heard** changes the source of no attribute. -/
theorem Idle.source_eq (h : Idle c l col) (a : Attribute) (r : List Column) :
    source c a (l ++ col :: r) = source c a (l ++ r) := by
  unfold source
  rw [h.firstFor_eq]
  cases hfirst : firstFor c a (l ++ r) with
  | none => rfl
  | some first =>
    have hne : first.name ≠ col.name := by
      intro hname
      have hcol := standsFor_iff.1 (standsFor_of_firstFor hfirst)
      rw [hname] at hcol
      obtain ⟨other, hother, hne⟩ := h a hcol
      rw [firstFor] at hother hfirst
      rw [List.find?_append, hother, Option.some_or, Option.some.injEq] at hfirst
      exact hne (hfirst ▸ hname)
    rw [Option.bind_some, Option.bind_some, List.append_cons, lastNamed_append, lastNamed_append, lastNamed_append,
      lastNamed_singleton, if_neg hne.symm, Option.none_or]

/-- A column with the name of an attribute, in front of columns that do not stand for it, is the source of
that attribute, and changes that of no other. -/
theorem source_cons (hcol : attribute? c col.name = some a) (hr : firstFor c a columns = none) :
    source c a (col :: columns) = some col ∧
      ∀ b, b ≠ a → source c b (col :: columns) = source c b columns := by
  have hother : ∀ x ∈ columns, x.name ≠ col.name := by
    intro x hx hname
    rw [← hname] at hcol
    exact List.find?_eq_none.1 hr x hx (standsFor_iff.2 hcol)
  refine ⟨source_eq_first (l := []) nofun hcol hother, fun b hb => ?_⟩
  have hcolb : col.standsFor c b = false := by
    rw [standsFor, hcol]
    simpa using hb.symm
  have hfirst : firstFor c b (col :: columns) = firstFor c b columns :=
    List.find?_cons_of_neg (by rw [hcolb]; exact Bool.false_ne_true)
  unfold source
  rw [hfirst]
  cases h : firstFor c b columns with
  | none => rfl
  | some first =>
    obtain ⟨last, hlast⟩ := exists_lastNamed (mem_of_firstFor h)
    rw [Option.bind_some, Option.bind_some, ← List.singleton_append, lastNamed_append, hlast, Option.some_or]

end Column

namespace Table

open Column (firstFor lastNamed source)

variable {t : Table} {names : List String}

/-! ## Look-ups -/

theorem lookup_foldl_sources (c : Catalog) (a : Attribute) (names : List String) (found : List (Attribute × String)) :
    (names.foldl (fun found name =>
        match attribute? c name with
        | some a => if found.any (·.1 == a) then found else found ++ [(a, name)]
        | none => found) found).lookup a =
      (found.lookup a).or (names.find? fun name => attribute? c name == some a) := by
  induction names generalizing found with
  | nil => simp
  | cons name names ih =>
    rw [List.foldl_cons, ih, List.find?_cons]
    cases hname : attribute? c name with
    | none => rfl
    | some b =>
      dsimp only
      by_cases hknown : found.any (·.1 == b) = true
      · rw [if_pos hknown]
        by_cases hab : b = a
        · subst hab
          obtain ⟨p, hp, hpb⟩ := List.any_eq_true.1 hknown
          have hsome : (found.lookup b).isSome = true :=
            List.lookup_isSome_iff.2 ⟨p, hp, beq_iff_eq.2 (beq_iff_eq.1 hpb).symm⟩
          obtain ⟨other, hother⟩ := Option.isSome_iff_exists.1 hsome
          rw [hother, Option.some_or, Option.some_or]
        · rw [show (some b == some a) = false from beq_eq_false_iff_ne.2 (mt Option.some.inj hab)]
      · rw [if_neg hknown, List.lookup_append, List.lookup_cons, List.lookup_nil, Option.or_assoc]
        by_cases hab : b = a
        · subst hab
          simp only [beq_self_eq_true, Option.some_or]
        · rw [show (some b == some a) = false from beq_eq_false_iff_ne.2 (mt Option.some.inj hab),
            show (a == b) = false from beq_eq_false_iff_ne.2 (Ne.symm hab), Option.none_or]

/-- The name that is kept for an attribute is that of the first column for it. -/
theorem lookup_sources (c : Catalog) (a : Attribute) (columns : List Column) :
    (sources c (columns.map (·.name))).lookup a = (firstFor c a columns).map (·.name) := by
  refine (lookup_foldl_sources c a _ []).trans ?_
  rw [List.lookup_nil, Option.none_or, List.find?_map]
  rfl

/-- An attribute has a name that is kept for it when it has a column. -/
theorem any_sources (c : Catalog) (a : Attribute) (columns : List Column) :
    (sources c (columns.map (·.name))).any (·.1 == a) = (source c a columns).isSome := by
  have hsource : (source c a columns).isSome = (firstFor c a columns).isSome := by
    rw [Bool.eq_iff_iff, Option.isSome_iff_ne_none, Option.isSome_iff_ne_none, ne_eq, ne_eq, Column.source_eq_none_iff]
  rw [hsource, ← Option.isSome_map (f := (·.name)), ← lookup_sources, Bool.eq_iff_iff, List.any_eq_true,
    List.lookup_isSome_iff]
  simp only [beq_iff_eq, eq_comm (a := a)]

theorem lookup_map_snd (g : Attribute → String → Option Value) (a : Attribute) (l : List (Attribute × String)) :
    (l.map fun p => (p.1, g p.1 p.2)).lookup a = (l.lookup a).map (g a) := by
  induction l with
  | nil => rfl
  | cons p l ih =>
    obtain ⟨b, name⟩ := p
    rw [List.map_cons, List.lookup_cons, List.lookup_cons, ih]
    cases hab : a == b with
    | false => rfl
    | true => rw [beq_iff_eq.1 hab]; rfl

end Table
end EquityScreen
