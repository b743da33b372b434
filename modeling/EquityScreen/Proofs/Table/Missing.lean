/-
A missing cell stays missing (`missing_cell`): in a column of figures it satisfies no comparison, and in
either order its row comes behind every row that has a value. A missing name, sector or industry is an empty
text instead, which compares and sorts as such (`not_forall_missing_cell`).
-/
import EquityScreen.Proofs.Table.Mixed

namespace EquityScreen

/-! ## The order of the rows -/

section
variable {f : Field} {d : Direction} {rows : List Security}

/-- The numbers of the rows in the order of a field, those of the rows without a value last. -/
def rowOrder (f : Field) (d : Direction) (rows : List Security) : List (Fin rows.length) :=
  ((List.finRange rows.length).filter fun i => !isMissing (f.read (rows.get i))).mergeSort
      (fun i j => inOrder f d (rows.get i) (rows.get j)) ++
    (List.finRange rows.length).filter fun i => isMissing (f.read (rows.get i))

theorem rowOrder_perm (f : Field) (d : Direction) (rows : List Security) :
    (rowOrder f d rows).Perm (List.finRange rows.length) := by
  unfold rowOrder
  refine ((List.mergeSort_perm _ _).append_right _).trans (List.perm_append_comm.trans ?_)
  exact List.filter_append_perm (fun i : Fin rows.length => isMissing (f.read (rows.get i))) _

/-- **Sorting moves whole rows.** -/
theorem eq_map_rowOrder {sorted : List Security} (h : sortBy f d rows = .ok sorted) :
    sorted = (rowOrder f d rows).map rows.get := by
  have hfilter : ∀ p : Security → Bool,
      rows.filter p = ((List.finRange rows.length).filter fun i => p (rows.get i)).map rows.get := fun p => by
    conv_lhs => rw [← List.map_get_finRange rows, List.filter_map]
    rfl
  unfold sortBy at h
  dsimp only at h
  split at h
  · exact absurd h nofun
  · rw [← Except.ok.inj h, rowOrder, List.map_append, hfilter, hfilter]
    congr 1
    refine (List.map_mergeSort (f := rows.get) fun _ _ _ _ => ?_).symm
    rfl

/-- Behind a row without a value there are only such. -/
theorem pairwise_rowOrder (f : Field) (d : Direction) (rows : List Security) :
    (rowOrder f d rows).Pairwise fun i j =>
      isMissing (f.read (rows.get i)) = true → isMissing (f.read (rows.get j)) = true := by
  have hback : ∀ j ∈ (List.finRange rows.length).filter fun i => isMissing (f.read (rows.get i)),
      isMissing (f.read (rows.get j)) = true := fun j hj => (List.mem_filter.1 hj).2
  refine List.pairwise_append.2 ⟨?_, ?_, fun _ _ j hj _ => hback j hj⟩
  · refine List.pairwise_of_forall_mem_list fun i hi _ _ hmissing => ?_
    have hpresent := (List.mem_filter.1 (List.mem_mergeSort.1 hi)).2
    rw [hmissing] at hpresent
    exact absurd hpresent Bool.false_ne_true
  · exact List.pairwise_of_forall_mem_list fun _ _ j hj _ => hback j hj

end

/-- Each row stands in an order of the rows, so one that is missing stands behind one that is not. -/
theorem idxOf_lt_of_missing {n : Nat} {order : List (Fin n)} (hperm : order.Perm (List.finRange n))
    {missing : Fin n → Bool} (h : order.Pairwise fun i j => missing i = true → missing j = true) {i j : Fin n}
    (hi : missing i = true) (hj : missing j = false) : order.idxOf j < order.idxOf i := by
  have hmem : ∀ k : Fin n, order.idxOf k < order.length :=
    fun k => List.idxOf_lt_length_of_mem (hperm.mem_iff.2 (List.mem_finRange k))
  have hat : ∀ k : Fin n, order.get ⟨order.idxOf k, hmem k⟩ = k := fun k => List.getElem_idxOf (hmem k)
  rcases Nat.lt_trichotomy (order.idxOf j) (order.idxOf i) with hlt | heq | hgt
  · exact hlt
  · have hji : j = i := by
      rw [← hat j, ← hat i]
      simp only [heq]
    rw [hji, hi] at hj
    exact absurd hj.symm Bool.false_ne_true
  · have hbehind := List.pairwise_iff_get.1 h ⟨_, hmem i⟩ ⟨_, hmem j⟩ hgt
    rw [hat i, hat j, hj] at hbehind
    exact absurd (hbehind hi) Bool.false_ne_true

namespace Table

variable {c : Catalog} {t : Table} {rows : List Security} {a : Attribute}

theorem isMissing_held (ha : a.isText = false) (cell : Option Value) : isMissing (a.held cell) = isMissing cell := by
  unfold Attribute.held Security.defaultCell
  cases h : isMissing cell with
  | true => simp only [ha, if_true, Bool.false_eq_true, if_false]; rfl
  | false => simpa using h

/-- **A missing cell stays missing.** A name, a sector or an industry that is missing is an empty text. Of
another attribute than the symbol the security of the row has no value then: no comparison on a field of the
attribute holds of it, whatever the operator and the value, and when the rows are put in the order of the
field, up or down, every row with a value comes before it. -/
theorem missing_cell (h : t.securities c = .ok rows) {i : Nat} (hi : i < rows.length) (ha : a ≠ .symbol)
    (hcell : isMissing (t.cellFor c a i) = true) :
    (a.isText = true → rows[i].cell a = some (.text "")) ∧
      (a.isText = false → rows[i].cell a = none ∧
        ∀ key f, c.field? key = some f → f.attr = a →
          (∀ op v, (Comparison.mk key op v).holds c rows[i] = .ok false) ∧
          ∀ d sorted, sortRows c rows (some ⟨key, d⟩) = .ok sorted →
            ∃ order : List (Fin rows.length), order.Perm (List.finRange rows.length) ∧ sorted = order.map rows.get ∧
              ∀ j : Fin rows.length, isMissing (t.cellFor c a j) = false → order.idxOf j < order.idxOf ⟨i, hi⟩) := by
  obtain ⟨-, hrows⟩ := securities_rows h
  have hread := hrows i hi a ha
  rw [Attribute.held, if_pos hcell, Security.defaultCell] at hread
  refine ⟨fun htext => by rw [hread, if_pos htext], fun hfigure => ?_⟩
  rw [if_neg (by simp [hfigure])] at hread
  refine ⟨hread, fun key f hf hattr => ⟨fun op v => ?_, fun d sorted hsorted => ?_⟩⟩
  · unfold Comparison.holds
    dsimp only
    rw [hf]
    dsimp only
    rw [Field.read, hattr, hread]
  · rw [sortRows] at hsorted
    dsimp only at hsorted
    rw [Catalog.require, hf] at hsorted
    have hpairwise := pairwise_rowOrder f d rows
    have hmissing : ∀ j : Fin rows.length, isMissing (f.read (rows.get j)) = isMissing (t.cellFor c a j) := fun j => by
      rw [Field.read, hattr, List.get_eq_getElem, hrows j j.2 a ha, isMissing_held hfigure]
    simp only [hmissing] at hpairwise
    have hperm := rowOrder_perm f d rows
    exact ⟨_, hperm, eq_map_rowOrder hsorted, fun j hj => idxOf_lt_of_missing hperm hpairwise hcell hj⟩

/-- A missing name is an empty text. A price to earnings that is not-a-number compares with nothing, and in
either order its row comes behind the others. -/
theorem missing_cell_nan :
    let t : Table := { columns := [⟨"symbol", [some (.text "A"), some (.text "B"), some (.text "C")]⟩,
      ⟨"name", [none, some (.text "Beta"), some (.text "Gamma")]⟩,
      ⟨"pe", [some (.number (.int 12)), some (.number (.double .nan)), some (.number (.int 9))]⟩] }
    ∃ rows, t.securities Catalog.builtin = .ok rows ∧ ∃ hrows : rows.length = 3,
      rows[0].cell .name = some (.text "") ∧
        (∀ op v, (Comparison.mk "pe" op v).holds Catalog.builtin rows[1] = .ok false) ∧
        ∀ d, ∃ sorted, sortRows Catalog.builtin rows (some ⟨"pe", d⟩) = .ok sorted ∧
          ∃ order : List (Fin rows.length), order.Perm (List.finRange rows.length) ∧ sorted = order.map rows.get ∧
            ∀ j : Fin rows.length, j.1 ≠ 1 → order.idxOf j < order.idxOf ⟨1, hrows ▸ by decide⟩ := by
  intro t
  have hsymbol : attribute? Catalog.builtin "symbol" = some .symbol := attribute?_column _ .symbol
  have hname : attribute? Catalog.builtin "name" = some .name := attribute?_column _ .name
  have hpe : attribute? Catalog.builtin "pe" = some .pe := attribute?_column _ .pe
  have hnames : Column.source Catalog.builtin .name t.columns = some t.columns[1] :=
    Column.source_eq_first (l := [t.columns[0]]) (r := [t.columns[2]]) (by simp [t, hsymbol]) hname (by decide)
  have hpes : Column.source Catalog.builtin .pe t.columns = some t.columns[2] :=
    Column.source_eq_first (l := [t.columns[0], t.columns[1]]) (r := []) (by simp [t, hsymbol, hname]) hpe nofun
  have hcells : ∀ i, t.cellFor Catalog.builtin .pe i = t.columns[2].cellIn i := fun i => by
    rw [cellFor, hpes, Option.bind_some]
  obtain ⟨rows, hrows⟩ := exists_securities (t := t) List.mem_cons_self hsymbol
  have hlength : rows.length = 3 := (securities_rows hrows).1
  have htyped : t.Typed Catalog.builtin := by
    intro col hcol a hattr ha v hv
    simp only [t, List.mem_cons, List.not_mem_nil, or_false] at hcol
    rcases hcol with rfl | rfl | rfl
    · exact absurd (Option.some.inj (hattr.symm.trans hsymbol)) ha
    · obtain rfl := Option.some.inj (hattr.symm.trans hname)
      simp only [List.mem_cons, reduceCtorEq, Option.some.injEq, List.not_mem_nil, or_false, false_or] at hv
      rcases hv with rfl | rfl <;> rfl
    · obtain rfl := Option.some.inj (hattr.symm.trans hpe)
      simp only [List.mem_cons, Option.some.injEq, List.not_mem_nil, or_false] at hv
      rcases hv with rfl | rfl | rfl <;> rfl
  obtain ⟨f, hf, hattr, -⟩ := Catalog.exists_field_pe
  have hmissing := (missing_cell hrows (i := 1) (by omega) (a := .pe) (by decide) (by rw [hcells]; decide)).2 rfl
  refine ⟨rows, hrows, hlength, ?_, (hmissing.2 "pe" f hf hattr).1, fun d => ?_⟩
  · refine (missing_cell hrows (i := 0) (by omega) (a := .name) (by decide) ?_).1 rfl
    rw [cellFor, hnames]
    decide
  · obtain ⟨sorted, hsorted, -⟩ := sortBy_ok f d (securities_typed hrows htyped)
    have hsort : sortRows Catalog.builtin rows (some ⟨"pe", d⟩) = .ok sorted := by
      rw [sortRows, Catalog.require, hf]
      exact hsorted
    obtain ⟨order, hperm, hmap, hlast⟩ := (hmissing.2 "pe" f hf hattr).2 d sorted hsort
    refine ⟨sorted, hsort, order, hperm, hmap, fun j hj => hlast j ?_⟩
    have hthree : ∀ i < 3, i ≠ 1 → isMissing (t.columns[2].cellIn i) = false := by decide
    rw [hcells]
    exact hthree j (hlength ▸ j.2) hj

/-- A missing name is not the name "Beta": the comparison holds of the empty text that it is. -/
theorem not_forall_missing_cell :
    ¬ ∀ (t : Table) (rows : List Security), t.securities Catalog.builtin = .ok rows →
      ∀ i (hi : i < rows.length) a, a ≠ .symbol → isMissing (t.cellFor Catalog.builtin a i) = true →
        ∀ key f, Catalog.builtin.field? key = some f → f.attr = a →
          ∀ op v, (Comparison.mk key op v).holds Catalog.builtin rows[i] = .ok false := by
  intro hall
  let t : Table := { columns := [⟨"symbol", [some (.text "A")]⟩, ⟨"name", [none]⟩] }
  have hsymbol : attribute? Catalog.builtin "symbol" = some .symbol := attribute?_column _ .symbol
  have hname : attribute? Catalog.builtin "name" = some .name := attribute?_column _ .name
  have hnames : Column.source Catalog.builtin .name t.columns = some t.columns[1] :=
    Column.source_eq_first (l := [t.columns[0]]) (r := []) (by simp [t, hsymbol]) hname nofun
  have hcell : t.cellFor Catalog.builtin .name 0 = none := by
    rw [cellFor, hnames]
    decide
  obtain ⟨rows, hrows⟩ := exists_securities (t := t) List.mem_cons_self hsymbol
  obtain ⟨hlength, hread⟩ := securities_rows hrows
  have hi : 0 < rows.length := by rw [hlength]; decide
  obtain ⟨f, hf, hattr, hkind⟩ : ∃ f, Catalog.builtin.field? "name" = some f ∧ f.attr = .name ∧ f.kind = .text :=
    ⟨(Catalog.builtin.field? "name").get (by decide +kernel), by simp, by decide +kernel, by decide +kernel⟩
  have hfalse := hall t rows hrows 0 hi .name (by decide) (by rw [hcell]; rfl) "name" f hf hattr .ne (.text "Beta")
  have hvalue : f.read rows[0] = some (.text "") := by
    rw [Field.read, hattr, hread 0 hi .name (by decide), hcell]
    rfl
  have htrue : (Comparison.mk "name" .ne (.text "Beta")).holds Catalog.builtin rows[0] = .ok true := by
    unfold Comparison.holds
    dsimp only
    rw [hf]
    dsimp only
    rw [hvalue, hkind]
    decide
  exact absurd (hfalse.symm.trans htrue) (by decide)

end Table
end EquityScreen
