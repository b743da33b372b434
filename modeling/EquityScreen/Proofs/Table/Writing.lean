/-
An answer that was written to a table is read back (`securities_table`): as many securities in the same order, and in
each of them what the columns show, with figures as doubles and not-a-number as nothing (`Security.Kept`).

The columns are named by the keys of their fields, and reading takes them for the attributes of these fields. Where
two columns show one attribute their cells are the same, so it does not matter which of them is read.
-/
import EquityScreen.Proofs.Catalog.Coercion
import EquityScreen.Proofs.Table.Mixed
import EquityScreen.Proofs.Table.Naming

namespace EquityScreen

open Text (isBlankText)

variable {c : Catalog} {r : Response} {s s' : Security} {f : Field} {k : String} {cell : Option Value}

/-- What is left of a security under some columns: the values that they show, figures as doubles. Of what they do
not show, and of what is missing, it has what it has by default. -/
structure Security.Kept (c : Catalog) (columns : List String) (s s' : Security) : Prop where
  text : ∀ k ∈ columns, ∀ f u, c.field? k = some f → f.read s = some (.text u) → f.read s' = some (.text u)
  number : ∀ k ∈ columns, ∀ f n, c.field? k = some f → f.read s = some (.number n) → n.isNaN = false →
    f.read s' = some (.number (.double n.toDouble))
  missing : ∀ k ∈ columns, ∀ f, c.field? k = some f → isMissing (f.read s) = true →
    f.read s' = Security.defaultCell f.attr
  hidden : ∀ a, (∀ k ∈ columns, ∀ f, c.field? k = some f → f.attr ≠ a) → s'.cell a = Security.defaultCell a

/-! ## Cells -/

theorem Number.isNaN_toDouble (n : Number) : n.toDouble.isNaN = n.isNaN := by
  cases n with
  | double x => rfl
  | int n =>
    have hnan : Double.ofInt n ≠ .nan := Double.ofRatio_ne_nan _ _ _
    rw [toDouble, isNaN]
    cases h : Double.ofInt n with
    | nan => exact absurd h hnan
    | infinite | finite => rfl

theorem tabulated_number {n : Number} (hn : n.isNaN = false) :
    (Value.number n).tabulated = some (.number (.double n.toDouble)) := by
  rw [Value.tabulated, hn, if_neg Bool.false_ne_true]

theorem bind_tabulated_of_missing (h : isMissing cell = true) : cell.bind Value.tabulated = none := by
  cases cell with
  | none => rfl
  | some v =>
    cases v with
    | text u => exact absurd h Bool.false_ne_true
    | number n =>
      have hn : n.isNaN = true := h
      rw [Option.bind_some, Value.tabulated, hn, if_pos rfl]

theorem cellIn_tabulated (f : Field) (rows : List Security) {i : Nat} (hi : i < rows.length) :
    (f.tabulated rows).cellIn i = (f.read rows[i]).bind Value.tabulated := by
  rw [Field.tabulated, Column.cellIn, List.getElem?_map, List.getElem?_eq_getElem hi]
  rfl

namespace Response

open Column (source)
open Table (attribute?)

/-! ## The columns of an answer -/

theorem table_of_rows (hrows : r.rows ≠ []) (hcolumns : r.columns ≠ []) :
    r.table c = { columns := (r.columns.filterMap c.field?).map (·.tabulated r.rows) } := by
  rw [table, if_neg (by simpa using hrows), if_neg (by simpa using hcolumns)]

section
variable (hrows : r.rows ≠ []) (hkeys : ∀ k f, c.field? k = some f → attribute? c k = some f.attr)

include hkeys in
theorem attribute?_tabulated (hf : c.field? k = some f) (rows : List Security) :
    attribute? c (f.tabulated rows).name = some f.attr := by
  rw [Field.tabulated, Catalog.key_of_field? hf]
  exact hkeys k f hf

include hrows

/-- The columns of a table are the fields of an answer. -/
theorem mem_columns_table (hcolumns : r.columns ≠ []) {col : Column} :
    col ∈ (r.table c).columns ↔ ∃ k ∈ r.columns, ∃ f, c.field? k = some f ∧ f.tabulated r.rows = col := by
  simp only [table_of_rows hrows hcolumns, List.mem_map, List.mem_filterMap]
  exact ⟨fun ⟨f, ⟨k, hk, hf⟩, hcol⟩ => ⟨k, hk, f, hf, hcol⟩, fun ⟨k, hk, f, hf, hcol⟩ => ⟨f, ⟨k, hk, hf⟩, hcol⟩⟩

theorem height_table (hk : k ∈ r.columns) (hf : c.field? k = some f) : (r.table c).height = r.rows.length := by
  have hcolumns : r.columns ≠ [] := List.ne_nil_of_mem hk
  have hmem : f.tabulated r.rows ∈ (r.table c).columns := (mem_columns_table hrows hcolumns).2 ⟨k, hk, f, hf, rfl⟩
  rw [table_of_rows hrows hcolumns] at hmem ⊢
  cases hfields : r.columns.filterMap c.field? with
  | nil => rw [hfields] at hmem; exact absurd hmem List.not_mem_nil
  | cons g gs => exact List.length_map _

include hkeys

/-- An attribute that is shown is read from a column of a field with this attribute. -/
theorem exists_source_table (hk : k ∈ r.columns) (hf : c.field? k = some f) :
    ∃ g : Field, g.attr = f.attr ∧ source c f.attr (r.table c).columns = some (g.tabulated r.rows) := by
  have hcolumns : r.columns ≠ [] := List.ne_nil_of_mem hk
  cases hsource : source c f.attr (r.table c).columns with
  | none =>
    have hnone := List.find?_eq_none.1 (Column.source_eq_none_iff.1 hsource) (f.tabulated r.rows)
      ((mem_columns_table hrows hcolumns).2 ⟨k, hk, f, hf, rfl⟩)
    exact absurd (Column.standsFor_iff.2 (attribute?_tabulated hkeys hf _)) hnone
  | some col =>
    obtain ⟨hcol, hattr⟩ := Column.attribute?_of_source hsource
    obtain ⟨l, -, g, hg, rfl⟩ := (mem_columns_table hrows hcolumns).1 hcol
    exact ⟨g, Option.some.inj ((attribute?_tabulated hkeys hg _).symm.trans hattr), rfl⟩

/-- An attribute that is not shown is read from nowhere. -/
theorem source_table_of_hidden (hcolumns : r.columns ≠ []) {a : Attribute}
    (ha : ∀ k ∈ r.columns, ∀ f, c.field? k = some f → f.attr ≠ a) : source c a (r.table c).columns = none := by
  refine Column.source_eq_none fun col hcol hattr => ?_
  obtain ⟨k, hk, f, hf, rfl⟩ := (mem_columns_table hrows hcolumns).1 hcol
  exact ha k hk f hf (Option.some.inj ((attribute?_tabulated hkeys hf _).symm.trans hattr))

/-! ## Reading back -/

/-- What is read back for a field that is shown. -/
theorem read_rowAt_table (hk : k ∈ r.columns) (hf : c.field? k = some f) {i : Nat} (hi : i < r.rows.length)
    (hsymbol : ∃ u, r.rows[i].cell .symbol = some (.text u) ∧ Text.trim u = u) :
    f.read ((r.table c).rowAt c i) = f.attr.held ((f.read r.rows[i]).bind Value.tabulated) := by
  obtain ⟨g, hattr, hsource⟩ := exists_source_table hrows hkeys hk hf
  have hread : g.read r.rows[i] = f.read r.rows[i] := by rw [Field.read, Field.read, hattr]
  rw [Field.read, Table.cell_rowAt, hsource]
  dsimp only
  rw [cellIn_tabulated g r.rows hi, hread]
  by_cases ha : f.attr = .symbol
  · obtain ⟨u, hu, htrim⟩ := hsymbol
    rw [Field.read, ha, hu]
    exact congrArg (fun u => some (Value.text u)) htrim
  · exact Table.cleaned_eq_held ha _

/-- **A row is kept** under the columns of the answer. -/
theorem kept_rowAt_table (hcolumns : r.columns ≠ []) {i : Nat} (hi : i < r.rows.length)
    (hsymbol : ∃ u, r.rows[i].cell .symbol = some (.text u) ∧ Text.trim u = u) :
    r.rows[i].Kept c r.columns ((r.table c).rowAt c i) where
  text k hk f u hf hu := by
    rw [read_rowAt_table hrows hkeys hk hf hi hsymbol, hu]
    rfl
  number k hk f n hf hn hnan := by
    rw [read_rowAt_table hrows hkeys hk hf hi hsymbol, hn, Option.bind_some, tabulated_number hnan]
    exact Attribute.held_number_iff.2 ⟨rfl, (Number.isNaN_toDouble n).trans hnan⟩
  missing k hk f hf hmissing := by
    rw [read_rowAt_table hrows hkeys hk hf hi hsymbol, bind_tabulated_of_missing hmissing]
    rfl
  hidden a ha := by rw [Table.cell_rowAt, source_table_of_hidden hrows hkeys hcolumns ha]

end

/-- **An answer is read back** from its table. Its columns are keys of fields with the symbol among them, and its
symbols are texts without blanks at their ends: then as many securities are read as were written, in the same order,
and each of them has kept what the columns show. Fields may have been registered, under keys that are not blank. -/
theorem securities_table (ps : List Proposal) (hps : ∀ p ∈ ps, isBlankText p.key = false)
    (hcolumns : ∀ k ∈ r.columns, ((Catalog.builtin.registerAll ps).field? k).isSome = true)
    (hsymbol : "symbol" ∈ r.columns)
    (hrows : ∀ s ∈ r.rows, ∃ u, s.cell .symbol = some (.text u) ∧ Text.trim u = u) :
    ∃ rows, (r.table (Catalog.builtin.registerAll ps)).securities (Catalog.builtin.registerAll ps) = .ok rows ∧
      List.Forall₂ (Security.Kept (Catalog.builtin.registerAll ps) r.columns) r.rows rows := by
  have hkeys := fun k f => Catalog.attribute?_registerAll (k := k) (f := f) hps
  generalize Catalog.builtin.registerAll ps = c at hcolumns hkeys ⊢
  have hstands : attribute? c "symbol" = some .symbol := Table.attribute?_column c .symbol
  by_cases hempty : r.rows = []
  · have htable : r.table c = { columns := r.columns.map (⟨·, []⟩) } := by rw [table, hempty]; rfl
    have hmem : ⟨"symbol", []⟩ ∈ (r.table c).columns := by
      rw [htable]
      exact List.mem_map_of_mem hsymbol
    obtain ⟨rows, hread⟩ := Table.exists_securities hmem hstands
    have hnone : rows = [] := by
      rw [← List.length_eq_zero_iff, (Table.securities_rows hread).1, htable]
      cases r.columns <;> rfl
    exact ⟨rows, hread, by rw [hempty, hnone]; exact .nil⟩
  · obtain ⟨f, hf⟩ := Option.isSome_iff_exists.1 (hcolumns _ hsymbol)
    obtain ⟨g, hattr, hsource⟩ := exists_source_table hempty hkeys hsymbol hf
    have hfsymbol : f.attr = .symbol := Option.some.inj ((hkeys _ f hf).symm.trans hstands)
    rw [hfsymbol] at hsource
    refine ⟨_, by rw [Table.securities_eq, hsource, Option.isSome_some, if_pos rfl], ?_⟩
    rw [height_table hempty hsymbol hf, List.forall₂_iff_get]
    refine ⟨by simp, fun i hi hi' => ?_⟩
    rw [List.get_eq_getElem, List.get_eq_getElem, List.getElem_map, List.getElem_range]
    exact kept_rowAt_table hempty hkeys (List.ne_nil_of_mem hsymbol) hi (hrows _ (List.getElem_mem hi))

/-- A price to earnings comes back as a double, and what is not-a-number does not; the price to book was not shown. -/
theorem securities_table_nan :
    let r : Response := { columns := ["pe", "symbol"], rows := [
      Security.ofCells [(.symbol, some (.text "A")), (.pe, some (.number (.int 12))), (.pb, some (.number (.int 3)))],
      Security.ofCells [(.symbol, some (.text "B")), (.pe, some (.number (.double .nan)))]] }
    ∃ a b, (r.table Catalog.builtin).securities Catalog.builtin = .ok [a, b] ∧
      a.cell .symbol = some (.text "A") ∧ a.cell .pe = some (.number (.double (.ofInt 12))) ∧ a.cell .pb = none ∧
        b.cell .symbol = some (.text "B") ∧ b.cell .pe = none := by
  intro r
  obtain ⟨pe, hpe, hpeattr, -⟩ := Catalog.exists_field_pe
  obtain ⟨symbol, hsymbol, hsymbolattr⟩ : ∃ f, Catalog.builtin.field? "symbol" = some f ∧ f.attr = .symbol :=
    ⟨(Catalog.builtin.field? "symbol").get (by decide +kernel), by simp, by decide +kernel⟩
  have hrows : ∀ s ∈ r.rows, ∃ u, s.cell .symbol = some (.text u) ∧ Text.trim u = u :=
    List.forall_mem_cons.2 ⟨⟨"A", rfl, by decide⟩, List.forall_mem_singleton.2 ⟨"B", rfl, by decide⟩⟩
  have hcolumns : ∀ k ∈ r.columns, ((Catalog.builtin.registerAll []).field? k).isSome = true :=
    List.forall_mem_cons.2 ⟨Option.isSome_of_eq_some hpe, List.forall_mem_singleton.2 (Option.isSome_of_eq_some hsymbol)⟩
  obtain ⟨rows, hread, hkept⟩ := securities_table [] (List.forall_mem_nil _) hcolumns (by decide) hrows
  obtain ⟨a, rest, ha, hrest, rfl⟩ := List.forall₂_cons_left_iff.1 hkept
  obtain ⟨b, rest, hb, hnil, rfl⟩ := List.forall₂_cons_left_iff.1 hrest
  obtain rfl := List.forall₂_nil_left_iff.1 hnil
  have hpes : ∀ s, pe.read s = s.cell .pe := fun s => by rw [Field.read, hpeattr]
  have hsymbols : ∀ s, symbol.read s = s.cell .symbol := fun s => by rw [Field.read, hsymbolattr]
  have hunshown : ∀ k ∈ r.columns, ∀ f, Catalog.builtin.field? k = some f → f.attr ≠ .pb := by
    refine List.forall_mem_cons.2 ⟨fun f hf => ?_, List.forall_mem_singleton.2 fun f hf => ?_⟩
    · rw [Option.some.inj (hf.symm.trans hpe), hpeattr]
      decide
    · rw [Option.some.inj (hf.symm.trans hsymbol), hsymbolattr]
      decide
  refine ⟨a, b, hread, ?_, ?_, ha.hidden .pb hunshown, ?_, ?_⟩
  · exact hsymbols a ▸ ha.text "symbol" (by decide) symbol "A" hsymbol (by rw [hsymbols]; rfl)
  · exact hpes a ▸ ha.number "pe" (by decide) pe (.int 12) hpe (by rw [hpes]; rfl) rfl
  · exact hsymbols b ▸ hb.text "symbol" (by decide) symbol "B" hsymbol (by rw [hsymbols]; rfl)
  · have hmissing := hb.missing "pe" (by decide) pe hpe (by rw [hpes]; rfl)
    rwa [hpes, hpeattr] at hmissing

end Response
end EquityScreen
