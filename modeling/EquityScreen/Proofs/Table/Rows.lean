/-
The securities of a table: one for each row, in the order of the rows.

What a security holds is read off the sources of its attributes (`cell_rowAt`), whether the symbols are in a
column or are the labels of the rows. So tables whose attributes have the same sources have the same
securities (`securities_congr`).
-/
import EquityScreen.Proofs.Table.Columns

namespace EquityScreen

/-- What a security holds where a cell was read for the attribute: the cell, or what it holds by default
when the cell is missing. -/
def Attribute.held (a : Attribute) (cell : Option Value) : Option Value :=
  if isMissing cell then Security.defaultCell a else cell

/-- The cell of a column in a row. -/
def Column.cellIn (col : Column) (row : Nat) : Option Value := (col.cells[row]?).getD none

namespace Table

open Column (firstFor lastNamed source)

variable {c : Catalog} {t t' : Table} {a : Attribute} {row : Nat} {rows : List Security}

/-- The cell that is read for an attribute in a row. -/
def cellFor (c : Catalog) (t : Table) (a : Attribute) (row : Nat) : Option Value :=
  (source c a t.columns).bind (·.cellIn row)

/-- The security that is read from a row. -/
def rowAt (c : Catalog) (t : Table) (row : Nat) : Security :=
  t.securityAt (sources c (t.columns.map (·.name))) row

theorem cleaned_eq_held (ha : a ≠ .symbol) (cell : Option Value) : cleaned a cell = a.held cell := by
  unfold cleaned Attribute.held Security.defaultCell
  rw [if_neg ha]
  cases cell with
  | none => rfl
  | some v =>
    cases hmissing : isMissing (some v) with
    | true => rfl
    | false => simp

theorem cellAt_eq (t : Table) (name : String) (row : Nat) :
    t.cellAt name row = (lastNamed name t.columns).bind (·.cellIn row) := by
  unfold cellAt lastNamed
  cases t.columns.reverse.find? (·.name == name) <;> rfl

/-- **What a security holds** is the cell of the source, cleaned. -/
theorem cell_rowAt (c : Catalog) (t : Table) (row : Nat) (a : Attribute) :
    (t.rowAt c row).cell a = match source c a t.columns with
      | none => Security.defaultCell a
      | some col => cleaned a (col.cellIn row) := by
  have hlookup := lookup_map_snd (fun a name => cleaned a (t.cellAt name row)) a
    (sources c (t.columns.map (·.name)))
  have hcell : (t.rowAt c row).cell a =
      (((sources c (t.columns.map (·.name))).lookup a).map fun name => cleaned a (t.cellAt name row)).getD
        (Security.defaultCell a) := congrArg (·.getD (Security.defaultCell a)) hlookup
  rw [hcell, lookup_sources]
  cases hfirst : firstFor c a t.columns with
  | none => rw [Column.source_eq_none_iff.2 hfirst]; rfl
  | some first =>
    obtain ⟨last, hlast⟩ := Column.exists_lastNamed (Column.mem_of_firstFor hfirst)
    rw [Column.source_of_firstFor hfirst, hlast, Option.map_some, Option.map_some, Option.getD_some, cellAt_eq, hlast,
      Option.bind_some]

theorem cell_rowAt_of_ne (ha : a ≠ .symbol) : (t.rowAt c row).cell a = a.held (t.cellFor c a row) := by
  rw [cell_rowAt, cellFor]
  cases source c a t.columns with
  | none => rfl
  | some col => exact cleaned_eq_held ha _

theorem rowAt_congr (h : ∀ a, source c a t.columns = source c a t'.columns) (row : Nat) :
    t.rowAt c row = t'.rowAt c row := by
  have hcell : (t.rowAt c row).cell = (t'.rowAt c row).cell := funext fun a => by rw [cell_rowAt, cell_rowAt, h a]
  exact congrArg Security.mk hcell

/-! ## Symbols from the labels -/

/-- The column name of an attribute stands for it. -/
theorem attribute?_column (c : Catalog) (a : Attribute) : attribute? c a.column = some a := by
  have hcolumn : Attribute.ofColumn? a.column = some a := by cases a <;> decide
  rw [attribute?, hcolumn]

theorem areSymbols_listed (h : t.labels.areSymbols = true) : ∃ ls, t.labels = .listed ls := by
  cases hlabels : t.labels with
  | numbered => rw [hlabels] at h; exact absurd h Bool.false_ne_true
  | listed ls => exact ⟨ls, rfl⟩

section
variable {ls : List Label} (hls : t.labels = .listed ls)
include hls

theorem columns_withSymbols : t.withSymbols.columns = ⟨Attribute.symbol.column, ls.map Label.cell⟩ :: t.columns := by
  unfold withSymbols
  rw [hls]

theorem height_withSymbols : t.withSymbols.height = t.height := by
  unfold height withSymbols
  rw [hls]

/-- Where no column holds symbols, the labels are the source of the symbol and of no other attribute. -/
theorem source_withSymbols (hsymbol : source c .symbol t.columns = none) (a : Attribute) :
    source c a t.withSymbols.columns =
      if a = .symbol then some ⟨Attribute.symbol.column, ls.map Label.cell⟩ else source c a t.columns := by
  have hstands : attribute? c (⟨Attribute.symbol.column, ls.map Label.cell⟩ : Column).name = some .symbol :=
    attribute?_column c .symbol
  obtain ⟨hself, hother⟩ := Column.source_cons hstands (Column.source_eq_none_iff.1 hsymbol)
  rw [columns_withSymbols hls]
  split
  · next ha => rw [ha, hself]
  · next ha => exact hother a ha

theorem cellFor_withSymbols (hsymbol : source c .symbol t.columns = none) (ha : a ≠ .symbol) (row : Nat) :
    t.withSymbols.cellFor c a row = t.cellFor c a row := by
  rw [cellFor, cellFor, source_withSymbols hls hsymbol, if_neg ha]

end

/-! ## Reading -/

theorem readRows_eq (c : Catalog) (t : Table) :
    t.readRows c = if (source c .symbol t.columns).isSome then .ok ((List.range t.height).map (t.rowAt c))
      else .error {} := by
  unfold readRows
  dsimp only
  rw [any_sources]
  rfl

/-- **Reading a table**: its rows with the symbols of a column, or else of the labels. -/
theorem securities_eq (c : Catalog) (t : Table) :
    t.securities c =
      if (source c .symbol t.columns).isSome then .ok ((List.range t.height).map (t.rowAt c))
      else if t.labels.areSymbols then .ok ((List.range t.height).map (t.withSymbols.rowAt c))
      else .error {} := by
  unfold securities
  rw [readRows_eq]
  cases hsymbol : source c .symbol t.columns with
  | some col => rfl
  | none =>
    simp only [Option.isSome_none, Bool.false_eq_true, if_false]
    cases hlabels : t.labels.areSymbols with
    | false => rfl
    | true =>
      obtain ⟨ls, hls⟩ := areSymbols_listed hlabels
      simp only [if_true]
      rw [readRows_eq, source_withSymbols hls hsymbol, if_pos rfl, height_withSymbols hls]
      rfl

/-- **Each row is a security**, and except for the symbol it holds the cells of the row. -/
theorem securities_rows (h : t.securities c = .ok rows) :
    rows.length = t.height ∧
      ∀ i (hi : i < rows.length) a, a ≠ .symbol → rows[i].cell a = a.held (t.cellFor c a i) := by
  rw [securities_eq] at h
  split at h
  · cases h
    refine ⟨by simp, fun i hi a ha => ?_⟩
    rw [List.getElem_map, List.getElem_range, cell_rowAt_of_ne ha]
  · next hsymbol =>
    rw [Option.not_isSome_iff_eq_none] at hsymbol
    split at h
    · next hlabels =>
      obtain ⟨ls, hls⟩ := areSymbols_listed hlabels
      cases h
      refine ⟨by simp, fun i hi a ha => ?_⟩
      rw [List.getElem_map, List.getElem_range, cell_rowAt_of_ne ha, cellFor_withSymbols hls hsymbol ha]
    · exact absurd h nofun

/-- Every security of a table has a text for its symbol. -/
theorem exists_symbol (h : t.securities c = .ok rows) : ∀ s ∈ rows, ∃ name, s.cell .symbol = some (.text name) := by
  have hrow : ∀ (t : Table) i, (source c .symbol t.columns).isSome = true →
      ∃ name, (t.rowAt c i).cell .symbol = some (.text name) := by
    intro t i hsource
    obtain ⟨col, hcol⟩ := Option.isSome_iff_exists.1 hsource
    rw [cell_rowAt, hcol]
    exact ⟨_, rfl⟩
  rw [securities_eq] at h
  intro s hs
  split at h
  · next hsymbol =>
    cases h
    obtain ⟨i, -, rfl⟩ := List.mem_map.1 hs
    exact hrow t i hsymbol
  · next hsymbol =>
    rw [Option.not_isSome_iff_eq_none] at hsymbol
    split at h
    · next hlabels =>
      obtain ⟨ls, hls⟩ := areSymbols_listed hlabels
      cases h
      obtain ⟨i, -, rfl⟩ := List.mem_map.1 hs
      refine hrow t.withSymbols i ?_
      rw [source_withSymbols hls hsymbol, if_pos rfl]
      rfl
    · exact absurd h nofun

/-- **Tables are read alike** when they have the same rows and labels, and every attribute the same source. -/
theorem securities_congr (hlabels : t.labels = t'.labels) (hheight : t.height = t'.height)
    (hsource : ∀ a, source c a t.columns = source c a t'.columns) : t.securities c = t'.securities c := by
  have hrows : t.rowAt c = t'.rowAt c := funext (rowAt_congr hsource)
  rw [securities_eq, securities_eq, ← hsource, ← hheight, ← hlabels, hrows]
  split
  · rfl
  · next hsymbol =>
    rw [Option.not_isSome_iff_eq_none] at hsymbol
    split
    · next hsymbols =>
      obtain ⟨ls, hls⟩ := areSymbols_listed hsymbols
      have hnamed : ∀ a, source c a t.withSymbols.columns = source c a t'.withSymbols.columns := fun a => by
        rw [source_withSymbols hls hsymbol, source_withSymbols (hlabels ▸ hls) (hsource _ ▸ hsymbol), hsource]
      rw [funext (rowAt_congr hnamed)]
    · rfl

end Table
end EquityScreen
