/-
What is read from a table (`securities_columns`): one security a row, and in it for each attribute the cell
of the first column that stands for it. Only where that column's name is used again the last column with the
name is read instead (`not_forall_first_column`). Columns that stand for nothing, or under another name for
what a column in front of them stands for, may be there or not.
-/
import EquityScreen.Proofs.Table.Naming
import EquityScreen.Proofs.Table.Rows

namespace EquityScreen
namespace Table

open Column (Idle source)

variable {c : Catalog} {t : Table} {l r : List Column} {col : Column}

theorem height_put {r' : List Column} (h : t.columns = l ++ r) (hcells : col.cells.length = t.height) :
    ({ t with columns := l ++ col :: r' } : Table).height = t.height := by
  unfold height at hcells ⊢
  rw [h] at hcells ⊢
  dsimp only
  cases hlabels : t.labels with
  | listed ls => rfl
  | numbered =>
    cases l with
    | nil => simpa [hlabels] using hcells
    | cons x l => rfl

/-- A column that is not heard can be put into a table. -/
theorem securities_insert (h : t.columns = l ++ r) (hcells : col.cells.length = t.height) (hidle : Idle c l col) :
    ({ t with columns := l ++ col :: r } : Table).securities c = t.securities c :=
  securities_congr rfl (height_put h hcells) fun a => by rw [h, hidle.source_eq]

/-- A column that is not heard can be changed into another such column. -/
theorem securities_replace {col' : Column} (h : t.columns = l ++ col :: r) (hcells : col'.cells.length = t.height)
    (hidle : Idle c l col) (hidle' : Idle c l col') :
    ({ t with columns := l ++ col' :: r } : Table).securities c = t.securities c :=
  securities_congr rfl (height_put h hcells) fun a => by rw [h, hidle.source_eq, hidle'.source_eq]

/-- A table is read when a column stands for the symbol. -/
theorem exists_securities (hcol : col ∈ t.columns) (h : attribute? c col.name = some .symbol) :
    ∃ rows, t.securities c = .ok rows := by
  have hsource : (source c .symbol t.columns).isSome = true := by
    rw [Option.isSome_iff_ne_none, ne_eq, Column.source_eq_none_iff]
    exact fun hnone => List.find?_eq_none.1 hnone col hcol (Column.standsFor_iff.2 h)
  exact ⟨_, by rw [securities_eq, if_pos hsource]⟩

/-- **The first column counts.** Each row of a table is a security, in the order of the rows. Of an attribute
other than the symbol it holds what it holds by default where no column stands for the attribute, and else the
cell of the first column that does; but where columns behind that one have its name, the cell of the last of
them. No security changes when a column is added, or changed, that stands for nothing, or for an attribute for
which a column with another name stands first. -/
theorem securities_columns (c : Catalog) (t : Table) :
    (∀ rows, t.securities c = .ok rows → rows.length = t.height ∧
      ∀ i (hi : i < rows.length) a, a ≠ .symbol →
        ((∀ x ∈ t.columns, attribute? c x.name ≠ some a) → rows[i].cell a = Security.defaultCell a) ∧
        ∀ l first r, t.columns = l ++ first :: r → (∀ x ∈ l, attribute? c x.name ≠ some a) →
          attribute? c first.name = some a →
          ((∀ x ∈ r, x.name ≠ first.name) → rows[i].cell a = a.held (first.cellIn i)) ∧
          ∀ m last n, r = m ++ last :: n → last.name = first.name → (∀ x ∈ n, x.name ≠ first.name) →
            rows[i].cell a = a.held (last.cellIn i)) ∧
      (∀ l col r, t.columns = l ++ r → col.cells.length = t.height → Idle c l col →
        ({ t with columns := l ++ col :: r } : Table).securities c = t.securities c) ∧
      ∀ l col col' r, t.columns = l ++ col :: r → col'.cells.length = t.height → Idle c l col → Idle c l col' →
        ({ t with columns := l ++ col' :: r } : Table).securities c = t.securities c := by
  refine ⟨fun rows hrows => ?_, fun l col r => securities_insert, fun l col col' r => securities_replace⟩
  obtain ⟨hlength, hcell⟩ := securities_rows hrows
  refine ⟨hlength, fun i hi a ha => ⟨fun hnone => ?_, fun l first r hcolumns hl hfirst => ⟨fun hr => ?_, ?_⟩⟩⟩
  · rw [hcell i hi a ha, cellFor, Column.source_eq_none hnone]
    rfl
  · rw [hcell i hi a ha, cellFor, hcolumns, Column.source_eq_first hl hfirst hr]
    rfl
  · intro m last n hr hlast hn
    rw [hcell i hi a ha, cellFor, hcolumns, Column.source_eq_last (m := first :: m) hl hfirst hlast hn (hr ▸ rfl)]
    rfl

/-- Of two columns for the price to earnings the first one counts, although its first cell is empty; the name
is by default empty; and what stands under "pharma" is for nobody. -/
theorem securities_columns_remark :
    let remark : Column := ⟨"pharma", [some (.text "a"), none]⟩
    let t : Table := { columns := [⟨"symbol", [some (.text "A"), some (.text "B")]⟩,
      ⟨"p/e", [none, some (.number (.int 12))]⟩, ⟨"pe", [some (.number (.int 9)), some (.number (.int 9))]⟩] }
    (∃ rows, t.securities Catalog.builtin = .ok rows ∧ rows.length = 2 ∧
      ∃ hi : 0 < rows.length, rows[0].cell .pe = none ∧ rows[0].cell .name = some (.text "")) ∧
      ({ t with columns := t.columns ++ [remark] } : Table).securities Catalog.builtin = t.securities Catalog.builtin := by
  intro remark t
  have hpe : attribute? Catalog.builtin "p/e" = some .pe := by
    obtain ⟨f, hf, hkey, hname, hattr⟩ : ∃ f ∈ Catalog.builtinFields, f.key = "pe" ∧
        "p/e" ∈ f.key :: f.label :: f.aliases ∧ f.attr = .pe := by decide +kernel
    rw [Catalog.builtin_eq, Catalog.apart_builtin.attribute?_name hf hname (by decide) (by decide), hattr]
  have hsymbol : attribute? Catalog.builtin "symbol" = some .symbol := attribute?_column _ .symbol
  have hpe' : attribute? Catalog.builtin "pe" = some .pe := attribute?_column _ .pe
  have hremark : Idle Catalog.builtin t.columns remark := by
    have hnone : attribute? Catalog.builtin "pharma" = none := by
      unfold attribute?
      rw [show Attribute.ofColumn? "pharma" = none by decide, Catalog.resolve?_pharma]
      rfl
    intro a ha
    exact absurd (hnone.symm.trans ha) nofun
  obtain ⟨hread, hadd, -⟩ := securities_columns Catalog.builtin t
  obtain ⟨rows, hrows⟩ := exists_securities (t := t) List.mem_cons_self hsymbol
  obtain ⟨hlength, hcell⟩ := hread rows hrows
  have hi : 0 < rows.length := by rw [hlength]; decide
  refine ⟨⟨rows, hrows, hlength, hi, ?_, ?_⟩, ?_⟩
  · have hfirst := ((hcell 0 hi .pe (by decide)).2 [_] _ [_] rfl (by simp [hsymbol]) hpe).1 (by decide)
    exact hfirst
  · refine (hcell 0 hi .name (by decide)).1 ?_
    simp [t, hsymbol, hpe, hpe']
  · have := hadd t.columns remark [] (List.append_nil _).symm rfl hremark
    exact this

/-- A name that is used twice: the second column with it is read, and not the first. -/
theorem not_forall_first_column :
    ¬ ∀ (t : Table) (rows : List Security), t.securities Catalog.builtin = .ok rows →
      ∀ i (hi : i < rows.length) a, a ≠ .symbol → ∀ l first r, t.columns = l ++ first :: r →
        (∀ x ∈ l, attribute? Catalog.builtin x.name ≠ some a) → attribute? Catalog.builtin first.name = some a →
        rows[i].cell a = a.held (first.cellIn i) := by
  intro hall
  let one : Column := ⟨"pe", [some (.number (.int 1))]⟩
  let two : Column := ⟨"pe", [some (.number (.int 2))]⟩
  let symbols : Column := ⟨"symbol", [some (.text "A")]⟩
  let t : Table := { columns := [symbols, one, two] }
  have hsymbol : attribute? Catalog.builtin symbols.name = some .symbol := attribute?_column _ .symbol
  have hpe : attribute? Catalog.builtin one.name = some .pe := attribute?_column _ .pe
  have hbefore : ∀ x ∈ [symbols], attribute? Catalog.builtin x.name ≠ some .pe := by simp [hsymbol]
  have hsource : source Catalog.builtin .pe t.columns = some two :=
    Column.source_eq_last (l := [symbols]) (m := [one]) (n := []) hbefore hpe rfl nofun rfl
  obtain ⟨rows, hrows⟩ := exists_securities (t := t) List.mem_cons_self hsymbol
  obtain ⟨hlength, hcell⟩ := securities_rows hrows
  have hi : 0 < rows.length := by rw [hlength]; decide
  have hfirst := hall t rows hrows 0 hi .pe (by decide) [symbols] one [two] rfl hbefore hpe
  rw [hcell 0 hi .pe (by decide), cellFor, hsource] at hfirst
  exact absurd hfirst (by decide)

end Table
end EquityScreen
