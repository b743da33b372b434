/-
Tables of securities: a universe is read from one, and the rows of an answer are written to one.

A column is known by an attribute's column name or by any name of a field. Where several columns
stand for one attribute the first of them counts. Symbols are taken from the labels of the rows
when no column holds them and the labels are texts.
-/
import EquityScreen.Catalog
import EquityScreen.Session

namespace EquityScreen

/-- What a row is labelled with. -/
inductive Label where
  | text (s : String)
  | number (n : Int)
  | missing
  deriving DecidableEq, Repr

/-- The labels of the rows: their numbers, or labels of their own. -/
inductive Labels where
  | numbered
  | listed (labels : List Label)
  deriving DecidableEq, Repr

/-- A column: its name, and a cell for each row. -/
structure Column where
  name : String
  cells : List (Option Value)
  deriving DecidableEq

/-- A table. -/
structure Table where
  columns : List Column
  labels : Labels := .numbered
  deriving DecidableEq

/-- No column holds symbols and the labels cannot serve as such. -/
structure NoSymbols where
  deriving DecidableEq, Repr

/-- The wording of the refusal. -/
def NoSymbols.message (_ : NoSymbols) : String :=
  "DataFrame needs a symbol column or a symbol index"

namespace Label

/-- A label that can stand among symbols. -/
def mayBeSymbol : Label → Bool
  | .number _ => false
  | _ => true

/-- A text. -/
def isText : Label → Bool
  | .text _ => true
  | _ => false

/-- A label as a cell. -/
def cell : Label → Option Value
  | .text s => some (.text s)
  | .number n => some (.number (.int n))
  | .missing => none

end Label

/-- The labels are symbols: texts, some of which may be missing. A table without rows that has
labels of its own has symbols. -/
def Labels.areSymbols : Labels → Bool
  | .numbered => false
  | .listed ls => ls.all Label.mayBeSymbol && (ls.isEmpty || ls.any Label.isText)

namespace Table

/-- The number of rows. -/
def height (t : Table) : Nat :=
  match t.labels, t.columns with
  | .listed ls, _ => ls.length
  | .numbered, col :: _ => col.cells.length
  | .numbered, [] => 0

/-- The attribute that a column name stands for. The names of the attributes come before those of
the fields. -/
def attribute? (c : Catalog) (name : String) : Option Attribute :=
  match Attribute.ofColumn? name with
  | some a => some a
  | none => ((c.resolve? name).bind c.field?).map (·.attr)

/-- The attributes with a column, and the names of their columns. -/
def sources (c : Catalog) (names : List String) : List (Attribute × String) :=
  names.foldl (fun found name =>
    match attribute? c name with
    | some a => if found.any (·.1 == a) then found else found ++ [(a, name)]
    | none => found) []

/-- The cell of a column in a row; of columns with one name the last one counts. -/
def cellAt (t : Table) (name : String) (row : Nat) : Option Value :=
  match t.columns.reverse.find? (·.name == name) with
  | some col => (col.cells[row]?).getD none
  | none => none

/-- The table with its labels as a first column of symbols. -/
def withSymbols (t : Table) : Table :=
  match t.labels with
  | .listed ls => { t with columns := ⟨Attribute.symbol.column, ls.map Label.cell⟩ :: t.columns }
  | .numbered => t

/-- A symbol as a text: blanks at its ends do not count, and a missing one is called `None`. -/
def symbolCell (cell : Option Value) : Option Value :=
  some (.text (Text.trim ((cell.map Value.written).getD "None")))

/-- A cell as a security holds it. Texts are never missing, but empty. -/
def cleaned (a : Attribute) (cell : Option Value) : Option Value :=
  let known := if isMissing cell then none else cell
  if a = .symbol then symbolCell known
  else if a.isText then some (known.getD (.text ""))
  else known

/-- The security of a row. -/
def securityAt (t : Table) (found : List (Attribute × String)) (row : Nat) : Security :=
  Security.ofCells (found.map fun (a, name) => (a, cleaned a (t.cellAt name row)))

/-- The securities of a table whose symbols are in a column. -/
def readRows (c : Catalog) (t : Table) : Except NoSymbols (List Security) :=
  let found := sources c (t.columns.map (·.name))
  if found.any (·.1 == .symbol) then .ok ((List.range t.height).map (t.securityAt found))
  else .error {}

/-- The securities of a table, in the order of its rows. -/
def securities (c : Catalog) (t : Table) : Except NoSymbols (List Security) :=
  match t.readRows c with
  | .ok rows => .ok rows
  | .error e => if t.labels.areSymbols then t.withSymbols.readRows c else .error e

end Table

/-! ## Writing -/

/-- The figure of a written cell: a table holds doubles, and not-a-number is missing. -/
def Value.tabulated : Value → Option Value
  | .number n => if n.isNaN then none else some (.number (.double n.toDouble))
  | v => some v

/-- The column of a field for some securities. -/
def Field.tabulated (f : Field) (rows : List Security) : Column :=
  ⟨f.key, rows.map fun s => (f.read s).bind Value.tabulated⟩

/-- The rows of an answer under its columns, or under all columns when it has none of its own. -/
def Response.table (c : Catalog) (r : Response) : Table :=
  if r.rows.isEmpty then { columns := r.columns.map (⟨·, []⟩) }
  else if r.columns.isEmpty then { columns := c.fields.map (·.tabulated r.rows) }
  else { columns := (r.columns.filterMap c.field?).map (·.tabulated r.rows) }

end EquityScreen
