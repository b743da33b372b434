/-
Comparisons of a figure with a number, good ones and bad ones.

A statement is the label of a field that holds figures, a sign and a number with a mark. It is read by itself whatever
else is said, as long as no value comes next (`Statement.read`): as a filter where the number is a value of the field,
else it is skipped as a whole, and reading goes on behind it. Only a number that cannot be worked out stops it.
-/
import EquityScreen.Proofs.Clause.Labels

namespace EquityScreen
namespace Clause

variable {f : Field} {op : Operator} {t : Token} {ts rest : List Token}

/-- No value comes next. -/
def Valueless (ts : List Token) : Prop := ∀ u ∈ ts.head?, isValue u = false

/-- A number that cannot be read is passed over, and nothing behind it. -/
theorem badValueLength_number (ht : isValue t = true) (hrest : Valueless rest) : badValueLength (t :: rest) = 1 := by
  have hvalues : rest.takeWhile isValue = [] := by
    cases rest with
    | nil => rfl
    | cons u rest => exact List.takeWhile_cons_of_neg (by simp [hrest u rfl])
  rw [badValueLength_eq, List.takeWhile_cons_of_pos ht, hvalues]
  rfl

/-- A comparison of a figure with a number: the label of the field, the sign, and the number. -/
structure Statement where
  field : Field
  label : List Token
  sign : Token
  op : Operator
  amount : Token
  value : Decimal
  unit : Option UnitMark
  currency : Bool
  found : Catalog.builtin.field? field.key = some field
  numeric : field.kind.isNumeric = true
  names : ∀ u ∈ label, u.isName = true
  spelled : label.map Token.word = (Text.words field.label).map Text.lower
  compares : sign.content = .compare op
  single : op ≠ .between
  counts : amount.content = .number value unit currency

namespace Statement

/-- The tokens of a statement. -/
def tokens (s : Statement) : List Token := s.label ++ [s.sign, s.amount]

/-- What the number is worth on the field. -/
def outcome (s : Statement) : Except CoercionError Value :=
  Catalog.builtin.coerce s.field.key (.number (.finite s.value)) s.unit s.currency

/-- The filter that a statement makes of the value of its number. -/
def filter (s : Statement) (v : Value) : Predicate := .compare ⟨s.field.key, s.op, v⟩

/-- A statement as a piece that could not be used. -/
def skipped (s : Statement) (e : CoercionError) : Skipped := ⟨Token.joinedText s.tokens, e.message⟩

/-- What a statement says. -/
def clause (s : Statement) : Clause :=
  match s.outcome with
  | .ok v => .filter (s.filter v)
  | .error e => if e.isBreakdown then .breakdown e else .skipped (s.skipped e)

variable (s : Statement)

theorem mem_fields : s.field ∈ Catalog.builtin.fields := Catalog.mem_fields_of_field? s.found

theorem kind_ne_sector : s.field.kind ≠ .sector := fun h => absurd (h ▸ s.numeric) (by decide)

theorem label_ne_nil : s.label ≠ [] ∧ s.label.length ≤ fieldWords := by
  have hmem : s.field ∈ Catalog.builtinFields := Catalog.fields_ofFields Catalog.builtinFields ▸ s.mem_fields
  obtain ⟨-, ⟨w, ws, hwords, -⟩, -, hlength⟩ := Catalog.spelled_of_label hmem s.kind_ne_sector
  have hlengths := congrArg List.length s.spelled
  rw [List.length_map, List.length_map] at hlengths
  refine ⟨fun h => ?_, hlengths ▸ hlength⟩
  rw [h, hwords] at hlengths
  exact absurd hlengths (by simp)

/-- The label means the field. -/
theorem fieldAt?_label : fieldAt? Catalog.builtin s.label = some (s.field, s.label.length) := by
  obtain ⟨hne, hlength⟩ := s.label_ne_nil
  have hwords := words?_length (fun u hu => s.names u (List.mem_of_mem_head? hu)) (fun u hu => by simp [isWord, s.names u hu]) hne
  exact fieldAt?_label_words s.found hne hlength (s.spelled ▸ hwords)

/-- What the sign and the number make of the field. -/
theorem readFilter_amount (rest : List Token) : readFilter s.field s.op (s.amount :: rest) =
    match s.outcome with
    | .ok v => .ok (s.filter v, 1)
    | .error e => .error (.coercion e) := by
  have hop : s.op ∈ s.field.operators :=
    regular_builtin.operators s.field s.mem_fields ▸ Kind.mem_operators_of_isNumeric s.numeric s.op
  have hkey : (s.field.key == "sector") = false := by
    simpa using fun h => s.kind_ne_sector ((regular_builtin.sector s.field s.mem_fields).2 h)
  have houtcome : s.outcome = Catalog.coerceOn s.field (.number (.finite s.value)) s.unit s.currency := by
    simp only [outcome, Catalog.coerce, s.found]
  simp only [readFilter, if_neg s.single, readValue, if_neg s.kind_ne_sector, s.counts, ← houtcome]
  cases s.outcome with
  | error e => rfl
  | ok v =>
    simp only [ofCoercion, bind, Except.bind, pure, Except.pure, List.contains_iff_mem.2 hop, if_true, comparison, hkey]
    rfl

/-- **A statement is read by itself**, as long as no value comes next. -/
theorem read :
    ∃ t more, s.tokens = t :: more ∧ t.isName = true ∧ ∀ rest, Valueless rest →
      Clause.read Catalog.builtin t (more ++ rest) = ⟨[s.clause], s.tokens.length⟩ := by
  obtain ⟨u, more, hlabel, hu, hread⟩ := read_comparison s.fieldAt?_label s.compares
  refine ⟨u, more ++ [s.sign, s.amount], by rw [tokens, hlabel]; rfl, hu, fun rest hrest => ?_⟩
  have hamount : isValue s.amount = true := by rw [isValue, s.counts]
  have hlength : s.tokens.length = s.label.length + 1 + 1 := by rw [tokens, List.length_append]; rfl
  have htake : (s.label ++ s.sign :: s.amount :: rest).take (s.label.length + 1 + 1) = s.tokens := by
    have hsplit : s.label ++ s.sign :: s.amount :: rest = s.tokens ++ rest := by simp [tokens]
    rw [hsplit, ← hlength, List.take_left]
  rw [List.append_assoc, show [s.sign, s.amount] ++ rest = s.sign :: s.amount :: rest from rfl, hread, readComparison,
    drop_names, s.readFilter_amount, clause, hlength]
  cases s.outcome with
  | ok v => rfl
  | error e =>
    simp only [badValueLength_number hamount hrest, htake, ClauseError.breakdown?]
    cases e.isBreakdown <;> rfl

end Statement
end Clause
end EquityScreen
