/-
The catalog of queryable fields. A field is found by its key, or by any of its names without regard
to case and to the separators inside the name. No name may mean two fields: registration refuses a
key, a name, or a name without its separators that is already taken.
-/
import EquityScreen.Field
import EquityScreen.Text.Blank
import EquityScreen.Text.Quoted

namespace EquityScreen

/-- Fields in the order of registration, with the keys that names mean, and the keys that names
without separators mean. Later entries come first. -/
structure Catalog where
  fields : List Field
  names : List (String × String)
  squeezed : List (String × String)

/-- Why a field was not registered. -/
inductive RegistrationError where
  | duplicateKey (key : String)
  | unknownColumn (column : String)
  | nameTaken (name owner : String)
  | nameCollides (name owner : String)
  deriving DecidableEq, Repr

/-- The wording of a refusal. -/
def RegistrationError.message : RegistrationError → String
  | .duplicateKey key => s!"Duplicate field key: {key}"
  | .unknownColumn column => s!"Security has no attribute {Text.quoted column}"
  | .nameTaken name owner => s!"Alias {Text.quoted name} already maps to {owner}"
  | .nameCollides name owner => s!"Alias {Text.quoted name} collides with {owner}"

/-- A character that a name may be written with or without. -/
def isSeparator (c : Char) : Bool :=
  Text.isBlank c || c == '_' || c == '-' || c == '/' || c == '.'

/-- A name in lower case without its separators. -/
def squeeze (name : String) : String :=
  String.ofList ((Text.lower name).toList.filter (!isSeparator ·))

namespace Catalog

/-- The catalog without fields. -/
def empty : Catalog := ⟨[], [], []⟩

/-- The field with a key. -/
def field? (c : Catalog) (key : String) : Option Field := c.fields.find? (·.key == key)

/-- The catalog with one field more. -/
def add (c : Catalog) (f : Field) : Catalog where
  fields := c.fields ++ [f]
  names := f.names.map (·, f.key) ++ c.names
  squeezed := f.names.map (fun n => (squeeze n, f.key)) ++ c.squeezed

/-- The owner of an entry when it is a key other than `key`. The empty key owns nothing. -/
def rival? (entries : List (String × String)) (name key : String) : Option String :=
  (entries.lookup name).filter fun owner => owner != "" && owner != key

/-- Why one name of a field cannot be taken. -/
def obstacle? (c : Catalog) (key name : String) : Option RegistrationError :=
  match rival? c.names name key with
  | some owner => some (.nameTaken name owner)
  | none => (rival? c.squeezed (squeeze name) key).map (.nameCollides name)

/-- Registers a field, or says why not. -/
def register (c : Catalog) (p : Proposal) : Except RegistrationError Catalog :=
  if (c.field? p.key).isSome then .error (.duplicateKey p.key)
  else match Attribute.ofColumn? p.column with
    | none => .error (.unknownColumn p.column)
    | some attr =>
      match p.names.findSome? (c.obstacle? p.key) with
      | some e => .error e
      | none => .ok (c.add { p with attr })

/-- The key of the field that a text names, without regard to case and separators. -/
def resolve? (c : Catalog) (name : String) : Option String :=
  let normal := Text.trim (Text.lower name)
  if normal == "" then none
  else match c.names.lookup normal with
    | some key => some key
    | none => c.squeezed.lookup (squeeze normal)

/-- Position of a key in the order of registration; unknown keys come last. -/
def position (c : Catalog) (key : String) : Nat := c.fields.findIdx (·.key == key)

end Catalog

end EquityScreen
