/-
Looking names up in a catalog that was put together field by field.

The entries of such a catalog are the names of its fields, the fields added last in front. So a name
means the last field that has it, and a name without its separators the last field that has one with
the same letters (`resolve?_ofFields`). The look-up is stated on characters, where it can be worked
out for the built-in fields.
-/
import EquityScreen.Catalog.Builtin

namespace EquityScreen

open Text (lowerFrom trimChars)

/-- Every name of a field, in lower case, as characters. -/
def FieldInfo.writings (f : FieldInfo) : List (List Char) :=
  lowerFrom [] f.key.toList :: lowerFrom [] f.label.toList ::
    f.aliases.map fun a => lowerFrom [] a.toList

/-- The characters of a name in lower case without its separators. -/
def squeezeChars (cs : List Char) : List Char := (lowerFrom [] cs).filter (!isSeparator ·)

theorem Text.toList_lower (s : String) : (Text.lower s).toList = lowerFrom [] s.toList :=
  String.toList_ofList

theorem toList_squeeze (s : String) : (squeeze s).toList = squeezeChars s.toList := by
  simp only [squeeze, String.toList_ofList, Text.toList_lower, squeezeChars]

theorem FieldInfo.map_toList_names (f : FieldInfo) : f.names.map String.toList = f.writings := by
  simp only [names, writings, List.map_cons, List.map_map, Text.toList_lower]
  rw [List.map_congr_left fun a _ => (Function.comp_apply).trans (Text.toList_lower a)]

namespace Catalog

/-- The catalog of the fields, added in turn. -/
def ofFields (fs : List Field) : Catalog := fs.foldl add empty

theorem builtin_eq : builtin = ofFields builtinFields := rfl

theorem fields_foldl_add (fs : List Field) (c : Catalog) : (fs.foldl add c).fields = c.fields ++ fs := by
  induction fs generalizing c with
  | nil => simp
  | cons f fs ih => simp [ih, add]

@[simp] theorem fields_ofFields (fs : List Field) : (ofFields fs).fields = fs := by
  simp [ofFields, fields_foldl_add, empty]

theorem names_foldl_add (fs : List Field) (c : Catalog) :
    (fs.foldl add c).names = (fs.reverse.flatMap fun f => f.names.map (·, f.key)) ++ c.names := by
  induction fs generalizing c with
  | nil => simp
  | cons f fs ih => simp [ih, add]

theorem squeezed_foldl_add (fs : List Field) (c : Catalog) :
    (fs.foldl add c).squeezed =
      (fs.reverse.flatMap fun f => f.names.map fun n => (squeeze n, f.key)) ++ c.squeezed := by
  induction fs generalizing c with
  | nil => simp
  | cons f fs ih => simp [ih, add]

/-- The first entry with a name stands with the first field that has a name written so. -/
theorem lookup_flatMap (write : String → String) (fs : List Field) (s : String) :
    (fs.flatMap fun f => f.names.map fun n => (write n, f.key)).lookup s =
      (fs.find? fun f => f.names.any (write · == s)).map (·.key) := by
  have hone : ∀ (ns : List String) (key : String),
      (ns.map fun n => (write n, key)).lookup s = if ns.any (write · == s) then some key else none := by
    intro ns key
    induction ns with
    | nil => rfl
    | cons n ns ih =>
      rw [List.map_cons, List.lookup_cons, List.any_cons, ih]
      by_cases h : write n = s
      · simp [h]
      · simp [h, beq_eq_false_iff_ne.2 (Ne.symm h)]
  induction fs with
  | nil => rfl
  | cons f fs ih =>
    rw [List.flatMap_cons, List.lookup_append, hone, ih, List.find?_cons]
    split
    · next h => rw [h]; rfl
    · next h => rw [Bool.not_eq_true] at h; rw [h]; rfl

theorem any_names (f : FieldInfo) (write : String → String) (image : List Char → List Char)
    (h : ∀ n, (write n).toList = image n.toList) (s : String) :
    (f.names.any (write · == s)) = f.writings.any (image · == s.toList) := by
  rw [← f.map_toList_names, List.any_map]
  congr 1
  funext n
  rw [Function.comp_apply, ← h, Bool.eq_iff_iff, beq_iff_eq, beq_iff_eq, String.toList_inj]

/-- **A name is looked up** among the names of the fields, and after that among their names without
separators. -/
theorem resolve?_ofFields (fs : List Field) (s : String) :
    (ofFields fs).resolve? s =
      let n := trimChars (lowerFrom [] s.toList)
      if n = [] then none
      else (fs.reverse.find? (·.writings.any (· == n)) <|>
        fs.reverse.find? (·.writings.any (squeezeChars · == squeezeChars n))).map (·.key) := by
  have htrim : (Text.trim (Text.lower s)).toList = trimChars (lowerFrom [] s.toList) := by
    rw [Text.trim, String.toList_ofList, Text.toList_lower]
  have hempty : (Text.trim (Text.lower s) == "") = true ↔ trimChars (lowerFrom [] s.toList) = [] := by
    rw [beq_iff_eq, ← htrim, String.toList_eq_nil_iff]
  have hnames : ∀ s, _ := fun s => (lookup_flatMap id fs.reverse s).trans
    (by simp only [any_names _ id id (fun _ => rfl)]; rfl)
  have hsqueezed := lookup_flatMap squeeze fs.reverse
  simp only [any_names _ squeeze squeezeChars toList_squeeze] at hsqueezed
  simp only [id] at hnames
  unfold resolve?
  dsimp only
  rw [ofFields, names_foldl_add, squeezed_foldl_add]
  simp only [empty, List.append_nil, hnames, hsqueezed, toList_squeeze, htrim, hempty]
  split
  · rfl
  · cases fs.reverse.find? (fun f => f.writings.any (· == trimChars (lowerFrom [] s.toList))) <;> rfl

/-- No field is called "pharma". -/
theorem resolve?_pharma : builtin.resolve? "pharma" = none := by
  rw [builtin_eq, resolve?_ofFields]
  -- The literals are turned into characters here: in the kernel that is slow.
  simp only [builtinFields, identityFields, priceFields, valuationFields, profitabilityFields,
    healthFields, growthFields, volumeFields, returnFields, technicalFields, List.cons_append,
    List.nil_append, FieldInfo.writings, List.reverse_cons, List.reverse_nil, List.find?_cons,
    List.find?_nil, List.any_cons, List.any_nil, String.reduceToList, List.map_cons, List.map_nil]
  decide +kernel

end Catalog
end EquityScreen
