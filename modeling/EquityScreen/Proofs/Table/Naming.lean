/-
Which attribute a column name stands for.

Attributes have column names of their own, and these come first. They take no column away from a field, since
the column name of an attribute is, but for case and separators, the key of the built-in field of the attribute
(`squeeze_column`); so the key of every field, registered ones included, stands for the attribute of the field
(`Apart.attribute?_key`, `attribute?_registerAll`).
-/
import EquityScreen.Proofs.Catalog.Registration
import EquityScreen.Proofs.Catalog.Regular
import EquityScreen.Table

namespace EquityScreen

open Text (isBlankText)

namespace Catalog

variable {fs : List Field} {f : Field}

/-- **A field is found by its key.** -/
theorem Apart.field?_key (h : Apart fs) (hf : f ∈ fs) : (ofFields fs).field? f.key = some f := by
  unfold field?
  rw [fields_ofFields]
  cases hfind : fs.find? (·.key == f.key) with
  | none => exact absurd (beq_self_eq_true f.key) (List.find?_eq_none.1 hfind f hf)
  | some g =>
    have hkey : g.key = f.key := by simpa using List.find?_some hfind
    have hgn : squeezeChars f.key.toList ∈ g.bareNames := hkey ▸ FieldInfo.mem_bareNames List.mem_cons_self
    rw [h.eq_of_mem_bareNames (List.mem_of_find?_eq_some hfind) hf hgn (FieldInfo.mem_bareNames List.mem_cons_self)]

/-- A name of a field that is no column name of an attribute stands for the attribute of the field. -/
theorem Apart.attribute?_name (h : Apart fs) (hf : f ∈ fs) {w : String} (hw : w ∈ f.key :: f.label :: f.aliases)
    (hvisible : isBlankText w = false) (hcolumn : Attribute.ofColumn? w = none) :
    Table.attribute? (ofFields fs) w = some f.attr := by
  unfold Table.attribute?
  rw [hcolumn, h.resolve?_name hf hw hvisible]
  dsimp only
  rw [Option.bind_some, h.field?_key hf, Option.map_some]

theorem exists_builtin_attr (a : Attribute) : ∃ f ∈ builtinFields, f.attr = a := by
  cases a <;> decide +kernel

/-- The price to earnings has a field of figures. -/
theorem exists_field_pe : ∃ f, builtin.field? "pe" = some f ∧ f.attr = .pe ∧ f.kind.isNumeric = true :=
  ⟨(builtin.field? "pe").get (by decide +kernel), by simp, by decide +kernel⟩

theorem squeeze_column : ∀ f ∈ builtinFields, squeezeChars f.attr.column.toList = squeezeChars f.key.toList := by
  decide +kernel

/-- **The key of a field** stands for the attribute of the field. -/
theorem Apart.attribute?_key (h : Apart fs) (hbuiltin : builtinFields ⊆ fs) (hf : f ∈ fs)
    (hvisible : isBlankText f.key = false) : Table.attribute? (ofFields fs) f.key = some f.attr := by
  cases hcolumn : Attribute.ofColumn? f.key with
  | none => exact h.attribute?_name hf List.mem_cons_self hvisible hcolumn
  | some a =>
    have hkey : a.column = f.key := by simpa using List.find?_some hcolumn
    obtain ⟨g, hg, rfl⟩ := exists_builtin_attr a
    have hfg : squeezeChars f.key.toList ∈ g.bareNames :=
      hkey ▸ squeeze_column g hg ▸ FieldInfo.mem_bareNames List.mem_cons_self
    have heq : f = g := h.eq_of_mem_bareNames hf (hbuiltin hg) (FieldInfo.mem_bareNames List.mem_cons_self) hfg
    rw [Table.attribute?, hcolumn, heq]

/-! ## Registered fields -/

theorem mem_afterRegister {c : Catalog} {p : Proposal} (h : f ∈ (c.afterRegister p).fields) :
    f ∈ c.fields ∨ f.key = p.key := by
  cases hregister : c.register p with
  | error e => exact .inl (afterRegister_error hregister ▸ h)
  | ok c' =>
    rw [afterRegister_ok hregister] at h
    unfold register at hregister
    split at hregister
    · exact absurd hregister nofun
    · split at hregister
      · exact absurd hregister nofun
      · split at hregister
        · exact absurd hregister nofun
        · obtain rfl := Except.ok.inj hregister
          exact (List.mem_append.1 h).imp id fun hf => by rw [List.mem_singleton.1 hf]

/-- The fields are those from before and some that were put forward. -/
theorem mem_registerAll {c : Catalog} {ps : List Proposal} (h : f ∈ (c.registerAll ps).fields) :
    f ∈ c.fields ∨ ∃ p ∈ ps, f.key = p.key := by
  induction ps generalizing c with
  | nil => exact .inl h
  | cons p ps ih =>
    rw [registerAll_cons] at h
    rcases ih h with hf | ⟨q, hq, hkey⟩
    · exact (mem_afterRegister hf).imp id fun hkey => ⟨p, List.mem_cons_self, hkey⟩
    · exact .inr ⟨q, List.mem_cons_of_mem p hq, hkey⟩

theorem visible_builtin : ∀ f ∈ builtinFields, isBlankText f.key = false := by decide +kernel

/-- **A key stands for the attribute of its field** whatever is registered under keys that are not blank. -/
theorem attribute?_registerAll {ps : List Proposal} (hps : ∀ p ∈ ps, isBlankText p.key = false) {k : String}
    (h : (builtin.registerAll ps).field? k = some f) :
    Table.attribute? (builtin.registerAll ps) k = some f.attr := by
  have hkeys : ∀ p ∈ ps, p.key ≠ "" := fun p hp hkey => absurd (hkey ▸ hps p hp) (by decide)
  obtain ⟨more, hmore, hapart⟩ := apart_builtin.registerAll hkeys
  rw [← builtin_eq] at hmore
  have hmem : f ∈ (builtin.registerAll ps).fields := List.mem_of_find?_eq_some h
  have hvisible : isBlankText f.key = false := by
    rcases mem_registerAll hmem with hf | ⟨p, hp, hkey⟩
    · rw [builtin_eq, fields_ofFields] at hf
      exact visible_builtin f hf
    · exact hkey ▸ hps p hp
  rw [hmore, fields_ofFields] at hmem
  rw [← key_of_field? h, hmore]
  exact hapart.attribute?_key (List.subset_append_left _ _) hmem hvisible

end Catalog
end EquityScreen
