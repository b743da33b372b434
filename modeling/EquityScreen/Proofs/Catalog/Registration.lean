/-
What a name means after any calls of `register`, some accepted and some refused.

No name of a field is a name of another but for case and separators (`Apart`): the built-in fields have
no such names (`apart_builtin`), and a field that has one is refused (`Apart.register`). So the exact
names, which are looked up first, never say anything else than the names without separators
(`Apart.resolve?_eq`), and `registerAll_consistent` says what follows for every sequence of calls.
-/
import EquityScreen.Proofs.Catalog.Spelling
import EquityScreen.Proofs.Outcome
import EquityScreen.Proofs.Text.Lower

namespace EquityScreen

open Text (isBlank isBlankText lowerFrom trimChars)

/-- Case is dropped once and for all. -/
theorem squeezeChars_of_subset {cs ds : List Char} (h : ds ⊆ lowerFrom [] cs) :
    squeezeChars ds = withoutSeparators ds := by
  rw [squeezeChars, Text.lowerFrom_lowerFrom h, withoutSeparators]

theorem squeezeChars_lowerFrom (cs : List Char) : squeezeChars (lowerFrom [] cs) = squeezeChars cs :=
  squeezeChars_of_subset (List.Subset.refl _)

/-- Blanks at the ends of a name are separators like others. -/
theorem bare_eq_squeezeChars (cs : List Char) : bare cs = squeezeChars cs := by
  rw [bare, squeezeChars_of_subset (Text.trimChars_subset _), withoutSeparators,
    Text.filter_trimChars fun c hc => by simp [isSeparator_of_isBlank hc], squeezeChars]

/-- Every name of a field without its separators. -/
def FieldInfo.bareNames (f : FieldInfo) : List (List Char) := f.writings.map squeezeChars

theorem FieldInfo.mem_bareNames {f : FieldInfo} {w : String} (h : w ∈ f.key :: f.label :: f.aliases) :
    squeezeChars w.toList ∈ f.bareNames := by
  have hw : lowerFrom [] w.toList ∈ f.writings := List.mem_map_of_mem (f := fun a => lowerFrom [] a.toList) h
  exact List.mem_map.2 ⟨_, hw, squeezeChars_lowerFrom _⟩

namespace Catalog

/-! ## Fields with names of their own -/

/-- The fields have keys, and no name of one is a name of another but for case and separators. -/
structure Apart (fs : List Field) : Prop where
  names : (fs.map (·.bareNames)).Pairwise fun ns ms => ∀ n ∈ ms, n ∉ ns
  keys : ∀ f ∈ fs, f.key ≠ ""

theorem apart_builtin : Apart builtinFields where
  names := by
    -- The literals are turned into characters here: in the kernel that is slow.
    simp only [FieldInfo.bareNames, FieldInfo.writings, builtinFields, identityFields, priceFields, valuationFields,
      profitabilityFields, healthFields, growthFields, volumeFields, returnFields, technicalFields,
      List.cons_append, List.nil_append, List.map_cons, List.map_nil, String.reduceToList]
    decide +kernel
  keys := by decide +kernel

variable {fs : List Field} {f g : Field} {n : List Char}

/-- **A name has one field.** -/
theorem Apart.eq_of_mem_bareNames (h : Apart fs) (hf : f ∈ fs) (hg : g ∈ fs) (hfn : n ∈ f.bareNames)
    (hgn : n ∈ g.bareNames) : f = g := by
  have hnames := List.pairwise_map.1 h.names
  have hall : ∀ f ∈ fs, ∀ g ∈ fs, ∀ n ∈ f.bareNames, n ∈ g.bareNames → f = g :=
    List.Pairwise.forall_of_forall_of_flip (fun _ _ _ _ _ => rfl)
      (hnames.imp fun hapart n hf hg => absurd hf (hapart n hg))
      (hnames.imp fun hapart n hf hg => absurd hg (hapart n hf))
  exact hall f hf g hg n hfn hgn

theorem any_writings {cs : List Char} :
    f.writings.any (squeezeChars · == squeezeChars cs) = true ↔ squeezeChars cs ∈ f.bareNames := by
  simp only [List.any_eq_true, beq_iff_eq, FieldInfo.bareNames, List.mem_map]

/-- The field with a name is found, whichever entry is met first. -/
theorem Apart.find?_eq (h : Apart fs) (hf : f ∈ fs) {cs : List Char} (hcs : squeezeChars cs ∈ f.bareNames) :
    fs.reverse.find? (·.writings.any (squeezeChars · == squeezeChars cs)) = some f := by
  cases hfind : fs.reverse.find? (·.writings.any (squeezeChars · == squeezeChars cs)) with
  | none => exact absurd (any_writings.2 hcs) (List.find?_eq_none.1 hfind f (List.mem_reverse.2 hf))
  | some g =>
    have hg : g ∈ fs := List.mem_reverse.1 (List.mem_of_find?_eq_some hfind)
    have hgcs := List.find?_some hfind
    rw [h.eq_of_mem_bareNames hg hf (any_writings.1 hgcs) hcs]

/-! ## Looking names up -/

theorem lookup_names (fs : List Field) (s : String) :
    (ofFields fs).names.lookup s = (fs.reverse.find? (·.writings.any (· == s.toList))).map (·.key) := by
  have hlookup := (lookup_flatMap id fs.reverse s).trans (by simp only [any_names _ id id fun _ => rfl]; rfl)
  simp only [id] at hlookup
  rw [ofFields, names_foldl_add, show empty.names = [] from rfl, List.append_nil, hlookup]

theorem lookup_squeezed (fs : List Field) (s : String) :
    (ofFields fs).squeezed.lookup (squeeze s) =
      (fs.reverse.find? (·.writings.any (squeezeChars · == squeezeChars s.toList))).map (·.key) := by
  have hlookup := lookup_flatMap squeeze fs.reverse (squeeze s)
  simp only [any_names _ squeeze squeezeChars toList_squeeze, toList_squeeze] at hlookup
  rw [ofFields, squeezed_foldl_add, show empty.squeezed = [] from rfl, List.append_nil, hlookup]

/-- **What a name means** is read off its letters alone: a field found by the exact name is the one found
without separators. -/
theorem Apart.resolve?_eq (h : Apart fs) {s : String} (hs : isBlankText s = false) :
    (ofFields fs).resolve? s =
      (fs.reverse.find? (·.writings.any (squeezeChars · == squeezeChars s.toList))).map (·.key) := by
  have hne : trimChars (lowerFrom [] s.toList) ≠ [] := by
    rw [isBlankText, List.all_eq_false] at hs
    exact Text.trimChars_lowerFrom_ne_nil (hs.imp fun c hc => ⟨hc.1, by simpa using hc.2⟩)
  have hbare : squeezeChars (trimChars (lowerFrom [] s.toList)) = squeezeChars s.toList := bare_eq_squeezeChars _
  rw [resolve?_ofFields]
  dsimp only
  rw [if_neg hne, hbare]
  cases hexact : fs.reverse.find? (·.writings.any (· == trimChars (lowerFrom [] s.toList))) with
  | none => rfl
  | some f =>
    have hany := List.find?_some hexact
    obtain ⟨w, hw, hws⟩ := List.any_eq_true.1 hany
    have hf : f ∈ fs := List.mem_reverse.1 (List.mem_of_find?_eq_some hexact)
    have hfs : squeezeChars s.toList ∈ f.bareNames :=
      List.mem_map.2 ⟨w, hw, by rw [beq_iff_eq.1 hws, hbare]⟩
    rw [h.find?_eq hf hfs]
    rfl

/-- Every name of a field means it. -/
theorem Apart.resolve?_name (h : Apart fs) (hf : f ∈ fs) {w : String} (hw : w ∈ f.key :: f.label :: f.aliases)
    (hvisible : isBlankText w = false) : (ofFields fs).resolve? w = some f.key := by
  rw [h.resolve?_eq hvisible, h.find?_eq hf (FieldInfo.mem_bareNames hw)]
  rfl

/-! ## Registration -/

theorem mem_bareNames_iff {n : List Char} : n ∈ bareNames fs ↔ ∃ f ∈ fs, n ∈ f.bareNames := List.mem_flatMap

/-- Whoever owns the name of a new field stands in its way. -/
theorem Apart.obstacle?_eq_none_iff (h : Apart fs) {key : String} (hnew : ∀ f ∈ fs, f.key ≠ key) (name : String) :
    (ofFields fs).obstacle? key name = none ↔ squeezeChars name.toList ∉ bareNames fs := by
  unfold obstacle? rival?
  rw [lookup_names, lookup_squeezed]
  constructor
  · intro hnone hmem
    obtain ⟨f, hf, hname⟩ := mem_bareNames_iff.1 hmem
    split at hnone
    · exact absurd hnone nofun
    · have hrival := Option.map_eq_none_iff.1 hnone
      rw [h.find?_eq hf hname, Option.map_some, Option.filter_eq_none_iff] at hrival
      exact absurd (hrival _ rfl) (by simp [h.keys f hf, hnew f hf])
  · intro hno
    have hsqueezed : ∀ f ∈ fs, squeezeChars name.toList ∉ f.bareNames :=
      fun f hf hname => hno (mem_bareNames_iff.2 ⟨f, hf, hname⟩)
    have hexact : ∀ f ∈ fs.reverse, ¬ f.writings.any (· == name.toList) = true := fun f hf hany => by
      obtain ⟨w, hw, hws⟩ := List.any_eq_true.1 hany
      exact hsqueezed f (List.mem_reverse.1 hf) (beq_iff_eq.1 hws ▸ List.mem_map_of_mem hw)
    rw [List.find?_eq_none.2 hexact,
      List.find?_eq_none.2 fun f hf hany => hsqueezed f (List.mem_reverse.1 hf) (any_writings.1 hany)]
    rfl

/-- **A field is registered** when its key is new, its column is an attribute, and no name of it is taken. -/
theorem Apart.register_iff (h : Apart fs) {p : Proposal} {c : Catalog} :
    (ofFields fs).register p = .ok c ↔
      (∀ f ∈ fs, f.key ≠ p.key) ∧ (∀ n ∈ p.bareNames, n ∉ bareNames fs) ∧
        ∃ attr, Attribute.ofColumn? p.column = some attr ∧ c = ofFields (fs ++ [{ p with attr }]) := by
  have hfield : (ofFields fs).field? p.key = none ↔ ∀ f ∈ fs, f.key ≠ p.key := by
    simp [field?]
  have hnames : (∀ n ∈ p.bareNames, n ∉ bareNames fs) ↔
      ∀ name ∈ p.names, squeezeChars name.toList ∉ bareNames fs := by
    simp only [FieldInfo.bareNames, ← p.map_toList_names, List.forall_mem_map]
  have hadd : ∀ attr, (ofFields fs).add { p with attr } = ofFields (fs ++ [{ p with attr }]) := fun attr => by
    rw [ofFields, ofFields, List.foldl_append]
    rfl
  unfold register
  rw [hnames]
  by_cases hnew : ∀ f ∈ fs, f.key ≠ p.key
  · rw [hfield.2 hnew, if_neg (by simp)]
    cases Attribute.ofColumn? p.column with
    | none => simp
    | some attr =>
      cases hfind : p.names.findSome? ((ofFields fs).obstacle? p.key) with
      | some e =>
        obtain ⟨name, hname, he⟩ := List.exists_of_findSome?_eq_some hfind
        have htaken : squeezeChars name.toList ∈ bareNames fs :=
          Classical.byContradiction fun hfree =>
            absurd ((h.obstacle?_eq_none_iff hnew name).2 hfree) (by simp [he])
        exact iff_of_false (by simp) fun hall => absurd htaken (hall.2.1 name hname)
      | none =>
        have hfree := fun name hname =>
          (h.obstacle?_eq_none_iff hnew name).1 (List.findSome?_eq_none_iff.1 hfind name hname)
        simp only [hadd, Except.ok.injEq, Option.some.injEq, exists_eq_left']
        exact ⟨fun hc => ⟨hnew, hfree, hc.symm⟩, fun hall => hall.2.2.symm⟩
  · rw [if_pos (Option.isSome_iff_ne_none.2 (mt hfield.1 hnew))]
    exact iff_of_false (by simp) fun hall => hnew hall.1

/-- Fields stay apart when one is registered. -/
theorem Apart.append (h : Apart fs) (hkey : f.key ≠ "") (hfree : ∀ n ∈ f.bareNames, n ∉ bareNames fs) :
    Apart (fs ++ [f]) where
  names := by
    rw [List.map_append, List.map_singleton, List.pairwise_append]
    refine ⟨h.names, List.pairwise_singleton _ _, fun ns hns ms hms n hn hn' => ?_⟩
    obtain ⟨g, hg, rfl⟩ := List.mem_map.1 hns
    rw [List.mem_singleton.1 hms] at hn
    exact hfree n hn (mem_bareNames_iff.2 ⟨g, hg, hn'⟩)
  keys := List.forall_mem_append.2 ⟨h.keys, List.forall_mem_singleton.2 hkey⟩

/-- The catalog after a call of `register`, accepted or refused. -/
def afterRegister (c : Catalog) (p : Proposal) : Catalog :=
  match c.register p with
  | .ok c' => c'
  | .error _ => c

/-- The catalog after calls of `register` in turn. -/
def registerAll (c : Catalog) (ps : List Proposal) : Catalog := ps.foldl afterRegister c

theorem afterRegister_ok {c c' : Catalog} {p : Proposal} (h : c.register p = .ok c') : c.afterRegister p = c' := by
  rw [afterRegister, h]

theorem afterRegister_error {c : Catalog} {p : Proposal} {e : RegistrationError} (h : c.register p = .error e) :
    c.afterRegister p = c := by
  rw [afterRegister, h]

theorem registerAll_append (c : Catalog) (ps qs : List Proposal) :
    c.registerAll (ps ++ qs) = (c.registerAll ps).registerAll qs := List.foldl_append

theorem registerAll_cons (c : Catalog) (p : Proposal) (ps : List Proposal) :
    c.registerAll (p :: ps) = (c.afterRegister p).registerAll ps := rfl

/-- **After any calls** the catalog has more fields, and they are apart. -/
theorem Apart.registerAll {ps : List Proposal} (h : Apart fs) (hkeys : ∀ p ∈ ps, p.key ≠ "") :
    ∃ more, (ofFields fs).registerAll ps = ofFields (fs ++ more) ∧ Apart (fs ++ more) := by
  induction ps generalizing fs with
  | nil => exact ⟨[], by rw [List.append_nil]; exact ⟨rfl, h⟩⟩
  | cons p ps ih =>
    rw [List.forall_mem_cons] at hkeys
    rw [registerAll_cons]
    cases hp : (ofFields fs).register p with
    | error e =>
      rw [afterRegister_error hp]
      exact ih h hkeys.2
    | ok c =>
      obtain ⟨-, hfree, attr, -, rfl⟩ := h.register_iff.1 hp
      obtain ⟨more, hmore, happart⟩ := ih (h.append (f := { p with attr }) hkeys.1 hfree) hkeys.2
      rw [List.append_assoc] at hmore happart
      rw [afterRegister_ok hp]
      exact ⟨_, hmore, happart⟩

/-- **The names of a catalog stay consistent.** Fields with keys are put forward one after the other, and
some are refused. A refused one leaves no trace; every name of one that was registered, and of a built-in
one, means that field in the end; and names that are the same but for case and separators mean the same. -/
theorem registerAll_consistent (ps : List Proposal) (hkeys : ∀ p ∈ ps, p.key ≠ "") :
    (∀ before p after e, ps = before ++ p :: after → (builtin.registerAll before).register p = .error e →
        builtin.registerAll (before ++ [p]) = builtin.registerAll before ∧
          builtin.registerAll ps = builtin.registerAll (before ++ after)) ∧
      (∀ before p after c, ps = before ++ p :: after → (builtin.registerAll before).register p = .ok c →
        ∀ w ∈ p.key :: p.label :: p.aliases, isBlankText w = false →
          (builtin.registerAll ps).resolve? w = some p.key) ∧
      (∀ f ∈ builtinFields, ∀ w ∈ f.key :: f.label :: f.aliases, isBlankText w = false →
        (builtin.registerAll ps).resolve? w = some f.key) ∧
      ∀ s t, isBlankText s = false → isBlankText t = false → squeeze s = squeeze t →
        (builtin.registerAll ps).resolve? s = (builtin.registerAll ps).resolve? t := by
  refine ⟨fun before p after e hps he => ?_, fun before p after c hps hc w hw hvisible => ?_,
    fun f hf w hw hvisible => ?_, fun s t hs ht hst => ?_⟩
  · rw [hps, registerAll_append, registerAll_append, registerAll_append, registerAll_cons, registerAll_cons,
      afterRegister_error he]
    exact ⟨rfl, rfl⟩
  · subst hps
    rw [List.forall_mem_append, List.forall_mem_cons] at hkeys
    obtain ⟨earlier, hbefore, hapart⟩ := apart_builtin.registerAll hkeys.1
    have hregistered := afterRegister_ok hc
    rw [builtin_eq, hbefore] at hc
    obtain ⟨-, hfree, attr, -, rfl⟩ := hapart.register_iff.1 hc
    obtain ⟨later, hafter, hapart⟩ := (hapart.append (f := { p with attr }) hkeys.2.1 hfree).registerAll hkeys.2.2
    rw [registerAll_append, registerAll_cons, hregistered, hafter]
    exact hapart.resolve?_name (f := { p with attr }) (by simp) hw hvisible
  · obtain ⟨more, hmore, hapart⟩ := apart_builtin.registerAll hkeys
    rw [builtin_eq, hmore]
    exact hapart.resolve?_name (List.mem_append_left _ hf) hw hvisible
  · obtain ⟨more, hmore, hapart⟩ := apart_builtin.registerAll hkeys
    have hletters : squeezeChars s.toList = squeezeChars t.toList := by
      rw [← toList_squeeze, ← toList_squeeze, hst]
    rw [builtin_eq, hmore, hapart.resolve?_eq hs, hapart.resolve?_eq ht, hletters]

/-- A field for the highest price, two names of which are the same without separators. -/
def maxPrice : Proposal where
  key := "maxPrice"
  label := "Max Price"
  kind := .currency
  aliases := ["max-price", "maximum"]
  column := "high_52w"

/-- A field with a name that is one of the market capitalization's but for the hyphen. -/
def capital : Proposal where
  key := "capital"
  label := "Capital"
  kind := .currency
  aliases := ["M-Cap"]
  column := "mcap"

/-- The first field is registered and the second is refused, so "M-Cap" goes on meaning what it meant. -/
theorem registerAll_consistent_maxPrice :
    builtin.registerAll [maxPrice, capital] = builtin.registerAll [maxPrice] ∧
      (builtin.registerAll [maxPrice, capital]).resolve? "MAX_price" = some "maxPrice" ∧
      (builtin.registerAll [maxPrice, capital]).resolve? "M-Cap" = some "mcap" := by
  have haccepted : builtin.register maxPrice =
      .ok (ofFields (builtinFields ++ [{ maxPrice with attr := .high52w }])) := by
    refine apart_builtin.register_iff.2 ⟨by decide +kernel, fun n hn hmem => ?_, _, by decide +kernel, rfl⟩
    -- No built-in name starts with "max".
    have hmax : ∀ n ∈ maxPrice.bareNames, "max".toList <+: n := by decide +kernel
    exact (unclaimed_of_mem hmem).superlative ("max", .descending) (by decide) (hmax n hn)
  have hmcap : "mcap".toList ∈ bareNames builtinFields := by decide +kernel
  have hkeys : ∀ p ∈ [maxPrice, capital], p.key ≠ "" := by decide
  have hkey : ∀ p ∈ [maxPrice], p.key ≠ "" := by decide
  obtain ⟨more, hmore, hapart⟩ := apart_builtin.registerAll hkey
  have hrefused : ∃ e, (builtin.registerAll [maxPrice]).register capital = .error e := by
    refine Except.exists_error_iff.2 fun ⟨c, hc⟩ => ?_
    rw [builtin_eq, hmore] at hc
    obtain ⟨f, hf, hfn⟩ := mem_bareNames_iff.1 hmcap
    exact (hapart.register_iff.1 hc).2.1 _ (by decide +kernel)
      (mem_bareNames_iff.2 ⟨f, List.mem_append_left _ hf, hfn⟩)
  obtain ⟨e, he⟩ := hrefused
  obtain ⟨hrefusal, hregistered, hbuiltin, hsame⟩ := registerAll_consistent [maxPrice, capital] hkeys
  refine ⟨(hrefusal [maxPrice] capital [] e rfl he).2, ?_, ?_⟩
  · rw [hsame "MAX_price" "maxPrice" (by decide) (by decide) (by decide +kernel)]
    exact hregistered [] maxPrice [capital] _ rfl haccepted _ List.mem_cons_self (by decide)
  · rw [hsame "M-Cap" "mcap" (by decide) (by decide) (by decide +kernel)]
    obtain ⟨f, hf, hkey⟩ : ∃ f ∈ builtinFields, f.key = "mcap" := by decide +kernel
    exact hkey ▸ hbuiltin f hf f.key List.mem_cons_self (hkey ▸ by decide)

end Catalog
end EquityScreen
