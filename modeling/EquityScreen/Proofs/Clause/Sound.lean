/-
What the clauses of a query promise: their filters are well-formed, their sectors are listed, every
order is by a field of the catalog, and the filter of a qualitative word can be put into words
(`read_sound`). Reading stops only at an immense number (`read_workable`).
-/
import EquityScreen.Proofs.Catalog.Coercion
import EquityScreen.Proofs.Clause.Reading
import EquityScreen.Wording.Sentence

namespace EquityScreen

/-- The comparison can be put into words in either style. -/
def Comparison.Wordable (c : Catalog) (cmp : Comparison) : Prop :=
  ∀ style, ∃ s, cmp.worded c style = .ok s

namespace Clause

variable {c : Catalog} {f : Field} {ts : List Token}

/-! ## Values -/

theorem ofCoercion_ok {r : Except CoercionError Value} {v : Value} (h : ofCoercion r = .ok v) : r = .ok v := by
  cases r with
  | error e => exact absurd h (by simp [ofCoercion])
  | ok w => rw [Except.ok.inj h]

theorem ofCoercion_error {r : Except CoercionError Value} {e : ClauseError} (h : ofCoercion r = .error e) :
    ∃ e', r = .error e' ∧ e = .coercion e' := by
  cases r with
  | error e' => exact ⟨e', rfl, (Except.error.inj h).symm⟩
  | ok w => exact absurd h (by simp [ofCoercion])

/-- What a token stands for as a value of a field without sectors: a number, or on a field of texts its text. -/
inductive Stands (f : Field) (t : Token) : Literal → Option UnitMark → Bool → Prop
  | number {d : Decimal} {unit : Option UnitMark} {currency : Bool} : t.content = .number d unit currency →
    Stands f t (.number (.finite d)) unit currency
  | name : f.kind = .text → t.content = .name → Stands f t (.text t.text) none false
  | quoted {phrase : String} : f.kind = .text → t.content = .quoted phrase → Stands f t (.text phrase) none false

/-- A token is worth what it stands for, or is no value of the field. -/
theorem readValue_cons (hk : f.kind ≠ .sector) (t : Token) (more : List Token) :
    (∃ raw unit currency, Stands f t raw unit currency ∧ readValue f (t :: more) =
      (ofCoercion (Catalog.coerceOn f raw unit currency)).bind fun v => .ok (v, 1)) ∨
    readValue f (t :: more) = .error (.unexpectedValue f.label t.text) := by
  unfold readValue
  dsimp only
  rw [if_neg hk]
  cases hcontent : t.content with
  | number d unit currency => exact .inl ⟨_, _, _, .number hcontent, rfl⟩
  | name =>
    by_cases htext : f.kind = .text
    · exact .inl ⟨_, _, _, .name htext hcontent, if_pos htext⟩
    · exact .inr (if_neg htext)
  | quoted phrase =>
    by_cases htext : f.kind = .text
    · exact .inl ⟨_, _, _, .quoted htext hcontent, if_pos htext⟩
    · exact .inr (if_neg htext)
  | _ => exact .inr rfl

/-- **What a value is read from**: a sector at the front on a field of sectors, else what one token stands for. -/
theorem readValue_ok {v : Value} {n : Nat} (h : readValue f ts = .ok (v, n)) :
    (f.kind = .sector ∧ ∃ sector, sectorAt? ts true = some (sector, n) ∧ v = .text sector) ∨
    (f.kind ≠ .sector ∧ n = 1 ∧ ∃ t more raw unit currency, ts = t :: more ∧ Stands f t raw unit currency ∧
      Catalog.coerceOn f raw unit currency = .ok v) := by
  cases ts with
  | nil => exact absurd h nofun
  | cons t more =>
    by_cases hk : f.kind = .sector
    · unfold readValue at h
      dsimp only at h
      rw [if_pos hk] at h
      split at h
      · next sector n' hsector =>
        obtain ⟨rfl, rfl⟩ := Prod.mk.inj (Except.ok.inj h)
        exact .inl ⟨hk, sector, hsector, rfl⟩
      · exact absurd h nofun
    · rcases readValue_cons hk t more with ⟨raw, unit, currency, hstands, heq⟩ | heq <;> rw [heq] at h
      · obtain ⟨w, hw, h⟩ := Except.bind_ok_iff.1 h
        obtain ⟨rfl, rfl⟩ := Prod.mk.inj (Except.ok.inj h)
        exact .inr ⟨hk, rfl, t, more, raw, unit, currency, rfl, hstands, ofCoercion_ok hw⟩
      · exact absurd h nofun

/-- Reading a value breaks down only at what its first token stands for. -/
theorem readValue_error {e : ClauseError} {b : CoercionError} (h : readValue f ts = .error e)
    (hb : e.breakdown? = some b) : ∃ t more raw unit currency, ts = t :: more ∧ Stands f t raw unit currency ∧
      Catalog.coerceOn f raw unit currency = .error b ∧ b.isBreakdown = true := by
  have hplain : e.breakdown? ≠ none := fun hnone => absurd (hnone.symm.trans hb) nofun
  cases ts with
  | nil => exact absurd (Except.error.inj h ▸ rfl) hplain
  | cons t more =>
    by_cases hk : f.kind = .sector
    · unfold readValue at h
      dsimp only at h
      rw [if_pos hk] at h
      split at h
      · exact absurd h nofun
      · exact absurd (Except.error.inj h ▸ rfl) hplain
    · rcases readValue_cons hk t more with ⟨raw, unit, currency, hstands, heq⟩ | heq <;> rw [heq] at h
      · rcases Except.bind_error_iff.1 h with h | ⟨w, -, h⟩
        · obtain ⟨e', he', rfl⟩ := ofCoercion_error h
          rw [ClauseError.breakdown?] at hb
          split at hb
          · next hbreaks =>
            obtain rfl := Option.some.inj hb
            exact ⟨t, more, raw, unit, currency, rfl, hstands, he', hbreaks⟩
          · exact absurd hb nofun
        · exact absurd h nofun
      · exact absurd (Except.error.inj h ▸ rfl) hplain

/-- A value of a field as reading gives it: of the kind of the field, and a symbol in capitals. -/
def Suited (f : Field) (v : Value) : Prop :=
  f.kind.Takes v ∧ (f.kind = .text → f.key = "symbol" → ∃ s, v = .text (Text.upper s))

/-- A value that is read is the name of a sector on a sector field, and on any other field a value of
the field. -/
theorem readValue_suited {v : Value} {n : Nat} (h : readValue f ts = .ok (v, n)) :
    if f.kind = .sector then ∃ s ∈ Sector.listed, v = .text s else Suited f v := by
  rcases readValue_ok h with ⟨hk, sector, hsector, rfl⟩ | ⟨hk, -, t, more, raw, unit, currency, -, hstands, hv⟩
  · rw [if_pos hk]
    exact ⟨sector, mem_listed_of_sectorAt? hsector, rfl⟩
  · rw [if_neg hk]
    refine ⟨?_, fun hk hkey => Catalog.upper_coerceOn hk hkey hv⟩
    cases hstands with
    | number => exact Catalog.takes_coerceOn hv
    | name htext | quoted htext => exact Catalog.takes_coerceOn_text htext hv

/-- A number of the query is immense. -/
def HasImmense (ts : List Token) : Prop :=
  ∃ t ∈ ts, ∃ d unit currency, t.content = .number d unit currency ∧ Catalog.Immense d unit

theorem HasImmense.of_subset {ts tokens : List Token} (h : HasImmense ts) (hs : ts ⊆ tokens) :
    HasImmense tokens := by
  obtain ⟨t, ht, himmense⟩ := h
  exact ⟨t, hs ht, himmense⟩

theorem HasImmense.of_suffix {ts tokens : List Token} (h : HasImmense ts) (hs : ts <:+ tokens) :
    HasImmense tokens := h.of_subset hs.subset

theorem HasImmense.of_head {t : Token} {ts : List Token} (h : HasImmense [t]) (ht : t ∈ ts) : HasImmense ts :=
  h.of_subset fun _ hu => List.mem_singleton.1 hu ▸ ht

/-- A value stops the reading by its first token. -/
theorem readValue_breakdown {e : ClauseError} {b : CoercionError} (h : readValue f ts = .error e)
    (hb : e.breakdown? = some b) : ∃ t more, ts = t :: more ∧ HasImmense [t] := by
  obtain ⟨t, more, raw, unit, currency, rfl, hstands, he, hbreaks⟩ := readValue_error h hb
  refine ⟨t, more, rfl, t, List.mem_cons_self, ?_⟩
  cases hstands with
  | number ht => exact ⟨_, _, _, ht, Catalog.immense_of_isBreakdown he hbreaks⟩
  | name htext | quoted htext => exact absurd hbreaks (by simp [Catalog.isBreakdown_coerceOn_text htext he])

/-! ## Filters -/

/-- A field that takes a number holds figures. -/
theorem isNumeric_of_takes {k : Kind} {n : Number} (h : k.Takes (.number n)) : k.isNumeric = true := by
  cases k <;> first | rfl | exact absurd h id

theorem range_wellFormed (hc : c.Regular) (hf : c.field? f.key = some f) {a b : Number}
    (ha : f.kind.Takes (.number a)) (hb : f.kind.Takes (.number b)) :
    (range f a b).WellFormed c := by
  have hop : ∀ op, op ∈ f.operators := by
    rw [hc.operators f (Catalog.mem_fields_of_field? hf)]
    exact Kind.mem_operators_of_isNumeric (isNumeric_of_takes ha)
  have hwell : ∀ n, f.kind.Takes (.number n) → ∀ op, op ≠ .between →
      Comparison.WellFormed c ⟨f.key, op, .number n⟩ :=
    fun n hn op hne => Comparison.Fits.wellFormed_number hc ⟨f, hf, hne, hop op, hn⟩
  unfold range
  split
  next low high heq =>
  have hends : f.kind.Takes (.number low) ∧ f.kind.Takes (.number high) := by
    split at heq
    · obtain ⟨rfl, rfl⟩ := Prod.mk.inj heq; exact ⟨hb, ha⟩
    · obtain ⟨rfl, rfl⟩ := Prod.mk.inj heq; exact ⟨ha, hb⟩
  exact Predicate.WellFormed.conjoin (hwell low hends.1 .ge (by simp)) (hwell high hends.2 .le (by simp))

theorem readFilter_wellFormed (hc : c.Regular) (hf : c.field? f.key = some f) {op : Operator} {p : Predicate}
    {n : Nat} (h : readFilter f op ts = .ok (p, n)) : p.WellFormed c := by
  have hmem := Catalog.mem_fields_of_field? hf
  unfold readFilter at h
  split at h
  · obtain ⟨⟨first, k⟩, hfirst, h⟩ := Except.bind_ok_iff.1 h
    obtain ⟨⟨last, m⟩, hlast, h⟩ := Except.bind_ok_iff.1 h
    dsimp only at h
    split at h
    · next a b _ =>
      rw [← (Prod.mk.inj (Except.ok.inj h)).1]
      have ha := readValue_suited hfirst
      have hb := readValue_suited hlast
      by_cases hk : f.kind = .sector
      · rw [if_pos hk] at ha
        exact absurd ha (by simp)
      · rw [if_neg hk] at ha hb
        exact range_wellFormed hc hf ha.1 hb.1
    · exact absurd h (by simp [throw, throwThe, MonadExceptOf.throw])
  · next hop =>
    obtain ⟨⟨v, m⟩, hv, h⟩ := Except.bind_ok_iff.1 h
    dsimp only at h
    split at h
    · next hcontains =>
      rw [← (Prod.mk.inj (Except.ok.inj h)).1]
      have hv := readValue_suited hv
      unfold comparison
      split
      · next hkey =>
        have hk : f.kind = .sector := (hc.sector f hmem).2 (by simpa using hkey)
        rw [if_pos hk] at hv
        obtain ⟨s, hs, rfl⟩ := hv
        have hlisted := Sector.listed_ofList.2 (Sector.listed_singleton hs)
        split <;> exact hlisted
      · next hkey =>
        have hk : f.kind ≠ .sector := fun hk => hkey (by rw [(hc.sector f hmem).1 hk]; rfl)
        rw [if_neg hk] at hv
        refine ⟨⟨f, hf, hop, by simpa using hcontains, hv.1⟩, fun hsymbol => ?_⟩
        have hsymbol : f.key = "symbol" := hsymbol
        obtain ⟨g, hg, hk⟩ := hc.symbol
        rw [hsymbol] at hf
        exact hv.2 (Option.some.inj (hf.symm.trans hg) ▸ hk) hsymbol
    · exact absurd h (by simp [throw, throwThe, MonadExceptOf.throw])

/-- A comparison stops the reading by its first value, or by the one behind it. -/
theorem readFilter_breakdown {op : Operator} {e : ClauseError} {b : CoercionError}
    (h : readFilter f op ts = .error e) (hb : e.breakdown? = some b) :
    ∃ m, (m = 0 ∨ ∃ v n, readValue f ts = .ok (v, n) ∧ m = n + joiner (ts.drop n)) ∧
      ∃ t more, ts.drop m = t :: more ∧ HasImmense [t] := by
  have hplain : e.breakdown? = none → False := fun h => by rw [h] at hb; exact absurd hb (by simp)
  unfold readFilter at h
  split at h
  · rcases Except.bind_error_iff.1 h with h | ⟨⟨first, k⟩, hfirst, h⟩
    · exact ⟨0, .inl rfl, readValue_breakdown h hb⟩
    · rcases Except.bind_error_iff.1 h with h | ⟨⟨last, m⟩, -, h⟩
      · exact ⟨_, .inr ⟨first, k, hfirst, rfl⟩, readValue_breakdown h hb⟩
      · dsimp only at h
        split at h
        · exact absurd h (by simp [pure, Except.pure])
        · exact absurd (Except.error.inj h ▸ rfl) hplain
  · rcases Except.bind_error_iff.1 h with h | ⟨⟨v, k⟩, -, h⟩
    · exact ⟨0, .inl rfl, readValue_breakdown h hb⟩
    · dsimp only at h
      split at h
      · exact absurd h (by simp [pure, Except.pure])
      · exact absurd (Except.error.inj h ▸ rfl) hplain

/-! ## Qualitative words -/

theorem wordable_of_suits (hf : c.field? f.key = some f) {n : Number} (h : f.kind.Suits n) (op : Operator) :
    Comparison.Wordable c ⟨f.key, op, .number n⟩ := by
  intro style
  have hok := h.2 style (by cases style <;> decide)
  cases hw : (Value.number n).worded f.kind style with
  | error e => rw [hw] at hok; exact absurd hok (by simp [Except.isOk, Except.toBool])
  | ok s =>
    exact ⟨_, by simp only [Comparison.worded, Catalog.named, hf, hw, Except.map]; rfl⟩

theorem suits_wellFormed (hc : c.Regular) (hf : c.field? f.key = some f) {op : Operator} (hop : op ≠ .between)
    {n : Number} (h : f.kind.Suits n) :
    Comparison.WellFormed c ⟨f.key, op, .number n⟩ ∧ Comparison.Wordable c ⟨f.key, op, .number n⟩ := by
  refine ⟨Comparison.Fits.wellFormed_number hc ⟨f, hf, hop, ?_, h.1⟩, wordable_of_suits hf h op⟩
  rw [hc.operators f (Catalog.mem_fields_of_field? hf)]
  exact Kind.mem_operators_of_isNumeric (isNumeric_of_takes h.1) op

/-- What a heuristic promises of its filter: it is well-formed and can be put into words. -/
structure Settled (c : Catalog) (p : Predicate) : Prop where
  wellFormed : p.WellFormed c
  wordable : p.Every (·.Wordable c)

theorem phrase?_settled (hc : c.Regular) {r : Clause × Nat} (h : phrase? c ts = some r) :
    ∃ phrase p, r.1 = .heuristic phrase p ∧ Settled c p := by
  obtain ⟨names, terms, n, p, hmem, hp, rfl⟩ := phrase?_some h
  refine ⟨_, p, rfl, ?_⟩
  refine termsPredicate?_closed (P := Settled c)
    (fun _ _ hp hq => ⟨hp.wellFormed.conjoin hq.wellFormed, hp.wordable.conjoin hq.wordable⟩)
    (phrases_plain _ hmem).1 (fun term hterm value hvalue => ?_) hp
  obtain ⟨f, hf, -, hop, hsuits⟩ := hc.phrases _ hmem term hterm
  have hf : c.field? term.field = some f := hf
  have hkey := Catalog.key_of_field? hf
  have hvalue : f.kind.Suits value := by
    cases hv : term.value with
    | some n =>
      rw [hv] at hvalue
      exact Option.some.inj hvalue ▸ hsuits n hv
    | none =>
      rw [hv] at hvalue
      simp only [hf, Option.bind_some] at hvalue
      exact (hc.thresholds f (Catalog.mem_fields_of_field? hf) value hvalue).2
  rw [← hkey]
  obtain ⟨hwell, hword⟩ := suits_wellFormed hc (Catalog.field?_key hf) hop hvalue
  exact ⟨hwell, Predicate.every_compare.2 hword⟩

theorem quality?_settled (hc : c.Regular) {q : Vocabulary.Quality} {r : Clause × Nat}
    (h : quality? c ts q = some r) :
    (∃ phrase p, r.1 = .heuristic phrase p ∧ Settled c p) ∨ ∃ s, r.1 = .skipped s := by
  obtain ⟨f, n, hf, ⟨op, threshold, hop, hthreshold, rfl⟩ | ⟨reason, rfl⟩⟩ := quality?_some h
  · have hf := fieldAt?_some hf
    obtain ⟨hwell, hword⟩ := suits_wellFormed hc hf (operator?_ne_between hop)
      (hc.thresholds f (Catalog.mem_fields_of_field? hf) threshold hthreshold).2
    exact .inl ⟨_, _, rfl, hwell, Predicate.every_compare.2 hword⟩
  · exact .inr ⟨_, rfl⟩

/-! ## Clauses -/

/-- What a clause promises. -/
def Sound (c : Catalog) : Clause → Prop
  | .mark i => ∀ p, i ≠ .filter p
  | .filter p => p.WellFormed c
  | .heuristic _ p => Settled c p
  | .sectors names _ | .excludedSectors names => Sector.Listed names
  | .order o => (c.field? o.field).isSome = true
  | .limit count _ => 0 < count
  | .reversed operand _ symbol => operand.Sound c ∧ ∀ s ∈ symbol, ∃ s', s = Text.upper s'
  | .filler | .skipped _ | .breakdown _ => True

/-- **Clauses keep their promises**, whatever the tokens are. -/
theorem read_sound (hc : c.Regular) (t : Token) (ts : List Token) :
    ∀ cl ∈ (Clause.read c t ts).clauses, cl.Sound c := by
  refine Shared.read ?_ (List.suffix_refl (t :: ts))
  refine ⟨⟨fun _ h => h, trivial, fun _ => trivial, fun _ _ h => h, fun _ h => h,
    fun _ _ h => h, fun _ h => h, ?_, ?_⟩, ?_, ?_, fun _ _ _ h hsymbol => ⟨h, hsymbol⟩⟩
  · intro s o d h
    obtain ⟨l, r, hl, -⟩ := List.lookup_eq_some_iff.1 h
    exact hc.orders (s, o) (by rw [hl]; simp)
  · intro f n op ts hf _ _
    rcases readComparison_cases f n op ts with ⟨p, used, hp, h⟩ | ⟨_, _, _, -, -, h⟩ | ⟨_, _, -, -, h⟩ <;> rw [h]
    · exact readFilter_wellFormed hc hf hp
    · trivial
    · trivial
  · intro ts r h
    obtain ⟨phrase, p, heq, hp⟩ := phrase?_settled hc h
    rw [heq]
    exact hp
  · intro ts q r h
    rcases quality?_settled hc h with ⟨phrase, p, heq, hp⟩ | ⟨s, heq⟩ <;> rw [heq]
    · exact hp
    · trivial

/-- No clause, nor the operand of an exclusion, stops the reading. -/
def Workable : Clause → Prop
  | .breakdown _ => False
  | .reversed operand _ _ => operand.Workable
  | _ => True

/-- Where no comparison stops the reading, no clause does. -/
theorem shared_workable {tokens : List Token}
    (h : ∀ (f : Field) (n : Nat) (op : Operator) (ts : List Token), ts <:+ tokens →
      (∃ u more, ts.drop n = u :: more ∧ u.content = .compare op) → ∀ e, readFilter f op (ts.drop (n + 1)) = .error e →
      e.breakdown? = none) : Shared c tokens Workable := by
  refine ⟨⟨fun _ _ => trivial, trivial, fun _ => trivial, fun _ _ _ => trivial, fun _ _ => trivial,
    fun _ _ _ => trivial, fun _ _ => trivial, fun _ _ _ _ => trivial, ?_⟩, ?_, ?_, fun _ _ _ h _ => h⟩
  · intro f n op ts _ hs hop
    rcases readComparison_cases f n op ts with ⟨p, used, hp, heq⟩ | ⟨e, b, _, he, hb, -⟩ | ⟨_, _, -, -, heq⟩
    · rw [heq]; trivial
    · exact absurd (hb.symm.trans (h f n op ts hs hop e he)) (by simp)
    · rw [heq]; trivial
  · intro ts r h
    obtain ⟨names, terms, n, p, -, -, rfl⟩ := phrase?_some h
    trivial
  · intro ts q r h
    obtain ⟨f, n, -, ⟨op, threshold, -, -, rfl⟩ | ⟨reason, rfl⟩⟩ := quality?_some h
    · trivial
    · trivial

/-- **Reading stops** only where a number is immense. -/
theorem read_workable {tokens : List Token} (hno : ¬ HasImmense tokens) {t : Token} {ts : List Token}
    (hts : t :: ts <:+ tokens) : ∀ cl ∈ (Clause.read c t ts).clauses, cl.Workable := by
  refine Shared.read (shared_workable fun f n op ts hs _ e he => ?_) hts
  refine Option.eq_none_iff_forall_ne_some.2 fun b hb => hno ?_
  obtain ⟨m, -, u, more, hmore, himmense⟩ := readFilter_breakdown he hb
  rw [List.drop_drop] at hmore
  exact himmense.of_head (((List.drop_suffix _ ts).trans hs).subset (hmore ▸ List.mem_cons_self))

end Clause
end EquityScreen
