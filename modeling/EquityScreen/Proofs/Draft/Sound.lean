/-
What a query promises about its plan: its filter is well-formed, the order is by a field of the
catalog, the limit is positive, and something is asked for. Each clause keeps the promise of the draft
(`add_sound`), so the draft of all clauses has it (`parse_sound`), and reading a text breaks down only
where it holds an immense number (`hasImmense_of_breakdown`).
-/
import EquityScreen.Proofs.Clause.Sound
import EquityScreen.Proofs.Draft.Exclusion
import EquityScreen.Proofs.Grouping.Closed
import EquityScreen.Query

namespace EquityScreen

open Clause (Settled)

/-- What is relied on in a plan when it is run. -/
structure Plan.Sound (c : Catalog) (p : Plan) : Prop where
  predicate : p.predicate.Every (·.Fits c)
  sort : ∀ o, p.sort = some o → (c.field? o.field).isSome = true
  limit : ∀ n, p.limit = some n → 0 ≤ n

/-- What reading promises of the plan of a query. -/
structure Plan.WellFormed (c : Catalog) (p : Plan) : Prop where
  predicate : p.predicate = .all ∨ p.predicate.WellFormed c
  sort : ∀ o, p.sort = some o → (c.field? o.field).isSome = true
  limit : ∀ n, p.limit = some n → 0 < n
  fromBottom : p.limit = none → p.fromBottom = false
  asks : p.isEmpty = false

theorem Plan.WellFormed.sound {c : Catalog} {p : Plan} (h : p.WellFormed c) : p.Sound c := by
  refine ⟨?_, h.sort, fun n hn => Int.le_of_lt (h.limit n hn)⟩
  rcases h.predicate with hp | hp
  · rw [hp]
    exact Predicate.every_all
  · exact hp.every

theorem Comparison.Wordable.withOperator {c : Catalog} {cmp : Comparison} (h : cmp.Wordable c)
    (op : Operator) : Comparison.Wordable c { cmp with op } := by
  intro style
  obtain ⟨s, hs⟩ := h style
  unfold worded at hs ⊢
  dsimp only
  split at hs
  · exact absurd hs (by simp)
  · next f hf =>
    obtain ⟨w, hw, -⟩ := Except.map_ok_iff.1 hs
    rw [hw]
    exact ⟨f.label ++ " " ++ op.sign ++ " " ++ w, rfl⟩

namespace Draft

variable {c : Catalog} {d : Draft}

/-- Something was asked for. -/
def Asks (d : Draft) : Prop :=
  (∃ p, .filter p ∈ d.items) ∨ d.included ≠ [] ∨ d.excluded ≠ [] ∨ d.sort.isSome = true ∨ d.limit.isSome = true

/-- What a draft promises. -/
structure Sound (c : Catalog) (d : Draft) : Prop where
  items : ∀ p, .filter p ∈ d.items → p.WellFormed c
  included : ∀ name ∈ d.included, name ∈ Sector.listed
  excluded : ∀ name ∈ d.excluded, name ∈ Sector.listed
  sort : ∀ o, d.sort = some o → (c.field? o.field).isSome = true
  limit : ∀ n ∈ d.limit, 0 < n
  fromBottom : d.limit = none → d.fromBottom = false
  heuristics : ∀ h ∈ d.heuristics, Settled c h.predicate
  counted : d.clauseCount ≠ 0 → d.Asks

theorem sound_empty : Sound c {} :=
  ⟨nofun, nofun, nofun, nofun, nofun, fun _ => rfl, nofun, fun h => absurd rfl h⟩

/-! ## Adding a clause -/

theorem Sound.addFilter (h : d.Sound c) {p : Predicate} (hp : p.WellFormed c) : (d.addFilter p).Sound c := by
  refine { h with items := fun q hq => ?_, counted := fun _ => .inl ⟨p, List.mem_append_right _ (List.mem_singleton_self _)⟩ }
  rcases List.mem_append.1 hq with hq | hq
  · exact h.items q hq
  · rw [Item.filter.inj (List.mem_singleton.1 hq)]
    exact hp

theorem Sound.addHeuristic (h : d.Sound c) {phrase : String} {p : Predicate} (hp : Settled c p) :
    (d.addHeuristic phrase p).Sound c := by
  refine { h.addFilter hp.wellFormed with heuristics := fun x hx => ?_ }
  rcases List.mem_append.1 hx with hx | hx
  · exact h.heuristics x hx
  · rw [List.mem_singleton.1 hx]
    exact hp

theorem mem_listed_union {names more : List String} (hnames : ∀ name ∈ names, name ∈ Sector.listed)
    (hmore : Sector.Listed more) : ∀ name ∈ union names more, name ∈ Sector.listed :=
  fun name h => (mem_union.1 h).elim (hnames name) (hmore.2 name)

theorem union_ne_nil {names more : List String} (hmore : Sector.Listed more) : union names more ≠ [] := by
  obtain ⟨name, hname⟩ := List.exists_mem_of_ne_nil _ hmore.1
  exact List.ne_nil_of_mem (mem_union.2 (.inr hname))

/-- Sectors that the whole query is about, counted or not. -/
theorem Sound.include (h : d.Sound c) {names : List String} (hnames : Sector.Listed names) (count : Nat) :
    Sound c { d with included := union d.included names, clauseCount := count } :=
  { h with included := mem_listed_union h.included hnames, counted := fun _ => .inr (.inl (union_ne_nil hnames)) }

theorem Sound.withoutOpposite (hc : c.Regular) (h : d.Sound c) (phrase reason : String)
    {symbol : Option String} (hsymbol : ∀ s ∈ symbol, ∃ s', s = Text.upper s') :
    (d.withoutOpposite phrase reason symbol).Sound c := by
  cases symbol with
  | none => exact { h with }
  | some s =>
    obtain ⟨s', rfl⟩ := hsymbol s rfl
    obtain ⟨f, hf, hk⟩ := hc.symbol
    refine h.addFilter ⟨⟨f, hf, by simp, ?_, by rw [hk]; trivial⟩, fun _ => ⟨s', rfl⟩⟩
    rw [hc.operators f (Catalog.mem_fields_of_field? hf), hk]
    show Operator.ne ∈ Kind.text.operators
    decide

theorem Sound.addReversed (hc : c.Regular) (h : d.Sound c) {phrase : String} {symbol : Option String}
    (hsymbol : ∀ s ∈ symbol, ∃ s', s = Text.upper s') {operand : Clause} (ho : operand.Sound c) :
    (d.addReversed phrase symbol operand).Sound c := by
  have hw := fun (d' : Draft) (h' : d'.Sound c) reason => h'.withoutOpposite hc phrase reason hsymbol
  refine addReversed_cases operand ?_ ?_ h ?_ ?_ (fun _ _ => { h with }) (hw d h)
  · rintro p q rfl hq
    exact h.addFilter (Predicate.WellFormed.negate hc ho hq)
  · rintro text p q rfl hq
    have ho : Settled c p := ho
    exact h.addHeuristic
      ⟨ho.wellFormed.negate hc hq, ho.wordable.negate (fun _ op hword _ => hword.withOperator op) hq⟩
  · rintro names beforeOr rfl
    exact h.addFilter (Sector.listed_ofList.2 ho)
  · rintro names beforeOr reason rfl
    exact hw { d with included := union d.included names } (h.include ho d.clauseCount) reason

/-- **A clause more** keeps the promise of a draft. -/
theorem add_sound (hc : c.Regular) (h : d.Sound c) {cl : Clause} (hcl : cl.Sound c) : (d.add cl).Sound c := by
  cases cl with
  | mark i =>
    refine { h with items := fun q hq => ?_, counted := fun hcount => ?_ }
    · rcases List.mem_append.1 hq with hq | hq
      · exact h.items q hq
      · exact absurd (List.mem_singleton.1 hq).symm (hcl q)
    · exact (h.counted hcount).imp_left fun hfilter => hfilter.imp fun p hp => List.mem_append_left _ hp
  | filter p => exact h.addFilter hcl
  | heuristic phrase p => exact h.addHeuristic hcl
  | sectors names beforeOr =>
    simp only [add, addSectors]
    split
    · exact h.addFilter (Sector.listed_ofList.2 hcl)
    · exact h.include hcl (d.clauseCount + 1)
  | excludedSectors names =>
    exact { h with excluded := mem_listed_union h.excluded hcl,
                   counted := fun _ => .inr (.inr (.inl (union_ne_nil hcl))) }
  | order o =>
    exact { h with sort := fun o' ho' => Option.some.inj ho' ▸ hcl,
                   counted := fun _ => .inr (.inr (.inr (.inl rfl))) }
  | limit count fromBottom =>
    exact { h with limit := fun n hn => Option.some.inj hn ▸ hcl, fromBottom := fun hn => absurd hn (Option.some_ne_none _),
                   counted := fun _ => .inr (.inr (.inr (.inr rfl))) }
  | reversed operand phrase symbol => exact h.addReversed hc hcl.2 hcl.1
  | filler | skipped _ | breakdown _ => exact { h with }

/-- A clause more that does not stop the reading. -/
theorem add_workable (h : d.breakdown = none) {cl : Clause} (hcl : cl.Workable) :
    (d.add cl).breakdown = none := by
  have hw : ∀ (d : Draft) phrase reason symbol,
      (d.withoutOpposite phrase reason symbol).breakdown = d.breakdown := by
    intro d phrase reason symbol
    cases symbol <;> rfl
  cases cl with
  | sectors names beforeOr =>
    simp only [add, addSectors]
    split <;> exact h
  | reversed operand phrase symbol =>
    refine addReversed_cases (P := fun d' => d'.breakdown = none) operand (fun _ _ _ _ => h) (fun _ _ _ _ _ => h) h
      (fun _ _ _ => h) (fun _ _ _ _ => (hw _ _ _ _).trans h) ?_ fun _ => (hw _ _ _ _).trans h
    rintro e rfl
    exact absurd hcl id
  | breakdown e => exact absurd hcl id
  | mark _ | filter _ | heuristic _ _ | excludedSectors _ | order _ | limit _ _ | filler | skipped _ => exact h

/-! ## All clauses -/

/-- What adding a clause keeps is kept by adding one after the other. -/
theorem foldl_invariant {I : Draft → Prop} {P : Clause → Prop} (hadd : ∀ d cl, I d → P cl → I (d.add cl))
    {cls : List Clause} (hcls : ∀ cl ∈ cls, P cl) (h : I d) : I (cls.foldl add d) := by
  induction cls generalizing d with
  | nil => exact h
  | cons cl cls ih =>
    rw [List.forall_mem_cons] at hcls
    exact ih hcls.2 (hadd d cl h hcls.1)

/-- What adding a clause keeps is kept by adding all clauses of the tokens. -/
theorem gather_invariant {I : Draft → Prop} {P : Clause → Prop} {tokens : List Token}
    (hadd : ∀ d cl, I d → P cl → I (d.add cl))
    (hread : ∀ t ts, t :: ts <:+ tokens → ∀ cl ∈ (Clause.read c t ts).clauses, P cl) (fuel : Nat) :
    ∀ ts d, ts <:+ tokens → I d → I (gather c fuel ts d) := by
  induction fuel with
  | zero => exact fun _ _ _ h => h
  | succ fuel ih =>
    intro ts d hts h
    cases ts with
    | nil => exact h
    | cons t ts => exact ih _ _ ((List.drop_suffix _ _).trans hts) (foldl_invariant hadd (hread t ts hts) h)

theorem ofTokens_sound (hc : c.Regular) (ts : List Token) : (ofTokens c ts).Sound c :=
  gather_invariant (I := Sound c) (fun _ _ h hcl => add_sound hc h hcl)
    (fun t ts _ => Clause.read_sound hc t ts) _ ts {} (List.suffix_refl ts) sound_empty

theorem ofTokens_workable {ts : List Token} (h : ¬ Clause.HasImmense ts) :
    (ofTokens c ts).breakdown = none :=
  gather_invariant (I := fun d => d.breakdown = none) (fun _ _ h hcl => add_workable h hcl)
    (fun _ _ hts => Clause.read_workable h hts) _ ts {} (List.suffix_refl ts) rfl

/-! ## The plan -/

theorem closed_wellFormed : Predicate.Closed (Predicate.WellFormed c) :=
  ⟨fun _ _ => Predicate.WellFormed.conjoin, fun _ _ => Predicate.WellFormed.disjoin⟩

/-- Sectors, if there are any, make a filter that asks for something. -/
theorem conjoin_sectors {tree sectors : Predicate} {names : List String} {nothing : Prop}
    (htree : tree.WellFormed c ∨ tree = .all ∧ nothing) (hsectors : names ≠ [] → sectors.WellFormed c) :
    let p := if names.isEmpty then tree else tree.conjoin sectors
    p.WellFormed c ∨ p = .all ∧ nothing ∧ names = [] := by
  intro p
  by_cases hnames : names = []
  · have hp : p = tree := by simp [p, hnames]
    rw [hp]
    exact htree.imp_right fun ⟨hall, hnothing⟩ => ⟨hall, hnothing, hnames⟩
  · have hp : p = tree.conjoin sectors := by simp [p, hnames]
    rw [hp]
    rcases htree with htree | ⟨rfl, -⟩
    · exact .inl (htree.conjoin (hsectors hnames))
    · exact .inl (by rw [Predicate.all_conjoin]; exact hsectors hnames)

/-- The filter of a draft is well-formed unless nothing in the draft is a filter or a sector. -/
theorem Sound.predicate (h : d.Sound c) :
    d.predicate.WellFormed c ∨ d.predicate = .all ∧
      ((∀ p, .filter p ∉ d.items) ∧ d.included = []) ∧ d.excluded = [] := by
  refine conjoin_sectors (conjoin_sectors ?_ fun hne => ?_) fun hne => ?_
  · by_cases hfilter : ∃ p, .filter p ∈ d.items
    · exact .inl (Predicate.ofItems_of_filter closed_wellFormed h.items hfilter)
    · have hno : ∀ p, .filter p ∉ d.items := fun p hp => hfilter ⟨p, hp⟩
      refine .inr ⟨?_, hno⟩
      refine Predicate.ofItems_closed (S := (· = .all)) ⟨?_, ?_⟩ rfl fun p hp => absurd hp (hno p)
      · rintro _ _ rfl rfl
        rfl
      · rintro _ _ rfl rfl
        rfl
  · exact Sector.listed_ofList.2 ⟨hne, h.included⟩
  · exact Sector.listed_ofList.2 ⟨hne, h.excluded⟩

/-- **The plan of a draft** in which a clause counts. -/
theorem Sound.plan_wellFormed (h : d.Sound c) (hcount : d.clauseCount ≠ 0) : d.plan.WellFormed c := by
  refine ⟨h.predicate.symm.imp_left (·.1), h.sort, fun n hn => ?_, fun hn => h.fromBottom (Option.map_eq_none_iff.1 hn), ?_⟩
  · obtain ⟨k, hk, rfl⟩ := Option.map_eq_some_iff.1 hn
    exact Int.natCast_pos.2 (h.limit k hk)
  · rcases h.predicate with hp | ⟨-, ⟨hitems, hincluded⟩, hexcluded⟩
    · simp [Plan.isEmpty, plan, hp.ne_all]
    · rcases h.counted hcount with ⟨p, hp⟩ | hne | hne | hsort | hlimit
      · exact absurd hp (hitems p)
      · exact absurd hincluded hne
      · exact absurd hexcluded hne
      · simp [Plan.isEmpty, plan, Option.isSome_iff_ne_none.1 hsort]
      · exact Bool.and_eq_false_imp.2 fun _ => by simpa [plan] using hlimit

end Draft

/-! ## Texts -/

namespace Query

variable {c : Catalog} {text : String} {q : Query}

theorem parse_cases {r : Except QueryError Query} (h : parse c text = r) :
    r = .ok { intent := .help, text } ∨ r = .ok { intent := .clear, text } ∨
      (∃ e, tokenize text = .error e ∧ r = .error (.lex e)) ∨
      ∃ ts, tokenize text = .ok ts ∧
        ((∃ q, ofTokens c ts = .ok q ∧ r = .ok { q with text }) ∨
          ∃ e, ofTokens c ts = .error e ∧ r = .error e) := by
  subst h
  unfold parse
  dsimp only
  split
  · exact .inl rfl
  · split
    · exact .inr (.inl rfl)
    · split
      · next e he => exact .inr (.inr (.inl ⟨e, he, rfl⟩))
      · next ts hts =>
        refine .inr (.inr (.inr ⟨ts, hts, ?_⟩))
        split
        · next q hq => exact .inl ⟨q, hq, rfl⟩
        · next e he => exact .inr ⟨e, he, rfl⟩

theorem request?_cases {ts : List Token} {i : Intent} (h : request? ts = some i) : i = .help ∨ i = .clear := by
  unfold request? at h
  split at h
  · split at h
    · exact .inl (Option.some.inj h).symm
    · split at h
      · exact .inr (Option.some.inj h).symm
      · exact absurd h (by simp)
  · exact absurd h (by simp)

/-- What reading tokens gives: a request, or what the draft of their clauses amounts to. -/
theorem ofTokens_cases {ts : List Token} {r : Except QueryError Query} (h : ofTokens c ts = r) :
    (∃ i, request? ts = some i ∧ r = .ok { intent := i }) ∨
      (request? ts = none ∧ ∃ d, Draft.ofTokens c (announced ts).2 = d ∧
        ((∃ e, d.breakdown = some e ∧ r = .error (.lex (.breakdown e))) ∨
          (d.breakdown = none ∧ d.clauseCount = 0 ∧ r = .error (.empty (Token.joinedText ts))) ∨
          (d.breakdown = none ∧ d.clauseCount ≠ 0 ∧
            r = .ok { intent := (announced ts).1, plan := d.plan, skipped := d.skipped,
                      heuristics := d.heuristics, clauseCount := d.clauseCount }))) := by
  subst h
  unfold ofTokens
  split
  · next i hi => exact .inl ⟨i, hi, rfl⟩
  · next hnone =>
    refine .inr ⟨hnone, _, rfl, ?_⟩
    dsimp only
    split
    · next e he => exact .inl ⟨e, he, rfl⟩
    · next hb =>
      split
      · next hcount => exact .inr (.inl ⟨hb, hcount, rfl⟩)
      · next hcount => exact .inr (.inr ⟨hb, hcount, rfl⟩)

/-- A query that asks for a screen is read clause by clause. -/
theorem parse_plan (h : parse c text = .ok q) (hi : q.intent = .newScreen ∨ ∃ n, q.intent = .refinement n) :
    ∃ ts, tokenize text = .ok ts ∧ (Draft.ofTokens c (announced ts).2).clauseCount ≠ 0 ∧
      q.plan = (Draft.ofTokens c (announced ts).2).plan ∧
      q.heuristics = (Draft.ofTokens c (announced ts).2).heuristics := by
  have hquiet : q.intent ≠ .help ∧ q.intent ≠ .clear := by
    rcases hi with hi | ⟨n, hi⟩ <;> simp [hi]
  rcases parse_cases h with h | h | ⟨e, -, h⟩ | ⟨ts, hts, ⟨q', hq', h⟩ | ⟨e, -, h⟩⟩
  · exact absurd (Except.ok.inj h ▸ rfl) hquiet.1
  · exact absurd (Except.ok.inj h ▸ rfl) hquiet.2
  · exact absurd h (by simp)
  · rw [Except.ok.inj h] at hquiet ⊢
    refine ⟨ts, hts, ?_⟩
    rcases ofTokens_cases hq' with ⟨i, hrequest, h⟩ | ⟨-, d, rfl, ⟨e, -, h⟩ | ⟨-, -, h⟩ | ⟨-, hcount, h⟩⟩
    · rw [Except.ok.inj h] at hquiet
      rcases request?_cases hrequest with rfl | rfl
      · exact absurd rfl hquiet.1
      · exact absurd rfl hquiet.2
    · exact absurd h (by simp)
    · exact absurd h (by simp)
    · rw [Except.ok.inj h]
      exact ⟨hcount, rfl, rfl⟩
  · exact absurd h (by simp)

theorem ofTokens_sound (hc : c.Regular) {ts : List Token} (h : ofTokens c ts = .ok q) :
    q.plan.Sound c ∧ ∀ x ∈ q.heuristics, Settled c x.predicate := by
  have hempty : ({} : Plan).Sound c := ⟨Predicate.every_all, nofun, nofun⟩
  have hd := Draft.ofTokens_sound hc (announced ts).2
  rcases ofTokens_cases h with ⟨i, -, h⟩ | ⟨-, d, rfl, ⟨e, -, h⟩ | ⟨-, -, h⟩ | ⟨-, hcount, h⟩⟩
  · rw [Except.ok.inj h]
    exact ⟨hempty, nofun⟩
  · exact absurd h (by simp)
  · exact absurd h (by simp)
  · rw [Except.ok.inj h]
    exact ⟨(hd.plan_wellFormed hcount).sound, hd.heuristics⟩

/-- **A text that is read** has a sound plan and heuristics that can be put into words. -/
theorem parse_sound (hc : c.Regular) (h : parse c text = .ok q) :
    q.plan.Sound c ∧ ∀ x ∈ q.heuristics, Settled c x.predicate := by
  have hempty : ({} : Plan).Sound c := ⟨Predicate.every_all, nofun, nofun⟩
  rcases parse_cases h with h | h | ⟨e, -, h⟩ | ⟨ts, -, ⟨q', hq', h⟩ | ⟨e, -, h⟩⟩
  · rw [Except.ok.inj h]; exact ⟨hempty, nofun⟩
  · rw [Except.ok.inj h]; exact ⟨hempty, nofun⟩
  · exact absurd h (by simp)
  · have hq := ofTokens_sound hc hq'
    rw [Except.ok.inj h]
    exact hq
  · exact absurd h (by simp)

theorem announced_suffix (ts : List Token) : (announced ts).2 <:+ ts := by
  unfold announced
  split
  · exact List.suffix_refl _
  · split
    · exact List.suffix_cons _ _
    · exact List.suffix_refl _

/-- A text that is cut into tokens is refused for what stands in it only where its tokens break reading down. -/
theorem breakdown_of_parse {ts : List Token} (ht : tokenize text = .ok ts) {e : ReadError}
    (h : parse c text = .error (.lex e)) :
    ∃ e', e = .breakdown e' ∧ (Draft.ofTokens c (announced ts).2).breakdown = some e' := by
  rcases parse_cases h with h | h | ⟨e', he', -⟩ | ⟨ts', hts', ⟨q, -, h⟩ | ⟨e', he', h⟩⟩
  · exact absurd h (by simp)
  · exact absurd h (by simp)
  · exact absurd (ht.symm.trans he') (by simp)
  · exact absurd h (by simp)
  · obtain rfl := Except.ok.inj (ht.symm.trans hts')
    rw [← Except.error.inj h] at he'
    rcases ofTokens_cases he' with ⟨i, -, h⟩ | ⟨-, d, rfl, ⟨e', he, h⟩ | ⟨-, -, h⟩ | ⟨-, -, h⟩⟩
    · exact absurd h (by simp)
    · exact ⟨e', QueryError.lex.inj (Except.error.inj h), he⟩
    · exact absurd h (by simp)
    · exact absurd h (by simp)

/-- A text that is cut into tokens is not refused for its spelling. -/
theorem parse_ne_spelling {ts : List Token} (ht : tokenize text = .ok ts) (e : LexError) :
    parse c text ≠ .error (.lex (.spelling e)) := by
  intro h
  obtain ⟨_, he, -⟩ := breakdown_of_parse ht h
  exact ReadError.noConfusion he

/-- **Reading breaks down** only at an immense number. -/
theorem hasImmense_of_breakdown {ts : List Token} (ht : tokenize text = .ok ts) {e : ReadError}
    (h : parse c text = .error (.lex e)) : Clause.HasImmense ts := by
  obtain ⟨_, -, he⟩ := breakdown_of_parse ht h
  refine Classical.byContradiction fun hno => ?_
  have hw : (Draft.ofTokens c (announced ts).2).breakdown = none :=
    Draft.ofTokens_workable fun himmense => hno (himmense.of_suffix (announced_suffix ts))
  exact absurd (hw.symm.trans he) (by simp)

end Query
end EquityScreen
