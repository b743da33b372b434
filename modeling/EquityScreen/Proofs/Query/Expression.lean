/-
How an expression of comparisons and sectors is read.

The filter that a query gets from an expression selects what the expression selects, the conjunction
binding tighter than the alternative. The one exception is a clause on a sector at the very front that
no "or" follows: it is taken to hold for the whole query, so it also restricts the alternatives that
come later (`parse_expression`).
-/
import EquityScreen.Proofs.Draft.Expression
import EquityScreen.Proofs.Draft.Sound
import EquityScreen.Proofs.Screening.Expression

namespace EquityScreen

open Clause (WritesComparison)

namespace Formula

variable {c : Catalog} {f : Formula} {ts : List Token}

theorem Written.proper {W : List Token → Predicate → Prop} (h : f.Written W ts)
    (hW : ∀ ts p, W ts p → p ≠ .all) (hf : f.Bracketed) : f.Proper := by
  induction h with
  | filter hp => exact hW _ _ hp
  | sector => trivial
  | group _ _ _ ih => exact ih hf
  | and _ _ _ ihl ihr => exact ⟨ihl hf.1, ihr hf.2.1, hf.2.2⟩
  | or _ _ _ ihl ihr => exact ⟨ihl hf.1, ihr hf.2⟩

theorem Written.every {W : List Token → Predicate → Prop} {P : Comparison → Prop} (h : f.Written W ts)
    (hW : ∀ ts p, W ts p → p.Every P) : f.tree.Every P := by
  induction h with
  | filter hp => exact hW _ _ hp
  | sector => exact fun cmp hcmp => absurd hcmp (by simp [tree, Predicate.comparisons])
  | group _ _ _ ih => exact ih
  | and _ _ _ ihl ihr => exact Predicate.every_and.2 ⟨ihl, ihr⟩
  | or _ _ _ ihl ihr => exact Predicate.every_or.2 ⟨ihl, ihr⟩

theorem Written.length_items {W : List Token → Predicate → Prop} (h : f.Written W ts)
    (hW : ∀ ts p, W ts p → ts ≠ []) : f.items.length ≤ ts.length ∧ 0 < f.clauses := by
  induction h with
  | filter hp => exact ⟨List.length_pos_iff.2 (hW _ _ hp), Nat.one_pos⟩
  | sector hs =>
    obtain ⟨_, _, _, rfl, -⟩ := hs
    exact ⟨by simp [items], Nat.one_pos⟩
  | group _ _ _ ih =>
    simp only [items, clauses, List.length_cons, List.length_append, List.length_nil]
    omega
  | and _ _ _ ihl ihr | or _ _ _ ihl ihr =>
    simp only [items, clauses, List.length_cons, List.length_append]
    omega

/-- The first token of an expression opens a group, or is the first word of a clause. -/
theorem Written.first {c : Catalog} (h : f.Written (WritesComparison c) ts) :
    ∃ t more, ts = t :: more ∧ (t.content = .openParen ∨ t.content = .keyword .inside ∨ t.isName = true) := by
  induction h with
  | filter hp =>
    obtain ⟨t, more, rfl, ht⟩ := hp.shape.1
    exact ⟨t, more, rfl, .inr (.inr ht)⟩
  | sector hs =>
    obtain ⟨first, _, _, rfl, hfirst, -⟩ := hs
    exact ⟨first, _, rfl, .inr (.inl hfirst)⟩
  | group hfirst => exact ⟨_, _, rfl, .inl hfirst⟩
  | and _ _ _ ihl | or _ _ _ ihl =>
    obtain ⟨t, more, rfl, ht⟩ := ihl
    exact ⟨t, _, rfl, ht⟩

/-- Some token of an expression is no request and no word to leave out. -/
theorem Written.exists_sign {c : Catalog} (h : f.Written (WritesComparison c) ts) :
    ∃ t ∈ ts, t.isCompare = true ∨ t.content = .keyword .inside := by
  induction h with
  | filter hp =>
    obtain ⟨t, ht, hsign⟩ := hp.shape.2
    exact ⟨t, ht, .inl hsign⟩
  | sector hs =>
    obtain ⟨first, _, _, rfl, hfirst, -⟩ := hs
    exact ⟨first, List.mem_cons_self, .inr hfirst⟩
  | group _ _ _ ih =>
    obtain ⟨t, ht, hsign⟩ := ih
    exact ⟨t, List.mem_cons_of_mem _ (List.mem_append_left _ ht), hsign⟩
  | and _ _ _ ihl | or _ _ _ ihl =>
    obtain ⟨t, ht, hsign⟩ := ihl
    exact ⟨t, List.mem_append_left _ ht, hsign⟩

end Formula

namespace Query

variable {f : Formula} {ts : List Token}

/-- The draft that an expression gives. -/
theorem ofTokens_written {c : Catalog} {W : List Token → Predicate → Prop}
    (hW : ∀ ts p, W ts p → Clause.Filters c (fun _ => True) ts p) (h : f.Written W ts) :
    Draft.ofTokens c ts = Draft.started {} f false := by
  have hlength := (h.length_items fun ts p hp => by
    obtain ⟨t, more, rfl, -⟩ := hW ts p hp
    exact List.cons_ne_nil t more).1
  have hends : Clause.Ends [] := trivial
  have hgather := Draft.gather_written_start hW h (fun _ _ => trivial) (d := {}) rfl hends (fun _ _ => trivial)
    (ts.length - f.items.length)
  rw [Nat.add_sub_cancel' hlength, List.append_nil] at hgather
  rw [Draft.ofTokens, hgather]
  cases ts.length - f.items.length <;> rfl

/-- What a query is, read from the tokens after its announcement. -/
theorem ofTokens_announced {c : Catalog} {d : Draft} {intent : Intent} {rest : List Token} (hrequest : request? ts = none)
    (hannounced : announced ts = (intent, rest)) (hd : Draft.ofTokens c rest = d) (hbreakdown : d.breakdown = none)
    (hcount : d.clauseCount ≠ 0) :
    ofTokens c ts = .ok { intent, plan := d.plan, skipped := d.skipped, heuristics := d.heuristics,
                          clauseCount := d.clauseCount } := by
  unfold ofTokens
  rw [hrequest]
  dsimp only
  rw [hannounced]
  dsimp only
  rw [hd, hbreakdown]
  dsimp only
  rw [if_neg hcount]

end Query

namespace Draft

variable {f : Formula}

theorem started_empty (f : Formula) :
    (started {} f false).breakdown = none ∧ (started {} f false).clauseCount = f.clauses ∧
      (started {} f false).skipped = [] ∧ (started {} f false).heuristics = [] := by
  unfold started
  cases f.lifted false <;> simp [extended]

/-- The filter that an expression gives. -/
theorem predicate_started (f : Formula) :
    (started {} f false).plan.predicate = match f.lifted false with
      | none => Predicate.ofItems f.items
      | some name => (match f.unled with
          | none => Predicate.all
          | some g => Predicate.ofItems g.items).conjoin (.sectorIn (.ofList [name])) := by
  unfold started
  cases hlifted : f.lifted false with
  | none => simp [extended, plan, predicate]
  | some name =>
    have hitems := Formula.items_of_lifted hlifted
    simp only [extended, plan, predicate, hitems, List.tail_cons, List.nil_append, union, List.foldl_cons,
      List.foldl_nil]
    cases f.unled <;> rfl

variable {c : Catalog} {s : Security}

/-- An expression without a clause noted apart is selected by as it stands. -/
theorem holds_started (hf : f.Proper) (hlifted : f.lifted false = none) (s : Security) :
    (started {} f false).plan.predicate.holds c s = f.tree.holds c s := by
  rw [predicate_started, hlifted]
  exact (Formula.ofItems_items (Predicate.holds_congruence c s) hf).2

/-- **An expression with a clause noted apart** is selected by as it stands except where the clause
does not hold and the expression does. -/
theorem holds_started_lifted (hf : f.Proper) (hfits : f.tree.Every (·.Fits c)) {name : String}
    (hlifted : f.lifted false = some name) (hs : s.Typed) :
    (started {} f false).plan.predicate.holds c s = f.tree.holds c s ↔
      ¬ ((Predicate.sectorIn (.ofList [name])).holds c s = .ok false ∧ f.tree.holds c s = .ok true) := by
  rw [predicate_started, hlifted]
  dsimp only
  cases hu : f.unled with
  | none =>
    rw [Formula.tree_of_lifted hlifted hu]
    refine iff_of_true rfl fun ⟨hfalse, htrue⟩ => ?_
    rw [hfalse] at htrue
    exact absurd htrue (by simp)
  | some g =>
    obtain ⟨sector, hsector⟩ := Predicate.holds_ok (p := .sectorIn (.ofList [name])) (c := c)
      (fun cmp hcmp => absurd hcmp (by simp [Predicate.comparisons])) hs
    obtain ⟨rest, hrest⟩ := Predicate.holds_ok (Formula.every_of_lifted hlifted hu hfits) hs
    obtain ⟨whole, hwhole⟩ := Predicate.holds_ok hfits hs
    have hgrouped := (Formula.ofItems_items (Predicate.holds_congruence c s) (Formula.proper_of_lifted hf hlifted hu).1).2
    dsimp only
    rw [Predicate.holds_conjoin, Predicate.holds_and, hgrouped, hsector, hrest, hwhole]
    cases sector with
    | true =>
      have hsame : rest = whole := by
        have h := Formula.holds_of_lifted hlifted hu hsector
        rw [hrest, hwhole] at h
        exact Except.ok.inj h
      subst hsame
      cases rest <;> simp
    | false => cases rest <;> cases whole <;> simp

end Draft

namespace Query

variable {f : Formula} {text : String} {ts : List Token}

/-- A text that makes no request is read by its tokens. -/
theorem parse_tokens {c : Catalog} (hhelp : asksForHelp text.toList = false) (hclear : asksToClear text.toList = false)
    (ht : tokenize text = .ok ts) : parse c text = (ofTokens c ts).map fun q => { q with text } := by
  simp only [parse, hhelp, hclear, ht, Bool.false_eq_true, if_false]
  cases ofTokens c ts <;> rfl

/-- Tokens make no request where one of them has another meaning. -/
theorem request?_of_mem {t : Token} (ht : t ∈ ts) (hfiller : Clause.isFiller t = false) (hhelp : t.isKeyword .help = false)
    (hclear : t.isKeyword .clear = false) : request? ts = none := by
  have hmem : t ∈ ts.filter (!Clause.isFiller ·) := List.mem_filter.2 ⟨ht, by simp [hfiller]⟩
  unfold request?
  split
  · next u heq =>
    rw [heq, List.mem_singleton] at hmem
    rw [← hmem, hhelp, hclear]
    rfl
  · rfl

theorem request?_expression {c : Catalog} (h : f.Written (WritesComparison c) ts) : request? ts = none := by
  obtain ⟨t, ht, hsign⟩ := h.exists_sign
  rcases hsign with hsign | hsign
  · cases hcontent : t.content <;> simp [Token.isCompare, hcontent] at hsign
    exact request?_of_mem ht (by simp [Clause.isFiller, Token.isName, hcontent]) (by simp [Token.isKeyword, hcontent])
      (by simp [Token.isKeyword, hcontent])
  · exact request?_of_mem ht (by simp [Clause.isFiller, Token.isName, hsign]) (by simp [Token.isKeyword, hsign])
      (by simp [Token.isKeyword, hsign])

/-- What is noted down from the tokens of an expression is the query. -/
theorem parse_written (hhelp : asksForHelp text.toList = false) (hclear : asksToClear text.toList = false)
    (ht : tokenize text = .ok ts) (h : f.Written (WritesComparison Catalog.builtin) ts) :
    parse Catalog.builtin text = .ok
      { intent := .newScreen, plan := (Draft.started {} f false).plan, skipped := (Draft.started {} f false).skipped,
        heuristics := (Draft.started {} f false).heuristics,
        clauseCount := (Draft.started {} f false).clauseCount, text } := by
  have hannounced : announced ts = (.newScreen, ts) := by
    obtain ⟨t, more, rfl, hfirst⟩ := h.first
    unfold announced
    dsimp only
    split
    · next hcontent => simp [Token.isName, hcontent] at hfirst
    · rfl
  have hdraft := ofTokens_written (fun ts p hp => hp.filters _) h
  obtain ⟨hbreakdown, hcount, -, -⟩ := Draft.started_empty f
  have hclauses := (h.length_items fun ts p hp => by
    obtain ⟨t, more, rfl, -⟩ := hp.shape.1
    exact List.cons_ne_nil t more).2
  have htokens := ofTokens_announced (request?_expression h) hannounced hdraft hbreakdown (by omega)
  rw [parse_tokens hhelp hclear ht, htokens]
  rfl

/-- **An expression of comparisons and sectors** is read without loss. What the query selects is what
the expression selects, the conjunction binding tighter, unless the expression begins with a clause
on a sector that no "or" follows; then the two differ exactly on the securities outside the sector that
the expression selects. -/
theorem parse_expression (hhelp : asksForHelp text.toList = false) (hclear : asksToClear text.toList = false)
    (ht : tokenize text = .ok ts) (h : f.Written (WritesComparison Catalog.builtin) ts) (hf : f.Bracketed) :
    ∃ q, parse Catalog.builtin text = .ok q ∧ q.intent = .newScreen ∧ q.skipped = [] ∧ q.heuristics = [] ∧
      (f.lifted false = none →
        ∀ s, q.plan.predicate.holds Catalog.builtin s = f.tree.holds Catalog.builtin s) ∧
      ∀ name, f.lifted false = some name → ∀ s : Security, s.Typed →
        (q.plan.predicate.holds Catalog.builtin s = f.tree.holds Catalog.builtin s ↔
          ¬ ((Predicate.sectorIn (.ofList [name])).holds Catalog.builtin s = .ok false ∧
            f.tree.holds Catalog.builtin s = .ok true)) := by
  obtain ⟨-, -, hskipped, hheuristics⟩ := Draft.started_empty f
  have hproper := h.proper (fun ts p hp => (hp.fits regular_builtin).1) hf
  have hfits := h.every fun ts p hp => (hp.fits regular_builtin).2
  exact ⟨_, parse_written hhelp hclear ht h, rfl, hskipped, hheuristics,
    fun hlifted s => Draft.holds_started hproper hlifted s,
    fun name hlifted s hs => Draft.holds_started_lifted hproper hfits hlifted hs⟩

/-- The expression of "in IT sector and PE < 15 or PB < 2", and its tokens. -/
theorem written_it_sector :
    ∃ ts, tokenize "in IT sector and PE < 15 or PB < 2" = .ok ts ∧
      (Formula.or (.and (.sector "IT") (.filter (.compare ⟨"pe", .lt, .number (.decimal 15 0)⟩)))
        (.filter (.compare ⟨"pb", .lt, .number (.decimal 2 0)⟩))).Written (WritesComparison Catalog.builtin) ts := by
  let pe : Token := ⟨.name, "PE", 17⟩
  let pb : Token := ⟨.name, "PB", 28⟩
  let fifteen : Token := ⟨.number ⟨false, 15, 0⟩ none false, "15", 22⟩
  let two : Token := ⟨.number ⟨false, 2, 0⟩ none false, "2", 33⟩
  have hfields : Clause.fieldAt? Catalog.builtin [pe] = some (Catalog.valuationFields[1], 1) ∧
      Clause.fieldAt? Catalog.builtin [pb] = some (Catalog.valuationFields[2], 1) := by decide +kernel
  have hvalues : (Clause.readFilter Catalog.valuationFields[1] .lt [fifteen]).toOption =
        some (.compare ⟨"pe", .lt, .number (.decimal 15 0)⟩, 1) ∧
      (Clause.readFilter Catalog.valuationFields[2] .lt [two]).toOption =
        some (.compare ⟨"pb", .lt, .number (.decimal 2 0)⟩, 1) := by decide +kernel
  refine ⟨[⟨.keyword .inside, "in", 0⟩, ⟨.name, "IT", 3⟩, ⟨.keyword .sector, "sector", 6⟩] ++
    ⟨.keyword .and, "and", 13⟩ :: [pe, ⟨.compare .lt, "<", 20⟩, fifteen] ++
    ⟨.keyword .or, "or", 25⟩ :: [pb, ⟨.compare .lt, "<", 31⟩, two], ?_, ?_⟩
  · exact Except.toOption_eq_some.1 (by decide +kernel)
  · refine .or (.and (.sector ⟨_, [_], _, rfl, rfl, rfl, by decide, by decide +kernel⟩) rfl (.filter ?_)) rfl (.filter ?_)
    · exact WritesComparison.intro hfields.1 (by decide) (by decide) rfl (Except.toOption_eq_some.1 hvalues.1)
    · exact WritesComparison.intro hfields.2 (by decide) (by decide) rfl (Except.toOption_eq_some.1 hvalues.2)

/-- The expression of "in IT sector and PE < 15 or PB < 2". -/
theorem parse_expression_it_sector :
    let f : Formula := .or (.and (.sector "IT") (.filter (.compare ⟨"pe", .lt, .number (.decimal 15 0)⟩)))
      (.filter (.compare ⟨"pb", .lt, .number (.decimal 2 0)⟩))
    f.lifted false = some "IT" ∧ ∃ q, parse Catalog.builtin "in IT sector and PE < 15 or PB < 2" = .ok q ∧
      ∀ s : Security, s.Typed →
        (q.plan.predicate.holds Catalog.builtin s = f.tree.holds Catalog.builtin s ↔
          ¬ ((Predicate.sectorIn (.ofList ["IT"])).holds Catalog.builtin s = .ok false ∧
            f.tree.holds Catalog.builtin s = .ok true)) := by
  intro f
  obtain ⟨ts, ht, h⟩ := written_it_sector
  obtain ⟨q, hq, -, -, -, -, hlifted⟩ := parse_expression (by decide +kernel) (by decide +kernel) ht h
    ⟨⟨trivial, trivial, rfl, rfl⟩, trivial⟩
  exact ⟨rfl, q, hq, hlifted "IT" rfl⟩

/-- A security outside the sector, which the expression selects and the query does not. -/
theorem not_forall_parse_holds :
    ¬ ∀ (text : String) (ts : List Token) (f : Formula), tokenize text = .ok ts →
      f.Written (WritesComparison Catalog.builtin) ts → f.Bracketed → ∃ q, parse Catalog.builtin text = .ok q ∧
        ∀ s : Security, s.Typed → q.plan.predicate.holds Catalog.builtin s = f.tree.holds Catalog.builtin s := by
  intro hall
  let f : Formula := .or (.and (.sector "IT") (.filter (.compare ⟨"pe", .lt, .number (.decimal 15 0)⟩)))
    (.filter (.compare ⟨"pb", .lt, .number (.decimal 2 0)⟩))
  have hf : f.Bracketed := ⟨⟨trivial, trivial, rfl, rfl⟩, trivial⟩
  obtain ⟨ts, ht, h⟩ : ∃ ts, tokenize "in IT sector and PE < 15 or PB < 2" = .ok ts ∧ f.Written _ ts :=
    written_it_sector
  obtain ⟨q, hq, hsame⟩ := hall _ ts f ht h hf
  rw [parse_written (by decide +kernel) (by decide +kernel) ht h] at hq
  let s : Security := ⟨fun
    | .sector => some (.text "Pharma")
    | .pb => some (.number (.int 1))
    | _ => none⟩
  have hs : s.Typed := by
    intro a v hv
    cases a <;> cases hv <;> rfl
  have hdiffer := (Draft.holds_started_lifted (h.proper (fun ts p hp => (hp.fits regular_builtin).1) hf)
    (h.every fun ts p hp => (hp.fits regular_builtin).2) rfl hs).1
  rw [← Except.ok.inj hq] at hsame
  refine hdiffer (hsame s hs) ⟨?_, ?_⟩
  · exact Except.toOption_eq_some.1 (by decide +kernel)
  · exact Except.toOption_eq_some.1 (by decide +kernel)

end Query
end EquityScreen
