/-
Which clauses reading can give. Whatever a property is said of every clause at the front of a row of
tokens, it is enough to look at the kinds of clauses one by one (`Shared.read`): the comparisons, the
qualitative words and phrases and the orders are the only ones with something to prove, and an
exclusion has the property when its operand has it.
-/
import EquityScreen.Proofs.Clause.Operand
import EquityScreen.Proofs.Decimal.Digits
import EquityScreen.Proofs.Predicate.WellFormed

namespace EquityScreen
namespace Clause

variable {c : Catalog} {t : Token} {ts : List Token}

/-- A name at the front means a field of the catalog. -/
theorem fieldAt?_some {f : Field} {n : Nat} (h : fieldAt? c ts = some (f, n)) :
    c.field? f.key = some f := by
  obtain ⟨ws, -, hname⟩ := longest?_some h
  simp only [fieldNamed?, Option.bind_eq_bind, Option.bind_eq_some_iff] at hname
  obtain ⟨key, -, hname⟩ := hname
  split at hname
  · exact absurd hname (by simp)
  · exact Catalog.field?_key hname

/-- A sector at the front is one of the vocabulary. -/
theorem mem_listed_of_sectorAt? {anchored : Bool} {sector : String} {n : Nat}
    (h : sectorAt? ts anchored = some (sector, n)) : sector ∈ Sector.listed := by
  obtain ⟨-, _, -, hresolve⟩ := sectorAt?_spec h
  exact Sector.mem_listed_of_resolve? hresolve

theorem sectorsFrom_listed {anchored : Bool} {fuel : Nat} {found : List String}
    (h : ∀ name ∈ found, name ∈ Sector.listed) :
    ∀ name ∈ (sectorsFrom anchored fuel ts found).1, name ∈ Sector.listed := by
  induction fuel generalizing ts found with
  | zero => exact h
  | succ fuel ih =>
    unfold sectorsFrom
    dsimp only
    generalize (if articleNext ts then 1 else 0) = article
    split
    · exact h
    · next sector n hsector =>
      have hfound : ∀ name ∈ (if found.contains sector then found else found ++ [sector]), name ∈ Sector.listed := by
        split
        · exact h
        · intro name hname
          rcases List.mem_append.1 hname with hname | hname
          · exact h name hname
          · exact List.mem_singleton.1 hname ▸ mem_listed_of_sectorAt? hsector
      split
      · have hmore := @ih ((ts.drop (article + n)).drop 1) _ hfound
        split <;> next heq =>
          rw [heq] at hmore
          exact hmore
      · exact hfound

/-- The sectors of a list are those of the vocabulary. -/
theorem sectorList_listed {anchored : Bool} {names : List String} {n : Nat}
    (h : sectorList ts anchored = (names, n)) (hne : names ≠ []) : Sector.Listed names := by
  refine ⟨hne, ?_⟩
  unfold sectorList at h
  dsimp only at h
  split at h
  · exact absurd (Prod.mk.inj h).1.symm hne
  · rw [← (Prod.mk.inj h).1]
    exact sectorsFrom_listed nofun

/-- A count to limit a query by is positive. -/
theorem truncate_pos {d : Decimal} (hwhole : d.isWhole = true) (hsign : d.negative = false)
    (hc : d.coefficient ≠ 0) : 0 < d.truncate.toNat := by
  have hnat : d.truncate.toNat = d.truncate.natAbs := by
    unfold Decimal.truncate
    dsimp only
    rw [hsign, if_neg Bool.false_ne_true, Int.toNat_natCast, Int.natAbs_natCast]
  rw [hnat, Decimal.natAbs_truncate]
  split
  · exact Nat.mul_pos (Nat.pos_of_ne_zero hc) (Nat.pow_pos (by decide))
  · exact Nat.div_pos (Nat.le_of_dvd (Nat.pos_of_ne_zero hc) ((Decimal.isWhole_iff d).1 hwhole))
      (Nat.pow_pos (by decide))

/-- A symbol to leave out is in capitals. -/
theorem symbolOf?_some {t : Token} {used : Nat} {symbol : String} (h : symbolOf? t used = some symbol) :
    ∃ s, symbol = Text.upper s := by
  unfold symbolOf? at h
  split at h
  · exact ⟨_, (Option.some.inj h).symm⟩
  · exact absurd h (by simp)

/-- A property that the clauses at the front of the tokens share, apart from those of a qualitative word or
phrase and those that an exclude word turns round. -/
structure Ordinary (c : Catalog) (tokens : List Token) (P : Clause → Prop) : Prop where
  mark : ∀ i, (∀ p, i ≠ .filter p) → P (.mark i)
  filler : P .filler
  skipped : ∀ s, P (.skipped s)
  sectors : ∀ names beforeOr, Sector.Listed names → P (.sectors names beforeOr)
  excludedSectors : ∀ names, Sector.Listed names → P (.excludedSectors names)
  limit : ∀ count fromBottom, 0 < count → P (.limit count fromBottom)
  order : ∀ o, (c.field? o.field).isSome = true → P (.order o)
  named : ∀ s o direction, Vocabulary.orders.lookup s = some o → P (.order { o with direction })
  comparison : ∀ f n op ts, c.field? f.key = some f → ts <:+ tokens →
    (∃ u more, ts.drop n = u :: more ∧ u.content = .compare op) → P (readComparison f n op ts).1

/-- A property that all clauses at the front of the tokens share. -/
structure Shared (c : Catalog) (tokens : List Token) (P : Clause → Prop) : Prop extends Ordinary c tokens P where
  phrase : ∀ ts r, phrase? c ts = some r → P r.1
  quality : ∀ ts q r, quality? c ts q = some r → P r.1
  reversed : ∀ operand phrase symbol, P operand → (∀ s ∈ symbol, ∃ s', s = Text.upper s') →
    P (.reversed operand phrase symbol)

section

variable {tokens : List Token} {P : Clause → Prop}

namespace Ordinary

variable (hP : Ordinary c tokens P)
include hP

theorem superlative {d : Direction} {r : Clause × Nat} (h : superlative? c d ts = some r) : P r.1 := by
  unfold superlative? at h
  dsimp only at h
  split at h
  · next o n hn =>
    obtain ⟨ws, -, ho⟩ := longest?_some hn
    rw [← Option.some.inj h]
    exact hP.named _ _ _ ho
  · simp only [Option.map_eq_some_iff] at h
    obtain ⟨⟨f, n⟩, hf, rfl⟩ := h
    exact hP.order _ (by rw [fieldAt?_some hf]; rfl)

theorem field {f : Field} {n : Nat} (hts : ts <:+ tokens) (h : fieldAt? c ts = some (f, n)) :
    P (fieldClause f n ts).1 := by
  have hf := fieldAt?_some h
  rcases fieldClause_cases f n ts with ⟨op, hop, h⟩ | ⟨d, h⟩ | ⟨reason, h⟩ <;> rw [h]
  · exact hP.comparison f n op ts hf hts hop
  · exact hP.order _ (by rw [hf]; rfl)
  · exact hP.skipped _

theorem plainWord : P (Clause.plainWord t ts).1 := by
  rcases plainWord_cases t ts with ⟨n, -, hne, h⟩ | h | h <;> rw [h]
  · exact hP.sectors _ _ (sectorList_listed rfl hne)
  · exact hP.filler
  · exact hP.skipped _

theorem inside : P (Clause.inside ts).1 := by
  unfold Clause.inside
  dsimp only
  split
  · exact hP.filler
  · next names n hne heq => exact hP.sectors _ _ (sectorList_listed heq hne)

theorem orderBy {d : Direction} {n : Nat} : ∀ cl ∈ (Clause.orderBy c d n ts).1, P cl := by
  unfold Clause.orderBy
  split
  · exact nofun
  · next f m hf =>
    intro cl hcl
    rw [List.mem_singleton.1 hcl]
    exact hP.order _ (by rw [fieldAt?_some hf]; rfl)

theorem orderUnlessCompared {d : Direction} {n : Nat} :
    ∀ cl ∈ (Clause.orderUnlessCompared c d n ts).1, P cl := by
  unfold Clause.orderUnlessCompared
  split
  · exact nofun
  · split
    · exact nofun
    · exact orderBy hP

theorem limitClause {bottom : Bool} : ∀ cl ∈ (Clause.limitClause c bottom ts).1, P cl := by
  unfold Clause.limitClause
  dsimp only
  split
  · exact fun _ h => absurd h List.not_mem_nil
  · split
    · split
      · intro cl hcl
        rw [List.mem_singleton.1 hcl]
        exact hP.skipped _
      · next hcount =>
        simp only [Bool.or_eq_true, not_or, Bool.not_eq_true, Bool.not_eq_false', decide_eq_true_iff] at hcount
        obtain ⟨⟨⟨-, hwhole⟩, hsign⟩, hc⟩ := hcount
        intro cl hcl
        rcases List.mem_cons.1 hcl with rfl | hcl
        · exact hP.limit _ _ (truncate_pos hwhole hsign hc)
        · split at hcl
          · exact orderBy hP cl hcl
          · exact orderUnlessCompared hP cl hcl
    · exact orderUnlessCompared hP

theorem keyword (hts : ts <:+ tokens) {k : Keyword} (hk : k ≠ .exclude) : ∀ cl ∈ (readKeyword c k ts).1, P cl := by
  have hone : ∀ {r : Clause × Nat}, P r.1 → ∀ cl ∈ (readKeyword.single r).1, P cl :=
    fun h cl hcl => List.mem_singleton.1 hcl ▸ h
  have hdirection : ∀ d, ∀ cl ∈ (readKeyword.orderOnly c ts d).1, P cl := by
    intro d
    unfold readKeyword.orderOnly
    split
    · exact nofun
    · next f n hf =>
      intro cl hcl
      rw [List.mem_singleton.1 hcl]
      exact hP.order _ (by rw [fieldAt?_some hf]; rfl)
  have hfiller : ∀ cl ∈ [Clause.filler], P cl := fun cl hcl => List.mem_singleton.1 hcl ▸ hP.filler
  cases k with
  | and | or => exact fun cl hcl => List.mem_singleton.1 hcl ▸ hP.mark _ nofun
  | exclude => exact absurd rfl hk
  | inside => exact hone (inside hP)
  | top | bottom => exact limitClause hP
  | ascending | descending => exact hdirection _
  | sort | «by» => exact orderBy hP
  | help | clear => exact hfiller
  | sector =>
    dsimp only [readKeyword]
    split
    · next u more hmore =>
      split
      · next f hu hf =>
        exact hone (hP.comparison _ _ _ _ (Catalog.field?_key hf) hts ⟨u, more, hmore, hu⟩)
      · exact hfiller
    · exact hfiller

/-- The clauses at a token that is neither a word nor an exclude word have the property. -/
theorem read (htokens : t :: ts <:+ tokens) (hword : t.isName = false) (hexclude : t.content ≠ .keyword .exclude) :
    ∀ cl ∈ (Clause.read c t ts).clauses, P cl := by
  have hone : ∀ {cl₀ : Clause}, P cl₀ → ∀ cl ∈ [cl₀], P cl := fun h cl hcl => List.mem_singleton.1 hcl ▸ h
  unfold Clause.read
  dsimp only
  split
  · exact nofun
  · exact nofun
  · exact hone (hP.mark _ nofun)
  · exact hone (hP.mark _ nofun)
  · next k hk => exact keyword hP htokens fun heq => hexclude (heq ▸ hk)
  · exact hone (hP.skipped _)
  · exact hone (hP.skipped _)
  · split
    · next hresolve =>
      exact hone (hP.sectors _ _ (Sector.listed_singleton (Sector.mem_listed_of_resolve? hresolve)))
    · exact hone (hP.skipped _)
  · next hname => exact absurd hword (by simp [Token.isName, hname])

end Ordinary

namespace Shared

variable (hP : Shared c tokens P)
include hP

theorem word (hts : ts <:+ tokens) : P (readWord c t ts).1 :=
  readWord_cases (P := fun r => P r.1) (fun _ _ h => hP.superlative h) (fun r h => hP.phrase ts r h)
    (fun q r h => hP.quality ts q r h) (fun _ _ h => hP.field hts h) hP.plainWord

theorem exclude (hts : ts <:+ tokens) : P (Clause.exclude c ts).1 := by
  unfold Clause.exclude
  dsimp only
  split
  · unfold reverse
    dsimp only
    split
    · exact hP.skipped _
    · next u more heq =>
      split
      · exact hP.reversed _ _ _ (word hP (heq ▸ (List.drop_suffix _ ts).trans hts)) fun _ => symbolOf?_some
      · exact hP.skipped _
  · next names n hne heq => exact hP.excludedSectors _ (sectorList_listed heq hne)

/-- **Every clause at the front** of the tokens has the property. -/
theorem read (htokens : t :: ts <:+ tokens) : ∀ cl ∈ (Clause.read c t ts).clauses, P cl := by
  by_cases hword : t.content = .name
  · rw [clauses_of_name hword]
    exact fun cl hcl => List.mem_singleton.1 hcl ▸ word hP htokens
  · by_cases hexclude : t.content = .keyword .exclude
    · rw [clauses_of_exclude hexclude]
      exact fun cl hcl => List.mem_singleton.1 hcl ▸ exclude hP htokens
    · exact hP.toOrdinary.read htokens (by simpa [Token.isName] using hword) hexclude

end Shared
end
end Clause
end EquityScreen
