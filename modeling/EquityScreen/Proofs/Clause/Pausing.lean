/-
Reading pauses at a comma before an order.

A comma that the keyword of an order follows stands between two clauses: no reading that begins in front of it
takes it along (`used_le`), for a comma belongs to a clause only between the names of sectors, and the keyword is
none. So a comparison in front of it has its values there, and of the numbers only those there can stop the
reading (`read_workable_before`).
-/
import EquityScreen.Proofs.Clause.Progress
import EquityScreen.Proofs.Clause.Sound
import EquityScreen.Proofs.Clause.Writing

namespace EquityScreen
namespace Clause

/-- Behind so many tokens stands a comma, and behind it the keyword of an order. -/
def PausesAt (k : Nat) (ts : List Token) : Prop :=
  ∃ t u rest, ts.drop k = t :: u :: rest ∧ t.content = .comma ∧ u.content = .keyword .sort

variable {c : Catalog} {f : Field} {t : Token} {ts : List Token} {k n : Nat}

namespace PausesAt

theorem drop (h : PausesAt k ts) (hn : n ≤ k) : PausesAt (k - n) (ts.drop n) := by
  obtain ⟨t, u, rest, hdrop, ht, hu⟩ := h
  exact ⟨t, u, rest, by rw [List.drop_drop, Nat.add_sub_cancel' hn, hdrop], ht, hu⟩

/-- Tokens that are no comma stand in front of it. -/
theorem le_of_take (h : PausesAt k ts) (hts : ∀ t ∈ ts.take n, t.content ≠ .comma) : n ≤ k := by
  obtain ⟨t, u, rest, hdrop, ht, -⟩ := h
  refine Nat.le_of_not_lt fun hlt => hts t ?_ ht
  have hat : ts[k]? = some t := by rw [← List.head?_drop, hdrop]; rfl
  exact List.mem_of_getElem? ((List.getElem?_take_of_lt hlt).trans hat)

/-- A token that is no comma stands in front of it. -/
theorem lt (h : PausesAt k ts) (hn : n ≤ k) {more : List Token} (hmore : ts.drop n = t :: more) (ht : t.content ≠ .comma) :
    n < k := by
  have hle : 1 ≤ k - n := (h.drop hn).le_of_take fun u hu => by
    rw [hmore, List.take_succ_cons, List.take_zero, List.mem_singleton] at hu
    rwa [hu]
  omega

theorem pos (h : PausesAt k (t :: ts)) (ht : t.content ≠ .comma) : 0 < k := h.lt (Nat.zero_le k) rfl ht

end PausesAt

/-! ## Names -/

theorem ne_comma_of_isName (h : t.isName = true) : t.content ≠ .comma := by
  rw [Token.isName, beq_iff_eq] at h
  rw [h]
  exact Content.noConfusion

theorem ne_comma_of_isKeyword {kw : Keyword} (h : t.isKeyword kw = true) : t.content ≠ .comma := by
  rw [Token.isKeyword, beq_iff_eq] at h
  rw [h]
  exact Content.noConfusion

theorem ne_comma_of_isWord (h : isWord t = true) : t.content ≠ .comma := by
  intro hcomma
  simp [isWord, Token.isName, words?.isKeywordToken, hcomma] at h

theorem longest?_le (h : PausesAt k ts) {α : Type} {most : Nat} {meaning? : String → Option α} {a : α}
    (hl : longest? most meaning? ts = some (a, n)) : n ≤ k := by
  obtain ⟨ws, hws, -⟩ := longest?_some hl
  obtain ⟨u, more, htake, hu, hmore, -, -⟩ := words?_some hws
  refine h.le_of_take fun v hv => ?_
  rw [htake, List.mem_cons] at hv
  rcases hv with rfl | hv
  · exact ne_comma_of_isName hu
  · exact ne_comma_of_isWord (List.all_eq_true.1 hmore v hv)

theorem fieldAt?_le (h : PausesAt k ts) (hf : fieldAt? c ts = some (f, n)) : n ≤ k := longest?_le h hf

theorem sectorAt?_le (h : PausesAt k ts) {anchored : Bool} {name : String} (hs : sectorAt? ts anchored = some (name, n)) :
    n ≤ k := by
  obtain ⟨-, term, hterm, -⟩ := sectorAt?_spec hs
  obtain ⟨u, more, htake, -, hcases⟩ := sectorTerm?_some hterm
  refine h.le_of_take fun v hv => ?_
  rw [htake, List.mem_cons] at hv
  rcases hcases with ⟨rfl, hquoted⟩ | ⟨hu, hmore, -⟩
  · have hnil : more = [] := by
      have hlength := congrArg List.length htake
      rw [List.length_take, List.length_cons] at hlength
      exact List.eq_nil_of_length_eq_zero (by omega)
    rw [hnil, or_iff_left List.not_mem_nil] at hv
    rw [hv, hquoted]
    exact Content.noConfusion
  · rcases hv with rfl | hv
    · exact ne_comma_of_isName hu
    · exact (hmore v hv).elim ne_comma_of_isName ne_comma_of_isKeyword

/-- No sector begins with the keyword of an order. -/
theorem sectorAt?_sort (ht : t.content = .keyword .sort) (ts : List Token) (anchored : Bool) :
    sectorAt? (t :: ts) anchored = none := by
  cases hs : sectorAt? (t :: ts) anchored with
  | none => rfl
  | some found =>
    obtain ⟨hn, term, hterm, -⟩ := sectorAt?_spec hs
    obtain ⟨u, more, htake, -, hcases⟩ := sectorTerm?_some hterm
    rw [← Nat.sub_add_cancel hn, List.take_succ_cons, List.cons.injEq] at htake
    obtain ⟨rfl, -⟩ := htake
    rcases hcases with ⟨-, hquoted⟩ | ⟨hname, -⟩
    · exact absurd (ht.symm.trans hquoted) Content.noConfusion
    · rw [Token.isName, ht] at hname
      exact absurd hname (by decide)

theorem articleNext_le (h : PausesAt k ts) : (if articleNext ts then 1 else 0) ≤ k := by
  split
  · next harticle =>
    cases ts with
    | nil => exact absurd harticle Bool.false_ne_true
    | cons t ts =>
      rw [articleNext, Bool.and_eq_true] at harticle
      exact h.pos (ne_comma_of_isName harticle.1)
  · exact Nat.zero_le k

theorem sectorsFrom_le {anchored : Bool} {fuel : Nat} {found : List String} (h : PausesAt k ts) :
    (sectorsFrom anchored fuel ts found).2 ≤ k := by
  induction fuel generalizing k ts found with
  | zero => exact Nat.zero_le k
  | succ fuel ih =>
    have harticle := articleNext_le h
    unfold sectorsFrom
    dsimp only
    generalize (if articleNext ts then 1 else 0) = article at harticle ⊢
    split
    · exact Nat.zero_le k
    · next sector n hsector =>
      have hn := sectorAt?_le (h.drop harticle) hsector
      have hused : article + n ≤ k := by omega
      split
      · next hmore =>
        have hlt : article + n < k := by
          refine Nat.lt_of_le_of_ne hused fun heq => ?_
          obtain ⟨t, u, rest, hdrop, -, hu⟩ := h
          rw [heq, hdrop, List.drop_succ_cons, List.drop_zero, sectorAt?_sort hu] at hmore
          simp at hmore
        have hrest := (h.drop hused).drop (show 1 ≤ k - (article + n) by omega)
        have hfurther := @ih _ _ (if found.contains sector then found else found ++ [sector]) hrest
        split
        · exact hused
        · next heq =>
          rw [heq] at hfurther
          dsimp only at hfurther ⊢
          omega
      · exact hused

theorem nextIs_le (h : PausesAt k ts) (kw : Keyword) : (if nextIs kw ts then 1 else 0) ≤ k := by
  split
  · next hnext =>
    cases ts with
    | nil => exact absurd hnext Bool.false_ne_true
    | cons t ts => exact h.pos (ne_comma_of_isKeyword hnext)
  · exact Nat.zero_le k

theorem sectorList_le (h : PausesAt k ts) (anchored : Bool) : (sectorList ts anchored).2 ≤ k := by
  unfold sectorList
  dsimp only
  split
  · exact Nat.zero_le k
  · have hused : (sectorsFrom anchored ts.length ts []).2 ≤ k := sectorsFrom_le h
    have hword := nextIs_le (h.drop hused) .sector
    dsimp only [sectorWord]
    omega

/-! ## Values -/

theorem readValue_le (h : PausesAt k ts) {v : Value} (hv : readValue f ts = .ok (v, n)) : n ≤ k := by
  rcases readValue_ok hv with ⟨-, sector, hsector, -⟩ | ⟨-, rfl, t, more, _, _, _, rfl, hstands, -⟩
  · exact sectorAt?_le h hsector
  · refine h.pos ?_
    cases hstands with
    | number ht | name _ ht | quoted _ ht => rw [ht]; exact Content.noConfusion

theorem joiner_le (h : PausesAt k ts) : joiner ts ≤ k := by
  unfold joiner
  split
  · exact Nat.zero_le k
  · next t more =>
    split
    · next hjoins =>
      rw [Bool.or_eq_true, Bool.and_eq_true] at hjoins
      exact h.pos (hjoins.elim ne_comma_of_isKeyword fun hto => ne_comma_of_isName hto.1)
    · exact Nat.zero_le k

theorem readFilter_le (h : PausesAt k ts) {op : Operator} {p : Predicate} (hp : readFilter f op ts = .ok (p, n)) : n ≤ k := by
  unfold readFilter at hp
  split at hp
  · obtain ⟨⟨first, m⟩, hfirst, hp⟩ := Except.bind_ok_iff.1 hp
    obtain ⟨⟨last, m'⟩, hlast, hp⟩ := Except.bind_ok_iff.1 hp
    dsimp only at hlast hp
    have hm := readValue_le h hfirst
    have hjoiner := joiner_le (h.drop hm)
    have hm' := readValue_le (h.drop (show m + joiner (ts.drop m) ≤ k by omega)) hlast
    split at hp
    · rw [← (Prod.mk.inj (Except.ok.inj hp)).2]
      omega
    · exact absurd hp (by simp [throw, throwThe, MonadExceptOf.throw])
  · obtain ⟨⟨v, m⟩, hv, hp⟩ := Except.bind_ok_iff.1 hp
    dsimp only at hp
    split at hp
    · rw [← (Prod.mk.inj (Except.ok.inj hp)).2]
      exact readValue_le h hv
    · exact absurd hp (by simp [throw, throwThe, MonadExceptOf.throw])

theorem badValueLength_le (h : PausesAt k ts) : badValueLength ts ≤ k := by
  unfold badValueLength
  dsimp only
  split
  · split
    · split
      · next t more ht => exact h.pos (ne_comma_of_isName ht)
      · exact Nat.zero_le k
    · exact Nat.zero_le k
  · refine h.le_of_take fun t ht => ?_
    rw [← List.prefix_iff_eq_take.1 (List.takeWhile_prefix _)] at ht
    intro hcomma
    have hvalue := List.all_eq_true.1 List.all_takeWhile _ ht
    simp only [hcomma] at hvalue
    exact absurd hvalue Bool.false_ne_true

theorem readComparison_le (h : PausesAt k ts) (hn : n < k) (f : Field) (op : Operator) : (readComparison f n op ts).2 ≤ k := by
  have hvalues : PausesAt (k - (n + 1)) (ts.drop (n + 1)) := h.drop hn
  unfold readComparison
  dsimp only
  split
  · next p used hp =>
    have := readFilter_le hvalues hp
    dsimp only
    omega
  · have := badValueLength_le hvalues
    split <;> (dsimp only; omega)

/-! ## Words -/

theorem fieldClause_le (h : PausesAt k ts) (hn : n ≤ k) (f : Field) : (fieldClause f n ts).2 ≤ k := by
  unfold fieldClause
  split
  · exact hn
  · next t more hmore =>
    split
    · next op ht => exact readComparison_le h (h.lt hn hmore (by rw [ht]; exact Content.noConfusion)) f op
    · next ht => exact h.lt hn hmore (by rw [ht]; exact Content.noConfusion)
    · next ht => exact h.lt hn hmore (by rw [ht]; exact Content.noConfusion)
    · exact hn

theorem readWord_le (h : PausesAt k ts) (hk : 0 < k) (t : Token) : (readWord c t ts).2 ≤ k := by
  have hnext := h.drop hk
  refine readWord_cases (P := fun r => r.2 ≤ k) ?_ ?_ ?_ ?_ ?_
  · intro d r hr
    unfold superlative? at hr
    dsimp only at hr
    split at hr
    · next o n ho =>
      have hn := longest?_le hnext ho
      rw [← Option.some.inj hr]
      dsimp only
      omega
    · obtain ⟨⟨f, n⟩, hf, rfl⟩ := Option.map_eq_some_iff.1 hr
      have hn := fieldAt?_le hnext hf
      dsimp only
      omega
  · intro r hr
    simp only [phrase?, Option.bind_eq_bind, Option.bind_eq_some_iff] at hr
    obtain ⟨⟨terms, n⟩, hn, hr⟩ := hr
    split at hr
    · exact absurd hr (by simp)
    · simp only [Option.bind_eq_some_iff, Option.pure_def, Option.some.injEq] at hr
      obtain ⟨p, -, rfl⟩ := hr
      exact longest?_le h hn
  · intro q r hr
    obtain ⟨f, n, hf, hcases⟩ := quality?_some hr
    have hn := fieldAt?_le hnext hf
    rcases hcases with ⟨_, _, -, -, rfl⟩ | ⟨_, rfl⟩
    · dsimp only
      omega
    · dsimp only [skip]
      omega
  · exact fun f n hf => fieldClause_le h (fieldAt?_le h hf) f
  · rcases plainWord_cases t ts with ⟨n, heq, -, hr⟩ | hr | hr <;> rw [hr]
    · rw [show n = (sectorList ts false).2 from (congrArg Prod.snd heq).symm]
      exact sectorList_le h false
    · exact hk
    · exact hk

/-! ## Keywords -/

theorem fillers_le (h : PausesAt k ts) : (ts.takeWhile isFiller).length ≤ k := by
  refine h.le_of_take fun t ht => ?_
  rw [← List.prefix_iff_eq_take.1 (List.takeWhile_prefix _)] at ht
  have hfiller := List.all_eq_true.1 List.all_takeWhile _ ht
  rw [isFiller, Bool.and_eq_true] at hfiller
  exact ne_comma_of_isName hfiller.1

theorem reverse_le (h : PausesAt k ts) (hn : n ≤ k) : (reverse c n ts).2 ≤ k := by
  have hfillers := fillers_le (h.drop hn)
  have hstart : n + ((ts.drop n).takeWhile isFiller).length ≤ k := by omega
  unfold reverse
  dsimp only
  split
  · exact hstart
  · next t more hmore =>
    split
    · next ht =>
      have hword := h.drop hstart
      have hpos : 0 < k - (n + ((ts.drop n).takeWhile isFiller).length) :=
        Nat.sub_pos_of_lt (h.lt hstart hmore (ne_comma_of_isName ht))
      rw [hmore] at hword
      have hused := readWord_le hword hpos t (c := c)
      dsimp only
      omega
    · exact hstart

theorem exclude_le (h : PausesAt k ts) (hk : 0 < k) : (exclude c ts).2 ≤ k := by
  have hin := nextIs_le (h.drop hk) .inside
  have hstart : (if nextIs .inside (ts.drop 1) then 2 else 1) ≤ k := by
    split at hin
    · next hinside => rw [if_pos hinside]; omega
    · next hinside => rw [if_neg hinside]; exact hk
  unfold exclude
  dsimp only
  generalize (if nextIs .inside (ts.drop 1) then 2 else 1) = start at hstart ⊢
  have hword := nextIs_le (h.drop hstart) .sector
  dsimp only [sectorWord]
  generalize (if nextIs .sector (ts.drop start) then 1 else 0) = noun at hword ⊢
  have hboth : start + noun ≤ k := by omega
  split
  · exact reverse_le h hboth
  · next names n _ heq =>
    have hlist := sectorList_le (h.drop hboth) true
    rw [heq] at hlist
    dsimp only at hlist ⊢
    omega

theorem inside_le (h : PausesAt k ts) (hk : 0 < k) : (inside ts).2 ≤ k := by
  have hword := nextIs_le (h.drop hk) .sector
  unfold inside
  dsimp only [sectorWord]
  generalize (if nextIs .sector (ts.drop 1) then 1 else 0) = noun at hword ⊢
  have hstart : 1 + noun ≤ k := by omega
  split
  · exact hstart
  · next names n _ heq =>
    have hlist := sectorList_le (h.drop hstart) true
    rw [heq] at hlist
    dsimp only [sectorClause] at hlist ⊢
    omega

theorem directionAt_le (h : PausesAt k ts) (d : Direction) : (directionAt d ts).2 ≤ k := by
  unfold directionAt
  split
  · split
    · next ht => exact h.pos (ne_comma_of_isKeyword ht)
    · split
      · next ht => exact h.pos (ne_comma_of_isKeyword ht)
      · exact Nat.zero_le k
  · exact Nat.zero_le k

theorem orderBy_le (h : PausesAt k ts) (hn : n ≤ k) (d : Direction) : (orderBy c d n ts).2 ≤ k := by
  unfold orderBy
  split
  · exact hn
  · next f m hf =>
    have hm := fieldAt?_le (h.drop hn) hf
    have hdirection := directionAt_le (h.drop (show n + m ≤ k by omega)) d
    dsimp only
    omega

theorem orderUnlessCompared_le (h : PausesAt k ts) (hn : n ≤ k) (d : Direction) : (orderUnlessCompared c d n ts).2 ≤ k := by
  unfold orderUnlessCompared
  split
  · exact hn
  · split
    · exact hn
    · exact orderBy_le h hn d

theorem limitClause_le (h : PausesAt k ts) (hk : 0 < k) (bottom : Bool) : (limitClause c bottom ts).2 ≤ k := by
  unfold limitClause
  dsimp only
  split
  · exact hk
  · next t more hmore =>
    split
    · next ht =>
      have htwo : 1 < k := h.lt hk hmore (by rw [ht]; exact Content.noConfusion)
      split
      · exact htwo
      · have hby := nextIs_le (h.drop htwo) .by
        split
        · next hnext =>
          rw [if_pos hnext] at hby
          exact orderBy_le h (show 3 ≤ k by omega) _
        · exact orderUnlessCompared_le h htwo _
    · exact orderUnlessCompared_le h hk _

theorem readKeyword_le (h : PausesAt k ts) (hk : 0 < k) (kw : Keyword) : (readKeyword c kw ts).2 ≤ k := by
  have hdirection : ∀ d, (readKeyword.orderOnly c ts d).2 ≤ k := fun d => by
    unfold readKeyword.orderOnly
    split
    · exact hk
    · next f n hf =>
      have hn := fieldAt?_le (h.drop hk) hf
      dsimp only
      omega
  cases kw with
  | and | or | help | clear => exact hk
  | exclude => exact exclude_le h hk
  | inside => exact inside_le h hk
  | top | bottom => exact limitClause_le h hk _
  | ascending | descending => exact hdirection _
  | sort =>
    have hby := nextIs_le (h.drop hk) .by
    refine orderBy_le h ?_ _
    split
    · next hnext => rw [if_pos hnext] at hby; omega
    · exact hk
  | «by» => exact orderBy_le h hk _
  | sector =>
    dsimp only [readKeyword]
    split
    · next t more hmore =>
      split
      · next ht _ => exact readComparison_le h (h.lt hk hmore (by rw [ht]; exact Content.noConfusion)) _ _
      · exact hk
    · exact hk

/-! ## Everything -/

/-- **A reading pauses** at a comma before an order. -/
theorem used_le (h : PausesAt k (t :: ts)) (hk : 0 < k) : (read c t ts).used ≤ k := by
  unfold read
  dsimp only
  split
  · exact hk
  · exact hk
  · exact hk
  · exact hk
  · exact readKeyword_le h hk _
  · exact hk
  · have hnext : PausesAt (k - 1) ts := h.drop hk
    show strayComparison ts ≤ k
    unfold strayComparison
    split
    · next u more =>
      split
      · next hu => have := hnext.pos (by rw [hu]; exact Content.noConfusion); omega
      · next hu => have := hnext.pos (by rw [hu]; exact Content.noConfusion); omega
      · exact hk
    · exact hk
  · split
    · exact hk
    · exact hk
  · exact readWord_le h hk t

/-! ## Numbers that stop the reading -/

/-- A comparison is stopped by a number in front of the comma. -/
theorem readFilter_breakdown_before (h : PausesAt k ts) {op : Operator} {e : ClauseError} {b : CoercionError}
    (he : readFilter f op ts = .error e) (hb : e.breakdown? = some b) : HasImmense (ts.take k) := by
  obtain ⟨m, hm, t, more, hmore, himmense⟩ := readFilter_breakdown he hb
  have hle : m ≤ k := by
    rcases hm with rfl | ⟨v, n, hv, rfl⟩
    · exact Nat.zero_le k
    · have hn := readValue_le h hv
      have hjoiner := joiner_le (h.drop hn)
      omega
  have ht : t.content ≠ .comma := by
    obtain ⟨u, hu, d, unit, currency, hcontent, -⟩ := himmense
    rw [List.mem_singleton.1 hu] at hcontent
    rw [hcontent]
    exact Content.noConfusion
  refine himmense.of_head (List.mem_of_getElem? (i := m) ?_)
  rw [List.getElem?_take_of_lt (h.lt hle hmore ht), ← List.head?_drop, hmore]
  rfl

/-- **Reading stops** only at a number in front of the comma where no comparison comes behind it. -/
theorem read_workable_before {pre rest : List Token} {comma sort : Token} (hcomma : comma.content = .comma)
    (hsort : sort.content = .keyword .sort) (hno : ¬ HasImmense pre)
    (hrest : ∀ u ∈ sort :: rest, ∀ op, u.content ≠ .compare op) (hts : t :: ts <:+ pre ++ comma :: sort :: rest) :
    ∀ cl ∈ (read c t ts).clauses, cl.Workable := by
  refine Shared.read (shared_workable ?_) hts
  rintro f n op ts hs ⟨u, more, hmore, hu⟩ e he
  refine Option.eq_none_iff_forall_ne_some.2 fun b hb => ?_
  have hbehind : u ∉ comma :: sort :: rest := by
    rw [List.mem_cons, not_or]
    exact ⟨fun heq => by simp [heq, hcomma] at hu, fun hmem => hrest u hmem op hu⟩
  obtain ⟨front, hfront⟩ := (hmore ▸ List.drop_suffix n ts).trans hs
  rcases List.append_eq_append_iff.1 hfront with ⟨xs, rfl, hxs⟩ | ⟨xs, -, hxs⟩
  · cases xs with
    | nil => exact hbehind (by rw [← List.nil_append (comma :: _), ← hxs]; exact List.mem_cons_self)
    | cons x xs =>
      obtain ⟨rfl, rfl⟩ := List.cons.inj hxs
      have hpauses : PausesAt xs.length (xs ++ comma :: sort :: rest) :=
        ⟨comma, sort, rest, List.drop_left, hcomma, hsort⟩
      rw [← List.drop_drop, hmore, List.drop_succ_cons, List.drop_zero] at he
      have himmense := readFilter_breakdown_before hpauses he hb
      rw [List.take_left] at himmense
      exact hno (himmense.of_subset fun v hv => List.mem_append_right _ (List.mem_cons_of_mem _ hv))
  · exact hbehind (by rw [hxs]; exact List.mem_append_right _ List.mem_cons_self)

end Clause
end EquityScreen
