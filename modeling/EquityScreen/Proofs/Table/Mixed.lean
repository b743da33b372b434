/-
Screening what was read from a table.

Cells keep their kind, so a column of figures may hold texts and a column of texts figures. What can go wrong in a
run then goes back to the cells of the table (`screen_securities`); where they are of the kinds of their attributes,
nothing can (`securities_typed`).
-/
import EquityScreen.Proofs.Screening.Failure
import EquityScreen.Proofs.Table.Reading

namespace EquityScreen

variable {c : Catalog} {rows : List Security}

theorem Attribute.held_number_iff {a : Attribute} {cell : Option Value} {n : Number} :
    a.held cell = some (.number n) ↔ cell = some (.number n) ∧ n.isNaN = false := by
  unfold held
  split
  · next hmissing =>
    refine iff_of_false ?_ fun ⟨hcell, hn⟩ => ?_
    · unfold Security.defaultCell
      split <;> simp
    · rw [hcell] at hmissing
      exact absurd (hn.symm.trans hmissing) Bool.false_ne_true
  · next hmissing =>
    refine ⟨fun hcell => ⟨hcell, ?_⟩, fun h => h.1⟩
    rw [hcell, Bool.not_eq_true] at hmissing
    exact hmissing

theorem Attribute.held_text (a : Attribute) (u : String) : a.held (some (.text u)) = some (.text u) := rfl

namespace Table

variable {t : Table} {p : Plan}

/-- Every cell is empty or holds a value of the kind of the attribute that its column stands for; symbols may be
of either kind. -/
def Typed (c : Catalog) (t : Table) : Prop :=
  ∀ col ∈ t.columns, ∀ a, attribute? c col.name = some a → a ≠ .symbol → ∀ v, some v ∈ col.cells → match v with
    | .text _ => a.isText = true
    | .number _ => a.isText = false

/-- In a row the filter comes to the sector, and its cell is a number other than zero. -/
def Baffles (c : Catalog) (t : Table) (p : Predicate) (i : Nat) (s : Security) : Prop :=
  (∃ n, t.cellFor c .sector i = some (.number n) ∧ n.isNaN = false ∧ n.same (.int 0) = false) ∧ p.AsksSector c s

/-- What is read from a table with cells of the kinds of their attributes has such cells. -/
theorem securities_typed (h : t.securities c = .ok rows) (ht : t.Typed c) : ∀ s ∈ rows, s.Typed := by
  intro s hs a v hv
  by_cases ha : a = .symbol
  · obtain ⟨name, hname⟩ := exists_symbol h s hs
    rw [ha] at hv ⊢
    rw [hname] at hv
    obtain rfl := Option.some.inj hv
    rfl
  · obtain ⟨i, hi, rfl⟩ := List.mem_iff_getElem.1 hs
    rw [(securities_rows h).2 i hi a ha, Attribute.held] at hv
    split at hv
    · unfold Security.defaultCell at hv
      split at hv
      · next htext =>
        obtain rfl := Option.some.inj hv
        exact htext
      · exact absurd hv nofun
    · obtain ⟨col, hsource, hcell⟩ := Option.bind_eq_some_iff.1 hv
      obtain ⟨hcol, hattr⟩ := Column.attribute?_of_source hsource
      obtain ⟨cell, hmem, rfl⟩ : ∃ cell, col.cells[i]? = some cell ∧ cell = some v := by
        unfold Column.cellIn at hcell
        cases hget : col.cells[i]? with
        | none => rw [hget] at hcell; exact absurd hcell nofun
        | some cell => rw [hget] at hcell; exact ⟨cell, rfl, hcell⟩
      exact ht col hcol a hattr ha v (List.mem_of_getElem? hmem)

theorem baffled_iff (h : t.securities c = .ok rows) (p : Predicate) {i : Nat} (hi : i < rows.length) :
    p.Baffled c rows[i] ↔ t.Baffles c p i rows[i] := by
  unfold Predicate.Baffled Baffles
  rw [(securities_rows h).2 i hi .sector (by decide)]
  simp only [Attribute.held_number_iff, and_assoc]

/-- **Screening what was read from a table.** A plan that fits the catalog is run, unless the filter comes to a
sector that is a number other than zero, or else the matches have texts and numbers in the field of the order; so it
always is when the cells are of the kinds of their attributes. Texts in a column of figures are read as texts, and a
text satisfies no comparison of a field of figures with a number but `!=`, and this one always. -/
theorem screen_securities (h : t.securities c = .ok rows) (hp : p.check c = .ok ()) (maxResults : Int) :
    (∀ e, screen c maxResults rows p = .error e ↔
        (e = .sectorNotText ∧ ∃ i : Fin rows.length, t.Baffles c p.predicate i rows[i]) ∨
          (¬ ∃ i : Fin rows.length, t.Baffles c p.predicate i rows[i]) ∧
            ∃ o f, p.sort = some o ∧ c.field? o.field = some f ∧ e = .mixedOrder f.key ∧
              (∃ s ∈ p.predicate.found c rows, ∃ u, f.read s = some (.text u)) ∧
              ∃ s ∈ p.predicate.found c rows, ∃ n, f.read s = some (.number n) ∧ n.isNaN = false) ∧
      (t.Typed c → ∃ result, screen c maxResults rows p = .ok result) ∧
      ∀ key f, c.field? key = some f → f.kind.isNumeric = true → ∀ i : Fin rows.length,
        (∀ u, t.cellFor c f.attr i = some (.text u) → ∃ u', f.read rows[i] = some (.text u')) ∧
          ∀ op n u, f.read rows[i] = some (.text u) →
            ((Comparison.mk key op (.number n)).holds c rows[i] = .ok true ↔ op = .ne) := by
  have hbaffled : (∃ s ∈ rows, p.predicate.Baffled c s) ↔
      ∃ i : Fin rows.length, t.Baffles c p.predicate i rows[i] := by
    constructor
    · rintro ⟨s, hs, hbaffled⟩
      obtain ⟨i, hi, rfl⟩ := List.mem_iff_getElem.1 hs
      exact ⟨⟨i, hi⟩, (baffled_iff h _ hi).1 hbaffled⟩
    · rintro ⟨i, hbaffles⟩
      exact ⟨rows[i], List.getElem_mem i.2, (baffled_iff h _ i.2).2 hbaffles⟩
  refine ⟨fun e => ?_, fun ht => ?_, fun key f hf hkind i => ⟨fun u hcell => ?_, fun op n u => ?_⟩⟩
  · simp only [screen_error_iff hp, hbaffled, mixed_present_iff]
  · obtain ⟨result, hresult, -⟩ := screen_of_check hp (securities_typed h ht) maxResults
    exact ⟨result, hresult⟩
  · by_cases ha : f.attr = .symbol
    · rw [Field.read, ha]
      exact exists_symbol h _ (List.getElem_mem i.2)
    · exact ⟨u, by rw [Field.read, Fin.getElem_fin, (securities_rows h).2 i i.2 _ ha, hcell, Attribute.held_text]⟩
  · exact Comparison.holds_of_text hf fun htext => by rw [htext] at hkind; exact absurd hkind (by decide)

/-- Prices to earnings of which one is a text. -/
def partlyPriced : Table where
  columns := [⟨"symbol", [some (.text "A"), some (.text "B")]⟩,
    ⟨"pe", [some (.number (.int 10)), some (.text "n/a")]⟩]

theorem cellFor_partlyPriced (i : Nat) :
    partlyPriced.cellFor Catalog.builtin .pe i = partlyPriced.columns[1].cellIn i := by
  have hsymbol : attribute? Catalog.builtin "symbol" = some .symbol := attribute?_column _ .symbol
  have hsource : Column.source Catalog.builtin .pe partlyPriced.columns = some partlyPriced.columns[1] :=
    Column.source_eq_first (l := [partlyPriced.columns[0]]) (r := []) (by simp [partlyPriced, hsymbol])
      (attribute?_column _ .pe) nofun
  rw [cellFor, hsource, Option.bind_some]

theorem securities_partlyPriced :
    ∃ a b, partlyPriced.securities Catalog.builtin = .ok [a, b] ∧
      a.cell .pe = some (.number (.int 10)) ∧ b.cell .pe = some (.text "n/a") := by
  obtain ⟨rows, hrows⟩ := exists_securities (t := partlyPriced) List.mem_cons_self
    (attribute?_column Catalog.builtin .symbol)
  obtain ⟨hlength, hread⟩ := securities_rows hrows
  match rows, hlength with
  | [a, b], _ =>
    refine ⟨a, b, hrows, ?_, ?_⟩
    · have hfirst := hread 0 Nat.two_pos .pe (by decide)
      rwa [cellFor_partlyPriced] at hfirst
    · have hsecond := hread 1 Nat.one_lt_two .pe (by decide)
      rwa [cellFor_partlyPriced] at hsecond

/-- A number and a text cannot be put in order; the text is not under 15, and yet it is not 15. -/
theorem screen_securities_partlyPriced :
    ∃ rows, partlyPriced.securities Catalog.builtin = .ok rows ∧ ∃ hrows : rows.length = 2,
      screen Catalog.builtin 500 rows { sort := some ⟨"pe", .descending⟩ } = .error (.mixedOrder "pe") ∧
        (Comparison.mk "pe" .lt (.number (.int 15))).holds Catalog.builtin rows[1] ≠ .ok true ∧
        (Comparison.mk "pe" .ne (.number (.int 15))).holds Catalog.builtin rows[1] = .ok true := by
  obtain ⟨a, b, hrows, ha, hb⟩ := securities_partlyPriced
  obtain ⟨f, hf, hattr, hkind⟩ := Catalog.exists_field_pe
  have hcheck : ({ sort := some ⟨"pe", .descending⟩ } : Plan).check Catalog.builtin = .ok () :=
    Except.toOption_eq_some.1 (by decide +kernel)
  obtain ⟨herror, -, htext⟩ := screen_securities hrows hcheck 500
  have hnumber := fun op => (htext "pe" f hf hkind ⟨1, Nat.one_lt_two⟩).2 op (.int 15) "n/a"
    (by rw [Field.read, hattr]; exact hb)
  refine ⟨[a, b], hrows, rfl, (herror _).2 (.inr ⟨?_, ?_⟩), ?_, (hnumber .ne).2 rfl⟩
  · exact fun ⟨_, _, hasks⟩ => hasks
  · rw [Predicate.found_all]
    exact ⟨_, f, rfl, hf, by rw [Catalog.key_of_field? hf], ⟨b, by simp, "n/a", by rw [Field.read, hattr, hb]⟩,
      a, by simp, .int 10, by rw [Field.read, hattr, ha], rfl⟩
  · exact fun h => absurd ((hnumber .lt).1 h) nofun

/-- Texts among the figures of a column: a run fails, and a comparison with a number holds of a text. -/
theorem not_forall_screen_securities :
    (¬ ∀ (t : Table) (rows : List Security) (p : Plan), t.securities Catalog.builtin = .ok rows →
      p.check Catalog.builtin = .ok () → ∃ result, screen Catalog.builtin 500 rows p = .ok result) ∧
    ¬ ∀ (t : Table) (rows : List Security), t.securities Catalog.builtin = .ok rows →
      ∀ key f, Catalog.builtin.field? key = some f → f.kind.isNumeric = true → ∀ op n, ∀ s ∈ rows, ∀ u,
        f.read s = some (.text u) → (Comparison.mk key op (.number n)).holds Catalog.builtin s ≠ .ok true := by
  obtain ⟨a, b, hrows, ha, hb⟩ := securities_partlyPriced
  obtain ⟨f, hf, hattr, hkind⟩ := Catalog.exists_field_pe
  have hnumber : f.read a = some (.number (.int 10)) := by rw [Field.read, hattr, ha]
  have htext : f.read b = some (.text "n/a") := by rw [Field.read, hattr, hb]
  refine ⟨fun hall => ?_, fun hall => ?_⟩
  · let p : Plan := { sort := some ⟨"pe", .descending⟩ }
    have hcheck : p.check Catalog.builtin = .ok () := Except.toOption_eq_some.1 (by decide +kernel)
    have hmixed : mixed f ((p.predicate.found Catalog.builtin [a, b]).filter fun s => !isMissing (f.read s)) = true := by
      rw [Predicate.found_all]
      exact mixed_present_iff.2 ⟨⟨b, by simp, _, htext⟩, a, by simp, _, hnumber, rfl⟩
    obtain ⟨result, hresult⟩ := hall partlyPriced [a, b] p hrows hcheck
    have herror : screen Catalog.builtin 500 [a, b] p = .error (.mixedOrder f.key) :=
      (screen_error_iff hcheck).2 (.inr ⟨fun ⟨_, _, _, hasks⟩ => hasks, _, f, rfl, hf, rfl, hmixed⟩)
    exact absurd (hresult.symm.trans herror) nofun
  · have hdiffers : (Comparison.mk "pe" .ne (.number (.int 15))).holds Catalog.builtin b = .ok true :=
      (Comparison.holds_of_text hf (fun h => by rw [h] at hkind; exact absurd hkind (by decide)) htext).2 rfl
    exact hall partlyPriced [a, b] hrows "pe" f hf hkind .ne (.int 15) b (by simp) _ htext hdiffers

end Table
end EquityScreen
