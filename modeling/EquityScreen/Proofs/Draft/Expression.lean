/-
What is noted down from the tokens of an expression.

Each item of an expression takes one reading, and the items are noted in their order
(`gather_written`). Only a clause on a sector at the very start, with nothing before it that it could
be joined to, is noted apart from the rest (`gather_written_start`).
-/
import EquityScreen.Draft
import EquityScreen.Proofs.Clause.Writing
import EquityScreen.Proofs.Grouping.Formula

namespace EquityScreen

/-- The tokens write the expression, its filters being written as `W` says. -/
inductive Formula.Written (W : List Token → Predicate → Prop) : Formula → List Token → Prop
  | filter {p ts} : W ts p → Written W (.filter p) ts
  | sector {name ts} : Clause.WritesSector ts name → Written W (.sector name) ts
  | group {f first ts last} : first.content = .openParen → Written W f ts → last.content = .closeParen →
    Written W (.group f) (first :: (ts ++ [last]))
  | and {l r ls t rs} : Written W l ls → t.content = .keyword .and → Written W r rs →
    Written W (.and l r) (ls ++ t :: rs)
  | or {l r ls t rs} : Written W l ls → t.content = .keyword .or → Written W r rs →
    Written W (.or l r) (ls ++ t :: rs)

namespace Draft

variable {c : Catalog} {d : Draft} {t : Token} {ts rest : List Token} {f : Formula}

/-- The draft with more items and clauses. -/
def extended (d : Draft) (items : List Item) (clauses : Nat) : Draft :=
  { d with items := d.items ++ items, clauseCount := d.clauseCount + clauses }

theorem extended_extended (d : Draft) (is js : List Item) (m n : Nat) :
    (d.extended is m).extended js n = d.extended (is ++ js) (m + n) := by
  simp [extended, Nat.add_assoc]

theorem joins_extended_snoc (d : Draft) (is : List Item) (i : Item) (n : Nat) :
    (d.extended (is ++ [i]) n).joins = ({ items := [i] } : Draft).joins := by
  simp [joins, extended, ← List.append_assoc]

/-- The token writes the connective or the parenthesis. -/
def Marks (t : Token) : Item → Prop
  | .filter _ => False
  | .and => t.content = .keyword .and
  | .or => t.content = .keyword .or
  | .opening => t.content = .openParen
  | .closing => t.content = .closeParen

theorem read_mark {i : Item} (h : Marks t i) (ts : List Token) : Clause.read c t ts = ⟨[.mark i], 1⟩ := by
  cases i <;> first | exact absurd h id | simp [Clause.read, Clause.readKeyword, show t.content = _ from h]

theorem Marks.ends {i : Item} (h : Marks t i) (hi : i ≠ .opening) (ts : List Token) : Clause.Ends (t :: ts) := by
  cases i with
  | filter p => exact absurd h id
  | and => exact .inl h
  | or => exact .inr (.inl h)
  | opening => exact absurd rfl hi
  | closing => exact .inr (.inr (.inl h))

/-- Reading goes on behind what was read. -/
theorem gather_read {clauses : List Clause} {more : List Token} {fuel : Nat} (hts : ts = t :: more)
    (h : Clause.read c t (more ++ rest) = ⟨clauses, ts.length⟩) :
    gather c (fuel + 1) (ts ++ rest) d = gather c fuel rest (clauses.foldl add d) := by
  subst hts
  rw [List.cons_append, gather, h]
  dsimp only
  rw [← List.cons_append, List.drop_left]

/-- A mark is noted. -/
theorem gather_mark {i : Item} (h : Marks t i) (fuel : Nat) (d : Draft) (rest : List Token) :
    gather c (fuel + 1) (t :: rest) d = gather c fuel rest (d.extended [i] 0) := by
  rw [gather, read_mark h]
  rfl

/-- The tokens are noted as these items and clauses, behind something that they are joined to and before something that
ends a clause. -/
def Notes (c : Catalog) (P : Token → Prop) (ts : List Token) (items : List Item) (clauses : Nat) : Prop :=
  ∀ ⦃d : Draft⦄ ⦃rest : List Token⦄, d.joins = true → Clause.Ends rest → (∀ t ∈ rest.head?, P t) → ∀ fuel,
    gather c (items.length + fuel) (ts ++ rest) d = gather c fuel rest (d.extended items clauses)

section

variable {P : Token → Prop} {ls rs : List Token} {is js : List Item} {i : Item} {m n : Nat}

/-- Whatever stands before a connective or an opening parenthesis, what comes behind is joined to it. -/
theorem Notes.behind (hmark : Marks t i) (hi : ({ items := [i] } : Draft).joins = true) (h : Notes c P ts is n)
    (hrest : Clause.Ends rest) (hhead : ∀ t ∈ rest.head?, P t) (fuel : Nat) (d : Draft) :
    gather c (is.length + fuel + 1) (t :: (ts ++ rest)) d = gather c fuel rest (d.extended (i :: is) n) := by
  have hjoined : (d.extended [i] 0).joins = true := (joins_extended_snoc d [] i 0).trans hi
  rw [gather_mark hmark, h hjoined hrest hhead, extended_extended, Nat.zero_add]
  rfl

/-- Two rows with a connective between them. -/
theorem Notes.joined (hl : Notes c P ls is m) (hmark : Marks t i) (hi : i = .and ∨ i = .or) (ht : P t)
    (hr : Notes c P rs js n) : Notes c P (ls ++ t :: rs) (is ++ i :: js) (m + n) := by
  intro d rest hd hrest hhead fuel
  have hfuel : (is ++ i :: js).length + fuel = is.length + (js.length + fuel + 1) := by
    simp only [List.length_cons, List.length_append]
    omega
  have hjoins : ({ items := [i] } : Draft).joins = true := by rcases hi with rfl | rfl <;> rfl
  have hends : Clause.Ends (t :: (rs ++ rest)) := hmark.ends (by rcases hi with rfl | rfl <;> simp) _
  rw [hfuel, List.append_assoc, List.cons_append, hl hd hends (by simpa using ht), hr.behind hmark hjoins hrest hhead,
    extended_extended]

/-- A row in parentheses is joined to nothing before it. -/
theorem Notes.enclosed {first last : Token} (hopen : Marks first .opening) (h : Notes c P ts is n)
    (hclose : Marks last .closing) (hlast : P last) (fuel : Nat) (d : Draft) :
    gather c ((Item.opening :: (is ++ [.closing])).length + fuel) (first :: (ts ++ [last]) ++ rest) d =
      gather c fuel rest (d.extended (.opening :: (is ++ [.closing])) n) := by
  have hfuel : (Item.opening :: (is ++ [.closing])).length + fuel = is.length + (fuel + 1) + 1 := by
    simp only [List.length_cons, List.length_append, List.length_nil]
    omega
  rw [hfuel, List.cons_append, List.append_assoc, List.singleton_append,
    h.behind hopen rfl (hclose.ends (by simp) _) (by simpa using hlast), gather_mark hclose, extended_extended]
  rfl

end

variable {W : List Token → Predicate → Prop} {P : Token → Prop}

/-- **The items of an expression** behind something that they are joined to. -/
theorem gather_written (hW : ∀ ts p, W ts p → Clause.Filters c P ts p) (h : f.Written W ts) (hts : ∀ t ∈ ts, P t) :
    Notes c P ts f.items f.clauses := by
  induction h with
  | filter hp =>
    intro d rest _ hrest hhead fuel
    obtain ⟨t, more, hts, hread⟩ := hW _ _ hp
    rw [Formula.items, List.length_singleton, Nat.add_comm, gather_read hts (hread rest hrest hhead)]
    rfl
  | sector hs =>
    intro d rest hd hrest _ fuel
    obtain ⟨t, more, hts, hread⟩ := hs.read
    rw [Formula.items, List.length_singleton, Nat.add_comm, gather_read hts (hread rest hrest), List.foldl_cons,
      add, addSectors, hd, Bool.true_or, if_pos rfl]
    rfl
  | group hfirst _ hlast ih =>
    simp only [List.forall_mem_cons, List.forall_mem_append] at hts
    exact fun _ _ _ _ _ fuel => (ih hts.2.1).enclosed hfirst hlast hts.2.2.1 fuel _
  | and _ ht _ ihl ihr =>
    simp only [List.forall_mem_cons, List.forall_mem_append] at hts
    exact (ihl hts.1).joined (i := .and) ht (.inl rfl) hts.2.1 (ihr hts.2.2)
  | or _ ht _ ihl ihr =>
    simp only [List.forall_mem_cons, List.forall_mem_append] at hts
    exact (ihl hts.1).joined (i := .or) ht (.inr rfl) hts.2.1 (ihr hts.2.2)

/-- The draft after an expression with nothing before it; `beforeOr` says that an "or" comes next. -/
def started (d : Draft) (f : Formula) (beforeOr : Bool) : Draft :=
  match f.lifted beforeOr with
  | none => d.extended f.items f.clauses
  | some name => { d.extended f.items.tail f.clauses with included := union d.included [name] }

theorem started_extended (d : Draft) {l : Formula} (f : Formula) {b : Bool} (b' : Bool) {is : List Item} {n : Nat}
    (hlifted : f.lifted b' = l.lifted b) (hitems : f.items = l.items ++ is) (hclauses : f.clauses = l.clauses + n) :
    (d.started l b).extended is n = d.started f b' := by
  unfold started
  rw [hlifted]
  cases hl : l.lifted b with
  | none => simp [extended_extended, hitems, hclauses]
  | some name =>
    have hne : l.items ≠ [] := by simp [Formula.items_of_lifted hl]
    simp [extended, hitems, hclauses, List.tail_append_of_ne_nil hne, Nat.add_assoc]

/-- The tokens are noted as an expression with nothing before it. -/
def Starts (c : Catalog) (P : Token → Prop) (d : Draft) (ts : List Token) (f : Formula) : Prop :=
  ∀ ⦃rest : List Token⦄, Clause.Ends rest → (∀ t ∈ rest.head?, P t) → ∀ fuel,
    gather c (f.items.length + fuel) (ts ++ rest) d = gather c fuel rest (d.started f (Clause.nextIs .or rest))

/-- A row that a connective joins to the operand `l` of an expression, where the clause at the very front is lifted
from the expression exactly if it is from its operand with the connective behind it. -/
theorem Starts.joined {P : Token → Prop} {l : Formula} {ls rs : List Token} {is : List Item} {i : Item} {n : Nat}
    (hl : Starts c P d ls l) (hmark : Marks t i) (hi : i = .and ∨ i = .or) (ht : P t) (hr : Notes c P rs is n)
    (hlifted : ∀ b, f.lifted b = l.lifted (t.isKeyword .or)) (hitems : f.items = l.items ++ i :: is)
    (hclauses : f.clauses = l.clauses + n) : Starts c P d (ls ++ t :: rs) f := by
  intro rest hrest hhead fuel
  have hfuel : f.items.length + fuel = l.items.length + (is.length + fuel + 1) := by
    simp only [hitems, List.length_append, List.length_cons]
    omega
  have hjoins : ({ items := [i] } : Draft).joins = true := by rcases hi with rfl | rfl <;> rfl
  have hends : Clause.Ends (t :: (rs ++ rest)) := hmark.ends (by rcases hi with rfl | rfl <;> simp) _
  rw [hfuel, List.append_assoc, List.cons_append, hl hends (by simpa using ht), hr.behind hmark hjoins hrest hhead]
  exact congrArg (gather c fuel rest) (started_extended d f _ (hlifted _) hitems hclauses)

/-- **The items of an expression** with nothing before it. -/
theorem gather_written_start (hW : ∀ ts p, W ts p → Clause.Filters c P ts p) (h : f.Written W ts) (hts : ∀ t ∈ ts, P t)
    (hd : d.joins = false) : Starts c P d ts f := by
  induction h with
  | filter hp =>
    intro rest hrest hhead fuel
    obtain ⟨t, more, hts, hread⟩ := hW _ _ hp
    rw [Formula.items, List.length_singleton, Nat.add_comm, gather_read hts (hread rest hrest hhead)]
    rfl
  | @sector name ts hs =>
    intro rest hrest _ fuel
    obtain ⟨t, more, hts, hread⟩ := hs.read
    rw [Formula.items, List.length_singleton, Nat.add_comm, gather_read hts (hread rest hrest), List.foldl_cons,
      add, addSectors, hd, Bool.false_or, started, Formula.lifted]
    cases Clause.nextIs .or rest <;> simp [extended, Formula.items, Formula.clauses, counted, addFilter]
  | group hfirst hf hlast _ =>
    simp only [List.forall_mem_cons, List.forall_mem_append] at hts
    exact fun _ _ _ fuel => (gather_written hW hf hts.2.1).enclosed hfirst hlast hts.2.2.1 fuel d
  | and _ ht hr ihl _ =>
    simp only [List.forall_mem_cons, List.forall_mem_append] at hts
    exact (ihl hts.1).joined (i := .and) ht (.inl rfl) hts.2.1 (gather_written hW hr hts.2.2)
      (fun _ => by rw [Token.isKeyword, ht]; rfl) rfl rfl
  | or _ ht hr ihl _ =>
    simp only [List.forall_mem_cons, List.forall_mem_append] at hts
    exact (ihl hts.1).joined (i := .or) ht (.inr rfl) hts.2.1 (gather_written hW hr hts.2.2)
      (fun _ => by rw [Token.isKeyword, ht]; rfl) rfl rfl

end Draft
end EquityScreen
