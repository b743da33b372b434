/-
Contexts nest exactly.

A program opens contexts as blocks, binds pairs to the innermost one, raises exceptions and catches them; a block that
an exception flies through is left as well (`Program.trace`). However it runs, its steps nest (`Program.trace_nested`).

* `contexts_nest`: at every moment of a run either every block of the program has been left, or one is the innermost
  that is open. What log lines carry is then settled by this block alone: its ids, over them its own pairs, over these
  the pairs bound to it since, the later ones first. However it is left, all is as it was before it was entered.
-/
import EquityScreen.Proofs.Log.Pairs

namespace EquityScreen.Log

/-! ## Programs -/

/-- A context as it is entered: its ids, the id it is given when it has none for the query, and its own pairs. -/
structure Opening where
  session : String
  query : String
  fresh : String
  own : Pairs
  distinct : Pairs.Distinct own

/-- The ids of a context, an empty one left out. -/
def Opening.ids (o : Opening) : Pairs :=
  named "session_id" o.session ++ named "query_id" (if o.query = "" then o.fresh else o.query)

/-- How a block is left, and how a program ends. -/
inductive Exit where
  | normal
  | exception

/-- What a program does with contexts, up to where it ends. -/
inductive Program where
  | done
  /-- An exception is raised. -/
  | fail
  /-- Pairs are bound to the innermost context. -/
  | bind (pairs : Pairs) (next : Program)
  /-- A new context is entered, and left when its body ends. -/
  | block (o : Opening) (body next : Program)
  /-- An exception of the body is caught. -/
  | guard (body next : Program)

/-- A step of a run. -/
inductive Step where
  | enter (o : Opening)
  | bind (pairs : Pairs)
  | leave (how : Exit)

/-- The steps of a program, and how it ends. -/
def Program.trace : Program → List Step × Exit
  | .done => ([], .normal)
  | .fail => ([], .exception)
  | .bind pairs next => (.bind pairs :: next.trace.1, next.trace.2)
  | .block o body next =>
    match body.trace with
    | (steps, .normal) => (.enter o :: steps ++ .leave .normal :: next.trace.1, next.trace.2)
    -- What stands behind the block is not reached.
    | (steps, .exception) => (.enter o :: steps ++ [.leave .exception], .exception)
  | .guard body next => (body.trace.1 ++ next.trace.1, next.trace.2)

/-- What a step does: a block is left in one way, whatever the reason. -/
def Nesting.step (n : Nesting) : Step → Nesting
  | .enter o => n.enter o.fresh o.session o.query o.own
  | .bind pairs => n.bind pairs
  | .leave _ => n.leave

/-- What steps do, one after the other. -/
def Nesting.run (n : Nesting) (steps : List Step) : Nesting := steps.foldl Nesting.step n

/-- Steps that leave every block they enter, with the pairs bound outside of all these blocks. -/
inductive Nested : List Step → List Pairs → Prop
  | nil : Nested [] []
  | bind {pairs steps bound} : Nested steps bound → Nested (.bind pairs :: steps) (pairs :: bound)
  | block {o body inner how steps bound} : Nested body inner → Nested steps bound →
      Nested (.enter o :: body ++ .leave how :: steps) bound

/-- A moment at which a block is the innermost one open: the steps before it was entered, the block, and the pairs
bound to it since. -/
def Inside (moment before : List Step) (o : Opening) (bound : List Pairs) : Prop :=
  ∃ body, moment = before ++ .enter o :: body ∧ Nested body bound

/-! ## The steps of a program nest -/

theorem Nested.append {first second : List Step} {bound more : List Pairs} (h : Nested first bound)
    (hmore : Nested second more) : Nested (first ++ second) (bound ++ more) := by
  induction h with
  | nil => exact hmore
  | bind _ ih => exact .bind ih
  | block hbody _ _ ih => simpa using .block hbody ih

/-- **Every block is left** that a program enters, also when an exception ends it. -/
theorem Program.trace_nested (p : Program) : ∃ bound, Nested p.trace.1 bound := by
  induction p with
  | done | fail => exact ⟨[], .nil⟩
  | bind pairs next ih => exact ih.imp' (pairs :: ·) fun _ h => .bind h
  | block o body next ihbody ihnext =>
    obtain ⟨inner, hbody⟩ := ihbody
    obtain ⟨bound, hnext⟩ := ihnext
    unfold trace
    split
    · next steps heq => exact ⟨bound, .block (heq ▸ hbody) hnext⟩
    · next steps heq => exact ⟨[], .block (heq ▸ hbody) .nil⟩
  | guard body next ihbody ihnext =>
    obtain ⟨inner, hbody⟩ := ihbody
    obtain ⟨bound, hnext⟩ := ihnext
    exact ⟨inner ++ bound, hbody.append hnext⟩

/-- Nested steps that have come to some point are nested up to there, or within a block that is the innermost open. -/
theorem Nested.moment {steps moment : List Step} {bound : List Pairs} (h : Nested steps bound)
    (hmoment : moment <+: steps) :
    (∃ sofar, Nested moment sofar) ∨ ∃ before o sofar, Inside moment before o sofar := by
  induction h generalizing moment with
  | nil => exact .inl ⟨[], List.prefix_nil.1 hmoment ▸ .nil⟩
  | @bind pairs steps bound _ ih =>
    obtain rfl | ⟨rest, rfl, hrest⟩ := List.prefix_cons_iff.1 hmoment
    · exact .inl ⟨[], .nil⟩
    · obtain ⟨sofar, h⟩ | ⟨before, o, sofar, body, rfl, h⟩ := ih hrest
      · exact .inl ⟨_, .bind h⟩
      · exact .inr ⟨.bind pairs :: before, o, sofar, body, rfl, h⟩
  | @block o body inner how steps bound hbody _ ihbody ihsteps =>
    obtain rfl | ⟨rest, rfl, hrest⟩ := List.prefix_cons_iff.1 hmoment
    · exact .inl ⟨[], .nil⟩
    -- Either the block is still open, or it has been left and the moment lies behind it.
    · obtain hopen | ⟨tail, rfl⟩ := List.prefix_or_prefix_of_prefix hrest (List.prefix_append body _)
      · obtain ⟨sofar, h⟩ | ⟨before, o', sofar, body', rfl, h⟩ := ihbody hopen
        · exact .inr ⟨[], o, sofar, rest, rfl, h⟩
        · exact .inr ⟨.enter o :: before, o', sofar, body', rfl, h⟩
      · obtain rfl | ⟨behind, rfl, hbehind⟩ :=
          List.prefix_cons_iff.1 ((List.prefix_append_right_inj body).1 hrest)
        · exact .inr ⟨[], o, inner, body, by rw [List.append_nil]; rfl, hbody⟩
        · obtain ⟨sofar, h⟩ | ⟨before, o', sofar, body', rfl, h⟩ := ihsteps hbehind
          · exact .inl ⟨sofar, .block hbody h⟩
          · exact .inr ⟨.enter o :: body ++ .leave how :: before, o', sofar, body', by simp, h⟩

/-- A block that nested steps enter is left, and what stands between nests. -/
theorem Nested.left {steps before rest : List Step} {bound : List Pairs} {o : Opening} (h : Nested steps bound)
    (heq : steps = before ++ .enter o :: rest) :
    ∃ body inner how behind, rest = body ++ .leave how :: behind ∧ Nested body inner := by
  induction h generalizing before rest with
  | nil => simp at heq
  | bind _ ih =>
    obtain ⟨_, hcons⟩ | ⟨before', rfl, hrest⟩ := List.cons_eq_append_iff.1 heq
    · exact absurd hcons (by simp)
    · exact ih hrest
  | @block _ body inner how steps _ hbody _ ihbody ihsteps =>
    obtain ⟨_, hcons⟩ | ⟨before', rfl, hrest⟩ := List.cons_eq_append_iff.1 heq
    · obtain ⟨-, rfl⟩ := List.cons.inj hcons
      exact ⟨body, inner, how, steps, rfl, hbody⟩
    -- The block is entered within the body of the first one, or behind it.
    · obtain ⟨more, rfl, hmore⟩ | ⟨more, rfl, hmore⟩ := List.append_eq_append_iff.1 hrest
      · obtain ⟨_, hcons⟩ | ⟨more', rfl, hsteps⟩ := List.cons_eq_append_iff.1 hmore
        · exact absurd hcons (by simp)
        · exact ihsteps hsteps
      · obtain ⟨_, hcons⟩ | ⟨more', rfl, hsteps⟩ := List.cons_eq_append_iff.1 hmore
        · exact absurd hcons (by simp)
        · obtain ⟨body', inner', how', behind, rfl, h⟩ := ihbody rfl
          exact ⟨body', inner', how', behind ++ .leave how :: steps, by simp [hsteps], h⟩

/-! ## What nested steps do -/

namespace Nesting

theorem run_append (n : Nesting) (first second : List Step) : n.run (first ++ second) = (n.run first).run second :=
  List.foldl_append

/-- Binding adds to what is in force, and no block takes note of another scope before it. -/
theorem bind_of_open {n : Nesting} (hopen : n.blocks ≠ []) (pairs : Pairs) :
    (n.bind pairs).scope = { n.scope with pairs := n.scope.pairs.putAll pairs } ∧
    (n.bind pairs).blocks.map (·.before) = n.blocks.map (·.before) := by
  obtain ⟨b, bs, hblocks⟩ := List.exists_cons_of_ne_nil hopen
  have hbind : n.bind pairs = n.bindAt b.number pairs := by rw [bind, hblocks]
  rw [hbind]
  refine ⟨rfl, ?_⟩
  dsimp only [bindAt]
  rw [List.map_map]
  refine List.map_congr_left fun b' _ => ?_
  dsimp only [Function.comp_apply]
  split <;> rfl

/-- Leaving goes back to the scope that the innermost block took note of. -/
theorem leave_of_before {n : Nesting} {scope : Scope} {scopes : List Scope}
    (h : n.blocks.map (·.before) = scope :: scopes) :
    n.leave.scope = scope ∧ n.leave.blocks.map (·.before) = scopes := by
  obtain ⟨b, bs, hblocks, hb, hbs⟩ := List.map_eq_cons_iff.1 h
  rw [leave, hblocks]
  exact ⟨hb, hbs⟩

/-- **Nested steps within a block** add what is bound outside of all their blocks, and leave the open blocks open. -/
theorem run_nested {n : Nesting} {steps : List Step} {bound : List Pairs} (h : Nested steps bound)
    (hopen : n.blocks ≠ []) :
    (n.run steps).scope = { n.scope with pairs := n.scope.pairs.putAll bound.flatten } ∧
    (n.run steps).blocks.map (·.before) = n.blocks.map (·.before) := by
  induction h generalizing n with
  | nil => exact ⟨rfl, rfl⟩
  | @bind pairs steps bound _ ih =>
    obtain ⟨hscope, hblocks⟩ := bind_of_open hopen pairs
    obtain ⟨hscope', hblocks'⟩ := @ih (n.bind pairs) fun h =>
      hopen (by rwa [h, List.map_nil, eq_comm, List.map_eq_nil_iff] at hblocks)
    refine ⟨?_, hblocks'.trans hblocks⟩
    rw [show n.run (.bind pairs :: steps) = (n.bind pairs).run steps from rfl, hscope', hscope, List.flatten_cons,
      ← Pairs.putAll_putAll]
  | @block o body inner how steps bound _ _ ihbody ihsteps =>
    obtain ⟨-, hblocks⟩ := @ihbody (n.step (.enter o)) (List.cons_ne_nil _ _)
    obtain ⟨hscope', hblocks'⟩ := leave_of_before hblocks
    obtain ⟨hscope'', hblocks''⟩ := @ihsteps (((n.step (.enter o)).run body).leave) fun h =>
      hopen (by rwa [h, List.map_nil, eq_comm, List.map_eq_nil_iff] at hblocks')
    rw [show n.run (.enter o :: body ++ .leave how :: steps) = (((n.step (.enter o)).run body).leave).run steps from
      List.foldl_append, hscope'', hscope', hblocks'', hblocks']
    exact ⟨rfl, rfl⟩

/-- Within a block that is the innermost open: its ids are in force, and its own pairs with those bound to it since. -/
theorem run_inside {moment before : List Step} {o : Opening} {bound : List Pairs} (n : Nesting)
    (h : Inside moment before o bound) :
    (n.run moment).scope =
      ⟨o.session, if o.query = "" then o.fresh else o.query, Pairs.putAll o.own bound.flatten⟩ ∧
    ∀ how, (n.run (moment ++ [.leave how])).scope = (n.run before).scope := by
  obtain ⟨body, rfl, hbody⟩ := h
  obtain ⟨hscope, hblocks⟩ := run_nested (n := (n.run before).step (.enter o)) hbody (List.cons_ne_nil _ _)
  have hmoment : n.run (before ++ .enter o :: body) = ((n.run before).step (.enter o)).run body := run_append n before _
  refine ⟨hmoment ▸ hscope, fun how => ?_⟩
  rw [run_append, hmoment]
  exact (leave_of_before hblocks).1

end Nesting

/-! ## What log lines carry -/

/-- **Contexts nest exactly.** At every moment of a run every block of the program has been left, or one is the
innermost that is open. While it is, a name has the value bound to it last, else its own one, else it is one of the ids
of the block: nothing comes from the blocks around. And every block entered is left in the end, after which all is as it
was before it was entered. -/
theorem contexts_nest (p : Program) (n : Nesting) :
    (∀ moment, moment <+: p.trace.1 →
      (∃ bound, Nested moment bound) ∨ ∃ before o bound, Inside moment before o bound) ∧
    (∀ moment before o bound, Inside moment before o bound →
      Pairs.Distinct (n.run moment).scope.bound ∧
      ∀ key, Pairs.value? (n.run moment).scope.bound key =
        ((Pairs.last? bound.flatten key).or (Pairs.value? o.own key)).or (Pairs.value? o.ids key)) ∧
    ∀ before o rest, p.trace.1 = before ++ .enter o :: rest →
      ∃ body how behind, rest = body ++ .leave how :: behind ∧ (∃ bound, Nested body bound) ∧
        (n.run (before ++ .enter o :: body ++ [.leave how])).scope = (n.run before).scope := by
  obtain ⟨bound, hnested⟩ := p.trace_nested
  refine ⟨fun moment => hnested.moment, fun moment before o bound h => ?_, fun before o rest h => ?_⟩
  · refine ⟨Scope.bound_distinct _, fun key => ?_⟩
    have hown : Pairs.Distinct (Pairs.putAll o.own bound.flatten) := Pairs.Distinct.putAll o.distinct _
    rw [(Nesting.run_inside n h).1, Scope.bound, Pairs.value?_putAll, hown.last?_eq, Pairs.value?_putAll]
    rfl
  · obtain ⟨body, inner, how, behind, rfl, hbody⟩ := hnested.left h
    refine ⟨body, how, behind, rfl, ⟨inner, hbody⟩, ?_⟩
    exact (Nesting.run_inside n ⟨body, rfl, hbody⟩).2 how

/-- An inner block that fails hides what is bound around it, and no longer. -/
example :
    let inner : Opening := ⟨"s-2", "q-2", "", [("step", .text "parse")], List.nodup_singleton _⟩
    let outer : Opening := ⟨"", "", "q-1", [], List.nodup_nil⟩
    let run : Program := .block outer (.bind [("user", .text "ann")]
      (.guard (.block inner (.bind [("step", .text "run")] .fail) .done) .done)) .done
    let bound (k : Nat) := (({} : Nesting).run (run.trace.1.take k)).scope.bound
    bound 2 = [("query_id", .text "q-1"), ("user", .text "ann")] ∧
    bound 4 = [("session_id", .text "s-2"), ("query_id", .text "q-2"), ("step", .text "run")] ∧
    bound 5 = bound 2 ∧ bound 6 = [] := by
  exact ⟨rfl, rfl, rfl, rfl⟩

end EquityScreen.Log
