/-
What a structured entry says of a record.

An entry has what the record and the format say of themselves, then what is bound, then the exception and the figures of
the record; of several values of one name it keeps the last (`entry_eq`).

* `entry_values`: so the exception and the figures are always those of the record, every pair that is bound under another
  name is there, and each field of the record is its own unless the very name of the field is bound. The ids of a scope
  are never the reason.
* `not_forall_entry_fields`: a pair that is bound under the name of a field hides the field.
-/
import EquityScreen.Log.Entry
import EquityScreen.Proofs.Log.Pairs

namespace EquityScreen.Log

/-! ## The parts of an entry -/

namespace Record

/-- What a record carries besides its message: its exception and its figures. -/
def carried (r : Record) : Pairs := r.faultPairs ++ r.figurePairs

theorem map_fst_figurePairs (r : Record) :
    r.figurePairs.map (·.1) = figureNames.filter fun name => (r.figures.value? name).isSome := by
  unfold figurePairs
  induction figureNames with
  | nil => rfl
  | cons name names ih =>
    rw [List.filterMap_cons, List.filter_cons]
    cases r.figures.value? name with
    | none => exact ih
    | some d => exact congrArg (name :: ·) ih

/-- A record carries nothing under another name than these. -/
theorem map_fst_carried (r : Record) : (r.carried.map (·.1)).Sublist ("exception" :: figureNames) := by
  rw [carried, List.map_append, map_fst_figurePairs]
  have hfigures := List.filter_sublist (l := figureNames) (p := fun name => (r.figures.value? name).isSome)
  unfold faultPairs
  split
  · exact hfigures.cons _
  · exact hfigures.cons_cons _

theorem carried_distinct (r : Record) : Pairs.Distinct r.carried :=
  r.map_fst_carried.nodup (by decide)

end Record

namespace Structured

/-- What a format takes from a record with its message and from itself; the caller only where it is named. -/
def fields (f : Structured) (r : Record) (message : String) : Pairs :=
  [("level", .text r.level), ("logger", .text r.logger), ("message", .text message), ("service", .text f.service)] ++
    if f.caller then r.callerPairs else []

/-- The names of the fields, in order. -/
def fieldNames (f : Structured) : List String :=
  ["level", "logger", "message", "service"] ++ if f.caller then ["module", "function", "line"] else []

variable (f : Structured) (time : String) (s : Scope) (r : Record) {message : String}

theorem map_fst_fields : (f.fields r message).map (·.1) = f.fieldNames := by
  unfold fields fieldNames
  split <;> rfl

theorem fields_distinct : Pairs.Distinct (("timestamp", .text time) :: f.fields r message) := by
  rw [Pairs.Distinct, List.map_cons, map_fst_fields]
  change ("timestamp" :: f.fieldNames).Nodup
  unfold fieldNames
  split <;> decide

/-- An entry is the time and the fields, and put into them what is bound and what the record carries. -/
theorem entry_eq :
    f.entry time s r = r.message.map fun message =>
      Pairs.putAll (("timestamp", .text time) :: f.fields r message) (s.bound ++ r.carried) := by
  unfold entry fields
  refine congrArg (Except.map · r.message) (funext fun message => ?_)
  rw [Record.carried, ← Pairs.putAll_putAll, ← Pairs.putAll_putAll]
  split <;> rfl

/-- The names of fields are not those of ids, nor of anything that a record carries. -/
theorem fieldNames_fresh :
    ∀ name ∈ f.fieldNames, name ∉ "session_id" :: "query_id" :: "exception" :: Record.figureNames := by
  unfold fieldNames
  split <;> decide

/-- **A record with a message has an entry,** in which a name occurs once: what the record carries under it, else what is
bound, else the time or a field. -/
theorem entry_of_message (hmessage : r.message = .ok message) :
    ∃ entry, f.entry time s r = .ok entry ∧ Pairs.Distinct entry ∧ ∀ key,
      Pairs.value? entry key = ((r.carried.value? key).or (s.bound.value? key)).or
        (Pairs.value? (("timestamp", .text time) :: f.fields r message) key) := by
  refine ⟨_, by rw [entry_eq, hmessage]; rfl, (f.fields_distinct time r).putAll _, fun key => ?_⟩
  rw [Pairs.value?_putAll, Pairs.last?_append, r.carried_distinct.last?_eq, s.bound_distinct.last?_eq]

end Structured

/-! ## Entries -/

/-- **What an entry says of a record.** There is one exactly if the record has a message. A name occurs in it once.
Whatever is bound, the exception and the figures are those of the record, and what is bound is there under any other
name. A field of the record is its own, unless the pairs of the scope (and not its ids) bind the very name of it: then
the last of them stands in its place. -/
theorem Structured.entry_values (f : Structured) (time : String) (s : Scope) (r : Record) :
    (∀ e, r.message = .error e → f.entry time s r = .error e) ∧
    ∀ message, r.message = .ok message → ∃ entry, f.entry time s r = .ok entry ∧ Pairs.Distinct entry ∧
      (∀ name d, (name, d) ∈ r.carried → Pairs.value? entry name = some d) ∧
      (∀ name d, (name, d) ∈ s.bound → name ∉ r.carried.map (·.1) → Pairs.value? entry name = some d) ∧
      ∀ name d, (name, d) ∈ f.fields r message →
        Pairs.value? entry name = some ((Pairs.last? s.pairs name).getD d) := by
  refine ⟨fun e he => by rw [entry_eq, he]; rfl, fun message hmessage => ?_⟩
  obtain ⟨entry, hentry, hdistinct, hvalue⟩ := f.entry_of_message time s r hmessage
  refine ⟨entry, hentry, hdistinct, fun name d hd => ?carried, fun name d hd hname => ?bound, fun name d hd => ?fields⟩
  case carried => rw [hvalue, r.carried_distinct.value?_eq_some_iff.2 hd, Option.some_or, Option.some_or]
  case bound =>
    rw [hvalue, Pairs.value?_eq_none hname, s.bound_distinct.value?_eq_some_iff.2 hd, Option.none_or, Option.some_or]
  case fields =>
    have hname : name ∈ (f.fields r message).map (·.1) := List.mem_map_of_mem hd
    have hfresh := f.fieldNames_fresh name (map_fst_fields f r ▸ hname)
    simp only [List.mem_cons, not_or] at hfresh
    have hcarried : name ∉ r.carried.map (·.1) := fun h => by
      simpa [hfresh] using r.map_fst_carried.subset h
    rw [hvalue, Pairs.value?_eq_none hcarried, s.value?_bound hfresh.1 hfresh.2.1,
      (f.fields_distinct time r).value?_eq_some_iff.2 (.tail _ hd), Option.none_or]
    cases Pairs.last? s.pairs name <;> rfl

/-- A pair bound under the name of a field hides the field; one under the name of a figure does not. -/
theorem Structured.entry_values_gold_level :
    let r : Record := { level := "ERROR", logger := "screener", template := "no rows", path := "screener.py", line := 7,
                        figures := [("intent", .text "help")], fault := some ⟨"ValueError", "pe"⟩ }
    let s : Scope := ⟨"s-1", "q-1", [("level", .text "gold"), ("intent", .text "buy"), ("user", .text "ann")]⟩
    r.message = .ok "no rows" ∧ ∃ entry, Structured.entry {} "noon" s r = .ok entry ∧
      Pairs.value? entry "level" = some (.text "gold") ∧ Pairs.value? entry "logger" = some (.text "screener") ∧
      Pairs.value? entry "query_id" = some (.text "q-1") ∧ Pairs.value? entry "user" = some (.text "ann") ∧
      Pairs.value? entry "intent" = some (.text "help") ∧
      Pairs.value? entry "exception" = some (.record [("type", .text "ValueError"), ("message", .text "pe"),
        ("traceback", .text "ValueError: pe")]) := by
  intro r s
  obtain ⟨entry, hentry, -, hcarried, hbound, hfields⟩ := (entry_values {} "noon" s r).2 "no rows" rfl
  have hbinds : s.bound = [("session_id", .text "s-1"), ("query_id", .text "q-1"), ("level", .text "gold"),
      ("intent", .text "buy"), ("user", .text "ann")] := rfl
  have hcarries : r.carried.map (·.1) = ["exception", "intent"] := rfl
  rw [hbinds, hcarries] at hbound
  exact ⟨rfl, entry, hentry, hfields "level" _ (.head _), hfields "logger" _ (.tail _ (.head _)),
    hbound "query_id" _ (by simp) (by decide), hbound "user" _ (by simp) (by decide),
    hcarried "intent" _ (.tail _ (.head _)), hcarried "exception" _ (.head _)⟩

/-- **Not every field of a record is its own in the entry:** a pair bound under the name of its level replaces it. -/
theorem Structured.not_forall_entry_fields :
    ¬ ∀ (f : Structured) (time : String) (s : Scope) (r : Record) (message : String) (entry : Pairs),
      r.message = .ok message → f.entry time s r = .ok entry →
        ∀ name d, (name, d) ∈ f.fields r message → Pairs.value? entry name = some d := by
  intro hall
  let r : Record := { level := "ERROR", logger := "screener", template := "no rows", path := "screener.py", line := 7 }
  let s : Scope := ⟨"s-1", "q-1", [("level", .text "gold")]⟩
  have hlevel : some (Datum.text "gold") = some (.text "ERROR") :=
    hall {} "noon" s r "no rows" _ rfl rfl "level" (.text "ERROR") (.head _)
  exact absurd (Datum.text.inj (Option.some.inj hlevel)) (by decide)

end EquityScreen.Log
