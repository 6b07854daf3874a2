import NovaDb.Server.Engine
import NovaDb.Storage.Contents

namespace NovaDb
namespace Server

open Core Foundation Index Query Storage DatabaseEngine

/-!
# Critical sections

What one document of an UPDATE or REMOVE can do, said once as a relation with a
constructor for each exit, and what follows for the whole loop: which ids it
leaves alone, and that the log follows the store as long as every append is
acknowledged.
-/

/-! ## One document -/

section One

variable (P : Platform) (ns coll : String)

/-- The exits of one document of an UPDATE. -/
inductive UpdateExit (assignments : List Assignment) (filter : Option Expr) (moment : Moment)
    (entry : Sigma fun _ : DocumentId => Document) (state : Section) :
    Section -> Except Stop (Option Change) -> Prop where
  | unfiltered {fault : Fault} (fails : Evaluator.matchesFilter P filter entry.2 = .error fault) :
      UpdateExit assignments filter moment entry state state (.error ⟨.filter, fault⟩)
  | passedOver (filtered : Evaluator.matchesFilter P filter entry.2 = .ok false) :
      UpdateExit assignments filter moment entry state state (.ok none)
  | unassigned {after : Document} {fault : Fault}
      (matched : Evaluator.matchesFilter P filter entry.2 = .ok true)
      (assigns : Evaluator.applyAssignments P moment.clock entry.2 assignments =
        (after, .error fault)) :
      UpdateExit assignments filter moment entry state
        { state with store := state.store.replace entry.1 after } (.error ⟨.assignment, fault⟩)
  | unserialized {after : Document} {failure : NovaError}
      (matched : Evaluator.matchesFilter P filter entry.2 = .ok true)
      (assigns : Evaluator.applyAssignments P moment.clock entry.2 assignments = (after, .ok ()))
      (fails : NbfRecord.payloadFromDocument P after = .error failure) :
      UpdateExit assignments filter moment entry state
        { state with store := state.store.replace entry.1 after } (.error ⟨.payload, .error failure⟩)
  | unlogged {after : Document} {payload : List UInt8} {wal : WriteAheadLog} {fault : Fault}
      (matched : Evaluator.matchesFilter P filter entry.2 = .ok true)
      (assigns : Evaluator.applyAssignments P moment.clock entry.2 assignments = (after, .ok ()))
      (encoded : NbfRecord.payloadFromDocument P after = .ok payload)
      (fails : state.wal.append P moment.append ⟨.update, ns, coll, entry.1, payload, none⟩ =
        (wal, .error fault)) :
      UpdateExit assignments filter moment entry state
        { state with store := state.store.replace entry.1 after, wal := wal }
        (.error ⟨.append, fault⟩)
  | logged {after : Document} {payload : List UInt8} {wal : WriteAheadLog} {sequence : UInt64}
      (matched : Evaluator.matchesFilter P filter entry.2 = .ok true)
      (assigns : Evaluator.applyAssignments P moment.clock entry.2 assignments = (after, .ok ()))
      (encoded : NbfRecord.payloadFromDocument P after = .ok payload)
      (logs : state.wal.append P moment.append ⟨.update, ns, coll, entry.1, payload, none⟩ =
        (wal, .ok sequence)) :
      UpdateExit assignments filter moment entry state
        { store := state.store.replace entry.1 after
          manager := state.manager.onUpdate entry.2 after
          wal := wal }
        (.ok (some ⟨sequence, entry.1, entry.2, some after⟩))

theorem updateOne_exits (assignments : List Assignment) (filter : Option Expr) (moment : Moment)
    (entry : Sigma fun _ : DocumentId => Document) (state : Section) :
    UpdateExit P ns coll assignments filter moment entry state
      (updateOne P ns coll assignments filter moment entry state).1
      (updateOne P ns coll assignments filter moment entry state).2 := by
  unfold updateOne
  cases filtered : Evaluator.matchesFilter P filter entry.2 with
  | error fault => exact .unfiltered filtered
  | ok matched =>
      cases matched with
      | false => exact .passedOver filtered
      | true =>
          cases assigned : Evaluator.applyAssignments P moment.clock entry.2 assignments with
          | mk after outcome =>
              cases outcome with
              | error fault => exact .unassigned filtered assigned
              | ok done =>
                  cases encoded : NbfRecord.payloadFromDocument P after with
                  | error failure =>
                      simp only [encoded]
                      exact .unserialized filtered assigned encoded
                  | ok payload =>
                      simp only [encoded]
                      cases logged : state.wal.append P moment.append
                          ⟨.update, ns, coll, entry.1, payload, none⟩ with
                      | mk wal outcome =>
                          cases outcome with
                          | error fault => exact .unlogged filtered assigned encoded logged
                          | ok sequence => exact .logged filtered assigned encoded logged

/-- The exits of one document of a REMOVE. -/
inductive RemoveExit (moment : Moment) (id : DocumentId) (state : Section) :
    Section -> Except Stop (Option Change) -> Prop where
  | absent (missing : state.store.lookup id = none) : RemoveExit moment id state state (.ok none)
  | unlogged {doc : Document} {wal : WriteAheadLog} {fault : Fault}
      (stored : state.store.lookup id = some doc)
      (fails : state.wal.append P moment.append ⟨.delete, ns, coll, id, [], none⟩ =
        (wal, .error fault)) :
      RemoveExit moment id state { state with store := state.store.erase id, wal := wal }
        (.error ⟨.append, fault⟩)
  | logged {doc : Document} {wal : WriteAheadLog} {sequence : UInt64}
      (stored : state.store.lookup id = some doc)
      (logs : state.wal.append P moment.append ⟨.delete, ns, coll, id, [], none⟩ =
        (wal, .ok sequence)) :
      RemoveExit moment id state
        { store := state.store.erase id, manager := state.manager.onRemove doc, wal := wal }
        (.ok (some ⟨sequence, id, doc, none⟩))

theorem removeOne_exits (moment : Moment) (id : DocumentId) (state : Section) :
    RemoveExit P ns coll moment id state (removeOne P ns coll moment id state).1
      (removeOne P ns coll moment id state).2 := by
  unfold removeOne
  cases stored : state.store.lookup id with
  | none => exact .absent stored
  | some doc =>
      simp only
      cases logged : state.wal.append P moment.append ⟨.delete, ns, coll, id, [], none⟩ with
      | mk wal outcome =>
          cases outcome with
          | error fault => exact .unlogged stored logged
          | ok sequence => exact .logged stored logged

/-- The exits of the logging step of an INSERT. -/
inductive InsertExit (moment : Moment) (doc : Document) (wal : WriteAheadLog) :
    WriteAheadLog -> Except Stop UInt64 -> Prop where
  | unserialized {failure : NovaError}
      (fails : NbfRecord.payloadFromDocument P doc = .error failure) :
      InsertExit moment doc wal wal (.error ⟨.payload, .error failure⟩)
  | unlogged {payload : List UInt8} {next : WriteAheadLog} {fault : Fault}
      (encoded : NbfRecord.payloadFromDocument P doc = .ok payload)
      (fails : wal.append P moment.append ⟨.insert, ns, coll, doc.id, payload, none⟩ =
        (next, .error fault)) :
      InsertExit moment doc wal next (.error ⟨.append, fault⟩)
  | logged {payload : List UInt8} {next : WriteAheadLog} {sequence : UInt64}
      (encoded : NbfRecord.payloadFromDocument P doc = .ok payload)
      (logs : wal.append P moment.append ⟨.insert, ns, coll, doc.id, payload, none⟩ =
        (next, .ok sequence)) :
      InsertExit moment doc wal next (.ok sequence)

theorem logInsert_exits (moment : Moment) (doc : Document) (wal : WriteAheadLog) :
    InsertExit P ns coll moment doc wal (logInsert P moment ns coll doc wal).1
      (logInsert P moment ns coll doc wal).2 := by
  unfold logInsert
  cases encoded : NbfRecord.payloadFromDocument P doc with
  | error failure => exact .unserialized encoded
  | ok payload =>
      simp only
      cases logged : wal.append P moment.append ⟨.insert, ns, coll, doc.id, payload, none⟩ with
      | mk next outcome =>
          cases outcome with
          | error fault => exact .unlogged encoded logged
          | ok sequence => exact .logged encoded logged

variable {P ns coll}

theorem logInsert_exit {moment : Moment} {doc : Document} {wal next : WriteAheadLog}
    {outcome : Except Stop UInt64} (ran : logInsert P moment ns coll doc wal = (next, outcome)) :
    InsertExit P ns coll moment doc wal next outcome := by
  have exits := logInsert_exits P ns coll moment doc wal
  rw [ran] at exits
  exact exits

theorem updateOne_exit {assignments : List Assignment} {filter : Option Expr} {moment : Moment}
    {entry : Sigma fun _ : DocumentId => Document} {state next : Section}
    {outcome : Except Stop (Option Change)}
    (ran : updateOne P ns coll assignments filter moment entry state = (next, outcome)) :
    UpdateExit P ns coll assignments filter moment entry state next outcome := by
  have exits := updateOne_exits P ns coll assignments filter moment entry state
  rw [ran] at exits
  exact exits

theorem removeOne_exit {moment : Moment} {id : DocumentId} {state next : Section}
    {outcome : Except Stop (Option Change)}
    (ran : removeOne P ns coll moment id state = (next, outcome)) :
    RemoveExit P ns coll moment id state next outcome := by
  have exits := removeOne_exits P ns coll moment id state
  rw [ran] at exits
  exact exits

end One

/-! ## The loop -/

section Loop

variable {α : Type} {one : Moment -> α -> Section -> Section × Except Stop (Option Change)}
  {moments : Nat -> Moment} {turn : Nat} {element : α} {rest : List α} {state final : Section}

/-- A loop stops at its first element, or runs the others behind it. -/
theorem runSection_cons {outcome : Except Stop (List Change)}
    (ran : runSection one moments turn (element :: rest) state = (final, outcome)) :
    (Exists fun stop =>
      one (moments turn) element state = (final, .error stop) ∧ outcome = .error stop) ∨
    Exists fun next => Exists fun change => Exists fun others =>
      one (moments turn) element state = (next, .ok change) ∧
        runSection one moments (turn + 1) rest next = (final, others) ∧
        outcome = others.map (change.toList ++ ·) := by
  rw [runSection] at ran
  cases first : one (moments turn) element state with
  | mk next result =>
      rw [first] at ran
      cases result with
      | error stop =>
          cases ran
          exact Or.inl ⟨stop, rfl, rfl⟩
      | ok change =>
          simp only at ran
          cases later : runSection one moments (turn + 1) rest next with
          | mk last others =>
              rw [later] at ran
              cases others with
              | error stop =>
                  cases ran
                  exact Or.inr ⟨next, change, .error stop, rfl, later, rfl⟩
              | ok changes =>
                  cases ran
                  exact Or.inr ⟨next, change, .ok changes, rfl, later, rfl⟩

/-- A loop that runs to its end has run its first element and then the others. -/
theorem runSection_cons_ok {changes : List Change}
    (ran : runSection one moments turn (element :: rest) state = (final, .ok changes)) :
    Exists fun next => Exists fun change => Exists fun others =>
      one (moments turn) element state = (next, .ok change) ∧
        runSection one moments (turn + 1) rest next = (final, .ok others) := by
  rcases runSection_cons ran with ⟨stop, _, stopped⟩ | ⟨next, change, others, first, later, same⟩
  · cases stopped
  · cases others with
    | error stop => cases same
    | ok changes => exact ⟨next, change, changes, first, later⟩

/-- What every element keeps, the loop keeps, wherever it stops. -/
theorem runSection_keeps {keeps : Section -> Prop} {elements : List α}
    (steps : forall moment element state, element ∈ elements -> keeps state ->
      keeps (one moment element state).1)
    {outcome : Except Stop (List Change)}
    (ran : runSection one moments turn elements state = (final, outcome))
    (before : keeps state) : keeps final := by
  induction elements generalizing turn state outcome with
  | nil =>
      cases ran
      exact before
  | cons element rest ih =>
      have kept := steps (moments turn) element state List.mem_cons_self before
      have restSteps := fun moment other state member =>
        steps moment other state (List.mem_cons_of_mem element member)
      rcases runSection_cons ran with ⟨stop, first, _⟩ | ⟨next, change, others, first, later, _⟩
      · rw [first] at kept
        exact kept
      · rw [first] at kept
        exact ih restSteps later kept

/-- What every element keeps that returns, a loop that runs to its end keeps. -/
theorem runSection_keeps_ok {keeps : Section -> Prop} {elements : List α}
    (steps : forall {moment element state next change}, element ∈ elements ->
      one moment element state = (next, .ok change) -> keeps state -> keeps next)
    {changes : List Change}
    (ran : runSection one moments turn elements state = (final, .ok changes))
    (before : keeps state) : keeps final := by
  induction elements generalizing turn state changes with
  | nil =>
      cases ran
      exact before
  | cons element rest ih =>
      rcases runSection_cons_ok ran with ⟨next, change, others, first, later⟩
      apply ih _ later (steps List.mem_cons_self first before)
      intro moment other state next change member
      exact steps (List.mem_cons_of_mem element member)

/-- What is said of a loop that runs to its end and of its changes, put together
from its elements; the invariant is about the elements still to come. -/
theorem runSection_traces {waits : List α -> Section -> Prop}
    {traces : Section -> List Change -> Section -> Prop}
    (ends : forall state, waits [] state -> traces state [] state)
    (steps : forall {turn element rest state next change}, waits (element :: rest) state ->
      one (moments turn) element state = (next, .ok change) -> waits rest next ∧
        forall {changes final}, traces next changes final ->
          traces state (change.toList ++ changes) final)
    {elements : List α} {changes : List Change}
    (ran : runSection one moments turn elements state = (final, .ok changes))
    (before : waits elements state) : traces state changes final := by
  induction elements generalizing turn state changes with
  | nil =>
      cases ran
      exact ends _ before
  | cons element rest ih =>
      rcases runSection_cons ran with ⟨stop, _, stopped⟩ | ⟨next, change, others, first, later, same⟩
      · cases stopped
      · cases others with
        | error stop => cases same
        | ok others =>
            cases same
            rcases steps before first with ⟨waiting, behind⟩
            exact behind (ih later waiting)

/-- Elements that each touch one id leave the other ids alone. -/
theorem runSection_frame {idOf : α -> DocumentId}
    (touches : forall moment element state id, id ≠ idOf element ->
      (one moment element state).1.store.lookup id = state.store.lookup id)
    {elements : List α} {id : DocumentId} (untouched : id ∉ elements.map idOf)
    {outcome : Except Stop (List Change)}
    (ran : runSection one moments turn elements state = (final, outcome)) :
    final.store.lookup id = state.store.lookup id := by
  apply @runSection_keeps _ _ _ _ _ _ (fun other => other.store.lookup id = state.store.lookup id)
    _ _ _ ran rfl
  intro moment element other member same
  have different : id ≠ idOf element := by
    rintro rfl
    exact untouched (List.mem_map_of_mem member)
  exact (touches moment element other id different).trans same

end Loop

theorem updateOne_frame (P : Platform) (ns coll : String) (assignments : List Assignment)
    (filter : Option Expr) (moment : Moment) (entry : Sigma fun _ : DocumentId => Document)
    (state : Section) (id : DocumentId) (different : id ≠ entry.1) :
    (updateOne P ns coll assignments filter moment entry state).1.store.lookup id =
      state.store.lookup id := by
  cases ran : updateOne P ns coll assignments filter moment entry state with
  | mk next outcome =>
      cases updateOne_exit ran with
      | unfiltered => rfl
      | passedOver => rfl
      | unassigned => exact ValueMap.lookup_replace_ne different _ _
      | unserialized => exact ValueMap.lookup_replace_ne different _ _
      | unlogged => exact ValueMap.lookup_replace_ne different _ _
      | logged => exact ValueMap.lookup_replace_ne different _ _

/-- The loop of an UPDATE that runs to its end: every document is found as it was
stored, and what is made of it is in the final store. -/
theorem updateOnes_keep {P : Platform} {ns coll : String} {assignments : List Assignment}
    {filter : Option Expr} {moments : Nat -> Moment} {turn : Nat} {state final : Section}
    {keeps : Section -> Prop} {entries : List (Sigma fun _ : DocumentId => Document)}
    (distinct : entries.NodupKeys)
    (stored : forall entry, entry ∈ entries -> state.store.lookup entry.1 = some entry.2)
    (steps : forall {moment entry state next change}, entry ∈ entries ->
      state.store.lookup entry.1 = some entry.2 ->
      updateOne P ns coll assignments filter moment entry state = (next, .ok change) ->
      final.store.lookup entry.1 = next.store.lookup entry.1 -> keeps state -> keeps next)
    {changes : List Change}
    (ran : runSection (updateOne P ns coll assignments filter) moments turn entries state =
      (final, .ok changes))
    (before : keeps state) : keeps final := by
  induction entries generalizing turn state changes with
  | nil =>
      cases ran
      exact before
  | cons entry rest ih =>
      rcases runSection_cons_ok ran with ⟨next, change, others, first, later⟩
      rcases List.nodupKeys_cons.mp distinct with ⟨fresh, restDistinct⟩
      -- the document of this turn is not touched again, so it is in the final store
      have kept : final.store.lookup entry.1 = next.store.lookup entry.1 :=
        runSection_frame (updateOne_frame P ns coll assignments filter) fresh later
      apply ih restDistinct _ _ later
        (steps List.mem_cons_self (stored entry List.mem_cons_self) first kept before)
      · intro other member
        have different : other.1 ≠ entry.1 := by
          intro same
          exact fresh (List.mem_map.mpr ⟨other, member, same⟩)
        have framed := updateOne_frame P ns coll assignments filter (moments turn) entry state
          other.1 different
        rw [first] at framed
        exact framed.trans (stored other (List.mem_cons_of_mem entry member))
      · intro moment other state next change member
        exact steps (List.mem_cons_of_mem entry member)

theorem updateOne_ids (P : Platform) (ns coll : String) (assignments : List Assignment)
    (filter : Option Expr) (moment : Moment) (entry : Sigma fun _ : DocumentId => Document)
    (state : Section) (id : DocumentId) :
    id ∈ (updateOne P ns coll assignments filter moment entry state).1.store <->
      id ∈ state.store := by
  cases ran : updateOne P ns coll assignments filter moment entry state with
  | mk next outcome =>
      cases updateOne_exit ran with
      | unfiltered => exact Iff.rfl
      | passedOver => exact Iff.rfl
      | unassigned => exact AList.mem_replace
      | unserialized => exact AList.mem_replace
      | unlogged => exact AList.mem_replace
      | logged => exact AList.mem_replace

/-- The ids among the changes of a REMOVE are the ids it has taken out. -/
theorem removeOnes_lookup {P : Platform} {ns coll : String} {moments : Nat -> Moment} {turn : Nat}
    {ids : List DocumentId} {state final : Section} {changes : List Change}
    (ran : runSection (removeOne P ns coll) moments turn ids state = (final, .ok changes))
    (id : DocumentId) :
    final.store.lookup id =
      if id ∈ changes.map Change.id then none else state.store.lookup id := by
  induction ids generalizing turn state changes with
  | nil =>
      cases ran
      rfl
  | cons target rest ih =>
      rcases runSection_cons ran with ⟨stop, _, stopped⟩ | ⟨next, change, others, first, later, same⟩
      · cases stopped
      · cases others with
        | error stop => cases same
        | ok others =>
            cases same
            rw [ih later]
            cases removeOne_exit first with
            | absent missing => rfl
            | @logged doc wal sequence stored logs =>
                change (if _ then none else (state.store.erase target).lookup id) =
                  if id ∈ target :: others.map Change.id then none else _
                by_cases isTarget : id = target
                · subst isTarget
                  rw [AList.lookup_erase, ite_self, if_pos List.mem_cons_self]
                · rw [AList.lookup_erase_ne isTarget]
                  simp only [List.mem_cons, isTarget, false_or]

theorem removeOnes_error {P : Platform} {ns coll : String} {moments : Nat -> Moment} {turn : Nat}
    {ids : List DocumentId} {state final : Section} {stop : Stop}
    (ran : runSection (removeOne P ns coll) moments turn ids state = (final, .error stop)) :
    stop.cause = .append := by
  induction ids generalizing turn state with
  | nil => cases ran
  | cons target rest ih =>
      rcases runSection_cons ran with ⟨other, first, same⟩ | ⟨next, change, others, _, later, same⟩
      · cases same
        cases removeOne_exit first with
        | unlogged => rfl
      · cases others with
        | ok changes => cases same
        | error other =>
            cases same
            exact ih later

/-! ## Whole sections -/

section Whole

variable {P : Platform} {ns coll : String} {engine next : DatabaseEngine} {moments : Nat -> Moment}
  {filter : Option Expr}

/-- The critical section of an UPDATE is the loop over the store it enters. -/
theorem updateSection_loop {assignments : List Assignment} {outcome : Except Stop (List Change)}
    (ran : updateSection P moments ns coll assignments filter engine = (next, outcome)) :
    Exists fun state =>
      runSection (updateOne P ns coll assignments filter) moments 0
          (storeOf engine.collections (ns, coll)).entries (engine.enter (ns, coll)) =
        (state, outcome) ∧
      next = engine.leave (ns, coll) state := by
  rcases Prod.mk.inj ran with ⟨left, ended⟩
  exact ⟨_, Prod.ext rfl ended, left.symm⟩

/-- The critical section of a REMOVE that gets to its loop. -/
theorem removeSection_loop {outcome : Except Stop (List Change)} {targets : List DocumentId}
    (isTargets : removeTargets P filter (storeOf engine.collections (ns, coll)).entries = .ok targets)
    (ran : removeSection P moments ns coll filter engine = (next, outcome)) :
    Exists fun state =>
      runSection (removeOne P ns coll) moments 0 targets (engine.enter (ns, coll)) =
          (state, outcome) ∧
        next = engine.leave (ns, coll) state := by
  have entered : removeTargets P filter (engine.enter (ns, coll)).store.entries = .ok targets :=
    isTargets
  simp only [removeSection, entered] at ran
  rcases Prod.mk.inj ran with ⟨left, ended⟩
  exact ⟨_, Prod.ext rfl ended, left.symm⟩

/-- A REMOVE that cannot tell its targets stops at a filter. -/
theorem removeTargets_error {entries : List (Sigma fun _ : DocumentId => Document)} {stop : Stop}
    (fails : removeTargets P filter entries = .error stop) : stop.cause = .filter := by
  induction entries with
  | nil => cases fails
  | cons entry rest ih =>
      rw [removeTargets] at fails
      split at fails
      · cases fails
        rfl
      · exact ih fails
      · exact ih fails
      · cases others : removeTargets P filter rest with
        | error other =>
            rw [others] at fails
            cases fails
            exact ih others
        | ok targets =>
            rw [others] at fails
            cases fails

theorem removeTargets_matched {entries : List (Sigma fun _ : DocumentId => Document)}
    {targets : List DocumentId} (isTargets : removeTargets P filter entries = .ok targets)
    {id : DocumentId} (member : id ∈ targets) :
    Exists fun entry => entry ∈ entries ∧ entry.1 = id ∧
      Evaluator.matchesFilter P filter entry.2 = .ok true := by
  induction entries generalizing targets with
  | nil =>
      cases isTargets
      cases member
  | cons entry rest ih =>
      have later : forall {others}, removeTargets P filter rest = .ok others -> id ∈ others ->
          Exists fun found => found ∈ entry :: rest ∧ found.1 = id ∧
            Evaluator.matchesFilter P filter found.2 = .ok true := by
        intro others isOthers inOthers
        rcases ih isOthers inOthers with ⟨found, inRest, isId, matched⟩
        exact ⟨found, List.mem_cons_of_mem entry inRest, isId, matched⟩
      rw [removeTargets] at isTargets
      split at isTargets
      · cases isTargets
      · exact later isTargets member
      · exact later isTargets member
      · rename_i matched
        cases others : removeTargets P filter rest with
        | error stop =>
            rw [others] at isTargets
            cases isTargets
        | ok list =>
            rw [others] at isTargets
            cases isTargets
            rcases List.mem_cons.mp member with rfl | inList
            · exact ⟨entry, List.mem_cons_self, rfl, matched⟩
            · exact later others inList

theorem removeSection_unresolved {outcome : Except Stop (List Change)} {stop : Stop}
    (fails : removeTargets P filter (storeOf engine.collections (ns, coll)).entries = .error stop)
    (ran : removeSection P moments ns coll filter engine = (next, outcome)) :
    outcome = .error stop := by
  have entered : removeTargets P filter (engine.enter (ns, coll)).store.entries = .error stop :=
    fails
  simp only [removeSection, entered] at ran
  exact (Prod.mk.inj ran).2.symm

/-- A critical section changes its own collection only. -/
theorem leave_contents (engine : DatabaseEngine) (key : CollectionKey) (state : Section)
    (place : Place) :
    contentsOf (engine.leave key state).collections place =
      if place.1 = key then state.store.lookup place.2 else contentsOf engine.collections place := by
  rcases place with ⟨other, id⟩
  by_cases same : other = key
  · subst same
    rw [if_pos rfl]
    exact contentsOf_insert_self _ _ _ _
  · rw [if_neg same]
    exact contentsOf_insert_of_ne _ same _ _

/-- An UPDATE keeps the ids, also one that fails. -/
theorem updateSection_ids {assignments : List Assignment} {outcome : Except Stop (List Change)}
    (ran : updateSection P moments ns coll assignments filter engine = (next, outcome))
    (place : Place) :
    (contentsOf next.collections place).isSome = (contentsOf engine.collections place).isSome := by
  rcases updateSection_loop ran with ⟨state, loop, rfl⟩
  have sameIds : place.2 ∈ state.store <-> place.2 ∈ storeOf engine.collections (ns, coll) := by
    apply @runSection_keeps _ _ _ _ _ _
      (fun other => place.2 ∈ other.store <-> place.2 ∈ storeOf engine.collections (ns, coll))
      _ _ _ loop Iff.rfl
    intro moment entry other _ same
    exact (updateOne_ids P ns coll assignments filter moment entry other place.2).trans same
  rw [leave_contents]
  split
  · rename_i inside
    rw [Bool.eq_iff_iff, AList.lookup_isSome, sameIds, ← AList.lookup_isSome, contentsOf, inside]
  · rfl

/-- A REMOVE that stops at its filter has taken nothing out. -/
theorem removeSection_unfiltered {stop : Stop} (cause : stop.cause = .filter)
    (ran : removeSection P moments ns coll filter engine = (next, .error stop)) :
    contentsOf next.collections = contentsOf engine.collections := by
  cases isTargets : removeTargets P filter (storeOf engine.collections (ns, coll)).entries with
  | error problem =>
      have entered : removeTargets P filter (engine.enter (ns, coll)).store.entries =
          .error problem := isTargets
      simp only [removeSection, entered] at ran
      rw [← (Prod.mk.inj ran).1]
      exact contentsOf_same engine.collections (ns, coll)
  | ok targets =>
      rcases removeSection_loop isTargets ran with ⟨state, loop, _⟩
      have atAppend := removeOnes_error loop
      rw [cause] at atAppend
      cases atAppend

/-- A REMOVE takes out the ids among its changes. -/
theorem removeSection_contents {changes : List Change}
    (ran : removeSection P moments ns coll filter engine = (next, .ok changes)) (place : Place) :
    contentsOf next.collections place =
      if place ∈ changes.map (fun change => ((ns, coll), change.id)) then none
      else contentsOf engine.collections place := by
  cases isTargets : removeTargets P filter (storeOf engine.collections (ns, coll)).entries with
  | error stop => cases removeSection_unresolved isTargets ran
  | ok targets =>
      rcases removeSection_loop isTargets ran with ⟨state, loop, rfl⟩
      rcases place with ⟨key, id⟩
      have mentioned : (key, id) ∈ changes.map (fun change => ((ns, coll), change.id)) <->
          key = (ns, coll) ∧ id ∈ changes.map Change.id := by
        simp only [List.mem_map, Prod.mk.injEq]
        constructor
        · rintro ⟨change, member, rfl, rfl⟩
          exact ⟨rfl, change, member, rfl⟩
        · rintro ⟨rfl, change, member, rfl⟩
          exact ⟨change, member, rfl, rfl⟩
      rw [leave_contents, removeOnes_lookup loop]
      by_cases inside : key = (ns, coll)
      · subst inside
        rw [if_pos rfl]
        simp only [mentioned, true_and]
        rfl
      · simp only [mentioned, inside, false_and, if_false]

/-- Events change neither collections nor indexes nor the log. -/
theorem emitChanges_state (eventType : EventType) (moments : Nat -> Moment) (turn : Nat)
    (changes : List Change) (engine : DatabaseEngine) :
    Exists fun events => emitChanges eventType ns coll moments turn changes engine =
      { engine with events } := by
  induction changes generalizing turn engine with
  | nil => exact ⟨engine.events, rfl⟩
  | cons change rest ih =>
      rw [emitChanges]
      exact ih (turn + 1) (emitEvent _ engine)

end Whole

/-! ## The log follows the store -/

/-- The store insert changes one place. -/
theorem storeInsert_contents (key : CollectionKey) (doc : Document) (engine : DatabaseEngine) :
    contentsOf (storeInsert key doc engine).collections =
      Function.update (contentsOf engine.collections) (key, doc.id) (some doc) := by
  rw [storeInsert, contentsOf_put, contentsOf_same]

/-- An acknowledged logging step of an INSERT. -/
theorem mirrors_logInsert {P : Platform} {ns coll : String} {wal next : WriteAheadLog}
    {contents : Contents} (mirrors : Mirrors P wal contents) {moment : Moment} {doc : Document}
    (built : doc.id.Built) (roundTrips : RoundTrips P doc) {sequence : UInt64}
    (logs : logInsert P moment ns coll doc wal = (next, .ok sequence)) :
    Mirrors P next (Function.update contents ((ns, coll), doc.id) (some doc)) := by
  cases logInsert_exit logs with
  | @logged payload next sequence encoded appends =>
      rcases @writes_document P ns coll doc.id doc payload .insert (Or.inl rfl) built roundTrips
        encoded with ⟨loggable, effect⟩
      have logged := mirrors.acknowledged loggable appends
      rw [effect] at logged
      exact logged

section Follow

variable {P : Platform} {ns coll : String} {ahead : Contents} {collections : Collections}
  {moments : Nat -> Moment} {turn : Nat} {state final : Section} {changes : List Change}

/-- In the middle of a critical section: the log has what the collections would
have if the section ended here, under the documents it is ahead by. -/
def Follows (P : Platform) (ahead : Contents) (collections : Collections) (key : CollectionKey)
    (state : Section) : Prop :=
  Mirrors P state.wal (overlay ahead (contentsOf (collections.insert key state.store)))

theorem Follows.built {key : CollectionKey} (follows : Follows P ahead collections key state)
    {id : DocumentId} (member : id ∈ state.store) : id.Built := by
  rcases Option.isSome_iff_exists.mp (AList.lookup_isSome.mpr member) with ⟨doc, stored⟩
  have present : (overlay ahead (contentsOf (collections.insert key state.store)) (key, id)).isSome
      = true := by
    rw [overlay, contentsOf_insert_self, stored, Option.isSome_or, Option.isSome_some, Bool.or_true]
  rcases Option.isSome_iff_exists.mp present with ⟨other, isOther⟩
  exact Mirrors.built follows isOther

/-- One document of an UPDATE that returns. -/
theorem Follows.updateOne {assignments : List Assignment} {filter : Option Expr} {moment : Moment}
    {entry : Sigma fun _ : DocumentId => Document} {next : Section} {change : Option Change}
    (follows : Follows P ahead collections (ns, coll) state) (member : entry.1 ∈ state.store)
    (free : Evaluator.matchesFilter P filter entry.2 = .ok true ->
      ahead ((ns, coll), entry.1) = none)
    (ran : updateOne P ns coll assignments filter moment entry state = (next, .ok change))
    (roundTrips : forall doc, next.store.lookup entry.1 = some doc -> RoundTrips P doc) :
    Follows P ahead collections (ns, coll) next := by
  cases updateOne_exit ran with
  | passedOver => exact follows
  | @logged after payload wal sequence matched assigns encoded logs =>
      have written := roundTrips after (ValueMap.lookup_replace after member)
      rcases @writes_document P ns coll entry.1 after payload .update (Or.inr rfl)
        (follows.built member) written encoded with ⟨loggable, effect⟩
      have logged := Mirrors.acknowledged follows loggable logs
      rw [effect, ← overlay_update (free matched), ← contentsOf_replace _ _ member after] at logged
      exact logged

/-- An UPDATE whose documents are all logged. -/
theorem Follows.update {assignments : List Assignment} {filter : Option Expr}
    {entries : List (Sigma fun _ : DocumentId => Document)} (distinct : entries.NodupKeys)
    (stored : forall entry, entry ∈ entries -> state.store.lookup entry.1 = some entry.2)
    (free : forall entry, entry ∈ entries -> Evaluator.matchesFilter P filter entry.2 = .ok true ->
      ahead ((ns, coll), entry.1) = none)
    (follows : Follows P ahead collections (ns, coll) state)
    (ran : runSection (DatabaseEngine.updateOne P ns coll assignments filter) moments turn entries
      state = (final, .ok changes))
    (roundTrips : forall id doc, final.store.lookup id = some doc -> RoundTrips P doc) :
    Follows P ahead collections (ns, coll) final := by
  refine updateOnes_keep distinct stored ?_ ran follows
  intro moment entry state next change member found one kept follows
  have present : entry.1 ∈ state.store := AList.lookup_isSome.mp (by rw [found]; rfl)
  apply follows.updateOne present (free entry member) one
  intro doc isDoc
  exact roundTrips entry.1 doc (kept.trans isDoc)

/-- One document of a REMOVE that returns. -/
theorem Follows.removeOne {moment : Moment} {id : DocumentId} {next : Section}
    {change : Option Change} (follows : Follows P ahead collections (ns, coll) state)
    (free : ahead ((ns, coll), id) = none)
    (ran : removeOne P ns coll moment id state = (next, .ok change)) :
    Follows P ahead collections (ns, coll) next := by
  cases removeOne_exit ran with
  | absent => exact follows
  | @logged doc wal sequence stored logs =>
      have member : id ∈ state.store := AList.lookup_isSome.mp (by rw [stored]; rfl)
      rcases @writes_removal P ns coll id (follows.built member) with ⟨loggable, effect⟩
      have logged := Mirrors.acknowledged follows loggable logs
      rw [effect, ← overlay_update free, ← contentsOf_drop] at logged
      exact logged

/-- A REMOVE whose documents are all logged. -/
theorem Follows.remove {targets : List DocumentId}
    (free : forall id, id ∈ targets -> ahead ((ns, coll), id) = none)
    (follows : Follows P ahead collections (ns, coll) state)
    (ran : runSection (DatabaseEngine.removeOne P ns coll) moments turn targets state =
      (final, .ok changes)) :
    Follows P ahead collections (ns, coll) final := by
  refine runSection_keeps_ok ?_ ran follows
  intro moment id state next change member one follows
  exact follows.removeOne (free id member) one

end Follow

end Server
end NovaDb
