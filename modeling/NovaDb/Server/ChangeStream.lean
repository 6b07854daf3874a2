import NovaDb.Foundation.Edits
import NovaDb.Server.LiveState
import NovaDb.Storage.BufferedLog

namespace NovaDb
namespace Server

open Core Foundation Index Query Storage DatabaseEngine

/-!
# The event stream as a change log

Each statement tells its subscribers what it has done, one event for every
document it changed.  Here the three accounts of a change are compared: the event,
the record in the log, and the store.  In a run of statements one after another
the events are the records, in order, and applied to an empty database they give
the collections.
-/

/-! ## Events and changes as edits -/

namespace DataEvent

def place (event : DataEvent) : Place :=
  ((event.namespaceName, event.collection), event.documentId)

def edit (event : DataEvent) : Edit Place Document :=
  ⟨event.place, event.before, event.after⟩

end DataEvent

namespace DatabaseEngine

def Change.edit (key : CollectionKey) (change : Change) : Edit Place Document :=
  ⟨(key, change.id), some change.before, change.after⟩

/-- The events of a list of changes. -/
def changeEvents (eventType : EventType) (ns coll : String) (moments : Nat -> Moment) :
    Nat -> List Change -> List DataEvent
  | _, [] => []
  | turn, change :: rest =>
      changeEvent eventType ns coll (moments turn) change ::
        changeEvents eventType ns coll moments (turn + 1) rest

end DatabaseEngine

section Events

variable (eventType : EventType) (ns coll : String) (moments : Nat -> Moment)

theorem emitChanges_eq (turn : Nat) (changes : List Change) (engine : DatabaseEngine) :
    emitChanges eventType ns coll moments turn changes engine =
      { engine with
        events := engine.events ++ changeEvents eventType ns coll moments turn changes } := by
  induction changes generalizing turn engine with
  | nil => rw [emitChanges, changeEvents, List.append_nil]
  | cons change rest ih =>
      rw [emitChanges, ih, changeEvents]
      simp only [emitEvent, List.append_assoc, List.singleton_append]

theorem map_changeEvents {β : Type} (ofEvent : DataEvent -> β) (ofChange : Change -> β)
    (agree : forall moment change,
      ofEvent (changeEvent eventType ns coll moment change) = ofChange change)
    (turn : Nat) (changes : List Change) :
    (changeEvents eventType ns coll moments turn changes).map ofEvent = changes.map ofChange := by
  induction changes generalizing turn with
  | nil => rfl
  | cons change rest ih => rw [changeEvents, List.map_cons, List.map_cons, agree, ih]

theorem changeEvents_edits (turn : Nat) (changes : List Change) :
    (changeEvents eventType ns coll moments turn changes).map DataEvent.edit =
      changes.map (Change.edit (ns, coll)) :=
  map_changeEvents eventType ns coll moments _ _ (fun _ _ => rfl) turn changes

theorem changeEvents_numbers (turn : Nat) (changes : List Change) :
    (changeEvents eventType ns coll moments turn changes).map
        (fun event => event.sequence.toNat) =
      changes.map (fun change => change.sequence.toNat) :=
  map_changeEvents eventType ns coll moments _ _ (fun _ _ => rfl) turn changes

end Events

/-! ## The changes of a critical section -/

namespace DatabaseEngine

section Changes

variable {P : Platform} {ns coll : String} {moments : Nat -> Moment} {turn : Nat}
  {collections : Collections} {state final : Section} {changes : List Change}

/-- The contents if the section ended here. -/
def Section.view (collections : Collections) (key : CollectionKey) (state : Section) : Contents :=
  contentsOf (collections.insert key state.store)

/-- The numbers the log gave to the changes, when its counter does not wrap. -/
def Section.Numbers (state : Section) (changes : List Change) (final : Section) : Prop :=
  state.wal.currentSequence.toNat + changes.length < 2 ^ 64 ->
    Ascends state.wal.currentSequence.toNat (changes.map fun change => change.sequence.toNat)
        final.wal.currentSequence.toNat ∧
      final.wal.currentSequence.toNat = state.wal.currentSequence.toNat + changes.length

theorem Section.numbers_nil (state : Section) : state.Numbers [] state :=
  fun _ => ⟨ascends_nil (Nat.le_refl _), rfl⟩

theorem Section.numbers_cons {next : Section} {change : Change}
    (counted : next.wal.currentSequence = state.wal.currentSequence + 1)
    (numbered : change.sequence = state.wal.currentSequence + 1)
    (later : next.Numbers changes final) : state.Numbers (change :: changes) final := by
  intro room
  rw [List.length_cons] at room
  have step : next.wal.currentSequence.toNat = state.wal.currentSequence.toNat + 1 := by
    rw [counted]
    exact toNat_next (by omega)
  rcases later (by omega) with ⟨ascends, finish⟩
  have first := ascends_one state.wal.currentSequence.toNat
  rw [← step] at first
  refine ⟨?_, by rw [finish, step, List.length_cons]; omega⟩
  have numbers : (change :: changes).map (fun change => change.sequence.toNat) =
      [next.wal.currentSequence.toNat] ++ changes.map (fun change => change.sequence.toNat) := by
    rw [List.map_cons, numbered, ← counted, List.singleton_append]
  rw [numbers]
  exact first.append ascends

/-- What the changes of a section account for: they lead from its store to its
final store, their numbers ascend, and they are about selected documents. -/
structure Section.Accounts (collections : Collections) (key : CollectionKey)
    (selected : DocumentId -> Prop) (state : Section) (changes : List Change) (final : Section) :
    Prop where
  leads : Edit.Leads (state.view collections key) (changes.map (Change.edit key))
    (final.view collections key)
  numbers : state.Numbers changes final
  selects : forall change, change ∈ changes -> selected change.id

theorem Section.accounts_nil (key : CollectionKey) (selected : DocumentId -> Prop)
    (state : Section) : state.Accounts collections key selected [] state :=
  ⟨Edit.Leads.nil _, Section.numbers_nil state, nofun⟩

theorem Section.accounts_cons {key : CollectionKey} {selected : DocumentId -> Prop}
    {next : Section} {change : Change}
    (found : state.store.lookup change.id = some change.before)
    (left : next.view collections key =
      Function.update (state.view collections key) (key, change.id) change.after)
    (counted : next.wal.currentSequence = state.wal.currentSequence + 1)
    (numbered : change.sequence = state.wal.currentSequence + 1) (isSelected : selected change.id)
    (later : next.Accounts collections key selected changes final) :
    state.Accounts collections key selected (change :: changes) final := by
  refine ⟨Edit.Leads.cons ?_ ?_, Section.numbers_cons counted numbered later.numbers, ?_⟩
  · exact (contentsOf_insert_self _ _ _ _).trans found
  · change Edit.Leads (Function.update (state.view collections key) (key, change.id) change.after) _ _
    rw [← left]
    exact later.leads
  · intro other member
    rcases List.mem_cons.mp member with rfl | inRest
    · exact isSelected
    · exact later.selects other inRest

/-- The loop of an UPDATE accounts for what it does. -/
theorem updateOnes_account {assignments : List Assignment} {filter : Option Expr}
    {entries : List (Sigma fun _ : DocumentId => Document)} {selected : DocumentId -> Prop}
    (distinct : entries.NodupKeys)
    (stored : forall entry, entry ∈ entries -> state.store.lookup entry.1 = some entry.2)
    (selects : forall entry, entry ∈ entries ->
      Evaluator.matchesFilter P filter entry.2 = .ok true -> selected entry.1)
    (ran : runSection (updateOne P ns coll assignments filter) moments turn entries state =
      (final, .ok changes)) :
    state.Accounts collections (ns, coll) selected changes final := by
  apply @runSection_traces _ _ _ _ _ _
    (fun rest state => rest.NodupKeys ∧
      (forall entry, entry ∈ rest -> state.store.lookup entry.1 = some entry.2) ∧
      forall entry, entry ∈ rest -> Evaluator.matchesFilter P filter entry.2 = .ok true ->
        selected entry.1)
    (fun state changes final => state.Accounts collections (ns, coll) selected changes final)
    _ _ _ _ ran ⟨distinct, stored, selects⟩
  · exact fun state _ => Section.accounts_nil (ns, coll) selected state
  · rintro turn entry rest state next change ⟨distinct, stored, selects⟩ first
    rcases List.nodupKeys_cons.mp distinct with ⟨fresh, restDistinct⟩
    have found := stored entry List.mem_cons_self
    refine ⟨⟨restDistinct, ?_, ?_⟩, ?_⟩
    · intro other member
      have different : other.1 ≠ entry.1 := by
        intro same
        exact fresh (List.mem_map.mpr ⟨other, member, same⟩)
      have framed := updateOne_frame P ns coll assignments filter (moments turn) entry state
        other.1 different
      rw [first] at framed
      exact framed.trans (stored other (List.mem_cons_of_mem entry member))
    · exact fun other member => selects other (List.mem_cons_of_mem entry member)
    · intro changes final later
      cases updateOne_exit first with
      | passedOver => exact later
      | @logged after payload wal sequence matched assigns encoded logs =>
          rcases WriteAheadLog.append_sequence logs with ⟨counted, numbered⟩
          have member : entry.1 ∈ state.store := AList.lookup_isSome.mp (by rw [found]; rfl)
          refine Section.accounts_cons found ?_ counted (numbered sequence rfl)
            (selects entry List.mem_cons_self matched) later
          exact contentsOf_replace collections (ns, coll) member after

/-- The loop of a REMOVE accounts for what it does. -/
theorem removeOnes_account {targets : List DocumentId} {selected : DocumentId -> Prop}
    (selects : forall id, id ∈ targets -> selected id)
    (ran : runSection (removeOne P ns coll) moments turn targets state = (final, .ok changes)) :
    state.Accounts collections (ns, coll) selected changes final := by
  apply @runSection_traces _ _ _ _ _ _ (fun rest _ => forall id, id ∈ rest -> selected id)
    (fun state changes final => state.Accounts collections (ns, coll) selected changes final)
    _ _ _ _ ran selects
  · exact fun state _ => Section.accounts_nil (ns, coll) selected state
  · intro turn id rest state next change selects first
    refine ⟨fun other member => selects other (List.mem_cons_of_mem id member), ?_⟩
    intro changes final later
    cases removeOne_exit first with
    | absent => exact later
    | @logged doc wal sequence stored logs =>
        rcases WriteAheadLog.append_sequence logs with ⟨counted, numbered⟩
        refine Section.accounts_cons stored ?_ counted (numbered sequence rfl)
          (selects id List.mem_cons_self) later
        exact contentsOf_drop collections (ns, coll) state.store id

/-- A logged change and its record. -/
structure Change.Tells (recordType : RecordType) (ns coll : String) (change : Change)
    (record : NbfRecord) : Prop where
  sequence : record.sequence = change.sequence
  recordType : record.recordType = recordType
  namespaceName : record.namespaceName = ns
  collection : record.collection = coll
  documentId : record.documentId = change.id

/-- The changes of a section, told to the log one after another. -/
def Section.Tells (P : Platform) (recordType : RecordType) (ns coll : String) (state : Section)
    (changes : List Change) (final : Section) : Prop :=
  forall records, WriteAheadLog.Logs P state.wal records -> Exists fun added =>
    WriteAheadLog.Logs P final.wal (records ++ added) ∧
      List.Forall₂ (Change.Tells recordType ns coll) changes added

theorem Section.tells_nil (recordType : RecordType) (state : Section) :
    Section.Tells P recordType ns coll state [] state := by
  intro records logs
  refine ⟨[], ?_, List.Forall₂.nil⟩
  rw [List.append_nil]
  exact logs

theorem Section.tells_cons {recordType : RecordType} {next : Section} {change : Change}
    {env : Environment} (quiet : env.Quiet) {payload : List UInt8}
    (logs : state.wal.append P env ⟨recordType, ns, coll, change.id, payload, none⟩ =
      (next.wal, .ok change.sequence))
    (later : Section.Tells P recordType ns coll next changes final) :
    Section.Tells P recordType ns coll state (change :: changes) final := by
  intro records carried
  rcases carried.append quiet ⟨recordType, ns, coll, change.id, payload, none⟩ with
    ⟨middle, _, ⟨fault, fails, _⟩ | ⟨appends, written⟩⟩
  · cases fails.symm.trans logs
  · have same := appends.symm.trans logs
    have isNext : middle = next.wal := congrArg Prod.fst same
    have isNumber : state.wal.currentSequence + 1 = change.sequence :=
      Except.ok.inj (congrArg Prod.snd same)
    rw [isNext] at written
    rcases later _ written with ⟨added, carriedOn, tells⟩
    rw [List.append_assoc] at carriedOn
    exact ⟨_, carriedOn, List.Forall₂.cons ⟨isNumber, rfl, rfl, rfl, rfl⟩ tells⟩

theorem updateOnes_tell {assignments : List Assignment} {filter : Option Expr}
    {entries : List (Sigma fun _ : DocumentId => Document)}
    (quiet : forall turn, (moments turn).append.Quiet)
    (ran : runSection (updateOne P ns coll assignments filter) moments turn entries state =
      (final, .ok changes)) : Section.Tells P .update ns coll state changes final := by
  apply @runSection_traces _ _ _ _ _ _ (fun _ _ => True)
    (fun state changes final => Section.Tells P .update ns coll state changes final)
    _ _ _ _ ran trivial
  · exact fun state _ => Section.tells_nil .update state
  · intro turn entry rest state next change _ first
    refine ⟨trivial, ?_⟩
    intro changes final later
    cases updateOne_exit first with
    | passedOver => exact later
    | logged matched assigns encoded logs => exact Section.tells_cons (quiet turn) logs later

theorem removeOnes_tell {targets : List DocumentId}
    (quiet : forall turn, (moments turn).append.Quiet)
    (ran : runSection (removeOne P ns coll) moments turn targets state = (final, .ok changes)) :
    Section.Tells P .delete ns coll state changes final := by
  apply @runSection_traces _ _ _ _ _ _ (fun _ _ => True)
    (fun state changes final => Section.Tells P .delete ns coll state changes final)
    _ _ _ _ ran trivial
  · exact fun state _ => Section.tells_nil .delete state
  · intro turn id rest state next change _ first
    refine ⟨trivial, ?_⟩
    intro changes final later
    cases removeOne_exit first with
    | absent => exact later
    | logged stored logs => exact Section.tells_cons (quiet turn) logs later

end Changes

/-! ## Whole sections -/

section Whole

variable {P : Platform} {ns coll : String} {engine next : DatabaseEngine} {moments : Nat -> Moment}
  {filter : Option Expr} {changes : List Change}

/-- The documents of a collection that the filter of a statement selects. -/
def Selected (P : Platform) (filter : Option Expr) (store : DocumentStore) (id : DocumentId) :
    Prop :=
  Exists fun entry => entry ∈ store.entries ∧
    Evaluator.matchesFilter P filter entry.2 = .ok true ∧ id = entry.1

/-- A critical section that returns, with the account of its changes. -/
structure Accounted (P : Platform) (filter : Option Expr) (recordType : RecordType)
    (ns coll : String) (moments : Nat -> Moment) (engine : DatabaseEngine) (changes : List Change)
    (final : Section) : Prop where
  accounts : (engine.enter (ns, coll)).Accounts engine.collections (ns, coll)
    (Selected P filter (storeOf engine.collections (ns, coll))) changes final
  tells : (forall turn, (moments turn).append.Quiet) ->
    Section.Tells P recordType ns coll (engine.enter (ns, coll)) changes final

theorem updateSection_accounted {assignments : List Assignment}
    (ran : updateSection P moments ns coll assignments filter engine = (next, .ok changes)) :
    Exists fun final => next = engine.leave (ns, coll) final ∧
      Accounted P filter .update ns coll moments engine changes final := by
  rcases updateSection_loop ran with ⟨final, loop, left⟩
  refine ⟨final, left, ?_, fun quiet => updateOnes_tell quiet loop⟩
  apply updateOnes_account (AList.nodupKeys _) _ _ loop
  · exact fun entry member => AList.mem_lookup_iff.mpr member
  · exact fun entry member matched => ⟨entry, member, matched, rfl⟩

theorem removeSection_accounted
    (ran : removeSection P moments ns coll filter engine = (next, .ok changes)) :
    Exists fun final => next = engine.leave (ns, coll) final ∧
      Accounted P filter .delete ns coll moments engine changes final := by
  cases isTargets : removeTargets P filter (storeOf engine.collections (ns, coll)).entries with
  | error stop => cases removeSection_unresolved isTargets ran
  | ok targets =>
      rcases removeSection_loop isTargets ran with ⟨final, loop, left⟩
      refine ⟨final, left, ?_, fun quiet => removeOnes_tell quiet loop⟩
      apply removeOnes_account _ loop
      intro id member
      rcases removeTargets_matched isTargets member with ⟨entry, inStore, rfl, matched⟩
      exact ⟨entry, inStore, matched, rfl⟩

/-- A loop whose elements each take at most one number takes at most as many. -/
theorem runSection_counter {α : Type}
    {one : Moment -> α -> Section -> Section × Except Stop (Option Change)}
    (takes : forall moment element state,
      (one moment element state).1.wal.currentSequence = state.wal.currentSequence ∨
        (one moment element state).1.wal.currentSequence = state.wal.currentSequence + 1)
    {turn : Nat} {elements : List α} {state final : Section} {outcome : Except Stop (List Change)}
    (ran : runSection one moments turn elements state = (final, outcome))
    (room : state.wal.currentSequence.toNat + elements.length < 2 ^ 64) :
    state.wal.currentSequence.toNat ≤ final.wal.currentSequence.toNat := by
  induction elements generalizing turn state outcome with
  | nil =>
      cases ran
      exact Nat.le_refl _
  | cons element rest ih =>
      rw [List.length_cons] at room
      have step : forall {next result}, one (moments turn) element state = (next, result) ->
          state.wal.currentSequence.toNat ≤ next.wal.currentSequence.toNat ∧
            next.wal.currentSequence.toNat + rest.length < 2 ^ 64 := by
        intro next result first
        have counted := takes (moments turn) element state
        rw [first] at counted
        rcases counted with same | one
        · rw [same]
          exact ⟨Nat.le_refl _, by omega⟩
        · rw [one, toNat_next (by omega)]
          exact ⟨Nat.le_succ _, by omega⟩
      rcases runSection_cons ran with ⟨stop, first, _⟩ | ⟨next, change, others, first, later, _⟩
      · exact (step first).1
      · exact Nat.le_trans (step first).1 (ih later (step first).2)

theorem runSection_length {α : Type}
    {one : Moment -> α -> Section -> Section × Except Stop (Option Change)} {turn : Nat}
    {elements : List α} {state final : Section}
    (ran : runSection one moments turn elements state = (final, .ok changes)) :
    changes.length ≤ elements.length := by
  induction elements generalizing turn state changes with
  | nil =>
      cases ran
      exact Nat.le_refl 0
  | cons element rest ih =>
      rcases runSection_cons ran with ⟨stop, _, stopped⟩ | ⟨next, change, others, first, later, same⟩
      · cases stopped
      · cases others with
        | error stop => cases same
        | ok others =>
            cases same
            have shorter := ih later
            cases change with
            | none => exact Nat.le_succ_of_le shorter
            | some change => exact Nat.succ_le_succ shorter

theorem updateOne_takes (assignments : List Assignment) (filter : Option Expr) (moment : Moment)
    (entry : Sigma fun _ : DocumentId => Document) (state : Section) :
    (updateOne P ns coll assignments filter moment entry state).1.wal.currentSequence =
        state.wal.currentSequence ∨
      (updateOne P ns coll assignments filter moment entry state).1.wal.currentSequence =
        state.wal.currentSequence + 1 := by
  cases ran : updateOne P ns coll assignments filter moment entry state with
  | mk next outcome =>
      cases updateOne_exit ran with
      | unfiltered | passedOver | unassigned | unserialized => exact Or.inl rfl
      | unlogged _ _ _ fails => exact Or.inr (WriteAheadLog.append_sequence fails).1
      | logged _ _ _ logs => exact Or.inr (WriteAheadLog.append_sequence logs).1

theorem removeOne_takes (moment : Moment) (id : DocumentId) (state : Section) :
    (removeOne P ns coll moment id state).1.wal.currentSequence = state.wal.currentSequence ∨
      (removeOne P ns coll moment id state).1.wal.currentSequence =
        state.wal.currentSequence + 1 := by
  cases ran : removeOne P ns coll moment id state with
  | mk next outcome =>
      cases removeOne_exit ran with
      | absent => exact Or.inl rfl
      | unlogged _ fails => exact Or.inr (WriteAheadLog.append_sequence fails).1
      | logged _ logs => exact Or.inr (WriteAheadLog.append_sequence logs).1

theorem removeTargets_length {entries : List (Sigma fun _ : DocumentId => Document)}
    {targets : List DocumentId} (isTargets : removeTargets P filter entries = .ok targets) :
    targets.length ≤ entries.length := by
  induction entries generalizing targets with
  | nil =>
      cases isTargets
      exact Nat.le_refl 0
  | cons entry rest ih =>
      rw [removeTargets] at isTargets
      split at isTargets
      · cases isTargets
      · exact Nat.le_succ_of_le (ih isTargets)
      · exact Nat.le_succ_of_le (ih isTargets)
      · cases others : removeTargets P filter rest with
        | error stop =>
            rw [others] at isTargets
            cases isTargets
        | ok list =>
            rw [others] at isTargets
            cases isTargets
            exact Nat.succ_le_succ (ih others)

/-- What a critical section does to the counter of the log, when that does not
wrap around: it goes forth, by no more than the documents of the collection. -/
structure Counts (engine next : DatabaseEngine) (store : DocumentStore)
    (outcome : Except Stop (List Change)) : Prop where
  forth : engine.wal.currentSequence.toNat ≤ next.wal.currentSequence.toNat
  few : forall changes, outcome = .ok changes -> changes.length ≤ store.entries.length

theorem updateSection_counts {assignments : List Assignment} {outcome : Except Stop (List Change)}
    (ran : updateSection P moments ns coll assignments filter engine = (next, outcome))
    (room : engine.wal.currentSequence.toNat +
      (storeOf engine.collections (ns, coll)).entries.length < 2 ^ 64) :
    Counts engine next (storeOf engine.collections (ns, coll)) outcome := by
  rcases updateSection_loop ran with ⟨final, loop, rfl⟩
  refine ⟨runSection_counter (updateOne_takes assignments filter) loop room, ?_⟩
  rintro changes rfl
  exact runSection_length loop

theorem removeSection_counts {outcome : Except Stop (List Change)}
    (ran : removeSection P moments ns coll filter engine = (next, outcome))
    (room : engine.wal.currentSequence.toNat +
      (storeOf engine.collections (ns, coll)).entries.length < 2 ^ 64) :
    Counts engine next (storeOf engine.collections (ns, coll)) outcome := by
  cases isTargets : removeTargets P filter (storeOf engine.collections (ns, coll)).entries with
  | error stop =>
      have entered : removeTargets P filter (engine.enter (ns, coll)).store.entries = .error stop :=
        isTargets
      simp only [removeSection, entered] at ran
      cases ran
      refine ⟨Nat.le_refl _, ?_⟩
      intro changes isOk
      cases isOk
  | ok targets =>
      have fewer := removeTargets_length isTargets
      rcases removeSection_loop isTargets ran with ⟨final, loop, rfl⟩
      refine ⟨runSection_counter removeOne_takes loop (Nat.lt_of_le_of_lt ?_ room), ?_⟩
      · exact Nat.add_le_add_left fewer _
      · rintro changes rfl
        exact Nat.le_trans (runSection_length loop) fewer

/-- The changes lead from the contents before the section to those after it. -/
theorem Accounted.leads {recordType : RecordType} {final : Section}
    (accounted : Accounted P filter recordType ns coll moments engine changes final) :
    Edit.Leads (contentsOf engine.collections) (changes.map (Change.edit (ns, coll)))
      (contentsOf (engine.leave (ns, coll) final).collections) := by
  have leads := accounted.accounts.leads
  have entered : (engine.enter (ns, coll)).view engine.collections (ns, coll) =
      contentsOf engine.collections := contentsOf_same engine.collections (ns, coll)
  rw [entered] at leads
  exact leads

end Whole

end DatabaseEngine

end Server
end NovaDb
