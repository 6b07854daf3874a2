import NovaDb.Server.FilterAnswers
import NovaDb.Server.StatementRecords

namespace NovaDb
namespace Server

open Core Foundation Index Query Storage DatabaseEngine

/-!
# COUNT, EXISTS and REMOVE

COUNT fails where the filter fails on a document, EXISTS stops at the first that
matches, and REMOVE passes over a document on which the filter fails.  Where COUNT
returns a number, the three are about the same documents: EXISTS tells whether
there are any, and REMOVE takes out these and logs them, unless an append fails.
-/

/-- What a REMOVE of `number` documents does, all of it. -/
structure RemovesExactly (P : Platform) (ns coll : String) (filter : Option Expr) (number : Nat)
    (engine : DatabaseEngine) (result : DatabaseEngine × Outcome ResponsePayload) : Prop where
  affected : Exists fun message => result.2 = .ok (.success message number)
  logged : Exists fun added => WriteAheadLog.Grows P engine.wal result.1.wal added ∧
    added.length = number ∧ (added.map NbfRecord.documentId).Nodup ∧
    forall record, record ∈ added -> record.recordType = .delete ∧ record.namespaceName = ns ∧
      record.collection = coll ∧ Exists fun doc =>
        (storeOf engine.collections (ns, coll)).lookup record.documentId = some doc ∧
          accepts P filter doc = true
  gone : forall id doc, (storeOf engine.collections (ns, coll)).lookup id = some doc ->
    accepts P filter doc = true -> (storeOf result.1.collections (ns, coll)).lookup id = none
  kept : forall id,
    (forall doc, (storeOf engine.collections (ns, coll)).lookup id = some doc ->
      accepts P filter doc = false) ->
    (storeOf result.1.collections (ns, coll)).lookup id =
      (storeOf engine.collections (ns, coll)).lookup id
  elsewhere : forall key, key ≠ (ns, coll) ->
    result.1.collections.lookup key = engine.collections.lookup key
  noneLeft : executeCount P ns coll filter result.1 = .ok (.count 0)
  fewer : Exists fun total =>
    executeCount P ns coll none engine = .ok (.count (total + number)) ∧
      executeCount P ns coll none result.1 = .ok (.count total)

/-! ## The loop over distinct ids -/

section Loop

variable {P : Platform} {ns coll : String} {moments : Nat -> Moment} {turn : Nat}
  {targets : List DocumentId} {state final : Section} {changes : List Change}

/-- Each stored target is taken out once. -/
theorem removeOnes_ids (distinct : targets.Nodup)
    (present : forall id, id ∈ targets -> id ∈ state.store)
    (ran : runSection (removeOne P ns coll) moments turn targets state = (final, .ok changes)) :
    changes.map Change.id = targets := by
  induction targets generalizing turn state changes with
  | nil =>
      cases ran
      rfl
  | cons target rest ih =>
      rcases List.nodup_cons.mp distinct with ⟨fresh, restDistinct⟩
      rcases runSection_cons ran with ⟨stop, _, stopped⟩ | ⟨next, change, others, first, later, same⟩
      · cases stopped
      · cases others with
        | error stop => cases same
        | ok others =>
            cases same
            cases removeOne_exit first with
            | absent missing =>
                have isStored := AList.lookup_isSome.mpr (present target List.mem_cons_self)
                rw [missing] at isStored
                cases isStored
            | logged stored logs =>
                have stays : forall id, id ∈ rest -> id ∈ state.store.erase target := by
                  intro id member
                  refine AList.mem_erase.mpr ⟨?_, present id (List.mem_cons_of_mem target member)⟩
                  rintro rfl
                  exact fresh member
                exact congrArg (target :: ·) (ih restDistinct stays later)

theorem length_erase {store : DocumentStore} {id : DocumentId} (member : id ∈ store) :
    (store.erase id).entries.length + 1 = store.entries.length := by
  have listed : id ∈ store.keys := AList.mem_keys.mp member
  have shorter := List.length_erase_add_one listed
  rw [← AList.keys_erase] at shorter
  simpa only [AList.keys, List.keys, List.length_map] using shorter

/-- Every change makes the store smaller by one document. -/
theorem removeOnes_size
    (ran : runSection (removeOne P ns coll) moments turn targets state = (final, .ok changes)) :
    final.store.entries.length + changes.length = state.store.entries.length := by
  apply @runSection_traces _ _ _ _ _ _ (fun _ _ => True)
    (fun state changes final =>
      final.store.entries.length + changes.length = state.store.entries.length)
    _ _ _ _ ran trivial
  · exact fun state _ => rfl
  · intro turn id rest state next change _ first
    refine ⟨trivial, ?_⟩
    intro changes final later
    cases removeOne_exit first with
    | absent => exact later
    | logged stored logs =>
        have member : id ∈ state.store := AList.lookup_isSome.mp (by rw [stored]; rfl)
        have smaller := length_erase member
        have rest : final.store.entries.length + changes.length =
            (state.store.erase id).entries.length := later
        simp only [Option.toList_some, List.singleton_append, List.length_cons]
        omega

end Loop

/-! ## The three statements -/

section Agreement

variable {P : Platform} {moments : Nat -> Moment} {ns coll : String} {filter : Option Expr}
  {engine : DatabaseEngine} {number : Nat}

theorem executeCount_resolved
    (resolves : Resolves P filter (documents (storeOf engine.collections (ns, coll)))) :
    executeCount P ns coll filter engine =
      .ok (.count ((documents (storeOf engine.collections (ns, coll))).countP (accepts P filter))) := by
  rw [executeCount, countMatches_resolved resolves]
  rfl

theorem executeCount_ok (counted : executeCount P ns coll filter engine = .ok (.count number)) :
    Resolves P filter (documents (storeOf engine.collections (ns, coll))) ∧
      number = (documents (storeOf engine.collections (ns, coll))).countP (accepts P filter) := by
  have resolves : Resolves P filter (documents (storeOf engine.collections (ns, coll))) := by
    rw [executeCount] at counted
    cases counts : countMatches P filter (documents (storeOf engine.collections (ns, coll))) with
    | error fault =>
        rw [counts] at counted
        cases counted
    | ok total => exact countMatches_ok counts
  rw [executeCount_resolved resolves] at counted
  cases counted
  exact ⟨resolves, rfl⟩

theorem executeCount_all (ns coll : String) (engine : DatabaseEngine) :
    executeCount P ns coll none engine =
      .ok (.count (storeOf engine.collections (ns, coll)).entries.length) := by
  rw [executeCount_resolved (resolves_none P _), ← length_documents]
  have everything : (documents (storeOf engine.collections (ns, coll))).countP (accepts P none) =
      (documents (storeOf engine.collections (ns, coll))).length := by
    rw [List.countP_eq_length]
    exact fun _ _ => rfl
  rw [everything]

/-- What the loop of the REMOVE has done when it ran to its end. -/
structure Removed (P : Platform) (ns coll : String) (filter : Option Expr) (store : DocumentStore)
    (wal : WriteAheadLog) (final : Section) (changes : List Change) : Prop where
  ids : changes.map Change.id =
    (store.entries.filter fun entry => accepts P filter entry.2).map Sigma.fst
  lookup : forall id, final.store.lookup id =
    if id ∈ changes.map Change.id then none else store.lookup id
  size : final.store.entries.length + changes.length = store.entries.length
  records : Exists fun added => WriteAheadLog.Grows P wal final.wal added ∧
    List.Forall₂ (Change.Recorded P .delete ns coll) changes added

theorem removeSection_removed {next : DatabaseEngine} {changes : List Change}
    (resolves : Resolves P filter (documents (storeOf engine.collections (ns, coll))))
    (ran : removeSection P moments ns coll filter engine = (next, .ok changes)) :
    Exists fun final => next = engine.leave (ns, coll) final ∧
      Removed P ns coll filter (storeOf engine.collections (ns, coll)) engine.wal final changes := by
  rcases removeSection_loop (removeTargets_resolved resolves) ran with ⟨final, loop, left⟩
  refine ⟨final, left, removeOnes_ids (accepted_ids_nodup P filter _) ?_ loop,
    removeOnes_lookup loop, removeOnes_size loop, removeOnes_record loop⟩
  intro id member
  rcases (mem_accepted_ids P filter _ id).mp member with ⟨doc, stored, _⟩
  change id ∈ storeOf engine.collections (ns, coll)
  rw [← AList.lookup_isSome, stored]
  rfl

/-- The ids of the changes are those of the documents the filter accepts. -/
theorem Removed.mem_ids {store : DocumentStore} {wal : WriteAheadLog} {final : Section}
    {changes : List Change} (removed : Removed P ns coll filter store wal final changes)
    (id : DocumentId) : id ∈ changes.map Change.id <->
      Exists fun doc => store.lookup id = some doc ∧ accepts P filter doc = true := by
  rw [removed.ids]
  exact mem_accepted_ids P filter store id

theorem Removed.length {store : DocumentStore} {wal : WriteAheadLog} {final : Section}
    {changes : List Change} (removed : Removed P ns coll filter store wal final changes) :
    changes.length = (documents store).countP (accepts P filter) := by
  rw [← accepted_ids_length, ← removed.ids, List.length_map]

/-- What is left are documents of the store that the filter does not accept. -/
theorem Removed.left {store : DocumentStore} {wal : WriteAheadLog} {final : Section}
    {changes : List Change} (removed : Removed P ns coll filter store wal final changes)
    {doc : Document} (member : doc ∈ documents final.store) :
    doc ∈ documents store ∧ accepts P filter doc = false := by
  rcases mem_documents.mp member with ⟨id, stored⟩
  rw [removed.lookup] at stored
  split at stored
  · cases stored
  · rename_i untouched
    refine ⟨mem_documents.mpr ⟨id, stored⟩, ?_⟩
    rw [Bool.eq_false_iff]
    intro accepted
    exact untouched ((removed.mem_ids id).mpr ⟨doc, stored, accepted⟩)

theorem Removed.noneLeft {store : DocumentStore} {wal : WriteAheadLog} {final : Section}
    {changes : List Change} (removed : Removed P ns coll filter store wal final changes)
    (resolves : Resolves P filter (documents store)) :
    Resolves P filter (documents final.store) ∧
      (documents final.store).countP (accepts P filter) = 0 := by
  refine ⟨fun doc member => resolves doc (removed.left member).1, ?_⟩
  rw [List.countP_eq_zero]
  intro doc member accepted
  rw [(removed.left member).2] at accepted
  cases accepted

theorem storeOf_leave (engine : DatabaseEngine) (key : CollectionKey) (state : Section) :
    storeOf (engine.leave key state).collections key = state.store :=
  storeOf_insert _ _ _

theorem lookup_leave_ne (engine : DatabaseEngine) {key other : CollectionKey} (state : Section)
    (different : other ≠ key) :
    (engine.leave key state).collections.lookup other = engine.collections.lookup other :=
  AList.lookup_insert_ne different

/-- A REMOVE whose filter fails nowhere returns, unless an append fails. -/
theorem executeRemove_returns
    (resolves : Resolves P filter (documents (storeOf engine.collections (ns, coll))))
    (appends : forall fault,
      (executeRemove P moments ns coll filter engine).2 ≠ .error ⟨.append, fault⟩) :
    Exists fun next => Exists fun changes =>
      removeSection P moments ns coll filter engine = (next, .ok changes) := by
  cases ran : removeSection P moments ns coll filter engine with
  | mk next outcome =>
      cases outcome with
      | ok changes => exact ⟨next, changes, rfl⟩
      | error stop =>
          rcases removeSection_loop (removeTargets_resolved resolves) ran with ⟨final, loop, _⟩
          rcases stop with ⟨cause, fault⟩
          have atAppend : cause = .append := removeOnes_error loop
          subst atAppend
          exact absurd (by rw [executeRemove, ran]) (appends fault)

/-- COUNT, EXISTS and REMOVE agree on a filter.  Where COUNT answers a number, EXISTS
answers whether it is positive, and REMOVE, unless an append of it fails, removes as
many documents, those the filter accepts, and logs each of them.  -/
theorem count_exists_remove_agree
    (counted : (execute P moments (.count coll filter) ns engine).2 = .ok (.count number)) :
    (execute P moments (.exists coll filter) ns engine).2 = .ok (.exists (decide (0 < number))) ∧
      ((forall fault,
          (executeRemove P moments ns coll filter engine).2 ≠ .error ⟨.append, fault⟩) ->
        RemovesExactly P ns coll filter number engine
          (execute P moments (.remove coll filter) ns engine)) := by
  rcases executeCount_ok counted with ⟨resolves, rfl⟩
  constructor
  · change executeExists P ns coll filter engine = _
    rw [executeExists, existsMatch_resolved resolves, any_accepts]
    rfl
  · intro appends
    rcases executeRemove_returns resolves appends with ⟨next, changes, ran⟩
    rcases removeSection_removed resolves ran with ⟨final, rfl, removed⟩
    have finished : execute P moments (.remove coll filter) ns engine =
        (emitChanges .delete ns coll moments 0 changes (engine.leave (ns, coll) final),
          .ok (.success ("Removed " ++ toString changes.length ++ " document(s)")
            changes.length)) := by
      rw [execute, outcomeOf, executeRemove, ran]
      rfl
    rcases @emitChanges_state ns coll .delete moments 0 changes (engine.leave (ns, coll) final) with
      ⟨events, same⟩
    rw [same] at finished
    rw [finished, ← removed.length]
    rcases removed.noneLeft resolves with ⟨stillResolves, nothing⟩
    have sameStore : storeOf (engine.leave (ns, coll) final).collections (ns, coll) = final.store :=
      storeOf_leave engine (ns, coll) final
    constructor
    · exact ⟨_, rfl⟩
    · rcases removed.records with ⟨added, grows, recorded⟩
      refine ⟨added, grows, recorded.length_eq.symm, ?_, ?_⟩
      · rw [recorded_ids recorded, removed.ids]
        exact accepted_ids_nodup P filter _
      · intro record member
        rcases recorded_change recorded member with ⟨change, inChanges, isRecorded⟩
        refine ⟨isRecorded.recordType, isRecorded.namespaceName, isRecorded.collection, ?_⟩
        rw [isRecorded.documentId]
        exact (removed.mem_ids change.id).mp (List.mem_map_of_mem inChanges)
    · intro id doc stored accepted
      change (storeOf (engine.leave (ns, coll) final).collections (ns, coll)).lookup id = none
      rw [sameStore, removed.lookup, if_pos ((removed.mem_ids id).mpr ⟨doc, stored, accepted⟩)]
    · intro id passed
      change (storeOf (engine.leave (ns, coll) final).collections (ns, coll)).lookup id = _
      have untouched : id ∉ changes.map Change.id := by
        intro member
        rcases (removed.mem_ids id).mp member with ⟨doc, stored, accepted⟩
        rw [passed doc stored] at accepted
        cases accepted
      rw [sameStore, removed.lookup, if_neg untouched]
    · exact fun key different => lookup_leave_ne engine final different
    · rw [← nothing, ← sameStore]
      apply executeCount_resolved
      change Resolves P filter (documents (storeOf (engine.leave (ns, coll) final).collections _))
      rw [sameStore]
      exact stillResolves
    · refine ⟨final.store.entries.length, ?_, ?_⟩
      · rw [executeCount_all, removed.size]
      · rw [executeCount_all]
        exact congrArg (fun store => Except.ok (ResponsePayload.count store.entries.length)) sameStore

end Agreement

/-- Of two documents the filter selects one: COUNT counts it, and REMOVE takes it alone. -/
theorem count_exists_remove_agree_sample :
    (storeOf crowdInserted.collections ("default", "users")).entries.length = 2 ∧
      (execute crowdPlatform quietMoments (.count "users" isOne) "default" crowdInserted).2 =
        .ok (.count 1) ∧
      RemovesExactly crowdPlatform "default" "users" isOne 1 crowdInserted
        (execute crowdPlatform quietMoments (.remove "users" isOne) "default" crowdInserted) := by
  have found : (countMatches crowdPlatform isOne (documents (storeOf crowdInserted.collections
      ("default", "users")))).toOption = some 1 := by decide +kernel
  have counted : (execute crowdPlatform quietMoments (.count "users" isOne) "default"
      crowdInserted).2 = .ok (.count 1) := by
    change executeCount crowdPlatform "default" "users" isOne crowdInserted = _
    rw [executeCount]
    cases counts : countMatches crowdPlatform isOne (documents (storeOf crowdInserted.collections
        ("default", "users"))) with
    | error fault =>
        rw [counts] at found
        cases found
    | ok number =>
        rw [counts] at found
        cases found
        rfl
  have returns : (executeRemove crowdPlatform quietMoments "default" "users" isOne
      crowdInserted).2.toOption.isSome = true := by decide +kernel
  refine ⟨by decide +kernel, counted, (count_exists_remove_agree counted).2 ?_⟩
  intro fault fails
  rw [fails] at returns
  cases returns

end Server
end NovaDb
