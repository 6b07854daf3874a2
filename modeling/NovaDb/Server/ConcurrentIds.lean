import NovaDb.Foundation.Ledger
import NovaDb.Server.ConcurrentLog

namespace NovaDb
namespace Server

open Core Foundation Index Query Storage DatabaseEngine

/-!
# Interleaved writes and ids

An INSERT checks that its id is free and stores its document two steps later.  As
long as no other INSERT checks the same id in between, the engine is a ledger of
ids, and between two acknowledged INSERTs of an id a REMOVE has taken it out.
-/

/-! ## The ledger of a system -/

/-- Where a task stands with the id or the ids it is about. -/
def Task.standing : Task -> Standing Place
  | ⟨.insert ns coll doc, .checked⟩ | ⟨.insert ns coll doc, .logged _⟩ =>
      .checked ((ns, coll), doc.id)
  | ⟨.insert ns coll doc, .stored _⟩ | ⟨.insert ns coll doc, .indexed _⟩
  | ⟨.insert ns coll doc, .answered (.ok _)⟩ => .stored ((ns, coll), doc.id)
  | ⟨.insert ns coll doc, .answered (.error stop)⟩ =>
      if stop.cause = .duplicate then .refused ((ns, coll), doc.id) else .outside
  | ⟨.remove ns coll _, .changed _⟩ | ⟨.remove ns coll _, .answered (.ok _)⟩ =>
      .removed (fun place => place.1 = (ns, coll))
  | _ => .outside

def System.ledger (system : System) : Ledger Place where
  present := fun place => (contentsOf system.engine.collections place).isSome
  standings := system.tasks.map Task.standing
  history := system.history

/-- No INSERT checks an id while another INSERT is between its check of the id and
its store insert. -/
def KeepsChecks (system : System) : Action -> Prop
  | .arrive _ => True
  | .advance index _ =>
      forall ns coll doc, system.tasks[index]? = some ⟨.insert ns coll doc, .waiting⟩ ->
        forall task, task ∈ system.tasks -> task.standing ≠ .checked ((ns, coll), doc.id)

/-- No REMOVE fails to log a document that it has taken out: it stops at most at
its filter. -/
def LogsRemovals (P : Platform) (system : System) : Action -> Prop
  | .arrive _ => True
  | .advance index moments =>
      forall ns coll filter stop, (system.perform P (.advance index moments)).tasks[index]? =
        some ⟨.remove ns coll filter, .answered (.error stop)⟩ -> stop.cause = .filter

section Steps

variable {P : Platform} {system : System} {index : Nat} {ns coll : String}

theorem standing_of_task {task : Task} (isTask : system.tasks[index]? = some task) :
    system.ledger.standings[index]? = some task.standing :=
  System.map_task Task.standing isTask

theorem hasDocument_present (engine : DatabaseEngine) (key : CollectionKey) (id : DocumentId) :
    engine.hasDocument key id = (contentsOf engine.collections (key, id)).isSome := by
  rw [Bool.eq_iff_iff, hasDocument, decide_eq_true_iff]
  exact AList.lookup_isSome.symm

/-- The ledger when a task has moved on. -/
theorem ledger_set (engine : DatabaseEngine) (task : Task) (history : List (Mark Place)) :
    System.ledger ⟨engine, system.tasks.set index task, history⟩ =
      ⟨fun place => (contentsOf engine.collections place).isSome,
        system.ledger.standings.set index task.standing, history⟩ := by
  simp only [System.ledger, List.map_set]

/-- A step that changes no standing, no id and no history. -/
theorem ledger_idle {request : Request} {progress next : Progress} {engine : DatabaseEngine}
    {marked : List (Mark Place)} (isTask : system.tasks[index]? = some ⟨request, progress⟩)
    (sameStanding : Task.standing ⟨request, next⟩ = Task.standing ⟨request, progress⟩)
    (sameIds : forall place, (contentsOf engine.collections place).isSome =
      (contentsOf system.engine.collections place).isSome) (unmarked : marked = []) :
    Relation.ReflTransGen Ledger.Step system.ledger
      (System.ledger ⟨engine, system.tasks.set index ⟨request, next⟩, system.history ++ marked⟩) := by
  rw [ledger_set, sameStanding, set_of_getElem? (standing_of_task isTask), unmarked,
    List.append_nil]
  simp only [sameIds]
  exact Relation.ReflTransGen.refl

/-- The steps of an INSERT. -/
theorem ledger_insert {doc : Document} {progress : Progress} {moment : Moment}
    (isTask : system.tasks[index]? = some ⟨.insert ns coll doc, progress⟩)
    (checks : progress = .waiting ->
      forall task, task ∈ system.tasks -> task.standing ≠ .checked ((ns, coll), doc.id))
    {engine : DatabaseEngine} {next : Progress}
    (steps : Request.advanceInsert P moment ns coll doc progress system.engine = (engine, next)) :
    Relation.ReflTransGen Ledger.Step system.ledger
      (System.ledger ⟨engine, system.tasks.set index ⟨.insert ns coll doc, next⟩,
        system.history ++ System.marks index (.insert ns coll doc) progress next⟩) := by
  have standing := standing_of_task isTask
  cases advanceInsert_step steps with
  | refused present =>
      rw [hasDocument_present] at present
      rw [ledger_set]
      change Relation.ReflTransGen Ledger.Step system.ledger ⟨_, _, system.history ++ []⟩
      rw [List.append_nil]
      exact Relation.ReflTransGen.single (.refuse standing present)
  | checked absent =>
      rw [hasDocument_present] at absent
      rw [ledger_set]
      change Relation.ReflTransGen Ledger.Step system.ledger ⟨_, _, system.history ++ []⟩
      rw [List.append_nil]
      refine Relation.ReflTransGen.single (.check standing absent ?_)
      intro other isChecked
      rcases List.mem_map.mp (List.mem_of_getElem? isChecked) with ⟨task, member, claimed⟩
      exact checks rfl task member claimed
  | @unlogged wal stop fails =>
      have standsOutside : Task.standing ⟨.insert ns coll doc, .answered (.error stop)⟩ = .outside :=
        if_neg (logInsert_not_duplicate fails)
      rw [ledger_set, standsOutside]
      change Relation.ReflTransGen Ledger.Step system.ledger ⟨_, _, system.history ++ []⟩
      rw [List.append_nil]
      exact Relation.ReflTransGen.single (.abandon standing)
  | logged logs => exact ledger_idle isTask rfl (fun _ => rfl) rfl
  | stored =>
      have isPresent : (fun place => (contentsOf (storeInsert (ns, coll) doc
          system.engine).collections place).isSome) =
          Function.update system.ledger.present ((ns, coll), doc.id) true := by
        funext place
        rw [storeInsert_contents]
        by_cases same : place = ((ns, coll), doc.id)
        · rw [same, Function.update_self, Function.update_self]
          rfl
        · rw [Function.update_of_ne same, Function.update_of_ne same]
          rfl
      rw [ledger_set, isPresent]
      exact Relation.ReflTransGen.single (.store standing)
  | indexed => exact ledger_idle isTask rfl (fun _ => rfl) rfl
  | answered => exact ledger_idle isTask rfl (fun _ => rfl) rfl
  | idle => exact ledger_idle isTask rfl (fun _ => rfl) rfl
  | done => exact ledger_idle isTask rfl (fun _ => rfl) rfl

/-- The steps of an UPDATE: it keeps the ids, also when it fails. -/
theorem ledger_update {assignments : List Assignment} {filter : Option Expr} {progress : Progress}
    {moments : Nat -> Moment}
    (isTask : system.tasks[index]? = some ⟨.update ns coll assignments filter, progress⟩)
    {engine : DatabaseEngine} {next : Progress}
    (steps : (Request.update ns coll assignments filter).advance P moments progress system.engine =
      (engine, next)) :
    Relation.ReflTransGen Ledger.Step system.ledger
      (System.ledger ⟨engine, system.tasks.set index ⟨.update ns coll assignments filter, next⟩,
        system.history ++ System.marks index (.update ns coll assignments filter) progress next⟩) := by
  refine ledger_idle isTask rfl ?_ rfl
  intro place
  cases advanceSection_step steps with
  | stopped fails => exact updateSection_ids fails place
  | changed ran => exact updateSection_ids ran place
  | answered => rfl
  | rests => rfl

/-- The steps of a REMOVE. -/
theorem ledger_remove {filter : Option Expr} {progress : Progress} {moments : Nat -> Moment}
    (isTask : system.tasks[index]? = some ⟨.remove ns coll filter, progress⟩)
    {engine : DatabaseEngine} {next : Progress}
    (steps : (Request.remove ns coll filter).advance P moments progress system.engine =
      (engine, next))
    (logs : forall stop, next = .answered (.error stop) -> stop.cause = .filter) :
    Relation.ReflTransGen Ledger.Step system.ledger
      (System.ledger ⟨engine, system.tasks.set index ⟨.remove ns coll filter, next⟩,
        system.history ++ System.marks index (.remove ns coll filter) progress next⟩) := by
  cases advanceSection_step steps with
  | stopped fails =>
      have same := removeSection_unfiltered (logs _ rfl) fails
      refine ledger_idle isTask rfl ?_ rfl
      intro place
      rw [same]
  | @changed _ changes ran =>
      have marked : System.marks index (.remove ns coll filter) .waiting (.changed changes) =
          (changes.map (fun change => ((ns, coll), change.id))).map (.take index) := by
        rw [List.map_map]
        rfl
      have contents := removeSection_contents ran
      rw [ledger_set, marked]
      refine Relation.ReflTransGen.single (.remove (standing_of_task isTask) ?_ ?_ ?_)
      · intro place member
        rcases List.mem_map.mp member with ⟨change, _, rfl⟩
        rfl
      · intro place member
        rw [contents place, if_pos member]
        rfl
      · intro place untouched
        rw [contents place, if_neg untouched]
        rfl
  | answered => exact ledger_idle isTask rfl (fun _ => rfl) rfl
  | rests entered =>
      refine ledger_idle isTask rfl (fun _ => rfl) ?_
      cases progress with
      | waiting => exact absurd rfl entered
      | checked | logged | stored | indexed | changed | answered => rfl

/-- The engine is a ledger of ids. -/
theorem ledger_advance {moments : Nat -> Moment} (logs : LogsRemovals P system (.advance index moments))
    (checks : KeepsChecks system (.advance index moments)) :
    Relation.ReflTransGen Ledger.Step system.ledger
      (system.perform P (.advance index moments)).ledger := by
  rw [LogsRemovals] at logs
  cases isTask : system.tasks[index]? with
  | none =>
      rw [System.perform_absent index moments isTask]
  | some task =>
      rcases task with ⟨request, progress⟩
      cases steps : request.advance P moments progress system.engine with
      | mk engine next =>
          rw [System.perform_advance index moments isTask steps rfl] at logs ⊢
          have inside := (List.getElem?_eq_some_iff.mp isTask).1
          cases request with
          | insert ns coll doc =>
              refine ledger_insert isTask ?_ steps
              rintro rfl
              exact checks ns coll doc isTask
          | update ns coll assignments filter => exact ledger_update isTask steps
          | remove ns coll filter =>
              refine ledger_remove isTask steps ?_
              rintro stop rfl
              exact logs ns coll filter stop (List.getElem?_set_self inside)

end Steps

/-! ## Refusals -/

/-- An INSERT fails with `DocumentAlreadyExists`, or at its payload or append. -/
def RefusesDuplicates (tasks : List Task) : Prop :=
  forall ns coll doc stop, ⟨.insert ns coll doc, .answered (.error stop)⟩ ∈ tasks ->
    stop = ⟨.duplicate, .error (duplicateError coll doc.id)⟩ ∨
      stop.cause = .payload ∨ stop.cause = .append

theorem advanceInsert_refused {P : Platform} {moment : Moment} {ns coll : String} {doc : Document}
    {progress : Progress} {engine next : DatabaseEngine} {stop : Stop}
    (steps : Request.advanceInsert P moment ns coll doc progress engine =
      (next, .answered (.error stop))) :
    progress = .answered (.error stop) ∨
      stop = ⟨.duplicate, .error (duplicateError coll doc.id)⟩ ∨
        stop.cause = .payload ∨ stop.cause = .append := by
  cases advanceInsert_step steps with
  | refused present => exact Or.inr (Or.inl rfl)
  | unlogged fails => exact Or.inr (Or.inr (logInsert_cause fails))
  | done => exact Or.inl rfl

theorem RefusesDuplicates.advance {P : Platform} {system : System} {index : Nat}
    {moments : Nat -> Moment} (refuses : RefusesDuplicates system.tasks) :
    RefusesDuplicates (system.perform P (.advance index moments)).tasks := by
  cases isTask : system.tasks[index]? with
  | none =>
      rw [System.perform_absent index moments isTask]
      exact refuses
  | some task =>
      rcases task with ⟨request, progress⟩
      cases steps : request.advance P moments progress system.engine with
      | mk engine next =>
          rw [System.perform_advance index moments isTask steps rfl]
          intro ns coll doc stop member
          rcases List.mem_or_eq_of_mem_set member with old | new
          · exact refuses ns coll doc stop old
          · cases new
            rcases advanceInsert_refused steps with rfl | refusal
            · exact refuses ns coll doc stop (List.mem_of_getElem? isTask)
            · exact refusal

/-! ## Runs -/

/-- A run in which removals are logged and no check is overtaken. -/
abbrev CheckedRun (P : Platform) (start : DatabaseEngine) : System -> Prop :=
  Interleaves P (fun system action => LogsRemovals P system action ∧ KeepsChecks system action)
    ⟨start, [], []⟩

theorem CheckedRun.ledger {P : Platform} {start : DatabaseEngine} {system : System}
    (run : CheckedRun P start system) :
    Relation.ReflTransGen Ledger.Step (System.ledger ⟨start, [], []⟩) system.ledger := by
  induction run with
  | start => exact Relation.ReflTransGen.refl
  | @perform system action run permits ih =>
      cases action with
      | arrive request =>
          have standing : Task.standing ⟨request, .waiting⟩ = .outside := by
            cases request <;> rfl
          have arrived : (system.perform P (.arrive request)).ledger =
              { system.ledger with standings := system.ledger.standings ++ [.outside] } := by
            simp only [System.perform, System.ledger, List.map_append, List.map_singleton, standing]
          rw [arrived]
          exact ih.tail Ledger.Step.arrive
      | advance index moments => exact ih.trans (ledger_advance permits.1 permits.2)
  | @rearranged system engine run same ih =>
      have sameLedger : System.ledger { system with engine } = system.ledger := by
        simp only [System.ledger, ← contentsOf_perm same.stores]
      rw [sameLedger]
      exact ih

theorem CheckedRun.refuses {P : Platform} {start : DatabaseEngine} {system : System}
    (run : CheckedRun P start system) : RefusesDuplicates system.tasks := by
  induction run with
  | start =>
      intro ns coll doc stop member
      cases member
  | @perform system action run permits ih =>
      cases action with
      | arrive request =>
          intro ns coll doc stop member
          rcases List.mem_append.mp member with old | new
          · exact ih ns coll doc stop old
          · cases List.mem_singleton.mp new
      | advance index moments => exact ih.advance
  | rearranged run same ih => exact ih

/-! ## Unique ids -/

/-- The task is an INSERT of the id, this far. -/
def System.Inserts (system : System) (index : Nat) (place : Place) (progress : Progress) : Prop :=
  Exists fun ns => Exists fun coll => Exists fun doc =>
    system.tasks[index]? = some ⟨.insert ns coll doc, progress⟩ ∧ place = ((ns, coll), doc.id)

/-- The task is a REMOVE on the collection of the id that has left its critical
section: it is answered with `Ok`, or its events are all that is left to do. -/
def System.Removes (system : System) (index : Nat) (place : Place) : Prop :=
  Exists fun ns => Exists fun coll => Exists fun filter => Exists fun progress =>
    system.tasks[index]? = some ⟨.remove ns coll filter, progress⟩ ∧ place.1 = (ns, coll) ∧
      ((Exists fun changes => progress = .changed changes) ∨
        Exists fun payload => progress = .answered (.ok payload))

/-- Between two acknowledged INSERTs of an id a REMOVE has taken it out.  Of the
INSERTs of an id that was absent and never taken out, once all are answered and
if none fails to write its record, exactly one is acknowledged and the others are
refused. -/
structure UniqueIds (initially : Contents) (system : System) : Prop where
  separated : forall {first second : Nat} {place : Place} {one other : ResponsePayload},
    first ≠ second -> system.Inserts first place (.answered (.ok one)) ->
      system.Inserts second place (.answered (.ok other)) ->
        Exists fun remover => system.Removes remover place ∧
          (Mark.Between (.put first place) (.take remover place) (.put second place)
              system.history ∨
            Mark.Between (.put second place) (.take remover place) (.put first place)
              system.history)
  fresh : forall {place : Place}, initially place = none ->
    (forall task, Mark.take task place ∉ system.history) ->
      (Exists fun index => Exists fun progress => system.Inserts index place progress) ->
        (forall index progress, system.Inserts index place progress ->
          Exists fun outcome => progress = .answered outcome) ->
        (forall index stop, system.Inserts index place (.answered (.error stop)) ->
          stop.cause ≠ .payload ∧ stop.cause ≠ .append) ->
          Exists fun winner =>
            (Exists fun payload => system.Inserts winner place (.answered (.ok payload))) ∧
              forall index progress, system.Inserts index place progress -> index ≠ winner ->
                progress = .answered
                  (.error ⟨.duplicate, .error (duplicateError place.1.2 place.2)⟩)

section Standings

variable {system : System} {index : Nat} {place : Place}

theorem System.Inserts.acknowledged {payload : ResponsePayload}
    (inserts : system.Inserts index place (.answered (.ok payload))) :
    system.ledger.standings[index]? = some (.stored place) := by
  rcases inserts with ⟨ns, coll, doc, isTask, rfl⟩
  exact standing_of_task isTask

theorem System.Inserts.refused {stop : Stop} (duplicate : stop.cause = .duplicate)
    (inserts : system.Inserts index place (.answered (.error stop))) :
    system.ledger.standings[index]? = some (.refused place) := by
  rcases inserts with ⟨ns, coll, doc, isTask, rfl⟩
  rw [standing_of_task isTask, Task.standing, if_pos duplicate]

/-- An INSERT that is answered with an error and did not fail to write its record. -/
theorem System.Inserts.duplicate {stop : Stop} (refuses : RefusesDuplicates system.tasks)
    (inserts : system.Inserts index place (.answered (.error stop)))
    (written : stop.cause ≠ .payload ∧ stop.cause ≠ .append) :
    stop = ⟨.duplicate, .error (duplicateError place.1.2 place.2)⟩ := by
  rcases inserts with ⟨ns, coll, doc, isTask, rfl⟩
  rcases refuses ns coll doc stop (List.mem_of_getElem? isTask) with same | atPayload | atAppend
  · exact same
  · exact absurd atPayload written.1
  · exact absurd atAppend written.2

theorem task_of_standing {standing : Standing Place}
    (isStanding : system.ledger.standings[index]? = some standing) :
    Exists fun task => system.tasks[index]? = some task ∧ task.standing = standing := by
  change (system.tasks.map Task.standing)[index]? = some standing at isStanding
  rw [List.getElem?_map] at isStanding
  exact Option.map_eq_some_iff.mp isStanding

/-- An id is stored by an INSERT of it, which is not refused. -/
theorem inserts_of_stored (isStored : system.ledger.standings[index]? = some (.stored place)) :
    Exists fun progress => system.Inserts index place progress ∧
      forall stop, progress ≠ .answered (.error stop) := by
  rcases task_of_standing isStored with ⟨⟨request, progress⟩, isTask, standing⟩
  cases request with
  | insert ns coll doc =>
      cases progress with
      | stored sequence =>
          cases standing
          exact ⟨_, ⟨ns, coll, doc, isTask, rfl⟩, by nofun⟩
      | indexed sequence =>
          cases standing
          exact ⟨_, ⟨ns, coll, doc, isTask, rfl⟩, by nofun⟩
      | answered outcome =>
          cases outcome with
          | ok payload =>
              cases standing
              refine ⟨_, ⟨ns, coll, doc, isTask, rfl⟩, ?_⟩
              intro stop same
              cases same
          | error stop =>
              rw [Task.standing] at standing
              split at standing
              · cases standing
              · cases standing
      | waiting | checked | logged | changed => cases standing
  | update ns coll assignments filter => cases standing
  | remove ns coll filter =>
      cases progress with
      | answered outcome => cases outcome <;> cases standing
      | waiting | checked | logged | stored | indexed | changed => cases standing

theorem removes_of_removed {scope : Place -> Prop}
    (isRemoved : system.ledger.standings[index]? = some (.removed scope)) (inScope : scope place) :
    system.Removes index place := by
  rcases task_of_standing isRemoved with ⟨⟨request, progress⟩, isTask, standing⟩
  cases request with
  | insert ns coll doc =>
      cases progress with
      | answered outcome =>
          cases outcome with
          | ok payload => cases standing
          | error stop =>
              rw [Task.standing] at standing
              split at standing
              · cases standing
              · cases standing
      | waiting | checked | logged | stored | indexed | changed => cases standing
  | update ns coll assignments filter => cases standing
  | remove ns coll filter =>
      cases progress with
      | changed changes =>
          cases standing
          exact ⟨ns, coll, filter, _, isTask, inScope, Or.inl ⟨changes, rfl⟩⟩
      | answered outcome =>
          cases outcome with
          | ok payload =>
              cases standing
              exact ⟨ns, coll, filter, _, isTask, inScope, Or.inr ⟨payload, rfl⟩⟩
          | error stop => cases standing
      | waiting | checked | logged | stored | indexed => cases standing

end Standings

/-- In every run of concurrent requests in which no INSERT checks an id while
another is between its check of the id and its store insert, ids are unique. -/
theorem ids_unique {P : Platform} {start : DatabaseEngine} {system : System}
    (run : CheckedRun P start system) : UniqueIds (contentsOf start.collections) system := by
  have kept := Ledger.kept_of_run run.ledger
  have refuses := run.refuses
  constructor
  · intro first second place one other different isFirst isSecond
    rcases kept.separated different isFirst.acknowledged isSecond.acknowledged with
      ⟨remover, scope, isRemoved, inScope, between⟩
    exact ⟨remover, removes_of_removed isRemoved inScope, between⟩
  · intro place absent untaken some answered written
    have acknowledged : Exists fun winner =>
        Exists fun payload => system.Inserts winner place (.answered (.ok payload)) := by
      rcases some with ⟨index, progress, inserts⟩
      rcases answered index progress inserts with ⟨outcome, rfl⟩
      cases outcome with
      | ok payload => exact ⟨index, payload, inserts⟩
      | error stop =>
          have initially : (contentsOf start.collections place).isSome = false := by
            rw [absent]
            rfl
          have duplicate : stop.cause = .duplicate := by
            rw [inserts.duplicate refuses (written index stop inserts)]
          rcases kept.stored_of_refused initially (inserts.refused duplicate) with
            ⟨winner, isStored⟩
          rcases inserts_of_stored isStored with ⟨progress, wins, unrefused⟩
          rcases answered winner progress wins with ⟨outcome, rfl⟩
          cases outcome with
          | ok payload => exact ⟨winner, payload, wins⟩
          | error stop => exact absurd rfl (unrefused stop)
    rcases acknowledged with ⟨winner, payload, wins⟩
    refine ⟨winner, ⟨payload, wins⟩, ?_⟩
    intro index progress inserts different
    rcases answered index progress inserts with ⟨outcome, rfl⟩
    cases outcome with
    | ok other =>
        exact absurd (kept.stored_once untaken inserts.acknowledged wins.acknowledged) different
    | error stop => rw [inserts.duplicate refuses (written index stop inserts)]

theorem logsRemovals_of_succeeds {P : Platform} {system : System} {action : Action}
    (succeeds : Succeeds P system action) : LogsRemovals P system action := by
  cases action with
  | arrive request => trivial
  | advance index moments =>
      intro ns coll filter stop isTask
      rcases (succeeds.2 _ stop isTask rfl).2 with ⟨_, _, _, impossible⟩
      cases impossible

/-- A request on its own has no other to check the same id. -/
theorem keepsChecks_alone {system : System} (alone : system.tasks.length ≤ 1) (action : Action) :
    KeepsChecks system action := by
  cases action with
  | arrive request => trivial
  | advance index moments =>
      intro ns coll doc isTask task member
      rcases List.mem_iff_getElem?.mp member with ⟨other, isOther⟩
      have inside := (List.getElem?_eq_some_iff.mp isTask).1
      have alsoInside := (List.getElem?_eq_some_iff.mp isOther).1
      have same : index = other := by omega
      subst same
      cases isTask.symm.trans isOther
      nofun

/-- A second INSERT of an id, behind the first, is refused. -/
theorem ids_unique_second :
    Exists fun system => CheckedRun samplePlatform (emptyEngine 4096) system ∧
      system.tasks =
        [⟨.insert "default" "users" sampleDocument, .answered (.ok (.records [sampleDocument] 1))⟩,
          ⟨.insert "default" "users" sampleDocument, .answered (.error
            ⟨.duplicate, .error (duplicateError "users" sampleDocument.id)⟩)⟩] ∧
      UniqueIds (contentsOf (emptyEngine 4096).collections) system := by
  rcases sample_alone with ⟨system, small, answered, inMemory⟩
  have run : CheckedRun samplePlatform (emptyEngine 4096) system :=
    small.mono fun _ action permits =>
      ⟨logsRemovals_of_succeeds permits.1, keepsChecks_alone permits.2 action⟩
  rcases system with ⟨engine, tasks, history⟩
  cases answered
  have arrived := @Interleaves.perform _ _ _ _
    (.arrive (.insert "default" "users" sampleDocument)) run ⟨trivial, trivial⟩
  rw [System.perform] at arrived
  have present : engine.hasDocument ("default", "users") sampleDocument.id = true := by
    rw [hasDocument_present, inMemory, Function.update_self]
    rfl
  have refuses := @System.perform_refuse samplePlatform
    ⟨engine, [⟨.insert "default" "users" sampleDocument, .answered (.ok (.records [sampleDocument] 1))⟩,
      ⟨.insert "default" "users" sampleDocument, .waiting⟩], history⟩ _ _ _ 1 quietMoments rfl present
  have refused := @Interleaves.perform _ _ _ _ (.advance 1 quietMoments) arrived ?_
  · rw [List.singleton_append, refuses] at refused
    exact ⟨_, refused, rfl, ids_unique refused⟩
  · constructor
    · intro ns coll filter stop isTask
      rw [List.singleton_append, refuses] at isTask
      cases isTask
    · intro ns coll doc isTask task member
      rcases List.mem_cons.mp member with rfl | member
      · intro isCall
        cases isCall
      · rw [List.mem_singleton.mp member]
        intro isCall
        cases isCall

/-- Two INSERTs of one id are both acknowledged, and nothing has taken it out. -/
theorem overtaking_not_unique :
    Exists fun system => SmallRun pairPlatform 2 (emptyEngine 4096) system ∧
      system.tasks =
        [⟨.insert "default" "users" sampleDocument, .answered (.ok (.records [sampleDocument] 1))⟩,
          ⟨.insert "default" "users" agedDocument, .answered (.ok (.records [agedDocument] 1))⟩] ∧
      ¬ UniqueIds (contentsOf (emptyEngine 4096).collections) system := by
  rcases pair_overtaking with ⟨system, run, isTasks, isHistory, _⟩
  refine ⟨system, run, isTasks, ?_⟩
  intro unique
  have left : system.Inserts 0 (("default", "users"), sampleDocument.id)
      (.answered (.ok (.records [sampleDocument] 1))) := by
    refine ⟨_, _, _, ?_, rfl⟩
    rw [isTasks]
    rfl
  have right : system.Inserts 1 (("default", "users"), sampleDocument.id)
      (.answered (.ok (.records [agedDocument] 1))) := by
    refine ⟨"default", "users", agedDocument, ?_, rfl⟩
    rw [isTasks]
    rfl
  rcases unique.separated Nat.zero_ne_one left right with ⟨remover, _, between⟩
  have taken := Mark.mem_of_between between
  rw [isHistory] at taken
  simp at taken

end Server
end NovaDb
