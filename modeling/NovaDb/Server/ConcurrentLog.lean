import NovaDb.Server.Interleaving

namespace NovaDb
namespace Server

open Core Foundation Index Query Storage DatabaseEngine

/-!
# Interleaved writes and the log

An INSERT appends its record before its document is in memory.  In between the log
is ahead of memory by that document.  As long as nothing else is appended for the
same id in that time, the log is memory under the documents of the INSERTs in
between, and equal to memory when no request is in flight.
-/

/-- The document by which an INSERT has the log ahead of memory. -/
def Task.pending : Task -> Option (Place × Document)
  | ⟨.insert ns coll doc, .logged _⟩ => some (((ns, coll), doc.id), doc)
  | _ => none

/-- An INSERT of the id is between its append and its store insert. -/
def System.Pending (system : System) (place : Place) : Prop :=
  Exists fun index : Nat => Exists fun task => Exists fun doc =>
    system.tasks[index]? = some task ∧ task.pending = some (place, doc)

/-- The next step of the task may append a record for the id. -/
def Task.MayAppend (P : Platform) (engine : DatabaseEngine) (task : Task) (place : Place) : Prop :=
  match task.request, task.progress with
  | .insert ns coll doc, .checked => place = ((ns, coll), doc.id)
  | .update ns coll _ filter, .waiting | .remove ns coll filter, .waiting =>
      Exists fun entry => entry ∈ (storeOf engine.collections (ns, coll)).entries ∧
        Evaluator.matchesFilter P filter entry.2 = .ok true ∧ place = ((ns, coll), entry.1)
  | _, _ => False

/-- These places, as a list. -/
def Task.appends (P : Platform) (engine : DatabaseEngine) (task : Task) : List Place :=
  match task.request, task.progress with
  | .insert ns coll doc, .checked => [((ns, coll), doc.id)]
  | .update ns coll _ filter, .waiting | .remove ns coll filter, .waiting =>
      (storeOf engine.collections (ns, coll)).entries.filterMap fun entry =>
        match Evaluator.matchesFilter P filter entry.2 with
        | .ok true => some ((ns, coll), entry.1)
        | _ => none
  | _, _ => []

theorem Task.MayAppend.listed {P : Platform} {engine : DatabaseEngine} {task : Task} {place : Place}
    (mayAppend : task.MayAppend P engine place) : place ∈ task.appends P engine := by
  unfold Task.MayAppend at mayAppend
  unfold Task.appends
  split at mayAppend
  · exact List.mem_singleton.mpr mayAppend
  · rcases mayAppend with ⟨entry, member, matched, rfl⟩
    exact List.mem_filterMap.mpr ⟨entry, member, by rw [matched]⟩
  · rcases mayAppend with ⟨entry, member, matched, rfl⟩
    exact List.mem_filterMap.mpr ⟨entry, member, by rw [matched]⟩
  · cases mayAppend

/-- No record is appended for an id while an INSERT of it is between its append
and its store insert. -/
def KeepsOrder (P : Platform) (system : System) : Action -> Prop
  | .arrive _ => True
  | .advance index _ =>
      forall task place, system.tasks[index]? = some task ->
        task.MayAppend P system.engine place -> ¬ system.Pending place

/-- The log is memory under the documents of the INSERTs in between. -/
structure Coherent (P : Platform) (ahead : Contents) (engine : DatabaseEngine)
    (tasks : List Task) : Prop where
  describes : Claims.Describes (tasks.map Task.pending) ahead
  mirrors : Mirrors P engine.wal (overlay ahead (contentsOf engine.collections))
  wellMade : forall task, task ∈ tasks -> task.request.WellMade P

theorem Coherent.free {P : Platform} {ahead : Contents} {system : System}
    (coherent : Coherent P ahead system.engine system.tasks) {place : Place}
    (free : ¬ system.Pending place) : ahead place = none := by
  cases isAhead : ahead place with
  | none => rfl
  | some doc =>
      rcases coherent.describes.only isAhead with ⟨index, claimed⟩
      rw [List.getElem?_map] at claimed
      rcases Option.map_eq_some_iff.mp claimed with ⟨task, isTask, isPending⟩
      exact absurd ⟨index, task, doc, isTask, isPending⟩ free

section Steps

variable {P : Platform} {ahead : Contents} {system : System} {index : Nat} {task : Task}

/-- A task that moves on, with the claims after it. -/
theorem Coherent.set (coherent : Coherent P ahead system.engine system.tasks)
    (isTask : system.tasks[index]? = some task) {after : Contents} {engine : DatabaseEngine}
    {progress : Progress}
    (describes : Claims.Describes
      ((system.tasks.map Task.pending).set index (Task.pending ⟨task.request, progress⟩)) after)
    (mirrors : Mirrors P engine.wal (overlay after (contentsOf engine.collections))) :
    Coherent P after engine (system.tasks.set index { task with progress }) := by
  refine ⟨?_, mirrors, ?_⟩
  · rw [List.map_set]
    exact describes
  · intro other member
    rcases List.mem_or_eq_of_mem_set member with old | rfl
    · exact coherent.wellMade other old
    · exact coherent.wellMade task (List.mem_of_getElem? isTask)

/-- A step that leaves the claim of its task alone. -/
theorem Coherent.idle (coherent : Coherent P ahead system.engine system.tasks)
    (isTask : system.tasks[index]? = some task) {engine : DatabaseEngine} {progress : Progress}
    (samePending : Task.pending ⟨task.request, progress⟩ = task.pending)
    (mirrors : Mirrors P engine.wal (overlay ahead (contentsOf engine.collections))) :
    Coherent P ahead engine (system.tasks.set index { task with progress }) := by
  apply coherent.set isTask _ mirrors
  rw [samePending]
  exact coherent.describes.keep (System.map_task Task.pending isTask)

/-- The steps of an INSERT. -/
theorem Coherent.insert {ns coll : String} {doc : Document} {progress : Progress}
    (coherent : Coherent P ahead system.engine system.tasks)
    (isTask : system.tasks[index]? = some ⟨.insert ns coll doc, progress⟩) {moment : Moment}
    (ordered : progress = .checked -> ¬ system.Pending ((ns, coll), doc.id))
    {engine : DatabaseEngine} {next : Progress}
    (steps : Request.advanceInsert P moment ns coll doc progress system.engine = (engine, next))
    (succeeds : forall stop, next = .answered (.error stop) -> stop.cause = .duplicate) :
    Exists fun after => Coherent P after engine
      (system.tasks.set index ⟨.insert ns coll doc, next⟩) := by
  have wellMade : doc.id.Built ∧ RoundTrips P doc :=
    coherent.wellMade _ (List.mem_of_getElem? isTask)
  have claim := System.map_task Task.pending isTask
  cases advanceInsert_step steps with
  | refused present => exact ⟨ahead, coherent.idle isTask rfl coherent.mirrors⟩
  | checked absent => exact ⟨ahead, coherent.idle isTask rfl coherent.mirrors⟩
  | unlogged fails => exact absurd (succeeds _ rfl) (logInsert_not_duplicate fails)
  | logged logs =>
      refine ⟨Function.update ahead ((ns, coll), doc.id) (some doc), ?_⟩
      apply coherent.set isTask
      · exact coherent.describes.take doc claim (coherent.free (ordered rfl))
      · rw [overlay_take]
        exact mirrors_logInsert coherent.mirrors wellMade.1 wellMade.2 logs
  | stored =>
      have isAhead : ahead ((ns, coll), doc.id) = some doc := coherent.describes.claimed claim
      refine ⟨Function.update ahead ((ns, coll), doc.id) none, ?_⟩
      apply coherent.set isTask
      · exact coherent.describes.release claim
      · rw [storeInsert_contents, overlay_release isAhead]
        exact coherent.mirrors
  | indexed => exact ⟨ahead, coherent.idle isTask rfl coherent.mirrors⟩
  | answered => exact ⟨ahead, coherent.idle isTask rfl coherent.mirrors⟩
  | idle => exact ⟨ahead, coherent.idle isTask rfl coherent.mirrors⟩
  | done => exact ⟨ahead, coherent.idle isTask rfl coherent.mirrors⟩

/-- The steps of an UPDATE or REMOVE, given what its critical section keeps. -/
theorem Coherent.section {request : Request} {progress : Progress}
    (coherent : Coherent P ahead system.engine system.tasks)
    (isTask : system.tasks[index]? = some ⟨request, progress⟩)
    (noClaim : forall progress, Task.pending ⟨request, progress⟩ = none)
    {enters : DatabaseEngine -> DatabaseEngine × Except Stop (List Change)}
    {engine : DatabaseEngine} {next : Progress}
    (step : SectionStep enters system.engine progress engine next)
    (succeeds : forall stop, next ≠ .answered (.error stop))
    (keeps : forall changes, progress = .waiting -> enters system.engine = (engine, .ok changes) ->
      Mirrors P engine.wal (overlay ahead (contentsOf engine.collections))) :
    Coherent P ahead engine (system.tasks.set index ⟨request, next⟩) := by
  have samePending : Task.pending ⟨request, next⟩ = Task.pending ⟨request, progress⟩ := by
    rw [noClaim, noClaim]
  apply coherent.idle isTask samePending
  exact step.keeps (fun engine => Mirrors P engine.wal (overlay ahead
    (contentsOf engine.collections))) succeeds keeps (fun _ mirrors => mirrors) coherent.mirrors

theorem Coherent.enter (coherent : Coherent P ahead system.engine system.tasks)
    (key : CollectionKey) :
    Follows P ahead system.engine.collections key (system.engine.enter key) := by
  change Mirrors P system.engine.wal (overlay ahead (contentsOf
    (system.engine.collections.insert key (storeOf system.engine.collections key))))
  rw [contentsOf_same]
  exact coherent.mirrors

/-- Every step keeps the log and memory coherent. -/
theorem Coherent.advance (coherent : Coherent P ahead system.engine system.tasks)
    {moments : Nat -> Moment} (succeeds : Succeeds P system (.advance index moments))
    (ordered : KeepsOrder P system (.advance index moments)) :
    Exists fun after => Coherent P after (system.perform P (.advance index moments)).engine
      (system.perform P (.advance index moments)).tasks := by
  rw [Succeeds] at succeeds
  cases isTask : system.tasks[index]? with
  | none =>
      rw [System.perform_absent index moments isTask]
      exact ⟨ahead, coherent⟩
  | some task =>
      rcases task with ⟨request, progress⟩
      cases steps : request.advance P moments progress system.engine with
      | mk engine next =>
          rw [System.perform_advance index moments isTask steps rfl] at succeeds ⊢
          have inside := (List.getElem?_eq_some_iff.mp isTask).1
          have answers := fun stop => succeeds.2 ⟨request, next⟩ stop (List.getElem?_set_self inside)
          have free := fun place appends => coherent.free (ordered _ place isTask appends)
          cases request with
          | insert ns coll doc =>
              apply coherent.insert isTask _ steps (fun stop stopped => (answers stop stopped).1)
              rintro rfl
              exact ordered _ _ isTask rfl
          | update ns coll assignments filter =>
              refine ⟨ahead, coherent.section isTask (fun _ => rfl) (advanceSection_step steps) ?_ ?_⟩
              · intro stop stopped
                rcases (answers stop stopped).2 with ⟨_, _, _, impossible⟩
                cases impossible
              · rintro changes rfl ran
                rcases updateSection_loop ran with ⟨state, loop, rfl⟩
                refine (coherent.enter (ns, coll)).update (AList.nodupKeys _) ?_ ?_ loop ?_
                · intro entry member
                  exact AList.mem_lookup_iff.mpr member
                · intro entry member matched
                  exact free _ ⟨entry, member, matched, rfl⟩
                · intro id doc stored
                  apply succeeds.1 ((ns, coll), id) doc
                  exact (contentsOf_insert_self _ _ _ _).trans stored
          | remove ns coll filter =>
              refine ⟨ahead, coherent.section isTask (fun _ => rfl) (advanceSection_step steps) ?_ ?_⟩
              · intro stop stopped
                rcases (answers stop stopped).2 with ⟨_, _, _, impossible⟩
                cases impossible
              · rintro changes rfl ran
                cases isTargets : removeTargets P filter
                    (storeOf system.engine.collections (ns, coll)).entries with
                | error stop => cases removeSection_unresolved isTargets ran
                | ok targets =>
                    rcases removeSection_loop isTargets ran with ⟨state, loop, rfl⟩
                    refine (coherent.enter (ns, coll)).remove ?_ loop
                    intro id member
                    rcases removeTargets_matched isTargets member with
                      ⟨entry, inStore, rfl, matched⟩
                    exact free _ ⟨entry, inStore, matched, rfl⟩

end Steps

/-! ## Runs -/

/-- A run that starts in step and never appends out of order. -/
abbrev OrderlyRun (P : Platform) (start : DatabaseEngine) : System -> Prop :=
  Interleaves P (fun system action => Succeeds P system action ∧ KeepsOrder P system action)
    ⟨start, [], []⟩

theorem OrderlyRun.coherent {P : Platform} {start : DatabaseEngine} {system : System}
    (inStep : InStep P start) (run : OrderlyRun P start system) :
    Exists fun ahead => Coherent P ahead system.engine system.tasks := by
  induction run with
  | start =>
      refine ⟨noContents, Claims.describes_nil, ?_, ?_⟩
      · rw [overlay_noContents]
        exact inStep
      · intro task member
        cases member
  | @perform system action run permits ih =>
      rcases ih with ⟨ahead, coherent⟩
      rcases permits with ⟨succeeds, ordered⟩
      cases action with
      | arrive request =>
          refine ⟨ahead, ?_, coherent.mirrors, ?_⟩
          · exact System.describes_arrive P request (by cases request <;> rfl) coherent.describes
          · intro task member
            rcases List.mem_append.mp member with old | new
            · exact coherent.wellMade task old
            · rw [List.mem_singleton.mp new]
              exact succeeds
      | advance index moments => exact coherent.advance succeeds ordered
  | @rearranged system engine run same ih =>
      rcases ih with ⟨ahead, coherent⟩
      refine ⟨ahead, coherent.describes, ?_, coherent.wellMade⟩
      change Mirrors P engine.wal (overlay ahead (contentsOf engine.collections))
      rw [same.wal, ← contentsOf_perm same.stores]
      exact coherent.mirrors

/-- In every run of concurrent requests in which nothing is appended for an id
while an INSERT of it is between its append and its store insert, memory is the
replay of the log whenever no request is in flight. -/
theorem quiescent_matches_replay {P : Platform} {start : DatabaseEngine} {system : System}
    (inStep : InStep P start) (run : OrderlyRun P start system)
    (quiescent : forall task, task ∈ system.tasks ->
      Exists fun outcome => task.progress = .answered outcome) :
    Recovers P system.engine.wal.dir (contentsOf system.engine.collections) := by
  rcases run.coherent inStep with ⟨ahead, coherent⟩
  have nothing : ahead = noContents := by
    funext place
    apply coherent.describes.empty
    intro claim member
    rcases List.mem_map.mp member with ⟨⟨request, progress⟩, isTask, rfl⟩
    rcases quiescent _ isTask with ⟨outcome, rfl⟩
    cases request <;> rfl
  have mirrors := coherent.mirrors
  rw [nothing, overlay_noContents] at mirrors
  exact mirrors.recovers

theorem inStep_emptyEngine (P : Platform) (limit : Nat) : InStep P (emptyEngine limit) :=
  openEngine_intact (intact_empty P) (openEngine_empty P limit)

theorem allRoundTrip_emptyEngine (P : Platform) (limit : Nat) :
    AllRoundTrip P (emptyEngine limit) := by
  intro place doc stored
  cases stored

def Progress.isAnswered : Progress -> Bool
  | .answered _ => true
  | _ => false

theorem Progress.answered_of_isAnswered {progress : Progress}
    (isAnswer : progress.isAnswered = true) :
    Exists fun outcome => progress = .answered outcome := by
  cases progress with
  | answered outcome => exact ⟨outcome, rfl⟩
  | waiting | checked | logged | stored | indexed | changed => cases isAnswer

/-- One INSERT, step by step, into an empty database. -/
theorem sample_alone :
    Exists fun system => SmallRun samplePlatform 1 (emptyEngine 4096) system ∧
      system.tasks = [⟨.insert "default" "users" sampleDocument,
        .answered (.ok (.records [sampleDocument] 1))⟩] ∧
      contentsOf system.engine.collections = Function.update
        (contentsOf (emptyEngine 4096).collections) (("default", "users"), sampleDocument.id)
        (some sampleDocument) := by
  have acknowledged : (logInsert samplePlatform (quietMoments 0) "default" "users" sampleDocument
      (emptyEngine 4096).wal).2.isOk = true := by decide +kernel
  cases logs : logInsert samplePlatform (quietMoments 0) "default" "users" sampleDocument
      (emptyEngine 4096).wal with
  | mk wal outcome =>
      rw [logs] at acknowledged
      cases outcome with
      | error stop => cases acknowledged
      | ok sequence =>
          exact smallRun_alone (allRoundTrip_emptyEngine _ _) ⟨built_sample, roundTrips_sample⟩ rfl logs

/-- Two INSERTs of different ids that overlap, the later one storing its document first,
and then an UPDATE of the one document and a REMOVE of the other, likewise. -/
def overlapping : List Action :=
  [.arrive (.insert "default" "users" agedDocument),
    .arrive (.insert "default" "users" agelessDocument),
    .advance 0 quietMoments, .advance 1 quietMoments, .advance 0 quietMoments,
    .advance 1 quietMoments, .advance 1 quietMoments, .advance 1 quietMoments,
    .advance 1 quietMoments, .advance 0 quietMoments, .advance 0 quietMoments,
    .advance 0 quietMoments,
    .arrive (.update "default" "users" growAge isOne),
    .arrive (.remove "default" "users" isAgeless),
    .advance 2 quietMoments, .advance 3 quietMoments, .advance 3 quietMoments,
    .advance 3 quietMoments, .advance 2 quietMoments, .advance 2 quietMoments]

/-- The request inserts one of the documents that the platform reads back, or none. -/
def Request.crowded : Request -> Bool
  | .insert _ _ doc => [agedDocument, agelessDocument].any (identicalDocument doc)
  | .update _ _ _ _ | .remove _ _ _ => true

theorem Request.wellMade_of_crowded {request : Request} (isCrowded : request.crowded = true) :
    request.WellMade crowdPlatform := by
  cases request with
  | update | remove => trivial
  | insert ns coll doc =>
      rcases List.any_eq_true.mp isCrowded with ⟨other, member, same⟩
      rw [eq_of_identicalDocument same]
      simp only [List.mem_cons, List.not_mem_nil, or_false] at member
      rcases member with rfl | rfl
      · exact ⟨built_sample, fun _ => crowdPlatform_reads (by decide +kernel)⟩
      · exact ⟨built_ageless, fun _ => crowdPlatform_reads (by decide +kernel)⟩

/-- The action keeps to the documents that the platform reads back, stops no request
with an error, and appends for no document whose INSERT is ahead of memory. -/
def System.keepsWell (system : System) : Action -> Bool
  | .arrive request => request.crowded
  | .advance index moments =>
      let next := system.perform crowdPlatform (.advance index moments)
      next.engine.collections.entries.all (fun entry => entry.2.entries.all fun stored =>
        crowdDocument stored.2) &&
      next.tasks.all (fun task => !task.progress.stopped) &&
      system.tasks.all fun task => (task.appends crowdPlatform system.engine).all fun place =>
        system.tasks.all fun other => decide (other.pending.map Prod.fst ≠ some place)

theorem System.permits_of_keepsWell {system : System} {action : Action}
    (well : system.keepsWell action = true) :
    Succeeds crowdPlatform system action ∧ KeepsOrder crowdPlatform system action := by
  cases action with
  | arrive request => exact ⟨Request.wellMade_of_crowded well, trivial⟩
  | advance index moments =>
      simp only [System.keepsWell, Bool.and_eq_true] at well
      rcases well with ⟨⟨listed, unstopped⟩, ordered⟩
      refine ⟨⟨?_, ?_⟩, ?_⟩
      · intro place doc stored bytes encoded
        exact crowdPlatform_reads (listed_of_stored listed stored) encoded
      · intro task stop isTask isStopped
        have running := List.all_eq_true.mp unstopped task (List.mem_of_getElem? isTask)
        rw [isStopped] at running
        cases running
      · rintro task place isTask mayAppend ⟨other, pendingTask, doc, isPending, pending⟩
        have free := List.all_eq_true.mp (List.all_eq_true.mp ordered task
          (List.mem_of_getElem? isTask)) place mayAppend.listed
        have apart := List.all_eq_true.mp free pendingTask (List.mem_of_getElem? isPending)
        rw [pending] at apart
        exact of_decide_eq_true apart rfl

/-- The system after some actions, if all of them keep well. -/
def System.playsWell : List Action -> System -> Option System
  | [], system => some system
  | action :: rest, system =>
      if system.keepsWell action then System.playsWell rest (system.perform crowdPlatform action)
      else none

theorem OrderlyRun.plays {start : DatabaseEngine} {system final : System}
    (run : OrderlyRun crowdPlatform start system) {actions : List Action}
    (played : system.playsWell actions = some final) : OrderlyRun crowdPlatform start final := by
  induction actions generalizing system with
  | nil =>
      cases played
      exact run
  | cons action rest inductionHypothesis =>
      rw [System.playsWell] at played
      split at played
      · rename_i well
        exact inductionHypothesis (run.perform (System.permits_of_keepsWell well)) played
      · cases played

/-- Whether all requests are answered, and how many documents are stored. -/
def System.outcome (system : System) : Bool × Nat :=
  (system.tasks.all (fun task => task.progress.isAnswered),
    (storeOf system.engine.collections ("default", "users")).entries.length)

theorem quiescent_matches_replay_overlapping :
    Exists fun system => OrderlyRun crowdPlatform (emptyEngine 4096) system ∧
      system.tasks.length = 4 ∧ system.outcome = (true, 1) ∧
      Recovers crowdPlatform system.engine.wal.dir (contentsOf system.engine.collections) := by
  have summary : (System.playsWell overlapping ⟨emptyEngine 4096, [], []⟩).map
      (fun system => (system.tasks.length, system.outcome)) = some (4, true, 1) := by decide +kernel
  rcases Option.map_eq_some_iff.mp summary with ⟨system, played, isSummary⟩
  rcases Prod.mk.inj isSummary with ⟨four, outcome⟩
  have begun : OrderlyRun crowdPlatform (emptyEngine 4096) ⟨emptyEngine 4096, [], []⟩ :=
    Interleaves.start
  have run := begun.plays played
  refine ⟨system, run, four, outcome, quiescent_matches_replay (inStep_emptyEngine _ _) run ?_⟩
  intro task member
  have isAnswer := List.all_eq_true.mp (Prod.mk.inj outcome).1 task member
  exact Progress.answered_of_isAnswered isAnswer

theorem roundTrips_pair {doc : Document} (member : doc ∈ [sampleDocument, agedDocument]) :
    RoundTrips pairPlatform doc := by
  intro bytes encoded
  refine referencePlatform_roundTrips true member ?_ encoded
  intro other otherMember sameText
  simp only [List.mem_cons, List.not_mem_nil, or_false] at member otherMember
  have different : documentText sampleDocument ≠ documentText agedDocument := by decide +kernel
  rcases member with rfl | rfl
  · rcases otherMember with rfl | rfl
    · rfl
    · exact absurd sameText.symm different
  · rcases otherMember with rfl | rfl
    · exact absurd sameText different
    · rfl

theorem pair_logs :
    Exists fun first => Exists fun second => Exists fun left => Exists fun right =>
      logInsert pairPlatform (quietMoments 0) "default" "users" sampleDocument
          (emptyEngine 4096).wal = (first, .ok left) ∧
        logInsert pairPlatform (quietMoments 0) "default" "users" agedDocument first =
          (second, .ok right) := by
  have acknowledged : (logInsert pairPlatform (quietMoments 0) "default" "users" sampleDocument
      (emptyEngine 4096).wal).2.isOk = true ∧
    (logInsert pairPlatform (quietMoments 0) "default" "users" agedDocument
      (logInsert pairPlatform (quietMoments 0) "default" "users" sampleDocument
        (emptyEngine 4096).wal).1).2.isOk = true := by decide +kernel
  cases leftLogs : logInsert pairPlatform (quietMoments 0) "default" "users" sampleDocument
      (emptyEngine 4096).wal with
  | mk first leftOutcome =>
      rw [leftLogs] at acknowledged
      cases rightLogs : logInsert pairPlatform (quietMoments 0) "default" "users" agedDocument
          first with
      | mk second rightOutcome =>
          rw [rightLogs] at acknowledged
          cases leftOutcome with
          | error stop => cases acknowledged.1
          | ok left =>
              cases rightOutcome with
              | error stop => cases acknowledged.2
              | ok right => exact ⟨first, second, left, right, rfl, rightLogs⟩

/-- Two acknowledged INSERTs of one id: memory keeps the first, the log the second. -/
theorem pair_overtaking :
    Exists fun system => SmallRun pairPlatform 2 (emptyEngine 4096) system ∧
      system.tasks =
        [⟨.insert "default" "users" sampleDocument, .answered (.ok (.records [sampleDocument] 1))⟩,
          ⟨.insert "default" "users" agedDocument, .answered (.ok (.records [agedDocument] 1))⟩] ∧
      system.history = [.put 1 (("default", "users"), agedDocument.id),
        .put 0 (("default", "users"), sampleDocument.id)] ∧
      ¬ Recovers pairPlatform system.engine.wal.dir (contentsOf system.engine.collections) := by
  rcases pair_logs with ⟨first, second, left, right, leftLogs, rightLogs⟩
  have leftTrips : RoundTrips pairPlatform sampleDocument := roundTrips_pair List.mem_cons_self
  have rightTrips : RoundTrips pairPlatform agedDocument :=
    roundTrips_pair (List.mem_cons_of_mem _ List.mem_cons_self)
  have leftMade : (Request.insert "default" "users" sampleDocument).WellMade pairPlatform :=
    ⟨built_sample, leftTrips⟩
  have rightMade : (Request.insert "default" "users" agedDocument).WellMade pairPlatform :=
    ⟨built_sample, rightTrips⟩
  rcases smallRun_overtaking (allRoundTrip_emptyEngine _ _) leftMade rightMade rfl rfl leftLogs
    rightLogs with ⟨system, run, isWal, inMemory, isTasks, isHistory⟩
  refine ⟨system, run, isTasks, isHistory, ?_⟩
  intro recovers
  have leftLogged := mirrors_logInsert (inStep_emptyEngine pairPlatform 4096) built_sample leftTrips
    leftLogs
  have logged := mirrors_logInsert leftLogged rightMade.1 rightTrips rightLogs
  rw [isWal] at recovers
  have same := congrFun (recovers.unique logged.recovers)
    (("default", "users"), sampleDocument.id)
  rw [inMemory, Function.update_self] at same
  have found := same.trans (Function.update_self _ _ _)
  cases found
/-- The log of two acknowledged INSERTs replays to another document than memory has. -/
theorem overtaking_not_replayed :
    Exists fun system => SmallRun pairPlatform 2 (emptyEngine 4096) system ∧
      system.tasks =
        [⟨.insert "default" "users" sampleDocument, .answered (.ok (.records [sampleDocument] 1))⟩,
          ⟨.insert "default" "users" agedDocument, .answered (.ok (.records [agedDocument] 1))⟩] ∧
      ¬ Recovers pairPlatform system.engine.wal.dir (contentsOf system.engine.collections) := by
  rcases pair_overtaking with ⟨system, run, isTasks, _, unreplayed⟩
  exact ⟨system, run, isTasks, unreplayed⟩

end Server
end NovaDb
