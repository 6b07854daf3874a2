import NovaDb.Server.Sections

namespace NovaDb
namespace Server

open Core Foundation Index Query Storage DatabaseEngine

/-!
# The live state and the replay of the log

The same contents are computed twice: by the statements in memory, and by
recovery from the records the statements append.  A run of statements in which
nothing fails outside the program and every UPDATE and REMOVE returns keeps the
two in step, through segment rotations and restarts.
-/

/-- The log in good order, with the contents of the collections: it is open with
`Always` on whole records, and their replay is what is in memory. -/
def InStep (P : Platform) (engine : DatabaseEngine) : Prop :=
  Mirrors P engine.wal (contentsOf engine.collections)

/-- Every document in memory survives the JSON codec, so that what is logged of it is
read back as it is. -/
def AllRoundTrip (P : Platform) (engine : DatabaseEngine) : Prop :=
  forall place doc, contentsOf engine.collections place = some doc -> RoundTrips P doc

/-! ## Statements -/

section Statements

variable {P : Platform} {engine next : DatabaseEngine} {ns coll : String}

theorem InStep.enter (inStep : InStep P engine) (key : CollectionKey) :
    Follows P noContents engine.collections key (engine.enter key) := by
  change Mirrors P engine.wal (overlay noContents
    (contentsOf (engine.collections.insert key (storeOf engine.collections key))))
  rw [overlay_noContents, contentsOf_same]
  exact inStep

/-- Leaving a critical section that the log followed. -/
theorem Follows.leave {key : CollectionKey} {state : Section}
    (follows : Follows P noContents engine.collections key state) :
    InStep P (engine.leave key state) := by
  unfold Follows at follows
  rw [overlay_noContents] at follows
  exact follows

theorem InStep.insert (inStep : InStep P engine) {moment : Moment} {doc : Document}
    (quiet : moment.append.Quiet) (built : doc.id.Built)
    {outcome : Except Stop ResponsePayload}
    (ran : executeInsert P moment ns coll doc engine = (next, outcome))
    (roundTrips : AllRoundTrip P next) : InStep P next := by
  unfold executeInsert at ran
  split at ran
  · cases ran
    exact inStep
  · cases logs : logInsert P moment ns coll doc engine.wal with
    | mk wal result =>
        rw [logs] at ran
        cases result with
        | error stop =>
            cases ran
            cases logInsert_exit logs with
            | unserialized => exact inStep
            | @unlogged payload wal fault encoded fails =>
                exact Mirrors.refused inStep quiet fails
        | ok sequence =>
            cases ran
            have stored := storeInsert_contents (ns, coll) doc { engine with wal }
            have written : RoundTrips P doc := by
              apply roundTrips ((ns, coll), doc.id) doc
              exact (congrFun stored _).trans (Function.update_self _ _ _)
            have logged := mirrors_logInsert inStep built written logs
            rw [← stored] at logged
            exact logged

theorem InStep.update (inStep : InStep P engine) {moments : Nat -> Moment}
    {assignments : List Assignment} {filter : Option Expr} {changes : List Change}
    (ran : updateSection P moments ns coll assignments filter engine = (next, .ok changes))
    (roundTrips : AllRoundTrip P next) : InStep P next := by
  rcases updateSection_loop ran with ⟨state, loop, rfl⟩
  apply Follows.leave
  refine (inStep.enter (ns, coll)).update (storeOf engine.collections (ns, coll)).nodupKeys ?_
    (fun _ _ _ => rfl) loop ?_
  · intro entry member
    exact AList.mem_lookup_iff.mpr member
  · intro id doc stored
    apply roundTrips ((ns, coll), id) doc
    exact (contentsOf_insert_self _ _ _ _).trans stored

theorem InStep.remove (inStep : InStep P engine) {moments : Nat -> Moment}
    {filter : Option Expr} {changes : List Change}
    (ran : removeSection P moments ns coll filter engine = (next, .ok changes)) :
    InStep P next := by
  cases isTargets : removeTargets P filter (storeOf engine.collections (ns, coll)).entries with
  | error stop => cases removeSection_unresolved isTargets ran
  | ok targets =>
      rcases removeSection_loop isTargets ran with ⟨state, loop, rfl⟩
      exact ((inStep.enter (ns, coll)).remove (fun _ _ => rfl) loop).leave

/-- The statements that have to return `Ok`: UPDATE and REMOVE. -/
def ReturnsChanges (statement : Statement) (outcome : Outcome ResponsePayload) : Prop :=
  match statement with
  | .update _ _ _ | .remove _ _ => Exists fun payload => outcome = .ok payload
  | _ => True

/-- One statement. -/
theorem InStep.execute (inStep : InStep P engine) {moments : Nat -> Moment}
    (quiet : forall turn, (moments turn).append.Quiet) {statement : Statement}
    (built : forall coll doc, statement = .insert coll doc -> doc.id.Built)
    (returns : ReturnsChanges statement (execute P moments statement ns engine).2)
    (roundTrips : AllRoundTrip P (execute P moments statement ns engine).1) :
    InStep P (execute P moments statement ns engine).1 := by
  cases statement with
  | insert coll doc =>
      cases ran : executeInsert P (moments 0) ns coll doc engine with
      | mk next outcome =>
          simp only [DatabaseEngine.execute, outcomeOf, ran] at roundTrips ⊢
          exact inStep.insert (quiet 0) (built coll doc rfl) ran roundTrips
  | update coll assignments filter =>
      simp only [DatabaseEngine.execute, outcomeOf, executeUpdate] at returns roundTrips ⊢
      cases ran : updateSection P moments ns coll assignments filter engine with
      | mk next outcome =>
          rw [ran] at returns roundTrips
          cases outcome with
          | error stop =>
              rcases returns with ⟨payload, impossible⟩
              cases impossible
          | ok changes =>
              simp only at roundTrips ⊢
              rcases @emitChanges_state ns coll .update moments 0 changes next with ⟨events, same⟩
              rw [same] at roundTrips ⊢
              have kept : InStep P next := inStep.update ran roundTrips
              exact kept
  | remove coll filter =>
      simp only [DatabaseEngine.execute, outcomeOf, executeRemove] at returns ⊢
      cases ran : removeSection P moments ns coll filter engine with
      | mk next outcome =>
          rw [ran] at returns
          cases outcome with
          | error stop =>
              rcases returns with ⟨payload, impossible⟩
              cases impossible
          | ok changes =>
              simp only
              rcases @emitChanges_state ns coll .delete moments 0 changes next with ⟨events, same⟩
              rw [same]
              have kept : InStep P next := inStep.remove ran
              exact kept
  | dropIndex coll field =>
      simp only [DatabaseEngine.execute, executeDropIndex]
      split
      · exact inStep
      · exact inStep
  | find | watch | count | «exists» | createIndex | begin | commit | rollback => exact inStep

end Statements

/-! ## Opening -/

/-- An engine opened behind a recovery is in step. -/
theorem openEngine_inStep {P : Platform} {dir : WalDir} {files : Files} {state : RecoveredState}
    (recovers : RecoveryManager.recover P dir = ({ dir with files }, .ok state))
    (mirrors : forall limit sequence,
      Mirrors P ((WriteAheadLog.openDir { dir with files } .always limit).setSequence sequence)
        (contentsOf state.collections))
    {limit : Nat} {engine : DatabaseEngine}
    (opens : (openEngine P dir .always limit).2 = .ok engine) : InStep P engine := by
  rw [openEngine, recovers] at opens
  cases opens
  exact mirrors limit state.maxSequence

theorem denotes_of_valid {P : Platform} {records : List NbfRecord} (valid : AllValid P records) :
    Exists fun contents => Denotes P records contents := by
  rcases RecoveryManager.replayFrom_ok valid RecoveredState.new with ⟨next, replayed, _⟩
  rcases RecoveryManager.applyAll_collections replayed rfl with ⟨folded, applies, _⟩
  exact ⟨_, folded, applies, rfl⟩

theorem openEngine_intact {P : Platform} {dir : WalDir} {layout : Layout}
    (intact : Intact P dir.files layout) {limit : Nat} {engine : DatabaseEngine}
    (opens : (openEngine P dir .always limit).2 = .ok engine) : InStep P engine := by
  rcases denotes_of_valid intact.valid with ⟨contents, denotes⟩
  have clean : forall closed current, layout = closed ++ [current] -> current.tail = [] := by
    intro closed current isLayout
    apply intact.noTail
    rw [isLayout]
    exact List.mem_append_right _ (List.mem_singleton_self _)
  rcases recover_reopen intact.holds intact.sound clean denotes with
    ⟨files, state, recovers, rfl, mirrors⟩
  exact openEngine_inStep recovers mirrors opens

/-- A restart of an engine in step. -/
theorem InStep.restart {P : Platform} {engine next : DatabaseEngine} (inStep : InStep P engine)
    {limit : Nat} (opens : (openEngine P engine.wal.dir .always limit).2 = .ok next) :
    InStep P next := by
  rcases inStep.reopen with ⟨files, state, recovers, same, mirrors⟩
  rw [← same] at mirrors
  exact openEngine_inStep recovers mirrors opens

/-! ## Runs -/

/-- The same engine with its stores in another order of iteration. -/
structure Rearranged (engine next : DatabaseEngine) : Prop where
  stores : forall key,
    (storeOf engine.collections key).entries.Perm (storeOf next.collections key).entries
  indexes : next.indexes = engine.indexes
  wal : next.wal = engine.wal
  events : next.events = engine.events

theorem InStep.rearranged {P : Platform} {engine next : DatabaseEngine} (inStep : InStep P engine)
    (same : Rearranged engine next) : InStep P next := by
  unfold InStep
  rw [same.wal, ← contentsOf_perm same.stores]
  exact inStep

/-- The engines reached by statements one after another, with restarts in
between, from a directory of whole records.  Nothing fails outside the program,
every UPDATE and REMOVE returns, and the order in which the stores iterate may
change at any time. -/
inductive Run (P : Platform) : DatabaseEngine -> Prop where
  | opened {dir : WalDir} {layout : Layout} (intact : Intact P dir.files layout) {limit : Nat}
      {engine : DatabaseEngine} (opens : (openEngine P dir .always limit).2 = .ok engine) :
      Run P engine
  | statement {engine : DatabaseEngine} (run : Run P engine) {moments : Nat -> Moment}
      (quiet : forall turn, (moments turn).append.Quiet) {statement : Statement} {ns : String}
      (built : forall coll doc, statement = .insert coll doc -> doc.id.Built)
      (returns : ReturnsChanges statement (execute P moments statement ns engine).2)
      (roundTrips : AllRoundTrip P (execute P moments statement ns engine).1) :
      Run P (execute P moments statement ns engine).1
  | restart {engine next : DatabaseEngine} (run : Run P engine) {limit : Nat}
      (opens : (openEngine P engine.wal.dir .always limit).2 = .ok next) : Run P next
  | rearranged {engine next : DatabaseEngine} (run : Run P engine)
      (same : Rearranged engine next) : Run P next

theorem Run.inStep {P : Platform} {engine : DatabaseEngine} (run : Run P engine) :
    InStep P engine := by
  induction run with
  | opened intact opens => exact openEngine_intact intact opens
  | statement run quiet built returns roundTrips ih => exact ih.execute quiet built returns roundTrips
  | restart run opens ih => exact ih.restart opens
  | rearranged run same ih => exact ih.rearranged same

/-! ## A sample run -/

theorem discoverSegments_empty : WalDir.discoverSegments ∅ = [] := by
  decide +kernel

theorem openEngine_empty (P : Platform) (limit : Nat) :
    (openEngine P ⟨"wal", ∅⟩ .always limit).2 = .ok (emptyEngine limit) := by
  rw [openEngine, RecoveryManager.recover]
  simp only [discoverSegments_empty]
  rfl

def quietMoments : Nat -> Moment := fun _ => ⟨0, quietEnvironment, 0, .collisionFree⟩

theorem roundTrips_sample : RoundTrips samplePlatform sampleDocument := by
  intro bytes encoded
  refine referencePlatform_roundTrips true (List.mem_singleton_self _) ?_ encoded
  intro other member _
  exact List.mem_singleton.mp member

/-- An INSERT puts its own document in its own place, or nothing anywhere. -/
theorem executeInsert_contents (P : Platform) (moment : Moment) (ns coll : String) (doc : Document)
    (engine : DatabaseEngine) :
    contentsOf (executeInsert P moment ns coll doc engine).1.collections =
        contentsOf engine.collections ∨
      contentsOf (executeInsert P moment ns coll doc engine).1.collections =
        Function.update (contentsOf engine.collections) ((ns, coll), doc.id) (some doc) := by
  unfold executeInsert
  split
  · exact Or.inl rfl
  · cases logInsert P moment ns coll doc engine.wal with
    | mk wal outcome =>
        cases outcome with
        | error stop => exact Or.inl rfl
        | ok sequence => exact Or.inr (storeInsert_contents (ns, coll) doc { engine with wal })

theorem AllRoundTrip.put {P : Platform} {engine next : DatabaseEngine} {place : Place}
    {doc : Document} (before : AllRoundTrip P engine) (roundTrips : RoundTrips P doc)
    (stored : contentsOf next.collections =
      Function.update (contentsOf engine.collections) place (some doc)) : AllRoundTrip P next := by
  intro other found isFound
  rw [stored] at isFound
  by_cases same : other = place
  · rw [same, Function.update_self] at isFound
    cases isFound
    exact roundTrips
  · rw [Function.update_of_ne same] at isFound
    exact before other found isFound

theorem allRoundTrip_insert {P : Platform} {engine : DatabaseEngine} {doc : Document}
    (before : AllRoundTrip P engine) (roundTrips : RoundTrips P doc) (moments : Nat -> Moment)
    (ns coll : String) :
    AllRoundTrip P (execute P moments (.insert coll doc) ns engine).1 := by
  rcases executeInsert_contents P (moments 0) ns coll doc engine with same | stored
  · intro place other found
    exact before place other ((congrFun same place).symm.trans found)
  · exact before.put roundTrips stored

/-- The engine after one INSERT on an empty directory. -/
def sampleEngine : DatabaseEngine :=
  (execute samplePlatform quietMoments (.insert "users" sampleDocument) "default"
    (emptyEngine 100)).1

theorem run_sampleEngine : Run samplePlatform sampleEngine := by
  refine Run.statement (Run.opened (intact_empty samplePlatform) (openEngine_empty _ 100)) ?_ ?_
    trivial (allRoundTrip_insert ?_ roundTrips_sample quietMoments "default" "users")
  · exact fun _ => quiet_quietEnvironment
  · intro coll doc same
    cases same
    exact built_sample
  · intro place doc stored
    cases stored

/-- In every run of statements and restarts the contents of the collections are those
that recovery finds in the log.  The run begins on whole records, nothing fails outside
the program, every UPDATE and REMOVE returns, and the documents survive the JSON codec.
-/
theorem run_matches_replay {P : Platform} {engine : DatabaseEngine} (run : Run P engine) :
    Recovers P engine.wal.dir (contentsOf engine.collections) :=
  Mirrors.recovers run.inStep

/-! ## A sample run with an UPDATE and a REMOVE -/

/-- `age = 1`, which one of the documents meets. -/
def isOne : Option Expr :=
  some (.binary .eq (.field "age") (.literal (.int 1)))

/-- `id = "b"`, which the other one meets. -/
def isAgeless : Option Expr :=
  some (.binary .eq (.field "id") (.literal (.string "b")))

def growAge : List Assignment := [⟨"age", .literal (.int 2)⟩]

/-- An INSERT of each document, an UPDATE of the one and a REMOVE of the other. -/
def crowdScript : List Statement :=
  [.insert "users" agedDocument, .insert "users" agelessDocument, .update "users" growAge isOne,
    .remove "users" isAgeless]

/-- The engine after some statements. -/
def playScript (P : Platform) (script : List Statement) (engine : DatabaseEngine) :
    DatabaseEngine :=
  script.foldl (fun engine statement =>
    (execute P quietMoments statement "default" engine).1) engine

/-- The engine with both documents. -/
def crowdInserted : DatabaseEngine :=
  playScript crowdPlatform (crowdScript.take 2) (emptyEngine 4096)

/-- The engine after the whole script. -/
def crowdEngine : DatabaseEngine :=
  playScript crowdPlatform crowdScript (emptyEngine 4096)

/-- The documents that the platform reads back. -/
def crowdDocument (doc : Document) : Bool :=
  [agedDocument, grownDocument, agelessDocument].any (identicalDocument doc)

/-- Every statement of the script returns `Ok`, and the documents stored after it are
those that the platform reads back. -/
def playsWell : List Statement -> DatabaseEngine -> Bool
  | [], _ => true
  | statement :: rest, engine =>
      let ran := execute crowdPlatform quietMoments statement "default" engine
      ran.2.toOption.isSome &&
        ran.1.collections.entries.all (fun entry => entry.2.entries.all fun stored =>
          crowdDocument stored.2) &&
        playsWell rest ran.1

theorem listed_of_stored {collections : Collections} {accepts : Document -> Bool}
    (all : collections.entries.all (fun entry => entry.2.entries.all fun stored =>
      accepts stored.2) = true) {place : Place} {doc : Document}
    (stored : contentsOf collections place = some doc) : accepts doc = true := by
  rw [contentsOf, storeOf] at stored
  cases isStore : collections.lookup place.1 with
  | none =>
      rw [isStore] at stored
      cases stored
  | some store =>
      rw [isStore] at stored
      have inStore := List.all_eq_true.mp all ⟨place.1, store⟩ (AList.mem_lookup_iff.mp isStore)
      exact List.all_eq_true.mp inStore ⟨place.2, doc⟩ (AList.mem_lookup_iff.mp stored)

theorem returnsChanges_of_isSome {statement : Statement} {outcome : Outcome ResponsePayload}
    (returned : outcome.toOption.isSome = true) : ReturnsChanges statement outcome := by
  cases outcome with
  | error fault => cases returned
  | ok payload => cases statement <;> first | trivial | exact ⟨payload, rfl⟩

theorem Run.plays {engine : DatabaseEngine} (run : Run crowdPlatform engine)
    {script : List Statement}
    (built : forall coll doc, Statement.insert coll doc ∈ script -> doc.id.Built)
    (well : playsWell script engine = true) :
    Run crowdPlatform (playScript crowdPlatform script engine) := by
  induction script generalizing engine with
  | nil => exact run
  | cons statement rest inductionHypothesis =>
      simp only [playsWell, Bool.and_eq_true] at well
      rcases well with ⟨⟨returned, listed⟩, others⟩
      refine inductionHypothesis (run.statement (fun _ => quiet_quietEnvironment) ?_
        (returnsChanges_of_isSome returned) ?_) ?_ others
      · rintro coll doc rfl
        exact built coll doc List.mem_cons_self
      · intro place doc stored bytes encoded
        exact crowdPlatform_reads (listed_of_stored listed stored) encoded
      · exact fun coll doc member => built coll doc (List.mem_cons_of_mem statement member)

theorem run_crowdEngine : Run crowdPlatform crowdEngine := by
  refine (Run.opened (intact_empty crowdPlatform) (openEngine_empty _ 4096)).plays ?_
    (by decide +kernel)
  intro coll doc member
  simp only [crowdScript, List.mem_cons, List.not_mem_nil, or_false] at member
  rcases member with same | same | same | same
  · cases same
    exact built_sample
  · cases same
    exact built_ageless
  · cases same
  · cases same

/-- The log of the script replays to the one document that is left, in its second
version. -/
theorem run_matches_replay_crowd :
    (contentsOf crowdEngine.collections (("default", "users"), agedDocument.id)).map
        Document.version = some 2 ∧
      (contentsOf crowdEngine.collections (("default", "users"), agelessDocument.id)).isSome =
        false ∧
      Recovers crowdPlatform crowdEngine.wal.dir (contentsOf crowdEngine.collections) := by
  refine ⟨by decide +kernel, by decide +kernel, run_matches_replay run_crowdEngine⟩

end Server
end NovaDb
