import NovaDb.Server.Tenants

namespace NovaDb
namespace Server

open Core Foundation Index Query Storage DatabaseEngine

/-!
# Statements of one namespace and of others

Each step of a statement, on two engines that agree outside a namespace: one of
the namespace leaves the agreement, whatever it does, and one of another namespace
ends on both sides in the same way.
-/

/-- The same moments, but for the clocks that only the log and the events read. -/
def SameMoments (moments others : Nat -> Moment) : Prop :=
  forall turn, (moments turn).untimed = (others turn).untimed

/-- No failure of the device that depends on what is in the log. -/
def AllSteady (moments : Nat -> Moment) : Prop :=
  forall turn, (moments turn).append.Steady

/-- The process does not crash behind an append. -/
def Survived (moments : Nat -> Moment) : Prop :=
  forall turn, (moments turn).append.fault ≠ .crashAfterWal

/-! ## Critical sections -/

section Sections

variable {P : Platform} {m ns coll : String} {moments others : Nat -> Moment}
  {first second : DatabaseEngine}

theorem updateSection_together (alike : first.AlikeOff m second) (different : ns ≠ m)
    (same : SameMoments moments others) (steady : AllSteady moments) (steadyToo : AllSteady others)
    (room : first.wal.HasRoom P (storeOf first.collections (ns, coll)).entries.length)
    (roomToo : second.wal.HasRoom P (storeOf second.collections (ns, coll)).entries.length)
    (assignments : List Assignment) (filter : Option Expr) :
    (updateSection P moments ns coll assignments filter first).1.AlikeOff m
        (updateSection P others ns coll assignments filter second).1 ∧
      (updateSection P moments ns coll assignments filter first).2.map (List.map Change.unnumbered) =
        (updateSection P others ns coll assignments filter second).2.map
          (List.map Change.unnumbered) := by
  have entered := @AlikeOff.enter m first second (ns, coll) alike different
  have sameStore : (first.enter (ns, coll)).store = (second.enter (ns, coll)).store := entered.store
  have runs := @runSection_together P _ _ _ (updateOne P ns coll assignments filter) moments others
    (fun turn entry _ _ => updateOne_together (same turn) (steady turn) (steadyToo turn) assignments
      filter entry)
    (updateOne_takes assignments filter) 0 (first.enter (ns, coll)).store.entries entered room
    (by rw [sameStore]; exact roomToo)
  refine ⟨?_, ?_⟩
  · simp only [updateSection, ← sameStore]
    exact alike.leave runs.1
  · simp only [updateSection, ← sameStore]
    exact runs.2

theorem removeSection_together (alike : first.AlikeOff m second) (different : ns ≠ m)
    (same : SameMoments moments others) (steady : AllSteady moments) (steadyToo : AllSteady others)
    (room : first.wal.HasRoom P (storeOf first.collections (ns, coll)).entries.length)
    (roomToo : second.wal.HasRoom P (storeOf second.collections (ns, coll)).entries.length)
    (filter : Option Expr) :
    (removeSection P moments ns coll filter first).1.AlikeOff m
        (removeSection P others ns coll filter second).1 ∧
      (removeSection P moments ns coll filter first).2.map (List.map Change.unnumbered) =
        (removeSection P others ns coll filter second).2.map (List.map Change.unnumbered) := by
  have entered := @AlikeOff.enter m first second (ns, coll) alike different
  have sameStore : (first.enter (ns, coll)).store = (second.enter (ns, coll)).store := entered.store
  simp only [removeSection, ← sameStore]
  cases isTargets : removeTargets P filter (first.enter (ns, coll)).store.entries with
  | error stop => exact ⟨alike.leave entered, rfl⟩
  | ok targets =>
      have fewer := removeTargets_length isTargets
      have roomSecond : second.wal.HasRoom P (first.enter (ns, coll)).store.entries.length := by
        rw [sameStore]
        exact roomToo
      have runs := @runSection_together P _ _ _ (removeOne P ns coll) moments others
        (fun turn id _ _ => removeOne_together (same turn) (steady turn) (steadyToo turn) id)
        removeOne_takes 0 targets entered (room.fewer fewer) (roomSecond.fewer fewer)
      exact ⟨alike.leave runs.1, runs.2⟩

theorem updateSection_unnoticed (survived : Survived moments) (assignments : List Assignment)
    (filter : Option Expr) (engine : DatabaseEngine) :
    engine.AlikeOff ns (updateSection P moments ns coll assignments filter engine).1 :=
  @alikeOff_leave ns engine (ns, coll) rfl _
    (runSection_wal (fun turn entry state => updateOne_wal (survived turn) assignments filter entry
      state) 0 _ (engine.enter (ns, coll)))

theorem removeSection_unnoticed (survived : Survived moments) (filter : Option Expr)
    (engine : DatabaseEngine) :
    engine.AlikeOff ns (removeSection P moments ns coll filter engine).1 := by
  unfold removeSection
  dsimp only
  split
  · exact @alikeOff_leave ns engine (ns, coll) rfl _ (WriteAheadLog.alike_refl _)
  · exact @alikeOff_leave ns engine (ns, coll) rfl _
      (runSection_wal (fun turn id state => removeOne_wal (survived turn) id state) 0 _
        (engine.enter (ns, coll)))

end Sections

/-! ## Requests -/

namespace Request

def namespaceName : Request -> String
  | .insert ns _ _ | .update ns _ _ _ | .remove ns _ _ => ns

end Request

/-- How far a request has come, but for the numbers it was given. -/
def Progress.unnumbered : Progress -> Progress
  | .waiting => .waiting
  | .checked => .checked
  | .logged _ => .logged 0
  | .stored _ => .stored 0
  | .indexed _ => .indexed 0
  | .changed changes => .changed (changes.map Change.unnumbered)
  | .answered outcome => .answered outcome

/-- What a step of a request leaves on two sides that agree. -/
structure SameStep (m : String) (first second : DatabaseEngine × Progress × List Change) :
    Prop where
  engine : first.1.AlikeOff m second.1
  progress : first.2.1.unnumbered = second.2.1.unnumbered
  unsent : first.2.2.map Change.unnumbered = second.2.2.map Change.unnumbered

section Requests

variable {P : Platform} {m ns coll : String} {moments others : Nat -> Moment}
  {first second : DatabaseEngine} {progress reached : Progress} {unsent waiting : List Change}

theorem logInsert_together (alike : first.AlikeOff m second) {moment other : Moment}
    (same : moment.untimed = other.untimed) (steady : moment.append.Steady)
    (steadyToo : other.append.Steady) (room : first.wal.HasRoom P 1)
    (roomToo : second.wal.HasRoom P 1) (doc : Document) :
    (logInsert P moment ns coll doc first.wal).1.Alike (logInsert P other ns coll doc second.wal).1 ∧
      (logInsert P moment ns coll doc first.wal).2.map (fun _ => ()) =
        (logInsert P other ns coll doc second.wal).2.map (fun _ => ()) := by
  unfold logInsert
  cases NbfRecord.payloadFromDocument P doc with
  | error failure => exact ⟨alike.wal, rfl⟩
  | ok payload =>
      dsimp only
      rcases WriteAheadLog.append_together alike.wal steady steadyToo
        (steadyEnd_untimed same ⟨.insert, ns, coll, doc.id, payload, none⟩) room roomToo with
          ⟨next, later, fault, kept, fails, failsToo⟩ |
          ⟨next, later, number, numbered, kept, appends, appendsToo⟩
      · rw [fails, failsToo]
        exact ⟨kept, rfl⟩
      · rw [appends, appendsToo]
        exact ⟨kept, rfl⟩

theorem logInsert_wal {moment : Moment} (survives : moment.append.fault ≠ .crashAfterWal)
    (doc : Document) (wal : WriteAheadLog) :
    wal.Alike (logInsert P moment ns coll doc wal).1 := by
  unfold logInsert
  cases NbfRecord.payloadFromDocument P doc with
  | error failure => exact WriteAheadLog.alike_refl wal
  | ok payload =>
      have kept := @WriteAheadLog.append_alike P _ survives wal
        ⟨.insert, ns, coll, doc.id, payload, none⟩
      dsimp only
      generalize wal.append P moment.append _ = result at kept ⊢
      rcases result with ⟨next, outcome⟩
      cases outcome with
      | error fault => exact kept
      | ok sequence => exact kept

/-- The steps of an INSERT, on both sides. -/
theorem advanceInsert_together (alike : first.AlikeOff m second) (different : ns ≠ m)
    {moment other : Moment} (same : moment.untimed = other.untimed)
    (steady : moment.append.Steady) (steadyToo : other.append.Steady)
    (room : progress = .checked -> first.wal.HasRoom P 1)
    (roomToo : reached = .checked -> second.wal.HasRoom P 1)
    (sameProgress : progress.unnumbered = reached.unnumbered) (doc : Document) :
    (Request.advanceInsert P moment ns coll doc progress first).1.AlikeOff m
        (Request.advanceInsert P other ns coll doc reached second).1 ∧
      (Request.advanceInsert P moment ns coll doc progress first).2.unnumbered =
        (Request.advanceInsert P other ns coll doc reached second).2.unnumbered := by
  have different' : (ns, coll).1 ≠ m := different
  cases progress with
  | waiting =>
      cases reached with
      | waiting =>
          have sameAnswer : first.hasDocument (ns, coll) doc.id =
              second.hasDocument (ns, coll) doc.id := by
            rw [hasDocument, hasDocument, alike.storeOf different']
          simp only [Request.advanceInsert, sameAnswer]
          by_cases present : second.hasDocument (ns, coll) doc.id = true
          · rw [if_pos present, if_pos present]
            exact ⟨alike, rfl⟩
          · rw [if_neg present, if_neg present]
            exact ⟨alike, rfl⟩
      | checked | logged | stored | indexed | changed | answered => cases sameProgress
  | checked =>
      cases reached with
      | checked =>
          have logs := @logInsert_together P m ns coll first second alike moment other same steady
            steadyToo (room rfl) (roomToo rfl) doc
          simp only [Request.advanceInsert]
          generalize logInsert P moment ns coll doc first.wal = result at logs ⊢
          generalize logInsert P other ns coll doc second.wal = found at logs ⊢
          rcases result with ⟨wal, outcome⟩
          rcases found with ⟨log, ended⟩
          rcases logs with ⟨kept, sameEnd⟩
          cases outcome with
          | error stop =>
              cases ended with
              | error halt =>
                  cases sameEnd
                  exact ⟨alike.withWal kept, rfl⟩
              | ok number => cases sameEnd
          | ok sequence =>
              cases ended with
              | error halt => cases sameEnd
              | ok number => exact ⟨alike.withWal kept, rfl⟩
      | waiting | logged | stored | indexed | changed | answered => cases sameProgress
  | logged sequence =>
      cases reached with
      | logged number => exact ⟨alike.storeInsert different' doc, rfl⟩
      | waiting | checked | stored | indexed | changed | answered => cases sameProgress
  | stored sequence =>
      cases reached with
      | stored number =>
          simp only [Request.advanceInsert, indexInsert, alike.managerOf different']
          exact ⟨alike.withIndexes _ _, rfl⟩
      | waiting | checked | logged | indexed | changed | answered => cases sameProgress
  | indexed sequence =>
      cases reached with
      | indexed number => exact ⟨alike.emitEvent rfl, rfl⟩
      | waiting | checked | logged | stored | changed | answered => cases sameProgress
  | changed changes =>
      cases reached with
      | changed others => exact ⟨alike, sameProgress⟩
      | waiting | checked | logged | stored | indexed | answered => cases sameProgress
  | answered outcome =>
      cases reached with
      | answered ended => exact ⟨alike, sameProgress⟩
      | waiting | checked | logged | stored | indexed | changed => cases sameProgress

/-- The steps of an UPDATE or REMOVE, on both sides. -/
theorem advanceSection_together
    {enters entersToo : DatabaseEngine -> DatabaseEngine × Except Stop (List Change)}
    (alike : first.AlikeOff m second)
    (sections : progress = .waiting -> reached = .waiting ->
      (enters first).1.AlikeOff m (entersToo second).1 ∧
        (enters first).2.map (List.map Change.unnumbered) =
          (entersToo second).2.map (List.map Change.unnumbered))
    (sameProgress : progress.unnumbered = reached.unnumbered)
    (sameUnsent : unsent.map Change.unnumbered = waiting.map Change.unnumbered)
    (eventType : EventType) (verb : String) :
    SameStep m
      (Publisher.advanceSection enters eventType verb moments ns coll progress unsent first)
      (Publisher.advanceSection entersToo eventType verb others ns coll reached waiting second) := by
  cases progress with
  | waiting =>
      cases reached with
      | waiting =>
          have ran := sections rfl rfl
          simp only [Publisher.advanceSection]
          generalize enters first = result at ran ⊢
          generalize entersToo second = found at ran ⊢
          rcases result with ⟨next, outcome⟩
          rcases found with ⟨later, ended⟩
          rcases ran with ⟨kept, sameEnd⟩
          cases outcome with
          | error stop =>
              cases ended with
              | error halt =>
                  cases sameEnd
                  exact ⟨kept, rfl, rfl⟩
              | ok changes => cases sameEnd
          | ok changes =>
              cases ended with
              | error halt => cases sameEnd
              | ok changesToo =>
                  have sameChanges := Except.ok.inj sameEnd
                  exact ⟨kept, congrArg Progress.changed sameChanges, sameChanges⟩
      | checked | logged | stored | indexed | changed | answered => cases sameProgress
  | changed changes =>
      cases reached with
      | changed changesToo =>
          have sameChanges : changes.map Change.unnumbered = changesToo.map Change.unnumbered :=
            Progress.changed.inj sameProgress
          cases unsent with
          | nil =>
              cases waiting with
              | nil =>
                  have sameLength : changes.length = changesToo.length := by
                    rw [← List.length_map Change.unnumbered, sameChanges, List.length_map]
                  simp only [Publisher.advanceSection, sameLength]
                  exact ⟨alike, rfl, rfl⟩
              | cons change rest => cases sameUnsent
          | cons change rest =>
              cases waiting with
              | nil => cases sameUnsent
              | cons other later =>
                  rcases List.cons.inj sameUnsent with ⟨sameChange, sameRest⟩
                  exact ⟨alike.emitEvent (changeEvent_unnumbered eventType ns coll _ _ sameChange),
                    sameProgress, sameRest⟩
      | waiting | checked | logged | stored | indexed | answered => cases sameProgress
  | checked =>
      cases reached with
      | checked => exact ⟨alike, rfl, sameUnsent⟩
      | waiting | logged | stored | indexed | changed | answered => cases sameProgress
  | logged sequence =>
      cases reached with
      | logged number => exact ⟨alike, rfl, sameUnsent⟩
      | waiting | checked | stored | indexed | changed | answered => cases sameProgress
  | stored sequence =>
      cases reached with
      | stored number => exact ⟨alike, rfl, sameUnsent⟩
      | waiting | checked | logged | indexed | changed | answered => cases sameProgress
  | indexed sequence =>
      cases reached with
      | indexed number => exact ⟨alike, rfl, sameUnsent⟩
      | waiting | checked | logged | stored | changed | answered => cases sameProgress
  | answered outcome =>
      cases reached with
      | answered ended => exact ⟨alike, sameProgress, sameUnsent⟩
      | waiting | checked | logged | stored | indexed | changed => cases sameProgress

/-- A step of an INSERT of the namespace. -/
theorem advanceInsert_unnoticed {moment : Moment}
    (survives : moment.append.fault ≠ .crashAfterWal) (doc : Document) (progress : Progress)
    (engine : DatabaseEngine) :
    engine.AlikeOff ns (Request.advanceInsert P moment ns coll doc progress engine).1 := by
  cases progress with
  | waiting =>
      simp only [Request.advanceInsert]
      split <;> exact alikeOff_refl ns engine
  | checked =>
      have kept := @logInsert_wal P ns coll moment survives doc engine.wal
      simp only [Request.advanceInsert]
      generalize logInsert P moment ns coll doc engine.wal = result at kept ⊢
      rcases result with ⟨wal, outcome⟩
      cases outcome with
      | error stop => exact alikeOff_wal kept
      | ok sequence => exact alikeOff_wal kept
  | logged sequence => exact @alikeOff_storeInsert ns engine (ns, coll) rfl doc
  | stored sequence => exact @alikeOff_indexes ns engine (ns, coll) rfl _
  | indexed sequence => exact alikeOff_emitEvent rfl
  | changed changes => exact alikeOff_refl ns engine
  | answered outcome => exact alikeOff_refl ns engine

/-- A step of an UPDATE or REMOVE of the namespace. -/
theorem advanceSection_unnoticed
    {enters : DatabaseEngine -> DatabaseEngine × Except Stop (List Change)}
    {engine : DatabaseEngine} (sections : engine.AlikeOff ns (enters engine).1)
    (eventType : EventType) (verb : String) (progress : Progress) (unsent : List Change) :
    engine.AlikeOff ns
      (Publisher.advanceSection enters eventType verb moments ns coll progress unsent engine).1 := by
  cases progress with
  | waiting =>
      simp only [Publisher.advanceSection]
      generalize enters engine = result at sections ⊢
      rcases result with ⟨next, outcome⟩
      cases outcome with
      | error stop => exact sections
      | ok changes => exact sections
  | changed changes =>
      cases unsent with
      | nil => exact alikeOff_refl ns engine
      | cons change rest => exact alikeOff_emitEvent rfl
  | checked | logged | stored | indexed | answered => exact alikeOff_refl ns engine

/-- A step of a request of the namespace, whatever it is. -/
theorem advance_unnoticed (survived : Survived moments) (request : Request) (progress : Progress)
    (unsent : List Change) (engine : DatabaseEngine) :
    engine.AlikeOff request.namespaceName
      (Publisher.advance P moments request progress unsent engine).1 := by
  cases request with
  | insert ns coll doc => exact advanceInsert_unnoticed (survived 0) doc progress engine
  | update ns coll assignments filter =>
      exact advanceSection_unnoticed (updateSection_unnoticed survived assignments filter engine) _ _
        progress unsent
  | remove ns coll filter =>
      exact advanceSection_unnoticed (removeSection_unnoticed survived filter engine) _ _ progress
        unsent

/-- A step of a request of another namespace, on both sides. -/
theorem advance_together (alike : first.AlikeOff m second) (same : SameMoments moments others)
    (steady : AllSteady moments) (steadyToo : AllSteady others) {request : Request}
    (different : request.namespaceName ≠ m)
    (room : first.wal.HasRoom P (Task.mayIssue first ⟨request, progress⟩))
    (roomToo : second.wal.HasRoom P (Task.mayIssue second ⟨request, reached⟩))
    (sameProgress : progress.unnumbered = reached.unnumbered)
    (sameUnsent : unsent.map Change.unnumbered = waiting.map Change.unnumbered) :
    SameStep m (Publisher.advance P moments request progress unsent first)
      (Publisher.advance P others request reached waiting second) := by
  cases request with
  | insert ns coll doc =>
      have steps := @advanceInsert_together P m ns coll first second progress reached alike different
        (moments 0) (others 0) (same 0) (steady 0) (steadyToo 0)
        (fun isChecked => by rw [isChecked] at room; exact room)
        (fun isChecked => by rw [isChecked] at roomToo; exact roomToo) sameProgress doc
      exact ⟨steps.1, steps.2, sameUnsent⟩
  | update ns coll assignments filter =>
      refine advanceSection_together alike ?_ sameProgress sameUnsent _ _
      rintro rfl rfl
      exact updateSection_together alike different same steady steadyToo room roomToo assignments
        filter
  | remove ns coll filter =>
      refine advanceSection_together alike ?_ sameProgress sameUnsent _ _
      rintro rfl rfl
      exact removeSection_together alike different same steady steadyToo room roomToo filter

end Requests

/-! ## Statements in one step -/

/-- The request of a statement that changes documents. -/
def requestOf (ns : String) : Statement -> Option Request
  | .insert coll doc => some (.insert ns coll doc)
  | .update coll assignments filter => some (.update ns coll assignments filter)
  | .remove coll filter => some (.remove ns coll filter)
  | _ => none

theorem requestOf_namespaceName {ns : String} {statement : Statement} {request : Request}
    (isRequest : requestOf ns statement = some request) : request.namespaceName = ns := by
  cases statement <;> cases isRequest <;> rfl

section Single

variable {P : Platform} {m ns : String} {moments others : Nat -> Moment} {statement : Statement}
  {first second : DatabaseEngine}

/-- A statement of the namespace that changes no documents. -/
theorem execute_unnoticed (single : requestOf ns statement = none) (engine : DatabaseEngine) :
    engine.AlikeOff ns (execute P moments statement ns engine).1 := by
  cases statement with
  | insert | update | remove => cases single
  | createIndex coll field indexType => exact @alikeOff_indexes ns engine (ns, coll) rfl _
  | dropIndex coll field =>
      simp only [execute, executeDropIndex]
      split
      · exact alikeOff_refl ns engine
      · exact @alikeOff_indexes ns engine (ns, coll) rfl _
  | find | watch | count | «exists» | begin | commit | rollback => exact alikeOff_refl ns engine

/-- A statement of another namespace that changes no documents, on both sides. -/
theorem execute_together (alike : first.AlikeOff m second) (different : ns ≠ m)
    (same : SameMoments moments others) (single : requestOf ns statement = none) :
    (execute P moments statement ns first).1.AlikeOff m
        (execute P others statement ns second).1 ∧
      (execute P moments statement ns first).2 = (execute P others statement ns second).2 := by
  have stores : forall coll,
      storeOf first.collections (ns, coll) = storeOf second.collections (ns, coll) :=
    fun coll => @AlikeOff.storeOf m first second (ns, coll) alike different
  have managers : forall coll,
      managerOf first.indexes (ns, coll) = managerOf second.indexes (ns, coll) :=
    fun coll => @AlikeOff.managerOf m first second (ns, coll) alike different
  cases statement with
  | insert | update | remove => cases single
  | find coll filter sort limit offset =>
      refine ⟨alike, ?_⟩
      simp only [execute, executeFind, alike.collections (ns, coll) different, managers coll]
  | count coll filter =>
      refine ⟨alike, ?_⟩
      simp only [execute, executeCount, stores coll]
  | «exists» coll filter =>
      refine ⟨alike, ?_⟩
      simp only [execute, executeExists, stores coll]
  | createIndex coll field indexType =>
      have hashState : (moments 0).hashState = (others 0).hashState := by
        change (moments 0).untimed.hashState = (others 0).untimed.hashState
        rw [same 0]
      simp only [execute, executeCreateIndex, stores coll, managers coll, hashState]
      exact ⟨alike.withIndexes (ns, coll) _, trivial⟩
  | dropIndex coll field =>
      simp only [execute, executeDropIndex, alike.indexes (ns, coll) different]
      cases second.indexes.lookup (ns, coll) with
      | none => exact ⟨alike, rfl⟩
      | some manager => exact ⟨alike.withIndexes (ns, coll) _, rfl⟩
  | watch | begin | commit | rollback => exact ⟨alike, rfl⟩

end Single

end Server
end NovaDb
