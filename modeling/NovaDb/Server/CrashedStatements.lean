import NovaDb.Server.EventStream
import NovaDb.Server.StatementMeaning

namespace NovaDb
namespace Server

open Core Foundation Index Query Storage DatabaseEngine WriteAheadLog

/-!
# A crash in the middle of a statement

A statement writes one record for each document it changes, and the process may die
at any byte of any of them.  What recovery finds then is the contents before the
statement with a front part of its changes: all that were logged before the crash,
perhaps the one in flight, and each document whole.
-/

/-! ## Where the process dies -/

/-- The same moment on a device that takes only so many bytes more. -/
def Moment.cut (moment : Moment) (count : Nat) : Moment :=
  { moment with append := { moment.append with room := some count } }

/-- The directory when the process dies at the element of this number, with so many
bytes of its record on disk; behind the last element, when it dies after the loop. -/
def crashedSection {α : Type}
    (one : Moment -> α -> Section -> Section × Except Stop (Option Change))
    (moments : Nat -> Moment) (elements : List α) (turn count : Nat) (state : Section) : WalDir :=
  let reached := (runSection one moments 0 (elements.take turn) state).1
  match elements[turn]? with
  | none => reached.wal.dir
  | some element => (one ((moments turn).cut count) element reached).1.wal.dir

/-- The directory when the process dies at the document of this number. -/
def crashed (P : Platform) (moments : Nat -> Moment) (statement : Statement) (ns : String)
    (turn count : Nat) (engine : DatabaseEngine) : WalDir :=
  match statement with
  | .insert coll doc =>
      if engine.hasDocument (ns, coll) doc.id then engine.wal.dir
      else (logInsert P ((moments 0).cut count) ns coll doc engine.wal).1.dir
  | .update coll assignments filter =>
      crashedSection (updateOne P ns coll assignments filter) moments
        (storeOf engine.collections (ns, coll)).entries turn count (engine.enter (ns, coll))
  | .remove coll filter =>
      match removeTargets P filter (storeOf engine.collections (ns, coll)).entries with
      | .error _ => engine.wal.dir
      | .ok targets =>
          crashedSection (removeOne P ns coll) moments targets turn count (engine.enter (ns, coll))
  | _ => engine.wal.dir

/-- The changes a section has logged when it comes to its element of this number. -/
def settledSection {α : Type}
    (one : Moment -> α -> Section -> Section × Except Stop (Option Change))
    (moments : Nat -> Moment) (elements : List α) (turn : Nat) (state : Section) : Nat :=
  match (runSection one moments 0 (elements.take turn) state).2 with
  | .error _ => 0
  | .ok changes => changes.length

/-- The changes a statement has logged when it comes to its document of this number. -/
def settled (P : Platform) (moments : Nat -> Moment) (statement : Statement) (ns : String)
    (turn : Nat) (engine : DatabaseEngine) : Nat :=
  match statement with
  | .update coll assignments filter =>
      settledSection (updateOne P ns coll assignments filter) moments
        (storeOf engine.collections (ns, coll)).entries turn (engine.enter (ns, coll))
  | .remove coll filter =>
      match removeTargets P filter (storeOf engine.collections (ns, coll)).entries with
      | .error _ => 0
      | .ok targets =>
          settledSection (removeOne P ns coll) moments targets turn (engine.enter (ns, coll))
  | _ => 0

/-- The changes the events of a statement tell of. -/
def announced (engine next : DatabaseEngine) : List (Edit Place Document) :=
  (next.events.drop engine.events.length).map DataEvent.edit

/-- What a crash at the document of this number leaves: a front part of the changes,
with all that were logged before and at most one more. -/
def LeavesPrefix (P : Platform) (dir : WalDir) (logged : Nat) (contents : Contents)
    (changes : List (Edit Place Document)) : Prop :=
  Exists fun number => logged ≤ number ∧ number ≤ logged + 1 ∧ number ≤ changes.length ∧
    Recovers P dir (Edit.replay contents (changes.take number))

/-! ## One record -/

section Records

variable {P : Platform} {wal : WriteAheadLog} {contents : Contents}

/-- A crash in an append leaves the contents, or the contents with its effect. -/
theorem mirrors_crashed (mirrors : Mirrors P wal contents)
    {env : Environment} (quiet : env.Quiet) {mutation : Mutation} (legal : mutation.Legal P)
    (count : Nat) :
    Recovers P (append P { env with room := some count } wal mutation).1.dir contents ∨
      Recovers P (append P { env with room := some count } wal mutation).1.dir
        (mutation.effect P contents) := by
  rcases mirrors with ⟨closed, current, ready, denotes⟩
  rcases @crashImage_holds P wal closed current ready (some ⟨env, mutation, count⟩)
      (fun call isCall => Option.some.inj isCall ▸ quiet)
      (fun call isCall => Option.some.inj isCall ▸ legal) with ⟨layout, holds, sound, isRecords⟩
  cases isNext : nextRecord P env wal mutation with
  | none =>
      simp only [wholeInFlight, isNext, List.append_nil] at isRecords
      exact Or.inl (recovers_of_holds holds sound (isRecords ▸ denotes))
  | some record =>
      simp only [wholeInFlight, isNext] at isRecords
      split at isRecords
      · have isRecord : record = mutation.record (wal.currentSequence + 1) env.now ∧
            record.Fits := by
          simp only [nextRecord] at isNext
          split at isNext
          · cases isNext
          · cases encoded : (mutation.record (wal.currentSequence + 1) env.now).encode P with
            | error failure =>
                rw [encoded] at isNext
                cases isNext
            | ok bytes =>
                rw [encoded] at isNext
                cases isNext
                exact ⟨rfl, (NbfRecord.encode_eq_ok_iff.mp encoded).1⟩
        rw [isRecord.1] at isRecords
        refine Or.inr (recovers_of_holds holds sound ?_)
        rw [isRecords]
        exact denotes.logged (legal.valid (isRecord.1 ▸ isRecord.2))
      · rw [List.append_nil] at isRecords
        exact Or.inl (recovers_of_holds holds sound (isRecords ▸ denotes))

end Records

/-! ## One document -/

section One

variable {P : Platform} {ns coll : String} {contents : Contents} {moment : Moment}
  {state next : Section} {change : Option Change}

/-- A crash at one document leaves it as it was or as its change has it. -/
def LeavesEither (P : Platform) (dir : WalDir) (contents : Contents) (key : CollectionKey)
    (change : Option Change) : Prop :=
  Recovers P dir contents ∨ Exists fun logged => change = some logged ∧
    Recovers P dir (Foundation.Edit.apply contents (logged.edit key))

theorem updateOne_crashed (mirrors : Mirrors P state.wal contents)
    (quiet : moment.append.Quiet) {assignments : List Assignment} {filter : Option Expr}
    {entry : Sigma fun _ : DocumentId => Document} (member : entry.1 ∈ state.store)
    (built : entry.1.Built)
    (ran : updateOne P ns coll assignments filter moment entry state = (next, .ok change))
    (roundTrips : forall doc, next.store.lookup entry.1 = some doc -> RoundTrips P doc)
    (count : Nat) :
    LeavesEither P
      (updateOne P ns coll assignments filter (moment.cut count) entry state).1.wal.dir contents
      (ns, coll) change := by
  cases updateOne_exit ran with
  | passedOver filtered =>
      have passed : (updateOne P ns coll assignments filter (moment.cut count) entry state).1 =
          state := by
        simp only [updateOne, filtered]
      rw [passed]
      exact Or.inl mirrors.recovers
  | logged matched assigns encoded logs =>
      rename_i after payload wal sequence
      have sameClock : Evaluator.applyAssignments P (moment.cut count).clock entry.2 assignments =
          (after, .ok ()) := assigns
      have sameLog : (updateOne P ns coll assignments filter (moment.cut count) entry state).1.wal =
          (state.wal.append P (moment.cut count).append
            ⟨.update, ns, coll, entry.1, payload, none⟩).1 := by
        simp only [updateOne, matched, sameClock, encoded]
        split
        · rename_i failed
          rw [failed]
        · rename_i succeeded
          rw [succeeded]
      have reads := roundTrips after (ValueMap.lookup_replace after member)
      have legal : Mutation.Legal P ⟨.update, ns, coll, entry.1, payload, none⟩ :=
        ⟨built, fun _ => ⟨after, reads.fromSlice encoded⟩⟩
      have effect : Mutation.effect P ⟨.update, ns, coll, entry.1, payload, none⟩ contents =
          Function.update contents ((ns, coll), entry.1) (some after) :=
        (writes_document (Or.inr rfl) built reads encoded).2 contents
      rw [sameLog]
      rcases mirrors_crashed mirrors quiet legal count with before | behind
      · exact Or.inl before
      · rw [effect] at behind
        exact Or.inr ⟨_, rfl, behind⟩

theorem removeOne_crashed (mirrors : Mirrors P state.wal contents)
    (quiet : moment.append.Quiet) {id : DocumentId} (built : id ∈ state.store -> id.Built)
    (ran : removeOne P ns coll moment id state = (next, .ok change)) (count : Nat) :
    LeavesEither P (removeOne P ns coll (moment.cut count) id state).1.wal.dir contents (ns, coll)
      change := by
  cases removeOne_exit ran with
  | absent missing =>
      have passed : (removeOne P ns coll (moment.cut count) id state).1 = state := by
        simp only [removeOne, missing]
      rw [passed]
      exact Or.inl mirrors.recovers
  | logged stored logs =>
      have sameLog : (removeOne P ns coll (moment.cut count) id state).1.wal =
          (state.wal.append P (moment.cut count).append ⟨.delete, ns, coll, id, [], none⟩).1 := by
        simp only [removeOne, stored]
        split
        · rename_i failed
          rw [failed]
        · rename_i succeeded
          rw [succeeded]
      have isBuilt := built (AList.lookup_isSome.mp (by rw [stored]; rfl))
      have legal : Mutation.Legal P ⟨.delete, ns, coll, id, [], none⟩ :=
        ⟨isBuilt, fun either => either.elim nofun nofun⟩
      rw [sameLog]
      rcases mirrors_crashed mirrors quiet legal count with before | behind
      · exact Or.inl before
      · rw [(@writes_removal P ns coll id isBuilt).2] at behind
        exact Or.inr ⟨_, rfl, behind⟩

end One

/-! ## The loop -/

section Loop

variable {P : Platform} {ns coll : String} {α : Type}
  {one : Moment -> α -> Section -> Section × Except Stop (Option Change)}
  {moments : Nat -> Moment} {state final : Section} {changes : List Change}

/-- A loop that runs to its end has run its front part to its end, and then the rest. -/
theorem runSection_append_ok {turn : Nat} {front back : List α}
    (ran : runSection one moments turn (front ++ back) state = (final, .ok changes)) :
    Exists fun middle => Exists fun early => Exists fun late =>
      runSection one moments turn front state = (middle, .ok early) ∧
        runSection one moments (turn + front.length) back middle = (final, .ok late) ∧
        changes = early ++ late := by
  induction front generalizing turn state changes with
  | nil => exact ⟨state, [], changes, rfl, ran, rfl⟩
  | cons element rest ih =>
      rcases runSection_cons ran with ⟨stop, _, stopped⟩ | ⟨next, change, others, first, later, same⟩
      · cases stopped
      · cases others with
        | error stop => cases same
        | ok others =>
            cases same
            rcases ih later with ⟨middle, early, late, isFront, isBack, rfl⟩
            refine ⟨middle, change.toList ++ early, late, ?_, ?_, (List.append_assoc _ _ _).symm⟩
            · rw [runSection, first]
              simp only [isFront]
            · rw [List.length_cons, Nat.add_comm rest.length 1, ← Nat.add_assoc]
              exact isBack

/-- A crash in a loop that would run to its end, given what every front part of the
loop has come to and what a crash at one element leaves. -/
theorem crashedSection_leaves {elements : List α} {contents : Contents} {key : CollectionKey}
    (ran : runSection one moments 0 elements state = (final, .ok changes))
    (reaches : forall {front back : List α} {middle : Section} {early late : List Change},
      elements = front ++ back -> runSection one moments 0 front state = (middle, .ok early) ->
        runSection one moments front.length back middle = (final, .ok late) ->
        Mirrors P middle.wal (Edit.replay contents (early.map (Change.edit key))))
    (crashes : forall {front back : List α} {element : α} {middle next : Section}
      {early late : List Change} {change : Option Change} (count : Nat),
      elements = front ++ element :: back ->
        runSection one moments 0 front state = (middle, .ok early) ->
        one (moments front.length) element middle = (next, .ok change) ->
        runSection one moments (front.length + 1) back next = (final, .ok late) ->
        Mirrors P middle.wal (Edit.replay contents (early.map (Change.edit key))) ->
        LeavesEither P (one ((moments front.length).cut count) element middle).1.wal.dir
          (Edit.replay contents (early.map (Change.edit key))) key change)
    (turn count : Nat) :
    LeavesPrefix P (crashedSection one moments elements turn count state)
      (settledSection one moments elements turn state) contents
      (changes.map (Change.edit key)) := by
  rcases runSection_append_ok ((List.take_append_drop turn elements).symm ▸ ran) with
    ⟨middle, early, late, isFront, isBack, rfl⟩
  rw [Nat.zero_add] at isBack
  have mirrors := reaches (List.take_append_drop turn elements).symm isFront isBack
  have isEarly : Edit.replay contents
        (((early ++ late).map (Change.edit key)).take early.length) =
      Edit.replay contents (early.map (Change.edit key)) := by
    rw [List.map_append, List.take_left' (List.length_map _)]
  have stays : forall {dir : WalDir},
      Recovers P dir (Edit.replay contents (early.map (Change.edit key))) ->
        LeavesPrefix P dir (settledSection one moments elements turn state) contents
          ((early ++ late).map (Change.edit key)) := by
    intro dir recovers
    refine ⟨early.length, ?_, ?_, ?_, isEarly ▸ recovers⟩
    · rw [settledSection, isFront]
    · rw [settledSection, isFront]
      exact Nat.le_succ _
    · rw [List.length_map, List.length_append]
      exact Nat.le_add_right _ _
  rw [crashedSection, isFront]
  cases isElement : elements[turn]? with
  | none => exact stays mirrors.recovers
  | some element =>
      rcases List.getElem?_eq_some_iff.mp isElement with ⟨inside, atTurn⟩
      have isLength : (elements.take turn).length = turn := List.length_take_of_le (Nat.le_of_lt inside)
      have isRest : elements.drop turn = element :: elements.drop (turn + 1) := by
        rw [List.drop_eq_getElem_cons inside, atTurn]
      have isWhole : elements = elements.take turn ++ element :: elements.drop (turn + 1) := by
        rw [← isRest, List.take_append_drop]
      rw [isRest] at isBack
      rcases runSection_cons isBack with ⟨stop, _, stopped⟩ |
        ⟨next, change, others, first, later, same⟩
      · cases stopped
      · cases others with
        | error stop => cases same
        | ok others =>
            cases same
            have either := crashes count isWhole isFront first later mirrors
            rw [isLength] at either
            rcases either with before | ⟨logged, rfl, behind⟩
            · exact stays before
            · refine ⟨early.length + 1, ?_, ?_, ?_, ?_⟩
              · rw [settledSection, isFront]
                exact Nat.le_succ _
              · rw [settledSection, isFront]
              · simp only [List.map_append, List.length_append, List.length_map,
                  Option.toList_some, List.length_cons, List.length_nil]
                omega
              · have isTaken : ((early ++ ([logged] ++ others)).map (Change.edit key)).take
                      (early.length + 1) =
                    early.map (Change.edit key) ++ [logged.edit key] := by
                  rw [← List.append_assoc, List.map_append, List.take_left' (by simp),
                    List.map_append]
                  rfl
                change Recovers P _ (Edit.replay contents
                  (((early ++ ([logged] ++ others)).map (Change.edit key)).take (early.length + 1)))
                rw [isTaken, Edit.replay_append]
                exact behind

end Loop

/-! ## Critical sections -/

section Sections

variable {P : Platform} {ns coll : String} {engine next : DatabaseEngine} {moments : Nat -> Moment}
  {filter : Option Expr} {changes : List Change}

/-- In the middle of an UPDATE the documents are those from before or those behind
it. -/
theorem updateOnes_middle {assignments : List Assignment}
    {front back : List (Sigma fun _ : DocumentId => Document)} {state middle final : Section}
    {turn : Nat} {early late : List Change} (distinct : (front ++ back).NodupKeys)
    (isFront : runSection (updateOne P ns coll assignments filter) moments 0 front state =
      (middle, .ok early))
    (isBack : runSection (updateOne P ns coll assignments filter) moments turn back middle =
      (final, .ok late)) (id : DocumentId) :
    middle.store.lookup id = state.store.lookup id ∨
      final.store.lookup id = middle.store.lookup id := by
  by_cases inBack : id ∈ back.map Sigma.fst
  · left
    refine runSection_frame (updateOne_frame P ns coll assignments filter) ?_ isFront
    intro inFront
    have distinctIds : (front.map Sigma.fst ++ back.map Sigma.fst).Nodup := by
      rw [← List.map_append]
      exact distinct
    exact (List.nodup_append.mp distinctIds).2.2 id inFront id inBack rfl
  · right
    exact runSection_frame (updateOne_frame P ns coll assignments filter) inBack isBack

theorem update_crashed (inStep : InStep P engine)
    (quiet : forall turn, (moments turn).append.Quiet) {assignments : List Assignment}
    (before : AllRoundTrip P engine) (behind : AllRoundTrip P next)
    (ran : updateSection P moments ns coll assignments filter engine = (next, .ok changes))
    (turn count : Nat) :
    LeavesPrefix P
      (crashed P moments (.update coll assignments filter) ns turn count engine)
      (settled P moments (.update coll assignments filter) ns turn engine)
      (contentsOf engine.collections) (changes.map (Change.edit (ns, coll))) := by
  rcases updateSection_loop ran with ⟨final, loop, rfl⟩
  have stored : forall entry, entry ∈ (storeOf engine.collections (ns, coll)).entries ->
      (engine.enter (ns, coll)).store.lookup entry.1 = some entry.2 :=
    fun entry member => AList.mem_lookup_iff.mpr member
  have distinct := (storeOf engine.collections (ns, coll)).nodupKeys
  have sameContents : (engine.enter (ns, coll)).view engine.collections (ns, coll) =
      contentsOf engine.collections := contentsOf_same engine.collections (ns, coll)
  have finalRoundTrips : forall id doc, final.store.lookup id = some doc -> RoundTrips P doc := by
    intro id doc isFinal
    refine behind ((ns, coll), id) doc ?_
    rw [leave_contents, if_pos rfl]
    exact isFinal
  have startRoundTrips : forall id doc,
      (engine.enter (ns, coll)).store.lookup id = some doc -> RoundTrips P doc :=
    fun id doc isStored => before ((ns, coll), id) doc isStored
  refine crashedSection_leaves loop ?_ ?_ turn count
  · intro front back middle early late isWhole isFront isBack
    have frontDistinct : front.NodupKeys := by
      rw [isWhole] at distinct
      exact distinct.sublist (List.sublist_append_left front back)
    have frontStored : forall entry, entry ∈ front ->
        (engine.enter (ns, coll)).store.lookup entry.1 = some entry.2 := by
      intro entry member
      exact stored entry (isWhole ▸ List.mem_append_left back member)
    have follows := (inStep.enter (ns, coll)).update frontDistinct frontStored
      (fun _ _ _ => rfl) isFront (by
        intro id doc isMiddle
        rcases updateOnes_middle (isWhole ▸ distinct) isFront isBack id with asBefore | asAfter
        · exact startRoundTrips id doc (asBefore ▸ isMiddle)
        · exact finalRoundTrips id doc (asAfter.trans isMiddle))
    have accounts : (engine.enter (ns, coll)).Accounts engine.collections (ns, coll)
        (fun _ => True) early middle :=
      updateOnes_account frontDistinct frontStored (fun _ _ _ => trivial) isFront
    have leads := accounts.leads
    rw [sameContents] at leads
    rw [leads.replay]
    rw [Follows, overlay_noContents] at follows
    exact follows
  · intro front back entry middle next early late change count isWhole isFront first isBack mirrors
    rw [isWhole] at distinct stored
    have distinctIds : (front.map Sigma.fst ++ (entry :: back).map Sigma.fst).Nodup := by
      rw [← List.map_append]
      exact distinct
    have notInFront : entry.1 ∉ front.map Sigma.fst := fun inFront =>
      (List.nodup_append.mp distinctIds).2.2 entry.1 inFront entry.1 List.mem_cons_self rfl
    have notInBack : entry.1 ∉ back.map Sigma.fst :=
      (List.nodup_cons.mp (List.nodup_append.mp distinctIds).2.1).1
    have isStored : middle.store.lookup entry.1 = some entry.2 := by
      rw [runSection_frame (updateOne_frame P ns coll assignments filter) notInFront isFront]
      exact stored entry (List.mem_append_right front List.mem_cons_self)
    have member : entry.1 ∈ middle.store := AList.lookup_isSome.mp (by rw [isStored]; rfl)
    have built : entry.1.Built := by
      refine (inStep.enter (ns, coll)).built (AList.lookup_isSome.mp ?_)
      rw [stored entry (List.mem_append_right front List.mem_cons_self)]
      rfl
    refine updateOne_crashed mirrors (quiet front.length) member built first ?_ count
    intro doc isNext
    refine finalRoundTrips entry.1 doc ?_
    rw [runSection_frame (updateOne_frame P ns coll assignments filter) notInBack isBack]
    exact isNext

theorem remove_crashed (inStep : InStep P engine)
    (quiet : forall turn, (moments turn).append.Quiet)
    (ran : removeSection P moments ns coll filter engine = (next, .ok changes))
    (turn count : Nat) :
    LeavesPrefix P (crashed P moments (.remove coll filter) ns turn count engine)
      (settled P moments (.remove coll filter) ns turn engine)
      (contentsOf engine.collections) (changes.map (Change.edit (ns, coll))) := by
  cases isTargets : removeTargets P filter (storeOf engine.collections (ns, coll)).entries with
  | error stop => cases removeSection_unresolved isTargets ran
  | ok targets =>
      rcases removeSection_loop isTargets ran with ⟨final, loop, rfl⟩
      have sameContents : (engine.enter (ns, coll)).view engine.collections (ns, coll) =
          contentsOf engine.collections := contentsOf_same engine.collections (ns, coll)
      have reached : forall {front : List DocumentId} {middle : Section} {early : List Change},
          runSection (removeOne P ns coll) moments 0 front (engine.enter (ns, coll)) =
              (middle, .ok early) ->
            Follows P noContents engine.collections (ns, coll) middle :=
        fun isFront => (inStep.enter (ns, coll)).remove (fun _ _ => rfl) isFront
      rw [crashed, settled, isTargets]
      refine crashedSection_leaves loop ?_ ?_ turn count
      · intro front back middle early late _ isFront _
        have accounts : (engine.enter (ns, coll)).Accounts engine.collections (ns, coll)
            (fun _ => True) early middle := removeOnes_account (fun _ _ => trivial) isFront
        have leads := accounts.leads
        have follows := reached isFront
        rw [sameContents] at leads
        rw [leads.replay]
        rw [Follows, overlay_noContents] at follows
        exact follows
      · intro front back id middle next early late change count _ isFront first _ mirrors
        exact removeOne_crashed mirrors (quiet front.length)
          (fun member => (reached isFront).built member) first count

end Sections

/-! ## Statements -/

section Statements

variable {P : Platform} {ns : String} {engine next : DatabaseEngine} {moments : Nat -> Moment}

theorem insert_crashed (inStep : InStep P engine)
    (quiet : forall turn, (moments turn).append.Quiet) {coll : String} {doc : Document}
    (built : doc.id.Built) (roundTrips : RoundTrips P doc)
    (absent : engine.hasDocument (ns, coll) doc.id = false) {wal : WriteAheadLog}
    {sequence : UInt64} (logs : logInsert P (moments 0) ns coll doc engine.wal = (wal, .ok sequence))
    (turn count : Nat) :
    LeavesPrefix P (crashed P moments (.insert coll doc) ns turn count engine) 0
      (contentsOf engine.collections) [⟨((ns, coll), doc.id), none, some doc⟩] := by
  cases logInsert_exit logs with
  | logged encoded isAppend =>
      rename_i payload
      have legal : Mutation.Legal P ⟨.insert, ns, coll, doc.id, payload, none⟩ :=
        ⟨built, fun _ => ⟨doc, roundTrips.fromSlice encoded⟩⟩
      have effect : Mutation.effect P ⟨.insert, ns, coll, doc.id, payload, none⟩
            (contentsOf engine.collections) =
          Function.update (contentsOf engine.collections) ((ns, coll), doc.id) (some doc) :=
        (writes_document (Or.inl rfl) built roundTrips encoded).2 _
      have isCrashed : crashed P moments (.insert coll doc) ns turn count engine =
          (engine.wal.append P ((moments 0).cut count).append
            ⟨.insert, ns, coll, doc.id, payload, none⟩).1.dir := by
        simp only [crashed, absent, Bool.false_eq_true, if_false, logInsert, encoded]
        split
        · rename_i failed
          rw [failed]
        · rename_i succeeded
          rw [succeeded]
      rw [isCrashed]
      rcases mirrors_crashed inStep (quiet 0) legal count with before | behind
      · exact ⟨0, Nat.le_refl _, Nat.zero_le _, Nat.zero_le _, before⟩
      · rw [effect] at behind
        exact ⟨1, Nat.zero_le _, Nat.le_refl _, Nat.le_refl _, behind⟩

/-- A statement that changes nothing. -/
theorem idle_crashed (inStep : InStep P engine) : LeavesPrefix P engine.wal.dir 0
    (contentsOf engine.collections) [] :=
  ⟨0, Nat.le_refl _, Nat.zero_le _, Nat.le_refl _, inStep.recovers⟩

/-- The changes a statement announces, each of its own document. -/
structure Announces (engine next : DatabaseEngine) (changes : List (Edit Place Document)) : Prop where
  tells : announced engine next = changes
  leads : Edit.replay (contentsOf engine.collections) changes = contentsOf next.collections
  distinct : (changes.map Edit.key).Nodup

theorem announces_idle (sameEvents : next.events = engine.events)
    (sameContents : contentsOf next.collections = contentsOf engine.collections) :
    Announces engine next [] where
  tells := by
    rw [announced, sameEvents, List.drop_length]
    rfl
  leads := sameContents.symm
  distinct := List.nodup_nil

/-- What a section with its events announces. -/
theorem announces_section {coll : String} {entered : DatabaseEngine} {eventType : EventType}
    {changes : List Change} (sameEvents : entered.events = engine.events)
    (leads : Edit.Leads (contentsOf engine.collections) (changes.map (Change.edit (ns, coll)))
      (contentsOf entered.collections))
    (distinct : (changes.map Change.id).Nodup) :
    Announces engine (emitChanges eventType ns coll moments 0 changes entered)
      (changes.map (Change.edit (ns, coll))) where
  tells := by
    rw [emitChanges_eq, announced, sameEvents, List.drop_left]
    exact changeEvents_edits eventType ns coll moments 0 changes
  leads := by
    rw [emitChanges_eq]
    exact leads.replay
  distinct := by
    rw [List.map_map]
    have keys : (changes.map (Edit.key ∘ Change.edit (ns, coll))) =
        (changes.map Change.id).map (fun id => ((ns, coll), id)) := by
      rw [List.map_map]
      rfl
    rw [keys]
    exact distinct.map fun _ _ same => (Prod.mk.inj same).2

theorem updateSection_distinct {coll : String} {assignments : List Assignment}
    {filter : Option Expr} {changes : List Change}
    (ran : updateSection P moments ns coll assignments filter engine = (next, .ok changes)) :
    (changes.map Change.id).Nodup := by
  rcases updateSection_loop ran with ⟨final, loop, rfl⟩
  have updated := updateOnes_updated (storeOf engine.collections (ns, coll)).nodupKeys
    (fun entry member => AList.mem_lookup_iff.mpr member) loop
  rw [updated.ids]
  exact accepted_ids_nodup P filter _

theorem removeSection_distinct {coll : String} {filter : Option Expr} {changes : List Change}
    (ran : removeSection P moments ns coll filter engine = (next, .ok changes)) :
    (changes.map Change.id).Nodup := by
  rw [removeSection_ids ran]
  exact accepted_ids_nodup P filter _

/-- A statement that does not write documents. -/
theorem single_crashed (inStep : InStep P engine) {statement : Statement}
    (single : requestOf ns statement = none) (turn count : Nat) :
    LeavesPrefix P (crashed P moments statement ns turn count engine)
      (settled P moments statement ns turn engine) (contentsOf engine.collections) [] := by
  cases statement with
  | insert | update | remove => cases single
  | find | createIndex | dropIndex | watch | count | «exists» | begin | commit | rollback =>
      exact idle_crashed inStep

/-- An INSERT that returns has logged its document. -/
theorem executeInsert_logged {moment : Moment} {coll : String} {doc : Document}
    {payload : ResponsePayload}
    (ran : executeInsert P moment ns coll doc engine = (next, .ok payload)) :
    engine.hasDocument (ns, coll) doc.id = false ∧ Exists fun wal => Exists fun sequence =>
      logInsert P moment ns coll doc engine.wal = (wal, .ok sequence) ∧
        contentsOf next.collections =
          Function.update (contentsOf engine.collections) ((ns, coll), doc.id) (some doc) ∧
        next.events = engine.events ++ [insertEvent moment ns coll doc sequence] := by
  rw [executeInsert] at ran
  split at ran
  · cases ran
  · rename_i absent
    refine ⟨Bool.eq_false_iff.mpr absent, ?_⟩
    cases logs : logInsert P moment ns coll doc engine.wal with
    | mk wal outcome =>
        rw [logs] at ran
        cases outcome with
        | error stop => cases ran
        | ok sequence =>
            cases ran
            exact ⟨wal, sequence, rfl, storeInsert_contents (ns, coll) doc { engine with wal }, rfl⟩

/-- A statement that returns, with what it announces and what a crash in it leaves. -/
theorem execute_crashed (inStep : InStep P engine)
    (quiet : forall turn, (moments turn).append.Quiet) {statement : Statement}
    (built : forall coll doc, statement = .insert coll doc -> doc.id.Built)
    (before : AllRoundTrip P engine) (behind : AllRoundTrip P next) {payload : ResponsePayload}
    (ran : execute P moments statement ns engine = (next, .ok payload)) (turn count : Nat) :
    Exists fun changes => Announces engine next changes ∧
      LeavesPrefix P (crashed P moments statement ns turn count engine)
        (settled P moments statement ns turn engine) (contentsOf engine.collections) changes := by
  cases isRequest : requestOf ns statement with
  | none =>
      have state := @single_state P ns engine moments statement isRequest
      rw [ran] at state
      exact ⟨[], announces_idle state.2.1 (by rw [state.1]), single_crashed inStep isRequest turn count⟩
  | some request =>
      cases statement with
      | find | createIndex | dropIndex | watch | count | «exists» | begin | commit | rollback =>
          cases isRequest
      | insert coll doc =>
          rw [execute, outcomeOf] at ran
          cases inserted : executeInsert P (moments 0) ns coll doc engine with
          | mk after outcome =>
              rw [inserted] at ran
              cases outcome with
              | error stop => cases ran
              | ok records =>
                  cases ran
                  rcases executeInsert_logged inserted with
                    ⟨absent, wal, sequence, logs, isContents, isEvents⟩
                  have roundTrips : RoundTrips P doc := by
                    refine behind ((ns, coll), doc.id) doc ?_
                    rw [isContents, Function.update_self]
                  refine ⟨[⟨((ns, coll), doc.id), none, some doc⟩],
                    ⟨?_, isContents.symm, List.nodup_singleton _⟩,
                    insert_crashed inStep quiet (built coll doc rfl) roundTrips absent logs
                      turn count⟩
                  rw [announced, isEvents, List.drop_left]
                  rfl
      | update coll assignments filter =>
          rw [execute, outcomeOf, executeUpdate] at ran
          cases isSection : updateSection P moments ns coll assignments filter engine with
          | mk entered outcome =>
              rw [isSection] at ran
              cases outcome with
              | error stop => cases ran
              | ok changes =>
                  cases ran
                  rcases updateSection_accounted isSection with ⟨final, rfl, accounted⟩
                  have entered : AllRoundTrip P (engine.leave (ns, coll) final) := by
                    have isBehind := behind
                    simp only [emitChanges_eq] at isBehind
                    exact isBehind
                  exact ⟨_, announces_section rfl accounted.leads
                    (updateSection_distinct isSection),
                    update_crashed inStep quiet before entered isSection turn count⟩
      | remove coll filter =>
          rw [execute, outcomeOf, executeRemove] at ran
          cases isSection : removeSection P moments ns coll filter engine with
          | mk entered outcome =>
              rw [isSection] at ran
              cases outcome with
              | error stop => cases ran
              | ok changes =>
                  cases ran
                  rcases removeSection_accounted isSection with ⟨final, rfl, accounted⟩
                  exact ⟨_, announces_section rfl accounted.leads
                    (removeSection_distinct isSection),
                    remove_crashed inStep quiet isSection turn count⟩

end Statements

/-- A crash at any byte of any record of a statement that would return leaves the
contents with a front part of its changes, all that were logged before and at most
one more; every document is as it was before the statement or as it is behind it.  The
documents in memory before the statement and behind it survive the JSON codec, the id
of an inserted one is from a constructor, and nothing fails but by the crash. -/
theorem crash_keeps_prefix {P : Platform}
    {engine next : DatabaseEngine} (inStep : InStep P engine) {moments : Nat -> Moment}
    (quiet : forall turn, (moments turn).append.Quiet) {statement : Statement} {ns : String}
    (built : forall coll doc, statement = .insert coll doc -> doc.id.Built)
    (before : AllRoundTrip P engine) (behind : AllRoundTrip P next) {payload : ResponsePayload}
    (ran : execute P moments statement ns engine = (next, .ok payload)) (turn count : Nat) :
    Exists fun recovered =>
      Recovers P (crashed P moments statement ns turn count engine) recovered ∧
        (Exists fun number => settled P moments statement ns turn engine ≤ number ∧
          number ≤ settled P moments statement ns turn engine + 1 ∧
          recovered = Edit.replay (contentsOf engine.collections)
            ((announced engine next).take number)) ∧
        forall place, recovered place = contentsOf engine.collections place ∨
          recovered place = contentsOf next.collections place := by
  rcases execute_crashed inStep quiet built before behind ran turn count with
    ⟨changes, announces, number, atLeast, atMost, _, recovers⟩
  rw [← announces.tells] at recovers
  refine ⟨_, recovers, ⟨number, atLeast, atMost, rfl⟩, ?_⟩
  intro place
  rw [announces.tells, ← announces.leads]
  exact Edit.replay_take_either announces.distinct _ number place

/-- The process dies ten bytes into the record of an INSERT. -/
theorem crash_keeps_prefix_insert :
    let statement := Statement.insert "users" sampleDocument
    let next := (execute samplePlatform quietMoments statement "default" (emptyEngine 100)).1
    Exists fun recovered =>
      Recovers samplePlatform
          (crashed samplePlatform quietMoments statement "default" 0 10 (emptyEngine 100)) recovered ∧
        (Exists fun number =>
          settled samplePlatform quietMoments statement "default" 0 (emptyEngine 100) ≤ number ∧
          number ≤ settled samplePlatform quietMoments statement "default" 0 (emptyEngine 100) + 1 ∧
          recovered = Edit.replay (contentsOf (emptyEngine 100).collections)
            ((announced (emptyEngine 100) next).take number)) ∧
        forall place, recovered place = contentsOf (emptyEngine 100).collections place ∨
          recovered place = contentsOf next.collections place := by
  have inStep : InStep samplePlatform (emptyEngine 100) :=
    openEngine_intact (intact_empty samplePlatform) (openEngine_empty samplePlatform 100)
  have acknowledged : (execute samplePlatform quietMoments (.insert "users" sampleDocument)
      "default" (emptyEngine 100)).2.isOk = true := by decide +kernel
  cases ran : execute samplePlatform quietMoments (.insert "users" sampleDocument) "default"
      (emptyEngine 100) with
  | mk next outcome =>
      rw [ran] at acknowledged
      cases outcome with
      | error fault => cases acknowledged
      | ok payload =>
          have before : AllRoundTrip samplePlatform (emptyEngine 100) :=
            allRoundTrip_emptyEngine samplePlatform 100
          have behind := allRoundTrip_insert before roundTrips_sample quietMoments "default" "users"
          rw [ran] at behind
          have built : forall coll doc, Statement.insert "users" sampleDocument = .insert coll doc ->
              doc.id.Built := by
            rintro coll doc ⟨⟩
            exact built_sample
          simp only [ran]
          exact crash_keeps_prefix inStep (fun _ => quiet_quietEnvironment)
            built before behind ran 0 10

end Server
end NovaDb
