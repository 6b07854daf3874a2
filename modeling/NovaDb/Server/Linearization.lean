import NovaDb.Foundation.Linearizability
import NovaDb.Server.StatementMeaning

namespace NovaDb
namespace Server

open Core Foundation Index Query Storage DatabaseEngine

/-!
# Concurrent clients see a serial database

Statements of any clients advance step by step in one engine, in any order.  An INSERT
takes effect when it stores its document, an UPDATE or REMOVE in its critical section,
and every other statement in its only step.  As long as no INSERT checks an id while
another INSERT is between its check of it and its store insert, the history of calls
and answers is that of a serial run.
-/

/-! ## Statements in progress -/

namespace Call

/-- What the client will be answered, once the statement has taken effect. -/
def decided : Call -> Option (Outcome ResponsePayload)
  | .staged ⟨⟨.insert _ _ doc, .stored _⟩, _⟩ | .staged ⟨⟨.insert _ _ doc, .indexed _⟩, _⟩ =>
      some (.ok (.records [doc] 1))
  | .staged ⟨⟨.update _ _ _ _, .changed changes⟩, _⟩ =>
      some (.ok (.success ("Updated " ++ toString changes.length ++ " document(s)") changes.length))
  | .staged ⟨⟨.remove _ _ _, .changed changes⟩, _⟩ =>
      some (.ok (.success ("Removed " ++ toString changes.length ++ " document(s)") changes.length))
  | call => call.answer

/-- The id an INSERT has checked and not yet stored. -/
def claim : Call -> Option (Place × Document)
  | .staged ⟨⟨.insert ns coll doc, .checked⟩, _⟩ | .staged ⟨⟨.insert ns coll doc, .logged _⟩, _⟩ =>
      some (((ns, coll), doc.id), doc)
  | _ => none

/-- The id an INSERT checks next. -/
def checks : Call -> Option Place
  | .staged ⟨⟨.insert ns coll doc, .waiting⟩, _⟩ => some ((ns, coll), doc.id)
  | _ => none

/-- The call is the statement on its way. -/
def Executes (ns : String) (statement : Statement) : Call -> Prop
  | .staged publisher => requestOf ns statement = some publisher.task.request
  | .single executed _ => executed = statement ∧ requestOf ns statement = none

/-- What a step does: nothing that is seen, the check of an id, or the statement's
effect. -/
inductive Turns (P : Platform) (operation : String × Statement) (contents : Contents)
    (call after : Call) : Contents -> Prop where
  | silent (sameDecision : after.decided = call.decided) (sameClaim : after.claim = call.claim) :
      Turns P operation contents call after contents
  | checked {place : Place} {doc : Document} (undecided : call.decided = none)
      (stillUndecided : after.decided = none) (asked : call.checks = some place)
      (absent : contents place = none) (unclaimed : call.claim = none)
      (claims : after.claim = some (place, doc)) : Turns P operation contents call after contents
  | effect {answer : Outcome ResponsePayload} {next : Contents} (undecided : call.decided = none)
      (decides : after.decided = some answer) (meant : Means P contents operation answer next)
      (released : after.claim = none)
      (fills : forall place, contents place = none -> next place ≠ none ->
        Exists fun doc => call.claim = some (place, doc)) :
      Turns P operation contents call after next

theorem ofStatement_executes (ns : String) (statement : Statement) :
    (ofStatement ns statement).Executes ns statement := by
  unfold ofStatement
  split
  · rename_i request isRequest
    exact isRequest
  · rename_i single
    exact ⟨rfl, single⟩

theorem ofStatement_undecided (ns : String) (statement : Statement) :
    (ofStatement ns statement).decided = none ∧ (ofStatement ns statement).claim = none := by
  cases statement <;> exact ⟨rfl, rfl⟩

/-- A client is answered what was decided. -/
theorem decided_of_answer {call : Call} {answer : Outcome ResponsePayload}
    (isAnswer : call.answer = some answer) : call.decided = some answer := by
  rcases call with ⟨⟨⟨request, progress⟩, unsent⟩⟩ | ⟨statement, given⟩
  · cases progress with
    | answered outcome => cases request <;> exact isAnswer
    | waiting | checked | logged | stored | indexed | changed => cases isAnswer
  · exact isAnswer

theorem advance_executes {P : Platform} {moments : Nat -> Moment} {ns : String}
    {statement : Statement} {call : Call} {engine : DatabaseEngine}
    (executes : call.Executes ns statement) :
    (call.advance P moments ns engine).2.Executes ns statement := by
  rcases call with ⟨⟨⟨request, progress⟩, unsent⟩⟩ | ⟨executed, answer⟩
  · exact executes
  · cases answer <;> exact executes

section Steps

variable {P : Platform} {ns coll : String} {engine : DatabaseEngine} {moments : Nat -> Moment}

/-- A step of an INSERT whose id, once checked, is still free. -/
theorem turns_insert {doc : Document} {progress : Progress} {unsent : List Change}
    (free : forall place claimed, (Call.staged ⟨⟨.insert ns coll doc, progress⟩, unsent⟩).claim =
      some (place, claimed) -> contentsOf engine.collections place = none)
    {next : DatabaseEngine} {after : Progress}
    (steps : Request.advanceInsert P (moments 0) ns coll doc progress engine = (next, after)) :
    Turns P (ns, .insert coll doc) (contentsOf engine.collections)
      (.staged ⟨⟨.insert ns coll doc, progress⟩, unsent⟩)
      (.staged ⟨⟨.insert ns coll doc, after⟩, unsent⟩) (contentsOf next.collections) := by
  cases advanceInsert_step steps with
  | refused present =>
      refine .effect rfl rfl (.duplicate (isSome_of_hasDocument present)) rfl ?_
      exact fun place isNone some => absurd isNone some
  | checked absent => exact .checked rfl rfl rfl (none_of_hasDocument absent) rfl rfl
  | unlogged fails =>
      refine .effect rfl rfl (.unlogged (free _ _ rfl) fails) rfl ?_
      exact fun place isNone some => absurd isNone some
  | logged logs => exact .silent rfl rfl
  | stored =>
      rw [storeInsert_contents]
      refine .effect rfl rfl (.inserted (free _ _ rfl)) rfl ?_
      intro place isNone isSome
      by_cases same : place = ((ns, coll), doc.id)
      · exact ⟨doc, by rw [same]; rfl⟩
      · rw [Function.update_of_ne same] at isSome
        exact absurd isNone isSome
  | indexed => exact .silent rfl rfl
  | answered => exact .silent rfl rfl
  | idle => exact .silent rfl rfl
  | done => exact .silent rfl rfl

/-- Contents in which only stored documents were rewritten have no new places. -/
theorem fills_of_rewrites {filter : Option Expr} {key : CollectionKey}
    {becomes : Document -> Option Document -> Prop} {contents next : Contents}
    (rewrites : RewritesSome P filter key becomes contents next) (claim : Option (Place × Document)) :
    forall place, contents place = none -> next place ≠ none ->
      Exists fun doc => claim = some (place, doc) := by
  intro place isNone isSome
  rcases rewrites place with kept | ⟨_, doc, stored, _⟩
  · exact absurd (kept.trans isNone) isSome
  · rw [isNone] at stored
    cases stored

theorem turns_update {assignments : List Assignment} {filter : Option Expr} {progress : Progress}
    {unsent left : List Change} {next : DatabaseEngine} {after : Progress}
    (steps : Publisher.advance P moments (.update ns coll assignments filter) progress unsent engine =
      (next, after, left)) :
    Turns P (ns, .update coll assignments filter) (contentsOf engine.collections)
      (.staged ⟨⟨.update ns coll assignments filter, progress⟩, unsent⟩)
      (.staged ⟨⟨.update ns coll assignments filter, after⟩, left⟩)
      (contentsOf next.collections) := by
  simp only [Publisher.advance, Publisher.advanceSection] at steps
  split at steps
  · cases ran : updateSection P moments ns coll assignments filter engine with
    | mk entered outcome =>
        rw [ran] at steps
        have rewrites := updateSection_rewrites ran
        cases outcome with
        | error stop =>
            cases steps
            exact .effect rfl rfl (.updateStopped rewrites) rfl (fills_of_rewrites rewrites _)
        | ok changes =>
            cases steps
            exact .effect rfl rfl (update_means ran) rfl (fills_of_rewrites rewrites _)
  · cases steps
    exact .silent rfl rfl
  · cases steps
    exact .silent rfl rfl
  · cases steps
    exact .silent rfl rfl

theorem turns_remove {filter : Option Expr} {progress : Progress} {unsent left : List Change}
    {next : DatabaseEngine} {after : Progress}
    (steps : Publisher.advance P moments (.remove ns coll filter) progress unsent engine =
      (next, after, left)) :
    Turns P (ns, .remove coll filter) (contentsOf engine.collections)
      (.staged ⟨⟨.remove ns coll filter, progress⟩, unsent⟩)
      (.staged ⟨⟨.remove ns coll filter, after⟩, left⟩) (contentsOf next.collections) := by
  simp only [Publisher.advance, Publisher.advanceSection] at steps
  split at steps
  · cases ran : removeSection P moments ns coll filter engine with
    | mk entered outcome =>
        rw [ran] at steps
        have rewrites := removeSection_rewrites ran
        cases outcome with
        | error stop =>
            cases steps
            exact .effect rfl rfl (.removeStopped rewrites) rfl (fills_of_rewrites rewrites _)
        | ok changes =>
            cases steps
            exact .effect rfl rfl (remove_means ran) rfl (fills_of_rewrites rewrites _)
  · cases steps
    exact .silent rfl rfl
  · cases steps
    exact .silent rfl rfl
  · cases steps
    exact .silent rfl rfl

/-- One step of a statement. -/
theorem advance_turns {statement : Statement} {call : Call} (executes : call.Executes ns statement)
    (free : forall place doc, call.claim = some (place, doc) ->
      contentsOf engine.collections place = none)
    (plans : forall coll filter sort limit offset,
      call = .single (.find coll filter sort limit offset) none ->
        PlansFaithfully P ns coll filter engine) :
    Turns P (ns, statement) (contentsOf engine.collections) call
      (call.advance P moments ns engine).2
      (contentsOf (call.advance P moments ns engine).1.collections) := by
  rcases call with ⟨⟨⟨request, progress⟩, unsent⟩⟩ | ⟨executed, answer⟩
  · cases statement with
    | insert coll doc =>
        cases executes
        exact turns_insert free rfl
    | update coll assignments filter =>
        cases executes
        exact turns_update rfl
    | remove coll filter =>
        cases executes
        exact turns_remove rfl
    | find | watch | count | «exists» | createIndex | dropIndex | begin | commit | rollback =>
        cases executes
  · rcases executes with ⟨rfl, single⟩
    cases answer with
    | some answer => exact .silent rfl rfl
    | none =>
        have sameContents : contentsOf (execute P moments executed ns engine).1.collections =
            contentsOf engine.collections := by rw [(single_state single).1]
        have meant := @single_means P ns engine moments executed single (by
          intro coll filter sort limit offset isFind
          exact plans coll filter sort limit offset (by rw [isFind]))
        refine .effect rfl rfl meant rfl ?_
        intro place isNone isSome
        exact absurd (sameContents ▸ isNone) isSome

end Steps

end Call

/-! ## Clients -/

/-- A statement a client has called. -/
structure Served where
  ns : String
  statement : Statement
  call : Call

namespace Served

def operation (served : Served) : String × Statement :=
  (served.ns, served.statement)

/-- What the client is answered when the call has come to this. -/
def reply (index : Nat) (before after : Call) :
    List (Occurrence (String × Statement) (Outcome ResponsePayload)) :=
  match before.answer, after.answer with
  | none, some answer => [.returned index answer]
  | _, _ => []

end Served

/-- An engine, the statements called so far, each with its namespace and how far it has
come, and the history of calls and answers that the clients have seen. -/
structure Clientele where
  engine : DatabaseEngine
  served : List Served
  history : List (Occurrence (String × Statement) (Outcome ResponsePayload))

inductive ClientAction where
  | call (ns : String) (statement : Statement)
  | advance (index : Nat) (moments : Nat -> Moment)

namespace Clientele

/-- One action: a client calls a statement, or a statement makes a step. -/
def perform (P : Platform) (action : ClientAction) (clientele : Clientele) : Clientele :=
  match action with
  | .call ns statement =>
      { clientele with
        served := clientele.served ++ [⟨ns, statement, Call.ofStatement ns statement⟩]
        history := clientele.history ++ [.called clientele.served.length (ns, statement)] }
  | .advance index moments =>
      match clientele.served[index]? with
      | none => clientele
      | some served =>
          let next := served.call.advance P moments served.ns clientele.engine
          { engine := next.1
            served := clientele.served.set index { served with call := next.2 }
            history := clientele.history ++ Served.reply index served.call next.2 }

/-- No INSERT checks an id while another INSERT is between its check of it and its
store insert, and no FIND loses documents by its plan. -/
def InTurn (P : Platform) (clientele : Clientele) : ClientAction -> Prop
  | .call _ _ => True
  | .advance index _ => forall served, clientele.served[index]? = some served ->
      (forall place, served.call.checks = some place ->
        forall other doc, other ∈ clientele.served -> other.call.claim ≠ some (place, doc)) ∧
      forall coll filter sort limit offset,
        served.call = .single (.find coll filter sort limit offset) none ->
          PlansFaithfully P served.ns coll filter clientele.engine

end Clientele

/-- The clienteles reached by permitted actions, in any order, with the stores
iterating in any order. -/
inductive Serves (P : Platform) (permitted : Clientele -> ClientAction -> Prop)
    (start : Clientele) : Clientele -> Prop where
  | start : Serves P permitted start start
  | perform {clientele : Clientele} {action : ClientAction}
      (run : Serves P permitted start clientele) (permits : permitted clientele action) :
      Serves P permitted start (clientele.perform P action)
  | rearranged {clientele : Clientele} {engine : DatabaseEngine}
      (run : Serves P permitted start clientele) (same : Rearranged clientele.engine engine) :
      Serves P permitted start { clientele with engine }

/-! ## The serial order -/

namespace Clientele

variable {P : Platform} {clientele : Clientele} {index : Nat} {served : Served}

/-- The operations called, by number. -/
def operations (clientele : Clientele) : List (String × Statement) :=
  clientele.served.map Served.operation

/-- The operations that have taken effect, by number, with their answers. -/
def decisions (clientele : Clientele) :
    List (Option ((String × Statement) × Outcome ResponsePayload)) :=
  clientele.served.map fun served => served.call.decided.map fun answer => (served.operation, answer)

/-- The ids checked and not stored, by statement. -/
def claims (clientele : Clientele) : List (Option (Place × Document)) :=
  clientele.served.map fun served => served.call.claim

/-- What a list made from the statements has for one of them. -/
theorem map_served {α : Type} (view : Served -> α)
    (isServed : clientele.served[index]? = some served) :
    (clientele.served.map view)[index]? = some (view served) := by
  rw [List.getElem?_map, isServed]
  rfl

/-- What a list made from the statements becomes when one of them makes a step. -/
theorem map_set_served {α : Type} (view : Served -> α) (after : Call) :
    ((clientele.served.set index { served with call := after }).map view) =
      (clientele.served.map view).set index (view { served with call := after }) :=
  List.map_set

end Clientele

/-- The statements that have taken effect, in order, lead to the contents in memory,
and the ids that INSERTs have checked and not stored are free. -/
structure Serialized (P : Platform) (start : Contents) (clientele : Clientele)
    (order : List (Effect (String × Statement) (Outcome ResponsePayload))) (ahead : Contents) :
    Prop where
  linearizes : Linearizes (Means P) start clientele.history order
    (contentsOf clientele.engine.collections)
  effects : forall {index : Nat} {operation : String × Statement} {answer : Outcome ResponsePayload},
    ⟨index, operation, answer⟩ ∈ order <->
      clientele.decisions[index]? = some (some (operation, answer))
  calls : forall {index : Nat} {operation : String × Statement},
    .called index operation ∈ clientele.history <-> clientele.operations[index]? = some operation
  executes : forall served, served ∈ clientele.served ->
    served.call.Executes served.ns served.statement
  describes : Claims.Describes clientele.claims ahead
  free : forall place doc, ahead place = some doc ->
    contentsOf clientele.engine.collections place = none

/-- The elements of a list with one more at its end. -/
theorem getElem?_snoc {α : Type} {list : List α} {last found : α} {index : Nat} :
    (list ++ [last])[index]? = some found <->
      list[index]? = some found ∨ index = list.length ∧ last = found := by
  rw [List.getElem?_append]
  split
  · rename_i inside
    constructor
    · exact Or.inl
    · rintro (isFound | ⟨rfl, _⟩)
      · exact isFound
      · exact absurd inside (Nat.lt_irrefl _)
  · rename_i outside
    rw [List.getElem?_eq_none (Nat.le_of_not_lt outside), List.getElem?_singleton]
    constructor
    · intro isNew
      split at isNew
      · rename_i atEnd
        injection isNew with same
        exact Or.inr ⟨by omega, same⟩
      · cases isNew
    · rintro (isFound | ⟨rfl, rfl⟩)
      · cases isFound
      · simp

section Runs

variable {P : Platform} {start ahead : Contents} {clientele : Clientele}
  {order : List (Effect (String × Statement) (Outcome ResponsePayload))} {index : Nat}
  {served : Served}

theorem serialized_start (P : Platform) (engine : DatabaseEngine) :
    Serialized P (contentsOf engine.collections) ⟨engine, [], []⟩ [] noContents where
  linearizes := .nil _ _
  effects := by simp [Clientele.decisions]
  calls := by simp [Clientele.operations]
  executes := fun _ member => absurd member List.not_mem_nil
  describes := Claims.describes_nil
  free := by
    intro place doc isAhead
    cases isAhead

theorem Serialized.call (serialized : Serialized P start clientele order ahead) (ns : String)
    (statement : Statement) :
    Serialized P start (clientele.perform P (.call ns statement)) order ahead := by
  have undecided := Call.ofStatement_undecided ns statement
  have isLength : clientele.operations.length = clientele.served.length := List.length_map _
  have operations : (clientele.perform P (.call ns statement)).operations =
      clientele.operations ++ [(ns, statement)] := List.map_append
  have decisions : (clientele.perform P (.call ns statement)).decisions =
      clientele.decisions ++ [none] := by
    have new : (Call.ofStatement ns statement).decided.map
        (fun answer => ((ns, statement), answer)) = none := by rw [undecided.1]; rfl
    exact List.map_append.trans (congrArg (clientele.decisions ++ [·]) new)
  have claims : (clientele.perform P (.call ns statement)).claims = clientele.claims ++ [none] :=
    List.map_append.trans (congrArg (clientele.claims ++ [·]) undecided.2)
  constructor
  · refine serialized.linearizes.call_new ?_
    intro operation isCalled
    rcases List.getElem?_eq_some_iff.mp (serialized.calls.mp isCalled) with ⟨inside, _⟩
    exact Nat.lt_irrefl _ (isLength ▸ inside)
  · intro other operation answer
    rw [serialized.effects, decisions, getElem?_snoc]
    exact ⟨Or.inl, fun either => either.elim id fun isNew => nomatch isNew.2⟩
  · intro other operation
    rw [operations, getElem?_snoc, isLength, ← serialized.calls]
    change _ ∈ clientele.history ++ [_] <-> _
    rw [List.mem_append, List.mem_singleton, Occurrence.called.injEq, eq_comm (b := (ns, statement))]
  · intro found member
    rcases List.mem_append.mp member with member | isNew
    · exact serialized.executes found member
    · rw [List.mem_singleton.mp isNew]
      exact Call.ofStatement_executes ns statement
  · rw [claims]
    exact serialized.describes.arrive
  · exact serialized.free

/-- A statement makes a step, and the order grows by its effect if it has one. -/
theorem Serialized.move (serialized : Serialized P start clientele order ahead)
    (isServed : clientele.served[index]? = some served) {after : Call} {engine : DatabaseEngine}
    {longer : List (Effect (String × Statement) (Outcome ResponsePayload))} {next : Contents}
    (executes : after.Executes served.ns served.statement)
    (linearizes : Linearizes (Means P) start clientele.history longer
      (contentsOf engine.collections))
    (effects : forall {other : Nat} {operation : String × Statement}
      {answer : Outcome ResponsePayload}, ⟨other, operation, answer⟩ ∈ longer <->
        (clientele.decisions.set index
          (after.decided.map fun answer => (served.operation, answer)))[other]? =
            some (some (operation, answer)))
    (describes : Claims.Describes (clientele.claims.set index after.claim) next)
    (free : forall place doc, next place = some doc -> contentsOf engine.collections place = none) :
    Serialized P start
      ⟨engine, clientele.served.set index { served with call := after }, clientele.history⟩ longer
      next where
  linearizes := linearizes
  effects := by
    intro other operation answer
    rw [Clientele.decisions, Clientele.map_set_served]
    exact effects
  calls := by
    intro other operation
    have sameOperations : clientele.operations.set index served.operation = clientele.operations :=
      set_of_getElem? (Clientele.map_served Served.operation isServed)
    rw [Clientele.operations, Clientele.map_set_served]
    change _ <-> (clientele.operations.set index served.operation)[other]? = some operation
    rw [sameOperations]
    exact serialized.calls
  executes := by
    intro found member
    rcases List.mem_or_eq_of_mem_set member with member | rfl
    · exact serialized.executes found member
    · exact executes
  describes := by
    rw [Clientele.claims, Clientele.map_set_served]
    exact describes
  free := free

/-- A step that the client does not see. -/
theorem Serialized.silent (serialized : Serialized P start clientele order ahead)
    (isServed : clientele.served[index]? = some served) {after : Call} {engine : DatabaseEngine}
    {next : Contents} (executes : after.Executes served.ns served.statement)
    (sameDecision : after.decided = served.call.decided)
    (sameContents : contentsOf engine.collections = contentsOf clientele.engine.collections)
    (describes : Claims.Describes (clientele.claims.set index after.claim) next)
    (free : forall place doc, next place = some doc ->
      contentsOf clientele.engine.collections place = none) :
    Serialized P start
      ⟨engine, clientele.served.set index { served with call := after }, clientele.history⟩ order
      next := by
  refine serialized.move isServed executes ?_ ?_ describes ?_
  · rw [sameContents]
    exact serialized.linearizes
  · intro other operation answer
    have sameDecisions : clientele.decisions.set index
        (after.decided.map fun answer => (served.operation, answer)) = clientele.decisions := by
      rw [sameDecision]
      exact set_of_getElem? (Clientele.map_served _ isServed)
    rw [sameDecisions]
    exact serialized.effects
  · rw [sameContents]
    exact free

/-- The step in which a statement takes effect. -/
theorem Serialized.effect (serialized : Serialized P start clientele order ahead)
    (isServed : clientele.served[index]? = some served) {after : Call} {engine : DatabaseEngine}
    {next : Contents} {answer : Outcome ResponsePayload}
    (executes : after.Executes served.ns served.statement)
    (undecided : served.call.decided = none) (decides : after.decided = some answer)
    (meant : Means P (contentsOf clientele.engine.collections) served.operation answer
      (contentsOf engine.collections))
    (describes : Claims.Describes (clientele.claims.set index after.claim) next)
    (free : forall place doc, next place = some doc -> contentsOf engine.collections place = none) :
    Serialized P start
      ⟨engine, clientele.served.set index { served with call := after }, clientele.history⟩
      (order ++ [⟨index, served.operation, answer⟩]) next := by
  have unmoved : clientele.decisions[index]? = some none := by
    have isDecision := Clientele.map_served
      (fun served => served.call.decided.map fun answer => (served.operation, answer)) isServed
    rw [undecided] at isDecision
    exact isDecision
  have pending : forall effect, effect ∈ order -> effect.call ≠ index := by
    intro effect member same
    have isDecided := serialized.effects.mp member
    rw [same, unmoved] at isDecided
    cases isDecided
  refine serialized.move isServed executes ?_ ?_ describes free
  · refine serialized.linearizes.takes_effect ?_ pending meant
    exact serialized.calls.mpr (Clientele.map_served Served.operation isServed)
  · intro other operation given
    rcases List.getElem?_eq_some_iff.mp unmoved with ⟨inside, _⟩
    rw [List.mem_append, List.mem_singleton, decides, serialized.effects]
    by_cases same : other = index
    · subst same
      rw [List.getElem?_set_self inside, unmoved]
      simp [eq_comm]
    · rw [List.getElem?_set_ne (Ne.symm same)]
      simp [same]

/-- An answer goes out to the client of a statement that has taken effect. -/
theorem Serialized.answer (serialized : Serialized P start clientele order ahead)
    (isServed : clientele.served[index]? = some served) {answer : Outcome ResponsePayload}
    (isAnswer : served.call.answer = some answer) :
    Serialized P start
      { clientele with history := clientele.history ++ [.returned index answer] } order ahead where
  linearizes := by
    have decided := Clientele.map_served
      (fun served => served.call.decided.map fun answer => (served.operation, answer)) isServed
    rw [Call.decided_of_answer isAnswer] at decided
    exact serialized.linearizes.answer_given (serialized.effects.mpr decided)
  effects := serialized.effects
  calls := by
    intro other operation
    rw [List.mem_append, List.mem_singleton]
    constructor
    · rintro (isCalled | isNew)
      · exact serialized.calls.mp isCalled
      · cases isNew
    · exact fun isCalled => Or.inl (serialized.calls.mpr isCalled)
  executes := serialized.executes
  describes := serialized.describes
  free := serialized.free

/-- Whatever the client is answered in a step, it is what was decided. -/
theorem Serialized.reply {before after : Call}
    (serialized : Serialized P start clientele order ahead)
    (isServed : clientele.served[index]? = some { served with call := after }) :
    Serialized P start
      { clientele with history := clientele.history ++ Served.reply index before after } order
      ahead := by
  unfold Served.reply
  cases before.answer with
  | some _ =>
      rw [List.append_nil]
      exact serialized
  | none =>
      cases isAnswer : after.answer with
      | none =>
          rw [List.append_nil]
          exact serialized
      | some answer => exact serialized.answer isServed isAnswer

/-- A step of a statement, before its client is answered. -/
theorem Serialized.advance (serialized : Serialized P start clientele order ahead)
    (isServed : clientele.served[index]? = some served) {moments : Nat -> Moment}
    (inTurn : clientele.InTurn P (.advance index moments)) :
    Exists fun longer => Exists fun next => Serialized P start
      ⟨(served.call.advance P moments served.ns clientele.engine).1,
        clientele.served.set index
          { served with call := (served.call.advance P moments served.ns clientele.engine).2 },
        clientele.history⟩ longer next := by
  rcases inTurn served isServed with ⟨unclaimed, plans⟩
  have executes := serialized.executes served (List.mem_of_getElem? isServed)
  have isClaim : clientele.claims[index]? = some served.call.claim :=
    Clientele.map_served _ isServed
  have isFree : forall place doc, served.call.claim = some (place, doc) ->
      contentsOf clientele.engine.collections place = none := by
    intro place doc claimed
    rw [claimed] at isClaim
    exact serialized.free place doc (serialized.describes.claimed isClaim)
  have turns := @Call.advance_turns P served.ns clientele.engine moments served.statement
    served.call executes isFree plans
  have after := @Call.advance_executes P moments _ _ served.call clientele.engine executes
  generalize served.call.advance P moments served.ns clientele.engine = result at turns after
  rcases result with ⟨engine, call⟩
  generalize isNext : contentsOf engine.collections = next at turns
  cases turns with
  | silent sameDecision sameClaim =>
      refine ⟨order, ahead, serialized.silent isServed after sameDecision isNext ?_ serialized.free⟩
      rw [sameClaim]
      exact serialized.describes.keep isClaim
  | checked undecided stillUndecided asked absent noClaim claims =>
      rename_i place doc
      rw [noClaim] at isClaim
      have notAhead : ahead place = none := by
        cases isAhead : ahead place with
        | none => rfl
        | some held =>
            rcases serialized.describes.only isAhead with ⟨other, isOther⟩
            rw [Clientele.claims, List.getElem?_map, Option.map_eq_some_iff] at isOther
            rcases isOther with ⟨holder, isHolder, claimed⟩
            exact absurd claimed (unclaimed place asked holder held (List.mem_of_getElem? isHolder))
      refine ⟨order, Function.update ahead place (some doc),
        serialized.silent isServed after (stillUndecided.trans undecided.symm) isNext ?_ ?_⟩
      · rw [claims]
        exact serialized.describes.take doc isClaim notAhead
      · intro other held isAhead
        by_cases same : other = place
        · rw [same]
          exact absent
        · rw [Function.update_of_ne same] at isAhead
          exact serialized.free other held isAhead
  | effect undecided decides meant released fills =>
      rename_i answer
      subst isNext
      have stillFree : forall place doc, ahead place = some doc ->
          (forall held, served.call.claim ≠ some (place, held)) ->
            contentsOf engine.collections place = none := by
        intro place doc isAhead notClaimed
        by_contra isSome
        rcases fills place (serialized.free place doc isAhead) isSome with ⟨held, claimed⟩
        exact notClaimed held claimed
      cases claimed : served.call.claim with
      | none =>
          rw [claimed] at isClaim
          refine ⟨_, ahead, serialized.effect isServed after undecided decides meant ?_ ?_⟩
          · rw [released]
            exact serialized.describes.keep isClaim
          · intro place doc isAhead
            refine stillFree place doc isAhead ?_
            rw [claimed]
            exact nofun
      | some held =>
          rcases held with ⟨place, doc⟩
          rw [claimed] at isClaim
          refine ⟨_, Function.update ahead place none,
            serialized.effect isServed after undecided decides meant ?_ ?_⟩
          · rw [released]
            exact serialized.describes.release isClaim
          · intro other held isAhead
            by_cases same : other = place
            · rw [same, Function.update_self] at isAhead
              cases isAhead
            · rw [Function.update_of_ne same] at isAhead
              refine stillFree other held isAhead ?_
              intro given isHeld
              rw [claimed] at isHeld
              injection isHeld with isPair
              injection isPair with isPlace _
              exact same isPlace.symm

theorem Serialized.perform (serialized : Serialized P start clientele order ahead)
    {action : ClientAction} (inTurn : clientele.InTurn P action) :
    Exists fun longer => Exists fun next =>
      Serialized P start (clientele.perform P action) longer next := by
  cases action with
  | call ns statement => exact ⟨order, ahead, serialized.call ns statement⟩
  | advance index moments =>
      rw [Clientele.perform]
      cases isServed : clientele.served[index]? with
      | none => exact ⟨order, ahead, serialized⟩
      | some served =>
          rcases serialized.advance isServed inTurn with ⟨longer, next, moved⟩
          rcases List.getElem?_eq_some_iff.mp isServed with ⟨inside, _⟩
          exact ⟨longer, next, moved.reply (List.getElem?_set_self inside)⟩

end Runs

/-- Every history of clients whose statements interleave in one engine is linearizable,
as long as no INSERT checks an id that another is about to store and no FIND loses
documents by its plan: the statements that have taken effect can be put in an order that
respects real time and in which, one after another, they have the answers given and lead
to the contents in memory.  -/
theorem clients_linearizable {P : Platform} {engine : DatabaseEngine} {clientele : Clientele}
    (run : Serves P (Clientele.InTurn P) ⟨engine, [], []⟩ clientele) :
    Exists fun order => Linearizes (Means P) (contentsOf engine.collections) clientele.history
      order (contentsOf clientele.engine.collections) := by
  have serialized : Exists fun order => Exists fun ahead =>
      Serialized P (contentsOf engine.collections) clientele order ahead := by
    induction run with
    | start => exact ⟨[], noContents, serialized_start P engine⟩
    | perform run permits ih =>
        rcases ih with ⟨order, ahead, serialized⟩
        exact serialized.perform permits
    | rearranged run same ih =>
        rcases ih with ⟨order, ahead, serialized⟩
        have sameContents := contentsOf_perm same.stores
        refine ⟨order, ahead, ?_, serialized.effects, serialized.calls, serialized.executes,
          serialized.describes, ?_⟩
        · rw [← sameContents]
          exact serialized.linearizes
        · rw [← sameContents]
          exact serialized.free
  rcases serialized with ⟨order, _, serialized⟩
  exact ⟨order, serialized.linearizes⟩

/-- Two clients: one inserts the sample document and has come this far, the other has
called a COUNT and is this far. -/
def twoClients (engine : DatabaseEngine) (progress : Progress)
    (counted : Option (Outcome ResponsePayload)) : Clientele where
  engine := engine
  served := [⟨"default", .insert "users" sampleDocument,
      .staged ⟨⟨.insert "default" "users" sampleDocument, progress⟩, []⟩⟩,
    ⟨"default", .count "users" none, .single (.count "users" none) counted⟩]
  history := [.called 0 ("default", .insert "users" sampleDocument),
      .called 1 ("default", .count "users" none)] ++
    counted.toList.map fun answer => .returned 1 answer

/-- The other client's COUNT neither checks an id nor is a FIND. -/
theorem twoClients_inTurn (P : Platform) (engine : DatabaseEngine) (progress : Progress)
    (index : Nat) (moments : Nat -> Moment) :
    (twoClients engine progress none).InTurn P (.advance index moments) := by
  intro served isServed
  have member := List.mem_of_getElem? isServed
  constructor
  · intro place asked other doc isOther claimed
    have isWaiting : progress = .waiting := by
      rcases List.mem_cons.mp member with rfl | member
      · cases progress <;> first | rfl | cases asked
      · cases List.mem_singleton.mp member
        cases asked
    subst isWaiting
    rcases List.mem_cons.mp isOther with rfl | isOther
    · cases claimed
    · cases List.mem_singleton.mp isOther
      cases claimed
  · intro coll filter sort limit offset isFind
    rcases List.mem_cons.mp member with rfl | member
    · cases isFind
    · cases List.mem_singleton.mp member
      cases isFind

/-- A COUNT that is called and answered between the store insert of an INSERT and the
answer to it. -/
theorem clients_linearizable_overlap :
    Exists fun clientele =>
      Serves samplePlatform (Clientele.InTurn samplePlatform) ⟨emptyEngine 4096, [], []⟩ clientele ∧
        clientele.history =
          [.called 0 ("default", .insert "users" sampleDocument),
            .called 1 ("default", .count "users" none), .returned 1 (.ok (.count 1))] ∧
        Exists fun order => Linearizes (Means samplePlatform)
          (contentsOf (emptyEngine 4096).collections) clientele.history order
          (contentsOf clientele.engine.collections) := by
  have acknowledged : (logInsert samplePlatform (quietMoments 0) "default" "users" sampleDocument
      (emptyEngine 4096).wal).2.isOk = true := by decide +kernel
  cases logs : logInsert samplePlatform (quietMoments 0) "default" "users" sampleDocument
      (emptyEngine 4096).wal with
  | mk wal outcome =>
      rw [logs] at acknowledged
      cases outcome with
      | error stop => cases acknowledged
      | ok sequence =>
          have onward : forall {engine next : DatabaseEngine} {progress after : Progress}
              {counted : Option (Outcome ResponsePayload)} (index : Nat),
              Serves samplePlatform (Clientele.InTurn samplePlatform) ⟨emptyEngine 4096, [], []⟩
                (twoClients engine progress none) ->
              (twoClients engine progress none).perform samplePlatform
                (.advance index quietMoments) = twoClients next after counted ->
              Serves samplePlatform (Clientele.InTurn samplePlatform) ⟨emptyEngine 4096, [], []⟩
                (twoClients next after counted) := by
            intro engine next progress after counted index run steps
            rw [← steps]
            exact .perform run (twoClients_inTurn _ _ _ _ _)
          have called : Serves samplePlatform (Clientele.InTurn samplePlatform)
              ⟨emptyEngine 4096, [], []⟩ (twoClients (emptyEngine 4096) .waiting none) := by
            have first := @Serves.perform samplePlatform (Clientele.InTurn samplePlatform) _ _
              (.call "default" (.insert "users" sampleDocument))
              (@Serves.start _ _ ⟨emptyEngine 4096, [], []⟩) trivial
            exact @Serves.perform _ _ _ _ (.call "default" (.count "users" none)) first trivial
          have checked := @onward _ (emptyEngine 4096) _ .checked none 0 called rfl
          have logged := @onward _ { emptyEngine 4096 with wal } _ (.logged sequence) none 0
            checked (by
              simp only [twoClients, Clientele.perform, List.getElem?_cons_zero, Call.advance,
                Publisher.advance, Request.advanceInsert, logs]
              rfl)
          have stored := @onward _
            (storeInsert ("default", "users") sampleDocument { emptyEngine 4096 with wal }) _
            (.stored sequence) none 0 logged rfl
          have counted := @onward _ _ _ (.stored sequence) (some (.ok (.count 1))) 1 stored rfl
          exact ⟨_, counted, rfl, clients_linearizable counted⟩

end Server
end NovaDb
