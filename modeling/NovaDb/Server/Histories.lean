import NovaDb.Server.StatementMeaning
import NovaDb.Server.OrderFree

namespace NovaDb
namespace Server

open Core Foundation Index Query Storage DatabaseEngine

/-!
# Answers are determined by the history

The engine keeps a log, builds indexes, restarts and iterates over hash maps.  None of
that is in the abstract database below: a partial map from places to documents, in
which each statement, at its time, has one answer and one effect.  The engine refines
it.  So two runs with one history of statements give the same answers and end with the
same documents, wherever they restarted, whatever they indexed, and whatever was
refused in between.
-/

/-- A statement, the namespace it is executed in, and the time. -/
structure Act where
  ns : String
  statement : Statement
  now : Int64

/-! ## The abstract database -/

/-- What an UPDATE at a time makes of a document. -/
def AssignedAt (P : Platform) (now : Int64) (assignments : List Assignment) (doc : Document)
    (after : Option Document) : Prop :=
  Exists fun revised => after = some revised ∧
    Evaluator.applyAssignments P now doc assignments = (revised, .ok ())

/-- The answer of a FIND does not show the order of the selected documents. -/
def PageFixed (P : Platform) (sort : Option SortClause) (limit offset : Option UInt64)
    (docs : List Document) : Prop :=
  (limit = none ∧ offset = none) ∨ PageSettled P sort limit offset docs

/-- The answer to an act and the contents behind it. -/
inductive Gives (P : Platform) (contents : Contents) :
    Act -> ResponsePayload -> Contents -> Prop where
  | inserted {ns coll : String} {doc : Document} {now : Int64}
      (absent : contents ((ns, coll), doc.id) = none) :
      Gives P contents ⟨ns, .insert coll doc, now⟩ (.records [doc] 1)
        (Function.update contents ((ns, coll), doc.id) (some doc))
  | updated {ns coll : String} {assignments : List Assignment} {filter : Option Expr}
      {now : Int64} {docs : List Document} {next : Contents}
      (selects : Selects P filter contents (ns, coll) docs)
      (rewrites : RewritesAll P filter (ns, coll) (AssignedAt P now assignments) contents next) :
      Gives P contents ⟨ns, .update coll assignments filter, now⟩
        (.success ("Updated " ++ toString docs.length ++ " document(s)") docs.length) next
  | removed {ns coll : String} {filter : Option Expr} {now : Int64} {docs : List Document}
      {next : Contents} (selects : Selects P filter contents (ns, coll) docs)
      (rewrites : RewritesAll P filter (ns, coll) Gone contents next) :
      Gives P contents ⟨ns, .remove coll filter, now⟩
        (.success ("Removed " ++ toString docs.length ++ " document(s)") docs.length) next
  | counted {ns coll : String} {filter : Option Expr} {now : Int64} {docs : List Document}
      (selects : Selects P filter contents (ns, coll) docs) :
      Gives P contents ⟨ns, .count coll filter, now⟩ (.count docs.length) contents
  | existing {ns coll : String} {filter : Option Expr} {now : Int64} {docs : List Document}
      (selects : Selects P filter contents (ns, coll) docs) :
      Gives P contents ⟨ns, .exists coll filter, now⟩ (.exists (decide (0 < docs.length)))
        contents
  | found {ns coll : String} {filter : Option Expr} {sort : Option SortClause}
      {limit offset : Option UInt64} {now : Int64} {docs paged : List Document}
      (selects : Selects P filter contents (ns, coll) docs)
      (fixed : PageFixed P sort limit offset docs)
      (isPage : page P limit offset (sortDocuments sort docs) = .ok paged) :
      Gives P contents ⟨ns, .find coll filter sort limit offset, now⟩
        (.records paged paged.length) contents

/-- The answers to a history of acts, and the contents behind the last. -/
inductive Recounts (P : Platform) (start : Contents) :
    List Act -> List ResponsePayload -> Contents -> Prop where
  | nothing : Recounts P start [] [] start
  | act {history : List Act} {answers : List ResponsePayload} {contents next : Contents}
      {act : Act} {payload : ResponsePayload} (earlier : Recounts P start history answers contents)
      (gives : Gives P contents act payload next) :
      Recounts P start (history ++ [act]) (answers ++ [payload]) next

/-- Answers of one length that agree, act by act: they are the same, or, for a FIND
without LIMIT and OFFSET, they list the same documents in another order. -/
def SameAnswers (history : List Act) (answers others : List ResponsePayload) : Prop :=
  answers.length = others.length ∧
    forall (turn : Nat) (act : Act) (payload other : ResponsePayload),
      history[turn]? = some act -> answers[turn]? = some payload -> others[turn]? = some other ->
        SamePayload act.statement payload other

/-! ## One answer and one effect -/

section Determined

variable {P : Platform} {filter : Option Expr} {contents : Contents} {key : CollectionKey}

/-- Two selections from one collection are the same documents. -/
theorem Selects.perm {docs others : List Document} (selects : Selects P filter contents key docs)
    (again : Selects P filter contents key others) : docs.Perm others := by
  rcases selects with ⟨ids, distinct, exactly, documents⟩
  rcases again with ⟨same, distinctToo, exactlyToo, documentsToo⟩
  have permuted : ids.Perm same :=
    (List.perm_ext_iff_of_nodup distinct distinctToo).mpr fun id =>
      (exactly id).trans (exactlyToo id).symm
  have found := (documents.trans (permuted.map _)).trans documentsToo.symm
  exact (List.map_perm_map_iff (Option.some_injective Document)).mp found

/-- A rewriting in which each document becomes one thing. -/
theorem RewritesAll.unique {becomes : Document -> Option Document -> Prop}
    (single : forall doc after other, becomes doc after -> becomes doc other -> after = other)
    {next other : Contents} (rewrites : RewritesAll P filter key becomes contents next)
    (again : RewritesAll P filter key becomes contents other) : next = other := by
  funext place
  by_cases isRewritten : place.1 = key ∧ Exists fun doc =>
      contents place = some doc ∧ accepts P filter doc = true
  · rcases place with ⟨_, id⟩
    rcases isRewritten with ⟨rfl, doc, stored, accepted⟩
    exact single doc _ _ (rewrites.2 id doc stored accepted) (again.2 id doc stored accepted)
  · have kept : forall {result : Contents},
        RewritesAll P filter key becomes contents result -> result place = contents place := by
      intro result rewrites
      rcases rewrites.1 place with same | ⟨inCollection, doc, stored, accepted, _⟩
      · exact same
      · exact absurd ⟨inCollection, doc, stored, accepted⟩ isRewritten
    rw [kept rewrites, kept again]

theorem AssignedAt.unique {now : Int64} {assignments : List Assignment} {doc : Document}
    {after other : Option Document} (assigned : AssignedAt P now assignments doc after)
    (again : AssignedAt P now assignments doc other) : after = other := by
  rcases assigned with ⟨revised, rfl, assigns⟩
  rcases again with ⟨revisedToo, rfl, assignsToo⟩
  rw [assigns] at assignsToo
  cases assignsToo
  rfl

theorem samePayload_of_page {coll : String} {sort : Option SortClause}
    {limit offset : Option UInt64} {docs others paged pagedToo : List Document}
    (permuted : others.Perm docs) (fixed : PageFixed P sort limit offset docs)
    (isPage : page P limit offset (sortDocuments sort docs) = .ok paged)
    (isPageToo : page P limit offset (sortDocuments sort others) = .ok pagedToo) :
    SamePayload (.find coll filter sort limit offset) (.records paged paged.length)
      (.records pagedToo pagedToo.length) := by
  have same : SameOutcome (.find coll filter sort limit offset)
      (pageAnswer P sort limit offset docs) (pageAnswer P sort limit offset others) := by
    rcases fixed with ⟨rfl, rfl⟩ | settled
    · exact pageAnswer_unpaged (List.Perm.refl docs) permuted
    · exact settled.same (List.Perm.refl docs) permuted
  rw [pageAnswer, pageAnswer, isPage, isPageToo] at same
  cases same with
  | returned same => exact same

theorem Gives.unique {act : Act} {payload other : ResponsePayload} {next final : Contents}
    (gives : Gives P contents act payload next) (again : Gives P contents act other final) :
    SamePayload act.statement payload other ∧ next = final := by
  cases gives with
  | inserted =>
      cases again
      exact ⟨.equal _, rfl⟩
  | updated selects rewrites =>
      cases again with
      | updated selectsToo rewritesToo =>
          rw [(selects.perm selectsToo).length_eq]
          refine ⟨.equal _, rewrites.unique ?_ rewritesToo⟩
          intro doc after other isAfter isOther
          exact isAfter.unique isOther
  | removed selects rewrites =>
      cases again with
      | removed selectsToo rewritesToo =>
          rw [(selects.perm selectsToo).length_eq]
          refine ⟨.equal _, rewrites.unique ?_ rewritesToo⟩
          intro doc after other isAfter isOther
          exact isAfter.trans isOther.symm
  | counted selects =>
      cases again with
      | counted selectsToo =>
          rw [(selects.perm selectsToo).length_eq]
          exact ⟨.equal _, rfl⟩
  | existing selects =>
      cases again with
      | existing selectsToo =>
          rw [(selects.perm selectsToo).length_eq]
          exact ⟨.equal _, rfl⟩
  | found selects fixed isPage =>
      cases again with
      | found selectsToo fixedToo isPageToo =>
          exact ⟨samePayload_of_page (selectsToo.perm selects) fixed isPage isPageToo, rfl⟩

end Determined

theorem Recounts.length_eq {P : Platform} {start contents : Contents} {history : List Act}
    {answers : List ResponsePayload} (recounts : Recounts P start history answers contents) :
    answers.length = history.length := by
  induction recounts with
  | nothing => rfl
  | act earlier gives hypothesis =>
      rw [List.length_append, List.length_append, hypothesis]
      rfl

theorem SameAnswers.snoc {history : List Act} {answers others : List ResponsePayload} {act : Act}
    {payload other : ResponsePayload} (same : SameAnswers history answers others)
    (answered : answers.length = history.length) (last : SamePayload act.statement payload other) :
    SameAnswers (history ++ [act]) (answers ++ [payload]) (others ++ [other]) := by
  refine ⟨by rw [List.length_append, List.length_append, same.1, List.length_singleton,
    List.length_singleton], ?_⟩
  intro turn at_ found foundToo isAct isAnswer isOther
  by_cases earlier : turn < history.length
  · rw [List.getElem?_append_left earlier] at isAct
    rw [List.getElem?_append_left (answered ▸ earlier)] at isAnswer
    rw [List.getElem?_append_left (same.1 ▸ answered ▸ earlier)] at isOther
    exact same.2 turn at_ found foundToo isAct isAnswer isOther
  · have reached := (List.getElem?_eq_some_iff.mp isAct).1
    rw [List.length_append, List.length_singleton] at reached
    have isLast : turn = history.length := by omega
    subst isLast
    rw [List.getElem?_concat_length] at isAct
    rw [← answered, List.getElem?_concat_length] at isAnswer
    rw [← answered, same.1, List.getElem?_concat_length] at isOther
    cases isAct
    cases isAnswer
    cases isOther
    exact last

/-- A history has one list of answers and one effect. -/
theorem Recounts.unique {P : Platform} {start contents final : Contents} {history : List Act}
    {answers others : List ResponsePayload} (recounts : Recounts P start history answers contents)
    (again : Recounts P start history others final) :
    SameAnswers history answers others ∧ contents = final := by
  induction recounts generalizing others final with
  | nothing =>
      generalize isHistory : ([] : List Act) = history at again
      cases again with
      | nothing => exact ⟨⟨rfl, fun _ _ _ _ impossible => by cases impossible⟩, rfl⟩
      | act earlier gives => exact absurd isHistory (by simp)
  | @act history answers contents next act payload earlier gives hypothesis =>
      generalize isHistory : history ++ [act] = longer at again
      cases again with
      | nothing => exact absurd isHistory (by simp)
      | act earlierToo givesToo =>
          rcases List.append_inj' isHistory rfl with ⟨rfl, isAct⟩
          cases isAct
          rcases hypothesis earlierToo with ⟨same, rfl⟩
          rcases gives.unique givesToo with ⟨last, rfl⟩
          exact ⟨same.snoc earlier.length_eq last, rfl⟩

/-! ## One statement of the engine -/

section Statements

variable {P : Platform} {ns coll : String} {engine next : DatabaseEngine}
  {moments : Nat -> Moment} {now : Int64}

/-- An UPDATE that returns has applied its assignments, at the time of the statement. -/
theorem updateSection_rewritesAt {assignments : List Assignment} {filter : Option Expr}
    {changes : List Change} (clock : forall turn, (moments turn).clock = now)
    (ran : updateSection P moments ns coll assignments filter engine = (next, .ok changes)) :
    RewritesAll P filter (ns, coll) (AssignedAt P now assignments)
      (contentsOf engine.collections) (contentsOf next.collections) := by
  have some := updateSection_rewrites ran
  rcases updateSection_loop ran with ⟨final, loop, rfl⟩
  have updated := updateOnes_updated (storeOf engine.collections (ns, coll)).nodupKeys
    (fun entry member => AList.mem_lookup_iff.mpr member) loop
  have assigned : forall id doc, contentsOf engine.collections ((ns, coll), id) = Option.some doc ->
      accepts P filter doc = true -> AssignedAt P now assignments doc
        (contentsOf (engine.leave (ns, coll) final).collections ((ns, coll), id)) := by
    intro id doc stored accepted
    rcases updated.replaced ⟨id, doc⟩ (AList.mem_lookup_iff.mp stored) accepted with
      ⟨turn, after, assigns, isFinal⟩
    rw [clock turn] at assigns
    rw [leave_contents, if_pos rfl]
    exact ⟨after, isFinal, assigns⟩
  refine ⟨?_, assigned⟩
  intro place
  rcases some place with kept | ⟨inCollection, doc, stored, accepted, _⟩
  · exact Or.inl kept
  · refine Or.inr ⟨inCollection, doc, stored, accepted, ?_⟩
    rcases place with ⟨_, id⟩
    cases inCollection
    exact assigned id doc stored accepted

/-- A FIND whose answer shows no order and whose plan loses no document. -/
def Answerable (P : Platform) (ns : String) (statement : Statement) (engine : DatabaseEngine) :
    Prop :=
  match statement with
  | .find coll filter sort limit offset =>
      PlansFaithfully P ns coll filter engine ∧
        forall docs, Selects P filter (contentsOf engine.collections) (ns, coll) docs ->
          PageFixed P sort limit offset docs
  | _ => True

theorem executeInsert_gives {moment : Moment} {doc : Document} {payload : ResponsePayload}
    (returns : (executeInsert P moment ns coll doc engine).2 = .ok payload) :
    Gives P (contentsOf engine.collections) ⟨ns, .insert coll doc, now⟩ payload
      (contentsOf (executeInsert P moment ns coll doc engine).1.collections) := by
  unfold executeInsert at returns ⊢
  split at returns
  · cases returns
  · rename_i absent
    rw [if_neg absent]
    cases logs : logInsert P moment ns coll doc engine.wal with
    | mk wal outcome =>
        rw [logs] at returns
        cases outcome with
        | error stop => cases returns
        | ok sequence =>
            cases returns
            change Gives P _ _ _
              (contentsOf (storeInsert (ns, coll) doc { engine with wal }).collections)
            rw [storeInsert_contents]
            exact .inserted (none_of_hasDocument (Bool.eq_false_of_not_eq_true absent))

/-- A statement that is answered gives what it gives in the abstract database. -/
theorem execute_gives {statement : Statement} {payload : ResponsePayload}
    (clock : forall turn, (moments turn).clock = now) (requested : ¬ Auxiliary statement)
    (answerable : Answerable P ns statement engine)
    (returns : (execute P moments statement ns engine).2 = .ok payload) :
    Gives P (contentsOf engine.collections) ⟨ns, statement, now⟩ payload
      (contentsOf (execute P moments statement ns engine).1.collections) := by
  cases statement with
  | insert coll doc =>
      apply executeInsert_gives
      change (executeInsert P (moments 0) ns coll doc engine).2.mapError Stop.fault = .ok payload
        at returns
      cases ran : (executeInsert P (moments 0) ns coll doc engine).2 with
      | error stop =>
          rw [ran] at returns
          cases returns
      | ok answer =>
          rw [ran] at returns
          cases returns
          rfl
  | update coll assignments filter =>
      simp only [DatabaseEngine.execute, outcomeOf, executeUpdate] at returns ⊢
      cases ran : updateSection P moments ns coll assignments filter engine with
      | mk entered outcome =>
          rw [ran] at returns
          cases outcome with
          | error stop => cases returns
          | ok changes =>
              rcases (updateSection_rewritesAll ran).2.1 with ⟨docs, selects, number⟩
              rcases @emitChanges_state ns coll .update moments 0 changes entered with
                ⟨events, same⟩
              cases returns
              simp only [same]
              rw [← number]
              exact .updated selects (updateSection_rewritesAt clock ran)
  | remove coll filter =>
      simp only [DatabaseEngine.execute, outcomeOf, executeRemove] at returns ⊢
      cases ran : removeSection P moments ns coll filter engine with
      | mk entered outcome =>
          rw [ran] at returns
          cases outcome with
          | error stop => cases returns
          | ok changes =>
              rcases removeSection_rewritesAll ran with ⟨⟨docs, selects, number⟩, rewrites⟩
              rcases @emitChanges_state ns coll .delete moments 0 changes entered with
                ⟨events, same⟩
              cases returns
              simp only [same]
              rw [← number]
              exact .removed selects rewrites
  | count coll filter =>
      have means := @count_means P ns coll filter engine
      change executeCount P ns coll filter engine = .ok payload at returns
      rw [returns] at means
      cases means with
      | counted total selects => exact .counted selects
      | auxiliary isAuxiliary => exact isAuxiliary.elim
  | «exists» coll filter =>
      have means := @exists_means P ns coll filter engine
      change executeExists P ns coll filter engine = .ok payload at returns
      rw [returns] at means
      cases means with
      | existing stored accepted =>
          have member := List.mem_filter.mpr ⟨stored_document stored, accepted⟩
          have answered := @Gives.existing P (contentsOf engine.collections) ns coll filter now _
            selects_store
          rw [decide_eq_true (List.length_pos_of_mem member)] at answered
          exact answered
      | missing total selects => exact .existing selects
      | auxiliary isAuxiliary => exact isAuxiliary.elim
  | find coll filter sort limit offset =>
      have means := @find_means P filter ns coll engine sort limit offset answerable.1
      change executeFind P ns coll filter sort limit offset engine = .ok payload at returns
      rw [returns] at means
      cases means with
      | found total selects isPage =>
          exact .found selects (answerable.2 _ selects) isPage
      | auxiliary isAuxiliary => exact isAuxiliary.elim
  | createIndex | dropIndex | watch | begin | commit | rollback => exact absurd trivial requested

/-- A statement that writes no document, or an INSERT that is refused, leaves no trace. -/
def Traceless (P : Platform) (moments : Nat -> Moment) (ns : String) (statement : Statement)
    (engine : DatabaseEngine) : Prop :=
  requestOf ns statement = none ∨ Exists fun coll => Exists fun doc => Exists fun stop =>
    statement = .insert coll doc ∧
      (executeInsert P (moments 0) ns coll doc engine).2 = .error stop

theorem Traceless.keeps {statement : Statement} (inStep : InStep P engine)
    (quiet : forall turn, (moments turn).append.Quiet)
    (traceless : Traceless P moments ns statement engine) :
    InStep P (execute P moments statement ns engine).1 ∧
      contentsOf (execute P moments statement ns engine).1.collections =
        contentsOf engine.collections := by
  rcases traceless with single | ⟨coll, doc, stop, rfl, fails⟩
  · rcases @single_state P ns engine moments statement single with ⟨collections, _, wal⟩
    refine ⟨?_, congrArg contentsOf collections⟩
    unfold InStep
    rw [collections, wal]
    exact inStep
  · change InStep P (executeInsert P (moments 0) ns coll doc engine).1 ∧
      contentsOf (executeInsert P (moments 0) ns coll doc engine).1.collections = _
    unfold executeInsert at fails ⊢
    split
    · exact ⟨inStep, rfl⟩
    · rename_i absent
      rw [if_neg absent] at fails
      cases logs : logInsert P (moments 0) ns coll doc engine.wal with
      | mk wal outcome =>
          rw [logs] at fails
          cases outcome with
          | ok sequence => cases fails
          | error stop =>
              refine ⟨?_, rfl⟩
              cases logInsert_exit logs with
              | unserialized => exact inStep
              | unlogged encoded refused => exact Mirrors.refused inStep (quiet 0) refused

end Statements

/-! ## Runs -/

/-- The runs of the engine that answer a history, from given contents: statements that
are answered, restarts, other orders of iteration, and statements that leave no trace
in the history.  Nothing fails outside the program. -/
inductive Plays (P : Platform) (start : Contents) :
    List Act -> List ResponsePayload -> DatabaseEngine -> Prop where
  | opened {dir : WalDir} {layout : Layout} (intact : Intact P dir.files layout) {limit : Nat}
      {engine : DatabaseEngine} (opens : (openEngine P dir .always limit).2 = .ok engine)
      (same : contentsOf engine.collections = start) : Plays P start [] [] engine
  | answered {history : List Act} {answers : List ResponsePayload} {engine : DatabaseEngine}
      (earlier : Plays P start history answers engine) {moments : Nat -> Moment} {act : Act}
      {payload : ResponsePayload} (calm : CalmAt act.now moments)
      (requested : ¬ Auxiliary act.statement)
      (built : forall coll doc, act.statement = .insert coll doc -> doc.id.Built)
      (answerable : Answerable P act.ns act.statement engine)
      (returns : (execute P moments act.statement act.ns engine).2 = .ok payload)
      (roundTrips : AllRoundTrip P (execute P moments act.statement act.ns engine).1) :
      Plays P start (history ++ [act]) (answers ++ [payload])
        (execute P moments act.statement act.ns engine).1
  | discarded {history : List Act} {answers : List ResponsePayload} {engine : DatabaseEngine}
      (earlier : Plays P start history answers engine) {moments : Nat -> Moment}
      (quiet : forall turn, (moments turn).append.Quiet) {statement : Statement} {ns : String}
      (traceless : Traceless P moments ns statement engine) :
      Plays P start history answers (execute P moments statement ns engine).1
  | restart {history : List Act} {answers : List ResponsePayload} {engine next : DatabaseEngine}
      (earlier : Plays P start history answers engine) {limit : Nat}
      (opens : (openEngine P engine.wal.dir .always limit).2 = .ok next) :
      Plays P start history answers next
  | rearranged {history : List Act} {answers : List ResponsePayload}
      {engine next : DatabaseEngine} (earlier : Plays P start history answers engine)
      (same : Rearranged engine next) : Plays P start history answers next

/-- A restart brings back the documents. -/
theorem restart_contents {P : Platform} {engine next : DatabaseEngine}
    (inStep : InStep P engine) {limit : Nat}
    (opens : (openEngine P engine.wal.dir .always limit).2 = .ok next) :
    contentsOf next.collections = contentsOf engine.collections := by
  rcases inStep.reopen with ⟨files, state, recovers, same, _⟩
  rw [openEngine, recovers] at opens
  cases opens
  exact same

/-- The engine refines the abstract database. -/
theorem Plays.recounts {P : Platform} {start : Contents} {history : List Act}
    {answers : List ResponsePayload} {engine : DatabaseEngine}
    (plays : Plays P start history answers engine) :
    InStep P engine ∧ Recounts P start history answers (contentsOf engine.collections) := by
  induction plays with
  | opened intact opens same =>
      refine ⟨openEngine_intact intact opens, ?_⟩
      rw [same]
      exact .nothing
  | @answered history answers engine earlier moments act payload calm requested built answerable
      returns roundTrips hypothesis =>
      refine ⟨hypothesis.1.execute calm.quiet built ?_ roundTrips,
        hypothesis.2.act (execute_gives calm.clock requested answerable returns)⟩
      unfold ReturnsChanges
      split
      · exact ⟨payload, returns⟩
      · exact ⟨payload, returns⟩
      · trivial
  | discarded earlier quiet traceless hypothesis =>
      rcases traceless.keeps hypothesis.1 quiet with ⟨inStep, same⟩
      rw [same]
      exact ⟨inStep, hypothesis.2⟩
  | restart earlier opens hypothesis =>
      rw [restart_contents hypothesis.1 opens]
      exact ⟨hypothesis.1.restart opens, hypothesis.2⟩
  | rearranged earlier same hypothesis =>
      rw [← contentsOf_perm same.stores]
      exact ⟨hypothesis.1.rearranged same, hypothesis.2⟩

/-- Two runs that answer one history from the same documents give the same answers and
end with the same documents.  Both may restart and iterate in any order in between; the
statements are answerable, the documents survive the log, and nothing fails outside the
program.  -/
theorem history_determines {P : Platform} {start : Contents} {history : List Act}
    {answers others : List ResponsePayload} {engine other : DatabaseEngine}
    (plays : Plays P start history answers engine)
    (again : Plays P start history others other) :
    SameAnswers history answers others ∧
      contentsOf engine.collections = contentsOf other.collections :=
  plays.recounts.2.unique again.recounts.2

/-! ## A sample history -/

theorem calm_quietMoments : CalmAt 0 quietMoments :=
  ⟨fun _ => rfl, fun _ => quiet_quietEnvironment⟩

/-- The insert of the sample document. -/
def sampleAct : Act := ⟨"default", .insert "users" sampleDocument, 0⟩

theorem plays_sampleAct {history : List Act} {answers : List ResponsePayload}
    {engine : DatabaseEngine} (plays : Plays samplePlatform noContents history answers engine)
    (answered : (execute samplePlatform quietMoments sampleAct.statement "default"
      engine).2.toOption.isSome = true)
    (empty : contentsOf engine.collections = noContents) : Exists fun payload =>
      Plays samplePlatform noContents (history ++ [sampleAct]) (answers ++ [payload])
        (execute samplePlatform quietMoments sampleAct.statement "default" engine).1 := by
  cases returns : (execute samplePlatform quietMoments sampleAct.statement "default" engine).2 with
  | error fault =>
      rw [returns] at answered
      cases answered
  | ok payload =>
      refine ⟨payload, @Plays.answered samplePlatform noContents history answers engine plays
        quietMoments sampleAct payload calm_quietMoments id ?_ trivial returns ?_⟩
      · rintro coll doc same
        cases same
        exact built_sample
      · apply allRoundTrip_insert
        · intro place doc stored
          rw [empty] at stored
          cases stored
        · exact roundTrips_sample

/-- One run creates an index before the insert and restarts behind it, the other does
neither. -/
theorem history_determines_restarted :
    Exists fun answers => Exists fun others => Exists fun restarted =>
      Plays samplePlatform noContents [sampleAct] answers sampleEngine ∧
        Plays samplePlatform noContents [sampleAct] others restarted ∧
        SameAnswers [sampleAct] answers others ∧
        contentsOf sampleEngine.collections = contentsOf restarted.collections := by
  have opened : Plays samplePlatform noContents [] [] (emptyEngine 100) :=
    .opened (intact_empty samplePlatform) (openEngine_empty _ 100) rfl
  have indexed := @Plays.discarded samplePlatform noContents [] [] _ opened quietMoments
    (fun _ => quiet_quietEnvironment) (.createIndex "users" "age" .hash) "default" (Or.inl rfl)
  rcases plays_sampleAct opened (by decide +kernel) rfl with ⟨answer, plain⟩
  rcases plays_sampleAct indexed (by decide +kernel) rfl with ⟨other, written⟩
  rcases written.recounts.1.reopen with ⟨files, state, recovers, _⟩
  have reopens : Exists fun next => (openEngine samplePlatform (execute samplePlatform quietMoments
      sampleAct.statement "default" (execute samplePlatform quietMoments
        (.createIndex "users" "age" .hash) "default" (emptyEngine 100)).1).1.wal.dir .always
      100).2 = .ok next := by
    rw [openEngine, recovers]
    exact ⟨_, rfl⟩
  rcases reopens with ⟨next, opens⟩
  have restarted := written.restart opens
  have unindexed : Plays samplePlatform noContents [sampleAct] [answer] sampleEngine := plain
  rcases history_determines unindexed restarted with ⟨same, equal⟩
  exact ⟨_, _, _, unindexed, restarted, same, equal⟩

end Server
end NovaDb
