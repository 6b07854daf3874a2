import NovaDb.Foundation.Traces
import NovaDb.Server.UntimedHistories

namespace NovaDb
namespace Server

open Core Foundation Index Query Storage DatabaseEngine

/-!
# Independent statements

Some statements may be executed in either order: those on different collections, reads,
INSERTs of different ids, an INSERT and a statement whose filter does not accept the
document, statements whose filters accept no common document, an UPDATE and a COUNT
whose filter does not read what is assigned, and UPDATEs that see nothing of each
other.  Runs of the engine whose histories differ by the order of such neighbours end
with the same documents, up to their times, and give each statement the same answer.
-/

/-! ## Statements place by place -/

def collectionOf : Statement -> String
  | .find coll _ _ _ _ | .insert coll _ | .update coll _ _ | .remove coll _ | .watch coll _
  | .count coll _ | .exists coll _ | .createIndex coll _ _ | .dropIndex coll _ => coll
  | .begin | .commit | .rollback => ""

def filterOf : Statement -> Option Expr
  | .find _ filter _ _ _ | .update _ _ filter | .remove _ filter | .watch _ filter
  | .count _ filter | .exists _ filter => filter
  | _ => none

def assignmentsOf : Statement -> List Assignment
  | .update _ assignments _ => assignments
  | _ => []

def Act.key (act : Act) : CollectionKey :=
  (act.ns, collectionOf act.statement)

/-- Statements about the documents that a filter accepts. -/
def Asks : Statement -> Prop
  | .insert _ _ => False
  | _ => True

/-- Statements that write no document. -/
def Reads : Statement -> Prop
  | .find _ _ _ _ _ | .count _ _ | .exists _ _ => True
  | _ => False

/-- Statements whose answer shows how many documents are accepted, but none of them. -/
def Numbers : Statement -> Prop
  | .count _ _ | .exists _ _ => True
  | _ => False

def Removes : Statement -> Prop
  | .remove _ _ => True
  | _ => False

/-- What a statement makes of a document that its filter accepts. -/
def Becomes (P : Platform) (act : Act) (doc : Document) (after : Option Document) : Prop :=
  match act.statement with
  | .update _ assignments _ => AssignedAt P act.now assignments doc after
  | .remove _ _ => Gone doc after
  | _ => after = some doc

/-- What is stored at the place is none of what the act is about. -/
def Spared (P : Platform) (act : Act) (place : Place) (stored : Option Document) : Prop :=
  match act.statement with
  | .insert coll doc => place ≠ ((act.ns, coll), doc.id)
  | statement => place.1 = act.key -> forall doc, stored = some doc ->
      accepts P (filterOf statement) doc = false

/-- What an act makes of what is stored at a place. -/
inductive MakesAt (P : Platform) (act : Act) (place : Place) :
    Option Document -> Option Document -> Prop where
  | inserted {coll : String} {doc : Document} (inserts : act.statement = .insert coll doc)
      (isPlace : place = ((act.ns, coll), doc.id)) : MakesAt P act place none (some doc)
  | picked {doc : Document} {after : Option Document} (asks : Asks act.statement)
      (inCollection : place.1 = act.key)
      (accepted : accepts P (filterOf act.statement) doc = true)
      (becomes : Becomes P act doc after) : MakesAt P act place (some doc) after
  | spared {stored : Option Document} (isSpared : Spared P act place stored) :
      MakesAt P act place stored stored

/-- The answer of an act, by the documents that its filter accepts. -/
def AnswersWith (P : Platform) (statement : Statement) (docs : List Document)
    (payload : ResponsePayload) : Prop :=
  match statement with
  | .update _ _ _ =>
      payload = .success ("Updated " ++ toString docs.length ++ " document(s)") docs.length
  | .remove _ _ =>
      payload = .success ("Removed " ++ toString docs.length ++ " document(s)") docs.length
  | .count _ _ => payload = .count docs.length
  | .exists _ _ => payload = .exists (decide (0 < docs.length))
  | .find _ _ sort limit offset => PageFixed P sort limit offset docs ∧ Exists fun paged =>
      page P limit offset (sortDocuments sort docs) = .ok paged ∧
        payload = .records paged paged.length
  | _ => False

/-- The answer of an act to given contents. -/
def Answers (P : Platform) (act : Act) (contents : Contents) (payload : ResponsePayload) : Prop :=
  match act.statement with
  | .insert _ doc => payload = .records [doc] 1
  | statement => Exists fun docs => Selects P (filterOf statement) contents act.key docs ∧
      AnswersWith P statement docs payload

section Places

variable {P : Platform} {act : Act} {contents next : Contents} {payload : ResponsePayload}

theorem spared_iff (asks : Asks act.statement) {place : Place} {stored : Option Document} :
    Spared P act place stored <-> (place.1 = act.key -> forall doc, stored = some doc ->
      accepts P (filterOf act.statement) doc = false) := by
  unfold Spared
  split
  · rename_i inserts
    rw [inserts] at asks
    exact asks.elim
  · exact Iff.rfl

/-- An act picks what is stored at a place, or spares it. -/
theorem picks_or_spares (asks : Asks act.statement) (place : Place) (stored : Option Document) :
    (place.1 = act.key ∧ Exists fun doc =>
      stored = some doc ∧ accepts P (filterOf act.statement) doc = true) ∨
    Spared P act place stored := by
  by_cases isPicked : place.1 = act.key ∧ Exists fun doc =>
      stored = some doc ∧ accepts P (filterOf act.statement) doc = true
  · exact Or.inl isPicked
  · refine Or.inr ((spared_iff asks).mpr ?_)
    intro inCollection doc isStored
    exact Bool.eq_false_of_not_eq_true fun accepted =>
      isPicked ⟨inCollection, doc, isStored, accepted⟩

theorem rewritesAll_iff {becomes : Document -> Option Document -> Prop} (asks : Asks act.statement)
    (same : forall doc after, Becomes P act doc after <-> becomes doc after) :
    RewritesAll P (filterOf act.statement) act.key becomes contents next <->
      Everywhere (MakesAt P act) contents next := by
  constructor
  · intro rewrites place
    rcases picks_or_spares asks place (contents place) with
      ⟨inCollection, doc, stored, accepted⟩ | isSpared
    · have becomesAfter := rewrites.2 place.2 doc (inCollection ▸ stored) accepted
      rw [← inCollection] at becomesAfter
      rw [stored]
      exact .picked asks inCollection accepted ((same doc _).mpr becomesAfter)
    · rcases rewrites.1 place with kept | ⟨inCollection, doc, stored, accepted, _⟩
      · rw [kept]
        exact .spared isSpared
      · rw [(spared_iff asks).mp isSpared inCollection doc stored] at accepted
        cases accepted
  · intro makes
    constructor
    · intro place
      have made := makes place
      generalize isBefore : contents place = before at made
      generalize next place = after at made
      cases made with
      | inserted inserts _ =>
          rw [inserts] at asks
          exact asks.elim
      | picked _ inCollection accepted becomesAfter =>
          exact Or.inr ⟨inCollection, _, rfl, accepted, (same _ _).mp becomesAfter⟩
      | spared _ => exact Or.inl rfl
    · intro id doc stored accepted
      have made := makes (act.key, id)
      rw [stored] at made
      generalize next (act.key, id) = after at made ⊢
      cases made with
      | picked _ _ _ becomesAfter => exact (same _ _).mp becomesAfter
      | spared isSpared =>
          rw [(spared_iff asks).mp isSpared rfl doc rfl] at accepted
          cases accepted

theorem makesAt_insert_iff {ns coll : String} {doc : Document} {now : Int64} {place : Place}
    {before after : Option Document} :
    MakesAt P ⟨ns, .insert coll doc, now⟩ place before after <->
      (place = ((ns, coll), doc.id) ∧ before = none ∧ after = some doc) ∨
        (place ≠ ((ns, coll), doc.id) ∧ after = before) := by
  constructor
  · intro made
    cases made with
    | inserted inserts isPlace =>
        cases inserts
        exact Or.inl ⟨isPlace, rfl, rfl⟩
    | picked asks _ _ _ => exact asks.elim
    | spared isSpared => exact Or.inr ⟨isSpared, rfl⟩
  · rintro (⟨isPlace, rfl, rfl⟩ | ⟨elsewhere, rfl⟩)
    · exact .inserted rfl isPlace
    · exact .spared elsewhere

theorem everywhere_insert_iff {ns coll : String} {doc : Document} {now : Int64} :
    Everywhere (MakesAt P ⟨ns, .insert coll doc, now⟩) contents next <->
      contents ((ns, coll), doc.id) = none ∧
        next = Function.update contents ((ns, coll), doc.id) (some doc) := by
  constructor
  · intro makes
    rcases makesAt_insert_iff.mp (makes ((ns, coll), doc.id)) with
      ⟨_, absent, present⟩ | ⟨elsewhere, _⟩
    · refine ⟨absent, ?_⟩
      funext place
      rcases makesAt_insert_iff.mp (makes place) with ⟨rfl, _, isNext⟩ | ⟨elsewhere, kept⟩
      · rw [Function.update_self, isNext]
      · rw [Function.update_of_ne elsewhere, kept]
    · exact absurd rfl elsewhere
  · rintro ⟨absent, rfl⟩ place
    by_cases isPlace : place = ((ns, coll), doc.id)
    · subst isPlace
      rw [Function.update_self, absent]
      exact .inserted rfl rfl
    · rw [Function.update_of_ne isPlace]
      exact .spared isPlace

/-- Reads leave everything. -/
theorem makesAt_reads_iff (reads : Reads act.statement) {place : Place}
    {before after : Option Document} : MakesAt P act place before after <-> after = before := by
  have keeps : forall doc stored, Becomes P act doc stored <-> stored = some doc := by
    intro doc stored
    unfold Becomes
    split
    · rename_i isUpdate
      rw [isUpdate] at reads
      exact reads.elim
    · rename_i isRemove
      rw [isRemove] at reads
      exact reads.elim
    · exact Iff.rfl
  have asks : Asks act.statement := by
    unfold Asks
    split
    · rename_i inserts
      rw [inserts] at reads
      exact reads.elim
    · trivial
  constructor
  · intro made
    cases made with
    | inserted inserts _ =>
        rw [inserts] at reads
        exact reads.elim
    | picked _ _ _ becomes => exact (keeps _ _).mp becomes
    | spared _ => rfl
  · rintro rfl
    rcases picks_or_spares asks place after with ⟨inCollection, doc, rfl, accepted⟩ | isSpared
    · exact .picked asks inCollection accepted ((keeps doc _).mpr rfl)
    · exact .spared isSpared

theorem everywhere_reads_iff (reads : Reads act.statement) :
    Everywhere (MakesAt P act) contents next <-> next = contents :=
  ⟨fun makes => funext fun place => (makesAt_reads_iff reads).mp (makes place),
    fun same place => (makesAt_reads_iff reads).mpr (congrFun same place)⟩

/-- What a statement gives, place by place. -/
theorem gives_iff : Gives P contents act payload next <->
    Everywhere (MakesAt P act) contents next ∧ Answers P act contents payload := by
  constructor
  · intro gives
    cases gives with
    | inserted absent => exact ⟨everywhere_insert_iff.mpr ⟨absent, rfl⟩, rfl⟩
    | @updated ns coll assignments filter now docs _ selects rewrites =>
        exact ⟨(@rewritesAll_iff P ⟨ns, .update coll assignments filter, now⟩ contents next _
          trivial fun _ _ => Iff.rfl).mp rewrites, docs, selects, rfl⟩
    | @removed ns coll filter now docs _ selects rewrites =>
        exact ⟨(@rewritesAll_iff P ⟨ns, .remove coll filter, now⟩ contents next _ trivial
          fun _ _ => Iff.rfl).mp rewrites, docs, selects, rfl⟩
    | @counted ns coll filter now docs selects =>
        exact ⟨(@everywhere_reads_iff P ⟨ns, .count coll filter, now⟩ contents contents
          trivial).mpr rfl, docs, selects, rfl⟩
    | @existing ns coll filter now docs selects =>
        exact ⟨(@everywhere_reads_iff P ⟨ns, .exists coll filter, now⟩ contents contents
          trivial).mpr rfl, docs, selects, rfl⟩
    | @found ns coll filter sort limit offset now docs paged selects fixed isPage =>
        exact ⟨(@everywhere_reads_iff P ⟨ns, .find coll filter sort limit offset, now⟩ contents
          contents trivial).mpr rfl, docs, selects, fixed, paged, isPage, rfl⟩
  · rintro ⟨makes, answers⟩
    rcases act with ⟨ns, statement, now⟩
    cases statement with
    | insert coll doc =>
        rcases everywhere_insert_iff.mp makes with ⟨absent, rfl⟩
        cases answers
        exact .inserted absent
    | update coll assignments filter =>
        rcases answers with ⟨docs, selects, rfl⟩
        exact .updated selects ((@rewritesAll_iff P ⟨ns, .update coll assignments filter, now⟩
          contents next _ trivial fun _ _ => Iff.rfl).mpr makes)
    | remove coll filter =>
        rcases answers with ⟨docs, selects, rfl⟩
        exact .removed selects ((@rewritesAll_iff P ⟨ns, .remove coll filter, now⟩ contents next _
          trivial fun _ _ => Iff.rfl).mpr makes)
    | count coll filter =>
        cases (@everywhere_reads_iff P ⟨ns, .count coll filter, now⟩ contents next trivial).mp makes
        rcases answers with ⟨docs, selects, rfl⟩
        exact .counted selects
    | «exists» coll filter =>
        cases (@everywhere_reads_iff P ⟨ns, .exists coll filter, now⟩ contents next trivial).mp
          makes
        rcases answers with ⟨docs, selects, rfl⟩
        exact .existing selects
    | find coll filter sort limit offset =>
        cases (@everywhere_reads_iff P ⟨ns, .find coll filter sort limit offset, now⟩ contents next
          trivial).mp makes
        rcases answers with ⟨docs, selects, fixed, paged, isPage, rfl⟩
        exact .found selects fixed isPage
    | createIndex | dropIndex | watch | begin | commit | rollback =>
        rcases answers with ⟨docs, selects, impossible⟩
        exact impossible.elim

end Places

/-! ## What an act does not notice -/

/-- A document at a place that the filter accepts. -/
def Chosen (P : Platform) (filter : Option Expr) (stored : Option Document) (doc : Document) :
    Prop :=
  stored = some doc ∧ accepts P filter doc = true

/-- The act answers the same when what is stored at the place changes so. -/
def Unnoticed (P : Platform) (act : Act) (place : Place) (before after : Option Document) : Prop :=
  place.1 = act.key ->
    match act.statement with
    | .insert _ _ => True
    | .find _ filter _ _ _ => forall doc, Chosen P filter before doc <-> Chosen P filter after doc
    | statement => (Exists fun doc => Chosen P (filterOf statement) before doc) <->
        Exists fun doc => Chosen P (filterOf statement) after doc

section Answering

variable {P : Platform} {act : Act} {filter : Option Expr} {key : CollectionKey}
  {contents next : Contents} {docs : List Document} {payload : ResponsePayload} {place : Place}
  {before after : Option Document}

theorem Unnoticed.refl (P : Platform) (act : Act) (place : Place) (stored : Option Document) :
    Unnoticed P act place stored stored := by
  intro inCollection
  split
  · trivial
  · exact fun doc => Iff.rfl
  · exact Iff.rfl

theorem Unnoticed.symm (unnoticed : Unnoticed P act place before after) :
    Unnoticed P act place after before := by
  intro inCollection
  have same := unnoticed inCollection
  split at same
  · trivial
  · exact fun doc => (same doc).symm
  · exact same.symm

/-- Nothing is chosen, before and behind. -/
theorem Unnoticed.unchosen (idle : forall doc, ¬Chosen P (filterOf act.statement) before doc)
    (idleToo : forall doc, ¬Chosen P (filterOf act.statement) after doc) :
    Unnoticed P act place before after := by
  intro inCollection
  split
  · trivial
  · rename_i isFind
    rw [isFind] at idle idleToo
    exact fun doc => iff_of_false (idle doc) (idleToo doc)
  · exact iff_of_false (fun ⟨doc, chosen⟩ => idle doc chosen)
      (fun ⟨doc, chosen⟩ => idleToo doc chosen)

theorem Selects.unchanged (selects : Selects P filter contents key docs)
    (same : forall id doc,
      Chosen P filter (contents (key, id)) doc <-> Chosen P filter (next (key, id)) doc) :
    Selects P filter next key docs := by
  rcases selects with ⟨ids, distinct, exactly, documents⟩
  refine ⟨ids, distinct, fun id => (exactly id).trans (exists_congr (same id)), ?_⟩
  have found : (ids.map fun id => contents (key, id)) = ids.map fun id => next (key, id) := by
    refine List.map_congr_left ?_
    intro id member
    rcases (exactly id).mp member with ⟨doc, stored, accepted⟩
    rw [stored, ((same id doc).mp ⟨stored, accepted⟩).1]
  rw [← found]
  exact documents

/-- As many documents are accepted at the same places. -/
theorem Selects.renumbered (selects : Selects P filter contents key docs)
    (same : forall id, (Exists fun doc => Chosen P filter (contents (key, id)) doc) <->
      Exists fun doc => Chosen P filter (next (key, id)) doc) :
    Exists fun others => Selects P filter next key others ∧ others.length = docs.length := by
  rcases selects with ⟨ids, distinct, exactly, documents⟩
  have exactlyToo := fun id => (exactly id).trans (same id)
  have stored : ((ids.filterMap fun id => next (key, id)).map some) =
      ids.map fun id => next (key, id) := by
    rw [List.map_filterMap]
    rw [← List.filterMap_eq_map]
    refine List.filterMap_congr ?_
    intro id member
    rcases (exactlyToo id).mp member with ⟨doc, isStored, _⟩
    rw [Function.comp_apply, isStored]
    rfl
  refine ⟨ids.filterMap fun id => next (key, id), ⟨ids, distinct, exactlyToo, ?_⟩, ?_⟩
  · rw [stored]
  · have lengths := congrArg List.length stored
    have lengthsToo := documents.length_eq
    rw [List.length_map, List.length_map] at lengths lengthsToo
    rw [lengths, lengthsToo]

theorem Answers.unnoticed (answers : Answers P act contents payload)
    (unnoticed : forall place, Unnoticed P act place (contents place) (next place)) :
    Answers P act next payload := by
  have same := fun id => unnoticed (act.key, id) rfl
  rcases act with ⟨ns, statement, now⟩
  cases statement with
  | insert coll doc => exact answers
  | find coll filter sort limit offset =>
      rcases answers with ⟨docs, selects, answer⟩
      exact ⟨docs, selects.unchanged same, answer⟩
  | update | remove | count | «exists» =>
      rcases answers with ⟨docs, selects, answer⟩
      rcases selects.renumbered same with ⟨others, selectsToo, number⟩
      refine ⟨others, selectsToo, ?_⟩
      rw [AnswersWith, number]
      exact answer
  | createIndex | dropIndex | watch | begin | commit | rollback =>
      rcases answers with ⟨docs, selects, impossible⟩
      exact impossible.elim

end Answering

/-! ## Acts that may be exchanged -/

/-- Place by place, the second act may be first, and neither notices the other. -/
structure Exchangeable (P : Platform) (first second : Act) : Prop where
  places : forall place before between after, MakesAt P first place before between ->
    MakesAt P second place between after -> Exists fun other =>
      MakesAt P second place before other ∧ MakesAt P first place other after
  unnoticed : forall place before after, MakesAt P first place before after ->
    Unnoticed P second place before after
  unnoticedToo : forall place before after, MakesAt P second place before after ->
    Unnoticed P first place before after

theorem Exchangeable.gives {P : Platform} {first second : Act} {contents middle next : Contents}
    {payload other : ResponsePayload} (exchangeable : Exchangeable P first second)
    (isFirst : Gives P contents first payload middle) (isSecond : Gives P middle second other next) :
    Exists fun between => Gives P contents second other between ∧
      Gives P between first payload next := by
  rcases gives_iff.mp isFirst with ⟨makesFirst, answersFirst⟩
  rcases gives_iff.mp isSecond with ⟨makesSecond, answersSecond⟩
  rcases makesFirst.exchange makesSecond exchangeable.places with ⟨between, secondMakes, firstMakes⟩
  refine ⟨between, gives_iff.mpr ⟨secondMakes, ?_⟩, gives_iff.mpr ⟨firstMakes, ?_⟩⟩
  · exact answersSecond.unnoticed fun place =>
      (exchangeable.unnoticed place _ _ (makesFirst place)).symm
  · exact answersFirst.unnoticed fun place =>
      exchangeable.unnoticedToo place _ _ (secondMakes place)

section Pairs

variable {P : Platform} {first second act : Act} {place : Place}
  {before between after : Option Document} {filter : Option Expr} {doc revised : Document}

/-- Outside its collection an act does nothing. -/
theorem makesAt_outside_iff (outside : place.1 ≠ act.key) :
    MakesAt P act place before after <-> after = before := by
  constructor
  · intro made
    cases made with
    | inserted inserts isPlace =>
        rw [isPlace, Act.key, inserts] at outside
        exact absurd rfl outside
    | picked _ inCollection _ _ => exact absurd inCollection outside
    | spared _ => rfl
  · rintro rfl
    refine .spared ?_
    unfold Spared
    split
    · rename_i inserts
      rintro rfl
      rw [Act.key, inserts] at outside
      exact outside rfl
    · exact fun inCollection => absurd inCollection outside

/-- An act that does nothing may come first or second. -/
theorem exchange_idle
    (idle : (forall stored next, MakesAt P first place stored next <-> next = stored) ∨
      forall stored next, MakesAt P second place stored next <-> next = stored)
    (isFirst : MakesAt P first place before between)
    (isSecond : MakesAt P second place between after) : Exists fun other =>
      MakesAt P second place before other ∧ MakesAt P first place other after := by
  rcases idle with idle | idle
  · cases (idle _ _).mp isFirst
    exact ⟨after, isSecond, (idle _ _).mpr rfl⟩
  · cases (idle _ _).mp isSecond
    exact ⟨before, (idle _ _).mpr rfl, isFirst⟩

/-- A document that is not removed is accepted as before by a filter that reads nothing
of what is assigned. -/
theorem accepts_becomes (becomes : Becomes P act doc (some revised))
    (spares : Evaluator.Spares (assignmentsOf act.statement) (filterKeys filter)) :
    accepts P filter revised = accepts P filter doc := by
  unfold Becomes at becomes
  split at becomes
  · rename_i isUpdate
    rw [isUpdate] at spares
    rcases becomes with ⟨other, same, assigns⟩
    cases same
    rw [accepts, accepts,
      Evaluator.matchesFilter_agree (Evaluator.agreeOn_assigned assigns spares)]
  · cases becomes
  · cases becomes
    rfl

theorem becomes_some (keeps : ¬Removes act.statement) : ¬Becomes P act doc none := by
  intro becomes
  unfold Becomes at becomes
  split at becomes
  · rcases becomes with ⟨_, impossible, _⟩
    cases impossible
  · rename_i isRemove
    rw [isRemove] at keeps
    exact keeps trivial
  · cases becomes

theorem exchangeable_apart (apart : first.key ≠ second.key) : Exchangeable P first second := by
  refine ⟨?_, ?_, ?_⟩
  · intro place before between after isFirst isSecond
    refine exchange_idle ?_ isFirst isSecond
    by_cases inFirst : place.1 = first.key
    · exact Or.inr fun _ _ => makesAt_outside_iff (inFirst ▸ apart)
    · exact Or.inl fun _ _ => makesAt_outside_iff inFirst
  · intro place before after made inSecond
    cases (makesAt_outside_iff (inSecond ▸ apart.symm)).mp made
    exact Unnoticed.refl P second place before inSecond
  · intro place before after made inFirst
    cases (makesAt_outside_iff (inFirst ▸ apart)).mp made
    exact Unnoticed.refl P first place before inFirst

theorem exchangeable_inserts {ns coll : String} {doc other : Document} {now later : Int64}
    (different : doc.id ≠ other.id) :
    Exchangeable P ⟨ns, .insert coll doc, now⟩ ⟨ns, .insert coll other, later⟩ := by
  refine ⟨?_, fun _ _ _ _ _ => trivial, fun _ _ _ _ _ => trivial⟩
  intro place before between after isFirst isSecond
  rcases makesAt_insert_iff.mp isFirst with ⟨rfl, rfl, rfl⟩ | ⟨elsewhere, rfl⟩
  · rcases makesAt_insert_iff.mp isSecond with ⟨same, _, _⟩ | ⟨elsewhere, rfl⟩
    · exact absurd (congrArg Prod.snd same) different
    · exact ⟨none, makesAt_insert_iff.mpr (Or.inr ⟨elsewhere, rfl⟩), isFirst⟩
  · exact ⟨after, isSecond, makesAt_insert_iff.mpr (Or.inr ⟨elsewhere, rfl⟩)⟩

/-- A read, and what it does not notice. -/
theorem exchangeable_read (reads : Reads second.statement)
    (unnoticed : forall place before after, MakesAt P first place before after ->
      Unnoticed P second place before after) : Exchangeable P first second := by
  refine ⟨?_, unnoticed, ?_⟩
  · intro place before between after
    exact exchange_idle (Or.inr fun _ _ => makesAt_reads_iff reads)
  · intro place before after made
    cases (makesAt_reads_iff reads).mp made
    exact Unnoticed.refl P first place before

theorem Exchangeable.symm_read (exchangeable : Exchangeable P first second)
    (reads : Reads second.statement) : Exchangeable P second first := by
  refine ⟨?_, exchangeable.unnoticedToo, exchangeable.unnoticed⟩
  intro place before between after
  exact exchange_idle (Or.inl fun _ _ => makesAt_reads_iff reads)

/-- An INSERT, and a statement that neither accepts the document nor removes any. -/
theorem exchangeable_insert {ns coll : String} {now : Int64} (asks : Asks act.statement)
    (keeps : ¬Removes act.statement)
    (rejected : accepts P (filterOf act.statement) doc = false) :
    Exchangeable P ⟨ns, .insert coll doc, now⟩ act ∧
      Exchangeable P act ⟨ns, .insert coll doc, now⟩ := by
  have spares : forall place, Spared P act place (some doc) := by
    refine fun place => (spared_iff asks).mpr ?_
    intro _ other same
    cases same
    exact rejected
  have sparesNone : forall place, Spared P act place none :=
    fun place => (spared_iff asks).mpr fun _ _ => nofun
  have unnoticed : forall place before after,
      MakesAt P ⟨ns, .insert coll doc, now⟩ place before after ->
        Unnoticed P act place before after := by
    intro place before after made
    rcases makesAt_insert_iff.mp made with ⟨_, rfl, rfl⟩ | ⟨_, rfl⟩
    · refine Unnoticed.unchosen (fun _ chosen => nomatch chosen.1) ?_
      rintro other ⟨same, accepted⟩
      cases same
      rw [rejected] at accepted
      cases accepted
    · exact Unnoticed.refl P act place after
  refine ⟨⟨?_, unnoticed, fun _ _ _ _ _ => trivial⟩, ⟨?_, fun _ _ _ _ _ => trivial, unnoticed⟩⟩
  · intro place before between after isInsert isAct
    rcases makesAt_insert_iff.mp isInsert with ⟨rfl, rfl, rfl⟩ | ⟨elsewhere, rfl⟩
    · cases isAct with
      | picked _ _ accepted _ =>
          rw [rejected] at accepted
          cases accepted
      | spared _ => exact ⟨none, .spared (sparesNone _), .inserted rfl rfl⟩
    · exact ⟨after, isAct, makesAt_insert_iff.mpr (Or.inr ⟨elsewhere, rfl⟩)⟩
  · intro place before between after isAct isInsert
    rcases makesAt_insert_iff.mp isInsert with ⟨rfl, rfl, rfl⟩ | ⟨elsewhere, rfl⟩
    · -- what is not there behind the act was not there in front of it
      generalize isNone : (none : Option Document) = between at isAct
      cases isAct with
      | inserted inserts _ => cases isNone
      | picked _ _ _ becomes =>
          subst isNone
          exact absurd becomes (becomes_some keeps)
      | spared _ =>
          subst isNone
          exact ⟨some doc, .inserted rfl rfl, .spared (spares _)⟩
    · exact ⟨before, makesAt_insert_iff.mpr (Or.inr ⟨elsewhere, rfl⟩), isAct⟩

theorem not_insert (asks : Asks act.statement) {coll : String} :
    ¬act.statement = .insert coll doc := by
  intro inserts
  rw [inserts] at asks
  exact asks

/-- What a statement makes of its documents is rejected by a filter that rejects them and
reads nothing of what is assigned. -/
theorem rejects_becomes (accepted : accepts P (filterOf first.statement) doc = true)
    (becomes : Becomes P first doc after)
    (disjoint : forall doc, accepts P (filterOf first.statement) doc = true ->
      accepts P filter doc = false)
    (spares : Evaluator.Spares (assignmentsOf first.statement) (filterKeys filter)) :
    forall revised, after = some revised -> accepts P filter revised = false := by
  rintro revised rfl
  rw [accepts_becomes becomes spares]
  exact disjoint doc accepted

theorem unnoticed_disjoint (asks : Asks first.statement)
    (disjoint : forall doc, accepts P (filterOf first.statement) doc = true ->
      accepts P (filterOf second.statement) doc = false)
    (spares : Evaluator.Spares (assignmentsOf first.statement)
      (filterKeys (filterOf second.statement)))
    (made : MakesAt P first place before after) : Unnoticed P second place before after := by
  cases made with
  | inserted inserts _ => exact absurd inserts (not_insert asks)
  | @picked doc _ _ _ accepted becomes =>
      refine Unnoticed.unchosen ?_ ?_
      · rintro other ⟨same, acceptedToo⟩
        cases same
        rw [disjoint doc accepted] at acceptedToo
        cases acceptedToo
      · rintro other ⟨same, acceptedToo⟩
        rw [rejects_becomes accepted becomes disjoint spares other same] at acceptedToo
        cases acceptedToo
  | spared _ => exact Unnoticed.refl P second place before

/-- Statements whose filters accept no common document, and see nothing that the other
assigns. -/
theorem exchangeable_disjoint (asks : Asks first.statement) (asksToo : Asks second.statement)
    (disjoint : forall doc, accepts P (filterOf first.statement) doc = true ->
      accepts P (filterOf second.statement) doc = false)
    (spares : Evaluator.Spares (assignmentsOf first.statement)
      (filterKeys (filterOf second.statement)))
    (sparesToo : Evaluator.Spares (assignmentsOf second.statement)
      (filterKeys (filterOf first.statement))) : Exchangeable P first second := by
  have disjointToo : forall doc, accepts P (filterOf second.statement) doc = true ->
      accepts P (filterOf first.statement) doc = false := by
    intro doc accepted
    refine Bool.eq_false_of_not_eq_true fun acceptedToo => ?_
    rw [disjoint doc acceptedToo] at accepted
    cases accepted
  refine ⟨?_, fun _ _ _ => unnoticed_disjoint asks disjoint spares,
    fun _ _ _ => unnoticed_disjoint asksToo disjointToo sparesToo⟩
  intro place before between after isFirst isSecond
  cases isFirst with
  | inserted inserts _ => exact absurd inserts (not_insert asks)
  | @picked doc _ _ inFirst accepted becomes =>
      have spared : Spared P second place (some doc) := by
        refine (spared_iff asksToo).mpr ?_
        intro _ other same
        cases same
        exact disjoint doc accepted
      cases isSecond with
      | inserted inserts _ => exact absurd inserts (not_insert asksToo)
      | @picked revised _ _ _ acceptedToo _ =>
          rw [rejects_becomes accepted becomes disjoint spares revised rfl] at acceptedToo
          cases acceptedToo
      | spared _ => exact ⟨some doc, .spared spared, .picked asks inFirst accepted becomes⟩
  | spared isSpared =>
      refine ⟨after, isSecond, ?_⟩
      cases isSecond with
      | inserted inserts _ => exact absurd inserts (not_insert asksToo)
      | picked _ _ accepted becomes =>
          exact .spared ((spared_iff asks).mpr fun _ =>
            rejects_becomes accepted becomes disjointToo sparesToo)
      | spared _ => exact .spared isSpared

/-- A statement that shows only a number does not notice an UPDATE of fields that its
filter does not read. -/
theorem unnoticed_update {ns coll : String} {assignments : List Assignment} {now : Int64}
    (shows : Numbers act.statement ∨ Exists fun coll => Exists fun assignments =>
      Exists fun filter => act.statement = .update coll assignments filter)
    (spares : Evaluator.Spares assignments (filterKeys (filterOf act.statement)))
    (made : MakesAt P ⟨ns, .update coll assignments filter, now⟩ place before after) :
    Unnoticed P act place before after := by
  cases made with
  | inserted inserts _ => cases inserts
  | spared _ => exact Unnoticed.refl P act place before
  | @picked doc _ _ _ accepted becomes =>
      rcases becomes with ⟨revised, rfl, assigns⟩
      have same : accepts P (filterOf act.statement) revised =
          accepts P (filterOf act.statement) doc := by
        rw [accepts, accepts,
          Evaluator.matchesFilter_agree (Evaluator.agreeOn_assigned assigns spares)]
      have chosen : (Exists fun other => Chosen P (filterOf act.statement) (some doc) other) <->
          Exists fun other => Chosen P (filterOf act.statement) (some revised) other := by
        simp only [Chosen, Option.some.injEq, exists_eq_left', same]
      intro inCollection
      rcases shows with numbers | ⟨coll, assignments, filter, isUpdate⟩
      · split
        · trivial
        · rename_i isFind
          rw [isFind] at numbers
          exact numbers.elim
        · exact chosen
      · rw [isUpdate] at chosen ⊢
        exact chosen


/-- UPDATEs at one time that see nothing of each other. -/
theorem exchangeable_updates {ns coll : String} {now : Int64}
    {assignments others : List Assignment} {otherFilter : Option Expr}
    (unseen : Evaluator.Unseen assignments others) (unseenToo : Evaluator.Unseen others assignments)
    (spares : Evaluator.Spares assignments (filterKeys otherFilter))
    (sparesToo : Evaluator.Spares others (filterKeys filter)) :
    Exchangeable P ⟨ns, .update coll assignments filter, now⟩
      ⟨ns, .update coll others otherFilter, now⟩ := by
  refine ⟨?_, fun _ _ _ => unnoticed_update (Or.inr ⟨_, _, _, rfl⟩) spares,
    fun _ _ _ => unnoticed_update (Or.inr ⟨_, _, _, rfl⟩) sparesToo⟩
  intro place before between after isFirst isSecond
  cases isFirst with
  | inserted inserts _ => cases inserts
  | @picked doc _ _ inFirst accepted becomes =>
      have firstBecomes := becomes
      rcases becomes with ⟨revised, rfl, assigns⟩
      have sameAccepted := @accepts_becomes P _ otherFilter doc revised firstBecomes spares
      cases isSecond with
      | picked _ inSecond acceptedToo becomesToo =>
          -- both assign to the document
          rcases becomesToo with ⟨last, rfl, assignsToo⟩
          rcases Evaluator.applyAssignments_swap assigns assignsToo unseen unseenToo with
            ⟨other, assignsOther, assignsBack⟩
          have otherBecomes : Becomes P ⟨ns, .update coll others otherFilter, now⟩ doc
              (some other) := ⟨other, rfl, assignsOther⟩
          have acceptedOther := @accepts_becomes P _ filter doc other otherBecomes sparesToo
          exact ⟨some other,
            .picked trivial inSecond (sameAccepted.symm.trans acceptedToo) otherBecomes,
            .picked trivial inFirst (acceptedOther.trans accepted) ⟨last, rfl, assignsBack⟩⟩
      | spared isSpared =>
          refine ⟨some doc, .spared ?_, .picked trivial inFirst accepted firstBecomes⟩
          rintro inSecond other same
          cases same
          exact sameAccepted.symm.trans (isSpared inSecond revised rfl)
  | spared isSpared =>
      refine ⟨after, isSecond, ?_⟩
      cases isSecond with
      | inserted inserts _ => cases inserts
      | @picked doc _ _ inSecond acceptedToo becomesToo =>
          refine .spared ?_
          rintro inFirst last rfl
          exact (@accepts_becomes P _ filter doc last becomesToo sparesToo).trans
            (isSpared inFirst doc rfl)
      | spared _ => exact .spared isSpared

end Pairs

/-! ## Independence -/

/-- Statements that may be executed in either order: in different collections; reading
ones; INSERTs of different ids; an INSERT whose document the other one passes over; a
filter and a filter that no document meets both of, which the assignments spare; and
UPDATEs that do not see one another. -/
inductive Independent (P : Platform) : Act -> Act -> Prop where
  | elsewhere {first second : Act} (apart : first.key ≠ second.key) : Independent P first second
  | reading {first second : Act} (reads : Reads first.statement) (readsToo : Reads second.statement) :
      Independent P first second
  | inserting {ns coll : String} {doc other : Document} {now later : Int64}
      (different : doc.id ≠ other.id) :
      Independent P ⟨ns, .insert coll doc, now⟩ ⟨ns, .insert coll other, later⟩
  | passing {ns coll : String} {doc : Document} {now : Int64} {act : Act}
      (asks : Asks act.statement) (keeps : ¬Removes act.statement)
      (rejected : accepts P (filterOf act.statement) doc = false) :
      Independent P ⟨ns, .insert coll doc, now⟩ act
  | disjoint {first second : Act} (asks : Asks first.statement) (asksToo : Asks second.statement)
      (disjoint : forall doc, accepts P (filterOf first.statement) doc = true ->
        accepts P (filterOf second.statement) doc = false)
      (spares : Evaluator.Spares (assignmentsOf first.statement)
        (filterKeys (filterOf second.statement)))
      (sparesToo : Evaluator.Spares (assignmentsOf second.statement)
        (filterKeys (filterOf first.statement))) : Independent P first second
  | numbering {ns coll : String} {assignments : List Assignment} {filter : Option Expr}
      {now : Int64} {act : Act} (numbers : Numbers act.statement)
      (spares : Evaluator.Spares assignments (filterKeys (filterOf act.statement))) :
      Independent P ⟨ns, .update coll assignments filter, now⟩ act
  | revising {ns coll : String} {assignments others : List Assignment}
      {filter otherFilter : Option Expr} {now : Int64}
      (unseen : Evaluator.Unseen assignments others)
      (unseenToo : Evaluator.Unseen others assignments)
      (spares : Evaluator.Spares assignments (filterKeys otherFilter))
      (sparesToo : Evaluator.Spares others (filterKeys filter)) :
      Independent P ⟨ns, .update coll assignments filter, now⟩
        ⟨ns, .update coll others otherFilter, now⟩
  | symm {first second : Act} (independent : Independent P first second) :
      Independent P second first

theorem reads_of_numbers {statement : Statement} (numbers : Numbers statement) :
    Reads statement := by
  cases statement with
  | count | «exists» => trivial
  | _ => exact numbers.elim

theorem Independent.exchangeable {P : Platform} {first second : Act}
    (independent : Independent P first second) :
    Exchangeable P first second ∧ Exchangeable P second first := by
  induction independent with
  | elsewhere apart => exact ⟨exchangeable_apart apart, exchangeable_apart apart.symm⟩
  | @reading first second reads readsToo =>
      have exchangeable : Exchangeable P first second := by
        refine exchangeable_read readsToo ?_
        intro place before after made
        cases (makesAt_reads_iff reads).mp made
        exact Unnoticed.refl P second place before
      exact ⟨exchangeable, exchangeable.symm_read readsToo⟩
  | inserting different =>
      exact ⟨exchangeable_inserts different, exchangeable_inserts different.symm⟩
  | passing asks keeps rejected => exact exchangeable_insert asks keeps rejected
  | disjoint asks asksToo disjoint spares sparesToo =>
      refine ⟨exchangeable_disjoint asks asksToo disjoint spares sparesToo,
        exchangeable_disjoint asksToo asks ?_ sparesToo spares⟩
      intro doc accepted
      refine Bool.eq_false_of_not_eq_true fun acceptedToo => ?_
      rw [disjoint doc acceptedToo] at accepted
      cases accepted
  | @numbering ns coll assignments filter now act numbers spares =>
      have exchangeable : Exchangeable P ⟨ns, .update coll assignments filter, now⟩ act :=
        exchangeable_read (reads_of_numbers numbers)
          fun _ _ _ => unnoticed_update (Or.inl numbers) spares
      exact ⟨exchangeable, exchangeable.symm_read (reads_of_numbers numbers)⟩
  | revising unseen unseenToo spares sparesToo =>
      exact ⟨exchangeable_updates unseen unseenToo spares sparesToo,
        exchangeable_updates unseenToo unseen sparesToo spares⟩
  | symm independent hypothesis => exact hypothesis.symm

/-! ## Histories -/

/-- An act and its answer as one step of the abstract database. -/
def GivesStep (P : Platform) (contents : Contents) (step : Act × ResponsePayload)
    (next : Contents) : Prop :=
  Gives P contents step.1 step.2 next

section Reordered

variable {P : Platform} {start contents : Contents} {history : List Act}
  {answers : List ResponsePayload}

theorem exchanges_gives (P : Platform) :
    Exchanges (GivesStep P) fun first second => Independent P first.1 second.1 :=
  fun _ _ _ _ _ independent isFirst isSecond =>
    independent.exchangeable.1.gives isFirst isSecond

theorem Recounts.walk (recounts : Recounts P start history answers contents) :
    Walk (GivesStep P) start (history.zip answers) contents := by
  induction recounts with
  | nothing => exact .stay start
  | @act history answers contents next act payload earlier gives hypothesis =>
      rw [List.zip_append earlier.length_eq.symm]
      exact hypothesis.append (.move gives (.stay next))

theorem recounts_of_walk {word : List (Act × ResponsePayload)}
    (walk : Walk (GivesStep P) start word contents) :
    Recounts P start (word.map Prod.fst) (word.map Prod.snd) contents := by
  induction word using List.reverseRecOn generalizing contents with
  | nil =>
      cases walk
      exact .nothing
  | append_singleton word step hypothesis =>
      rcases walk.split with ⟨middle, earlier, last⟩
      cases last with
      | move moves stays =>
          cases stays
          rw [List.map_append, List.map_append]
          exact (hypothesis earlier).act moves

/-- A history in another order of independent statements has the same effect, and the
answers go with their statements. -/
theorem Recounts.reordered {reordered : List Act}
    (recounts : Recounts P start history answers contents)
    (swapped : Swapped (Independent P) history reordered) :
    Exists fun carried : List (Act × ResponsePayload) => carried.map Prod.fst = reordered ∧
      Swapped (fun first second => Independent P first.1 second.1) (history.zip answers) carried ∧
      Recounts P start reordered (carried.map Prod.snd) contents := by
  have isHistory : (history.zip answers).map Prod.fst = history :=
    List.map_fst_zip recounts.length_eq.ge
  rcases swapped.attach isHistory with ⟨carried, rfl, carries⟩
  exact ⟨carried, rfl, carries,
    recounts_of_walk (carries.walk (exchanges_gives P) recounts.walk)⟩

end Reordered

/-- Two runs of the engine, as for `history_determines`, whose histories differ by the
order of independent statements, apart from times.  Both end with the same documents,
without times, and each statement has the same answer in both.  -/
theorem independent_order_free {P : Platform} {start : Contents} {history reordered : List Act}
    {answers others : List ResponsePayload} {engine other : DatabaseEngine}
    (plays : Plays P start history answers engine) (again : Plays P start reordered others other)
    (swapped : Swapped (Independent P) (history.map Act.untimed) (reordered.map Act.untimed)) :
    untimedContents (contentsOf engine.collections) =
        untimedContents (contentsOf other.collections) ∧
      Exists fun carried : List (Act × ResponsePayload) =>
        carried.map Prod.fst = reordered.map Act.untimed ∧
        Swapped (fun first second => Independent P first.1 second.1)
          ((history.map Act.untimed).zip (answers.map untimedPayload)) carried ∧
        SameAnswers (reordered.map Act.untimed) (carried.map Prod.snd)
          (others.map untimedPayload) := by
  rcases plays.recounts.2.untimed.reordered swapped with ⟨carried, isReordered, carries, recounts⟩
  rcases recounts.unique again.recounts.2.untimed with ⟨same, equal⟩
  exact ⟨equal, carried, isReordered, carries, same⟩

/-! ## A sample -/

/-- COUNT of a kind of documents that the sample document is not. -/
def sampleCount : Act :=
  ⟨"default", .count "users" (some (.binary .eq (.field "age") (.literal (.int 1)))), 0⟩

theorem plays_sampleCount {history : List Act} {answers : List ResponsePayload}
    {engine : DatabaseEngine} (plays : Plays samplePlatform noContents history answers engine)
    (answered : (execute samplePlatform quietMoments sampleCount.statement "default"
      engine).2.toOption.isSome = true)
    (roundTrips : AllRoundTrip samplePlatform engine) : Exists fun payload =>
      Plays samplePlatform noContents (history ++ [sampleCount]) (answers ++ [payload])
        (execute samplePlatform quietMoments sampleCount.statement "default" engine).1 := by
  cases returns : (execute samplePlatform quietMoments sampleCount.statement "default" engine).2 with
  | error fault =>
      rw [returns] at answered
      cases answered
  | ok payload =>
      exact ⟨payload, @Plays.answered samplePlatform noContents history answers engine plays
        quietMoments sampleCount payload calm_quietMoments id (fun _ _ => nofun) trivial returns
        roundTrips⟩

theorem swapped_samples : Swapped (Independent samplePlatform)
    ([sampleAct, sampleCount].map Act.untimed) ([sampleCount, sampleAct].map Act.untimed) :=
  @Swapped.exchange _ _ [] [] sampleAct.untimed sampleCount.untimed
    (.passing trivial id (by decide +kernel))

/-- The count before the insert and behind it. -/
theorem independent_order_free_sample :
    Exists fun answers => Exists fun others => Exists fun engine => Exists fun other =>
      Plays samplePlatform noContents [sampleAct, sampleCount] answers engine ∧
        Plays samplePlatform noContents [sampleCount, sampleAct] others other ∧
        untimedContents (contentsOf engine.collections) =
          untimedContents (contentsOf other.collections) := by
  have opened : Plays samplePlatform noContents [] [] (emptyEngine 100) :=
    .opened (intact_empty samplePlatform) (openEngine_empty _ 100) rfl
  have empty : AllRoundTrip samplePlatform (emptyEngine 100) := by
    intro place doc stored
    cases stored
  rcases plays_sampleAct opened (by decide +kernel) rfl with ⟨inserted, written⟩
  rcases plays_sampleCount written (by decide +kernel)
    (allRoundTrip_insert empty roundTrips_sample quietMoments "default" "users") with
    ⟨counted, front⟩
  rcases plays_sampleCount opened (by decide +kernel) empty with ⟨number, counts⟩
  rcases plays_sampleAct counts (by decide +kernel) rfl with ⟨answer, back⟩
  exact ⟨_, _, _, _, front, back, (independent_order_free front back swapped_samples).1⟩

end Server
end NovaDb
