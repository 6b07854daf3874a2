import Mathlib
import NovaDb.Foundation.ValueMap
import NovaDb.Storage.Durability

namespace NovaDb
namespace Storage

open Core Foundation WriteAheadLog

/-!
# What the database holds

Seen from outside, the database is a partial map from places to documents, and a
log record is one change of it.  The in-memory collections and the replay of a log
both denote such a map; whether a collection without documents exists is not
visible in it, nor the order in which a hash map iterates.
-/

/-- Where a document is: its collection and its id. -/
abbrev Place := CollectionKey × DocumentId

/-- At most one document at each place. -/
abbrev Contents := Place -> Option Document

def contentsOf (collections : Collections) : Contents :=
  fun place => (storeOf collections place.1).lookup place.2

/-- No documents. -/
def noContents : Contents := fun _ => none

/-- Documents over others: those on top hide those below. -/
def overlay (top below : Contents) : Contents :=
  fun place => (top place).or (below place)

theorem overlay_noContents (below : Contents) : overlay noContents below = below := by
  funext place
  exact Option.none_or

/-- A change at a place that is free on top is a change below. -/
theorem overlay_update {top : Contents} {place : Place} (free : top place = none)
    (below : Contents) (value : Option Document) :
    overlay top (Function.update below place value) =
      Function.update (overlay top below) place value := by
  funext other
  by_cases same : other = place
  · subst same
    rw [Function.update_self, overlay, Function.update_self, free, Option.none_or]
  · rw [Function.update_of_ne same, overlay, Function.update_of_ne same]
    rfl

theorem overlay_take (top below : Contents) (place : Place) (doc : Document) :
    overlay (Function.update top place (some doc)) below =
      Function.update (overlay top below) place (some doc) := by
  funext other
  by_cases same : other = place
  · subst same
    rw [Function.update_self, overlay, Function.update_self, Option.some_or]
  · rw [Function.update_of_ne same, overlay, Function.update_of_ne same]
    rfl

/-- A document on top that comes down to its place below. -/
theorem overlay_release {top : Contents} {place : Place} {doc : Document}
    (isTop : top place = some doc) (below : Contents) :
    overlay (Function.update top place none) (Function.update below place (some doc)) =
      overlay top below := by
  funext other
  by_cases same : other = place
  · subst same
    rw [overlay, Function.update_self, Function.update_self, Option.none_or, overlay, isTop,
      Option.some_or]
  · rw [overlay, Function.update_of_ne same, Function.update_of_ne same]
    rfl

/-! ## Changes of one store -/

theorem storeOf_insert (collections : Collections) (key : CollectionKey) (store : DocumentStore) :
    storeOf (collections.insert key store) key = store := by
  rw [storeOf, AList.lookup_insert]
  rfl

theorem storeOf_insert_ne {key other : CollectionKey} (different : other ≠ key)
    (collections : Collections) (store : DocumentStore) :
    storeOf (collections.insert key store) other = storeOf collections other := by
  rw [storeOf, AList.lookup_insert_ne different]
  rfl

/-- The contents at a place of the store that was put in. -/
theorem contentsOf_insert_self (collections : Collections) (key : CollectionKey)
    (store : DocumentStore) (id : DocumentId) :
    contentsOf (collections.insert key store) (key, id) = store.lookup id := by
  change (storeOf (collections.insert key store) key).lookup id = store.lookup id
  rw [storeOf_insert]

theorem contentsOf_insert_of_ne (collections : Collections) {key other : CollectionKey}
    (different : other ≠ key) (store : DocumentStore) (id : DocumentId) :
    contentsOf (collections.insert key store) (other, id) = contentsOf collections (other, id) := by
  change (storeOf (collections.insert key store) other).lookup id = _
  rw [storeOf_insert_ne different]
  rfl

/-- Two stores of one collection that differ at one id. -/
theorem contentsOf_change (collections : Collections) (key : CollectionKey) (id : DocumentId)
    {store changed : DocumentStore} {value : Option Document}
    (atId : changed.lookup id = value)
    (elsewhere : forall other, other ≠ id -> changed.lookup other = store.lookup other) :
    contentsOf (collections.insert key changed) =
      Function.update (contentsOf (collections.insert key store)) (key, id) value := by
  funext place
  rcases place with ⟨otherKey, otherId⟩
  by_cases sameKey : otherKey = key
  · subst sameKey
    by_cases sameId : otherId = id
    · subst sameId
      rw [Function.update_self, contentsOf_insert_self, atId]
    · rw [Function.update_of_ne (fun same => sameId (congrArg Prod.snd same)),
        contentsOf_insert_self, contentsOf_insert_self, elsewhere otherId sameId]
  · rw [Function.update_of_ne (fun same => sameKey (congrArg Prod.fst same)),
      contentsOf_insert_of_ne _ sameKey, contentsOf_insert_of_ne _ sameKey]

theorem contentsOf_put (collections : Collections) (key : CollectionKey) (store : DocumentStore)
    (id : DocumentId) (doc : Document) :
    contentsOf (collections.insert key (store.insert id doc)) =
      Function.update (contentsOf (collections.insert key store)) (key, id) (some doc) :=
  contentsOf_change collections key id (AList.lookup_insert store)
    (fun _ different => AList.lookup_insert_ne different)

theorem contentsOf_drop (collections : Collections) (key : CollectionKey) (store : DocumentStore)
    (id : DocumentId) :
    contentsOf (collections.insert key (store.erase id)) =
      Function.update (contentsOf (collections.insert key store)) (key, id) none :=
  contentsOf_change collections key id (AList.lookup_erase id store)
    (fun _ different => AList.lookup_erase_ne different)

theorem contentsOf_replace (collections : Collections) (key : CollectionKey)
    {store : DocumentStore} {id : DocumentId} (member : id ∈ store) (doc : Document) :
    contentsOf (collections.insert key (store.replace id doc)) =
      Function.update (contentsOf (collections.insert key store)) (key, id) (some doc) :=
  contentsOf_change collections key id (ValueMap.lookup_replace doc member)
    (fun _ different => ValueMap.lookup_replace_ne different doc store)

/-- Contents depend on a store through its lookups. -/
theorem contentsOf_congr (collections : Collections) (key : CollectionKey)
    {left right : DocumentStore} (same : forall id, left.lookup id = right.lookup id) :
    contentsOf (collections.insert key left) = contentsOf (collections.insert key right) := by
  funext place
  rcases place with ⟨other, id⟩
  by_cases sameKey : other = key
  · subst sameKey
    rw [contentsOf_insert_self, contentsOf_insert_self, same]
  · rw [contentsOf_insert_of_ne _ sameKey, contentsOf_insert_of_ne _ sameKey]

/-- Putting a store back, or creating an empty one, changes nothing. -/
theorem contentsOf_same (collections : Collections) (key : CollectionKey) :
    contentsOf (collections.insert key (storeOf collections key)) = contentsOf collections := by
  funext place
  rcases place with ⟨other, id⟩
  by_cases same : other = key
  · subst same
    rw [contentsOf_insert_self]
    rfl
  · rw [contentsOf_insert_of_ne _ same]

/-- The order of iteration is not visible in the contents. -/
theorem contentsOf_perm {left right : Collections}
    (permuted : forall key, (storeOf left key).entries.Perm (storeOf right key).entries) :
    contentsOf left = contentsOf right := by
  funext place
  exact AList.perm_lookup (permuted place.1)

/-! ## The effect of a record -/

namespace NbfRecord

def place (record : NbfRecord) : Place :=
  ((record.namespaceName, record.collection), record.documentId)

/-- What a record does to the contents. -/
def effect (P : Platform) (record : NbfRecord) (contents : Contents) : Contents :=
  match record.recordType with
  | .insert | .update =>
      match record.documentFromPayload P with
      | .ok doc => Function.update contents record.place (some doc)
      | .error _ => contents
  | .delete => Function.update contents record.place none
  | .checkpoint | .txBegin | .txCommit | .txRollback => contents

end NbfRecord

namespace RecoveryManager

theorem applyRecordToState_contents {P : Platform} {record : NbfRecord}
    {state next : RecoveredState} (applied : applyRecordToState P record state = .ok next) :
    contentsOf next.collections = record.effect P (contentsOf state.collections) := by
  have put : forall doc, contentsOf (state.collections.insert (record.namespaceName, record.collection)
      ((storeOf state.collections (record.namespaceName, record.collection)).insert
        record.documentId doc)) =
      Function.update (contentsOf state.collections) record.place (some doc) := by
    intro doc
    rw [contentsOf_put, contentsOf_same]
    rfl
  have same := contentsOf_same state.collections (record.namespaceName, record.collection)
  unfold applyRecordToState at applied
  unfold NbfRecord.effect
  cases isType : record.recordType <;> simp only [isType] at applied ⊢
  case insert =>
      cases decoded : record.documentFromPayload P with
      | error failure =>
          rw [decoded] at applied
          cases applied
      | ok doc =>
          rw [decoded] at applied
          cases applied
          exact put doc
  case update =>
      cases decoded : record.documentFromPayload P with
      | error failure =>
          rw [decoded] at applied
          cases applied
      | ok doc =>
          rw [decoded] at applied
          cases applied
          exact put doc
  case delete =>
      cases applied
      rw [contentsOf_drop, contentsOf_same]
      rfl
  all_goals
    cases applied
    exact same

theorem applyAll_snoc {P : Platform} {records : List NbfRecord} {state folded : RecoveredState}
    (applied : applyAll P state records = .ok folded) (record : NbfRecord) :
    applyAll P state (records ++ [record]) = applyRecordToState P record folded := by
  unfold applyAll at applied ⊢
  rw [List.foldlM_append, applied]
  change (applyRecordToState P record folded >>= pure) = _
  exact bind_pure _

end RecoveryManager

/-! ## Logs that mirror contents -/

/-- Recovery of the directory succeeds, and the collections it returns have these
contents, whatever the order in which they iterate. -/
def Recovers (P : Platform) (dir : WalDir) (contents : Contents) : Prop :=
  Exists fun state =>
    (RecoveryManager.recover P dir).2 = .ok state ∧ contentsOf state.collections = contents

/-- The records, applied in order, lead to these contents. -/
def Denotes (P : Platform) (records : List NbfRecord) (contents : Contents) : Prop :=
  Exists fun folded =>
    RecoveryManager.applyAll P RecoveredState.new records = .ok folded ∧
      contentsOf folded.collections = contents

/-- An open log in good order whose records lead to these contents. -/
def Mirrors (P : Platform) (wal : WriteAheadLog) (contents : Contents) : Prop :=
  Exists fun closed => Exists fun current =>
    Ready P wal closed current ∧ Denotes P (Layout.records (closed ++ [current])) contents

/-- The segments have the same bytes in both logs; one may have empty segments more. -/
def SameBytes (left right : WriteAheadLog) : Prop :=
  forall index, WalDir.read left.dir.files index = WalDir.read right.dir.files index

/-- What a mutation does to the contents once it is logged. -/
def Mutation.effect (P : Platform) (mutation : Mutation) : Contents -> Contents :=
  (mutation.record 0 0).effect P

/-- The JSON codec reads the document back as it was. -/
def RoundTrips (P : Platform) (doc : Document) : Prop :=
  forall bytes, P.toVec doc = .ok bytes -> P.fromSlice bytes = .ok doc

theorem RoundTrips.fromSlice {P : Platform} {doc : Document} (roundTrips : RoundTrips P doc)
    {payload : List UInt8} (encoded : NbfRecord.payloadFromDocument P doc = .ok payload) :
    P.fromSlice payload = .ok doc := by
  unfold NbfRecord.payloadFromDocument at encoded
  cases wrote : P.toVec doc with
  | error failure =>
      rw [wrote] at encoded
      cases encoded
  | ok bytes =>
      rw [wrote] at encoded
      rw [← Except.ok.inj encoded]
      exact roundTrips bytes wrote

theorem RoundTrips.documentFromPayload {P : Platform} {doc : Document}
    (roundTrips : RoundTrips P doc) {payload : List UInt8}
    (encoded : NbfRecord.payloadFromDocument P doc = .ok payload) {record : NbfRecord}
    (carries : record.payload = payload) : record.documentFromPayload P = .ok doc := by
  rw [NbfRecord.documentFromPayload, carries, roundTrips.fromSlice encoded]
  rfl

/-- A logged document is loggable and takes its place. -/
theorem writes_document {P : Platform} {ns coll : String} {id : DocumentId} {doc : Document}
    {payload : List UInt8} {recordType : RecordType}
    (isType : recordType = .insert ∨ recordType = .update) (built : id.Built)
    (roundTrips : RoundTrips P doc)
    (encoded : NbfRecord.payloadFromDocument P doc = .ok payload) :
    Mutation.Loggable P ⟨recordType, ns, coll, id, payload, none⟩ ∧
      forall contents, Mutation.effect P ⟨recordType, ns, coll, id, payload, none⟩ contents =
        Function.update contents ((ns, coll), id) (some doc) := by
  constructor
  · intro sequence now fits
    exact ⟨fits, built, fun _ => ⟨doc, roundTrips.documentFromPayload encoded rfl⟩⟩
  · intro contents
    have decoded : ((⟨recordType, ns, coll, id, payload, none⟩ : Mutation).record 0 0).documentFromPayload
        P = .ok doc := roundTrips.documentFromPayload encoded rfl
    unfold Mutation.effect NbfRecord.effect
    rw [decoded]
    rcases isType with rfl | rfl
    · rfl
    · rfl

/-- A logged removal is loggable and empties its place. -/
theorem writes_removal {P : Platform} {ns coll : String} {id : DocumentId} (built : id.Built) :
    Mutation.Loggable P ⟨.delete, ns, coll, id, [], none⟩ ∧
      forall contents, Mutation.effect P ⟨.delete, ns, coll, id, [], none⟩ contents =
        Function.update contents ((ns, coll), id) none := by
  constructor
  · intro sequence now fits
    refine ⟨fits, built, ?_⟩
    rintro (isInsert | isUpdate)
    · cases isInsert
    · cases isUpdate
  · intro contents
    rfl

theorem Denotes.logged {P : Platform} {records : List NbfRecord} {contents : Contents}
    (denotes : Denotes P records contents) {mutation : Mutation} {sequence now : UInt64}
    (valid : (mutation.record sequence now).Valid P) :
    Denotes P (records ++ [mutation.record sequence now]) (mutation.effect P contents) := by
  rcases denotes with ⟨folded, applied, rfl⟩
  rcases RecoveryManager.applyRecordToState_ok valid folded with ⟨collections, next⟩
  refine ⟨_, (RecoveryManager.applyAll_snoc applied _).trans next, ?_⟩
  exact RecoveryManager.applyRecordToState_contents next

/-- A record leaves the contents alone outside its place. -/
theorem NbfRecord.effect_of_ne {P : Platform} {record : NbfRecord} {contents : Contents}
    {place : Place} (different : place ≠ record.place) :
    record.effect P contents place = contents place := by
  unfold NbfRecord.effect
  cases record.recordType <;> cases record.documentFromPayload P <;>
    simp only [Function.update_of_ne different]

/-- Valid records put documents under built ids only. -/
theorem applyAll_built {P : Platform} {records : List NbfRecord} (valid : AllValid P records)
    {state folded : RecoveredState}
    (applied : RecoveryManager.applyAll P state records = .ok folded)
    (built : forall place doc, contentsOf state.collections place = some doc -> place.2.Built) :
    forall place doc, contentsOf folded.collections place = some doc -> place.2.Built := by
  induction records generalizing state with
  | nil =>
      cases applied
      exact built
  | cons record rest ih =>
      have recordValid := valid record List.mem_cons_self
      rcases RecoveryManager.applyRecordToState_ok recordValid state with ⟨collections, first⟩
      rw [RecoveryManager.applyAll, List.foldlM_cons, first] at applied
      apply ih (fun other member => valid other (List.mem_cons_of_mem record member)) applied
      intro place doc stored
      rw [RecoveryManager.applyRecordToState_contents first] at stored
      by_cases same : place = record.place
      · rw [same]
        exact recordValid.built
      · rw [NbfRecord.effect_of_ne same] at stored
        exact built place doc stored

/-- Recovery of a directory of valid records has the contents they lead to. -/
theorem recovers_of_holds {P : Platform} {dir : WalDir} {layout : Layout} {contents : Contents}
    (holds : Holds P dir.files layout) (sound : Sound P layout)
    (denotes : Denotes P layout.records contents) : Recovers P dir contents := by
  rcases denotes with ⟨folded, applied, rfl⟩
  rcases replays_of_holds holds sound with ⟨state, recovers, _, _, other, applies, same⟩
  cases applied.symm.trans applies
  exact ⟨state, recovers, congrArg contentsOf same⟩

theorem Mirrors.recovers {P : Platform} {wal : WriteAheadLog} {contents : Contents}
    (mirrors : Mirrors P wal contents) : Recovers P wal.dir contents := by
  rcases mirrors with ⟨closed, current, ready, denotes⟩
  exact recovers_of_holds ready.opened.holds ready.sound denotes

theorem Recovers.unique {P : Platform} {dir : WalDir} {left right : Contents}
    (first : Recovers P dir left) (second : Recovers P dir right) : left = right := by
  rcases first with ⟨state, recovers, rfl⟩
  rcases second with ⟨other, alsoRecovers, rfl⟩
  cases recovers.symm.trans alsoRecovers
  rfl

theorem Mirrors.built {P : Platform} {wal : WriteAheadLog} {contents : Contents}
    (mirrors : Mirrors P wal contents) {place : Place} {doc : Document}
    (stored : contents place = some doc) : place.2.Built := by
  rcases mirrors with ⟨closed, current, ready, folded, applied, rfl⟩
  refine applyAll_built ready.sound.valid applied ?_ place doc stored
  intro other _ nothing
  cases nothing

section Appends

variable {P : Platform} {wal : WriteAheadLog} {contents : Contents} {env : Environment}
  {mutation : Mutation}

/-- An acknowledged append, in any environment, has its effect. -/
theorem Mirrors.acknowledged (mirrors : Mirrors P wal contents)
    (loggable : mutation.Loggable P) {next : WriteAheadLog} {sequence : UInt64}
    (returned : append P env wal mutation = (next, .ok sequence)) :
    Mirrors P next (mutation.effect P contents) := by
  rcases mirrors with ⟨closed, current, ready, denotes⟩
  rcases append_opened env mutation ready.opened ready.pending (ready.clear env mutation) with
    ⟨_, other, fault, ends, _⟩ | ⟨_, fits, middle, closed', current', writes, empty, target, opened⟩
  · cases ends.symm.trans returned
  · have nonempty := (mutation.record (wal.currentSequence + 1) env.now).frame_length_pos P
    rcases @writeRecord_cases env env.room middle (wal.currentSequence + 1) _ opened.always
        opened.healthy empty nonempty with accepted | ⟨other, problem, count, buffer, fails, _⟩
    · have valid := loggable (wal.currentSequence + 1) env.now fits
      rcases sound_appended ready.sound target valid with ⟨sound, recordsEq⟩
      cases (writes.trans accepted).symm.trans returned
      refine ⟨closed', _, ⟨opened.appended target.clean _, rfl, target.clean, sound⟩, ?_⟩
      rw [recordsEq]
      exact denotes.logged valid
    · cases (writes.trans fails).symm.trans returned

/-- A failed append on a device that takes every byte and syncs leaves the log in
good order, with its segments. -/
theorem append_refused {closed : Layout} {current : Segment} (ready : Ready P wal closed current)
    (unset : env.fault = .unset) (unlimited : env.room = none) (synced : env.syncFails = false)
    {next : WriteAheadLog} {fault : Fault}
    (returned : append P env wal mutation = (next, .error fault)) : Ready P next closed current := by
  rcases append_opened env mutation ready.opened ready.pending (ready.clear env mutation) with
    ⟨_, other, problem, ends, empty, opened⟩ |
    ⟨_, fits, middle, closed', current', writes, empty, target, opened⟩
  · cases ends.symm.trans returned
    exact ⟨opened, empty, ready.clean, ready.sound⟩
  · have accepted := @writeRecord_accepted env env.room middle (wal.currentSequence + 1)
      ((mutation.record (wal.currentSequence + 1) env.now).frame P) opened.always opened.healthy
      empty unset synced (fun left limited => by
        rw [unlimited] at limited
        cases limited)
    cases (writes.trans accepted).symm.trans returned

theorem Mirrors.refused (mirrors : Mirrors P wal contents) (quiet : env.Quiet)
    {next : WriteAheadLog} {fault : Fault}
    (returned : append P env wal mutation = (next, .error fault)) : Mirrors P next contents := by
  rcases mirrors with ⟨closed, current, ready, denotes⟩
  exact ⟨closed, current,
    append_refused ready quiet.fault quiet.room quiet.syncFails returned, denotes⟩

/-- Such an append writes no bytes. -/
theorem Mirrors.sameBytes (mirrors : Mirrors P wal contents) (unset : env.fault = .unset)
    (unlimited : env.room = none) (synced : env.syncFails = false) {next : WriteAheadLog}
    {fault : Fault} (returned : append P env wal mutation = (next, .error fault)) :
    SameBytes wal next := by
  rcases mirrors with ⟨closed, current, ready, denotes⟩
  have after := append_refused ready unset unlimited synced returned
  exact fun index => ready.opened.holds.read_eq after.opened.holds index

/-- A segment that is no target yet has no bytes in the log as it was. -/
theorem read_target {closed closed' : Layout} {current current' : Segment}
    {next : WriteAheadLog} (target : Target closed current closed' current')
    (opened : Opened P wal closed current) (reached : Opened P next closed' current') :
    WalDir.read wal.dir.files current'.index = frames P current'.records := by
  cases target with
  | stay clean =>
      have isLast : current ∈ closed ++ [current] :=
        List.mem_append_right _ (List.mem_singleton_self _)
      rw [opened.holds.contents current isLast, Segment.bytes, clean, List.append_nil]
  | rotate index =>
      have unlisted : index ∉ wal.dir.files := by
        rw [← WalDir.mem_discoverSegments, opened.holds.listed]
        intro member
        rcases List.mem_map.mp member with ⟨segment, inClosed, isIndex⟩
        have smaller := reached.closed_lt inClosed
        rw [reached.active, isIndex] at smaller
        exact Nat.lt_irrefl _ smaller
      change WalDir.read wal.dir.files index = []
      rw [WalDir.read, AList.lookup_eq_none.mpr unlisted]
      rfl

/-- A failed append that leaves no bytes, in any environment, leaves the contents. -/
theorem Mirrors.silent (mirrors : Mirrors P wal contents) {next : WriteAheadLog} {fault : Fault}
    (returned : append P env wal mutation = (next, .error fault)) (same : SameBytes wal next) :
    Recovers P next.dir contents := by
  rcases mirrors with ⟨closed, current, ready, denotes⟩
  rcases append_opened env mutation ready.opened ready.pending (ready.clear env mutation) with
    ⟨_, other, problem, ends, _, opened⟩ |
    ⟨_, fits, middle, closed', current', writes, empty, target, opened⟩
  · cases ends.symm.trans returned
    exact recovers_of_holds opened.holds ready.sound denotes
  · have nonempty := (mutation.record (wal.currentSequence + 1) env.now).frame_length_pos P
    rcases @writeRecord_cases env env.room middle (wal.currentSequence + 1) _ opened.always
        opened.healthy empty nonempty with accepted | ⟨other, problem, count, buffer, fails, sameDir⟩
    · cases (writes.trans accepted).symm.trans returned
    · cases (writes.trans fails).symm.trans returned
      have torn := opened.torn target.clean
        (((mutation.record (wal.currentSequence + 1) env.now).frame P).take count) buffer
      have noBytes :
          ((mutation.record (wal.currentSequence + 1) env.now).frame P).take count = [] := by
        have after := torn.contents
        have before := same current'.index
        rw [read_target target ready.opened opened, sameDir] at before
        change WalDir.read (middle.extended _ buffer).dir.files middle.activeSegment = _ at after
        rw [opened.active, ← before, Segment.bytes] at after
        exact List.append_cancel_left (after.symm.trans (List.append_nil _).symm)
      rw [noBytes] at torn sameDir
      rcases sound_torn ready.sound target (tornTail_nil P) with ⟨sound, recordsEq⟩
      have holds : Holds P next.dir.files (closed' ++ [{ current' with tail := [] }]) := by
        rw [sameDir]
        exact torn.holds
      apply recovers_of_holds holds sound
      rw [recordsEq]
      exact denotes

end Appends

/-! ## Restarts -/

/-- Recovery of a directory whose last segment has no torn tail, and the log
opened behind it. -/
theorem recover_reopen {P : Platform} {dir : WalDir} {layout : Layout} {contents : Contents}
    (holds : Holds P dir.files layout) (sound : Sound P layout)
    (clean : forall closed current, layout = closed ++ [current] -> current.tail = [])
    (denotes : Denotes P layout.records contents) :
    Exists fun files => Exists fun state =>
      RecoveryManager.recover P dir = ({ dir with files }, .ok state) ∧
        contentsOf state.collections = contents ∧
        forall limit sequence,
          Mirrors P ((openDir { dir with files } .always limit).setSequence sequence) contents := by
  rcases RecoveryManager.recover_holds holds sound with
    ⟨files, next, count, replayed, recovers, repaired⟩
  rcases recovers_of_holds holds sound denotes with ⟨state, recovered, isContents⟩
  rw [recovers] at recovered
  cases recovered
  refine ⟨files, _, recovers, isContents, ?_⟩
  intro limit sequence
  rcases List.eq_nil_or_concat' layout with rfl | ⟨closed, current, rfl⟩
  · have intact : Intact P files [] := ⟨repaired, sound.valid, fun _ member => nomatch member⟩
    exact ⟨[], ⟨0, [], []⟩, (openDir_empty intact limit).setSequence sequence, denotes⟩
  · have sound' := sound.repaired
    rw [List.map_append, List.map_singleton] at repaired sound'
    have clean' : current.repaired.tail = [] := by
      simp only [Segment.repaired, clean closed current rfl, ite_self]
    refine ⟨closed.map Segment.repaired, current.repaired,
      (openDir_last repaired sound' clean' limit).setSequence sequence, ?_⟩
    have sameRecords := Layout.records_repaired (closed ++ [current])
    rw [List.map_append, List.map_singleton] at sameRecords
    rw [sameRecords]
    exact denotes

/-- A restart of a log that mirrors contents recovers and mirrors them again. -/
theorem Mirrors.reopen {P : Platform} {wal : WriteAheadLog} {contents : Contents}
    (mirrors : Mirrors P wal contents) :
    Exists fun files => Exists fun state =>
      RecoveryManager.recover P wal.dir = ({ wal.dir with files }, .ok state) ∧
        contentsOf state.collections = contents ∧
        forall limit sequence,
          Mirrors P ((openDir { wal.dir with files } .always limit).setSequence sequence)
            contents := by
  rcases mirrors with ⟨closed, current, ready, denotes⟩
  apply recover_reopen ready.opened.holds ready.sound _ denotes
  intro closed' current' same
  have isCurrent := List.singleton_inj.mp (List.append_inj_right' same rfl)
  rw [← isCurrent]
  exact ready.clean

end Storage
end NovaDb
