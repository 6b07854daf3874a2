import NovaDb.Foundation.NestedMap
import NovaDb.Foundation.Separator
import NovaDb.Query.Lexemes
import NovaDb.Storage.Recovery
import NovaDb.Storage.ReferencePlatform

namespace NovaDb
namespace Storage

open Core Foundation

/-!
# Snapshots

A snapshot is a data file and a metadata file.  The data file is the JSON of all
collections under flat keys, namespace and collection joined by `::`; restoring
splits the keys at every `::` and skips those that do not have two parts.
-/

/-- Snapshot metadata describing a point-in-time database snapshot. -/
structure SnapshotMetadata where
  id : String
  timestamp : Int64
  databaseVersion : String
  storageVersion : Nat
  documentCount : Nat
  sizeBytes : Nat
  checksum : UInt32

/-- Snapshot serialization payload containing document collections. -/
structure SnapshotData where
  collections : Nested String String Document

/-- `serde_json` on the two files of a snapshot. -/
structure SnapshotCodec where
  dataToVec : SnapshotData -> Except String (List UInt8)
  dataFromSlice : List UInt8 -> Except String SnapshotData
  metadataToVecPretty : SnapshotMetadata -> Except String (List UInt8)
  metadataFromSlice : List UInt8 -> Except String SnapshotMetadata

/-- The files of a snapshot directory by name. -/
abbrev SnapshotDir := AList (fun _ : String => List UInt8)

namespace SnapshotManager

/-! ## Creating and restoring -/

/-- `CARGO_PKG_VERSION`. -/
def packageVersion : String := "0.1.1"

def dataFile (snapshotId : String) : String := snapshotId ++ ".snap"

def metadataFile (snapshotId : String) : String := snapshotId ++ ".meta.json"

def flatKey (key : CollectionKey) : String :=
  key.1 ++ "::" ++ key.2

/-- The collections under flat keys, their documents under the text of the id. -/
def flatten (collections : Collections) : SnapshotData :=
  ⟨renest (fun key => some (flatKey key)) (fun id => some id.asStr) collections⟩

def documentCount (collections : Collections) : Nat :=
  (collections.entries.map fun entry => entry.2.entries.length).sum

/-- Create a new snapshot from current in-memory collection state. -/
def create (P : Platform) (codec : SnapshotCodec) (dir : SnapshotDir) (snapshotId : String)
    (now : Int64) (collections : Collections) : SnapshotDir × Except NovaError SnapshotMetadata :=
  match codec.dataToVec (flatten collections) with
  | .error failure =>
      (dir, .error (NovaError.storage ("Failed to serialize snapshot: " ++ failure)))
  | .ok rawBytes =>
      let metadata : SnapshotMetadata :=
        { id := snapshotId
          timestamp := now
          databaseVersion := packageVersion
          storageVersion := nbfVersion
          documentCount := documentCount collections
          sizeBytes := rawBytes.length
          checksum := P.crc32 rawBytes }
      let dir := dir.insert (dataFile snapshotId) rawBytes
      match codec.metadataToVecPretty metadata with
      | .error failure => (dir, .error (NovaError.storage failure))
      | .ok metadataJson => (dir.insert (metadataFile snapshotId) metadataJson, .ok metadata)

/-- The two parts of a flat key; a key with more or fewer is skipped. -/
def splitKey (key : String) : Option CollectionKey :=
  match Separator.split ':' key.toList with
  | [ns, coll] => some (String.ofList ns, String.ofList coll)
  | _ => none

/-- The collections of a snapshot; documents whose id is refused are skipped. -/
def unflatten (data : SnapshotData) : Collections :=
  renest splitKey (fun id => (DocumentId.new id).toOption) data.collections

/-- Restore documents and collections from a specified snapshot ID. -/
def restore (P : Platform) (codec : SnapshotCodec) (dir : SnapshotDir) (snapshotId : String) :
    Except NovaError (SnapshotMetadata × Collections) :=
  match dir.lookup (metadataFile snapshotId), dir.lookup (dataFile snapshotId) with
  | some metadataBytes, some rawBytes =>
      match codec.metadataFromSlice metadataBytes with
      | .error failure => .error (NovaError.storage ("Corrupt snapshot metadata: " ++ failure))
      | .ok metadata =>
          let calculated := P.crc32 rawBytes
          if calculated ≠ metadata.checksum then
            .error (NovaError.checksumMismatch metadata.checksum calculated)
          else
            match codec.dataFromSlice rawBytes with
            | .error failure =>
                .error (NovaError.storage ("Failed to deserialize snapshot: " ++ failure))
            | .ok data => .ok (metadata, unflatten data)
  | _, _ =>
      .error (NovaError.new .snapshotFailed ("Snapshot '" ++ snapshotId ++ "' does not exist"))

/-! ## What a snapshot is for -/

/-- The same keys, and under each key the same documents. -/
structure Same (saved restored : Collections) : Prop where
  keys : forall key, key ∈ restored <-> key ∈ saved
  documents : forall key id,
    (storeOf restored key).lookup id = (storeOf saved key).lookup id

/-- The snapshot restores to what was saved, as many documents as recorded. -/
def Restores (P : Platform) (codec : SnapshotCodec) (dir : SnapshotDir) (snapshotId : String)
    (metadata : SnapshotMetadata) (saved : Collections) : Prop :=
  Exists fun restored =>
    restore P codec dir snapshotId = .ok (metadata, restored) ∧ Same saved restored ∧
      documentCount restored = metadata.documentCount

/-- What was written for the snapshot is read back, with maps in any order. -/
structure ReadsBack (codec : SnapshotCodec) (data : SnapshotData) (metadata : SnapshotMetadata) :
    Prop where
  data : forall bytes, codec.dataToVec data = .ok bytes ->
    Exists fun back => codec.dataFromSlice bytes = .ok back ∧
      Alike data.collections back.collections
  metadata : forall bytes, codec.metadataToVecPretty metadata = .ok bytes ->
    codec.metadataFromSlice bytes = .ok metadata

/-- The namespace neither contains `::` nor ends with a colon. -/
def Restorable (ns : String) : Prop :=
  Separator.Clear ':' ns.toList

section Flat

variable {T : Query.TextTables}

/-- A colon is part of no identifier. -/
theorem colon_not_mem (name : Query.Lexer.Identifier T) : ':' ∉ name.asString.toList := by
  rw [Query.Lexer.Identifier.asString, String.toList_ofList, Query.Lexer.Identifier.text,
    List.mem_cons, not_or]
  constructor
  · exact (Query.Lexer.wordStart_ne name.starts (by decide) (by decide) (by decide)).symm
  · intro member
    have continues := name.continues ':' member
    rw [Query.TextTables.isAlphanumeric, T.alphabetic_ascii ':' (by decide),
      T.numeric_ascii ':' (by decide)] at continues
    exact absurd continues (by decide)

theorem toList_flatKey (key : CollectionKey) :
    (flatKey key).toList = Separator.join ':' key.1.toList key.2.toList := by
  rw [flatKey, String.toList_append, String.toList_append, List.append_assoc]
  rfl

theorem splitKey_flatKey {key : CollectionKey} (restorable : Restorable key.1)
    (identifier : ':' ∉ key.2.toList) : splitKey (flatKey key) = some key := by
  rw [splitKey, toList_flatKey, Separator.split_join restorable identifier]
  simp only [String.ofList_toList]

/-- No other namespace comes out of a split. -/
theorem restorable_of_splitKey {text : String} {key : CollectionKey}
    (parted : splitKey text = some key) : Restorable key.1 := by
  unfold splitKey at parted
  split at parted
  · rename_i ns coll parts
    cases parted
    rw [Restorable, String.toList_ofList]
    exact Separator.clear_of_split parts
  · cases parted

theorem flatKey_injective {left right : CollectionKey} (leftIdentifier : ':' ∉ left.2.toList)
    (rightIdentifier : ':' ∉ right.2.toList) (same : flatKey left = flatKey right) :
    left = right := by
  have texts := congrArg String.toList same
  rw [toList_flatKey, toList_flatKey] at texts
  rcases Separator.join_injective leftIdentifier rightIdentifier texts with ⟨first, second⟩
  exact Prod.ext (String.toList_inj.mp first) (String.toList_inj.mp second)

end Flat

/-- A snapshot that was created is read back up to the order of its maps. -/
theorem restore_created {P : Platform} {codec : SnapshotCodec} {dir after : SnapshotDir}
    {snapshotId : String} {now : Int64} {saved : Collections} {metadata : SnapshotMetadata}
    (created : create P codec dir snapshotId now saved = (after, .ok metadata))
    (readsBack : ReadsBack codec (flatten saved) metadata) :
    metadata.documentCount = documentCount saved ∧
      Exists fun back => Alike (flatten saved).collections back.collections ∧
        restore P codec after snapshotId = .ok (metadata, unflatten back) := by
  unfold create at created
  cases written : codec.dataToVec (flatten saved) with
  | error failure =>
      rw [written] at created
      cases created
  | ok rawBytes =>
      simp only [written] at created
      split at created
      · cases created
      · rename_i metadataJson metadataWritten
        cases created
        rcases readsBack.data rawBytes written with ⟨back, read, alike⟩
        refine ⟨rfl, back, alike, ?_⟩
        have different : dataFile snapshotId ≠ metadataFile snapshotId := by
          intro same
          have lengths := congrArg (fun name => name.toList.length) same
          simp [dataFile, metadataFile] at lengths
        have metadataRead := readsBack.metadata metadataJson metadataWritten
        simp only [restore, AList.lookup_insert, AList.lookup_insert_ne different, metadataRead,
          read, ne_eq, not_true_eq_false, if_false]

theorem documentCount_eq (collections : Collections) :
    documentCount collections = (items collections).length := by
  rw [documentCount, items, itemsOf, List.length_flatMap]
  simp only [List.length_map]

section Saved

variable {T : Query.TextTables} {saved : Collections} {back : SnapshotData}

/-- Saving is one to one on keys whose collection is an identifier. -/
theorem flatten_perm (identifiers : forall key, key ∈ saved.keys -> ':' ∉ key.2.toList) :
    (flatten saved).collections.keys.Perm (saved.keys.map flatKey) ∧
      (items (flatten saved).collections).Perm
        ((items saved).map fun item => (flatKey item.1, item.2.1.asStr, item.2.2)) := by
  have distinct : (saved.keys.filterMap fun key => some (flatKey key)).Nodup := by
    rw [List.filterMap_eq_map']
    refine List.Nodup.map_on ?_ (AList.keys_nodup saved)
    intro left inLeft right inRight
    exact flatKey_injective (identifiers left inLeft) (identifiers right inRight)
  have innerDistinct : forall entry, entry ∈ saved.entries ->
      (entry.2.keys.filterMap fun id : DocumentId => some id.asStr).Nodup := by
    intro entry _
    rw [List.filterMap_eq_map']
    refine List.Nodup.map_on ?_ (AList.keys_nodup entry.2)
    rintro ⟨left⟩ _ ⟨right⟩ _ rfl
    rfl
  have copied := renest_perm distinct innerDistinct
  rw [List.filterMap_eq_map'] at copied
  refine ⟨copied.1, copied.2.trans (List.Perm.of_eq ?_)⟩
  rw [← List.filterMap_eq_map']
  rfl

/-- Restoring is one to one on what was saved from restorable namespaces. -/
theorem unflatten_alike (identifiers : forall key, key ∈ saved.keys -> ':' ∉ key.2.toList)
    (built : forall item, item ∈ items saved -> item.2.1.Built)
    (restorable : forall key, key ∈ saved.keys -> Restorable key.1)
    (alike : Alike (flatten saved).collections back.collections) :
    Alike saved (unflatten back) := by
  rcases flatten_perm identifiers with ⟨flatKeys, flatItems⟩
  have split : forall key, key ∈ saved.keys -> splitKey (flatKey key) = some key :=
    fun key member => splitKey_flatKey (restorable key member) (identifiers key member)
  have backKeys : back.collections.keys.Perm (saved.keys.map flatKey) :=
    alike.keys.symm.trans flatKeys
  have backItems : (items back.collections).Perm
      ((items saved).map fun item => (flatKey item.1, item.2.1.asStr, item.2.2)) :=
    alike.contents.symm.trans flatItems
  have keysBack : (back.collections.keys.filterMap splitKey).Perm saved.keys := by
    refine (backKeys.filterMap splitKey).trans (List.Perm.of_eq ?_)
    rw [List.filterMap_map]
    calc saved.keys.filterMap (splitKey ∘ flatKey)
        = saved.keys.filterMap some := List.filterMap_congr split
      _ = saved.keys := List.filterMap_some
  -- every id in the data file is the text of a saved one
  have ids : forall entry, entry ∈ back.collections.entries -> forall text,
      text ∈ entry.2.keys -> Exists fun id : DocumentId =>
        id.asStr = text ∧ DocumentId.new text = .ok id := by
    intro entry inBack text member
    rcases List.mem_map.mp member with ⟨⟨found, doc⟩, inStore, rfl⟩
    have inItems : (entry.1, found, doc) ∈ items back.collections :=
      List.mem_flatMap.mpr ⟨entry, inBack, List.mem_map.mpr ⟨⟨found, doc⟩, inStore, rfl⟩⟩
    rcases List.mem_map.mp (backItems.mem_iff.mp inItems) with ⟨item, inSaved, same⟩
    have isText : item.2.1.asStr = found := congrArg (fun item => item.2.1) same
    refine ⟨item.2.1, isText, ?_⟩
    rw [← isText]
    exact DocumentId.new_asStr (built item inSaved)
  have innerDistinct : forall entry, entry ∈ back.collections.entries ->
      (entry.2.keys.filterMap fun text => (DocumentId.new text).toOption).Nodup := by
    intro entry inBack
    rw [List.Nodup, List.pairwise_filterMap]
    refine (AList.keys_nodup entry.2).imp_of_mem ?_
    intro left right inLeft inRight different leftId isLeft rightId isRight sameId
    rcases ids entry inBack left inLeft with ⟨first, rfl, firstNew⟩
    rcases ids entry inBack right inRight with ⟨second, rfl, secondNew⟩
    rw [firstNew] at isLeft
    rw [secondNew] at isRight
    cases isLeft
    cases isRight
    exact different (congrArg DocumentId.asStr sameId)
  have copied := renest_perm (keysBack.nodup_iff.mpr (AList.keys_nodup saved)) innerDistinct
  refine ⟨(copied.1.trans keysBack).symm, (copied.2.trans ?_).symm⟩
  refine (backItems.filterMap _).trans (List.Perm.of_eq ?_)
  rw [List.filterMap_map]
  calc (items saved).filterMap _
      = (items saved).filterMap some := by
        apply List.filterMap_congr
        intro item member
        have isKey : item.1 ∈ saved.keys := by
          rcases mem_items.mp member with ⟨store, isStore, _⟩
          exact AList.mem_keys.mp (AList.lookup_isSome.mp (by rw [isStore]; rfl))
        simp only [Function.comp_apply, newItem, split item.1 isKey,
          DocumentId.new_asStr (built item member), Except.toOption]
    _ = items saved := List.filterMap_some

/-- A snapshot restores to what was saved exactly when no namespace contains `::` or
ends with a colon.  Collections have identifiers for names, the ids are from
constructors, and the JSON of the snapshot is read back as it was written.  -/
theorem snapshot_restores_iff {P : Platform} {codec : SnapshotCodec} {dir after : SnapshotDir}
    {snapshotId : String} {now : Int64} {metadata : SnapshotMetadata}
    (created : create P codec dir snapshotId now saved = (after, .ok metadata))
    (readsBack : ReadsBack codec (flatten saved) metadata)
    (identifiers : forall key, key ∈ saved.keys ->
      Exists fun name : Query.Lexer.Identifier T => key.2 = name.asString)
    (built : forall item, item ∈ items saved -> item.2.1.Built) :
    Restores P codec after snapshotId metadata saved <->
      forall key, key ∈ saved.keys -> Restorable key.1 := by
  have noColon : forall key, key ∈ saved.keys -> ':' ∉ key.2.toList := by
    intro key member
    rcases identifiers key member with ⟨name, same⟩
    rw [same]
    exact colon_not_mem name
  rcases restore_created created readsBack with ⟨counted, back, alike, restored⟩
  constructor
  · rintro ⟨found, restores, same, _⟩ key member
    cases restored.symm.trans restores
    rcases mem_renest ((same.keys key).mpr member) with ⟨text, _, parted⟩
    exact restorable_of_splitKey parted
  · intro restorable
    have result := unflatten_alike noColon built restorable alike
    refine ⟨unflatten back, restored, ⟨?_, ?_⟩, ?_⟩
    · intro key
      rw [AList.mem_keys, AList.mem_keys, result.keys.mem_iff]
    · exact fun key id => (result.lookup key id).symm
    · rw [counted, documentCount_eq, documentCount_eq, result.contents.length_eq]

end Saved

/-! ## One document in one namespace -/

/-- A codec that knows one snapshot. -/
def constantCodec (data : SnapshotData) (metadata : SnapshotMetadata) : SnapshotCodec where
  dataToVec _ := .ok [1]
  dataFromSlice _ := .ok data
  metadataToVecPretty _ := .ok [2]
  metadataFromSlice _ := .ok metadata

def sampleSaved (ns : String) : Collections :=
  AList.singleton (ns, "users") (AList.singleton sampleDocument.id sampleDocument)

def sampleMetadata : SnapshotMetadata :=
  ⟨"snap_01", 0, packageVersion, nbfVersion, 1, 1, samplePlatform.crc32 [1]⟩

def sampleCodec (ns : String) : SnapshotCodec :=
  constantCodec (flatten (sampleSaved ns)) sampleMetadata

def createSample (ns : String) : SnapshotDir × Except NovaError SnapshotMetadata :=
  create samplePlatform (sampleCodec ns) ∅ "snap_01" 0 (sampleSaved ns)

theorem createSample_ok (ns : String) :
    createSample ns = ((createSample ns).1, .ok sampleMetadata) :=
  rfl

theorem readsBack_sample (ns : String) :
    ReadsBack (sampleCodec ns) (flatten (sampleSaved ns)) sampleMetadata := by
  constructor
  · exact fun bytes _ => ⟨_, rfl, List.Perm.refl _, List.Perm.refl _⟩
  · exact fun bytes _ => rfl

theorem users_starts : (Query.referenceTables.isAlphabetic 'u' || 'u' == '_') = true := by
  decide

theorem users_continues : forall c, c ∈ ['s', 'e', 'r', 's'] ->
    (Query.referenceTables.isAlphanumeric c || c == '_') = true :=
  List.all_eq_true.mp (by decide)

theorem users_plain :
    Query.Lexer.keywords.lookup (Query.Lexer.toAsciiUppercase ['u', 's', 'e', 'r', 's']) = none := by
  decide

def usersName : Query.Lexer.Identifier Query.referenceTables where
  first := 'u'
  rest := ['s', 'e', 'r', 's']
  starts := users_starts
  continues := users_continues
  plain := users_plain

theorem snapshot_restores_sample :
    Restores samplePlatform (sampleCodec "default") (createSample "default").1 "snap_01"
      sampleMetadata (sampleSaved "default") := by
  refine (@snapshot_restores_iff Query.referenceTables _ _ _ _ _ _ _ _
    (createSample_ok "default") (readsBack_sample "default") ?_ ?_).mpr ?_
  · intro key member
    rw [List.mem_singleton.mp member]
    exact ⟨usersName, rfl⟩
  · intro item member
    rw [List.mem_singleton.mp member]
    exact built_sample
  · intro key member
    rw [List.mem_singleton.mp member]
    exact ⟨by decide, by decide⟩

/-- A namespace with `::` in it is left out without an error. -/
theorem doubled_colon_not_restored :
    ¬ Restores samplePlatform (sampleCodec "a::b") (createSample "a::b").1 "snap_01"
      sampleMetadata (sampleSaved "a::b") := by
  rintro ⟨restored, restores, same, _⟩
  have computed : restore samplePlatform (sampleCodec "a::b") (createSample "a::b").1 "snap_01" =
      .ok (sampleMetadata, unflatten (flatten (sampleSaved "a::b"))) := by
    rfl
  cases computed.symm.trans restores
  have missing : ("a::b", "users") ∉ unflatten (flatten (sampleSaved "a::b")) := by decide +kernel
  have saved : ("a::b", "users") ∈ sampleSaved "a::b" := by decide +kernel
  exact missing ((same.keys _).mpr saved)

end SnapshotManager
end Storage
end NovaDb
