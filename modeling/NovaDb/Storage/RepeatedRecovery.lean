import NovaDb.Storage.Repair

namespace NovaDb
namespace Storage

open Core Foundation

/-!
# Recovery of a recovered directory

Here the segments hold arbitrary bytes.  A scan that succeeds has read some
records from a front part of the segment, and stopped at a tail that is too short
for the magic bytes or torn.  What it reads depends on that front part only, so
once the torn tail is cut off the next scan reads the same records and finds
nothing to cut.
-/

namespace RecoveryManager

/-- The bytes are those of the records, one after another, whatever follows. -/
inductive Reads (P : Platform) : List UInt8 -> List NbfRecord -> Prop where
  | nil : Reads P [] []
  | cons {record : NbfRecord} {front bytes : List UInt8} {records : List NbfRecord}
      (first : forall rest, NbfRecord.decode P (front ++ rest) = .ok (some (record, rest)))
      (later : Reads P bytes records) : Reads P (front ++ bytes) (record :: records)

section Scans

variable {P : Platform} {path : String} {fileLen : Nat} {bytes tail : List UInt8}
  {records : List NbfRecord} {state next final : RecoveredState} {cut : Option Nat}

/-- No bytes, no records. -/
theorem Reads.empty (reads : Reads P [] records) : records = [] := by
  generalize isEmpty : ([] : List UInt8) = none at reads
  cases reads with
  | nil => rfl
  | @cons record front bytes records first later =>
      have decoded := first []
      rcases List.append_eq_nil_iff.mp isEmpty.symm with ⟨rfl, rfl⟩
      exact absurd (NbfRecord.decode_rest_lt decoded) (Nat.lt_irrefl _)

theorem recoverLoop_record {behind : List UInt8} {record : NbfRecord}
    (decoded : NbfRecord.decode P bytes = .ok (some (record, behind)))
    (replayed : replayRecord P state record = .ok next) :
    recoverLoop P path fileLen bytes state = recoverLoop P path fileLen behind next := by
  rw [recoverLoop]
  split
  · rename_i found rest same
    cases decoded.symm.trans same
    rw [replayed]
  · rename_i same
    cases decoded.symm.trans same
  · rename_i failure same
    cases decoded.symm.trans same

/-- The scan passes over records and replays them. -/
theorem recoverLoop_reads {front : List UInt8} (reads : Reads P front records)
    (replayed : replayFrom P state records = .ok next) :
    recoverLoop P path fileLen (front ++ tail) state = recoverLoop P path fileLen tail next := by
  induction reads generalizing state with
  | nil =>
      cases replayed
      rfl
  | @cons record front bytes records first later ih =>
      cases stepped : replayRecord P state record with
      | error failure =>
          rw [replayFrom, List.foldlM_cons, stepped] at replayed
          cases replayed
      | ok middle =>
          rw [replayFrom_cons stepped] at replayed
          rw [List.append_assoc, recoverLoop_record (first _) stepped]
          exact ih replayed

/-- How a scan that succeeds ends: at a clean end, or at a torn tail, which is
to be cut off. -/
inductive Ends (P : Platform) (fileLen : Nat) (tail : List UInt8) (next : RecoveredState) :
    Option Nat -> RecoveredState -> Prop where
  | clean (short : tail.length < 4) : Ends P fileLen tail next none next
  | torn : Ends P fileLen tail next (some (fileLen - tail.length))
      { next with tornTailsTruncated := next.tornTailsTruncated + 1 }

/-- A scan that succeeds has read records and replayed them. -/
theorem recoverLoop_exit (ran : recoverLoop P path fileLen bytes state = .ok (cut, final)) :
    Exists fun front => Exists fun tail => Exists fun records => Exists fun next =>
      bytes = front ++ tail ∧ Reads P front records ∧
        replayFrom P state records = .ok next ∧ Ends P fileLen tail next cut final := by
  -- each record read leaves fewer bytes
  induction isSize : bytes.length using Nat.strong_induction_on generalizing bytes state with
  | _ size ih =>
      cases decoded : NbfRecord.decode P bytes with
      | error failure =>
          rw [recoverLoop] at ran
          split at ran
          · rename_i same
            cases decoded.symm.trans same
          · rename_i same
            cases decoded.symm.trans same
          · split at ran
            · cases ran
              exact ⟨[], bytes, [], _, rfl, .nil, rfl, .torn⟩
            · cases ran
      | ok found =>
          cases found with
          | none =>
              have short : bytes.length < 4 := by
                unfold NbfRecord.decode at decoded
                split at decoded
                · rename_i short
                  exact short
                · split at decoded
                  · cases decoded
                  · cases ended : NbfRecord.decodeRecord P (bytes.drop 4) <;>
                      rw [ended] at decoded <;> cases decoded
              rw [recoverLoop_short short] at ran
              cases ran
              exact ⟨[], bytes, [], _, rfl, .nil, rfl, .clean short⟩
          | some read =>
              rcases read with ⟨record, behind⟩
              cases stepped : replayRecord P state record with
              | error failure =>
                  rw [recoverLoop] at ran
                  split at ran
                  · rename_i found rest same
                    cases decoded.symm.trans same
                    rw [stepped] at ran
                    cases ran
                  · rename_i same
                    cases decoded.symm.trans same
                  · rename_i same
                    cases decoded.symm.trans same
              | ok middle =>
                  rw [recoverLoop_record decoded stepped] at ran
                  have fewer : behind.length < size := isSize ▸ NbfRecord.decode_rest_lt decoded
                  rcases ih behind.length fewer ran rfl with
                    ⟨front, tail, records, next, rfl, reads, replayed, ends⟩
                  rcases NbfRecord.decode_local decoded with ⟨head, split, again⟩
                  refine ⟨head ++ front, tail, record :: records, next, ?_, .cons again reads,
                    (replayFrom_cons stepped).trans replayed, ends⟩
                  rw [split, List.append_assoc]

/-- The bytes of a segment after recovery. -/
def keptBytes (bytes : List UInt8) : Option Nat -> List UInt8
  | none => bytes
  | some length => bytes.take length

/-- The scan of a segment that has been scanned. -/
theorem recoverSegment_again (ran : recoverSegment P path bytes state = .ok (cut, final))
    (count : Nat) :
    recoverSegment P path (keptBytes bytes cut) { state with tornTailsTruncated := count } =
      .ok (none, { final with tornTailsTruncated := count }) := by
  unfold recoverSegment at ran
  split at ran
  · rename_i empty
    cases ran
    exact if_pos empty
  · rcases recoverLoop_exit ran with ⟨front, tail, records, next, rfl, reads, replayed, ends⟩
    have again := replayFrom_torn replayed count
    cases ends with
    | clean short =>
        rename_i nonempty
        rw [keptBytes, recoverSegment, if_neg nonempty, recoverLoop_reads reads again,
          recoverLoop_short short]
    | torn =>
        have kept : keptBytes (front ++ tail) (some ((front ++ tail).length - tail.length)) =
            front := by
          rw [keptBytes, List.length_append, Nat.add_sub_cancel, List.take_left]
        rw [kept, recoverSegment]
        split
        · rename_i empty
          rw [List.length_eq_zero_iff.mp empty] at reads
          rw [reads.empty] at again
          have same := Except.ok.inj again
          rw [same]
        · have whole := @recoverLoop_reads P path front.length [] records _ _ front reads again
          rw [List.append_nil] at whole
          have nothing : ([] : List UInt8).length < 4 := Nat.zero_lt_succ 3
          rw [whole, recoverLoop_short nothing]

end Scans

/-! ## Directories -/

/-- Segments scanned in turn, from the bytes before to the bytes after. -/
inductive Scanned (P : Platform) (path : String) (before after : Nat -> List UInt8) :
    List Nat -> RecoveredState -> RecoveredState -> Prop where
  | nil (state : RecoveredState) : Scanned P path before after [] state state
  | cons {index : Nat} {rest : List Nat} {state middle next : RecoveredState}
      {cut : Option Nat}
      (scanned : recoverSegment P (WalDir.segmentPath path index) (before index) state =
        .ok (cut, middle))
      (kept : after index = keptBytes (before index) cut)
      (later : Scanned P path before after rest middle next) :
      Scanned P path before after (index :: rest) state next

/-- The scans of segments depend on the bytes of these only. -/
theorem Scanned.congr {P : Platform} {path : String} {before other after : Nat -> List UInt8}
    {indices : List Nat} {state next : RecoveredState}
    (same : forall index, index ∈ indices -> other index = before index)
    (scanned : Scanned P path before after indices state next) :
    Scanned P path other after indices state next := by
  induction scanned with
  | nil state => exact .nil state
  | @cons index rest state middle next cut scanned kept later ih =>
      have here := same index List.mem_cons_self
      refine @Scanned.cons _ _ _ _ _ _ _ _ _ cut ?_ ?_ (ih fun index member =>
        same index (List.mem_cons_of_mem _ member))
      · rw [here]
        exact scanned
      · rw [here]
        exact kept

/-- What recovery of some segments does to the files. -/
structure Passes (P : Platform) (path : String) (indices : List Nat) (files final : Files)
    (state next : RecoveredState) : Prop where
  listed : WalDir.discoverSegments final = WalDir.discoverSegments files
  others : forall index, index ∉ indices -> WalDir.read final index = WalDir.read files index
  scanned : Scanned P path (WalDir.read files) (WalDir.read final) indices state next

theorem recoverSegments_passes {P : Platform} {path : String} {indices : List Nat}
    {files final : Files} {state next : RecoveredState} (distinct : indices.Nodup)
    (listed : forall index, index ∈ indices -> index ∈ files)
    (ran : recoverSegments P path indices files state = (final, .ok next)) :
    Passes P path indices files final state next := by
  induction indices generalizing files state with
  | nil =>
      cases ran
      exact ⟨rfl, fun _ _ => rfl, .nil _⟩
  | cons index rest ih =>
      have restDistinct := (List.nodup_cons.mp distinct).2
      have absent := (List.nodup_cons.mp distinct).1
      cases scanned : recoverSegment P (WalDir.segmentPath path index)
          (WalDir.read files index) state with
      | error failure =>
          simp only [recoverSegments, scanned] at ran
          cases ran
      | ok result =>
          rcases result with ⟨cut, middle⟩
          -- the files behind the first segment
          have passed : Exists fun mended =>
              recoverSegments P path rest mended middle = (final, .ok next) ∧
                WalDir.discoverSegments mended = WalDir.discoverSegments files ∧
                WalDir.read mended index = keptBytes (WalDir.read files index) cut ∧
                forall other, other ≠ index ->
                  WalDir.read mended other = WalDir.read files other := by
            cases cut with
            | none =>
                simp only [recoverSegments, scanned] at ran
                exact ⟨files, ran, rfl, rfl, fun _ _ => rfl⟩
            | some length =>
                simp only [recoverSegments, scanned] at ran
                refine ⟨_, ran, ?_, WalDir.read_insert _ _ _,
                  fun other different => WalDir.read_insert_ne different _⟩
                exact WalDir.discoverSegments_insert_listed (listed index List.mem_cons_self) _
          rcases passed with ⟨mended, ran, sameList, kept, unchanged⟩
          have stays : forall other, other ∈ rest -> other ∈ mended := by
            intro other member
            rw [← WalDir.mem_discoverSegments, sameList, WalDir.mem_discoverSegments]
            exact listed other (List.mem_cons_of_mem _ member)
          have passes := ih restDistinct stays ran
          refine ⟨passes.listed.trans sameList, ?_, ?_⟩
          · intro other outside
            rw [List.mem_cons, not_or] at outside
            rw [passes.others other outside.2, unchanged other outside.1]
          · refine .cons scanned ?_ (passes.scanned.congr ?_)
            · rw [passes.others index absent, kept]
            · intro other member
              have different : other ≠ index := by
                rintro rfl
                exact absent member
              rw [unchanged other different]

theorem recover_passes {P : Platform} {dir repaired : WalDir} {state : RecoveredState}
    (ran : recover P dir = (repaired, .ok state)) :
    repaired.path = dir.path ∧
      Passes P dir.path (WalDir.discoverSegments dir.files) dir.files repaired.files
        RecoveredState.new state := by
  cases scanned : recoverSegments P dir.path (WalDir.discoverSegments dir.files) dir.files
      RecoveredState.new with
  | mk files result =>
      rw [recover, scanned] at ran
      cases ran
      have distinct : (WalDir.discoverSegments dir.files).Nodup :=
        (WalDir.discoverSegments_ascending dir.files).imp Nat.ne_of_lt
      exact ⟨rfl, recoverSegments_passes distinct
        (fun index member => WalDir.mem_discoverSegments.mp member) scanned⟩

/-- Scanned segments, scanned again. -/
theorem Scanned.again {P : Platform} {path : String} {before : Nat -> List UInt8} {files : Files}
    {indices : List Nat} {state next : RecoveredState}
    (scanned : Scanned P path before (WalDir.read files) indices state next) (count : Nat) :
    recoverSegments P path indices files { state with tornTailsTruncated := count } =
      (files, .ok { next with tornTailsTruncated := count }) := by
  induction scanned with
  | nil state => rfl
  | cons scanned kept later ih =>
      rw [recoverSegments, kept]
      simp only [recoverSegment_again scanned count]
      exact ih

/-- Recovery that succeeds leaves a directory whose recovery changes nothing and
gives the same state, with no torn tail. -/
theorem recover_idempotent {P : Platform} {dir repaired : WalDir} {state : RecoveredState}
    (ran : recover P dir = (repaired, .ok state)) :
    recover P repaired = (repaired, .ok { state with tornTailsTruncated := 0 }) := by
  rcases recover_passes ran with ⟨samePath, passes⟩
  have again : recoverSegments P dir.path (WalDir.discoverSegments dir.files) repaired.files
      RecoveredState.new = (repaired.files, .ok { state with tornTailsTruncated := 0 }) :=
    passes.scanned.again 0
  simp only [recover, passes.listed, samePath, again]
  rw [← samePath]

/-- A segment with a torn tail of forty bytes. -/
theorem recover_idempotent_forty : Exists fun repaired => Exists fun state =>
    recover samplePlatform (sampleDir (sampleTorn 40)) = (repaired, .ok state) ∧
      recover samplePlatform repaired = (repaired, .ok { state with tornTailsTruncated := 0 }) := by
  cases ran : recover samplePlatform (sampleDir (sampleTorn 40)) with
  | mk repaired result =>
      have succeeds : (recover samplePlatform (sampleDir (sampleTorn 40))).2.toOption.isSome =
          true := by decide +kernel
      rw [ran] at succeeds
      cases result with
      | error failure => cases succeeds
      | ok state => exact ⟨repaired, state, rfl, recover_idempotent ran⟩

end RecoveryManager
end Storage
end NovaDb
