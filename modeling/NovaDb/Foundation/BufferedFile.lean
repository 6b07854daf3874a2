import Mathlib

namespace NovaDb
namespace Foundation

/-!
# An append-only file behind a write buffer

This is the standard library's `BufWriter` over a file opened for appending.
Small writes collect in the buffer, larger ones flush it first, and a write of at
least the capacity goes straight to the file.  The operating system may stop
accepting bytes: `room` is how many more it takes before it fails, `none` meaning
that it does not fail.  A flush that fails keeps the unwritten part in the buffer
and a later flush writes it; a direct write that fails keeps nothing.
-/

/-- The bytes of a file and those still in the writer's buffer. -/
structure BufferedFile where
  contents : List UInt8
  buffer : List UInt8

/-- A write attempt: the file after it, the room left, and whether it succeeded. -/
structure WriteAttempt where
  file : BufferedFile
  room : Option Nat
  succeeded : Bool

namespace BufferedFile

/-- Hand bytes to the operating system, behind the file's contents. -/
def writeThrough (file : BufferedFile) (data : List UInt8) : Option Nat -> WriteAttempt
  | none => ⟨{ file with contents := file.contents ++ data }, none, true⟩
  | some room =>
      if data.length ≤ room then
        ⟨{ file with contents := file.contents ++ data }, some (room - data.length), true⟩
      else ⟨{ file with contents := file.contents ++ data.take room }, some 0, false⟩

/-- Write the buffer out.  What was not accepted stays in the buffer. -/
def flush (file : BufferedFile) (room : Option Nat) : WriteAttempt :=
  let attempt := file.writeThrough file.buffer room
  let written := attempt.file.contents.length - file.contents.length
  { attempt with file := { attempt.file with buffer := file.buffer.drop written } }

/-- `write_all` through a buffer of the given capacity. -/
def writeAll (capacity : Nat) (file : BufferedFile) (data : List UInt8) (room : Option Nat) :
    WriteAttempt :=
  if data.length < capacity - file.buffer.length then
    ⟨{ file with buffer := file.buffer ++ data }, room, true⟩
  else
    let emptied :=
      if capacity - file.buffer.length < data.length then file.flush room
      else ⟨file, room, true⟩
    if emptied.succeeded then
      if capacity ≤ data.length then emptied.file.writeThrough data emptied.room
      else ⟨{ emptied.file with buffer := emptied.file.buffer ++ data }, emptied.room, true⟩
    else emptied

/-! ## Starting from an empty buffer -/

theorem flush_unlimited (contents buffer : List UInt8) :
    flush ⟨contents, buffer⟩ none = ⟨⟨contents ++ buffer, []⟩, none, true⟩ := by
  simp [flush, writeThrough]

theorem flush_limited (contents buffer : List UInt8) (room : Nat) :
    flush ⟨contents, buffer⟩ (some room) =
      if buffer.length ≤ room then
        ⟨⟨contents ++ buffer, []⟩, some (room - buffer.length), true⟩
      else ⟨⟨contents ++ buffer.take room, buffer.drop room⟩, some 0, false⟩ := by
  by_cases enough : buffer.length ≤ room
  · simp [flush, writeThrough, enough]
  · have written : min room buffer.length = room := by omega
    simp [flush, writeThrough, enough, written]

theorem flush_empty (contents : List UInt8) (room : Option Nat) :
    flush ⟨contents, []⟩ room = ⟨⟨contents, []⟩, room, true⟩ := by
  cases room with
  | none => rw [flush_unlimited, List.append_nil]
  | some room => simp [flush_limited]

/-- A write into an empty buffer stays there, or goes straight to the file. -/
theorem writeAll_empty (capacity : Nat) (contents data : List UInt8) (room : Option Nat) :
    writeAll capacity ⟨contents, []⟩ data room =
      if data.length < capacity then ⟨⟨contents, data⟩, room, true⟩
      else writeThrough ⟨contents, []⟩ data room := by
  unfold writeAll
  simp only [List.length_nil, Nat.sub_zero, List.nil_append]
  split
  · rfl
  · rename_i large
    rw [if_pos (Nat.le_of_not_lt large)]
    split
    · rw [flush_empty, if_pos rfl]
    · rw [if_pos rfl]

/-- A write followed by a flush, from an empty buffer, when there is room. -/
theorem writeAll_flush_accepted (capacity : Nat) (contents : List UInt8) {data : List UInt8}
    {room : Option Nat} (enough : forall left, room = some left -> data.length ≤ left) :
    Exists fun written => Exists fun left =>
      writeAll capacity ⟨contents, []⟩ data room = written ∧ written.succeeded = true ∧
        written.file.flush written.room = ⟨⟨contents ++ data, []⟩, left, true⟩ := by
  rw [writeAll_empty]
  by_cases small : data.length < capacity
  · rw [if_pos small]
    cases room with
    | none => exact ⟨_, _, rfl, rfl, flush_unlimited contents data⟩
    | some left =>
        refine ⟨_, some (left - data.length), rfl, rfl, ?_⟩
        rw [flush_limited, if_pos (enough left rfl)]
  · rw [if_neg small]
    cases room with
    | none => exact ⟨_, _, rfl, rfl, flush_empty (contents ++ data) none⟩
    | some left =>
        refine ⟨_, some (left - data.length), rfl, ?_, ?_⟩
        · rw [writeThrough, if_pos (enough left rfl)]
        · rw [writeThrough, if_pos (enough left rfl)]
          exact flush_empty _ _

/-- A write followed by a flush, from an empty buffer, when the room is too
small: one of the two fails, with the front part of the data in the file. -/
theorem writeAll_flush_refused (capacity : Nat) (contents : List UInt8) {data : List UInt8}
    {room : Nat} (less : room < data.length) :
    Exists fun written =>
      writeAll capacity ⟨contents, []⟩ data (some room) = written ∧
        ((written.succeeded = false ∧ written.file = ⟨contents ++ data.take room, []⟩) ∨
          written.succeeded = true ∧
            written.file.flush written.room =
              ⟨⟨contents ++ data.take room, data.drop room⟩, some 0, false⟩) := by
  rw [writeAll_empty]
  by_cases small : data.length < capacity
  · rw [if_pos small]
    refine ⟨_, rfl, Or.inr ⟨rfl, ?_⟩⟩
    rw [flush_limited, if_neg (Nat.not_le_of_lt less)]
  · rw [if_neg small]
    refine ⟨_, rfl, Or.inl ?_⟩
    rw [writeThrough, if_neg (Nat.not_le_of_lt less)]
    exact ⟨rfl, rfl⟩

/-! ## A device that takes every byte -/

/-- The bytes of the file once the buffer is written out. -/
def all (file : BufferedFile) : List UInt8 :=
  file.contents ++ file.buffer

theorem flush_all (file : BufferedFile) : file.flush none = ⟨⟨file.all, []⟩, none, true⟩ :=
  flush_unlimited file.contents file.buffer

/-- A write comes behind all earlier ones, wherever the buffer is cut. -/
theorem writeAll_all (capacity : Nat) (file : BufferedFile) (data : List UInt8) :
    Exists fun next => writeAll capacity file data none = ⟨next, none, true⟩ ∧
      next.all = file.all ++ data := by
  unfold writeAll
  split
  · exact ⟨_, rfl, (List.append_assoc _ _ _).symm⟩
  · simp only
    split
    · rw [flush_all, if_pos rfl]
      split
      · exact ⟨_, rfl, List.append_nil _⟩
      · exact ⟨_, rfl, rfl⟩
    · rename_i fits
      rw [if_pos rfl]
      split
      · rename_i large
        -- a write of the full capacity that fits finds an empty buffer, or is empty itself
        have nothing : file.buffer.length = 0 ∨ data.length = 0 := by omega
        refine ⟨_, rfl, ?_⟩
        rcases nothing with empty | empty
        · simp [all, List.length_eq_zero_iff.mp empty]
        · simp [all, List.length_eq_zero_iff.mp empty]
      · exact ⟨_, rfl, (List.append_assoc _ _ _).symm⟩

/-! ## Writes that succeed -/

theorem writeThrough_succeeded {file : BufferedFile} {data : List UInt8} {room : Option Nat}
    (succeeds : (file.writeThrough data room).succeeded = true) :
    (file.writeThrough data room).file = { file with contents := file.contents ++ data } := by
  cases room with
  | none => rfl
  | some room =>
      by_cases enough : data.length ≤ room
      · rw [writeThrough, if_pos enough]
      · rw [writeThrough, if_neg enough] at succeeds
        cases succeeds

theorem flush_succeeded {file : BufferedFile} {room : Option Nat}
    (succeeds : (file.flush room).succeeded = true) : (file.flush room).file = ⟨file.all, []⟩ := by
  have through := writeThrough_succeeded succeeds
  simp only [flush, through, all, List.length_append, Nat.add_sub_cancel_left, List.drop_length]

/-- However much room there is, a write that succeeds comes behind all earlier ones. -/
theorem writeAll_succeeded {capacity : Nat} {file : BufferedFile} {data : List UInt8}
    {room : Option Nat} (succeeds : (file.writeAll capacity data room).succeeded = true) :
    (file.writeAll capacity data room).file.all = file.all ++ data := by
  unfold writeAll at succeeds ⊢
  split
  · exact (List.append_assoc _ _ _).symm
  · rename_i overfull
    rw [if_neg overfull] at succeeds
    simp only at succeeds ⊢
    by_cases larger : capacity - file.buffer.length < data.length
    · rw [if_pos larger] at succeeds ⊢
      by_cases flushed : (file.flush room).succeeded = true
      · rw [if_pos flushed] at succeeds ⊢
        split
        · rename_i large
          rw [if_pos large] at succeeds
          rw [writeThrough_succeeded succeeds, flush_succeeded flushed]
          exact List.append_nil _
        · rw [flush_succeeded flushed]
          rfl
      · rw [if_neg flushed] at succeeds
        exact absurd succeeds flushed
    · rw [if_neg larger] at succeeds ⊢
      rw [if_pos rfl] at succeeds ⊢
      split
      · rename_i large
        rw [if_pos large] at succeeds
        rw [writeThrough_succeeded succeeds]
        -- as above, the buffer is empty or there is nothing to write
        have nothing : file.buffer.length = 0 ∨ data.length = 0 := by omega
        rcases nothing with empty | empty
        · simp [all, List.length_eq_zero_iff.mp empty]
        · simp [all, List.length_eq_zero_iff.mp empty]
      · exact (List.append_assoc _ _ _).symm

end BufferedFile
end Foundation
end NovaDb
