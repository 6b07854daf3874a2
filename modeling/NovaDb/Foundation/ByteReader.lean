import Mathlib

namespace NovaDb
namespace Foundation

/-!
# Sequential byte readers and their behaviour on a cut input

A reader takes a front part of a byte string and returns a value, or fails.
Decoders of length-prefixed formats are sequences of such readers.  Two facts
about a decoder matter to a log: on a complete encoding followed by anything
it consumes exactly the encoding, and on a strictly shorter front part of the
encoding it fails in one recognisable way.  `Consumes` states the two together,
because they are proved together: both are closed under sequencing.
-/

/-- A reader over a byte string with errors in `ε`. -/
abbrev Reader (ε α : Type) := StateT (List UInt8) (Except ε) α

namespace Reader

variable {ε α β : Type}

/-- Take exactly `count` bytes, or fail with `eof` when fewer are left. -/
def exact (count : Nat) (eof : ε) : Reader ε (List UInt8) :=
  fun bytes =>
    if count ≤ bytes.length then .ok (bytes.take count, bytes.drop count) else .error eof

/-- A test on data already read.  It consumes nothing. -/
def check (outcome : Except ε α) : Reader ε α :=
  fun bytes => outcome.map (fun value => (value, bytes))

theorem bind_apply (reader : Reader ε α) (next : α -> Reader ε β) (bytes : List UInt8) :
    (reader >>= next) bytes =
      match reader bytes with
      | .ok (value, rest) => next value rest
      | .error failure => .error failure := by
  change (reader bytes >>= fun (value, rest) => next value rest) = _
  cases reader bytes <;> rfl

/-! ## What a reader that succeeds has taken -/

theorem exact_eq_ok {count : Nat} {eof : ε} {bytes taken rest : List UInt8}
    (ran : exact count eof bytes = .ok (taken, rest)) :
    bytes = taken ++ rest ∧ taken.length = count := by
  unfold exact at ran
  split at ran
  · rename_i enough
    cases ran
    exact ⟨(List.take_append_drop count bytes).symm, List.length_take_of_le enough⟩
  · cases ran

theorem check_eq_ok {outcome : Except ε α} {value : α} {bytes rest : List UInt8}
    (ran : check outcome bytes = .ok (value, rest)) : outcome = .ok value ∧ bytes = rest := by
  cases outcome with
  | error failure => cases ran
  | ok found =>
      cases ran
      exact ⟨rfl, rfl⟩

theorem bind_eq_ok {first : Reader ε α} {next : α -> Reader ε β} {value : β}
    {bytes rest : List UInt8} (ran : (first >>= next) bytes = .ok (value, rest)) :
    Exists fun middle => Exists fun left =>
      first bytes = .ok (middle, left) ∧ next middle left = .ok (value, rest) := by
  rw [bind_apply] at ran
  split at ran
  · rename_i middle left firstRan
    exact ⟨middle, left, firstRan, ran⟩
  · cases ran

/-- The reader consumes exactly `input` and returns `value`, whatever follows
`input`; and every strictly shorter front part of `input` ends in a failure
recognised by `torn`. -/
structure Consumes (torn : ε -> Prop) (reader : Reader ε α) (input : List UInt8)
    (value : α) : Prop where
  run : forall rest, reader (input ++ rest) = .ok (value, rest)
  cut : forall front, front <+: input -> front ≠ input ->
    Exists fun failure => reader front = .error failure ∧ torn failure

variable {torn : ε -> Prop}

theorem Consumes.pure (value : α) : Consumes torn (Pure.pure value : Reader ε α) [] value where
  run _ := rfl
  cut _ isFront different := absurd (List.prefix_nil.mp isFront) different

theorem Consumes.exact {eof : ε} (recognised : torn eof) (input : List UInt8)
    {count : Nat} (size : input.length = count) :
    Consumes torn (Reader.exact count eof) input input where
  run rest := by
    have enough : count ≤ (input ++ rest).length := by
      rw [List.length_append, size]
      exact Nat.le_add_right _ _
    rw [Reader.exact, if_pos enough, List.take_left' size, List.drop_left' size]
  cut front isFront different := by
    have shorter : front.length < count := by
      rw [← size]
      exact lt_of_le_of_ne isFront.length_le (fun same => different (isFront.eq_of_length same))
    exact ⟨eof, by simp only [Reader.exact, if_neg (Nat.not_le_of_lt shorter)], recognised⟩

/-- Sequencing.  A cut falls either inside the first reader's input, which
already fails, or behind it, where the second reader fails. -/
theorem Consumes.bind {first : Reader ε α} {next : α -> Reader ε β}
    {left right : List UInt8} {middle : α} {final : β}
    (head : Consumes torn first left middle) (tail : Consumes torn (next middle) right final) :
    Consumes torn (first >>= next) (left ++ right) final where
  run rest := by
    rw [bind_apply, List.append_assoc, head.run]
    exact tail.run rest
  cut front isFront different := by
    rw [bind_apply]
    rcases List.prefix_or_prefix_of_prefix isFront (List.prefix_append left right) with
      inside | ⟨behind, rfl⟩
    · by_cases whole : front = left
      · subst whole
        have shortened : ([] : List UInt8) ≠ right := by
          intro none
          exact different (by rw [← none, List.append_nil])
        rcases tail.cut [] List.nil_prefix shortened with ⟨failure, failed, recognised⟩
        have ran := head.run []
        rw [List.append_nil] at ran
        exact ⟨failure, by rw [ran]; exact failed, recognised⟩
      · rcases head.cut front inside whole with ⟨failure, failed, recognised⟩
        exact ⟨failure, by rw [failed], recognised⟩
    · have behindFront : behind <+: right := (List.prefix_append_right_inj left).mp isFront
      have behindDifferent : behind ≠ right := by
        intro same
        exact different (by rw [same])
      rcases tail.cut behind behindFront behindDifferent with ⟨failure, failed, recognised⟩
      exact ⟨failure, by rw [head.run]; exact failed, recognised⟩

/-- A check that passes does not change what is consumed. -/
theorem Consumes.checkBind {outcome : Except ε α} {next : α -> Reader ε β} {value : α}
    {input : List UInt8} {final : β} (passes : outcome = .ok value)
    (tail : Consumes torn (next value) input final) :
    Consumes torn (Reader.check outcome >>= next) input final := by
  rw [passes]
  exact ⟨tail.run, tail.cut⟩

/-- Sequencing with a second reader that only checks. -/
theorem Consumes.bindNothing {first : Reader ε α} {next : α -> Reader ε β}
    {input : List UInt8} {middle : α} {final : β}
    (head : Consumes torn first input middle) (tail : Consumes torn (next middle) [] final) :
    Consumes torn (first >>= next) input final := by
  have both := head.bind tail
  rwa [List.append_nil] at both

/-! ## Which inputs a reader fails on -/

/-- The reader fails in a recognised way. -/
def Fails (torn : ε -> Prop) (reader : Reader ε α) (bytes : List UInt8) : Prop :=
  Exists fun failure => reader bytes = .error failure ∧ torn failure

/-- A failure of a sequence is one of its first or of its second reader. -/
theorem fails_bind {first : Reader ε α} {next : α -> Reader ε β} {bytes : List UInt8} :
    Fails torn (first >>= next) bytes <->
      Fails torn first bytes ∨ Exists fun value => Exists fun rest =>
        first bytes = .ok (value, rest) ∧ Fails torn (next value) rest := by
  unfold Fails
  rw [bind_apply]
  cases first bytes with
  | error failure =>
      constructor
      · rintro ⟨found, failed, recognised⟩
        cases failed
        exact Or.inl ⟨failure, rfl, recognised⟩
      · rintro (⟨found, failed, recognised⟩ | ⟨value, rest, ran, _⟩)
        · cases failed
          exact ⟨failure, rfl, recognised⟩
        · cases ran
  | ok result =>
      rcases result with ⟨value, rest⟩
      constructor
      · intro failed
        exact Or.inr ⟨value, rest, rfl, failed⟩
      · rintro (⟨failure, failed, _⟩ | ⟨_, _, ran, failed⟩)
        · cases failed
        · cases ran
          exact failed

theorem fails_exact {eof : ε} (recognised : torn eof) {count : Nat} {bytes : List UInt8} :
    Fails torn (exact count eof) bytes <-> bytes.length < count := by
  unfold Fails exact
  split
  · rename_i enough
    refine iff_of_false ?_ (Nat.not_lt_of_le enough)
    rintro ⟨failure, failed, _⟩
    cases failed
  · rename_i short
    exact iff_of_true ⟨eof, rfl, recognised⟩ (Nat.lt_of_not_le short)

theorem fails_check {outcome : Except ε α} {bytes : List UInt8} :
    Fails torn (check outcome) bytes <->
      Exists fun failure => outcome = .error failure ∧ torn failure := by
  unfold Fails check
  cases outcome with
  | error failure =>
      constructor
      · rintro ⟨found, failed, recognised⟩
        cases failed
        exact ⟨failure, rfl, recognised⟩
      · rintro ⟨found, failed, recognised⟩
        cases failed
        exact ⟨failure, rfl, recognised⟩
  | ok value =>
      refine iff_of_false ?_ ?_
      · rintro ⟨failure, failed, _⟩
        cases failed
      · rintro ⟨failure, failed, _⟩
        cases failed

theorem not_fails_pure {value : α} {bytes : List UInt8} :
    ¬Fails torn (Pure.pure value : Reader ε α) bytes := by
  rintro ⟨failure, failed, _⟩
  cases failed

theorem exact_of_le {count : Nat} {eof : ε} {bytes : List UInt8} (enough : count ≤ bytes.length) :
    exact count eof bytes = .ok (bytes.take count, bytes.drop count) :=
  if_pos enough

/-- An exact read fails for want of bytes, or what comes behind it fails. -/
theorem fails_exact_bind {eof : ε} (recognised : torn eof) {count : Nat}
    {next : List UInt8 -> Reader ε β} {bytes : List UInt8} :
    Fails torn (exact count eof >>= next) bytes <->
      bytes.length < count ∨
        count ≤ bytes.length ∧ Fails torn (next (bytes.take count)) (bytes.drop count) := by
  rw [fails_bind, fails_exact recognised]
  refine or_congr_right ?_
  constructor
  · rintro ⟨taken, rest, ran, failed⟩
    rcases exact_eq_ok ran with ⟨rfl, size⟩
    rw [List.take_left' size, List.drop_left' size, List.length_append, size]
    exact ⟨Nat.le_add_right _ _, failed⟩
  · rintro ⟨enough, failed⟩
    exact ⟨_, _, exact_of_le enough, failed⟩

/-- A check whose own failure is another one lets through what fails behind it. -/
theorem fails_check_bind {outcome : Except ε α}
    (other : forall failure, outcome = .error failure -> ¬torn failure)
    {next : α -> Reader ε β} {bytes : List UInt8} :
    Fails torn (check outcome >>= next) bytes <->
      Exists fun value => outcome = .ok value ∧ Fails torn (next value) bytes := by
  rw [fails_bind, fails_check]
  constructor
  · rintro (⟨failure, failed, recognised⟩ | ⟨value, rest, ran, failed⟩)
    · exact absurd recognised (other failure failed)
    · rcases check_eq_ok ran with ⟨accepted, rfl⟩
      exact ⟨value, accepted, failed⟩
  · rintro ⟨value, rfl, failed⟩
    exact Or.inr ⟨value, bytes, rfl, failed⟩

/-! ## What a reader returns depends on what it takes -/

/-- A reader never invents bytes: what it leaves is a back part of what it got. -/
def Shrinks (reader : Reader ε α) : Prop :=
  forall bytes value rest, reader bytes = .ok (value, rest) -> rest <:+ bytes

/-- A reader that succeeds takes a front part, whatever follows it. -/
def Local (reader : Reader ε α) : Prop :=
  forall bytes value rest, reader bytes = .ok (value, rest) ->
    Exists fun front => bytes = front ++ rest ∧
      forall other, reader (front ++ other) = .ok (value, other)

theorem Local.shrinks {reader : Reader ε α} (isLocal : Local reader) : Shrinks reader := by
  intro bytes value rest ran
  rcases isLocal bytes value rest ran with ⟨front, rfl, _⟩
  exact List.suffix_append front rest

theorem Local.pure (value : α) : Local (Pure.pure value : Reader ε α) := by
  intro bytes found rest ran
  cases ran
  exact ⟨[], rfl, fun _ => rfl⟩

theorem Local.check (outcome : Except ε α) : Local (Reader.check outcome) := by
  intro bytes found rest ran
  cases outcome with
  | error failure => cases ran
  | ok value =>
      cases ran
      exact ⟨[], rfl, fun _ => rfl⟩

theorem Local.exact (count : Nat) (eof : ε) : Local (Reader.exact count eof) := by
  intro bytes found rest ran
  unfold Reader.exact at ran
  split at ran
  · rename_i enough
    cases ran
    have length : (bytes.take count).length = count := List.length_take_of_le enough
    refine ⟨bytes.take count, (List.take_append_drop count bytes).symm, ?_⟩
    intro other
    have stillEnough : count ≤ (bytes.take count ++ other).length := by
      rw [List.length_append, length]
      exact Nat.le_add_right _ _
    rw [Reader.exact, if_pos stillEnough, List.take_left' length, List.drop_left' length]
  · cases ran

theorem Local.bind {first : Reader ε α} {next : α -> Reader ε β}
    (head : Local first) (tail : forall value, Local (next value)) :
    Local (first >>= next) := by
  intro bytes found rest ran
  rw [bind_apply] at ran
  split at ran
  · rename_i value middle firstRan
    rcases head bytes value middle firstRan with ⟨front, rfl, again⟩
    rcases tail value middle found rest ran with ⟨back, rfl, onceMore⟩
    refine ⟨front ++ back, (List.append_assoc _ _ _).symm, ?_⟩
    intro other
    rw [List.append_assoc, bind_apply, again]
    exact onceMore other
  · cases ran

end Reader
end Foundation
end NovaDb
