import Mathlib

namespace NovaDb
namespace Foundation

/-!
# Decoding a stream that arrives in chunks

A frame decoder works on the front of a buffer.  It waits for more input, fails,
or returns an item and takes it off the buffer.  Once it has decided, more input
behind the buffer does not change the decision; that is all it takes for the
result of a stream to be independent of the chunks in which it arrives.
-/

/-- A decoder whose decisions are final.  A call answers a result and the buffer
it leaves. -/
structure FrameDecoder (E B A : Type) where
  decode : List B -> Except E (Option A) × List B
  decode_nil : decode [] = (.ok none, [])
  shrinks : forall {buffer item left}, decode buffer = (.ok (some item), left) ->
    left.length < buffer.length
  waits : forall {buffer left}, decode buffer = (.ok none, left) -> left = buffer
  final_item : forall {buffer item left}, decode buffer = (.ok (some item), left) ->
    forall more, decode (buffer ++ more) = (.ok (some item), left ++ more)
  final_error : forall {buffer failure left}, decode buffer = (.error failure, left) ->
    forall more, decode (buffer ++ more) = (.error failure, left ++ more)

/-- What a stream has given so far: its items, and then either the symbols not
yet decoded or the first error. -/
structure Received (E B A : Type) where
  items : List A
  ending : Except E (List B)

namespace FrameDecoder

variable {E B A : Type} (decoder : FrameDecoder E B A)

/-- Decode until the decoder waits or fails. -/
def drain (buffer : List B) : Received E B A :=
  match decoded : decoder.decode buffer with
  | (.ok (some item), left) =>
      have := decoder.shrinks decoded
      let behind := drain left
      ⟨item :: behind.items, behind.ending⟩
  | (.ok none, left) => ⟨[], .ok left⟩
  | (.error failure, _) => ⟨[], .error failure⟩
termination_by buffer.length

/-- A chunk arrives.  Nothing is read after an error. -/
def receive (received : Received E B A) (chunk : List B) : Received E B A :=
  match received.ending with
  | .error _ => received
  | .ok buffer =>
      let behind := decoder.drain (buffer ++ chunk)
      ⟨received.items ++ behind.items, behind.ending⟩

/-- A stream fed chunk by chunk. -/
def feed (chunks : List (List B)) : Received E B A :=
  chunks.foldl decoder.receive ⟨[], .ok []⟩

variable {decoder}

theorem drain_item {buffer left : List B} {item : A}
    (decoded : decoder.decode buffer = (.ok (some item), left)) :
    decoder.drain buffer = ⟨item :: (decoder.drain left).items, (decoder.drain left).ending⟩ := by
  rw [drain]
  split
  · rename_i same
    cases decoded.symm.trans same
    rfl
  · rename_i same
    cases decoded.symm.trans same
  · rename_i same
    cases decoded.symm.trans same

theorem drain_wait {buffer left : List B} (decoded : decoder.decode buffer = (.ok none, left)) :
    decoder.drain buffer = ⟨[], .ok buffer⟩ := by
  rw [drain]
  split
  · rename_i same
    cases decoded.symm.trans same
  · rename_i same
    rw [decoder.waits same]
  · rename_i same
    cases decoded.symm.trans same

theorem drain_error {buffer left : List B} {failure : E}
    (decoded : decoder.decode buffer = (.error failure, left)) :
    decoder.drain buffer = ⟨[], .error failure⟩ := by
  rw [drain]
  split
  · rename_i same
    cases decoded.symm.trans same
  · rename_i same
    cases decoded.symm.trans same
  · rename_i same
    cases decoded.symm.trans same
    rfl

variable (decoder) in
/-- Induction along the items of a buffer. -/
theorem drain_induction {motive : List B -> Prop}
    (item : forall buffer item left, decoder.decode buffer = (.ok (some item), left) ->
      motive left -> motive buffer)
    (wait : forall buffer left, decoder.decode buffer = (.ok none, left) -> motive buffer)
    (error : forall buffer failure left, decoder.decode buffer = (.error failure, left) ->
      motive buffer)
    (buffer : List B) : motive buffer := by
  induction size : buffer.length using Nat.strongRecOn generalizing buffer with
  | ind length ih =>
      cases decoded : decoder.decode buffer with
      | mk result left =>
          cases result with
          | error failure => exact error buffer failure left decoded
          | ok result =>
              cases result with
              | none => exact wait buffer left decoded
              | some first =>
                  apply item buffer first left decoded
                  apply ih left.length _ left rfl
                  rw [← size]
                  exact decoder.shrinks decoded

/-- Draining a longer buffer is draining the front and then what is left of it. -/
theorem drain_append (buffer more : List B) :
    decoder.drain (buffer ++ more) = decoder.receive (decoder.drain buffer) more := by
  induction buffer using drain_induction decoder with
  | item buffer first left decoded ih =>
      rw [drain_item (decoder.final_item decoded more), drain_item decoded, ih]
      generalize decoder.drain left = behind
      rcases behind with ⟨items, ending⟩
      cases ending <;> rfl
  | wait buffer left decoded =>
      rw [drain_wait decoded]
      rfl
  | error buffer failure left decoded =>
      rw [drain_error (decoder.final_error decoded more), drain_error decoded]
      rfl

/-- The chunks in which a stream arrives do not matter. -/
theorem feed_eq_drain (chunks : List (List B)) :
    decoder.feed chunks = decoder.drain chunks.flatten := by
  have later : forall (buffer : List B),
      chunks.foldl decoder.receive (decoder.drain buffer) = decoder.drain (buffer ++ chunks.flatten) := by
    induction chunks with
    | nil =>
        intro buffer
        rw [List.flatten_nil, List.append_nil]
        rfl
    | cons chunk rest ih =>
        intro buffer
        rw [List.foldl_cons, ← drain_append, ih, List.flatten_cons, List.append_assoc]
  rw [feed, ← drain_wait decoder.decode_nil, later, List.nil_append]

end FrameDecoder
end Foundation
end NovaDb
