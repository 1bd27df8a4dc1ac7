import Us2dServer.Connection

/-!
# The packet dispatcher

`packet_dispatcher` maps a packet id to a handler.  A handler registered by
`register_typed_handler` runs a FlatBuffers `Verifier` over the payload in the block and calls
the handler function only if the buffer is accepted; `GetRoot` of a verified buffer is not
null.  Here what a verifier accepts is any test of the payload; the tests for the tables of
`net::protocol` are in `Protocol`.
-/

namespace Us2d

open ByteStore

/-- What `register_typed_handler` captures: the handler function, by number, and the test of
`VerifyBuffer<packet_type>`. -/
structure TypedHandler where
  handlerFunc : Nat
  verifyBuffer : List UInt8 → Bool

/-- `get_handlers()`. -/
abbrev Handlers := UInt16 → Option TypedHandler

/-- `packet_dispatcher::map`. -/
def Handlers.map (packetId : UInt16) (handler : TypedHandler) (handlers : Handlers) : Handlers :=
  Function.update handlers packetId (some handler)

/-- `flatbuffers::Verifier verifier(buf, size)`: the range it may read, within a block. -/
structure Verifier where
  block : Nat
  offset : Nat
  size : Nat
deriving DecidableEq, Repr

/-- The verifier that a typed handler makes for a request. -/
def verifier (m : Memory) (request : PacketRequest) : Verifier where
  block := request.packetOwner.ptr
  offset := sizeofPacketHeader
  size := (PacketHeader.payloadSize (m request.packetOwner.ptr)).toNat

/-- The bytes in the range. -/
def Verifier.bytes (v : Verifier) (m : Memory) : List UInt8 := slice (m v.block) v.offset v.size

/-- The packet in the block of a request: the header and as much payload as it says. -/
def packetBytes (m : Memory) (request : PacketRequest) : List UInt8 :=
  slice (m request.packetOwner.ptr) 0
    (sizeofPacketHeader + (PacketHeader.payloadSize (m request.packetOwner.ptr)).toNat)

/-- The lambda of `register_typed_handler`: the handler function that gets called. -/
def TypedHandler.invoke (h : TypedHandler) (m : Memory) (request : PacketRequest) : Option Nat :=
  if !h.verifyBuffer ((verifier m request).bytes m) then none
  else some h.handlerFunc

/-- `packet_dispatcher::dispatch`: the handler function that gets called. -/
def dispatch (handlers : Handlers) (m : Memory) (request : PacketRequest) : Option Nat :=
  match handlers request.packetId with
  | some h => h.invoke m request
  | none => none

/-- `max_packet_dispatch_threshold`. -/
def maxPacketDispatchThreshold : Nat := 1024

/-- What must be called for a frame: the handler of its `type_id`, if there is one and its
verifier accepts the payload. -/
def handlerOf (handlers : Handlers) (frame : List UInt8) : Option Nat :=
  ((handlers (u16At frame 2)).filter fun h => h.verifyBuffer (frame.drop 20)).map
    TypedHandler.handlerFunc

/-- What the verifier is given of a block that holds a whole frame. -/
theorem verifier_bytes {m : Memory} {request : PacketRequest} {frame : List UInt8}
    (hblock : packetBytes m request = frame) : (verifier m request).bytes m = frame.drop 20 := by
  rw [← hblock, packetBytes, PacketHeader.sizeof_eq, slice_add,
    List.drop_append_of_le_length (by simp)]
  simp [Verifier.bytes, verifier, PacketHeader.sizeof_eq]

/-- On a block that holds a whole frame `dispatch` does that. -/
theorem dispatch_eq_handlerOf {handlers : Handlers} {m : Memory} {request : PacketRequest}
    {frame : List UInt8}
    (hid : request.packetId = u16At frame 2) (hblock : packetBytes m request = frame) :
    dispatch handlers m request = handlerOf handlers frame := by
  unfold dispatch handlerOf TypedHandler.invoke
  rw [hid, verifier_bytes hblock]
  cases handlers (u16At frame 2) with
  | none => rfl
  | some h => by_cases hv : h.verifyBuffer (frame.drop 20) <;> simp [hv]

end Us2d
