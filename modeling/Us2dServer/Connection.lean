import Us2dServer.MemoryPool
import Us2dServer.PacketHeader

/-!
# One connection

The two completion handlers of `connection`, each up to the call that leaves the connection.
`asyncReadHeaderHandler` is the lambda of `async_read_header` up to `rent`, `headerRented` the
rest of it once `rent` has returned, `asyncReadPayloadHandler` the lambda of
`async_read_payload` up to its `enqueue`; `Outcome` says which call that is.  The transport
fills the buffer of the outstanding read by `receive`.
-/

namespace Us2d

open ByteStore

/-- The `error_code`s that the code tells apart; `other` is any further one (end of file,
connection reset, no buffers, ...). -/
inductive ErrorCode
  | operationAborted
  | connectionAborted
  | other (value : Nat)
deriving DecidableEq, Repr

/-- `net::packet::packet_request`. -/
structure PacketRequest where
  sessionId : UInt32
  packetId : UInt16
  packetOwner : SharedPtr
deriving DecidableEq, Repr

/-- A request as the dispatcher sees it: session, packet id, and the bytes of the frame. -/
abbrev Frame := UInt32 × UInt16 × List UInt8

/-- An outstanding `boost::asio::async_read` of the connection, with the bytes it has got.
The read of a payload captures `packet_owner`. -/
inductive AsyncRead
  | header (got : Nat)
  | payload (packetOwner : SharedPtr) (payloadSize : UInt16) (got : Nat)
deriving DecidableEq, Repr

/-- The size of the buffer passed to `async_read`. -/
def AsyncRead.length : AsyncRead → Nat
  | .header _ => sizeofPacketHeader
  | .payload _ payloadSize _ => payloadSize.toNat

def AsyncRead.got : AsyncRead → Nat
  | .header got => got
  | .payload _ _ got => got

structure Connection where
  isRunning : Bool
  /-- `socket.is_open()` -/
  socketOpen : Bool
  connectionId : UInt32
  headerReadBuffer : Buffer
  /-- the outstanding read -/
  read : Option AsyncRead
  /-- reads started whose handler has not been called -/
  outstanding : Nat

/-- The call that ends the part of a handler. -/
inductive Outcome
  | returned
  | disconnected (id : UInt32)
  | rent (size : Nat)
  | enqueue (request : PacketRequest)
deriving DecidableEq, Repr

/-- The bytes of the blocks, by block. -/
abbrev Memory := Nat → Buffer

/-- Write into a block. -/
def Memory.write (m : Memory) (b off : Nat) (bs : List UInt8) : Memory :=
  Function.update m b (store (m b) off bs)

/-- `CHECK_READ_ERROR`. -/
def checkReadError {α : Type} (err : Option ErrorCode) (onOperationAborted onConnAborted onError : α)
    (otherwise : α) : α :=
  match err with
  | some .operationAborted => onOperationAborted
  | some .connectionAborted => onConnAborted
  | some (.other _) => onError
  | none => otherwise

namespace Connection

def new (connectionId : UInt32) : Connection where
  isRunning := false
  socketOpen := true
  connectionId := connectionId
  headerReadBuffer := fun _ => 0
  read := none
  outstanding := 0

def close (c : Connection) : Connection := { c with socketOpen := false }

def stop (c : Connection) : Connection := { c with isRunning := false }

def asyncReadHeader (c : Connection) : Connection :=
  { c with read := some (.header 0), outstanding := c.outstanding + 1 }

def asyncReadPayload (packetOwner : SharedPtr) (payloadSize : UInt16) (c : Connection) : Connection :=
  { c with read := some (.payload packetOwner payloadSize 0), outstanding := c.outstanding + 1 }

def start (c : Connection) : Connection := asyncReadHeader { c with isRunning := true }

/-- The common body of the three error handlers. -/
def endReading (c : Connection) : Connection × Outcome :=
  (c.stop.close, .disconnected c.connectionId)

def onOperationAborted (c : Connection) : Connection × Outcome := c.endReading

def onConnectionAborted (c : Connection) : Connection × Outcome := c.endReading

def onReadError (c : Connection) : Connection × Outcome := c.endReading

/-- The outstanding read is over: its handler is called. -/
def completed (c : Connection) : Connection :=
  { c with read := none, outstanding := c.outstanding - 1 }

/-- `sizeof(packet_header) + payload_size` of the header in the buffer. -/
def rentSize (c : Connection) : Nat :=
  sizeofPacketHeader + (PacketHeader.payloadSize c.headerReadBuffer).toNat

def asyncReadHeaderHandler (error : Option ErrorCode) (c : Connection) : Connection × Outcome :=
  let c := c.completed
  checkReadError error c.onOperationAborted c.onConnectionAborted c.onReadError <|
    if !c.isRunning then (c, .returned)
    else (c, .rent c.rentSize)

/-- The rest of the header handler; `packetOwner` is what `rent` has returned. -/
def headerRented (packetOwner : Option SharedPtr) (c : Connection) (m : Memory) :
    Connection × Memory × Outcome :=
  match packetOwner with
  | none => (c.stop, m, .disconnected c.connectionId)
  | some owner =>
    (c.asyncReadPayload owner (PacketHeader.payloadSize c.headerReadBuffer),
      m.write owner.ptr 0 (slice c.headerReadBuffer 0 sizeofPacketHeader), .returned)

def asyncReadPayloadHandler (packetOwner : SharedPtr) (error : Option ErrorCode) (c : Connection)
    (m : Memory) : Connection × Outcome :=
  let c := c.completed
  checkReadError error c.onOperationAborted c.onConnectionAborted c.onReadError <|
    if !c.isRunning then (c, .returned)
    else (c, .enqueue ⟨c.connectionId, PacketHeader.typeId (m packetOwner.ptr), packetOwner⟩)

/-- The transport stores received bytes at the end of what the outstanding read has got. -/
def receive (bs : List UInt8) (c : Connection) (m : Memory) : Connection × Memory :=
  match c.read with
  | none => (c, m)
  | some (.header got) =>
    ({ c with headerReadBuffer := store c.headerReadBuffer got bs,
              read := some (.header (got + bs.length)) }, m)
  | some (.payload owner n got) =>
    ({ c with read := some (.payload owner n (got + bs.length)) },
      m.write owner.ptr (sizeofPacketHeader + got) bs)

/-! ## The ways through a handler -/

variable {c : Connection} {owner : SharedPtr} {m : Memory}

theorem asyncReadHeaderHandler_error (e : ErrorCode) :
    c.asyncReadHeaderHandler (some e) = (c.completed.stop.close, .disconnected c.connectionId) := by
  cases e <;> rfl

theorem asyncReadPayloadHandler_error (e : ErrorCode) :
    c.asyncReadPayloadHandler owner (some e) m =
      (c.completed.stop.close, .disconnected c.connectionId) := by
  cases e <;> rfl

theorem asyncReadHeaderHandler_running (h : c.isRunning = true) :
    c.asyncReadHeaderHandler none = (c.completed, .rent c.rentSize) := by
  have hc : c.completed.isRunning = true := h
  simp only [asyncReadHeaderHandler, checkReadError, hc, Bool.not_true, Bool.false_eq_true, if_false]
  rfl

theorem asyncReadPayloadHandler_running (h : c.isRunning = true) :
    c.asyncReadPayloadHandler owner none m =
      (c.completed, .enqueue ⟨c.connectionId, PacketHeader.typeId (m owner.ptr), owner⟩) := by
  have hc : c.completed.isRunning = true := h
  simp only [asyncReadPayloadHandler, checkReadError, hc, Bool.not_true, Bool.false_eq_true, if_false]
  rfl

end Connection

end Us2d
