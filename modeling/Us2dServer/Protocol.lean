import Us2dServer.FlatBuffers
import Us2dServer.ServerPackets

/-!
# The payloads of `net::protocol` and where they lie in memory

The tables that `flatc` has generated, with their accessors, and the handlers that
`register_typed_handler` makes for them.  A block starts at a multiple of 64 and its payload 20
bytes after that, while a verifier measures alignment from the start of the payload: what it
accepts is aligned in memory for sizes up to four, and never for eight.

    an accepted payload is read at aligned addresses
      ↔  no field of eight bytes is present in it                       (aligned_iff)
-/

namespace Us2d

namespace Protocol

open FlatBuffers Reads

/-! ## The tables -/

namespace Transform

def vtPositionX : Nat := 4
def vtPositionY : Nat := 6
def vtPositionZ : Nat := 8

variable (buf : List UInt8) (transform : Nat)

def positionX : Reads Nat := Table.getField buf transform .float vtPositionX 0

def positionY : Reads Nat := Table.getField buf transform .float vtPositionY 0

def positionZ : Reads Nat := Table.getField buf transform .float vtPositionZ 0

def reads : List Read :=
  (positionX buf transform).reads ++ (positionY buf transform).reads ++ (positionZ buf transform).reads

def type : TableType where
  fields := .field vtPositionX .float 4 <| .field vtPositionY .float 4 <|
    .field vtPositionZ .float 4 .endTable
  wellFormed := by decide

theorem access_reads : (type.fields.access buf transform).reads = reads buf transform := by
  simp [type, Schema.access, reads, positionX, positionY, positionZ]

end Transform

namespace Instantiate

def vtObjectId : Nat := 4
def vtPrefabId : Nat := 6
def vtObjectTransform : Nat := 8

variable (buf : List UInt8) (instantiate : Nat)

def objectId : Reads Nat := Table.getField buf instantiate .uint64 vtObjectId 0

def prefabId : Reads Nat := Table.getField buf instantiate .int32 vtPrefabId 0

def objectTransform : Reads (Option Nat) := Table.getPointer buf instantiate vtObjectTransform

def reads : List Read :=
  (objectId buf instantiate).reads ++ (prefabId buf instantiate).reads ++
    (objectTransform buf instantiate).reads ++
      (objectTransform buf instantiate).value.elim [] (Transform.reads buf)

def type : TableType where
  fields := .field vtObjectId .uint64 8 <| .field vtPrefabId .int32 4 <|
    .table vtObjectTransform Transform.type.fields .endTable
  wellFormed := by decide

theorem access_reads : (type.fields.access buf instantiate).reads = reads buf instantiate := by
  simp [type, Schema.access, reads, objectId, prefabId, objectTransform, follow_reads,
    Transform.access_reads]

end Instantiate

namespace Chat

def vtTypeId : Nat := 4
def vtUserId : Nat := 6
def vtContent : Nat := 8
def vtTimestamp : Nat := 10

variable (buf : List UInt8) (chat : Nat)

def typeId : Reads Nat := Table.getField buf chat .int8 vtTypeId 0

def userId : Reads Nat := Table.getField buf chat .uint64 vtUserId 0

def content : Reads (Option Nat) := Table.getPointer buf chat vtContent

def timestamp : Reads Nat := Table.getField buf chat .int64 vtTimestamp 0

def reads : List Read :=
  (typeId buf chat).reads ++ (userId buf chat).reads ++ (content buf chat).reads ++
    (content buf chat).value.elim [] (fun str => (readString buf str).reads) ++
      (timestamp buf chat).reads

def type : TableType where
  fields := .field vtTypeId .int8 1 <| .field vtUserId .uint64 8 <| .string vtContent <|
    .field vtTimestamp .int64 8 .endTable
  wellFormed := by decide

theorem access_reads : (type.fields.access buf chat).reads = reads buf chat := by
  simp [type, Schema.access, reads, typeId, userId, content, timestamp, follow_reads]

end Chat

namespace MousePoint

def vtPositionX : Nat := 4
def vtPositionY : Nat := 6

variable (buf : List UInt8) (mousePoint : Nat)

def positionX : Reads Nat := Table.getField buf mousePoint .float vtPositionX 0

def positionY : Reads Nat := Table.getField buf mousePoint .float vtPositionY 0

def reads : List Read := (positionX buf mousePoint).reads ++ (positionY buf mousePoint).reads

def type : TableType where
  fields := .field vtPositionX .float 4 <| .field vtPositionY .float 4 .endTable
  wellFormed := by decide

theorem access_reads : (type.fields.access buf mousePoint).reads = reads buf mousePoint := by
  simp [type, Schema.access, reads, positionX, positionY]

end MousePoint

namespace Attack

def vtObjectId : Nat := 4
def vtDamage : Nat := 6

variable (buf : List UInt8) (attack : Nat)

def objectId : Reads Nat := Table.getField buf attack .uint64 vtObjectId 0

def damage : Reads Nat := Table.getField buf attack .int32 vtDamage 0

def reads : List Read := (objectId buf attack).reads ++ (damage buf attack).reads

def type : TableType where
  fields := .field vtObjectId .uint64 8 <| .field vtDamage .int32 4 .endTable
  wellFormed := by decide

theorem access_reads : (type.fields.access buf attack).reads = reads buf attack := by
  simp [type, Schema.access, reads, objectId, damage]

end Attack

namespace ShowServerStats

def vtIsRunning : Nat := 4

variable (buf : List UInt8) (showServerStats : Nat)

def isRunning : Reads Bool := do
  let isRunning ← Table.getField buf showServerStats .uint8 vtIsRunning 0
  return isRunning ≠ 0

def reads : List Read := (isRunning buf showServerStats).reads

def type : TableType where
  fields := .field vtIsRunning .uint8 1 .endTable
  wellFormed := by decide

theorem access_reads :
    (type.fields.access buf showServerStats).reads = reads buf showServerStats := by
  simp [type, Schema.access, reads, isRunning]

end ShowServerStats

/-- `packet_payload` without `NONE`: what a handler can be registered for. -/
inductive PacketPayload
  | showServerStats | transform | instantiate | chat | mousePoint | attack
deriving DecidableEq, Repr

namespace PacketPayload

def tableType : PacketPayload → TableType
  | .showServerStats => ShowServerStats.type
  | .transform => Transform.type
  | .instantiate => Instantiate.type
  | .chat => Chat.type
  | .mousePoint => MousePoint.type
  | .attack => Attack.type

/-- What the accessors of the table at `root` read. -/
def accessorReads : PacketPayload → List UInt8 → Nat → List Read
  | .showServerStats => ShowServerStats.reads
  | .transform => Transform.reads
  | .instantiate => Instantiate.reads
  | .chat => Chat.reads
  | .mousePoint => MousePoint.reads
  | .attack => Attack.reads

/-- What is read of a payload from `GetRoot` on. -/
def reads (type : PacketPayload) (buf : List UInt8) : List Read :=
  (getRoot buf).reads ++ type.accessorReads buf (getRoot buf).value

/-- The fields of eight bytes. -/
def wideFields : PacketPayload → List Nat
  | .instantiate => [Instantiate.vtObjectId]
  | .chat => [Chat.vtUserId, Chat.vtTimestamp]
  | .attack => [Attack.vtObjectId]
  | .showServerStats | .transform | .mousePoint => []

/-- The accessors read what the fields of the table say. -/
theorem reads_eq (type : PacketPayload) (buf : List UInt8) :
    type.reads buf = (type.tableType.fields.accessRoot buf).reads := by
  refine congrArg ((getRoot buf).reads ++ ·) ?_
  cases type with
  | showServerStats => exact (ShowServerStats.access_reads buf _).symm
  | transform => exact (Transform.access_reads buf _).symm
  | instantiate => exact (Instantiate.access_reads buf _).symm
  | chat => exact (Chat.access_reads buf _).symm
  | mousePoint => exact (MousePoint.access_reads buf _).symm
  | attack => exact (Attack.access_reads buf _).symm

theorem hasWide_eq_false (type : PacketPayload) (buf : List UInt8) (root : Nat) :
    type.tableType.fields.hasWide buf root = false ↔
      ∀ vt ∈ type.wideFields, (Table.checkField buf root vt).value = false := by
  cases type <;> simp [tableType, wideFields, Schema.hasWide, ScalarType.sizeof, Transform.type,
    Instantiate.type, Chat.type, MousePoint.type, Attack.type, ShowServerStats.type]

/-- What `register_typed_handler` captures for a handler of this payload. -/
def typedHandler (type : PacketPayload) (handlerFunc : Nat) : TypedHandler where
  handlerFunc := handlerFunc
  verifyBuffer payload := ((VerifierTemplate.mk payload {}).verifyBuffer type.tableType).run.value.isSome

/-- `register_typed_handler`. -/
def registerTypedHandler (packetId : UInt16) (type : PacketPayload) (handlerFunc : Nat)
    (handlers : Handlers) : Handlers := handlers.map packetId (type.typedHandler handlerFunc)

end PacketPayload

/-! ## In memory -/

/-- `alignas(64)` of `memory_block`. -/
def alignofBlock (_ : BlockType) : Nat := 64

/-- Where the blocks of a pool lie in memory. -/
structure Placement (p : TsMemoryPool) where
  address : Nat → Nat
  aligned : ∀ b t, p.heap[b]? = some t → alignofBlock t ∣ address b

/-- The payload of a request. -/
def payload (m : Memory) (request : PacketRequest) : List UInt8 := (verifier m request).bytes m

variable {p : TsMemoryPool} {m : Memory} {request : PacketRequest} {type : PacketPayload}
  {handlers : Handlers} {f : Nat}

/-- The address of a read from it. -/
def Placement.addressOf (placement : Placement p) (m : Memory) (request : PacketRequest) (r : Read) : Nat :=
  placement.address request.packetOwner.ptr + (verifier m request).offset + r.offset

/-- What is read of a payload that a typed handler is called for. -/
theorem fits_of_dispatch
    (hcall : dispatch (type.registerTypedHandler request.packetId f handlers) m request = some f) :
    ∀ r ∈ type.reads (payload m request), Fits (payload m request) r := by
  have hverified : (type.typedHandler f).verifyBuffer (payload m request) = true := by
    by_contra hno
    unfold payload at hno
    simp [dispatch, PacketPayload.registerTypedHandler, Handlers.map, TypedHandler.invoke, hno] at hcall
  obtain ⟨_, haccept⟩ := Option.isSome_iff_exists.mp hverified
  rw [PacketPayload.reads_eq]
  exact (verifyBuffer_spec (v := ⟨payload m request, {}⟩) rfl type.tableType).2 _ haccept

/-- The payload starts at an odd multiple of four. -/
theorem dvd_address_iff {address : Nat} {buf : List UInt8} {r : Read} (ha : 64 ∣ address)
    (hr : Fits buf r) : r.size ∣ address + sizeofPacketHeader + r.offset ↔ r.size ≠ 8 := by
  obtain ⟨type, htype⟩ := hr.scalar
  have haligned := hr.aligned
  rw [htype] at haligned ⊢
  rw [PacketHeader.sizeof_eq]
  cases type <;> simp only [ScalarType.sizeof] at haligned ⊢ <;> omega

/-- **The accepted payloads that are read at aligned addresses.** -/
theorem aligned_iff (placement : Placement p) (handlers : Handlers) (m : Memory)
    (request : PacketRequest) (type : PacketPayload) (f : Nat) (t : BlockType)
    (hblock : p.heap[request.packetOwner.ptr]? = some t)
    (hcall : dispatch (type.registerTypedHandler request.packetId f handlers) m request = some f) :
    (∀ r ∈ type.reads (payload m request), r.size ∣ placement.addressOf m request r) ↔
      ∀ vt ∈ type.wideFields, (Table.checkField (payload m request)
        (getRoot (payload m request)).value vt).value = false := by
  have hfits := fits_of_dispatch hcall
  rw [← PacketPayload.hasWide_eq_false, ← Schema.narrow_accessRoot, All, ← PacketPayload.reads_eq]
  refine forall₂_congr fun r hr => ?_
  exact dvd_address_iff (placement.aligned _ t hblock) (hfits r hr)

/-- A pool of one block of 64 bytes, at address 64. -/
def oneBlock : Placement (TsMemoryPool.empty.rentFresh .block64).2 where
  address := fun b => 64 * (b + 1)
  aligned := fun b _ _ => Nat.dvd_mul_right 64 (b + 1)

/-- The request for an `ATTACK` in that block. -/
def attackRequest : PacketRequest := ⟨0, 20004, (TsMemoryPool.empty.rentFresh .block64).1⟩

/-- The packet with a header that says so. -/
def attackMemory (payload : List UInt8) : Memory := fun _ i =>
  ([1, 0, 36, 78, 0, 0, 0, 0, 0, 0, 0, 0, 0, 0, UInt8.ofNat payload.length, 0, 0, 0, 0, 0] ++
    payload).getD i 0

/-- An `attack` on object 1 with damage 5. -/
def attackPayload : List UInt8 :=
  [12, 0, 0, 0, 8, 0, 16, 0, 4, 0, 12, 0, 8, 0, 0, 0, 1, 0, 0, 0, 0, 0, 0, 0, 5, 0, 0, 0]

/-- The same without an object. -/
def damagePayload : List UInt8 :=
  [12, 0, 0, 0, 8, 0, 8, 0, 0, 0, 4, 0, 8, 0, 0, 0, 5, 0, 0, 0]

theorem aligned_iff_damage :
    dispatch (PacketPayload.attack.registerTypedHandler attackRequest.packetId 0 fun _ => none)
        (attackMemory damagePayload) attackRequest = some 0 ∧
      ∀ r ∈ PacketPayload.attack.reads (payload (attackMemory damagePayload) attackRequest),
        r.size ∣ oneBlock.addressOf (attackMemory damagePayload) attackRequest r := by
  have hcall : dispatch (PacketPayload.attack.registerTypedHandler attackRequest.packetId 0 fun _ => none)
      (attackMemory damagePayload) attackRequest = some 0 := by decide +kernel
  refine ⟨hcall, ?_⟩
  exact (aligned_iff oneBlock (fun _ => none) _ attackRequest .attack 0 .block64 rfl hcall).mpr
    (by decide +kernel)

/-- `object_id` of an `attack` on an object is read at address 100. -/
theorem attack_misaligned : ¬ ∀ (p : TsMemoryPool) (placement : Placement p) (handlers : Handlers)
    (m : Memory) (request : PacketRequest) (type : PacketPayload) (f : Nat) (t : BlockType),
    p.heap[request.packetOwner.ptr]? = some t →
      dispatch (type.registerTypedHandler request.packetId f handlers) m request = some f →
        ∀ r ∈ type.reads (payload m request), r.size ∣ placement.addressOf m request r := by
  intro hall
  have hread : 8 ∣ oneBlock.addressOf (attackMemory attackPayload) attackRequest ⟨16, 8⟩ :=
    hall _ oneBlock (fun _ => none) (attackMemory attackPayload) attackRequest .attack 0 .block64
      rfl (by decide +kernel) ⟨16, 8⟩ (by decide +kernel)
  have haddress : oneBlock.addressOf (attackMemory attackPayload) attackRequest ⟨16, 8⟩ = 100 := by
    decide +kernel
  omega

end Protocol

end Us2d
