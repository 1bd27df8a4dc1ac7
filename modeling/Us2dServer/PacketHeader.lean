import Us2dServer.Lib.ByteStore

/-!
# The wire header `packet_header`

The struct is packed (`FLATBUFFERS_MANUALLY_ALIGNED_STRUCT(4)`), so a field stands right after
the ones declared before it, and `EndianScalar` makes every scalar little-endian.  The server
reads `type_id` and `payload_size`; no other field is looked at.
-/

namespace Us2d

open ByteStore

namespace PacketHeader

/-- The fields in the order of their declaration. -/
inductive Field
  | flowType | padding0 | typeId | connectionId | timestamp | sequence | payloadSize | checksum
  | padding1
deriving DecidableEq

def Field.size : Field → Nat
  | .flowType | .padding0 => 1
  | .typeId | .sequence | .payloadSize | .checksum | .padding1 => 2
  | .connectionId | .timestamp => 4

def layout : List Field :=
  [.flowType, .padding0, .typeId, .connectionId, .timestamp, .sequence, .payloadSize, .checksum,
    .padding1]

/-- The bytes of some fields together. -/
def fieldsSize (fields : List Field) : Nat := fields.foldl (fun n f => n + f.size) 0

def Field.offset (f : Field) : Nat := fieldsSize (layout.takeWhile (· ≠ f))

end PacketHeader

/-- `sizeof(packet_header)`. -/
def sizeofPacketHeader : Nat := PacketHeader.fieldsSize PacketHeader.layout

namespace PacketHeader

def typeId (buf : Buffer) : UInt16 :=
  le16 (buf Field.typeId.offset) (buf (Field.typeId.offset + 1))

def payloadSize (buf : Buffer) : UInt16 :=
  le16 (buf Field.payloadSize.offset) (buf (Field.payloadSize.offset + 1))

/-- `FLATBUFFERS_STRUCT_END(packet_header, 20)`. -/
theorem sizeof_eq : sizeofPacketHeader = 20 := rfl

theorem typeId_eq (buf : Buffer) : typeId buf = le16 (buf 2) (buf 3) := rfl

theorem payloadSize_eq (buf : Buffer) : payloadSize buf = le16 (buf 14) (buf 15) := rfl

/-- Both fields are read from the first 20 bytes. -/
theorem typeId_eq_u16At (buf : Buffer) {n : Nat} (h : 20 ≤ n) : u16At (slice buf 0 n) 2 = typeId buf := by
  rw [u16At_slice _ (by omega), typeId_eq]

theorem payloadSize_eq_u16At (buf : Buffer) {n : Nat} (h : 20 ≤ n) :
    u16At (slice buf 0 n) 14 = payloadSize buf := by
  rw [u16At_slice _ (by omega), payloadSize_eq]

theorem fields_congr {buf buf' : Buffer} (h : slice buf 0 20 = slice buf' 0 20) :
    typeId buf = typeId buf' ∧ payloadSize buf = payloadSize buf' := by
  rw [← typeId_eq_u16At buf (Nat.le_refl 20), ← payloadSize_eq_u16At buf (Nat.le_refl 20), h,
    typeId_eq_u16At buf' (Nat.le_refl 20), payloadSize_eq_u16At buf' (Nat.le_refl 20)]
  exact ⟨rfl, rfl⟩

end PacketHeader

end Us2d
