import Us2dServer.Protocol
import Us2dServer.TableReading

/-!
# The payloads of `net::protocol`, written and read

The `Create` functions that `flatc` has generated call `add_` in the order of the sizes of the
fields, and leave out what equals its default.  A `Message` is what is passed to them; `encode`
builds it in a new builder and finishes it, `decode` is what the accessors give.

    encode m = some buf, the verifier accepts buf, and decode m.type buf = m.received
                                                                      (decode_encode)

Only the sign of a zero is lost: `-0.0 == 0.0`, so it is not stored.
-/

namespace Us2d

namespace Protocol

open FlatBuffers FlatBufferBuilder Reads

variable {b : FlatBufferBuilder} {buf : List UInt8} {loc vt : Nat}

/-! ## Generated builders -/

/-- The floats of a `transform`, as their bits. -/
structure Position where
  x : UInt32
  y : UInt32
  z : UInt32
deriving DecidableEq, Repr

def Transform.adds (position : Position) : List Add :=
  [.element vtPositionZ .float position.z.toNat 0, .element vtPositionY .float position.y.toNat 0,
    .element vtPositionX .float position.x.toNat 0]

def createTransform (b : FlatBufferBuilder) (position : Position) : Option (Nat × FlatBufferBuilder) :=
  b.createTable (Transform.adds position)

def Instantiate.adds (objectId : UInt64) (prefabId : UInt32) (objectTransform : Nat) : List Add :=
  [.element vtObjectId .uint64 objectId.toNat 0, .offset vtObjectTransform objectTransform,
    .element vtPrefabId .int32 prefabId.toNat 0]

def createInstantiate (b : FlatBufferBuilder) (objectId : UInt64) (prefabId : UInt32)
    (objectTransform : Nat) : Option (Nat × FlatBufferBuilder) :=
  b.createTable (Instantiate.adds objectId prefabId objectTransform)

def Chat.adds (typeId : UInt8) (userId : UInt64) (content : Nat) (timestamp : UInt64) : List Add :=
  [.element vtTimestamp .int64 timestamp.toNat 0, .element vtUserId .uint64 userId.toNat 0,
    .offset vtContent content, .element vtTypeId .int8 typeId.toNat 0]

def createChat (b : FlatBufferBuilder) (typeId : UInt8) (userId : UInt64) (content : Nat)
    (timestamp : UInt64) : Option (Nat × FlatBufferBuilder) :=
  b.createTable (Chat.adds typeId userId content timestamp)

/-- `strlen` of the characters behind a pointer. -/
def cString (content : List UInt8) : List UInt8 := content.takeWhile (· ≠ 0)

/-- `CreatechatDirect`. -/
def createChatDirect (b : FlatBufferBuilder) (typeId : UInt8) (userId : UInt64)
    (content : Option (List UInt8)) (timestamp : UInt64) : Option (Nat × FlatBufferBuilder) :=
  match content with
  | none => createChat b typeId userId 0 timestamp
  | some content => do
    let (content, b) ← b.createString (cString content)
    createChat b typeId userId content timestamp

def MousePoint.adds (positionX positionY : UInt32) : List Add :=
  [.element vtPositionY .float positionY.toNat 0, .element vtPositionX .float positionX.toNat 0]

def createMousePoint (b : FlatBufferBuilder) (positionX positionY : UInt32) :
    Option (Nat × FlatBufferBuilder) := b.createTable (MousePoint.adds positionX positionY)

def Attack.adds (objectId : UInt64) (damage : UInt32) : List Add :=
  [.element vtObjectId .uint64 objectId.toNat 0, .element vtDamage .int32 damage.toNat 0]

def createAttack (b : FlatBufferBuilder) (objectId : UInt64) (damage : UInt32) :
    Option (Nat × FlatBufferBuilder) := b.createTable (Attack.adds objectId damage)

def ShowServerStats.adds (isRunning : Bool) : List Add :=
  [.element vtIsRunning .uint8 isRunning.toNat 0]

def createShowServerStats (b : FlatBufferBuilder) (isRunning : Bool) : Option (Nat × FlatBufferBuilder) :=
  b.createTable (ShowServerStats.adds isRunning)

/-! ### Their fields -/

theorem Transform.adds_fields (position : Position) :
    (adds position).map Add.field = [vtPositionZ, vtPositionY, vtPositionX] := rfl

theorem Instantiate.adds_fields (objectId : UInt64) (prefabId : UInt32) (objectTransform : Nat) :
    (adds objectId prefabId objectTransform).map Add.field = [vtObjectId, vtObjectTransform, vtPrefabId] := rfl

theorem Chat.adds_fields (typeId : UInt8) (userId : UInt64) (content : Nat) (timestamp : UInt64) :
    (adds typeId userId content timestamp).map Add.field = [vtTimestamp, vtUserId, vtContent, vtTypeId] := rfl

theorem MousePoint.adds_fields (positionX positionY : UInt32) :
    (adds positionX positionY).map Add.field = [vtPositionY, vtPositionX] := rfl

theorem Attack.adds_fields (objectId : UInt64) (damage : UInt32) :
    (adds objectId damage).map Add.field = [vtObjectId, vtDamage] := rfl

theorem ShowServerStats.adds_fields (isRunning : Bool) :
    (adds isRunning).map Add.field = [vtIsRunning] := rfl

/-! ## Messages -/

/-- What is passed to the `Create` of a payload. -/
inductive Message
  | showServerStats (isRunning : Bool)
  | transform (position : Position)
  | instantiate (objectId : UInt64) (prefabId : UInt32) (objectTransform : Option Position)
  | chat (typeId : UInt8) (userId : UInt64) (content : Option (List UInt8)) (timestamp : UInt64)
  | mousePoint (positionX positionY : UInt32)
  | attack (objectId : UInt64) (damage : UInt32)
deriving DecidableEq, Repr

namespace Message

def type : Message → PacketPayload
  | showServerStats _ => .showServerStats
  | transform _ => .transform
  | instantiate _ _ _ => .instantiate
  | chat _ _ _ _ => .chat
  | mousePoint _ _ => .mousePoint
  | attack _ _ => .attack

/-- A table that is referred to is created before the one that refers to it. -/
def create (b : FlatBufferBuilder) : Message → Option (Nat × FlatBufferBuilder)
  | showServerStats isRunning => createShowServerStats b isRunning
  | transform position => createTransform b position
  | instantiate objectId prefabId none => createInstantiate b objectId prefabId 0
  | instantiate objectId prefabId (some position) => do
    let (objectTransform, b) ← createTransform b position
    createInstantiate b objectId prefabId objectTransform
  | chat typeId userId content timestamp => createChatDirect b typeId userId content timestamp
  | mousePoint positionX positionY => createMousePoint b positionX positionY
  | attack objectId damage => createAttack b objectId damage

/-- The bytes between `GetBufferPointer()` and the end. -/
def encode (m : Message) : Option (List UInt8) := do
  let (root, b) ← m.create {}
  let b ← b.finish root
  return b.buf

/-- The characters of a chat. -/
def contentLength : Message → Nat
  | chat _ _ (some content) _ => (cString content).length
  | _ => 0

end Message

/-! ## Decoding -/

def Position.read (buf : List UInt8) (transform : Nat) : Position where
  x := UInt32.ofNat (Transform.positionX buf transform).value
  y := UInt32.ofNat (Transform.positionY buf transform).value
  z := UInt32.ofNat (Transform.positionZ buf transform).value

/-- `str()`: the characters without the terminator. -/
def readStr (buf : List UInt8) (str : Nat) : List UInt8 :=
  ((readString buf str).value.take (stringSize buf str).value).map UInt8.ofNat

/-- What the accessors of the table at `root` give. -/
def Message.read (buf : List UInt8) (root : Nat) : PacketPayload → Message
  | .showServerStats => .showServerStats (ShowServerStats.isRunning buf root).value
  | .transform => .transform (.read buf root)
  | .instantiate => .instantiate (UInt64.ofNat (Instantiate.objectId buf root).value)
      (UInt32.ofNat (Instantiate.prefabId buf root).value)
      ((Instantiate.objectTransform buf root).value.map (.read buf))
  | .chat => .chat (UInt8.ofNat (Chat.typeId buf root).value) (UInt64.ofNat (Chat.userId buf root).value)
      ((Chat.content buf root).value.map (readStr buf)) (UInt64.ofNat (Chat.timestamp buf root).value)
  | .mousePoint => .mousePoint (UInt32.ofNat (MousePoint.positionX buf root).value)
      (UInt32.ofNat (MousePoint.positionY buf root).value)
  | .attack => .attack (UInt64.ofNat (Attack.objectId buf root).value)
      (UInt32.ofNat (Attack.damage buf root).value)

def decode (type : PacketPayload) (buf : List UInt8) : Message := .read buf (getRoot buf).value type

/-- `-0.0` comes back as `0.0`. -/
def receivedFloat (bits : UInt32) : UInt32 := if bits = 0x80000000 then 0 else bits

def Position.received (p : Position) : Position :=
  ⟨receivedFloat p.x, receivedFloat p.y, receivedFloat p.z⟩

def Message.received : Message → Message
  | .transform position => .transform position.received
  | .instantiate objectId prefabId objectTransform =>
    .instantiate objectId prefabId (objectTransform.map Position.received)
  | .chat typeId userId content timestamp => .chat typeId userId (content.map cString) timestamp
  | .mousePoint positionX positionY => .mousePoint (receivedFloat positionX) (receivedFloat positionY)
  | m => m

/-! ## Fields -/

theorem wellFormed_element {field e defaultval length : Nat} {type : ScalarType}
    (h : 2 ∣ field ∧ 4 ≤ field ∧ field + 2 < 2 ^ 16) :
    (Add.element field type e defaultval).WellFormed length :=
  ⟨h.1, h.2.1, h.2.2, fun _ ho => (nomatch ho)⟩

theorem wellFormed_offset {field o length : Nat} (h : 2 ∣ field ∧ 4 ≤ field ∧ field + 2 < 2 ^ 16)
    (ho : o ≤ length) : (Add.offset field o).WellFormed length :=
  ⟨h.1, h.2.1, h.2.2, fun _ ho' => Option.some.inj ho' ▸ ho⟩

/-- A float is dropped if it is a zero of either sign. -/
theorem isTheSameAs_float (bits : UInt32) :
    isTheSameAs .float bits.toNat 0 = decide (bits = 0 ∨ bits = 0x80000000) := by
  have hmagnitude : bits.toNat &&& 0x7fffffff = bits.toNat % 2 ^ 31 :=
    Nat.and_two_pow_sub_one_eq_mod bits.toNat 31
  have hlt := bits.toNat_lt
  have hzero : (bits = 0 ∨ bits = 0x80000000) ↔ bits.toNat % 2 ^ 31 = 0 := by
    rw [← UInt32.toNat_inj, ← UInt32.toNat_inj]
    simp only [UInt32.reduceToNat]
    omega
  rw [Bool.eq_iff_iff, decide_eq_true_iff, hzero]
  simp only [isTheSameAs, hmagnitude, Nat.zero_and, beq_self_eq_true, Bool.and_true]
  split
  · next hnan =>
    refine iff_of_false Bool.false_ne_true fun hzero => ?_
    simp only [Bool.or_eq_true, decide_eq_true_eq] at hnan
    omega
  · simp only [Bool.or_eq_true, beq_iff_eq]
    omega

section Reading

variable {adds : List Add} {field e : Nat} {type : ScalarType} (h : Image b buf)
  (ht : HasTable b false adds loc vt) (hfields : (adds.map Add.field).Nodup)
include h ht hfields

/-- An integer comes back: what is not stored is the default. -/
theorem getField_integer (ha : Add.element field type e 0 ∈ adds) (htype : type ≠ .float)
    (he : e < 256 ^ type.sizeof) (hslot : 2 ∣ field ∧ 4 ≤ field ∧ field + 2 < 2 ^ 16) :
    FieldFits buf (buf.length - loc) field type ∧
      (Table.getField buf (buf.length - loc) type field 0).value = e := by
  obtain ⟨hfits, hvalue⟩ := h.getField ht hfields ha (wellFormed_element hslot)
  refine ⟨hfits, hvalue.trans ?_⟩
  have hsame : isTheSameAs type e 0 = (e == 0) := by
    cases type with
    | float => exact absurd rfl htype
    | uint8 | int8 | uint16 | int32 | uint32 | uint64 | int64 => rfl
  simp only [Add.stored, hsame, Bool.not_false, Bool.and_true, Nat.mod_eq_of_lt he]
  by_cases hzero : e = 0
  · subst hzero
    exact ite_self 0
  · rw [if_pos (by simpa using hzero)]

theorem getField_float {bits : UInt32} (ha : Add.element field .float bits.toNat 0 ∈ adds)
    (hslot : 2 ∣ field ∧ 4 ≤ field ∧ field + 2 < 2 ^ 16) :
    FieldFits buf (buf.length - loc) field .float ∧
      UInt32.ofNat (Table.getField buf (buf.length - loc) .float field 0).value = receivedFloat bits := by
  obtain ⟨hfits, hvalue⟩ := h.getField ht hfields ha (wellFormed_element hslot)
  refine ⟨hfits, (congrArg UInt32.ofNat hvalue).trans ?_⟩
  simp only [Add.stored, isTheSameAs_float, Bool.not_false, Bool.and_true, Bool.not_eq_true',
    decide_eq_false_iff_not, receivedFloat]
  by_cases hminus : bits = 0x80000000
  · rw [if_neg (fun hne => hne (Or.inr hminus)), if_pos hminus]
    rfl
  by_cases hzero : bits = 0
  · rw [if_neg (fun hne => hne (Or.inl hzero)), if_neg hminus, hzero]
    rfl
  · have hlt : bits.toNat < 256 ^ ScalarType.float.sizeof := bits.toNat_lt
    rw [if_pos (not_or.mpr ⟨hzero, hminus⟩), if_neg hminus, Nat.mod_eq_of_lt hlt, UInt32.ofNat_toNat]

end Reading

/-! ## Tables -/

section Tables

variable (h : Image b buf) (maxSize : Nat)
include h

theorem Transform.written {position : Position}
    (ht : HasTable b false (Transform.adds position) loc vt) :
    Transform.type.fields.Valid buf maxSize (buf.length - loc) ∧
      Position.read buf (buf.length - loc) = position.received := by
  have hfields : ((Transform.adds position).map Add.field).Nodup := by
    rw [Transform.adds_fields]
    decide
  obtain ⟨hz, hzv⟩ := getField_float h ht hfields List.mem_cons_self (by decide)
  obtain ⟨hy, hyv⟩ := getField_float h ht hfields (List.mem_cons_of_mem _ List.mem_cons_self) (by decide)
  obtain ⟨hx, hxv⟩ := getField_float h ht hfields
    (List.mem_cons_of_mem _ (List.mem_cons_of_mem _ List.mem_cons_self)) (by decide)
  refine ⟨⟨hx, hy, hz, trivial⟩, ?_⟩
  rw [Position.received, ← hxv, ← hyv, ← hzv]
  rfl

theorem MousePoint.written {x y : UInt32} (ht : HasTable b false (MousePoint.adds x y) loc vt) :
    MousePoint.type.fields.Valid buf maxSize (buf.length - loc) ∧
      Message.read buf (buf.length - loc) .mousePoint = (Message.mousePoint x y).received := by
  have hfields : ((MousePoint.adds x y).map Add.field).Nodup := by
    rw [MousePoint.adds_fields]
    decide
  obtain ⟨hy, hyv⟩ := getField_float h ht hfields List.mem_cons_self (by decide)
  obtain ⟨hx, hxv⟩ := getField_float h ht hfields (List.mem_cons_of_mem _ List.mem_cons_self) (by decide)
  refine ⟨⟨hx, hy, trivial⟩, ?_⟩
  rw [Message.received, ← hxv, ← hyv]
  rfl

theorem Attack.written {objectId : UInt64} {damage : UInt32}
    (ht : HasTable b false (Attack.adds objectId damage) loc vt) :
    Attack.type.fields.Valid buf maxSize (buf.length - loc) ∧
      Message.read buf (buf.length - loc) .attack = .attack objectId damage := by
  have hfields : ((Attack.adds objectId damage).map Add.field).Nodup := by
    rw [Attack.adds_fields]
    decide
  obtain ⟨hid, hidv⟩ := getField_integer h ht hfields List.mem_cons_self (by decide) objectId.toNat_lt (by decide)
  obtain ⟨hdamage, hdamagev⟩ := getField_integer h ht hfields (List.mem_cons_of_mem _ List.mem_cons_self)
    (by decide) damage.toNat_lt (by decide)
  refine ⟨⟨hid, hdamage, trivial⟩, ?_⟩
  simp only [Message.read, Attack.objectId, Attack.damage, hidv, hdamagev, UInt64.ofNat_toNat,
    UInt32.ofNat_toNat]

theorem ShowServerStats.written {isRunning : Bool}
    (ht : HasTable b false (ShowServerStats.adds isRunning) loc vt) :
    ShowServerStats.type.fields.Valid buf maxSize (buf.length - loc) ∧
      Message.read buf (buf.length - loc) .showServerStats = .showServerStats isRunning := by
  have hlt : isRunning.toNat < 256 := Nat.lt_of_lt_of_le isRunning.toNat_lt (by decide)
  obtain ⟨hrunning, hrunningv⟩ := getField_integer h ht (List.nodup_singleton _) List.mem_cons_self (by decide)
    hlt (by decide)
  refine ⟨⟨hrunning, trivial⟩, ?_⟩
  simp only [Message.read, ShowServerStats.isRunning, bind_value, pure_value, hrunningv]
  cases isRunning <;> rfl

/-- The transform may share its vtable with other tables; it is a table of its own. -/
theorem Instantiate.written {objectId : UInt64} {prefabId : UInt32} {inner : Nat}
    {objectTransform : Option Position}
    (ht : HasTable b false (Instantiate.adds objectId prefabId inner) loc vt)
    (hinner : match objectTransform with
      | none => inner = 0
      | some position => ∃ vt, HasTable b false (Transform.adds position) inner vt)
    (hwritten : inner ≤ b.buf.length) :
    Instantiate.type.fields.Valid buf maxSize (buf.length - loc) ∧
      Message.read buf (buf.length - loc) .instantiate =
        (Message.instantiate objectId prefabId objectTransform).received := by
  have hfields : ((Instantiate.adds objectId prefabId inner).map Add.field).Nodup := by
    rw [Instantiate.adds_fields]
    decide
  obtain ⟨hid, hidv⟩ := getField_integer h ht hfields List.mem_cons_self (by decide) objectId.toNat_lt (by decide)
  obtain ⟨hpointer, hpointerv⟩ := h.getPointer ht hfields (List.mem_cons_of_mem _ List.mem_cons_self)
    (wellFormed_offset (by decide) hwritten)
  obtain ⟨hprefab, hprefabv⟩ := getField_integer h ht hfields
    (List.mem_cons_of_mem _ (List.mem_cons_of_mem _ List.mem_cons_self)) (by decide) prefabId.toNat_lt (by decide)
  have hread : Message.read buf (buf.length - loc) .instantiate = .instantiate objectId prefabId
      ((if inner = 0 then none else some (buf.length - inner)).map (Position.read buf)) := by
    simp only [Message.read, Instantiate.objectId, Instantiate.prefabId, Instantiate.objectTransform, hidv,
      hprefabv, hpointerv, UInt64.ofNat_toNat, UInt32.ofNat_toNat]
  cases objectTransform with
  | none =>
    rw [if_pos hinner] at hpointerv hread
    refine ⟨⟨hid, hprefab, hpointer, fun i hi => ?_, trivial⟩, hread⟩
    rw [hpointerv] at hi
    cases hi
  | some position =>
    obtain ⟨vt', ht'⟩ := hinner
    have hne : inner ≠ 0 := by
      have := ht'.soffset.placed.inside
      simp only [ScalarType.sizeof] at this
      omega
    obtain ⟨hvalid, hposition⟩ := Transform.written h maxSize ht'
    rw [if_neg hne] at hpointerv hread
    refine ⟨⟨hid, hprefab, hpointer, fun i hi => ?_, trivial⟩, hread.trans ?_⟩
    · rw [hpointerv] at hi
      cases hi
      exact ⟨h.isTable ht', hvalid⟩
    · rw [Option.map_some, hposition]
      rfl

theorem Chat.written {typeId : UInt8} {userId timestamp : UInt64} {str : Nat}
    {content : Option (List UInt8)} (ht : HasTable b false (Chat.adds typeId userId str timestamp) loc vt)
    (hstr : match content with
      | none => str = 0
      | some content => HasString b (cString content) str)
    (hwritten : str ≤ b.buf.length) :
    Chat.type.fields.Valid buf ({} : Options).maxSize (buf.length - loc) ∧
      Message.read buf (buf.length - loc) .chat =
        (Message.chat typeId userId content timestamp).received := by
  have hfields : ((Chat.adds typeId userId str timestamp).map Add.field).Nodup := by
    rw [Chat.adds_fields]
    decide
  obtain ⟨htime, htimev⟩ := getField_integer h ht hfields List.mem_cons_self (by decide) timestamp.toNat_lt (by decide)
  obtain ⟨huser, huserv⟩ := getField_integer h ht hfields (List.mem_cons_of_mem _ List.mem_cons_self) (by decide)
    userId.toNat_lt (by decide)
  obtain ⟨hpointer, hpointerv⟩ := h.getPointer ht hfields
    (List.mem_cons_of_mem _ (List.mem_cons_of_mem _ List.mem_cons_self)) (wellFormed_offset (by decide) hwritten)
  obtain ⟨htype, htypev⟩ := getField_integer h ht hfields
    (List.mem_cons_of_mem _ (List.mem_cons_of_mem _ (List.mem_cons_of_mem _ List.mem_cons_self))) (by decide)
    typeId.toNat_lt (by decide)
  have hread : Message.read buf (buf.length - loc) .chat = .chat typeId userId
      ((if str = 0 then none else some (buf.length - str)).map (readStr buf)) timestamp := by
    simp only [Message.read, Chat.typeId, Chat.userId, Chat.content, Chat.timestamp, htypev, huserv, htimev,
      hpointerv, UInt64.ofNat_toNat, UInt8.ofNat_toNat]
  cases content with
  | none =>
    rw [if_pos hstr] at hpointerv hread
    refine ⟨⟨htype, huser, hpointer, fun i hi => ?_, htime, trivial⟩, hread⟩
    rw [hpointerv] at hi
    cases hi
  | some content =>
    have hinside := hstr.inside
    have hlength := h.length_le
    have hsmall := h.small
    simp only [ScalarType.sizeof] at hinside
    obtain ⟨hvalid, hsize, hchars⟩ := h.readString hstr ({} : Options).maxSize (by simp only; omega)
    have hcontent : readStr buf (buf.length - str) = cString content := by
      have hlen : (cString content).length = ((cString content).map UInt8.toNat).length :=
        (List.length_map _).symm
      rw [readStr, hsize, hchars, hlen, List.take_left, List.map_map]
      exact (List.map_congr_left fun c _ => UInt8.ofNat_toNat).trans (List.map_id _)
    rw [if_neg (show str ≠ 0 by omega)] at hpointerv hread
    refine ⟨⟨htype, huser, hpointer, fun i hi => ?_, htime, trivial⟩, hread.trans ?_⟩
    · rw [hpointerv] at hi
      cases hi
      exact hvalid
    · rw [Option.map_some, hcontent]
      rfl

end Tables

/-! ## Messages, written -/

/-- A table of at most four fields, as all tables here. -/
theorem createTable_of_fields {b : FlatBufferBuilder} (h : Ready b) {adds : List Add} {fields : List Nat}
    (hfields : adds.map Add.field = fields)
    (hslots : fields.Nodup ∧ fields.length ≤ 4 ∧ ∀ f ∈ fields, 2 ∣ f ∧ 4 ≤ f ∧ f ≤ 10)
    (htargets : ∀ a ∈ adds, ∀ o ∈ a.target, o ≤ b.buf.length) :
    ∃ loc b' vt, b.createTable adds = some (loc, b') ∧ HasTable b' b.forceDefaults adds loc vt ∧
      Advances b 86 b' := by
  subst hfields
  obtain ⟨hnodup, hfour, hslots⟩ := hslots
  have hslot : ∀ a ∈ adds, 2 ∣ a.field ∧ 4 ≤ a.field ∧ a.field ≤ 10 := fun a ha =>
    hslots a.field (List.mem_map_of_mem ha)
  rw [List.length_map] at hfour
  obtain ⟨loc, b', vt, hcreate, htable, hadv⟩ := createTable_spec h
    (fun a ha => ⟨(hslot a ha).1, (hslot a ha).2.1, by have := (hslot a ha).2.2; omega, htargets a ha⟩)
    hnodup (fun a ha => (hslot a ha).2.2) (by omega)
  exact ⟨loc, b', vt, hcreate, htable, hadv.mono (by omega)⟩

/-- What `create` leaves of a message in a new builder. -/
structure Message.Written (m : Message) (root : Nat) (b : FlatBufferBuilder) : Prop where
  advances : Advances {} (m.contentLength + 200) b
  content : m.contentLength ≤ b.buf.length
  table : ∃ adds vt, HasTable b false adds root vt
  read : ∀ buf, Image b buf →
    m.type.tableType.fields.Valid buf ({} : Options).maxSize (buf.length - root) ∧
      Message.read buf (buf.length - root) m.type = m.received

theorem Message.create_spec (m : Message) : ∃ root b, m.create {} = some (root, b) ∧ m.Written root b := by
  have hnoTarget : ∀ {adds : List Add} {n : Nat}, (∀ a ∈ adds, a.target = none) →
      ∀ a ∈ adds, ∀ o ∈ a.target, o ≤ n := fun h a ha o ho => by
    rw [h a ha] at ho
    cases ho
  cases m with
  | showServerStats isRunning =>
    obtain ⟨loc, b, vt, hcreate, ht, hadv⟩ := createTable_of_fields Ready.new (ShowServerStats.adds_fields isRunning)
      (by decide) (hnoTarget (by simp [ShowServerStats.adds, Add.target]))
    exact ⟨loc, b, hcreate, hadv.mono (by simp only [contentLength]; omega), Nat.zero_le _, ⟨_, vt, ht⟩,
      fun buf h => ShowServerStats.written h _ ht⟩
  | transform position =>
    obtain ⟨loc, b, vt, hcreate, ht, hadv⟩ := createTable_of_fields Ready.new (Transform.adds_fields position)
      (by decide) (hnoTarget (by simp [Transform.adds, Add.target]))
    exact ⟨loc, b, hcreate, hadv.mono (by simp only [contentLength]; omega), Nat.zero_le _, ⟨_, vt, ht⟩,
      fun buf h => (Transform.written h _ ht).imp_right (congrArg Message.transform)⟩
  | mousePoint x y =>
    obtain ⟨loc, b, vt, hcreate, ht, hadv⟩ := createTable_of_fields Ready.new (MousePoint.adds_fields x y)
      (by decide) (hnoTarget (by simp [MousePoint.adds, Add.target]))
    exact ⟨loc, b, hcreate, hadv.mono (by simp only [contentLength]; omega), Nat.zero_le _, ⟨_, vt, ht⟩,
      fun buf h => MousePoint.written h _ ht⟩
  | attack objectId damage =>
    obtain ⟨loc, b, vt, hcreate, ht, hadv⟩ := createTable_of_fields Ready.new (Attack.adds_fields objectId damage)
      (by decide) (hnoTarget (by simp [Attack.adds, Add.target]))
    exact ⟨loc, b, hcreate, hadv.mono (by simp only [contentLength]; omega), Nat.zero_le _, ⟨_, vt, ht⟩,
      fun buf h => Attack.written h _ ht⟩
  | instantiate objectId prefabId objectTransform =>
    cases objectTransform with
    | none =>
      obtain ⟨loc, b, vt, hcreate, ht, hadv⟩ := createTable_of_fields Ready.new
        (Instantiate.adds_fields objectId prefabId 0) (by decide) (by simp [Instantiate.adds, Add.target])
      exact ⟨loc, b, hcreate, hadv.mono (by simp only [contentLength]; omega), Nat.zero_le _, ⟨_, vt, ht⟩,
        fun buf h => Instantiate.written h _ ht rfl (Nat.zero_le _)⟩
    | some position =>
      obtain ⟨inner, b₁, vt₁, hcreate₁, ht₁, hadv₁⟩ := createTable_of_fields Ready.new
        (Transform.adds_fields position) (by decide) (hnoTarget (by simp [Transform.adds, Add.target]))
      have hinner := ht₁.soffset.placed.written
      obtain ⟨loc, b, vt, hcreate, ht, hadv⟩ := createTable_of_fields hadv₁.ready
        (Instantiate.adds_fields objectId prefabId inner) (by decide)
        (by simpa [Instantiate.adds, Add.target] using hinner)
      rw [hadv₁.forceDefaults] at ht
      refine ⟨loc, b, ?_, (hadv₁.trans hadv).mono (by simp only [contentLength]; omega), Nat.zero_le _, ⟨_, vt, ht⟩,
        fun buf h => Instantiate.written h _ ht ⟨vt₁, ht₁.mono hadv.extend⟩
          (Nat.le_trans hinner hadv.extend.length_le)⟩
      simp only [create, createTransform, hcreate₁, Option.bind_eq_bind, Option.bind_some]
      exact hcreate
  | chat typeId userId content timestamp =>
    cases content with
    | none =>
      obtain ⟨loc, b, vt, hcreate, ht, hadv⟩ := createTable_of_fields Ready.new
        (Chat.adds_fields typeId userId 0 timestamp) (by decide) (by simp [Chat.adds, Add.target])
      exact ⟨loc, b, hcreate, hadv.mono (by simp only [contentLength]; omega), Nat.zero_le _, ⟨_, vt, ht⟩,
        fun buf h => Chat.written h ht rfl (Nat.zero_le _)⟩
    | some content =>
      obtain ⟨str, b₁, hstring, hstr, hadv₁⟩ := createString_spec Ready.new (cString content)
      have hwritten := hstr.size.placed.written
      obtain ⟨loc, b, vt, hcreate, ht, hadv⟩ := createTable_of_fields hadv₁.ready
        (Chat.adds_fields typeId userId str timestamp) (by decide)
        (by simpa [Chat.adds, Add.target] using hwritten)
      rw [hadv₁.forceDefaults] at ht
      have hinside := hstr.inside
      have hgrown := hadv.extend.length_le
      refine ⟨loc, b, ?_, (hadv₁.trans hadv).mono (by simp only [contentLength]; omega),
        by simp only [contentLength]; omega, ⟨_, vt, ht⟩, fun buf h => Chat.written h ht (hstr.mono hadv.extend)
          (Nat.le_trans hwritten hadv.extend.length_le)⟩
      simp only [create, createChatDirect, hstring, Option.bind_eq_bind, Option.bind_some]
      exact hcreate

/-- No payload nests tables deeper than once. -/
theorem PacketPayload.height_tables (type : PacketPayload) (buf : List UInt8) (root : Nat) :
    type.tableType.fields.height buf root ≤ 1 ∧ type.tableType.fields.tables buf root ≤ 1 := by
  cases type with
  | instantiate =>
    simp only [tableType, Instantiate.type, Transform.type, Schema.height, Schema.tables]
    cases (Table.getPointer buf root Instantiate.vtObjectTransform).value <;> simp
  | showServerStats | transform | chat | mousePoint | attack =>
    simp [tableType, Schema.height, Schema.tables, ShowServerStats.type, Transform.type, Chat.type,
      MousePoint.type, Attack.type]

theorem Message.encode_spec (m : Message) :
    ∃ buf, m.encode = some buf ∧ m.contentLength ≤ buf.length ∧ buf.length < m.contentLength + 212 ∧
      (buf.length < 2 ^ 31 →
        (∀ f, (m.type.typedHandler f).verifyBuffer buf = true) ∧ decode m.type buf = m.received) := by
  obtain ⟨root, b, hcreate, hw⟩ := m.create_spec
  obtain ⟨adds, vt, ht⟩ := hw.table
  have hcontent := hw.content
  have hlength : b.buf.length ≤ m.contentLength + 200 := by
    have := hw.advances.length
    rwa [List.length_nil, Nat.zero_add] at this
  obtain ⟨b', hfinish, himage, hroot, hfront, hshort⟩ := finish_spec hw.advances.ready hw.advances.finished
    ht.soffset.placed
  refine ⟨b'.buf, ?_, by omega, by omega, fun hsmall => ?_⟩
  · simp only [Message.encode, hcreate, hfinish, Option.bind_eq_bind, Option.pure_def, Option.bind_some]
  have hroot' : (getRoot b'.buf).value = b'.buf.length - root :=
    hroot.trans (Nat.mod_eq_of_lt (by simp only [ScalarType.sizeof]; omega))
  obtain ⟨hvalid, hread⟩ := hw.read b'.buf (himage hsmall)
  obtain ⟨hheight, htables⟩ := m.type.height_tables b'.buf (b'.buf.length - root)
  refine ⟨fun f => ?_, ?_⟩
  · have haccept := (himage hsmall).verifyBuffer ht hroot' m.type.tableType hvalid (by omega) (by omega)
    exact Option.isSome_iff_exists.mpr ⟨(), haccept⟩
  · rw [decode, hroot']
    exact hread

/-! ## The round trip -/

def minusZero : UInt32 := 0x80000000

/-- No float is `-0.0`, and no character is the terminator. -/
def Message.Faithful : Message → Prop
  | .transform p => p.x ≠ minusZero ∧ p.y ≠ minusZero ∧ p.z ≠ minusZero
  | .instantiate _ _ (some p) => p.x ≠ minusZero ∧ p.y ≠ minusZero ∧ p.z ≠ minusZero
  | .chat _ _ (some content) _ => 0 ∉ content
  | .mousePoint x y => x ≠ minusZero ∧ y ≠ minusZero
  | _ => True

theorem receivedFloat_eq_iff (bits : UInt32) : receivedFloat bits = bits ↔ bits ≠ minusZero := by
  unfold receivedFloat
  split
  · next h =>
    subst h
    decide
  · next h => exact iff_of_true rfl h

theorem Position.received_eq_iff (p : Position) :
    p.received = p ↔ p.x ≠ minusZero ∧ p.y ≠ minusZero ∧ p.z ≠ minusZero := by
  cases p
  simp only [Position.received, Position.mk.injEq, receivedFloat_eq_iff]

theorem cString_eq_iff (content : List UInt8) : cString content = content ↔ 0 ∉ content := by
  induction content with
  | nil => simp [cString]
  | cons c content ih =>
    by_cases hc : c = 0
    · simp [cString, hc]
    · rw [cString, List.takeWhile_cons_of_pos (by simpa using hc), List.cons.injEq, List.mem_cons, not_or]
      exact and_congr (iff_of_true rfl (Ne.symm hc)) ih

theorem Message.received_eq_iff (m : Message) : m.received = m ↔ m.Faithful := by
  cases m with
  | transform p => simp only [received, Faithful, transform.injEq, Position.received_eq_iff]
  | instantiate objectId prefabId p =>
    cases p with
    | none => exact iff_of_true rfl trivial
    | some p =>
      simp only [received, Faithful, instantiate.injEq, Option.map_some, Option.some.injEq, true_and,
        Position.received_eq_iff]
  | chat typeId userId content timestamp =>
    cases content with
    | none => exact iff_of_true rfl trivial
    | some content =>
      simp only [received, Faithful, chat.injEq, Option.map_some, Option.some.injEq, true_and, and_true,
        cString_eq_iff]
  | mousePoint x y => simp only [received, Faithful, mousePoint.injEq, receivedFloat_eq_iff]
  | showServerStats isRunning => exact iff_of_true rfl trivial
  | attack objectId damage => exact iff_of_true rfl trivial

/-- **What is encoded is accepted and decodes to the message**, but for the sign of a zero and what
follows a terminator; `hm` leaves the buffer below the maximum of two gigabytes. -/
theorem decode_encode (m : Message) (hm : m.contentLength + 212 ≤ 2 ^ 31) :
    ∃ buf, m.encode = some buf ∧ buf.length < m.contentLength + 212 ∧
      (∀ f, (m.type.typedHandler f).verifyBuffer buf = true) ∧
      decode m.type buf = m.received ∧ (decode m.type buf = m ↔ m.Faithful) := by
  obtain ⟨buf, hencode, -, hlength, hread⟩ := m.encode_spec
  obtain ⟨haccept, hdecode⟩ := hread (Nat.lt_of_lt_of_le hlength hm)
  exact ⟨buf, hencode, hlength, haccept, hdecode, hdecode ▸ m.received_eq_iff⟩

/-- An object at a place, with a zero of each sign. -/
theorem decode_encode_instantiate :
    ∃ buf, (Message.instantiate 7 1 (some ⟨0x3f800000, minusZero, 0⟩)).encode = some buf ∧
      decode .instantiate buf = .instantiate 7 1 (some ⟨0x3f800000, 0, 0⟩) := by
  obtain ⟨buf, hencode, -, -, hdecode, -⟩ :=
    decode_encode (.instantiate 7 1 (some ⟨0x3f800000, minusZero, 0⟩)) (by decide)
  exact ⟨buf, hencode, hdecode⟩

end Protocol

end Us2d
