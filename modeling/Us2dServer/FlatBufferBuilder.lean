import Us2dServer.FlatBuffers

/-!
# FlatBufferBuilder

`FlatBufferBuilder` puts a message together from its last byte to its first: `vector_downward`
grows at the front, and an offset is a distance from the end, which growing leaves as it is.
The buffer here is the list of the bytes from `cur_` on; the scratch pad is the two lists that
the builder keeps in it.  A failed `FLATBUFFERS_ASSERT` is `none`; that the buffer stays below its
maximal size is not asserted here, and left to who builds.
-/

namespace Us2d

namespace FlatBuffers

/-! ## Bytes -/

/-- `EndianScalar`: the `n` bytes of a number. -/
def littleEndianBytes : Nat → Nat → List UInt8
  | 0, _ => []
  | n + 1, value => UInt8.ofNat value :: littleEndianBytes n (value / 256)

/-- Writes over the bytes from position `p` on. -/
def write (p : Nat) (bs buf : List UInt8) : List UInt8 := buf.take p ++ bs ++ buf.drop (p + bs.length)

/-- `WriteScalar<T>(p, value)`. -/
def writeScalar (type : ScalarType) (p value : Nat) (buf : List UInt8) : List UInt8 :=
  write p (littleEndianBytes type.sizeof value) buf

/-- The scalar at a distance from the end of the buffer. -/
def scalarFromEnd (buf : List UInt8) (type : ScalarType) (off : Nat) : Nat :=
  scalarAt buf type (buf.length - off)

/-- `e == def`.  Two floats are equal if both are zeros, whatever their signs, and a NaN equals
nothing. -/
def isTheSameAs (type : ScalarType) (e defaultval : Nat) : Bool :=
  match type with
  | .float =>
    let magnitude := fun bits => bits &&& 0x7fffffff
    if 0x7f800000 < magnitude e || 0x7f800000 < magnitude defaultval then false
    else e == defaultval || magnitude e == 0 && magnitude defaultval == 0
  | _ => e == defaultval

/-- `PaddingBytes`: `((~buf_size) + 1) & (scalar_size - 1)`. -/
def paddingBytes (bufSize scalarSize : Nat) : Nat :=
  (2 ^ 64 - bufSize % 2 ^ 64) % 2 ^ 64 &&& (scalarSize - 1)

/-- `FieldIndexToOffset`. -/
def fieldIndexToOffset (fieldId : Nat) : Nat := 2 * voffset.sizeof + fieldId * voffset.sizeof

/-! ## The builder -/

structure FieldLoc where
  off : Nat
  id : Nat
deriving DecidableEq, Repr

structure FlatBufferBuilder where
  /-- the bytes of `buf_` from `cur_` on -/
  buf : List UInt8 := []
  /-- the offsets of the vtables written, in the scratch pad -/
  vtables : List Nat := []
  /-- the `num_field_loc` locations above them -/
  fieldLocs : List FieldLoc := []
  maxVoffset : Nat := 0
  nested : Bool := false
  finished : Bool := false
  minalign : Nat := 1
  forceDefaults : Bool := false
  dedupVtables : Bool := true
deriving DecidableEq, Repr

namespace FlatBufferBuilder

variable (b : FlatBufferBuilder)

/-- `buf_.fill`, and `buf_.fill_big`. -/
def fill (zeroPadBytes : Nat) : FlatBufferBuilder :=
  { b with buf := List.replicate zeroPadBytes 0 ++ b.buf }

def pushBytes (bytes : List UInt8) : FlatBufferBuilder := { b with buf := bytes ++ b.buf }

def trackMinAlign (elemSize : Nat) : FlatBufferBuilder :=
  if b.minalign < elemSize then { b with minalign := elemSize } else b

def align (elemSize : Nat) : FlatBufferBuilder :=
  let b := b.trackMinAlign elemSize
  b.fill (paddingBytes b.buf.length elemSize)

def preAlign (len alignment : Nat) : FlatBufferBuilder :=
  if len = 0 then b
  else
    let b := b.trackMinAlign alignment
    b.fill (paddingBytes (b.buf.length + len) alignment)

/-- `PushElement<T>(element)`, and the offset that it gives. -/
def pushElement (type : ScalarType) (element : Nat) : Nat × FlatBufferBuilder :=
  let b := (b.align type.sizeof).pushBytes (littleEndianBytes type.sizeof element)
  (b.buf.length, b)

def trackField (field off : Nat) : FlatBufferBuilder :=
  { b with fieldLocs := b.fieldLocs ++ [⟨off, field⟩], maxVoffset := max b.maxVoffset field }

/-- `AddElement<T>(field, e, def)`. -/
def addElement (field : Nat) (type : ScalarType) (e defaultval : Nat) : FlatBufferBuilder :=
  if isTheSameAs type e defaultval && !b.forceDefaults then b
  else
    let (off, b) := b.pushElement type e
    b.trackField field off

def referTo (off : Nat) : Option (Nat × FlatBufferBuilder) :=
  let b := b.align uoffset.sizeof
  if off ≠ 0 ∧ off ≤ b.buf.length then some (b.buf.length - off + uoffset.sizeof, b) else none

/-- `AddOffset`; a null offset is 0. -/
def addOffset (field off : Nat) : Option FlatBufferBuilder :=
  if off = 0 then some b
  else do
    let (element, b) ← b.referTo off
    return b.addElement field uoffset element 0

/-- `NotNested()`. -/
def notNested : Bool := !b.nested && b.fieldLocs.isEmpty

def startTable : Option (Nat × FlatBufferBuilder) :=
  if b.notNested then some (b.buf.length, { b with nested := true }) else none

def clearOffsets : FlatBufferBuilder := { b with fieldLocs := [], maxVoffset := 0 }

/-- Writes the location of a field into the vtable at the front. -/
def writeFieldLoc (vtableOffsetLoc : Nat) (buf : List UInt8) (l : FieldLoc) : Option (List UInt8) :=
  if scalarAt buf voffset l.id = 0 then some (writeScalar voffset l.id (vtableOffsetLoc - l.off) buf)
  else none

/-- The vtable at an offset is the one at the front. -/
def sameVtable (vt2 : Nat) : Bool :=
  let vt1Size := scalarAt b.buf voffset 0
  vt1Size == scalarFromEnd b.buf voffset vt2 &&
    (b.buf.drop (b.buf.length - vt2)).take vt1Size == b.buf.take vt1Size

/-- `vt_use`, with the new vtable removed if there is another one to use. -/
def dedup (vtableOffsetLoc : Nat) : Nat × FlatBufferBuilder :=
  match if b.dedupVtables then b.vtables.find? b.sameVtable else none with
  | some vt2 => (vt2, { b with buf := b.buf.drop (b.buf.length - vtableOffsetLoc) })
  | none => (b.buf.length, b)

/-- `EndTable` from the search for a vtable on. -/
def linkVtable (vtableOffsetLoc : Nat) : FlatBufferBuilder :=
  let (vtUse, b) := b.dedup vtableOffsetLoc
  let b := if vtUse = b.buf.length then { b with vtables := b.vtables ++ [vtUse] } else b
  -- `static_cast<soffset_t>(vt_use) - static_cast<soffset_t>(vtable_offset_loc)`
  let buf := writeScalar soffset (b.buf.length - vtableOffsetLoc) (2 ^ 32 + vtUse - vtableOffsetLoc) b.buf
  { b with buf := buf, nested := false }

def endTable (start : Nat) : Option (Nat × FlatBufferBuilder) := do
  guard b.nested
  let (vtableOffsetLoc, b) := b.pushElement soffset 0
  let maxVoffset := max ((b.maxVoffset + voffset.sizeof) % 2 ^ 16) (fieldIndexToOffset 0)
  let b := b.fill maxVoffset
  let tableObjectSize := vtableOffsetLoc - start
  guard (tableObjectSize < 0x10000)
  let buf := writeScalar voffset voffset.sizeof tableObjectSize b.buf
  let buf := writeScalar voffset 0 maxVoffset buf
  let buf ← b.fieldLocs.foldlM (writeFieldLoc vtableOffsetLoc) buf
  return (vtableOffsetLoc, ({ b with buf := buf }.clearOffsets).linkVtable vtableOffsetLoc)

/-- `CreateString(str, len)`. -/
def createString (str : List UInt8) : Option (Nat × FlatBufferBuilder) := do
  guard b.notNested
  let b := b.preAlign (str.length + 1) uoffset.sizeof
  let b := (b.fill 1).pushBytes str
  return b.pushElement uoffset str.length

/-- `Finish(root)`, without a file identifier or a size prefix. -/
def finish (root : Nat) : Option FlatBufferBuilder := do
  guard (!b.finished)
  guard b.notNested
  let b := { b with vtables := [] }.trackMinAlign 0
  let b := b.preAlign (0 + uoffset.sizeof + 0) b.minalign
  let (element, b) ← b.referTo root
  let (_, b) := b.pushElement uoffset element
  return { b with finished := true }

/-! ## Generated builders -/

/-- `AddElement` or `AddOffset`, as a generated `add_` calls it. -/
inductive Add
  | element (field : Nat) (type : ScalarType) (e defaultval : Nat)
  | offset (field off : Nat)
deriving DecidableEq, Repr

def add : Add → Option FlatBufferBuilder
  | .element field type e defaultval => some (b.addElement field type e defaultval)
  | .offset field off => b.addOffset field off

/-- `Create`: `StartTable`, the calls of `add_`, and `Finish` with its `EndTable`. -/
def createTable (adds : List Add) : Option (Nat × FlatBufferBuilder) := do
  let (start, b) ← b.startTable
  let b ← adds.foldlM add b
  b.endTable start

end FlatBufferBuilder

/-! ## Lemmas on bytes -/

@[simp] theorem length_littleEndianBytes (n value : Nat) : (littleEndianBytes n value).length = n := by
  induction n generalizing value with
  | zero => rfl
  | succ n ih => rw [littleEndianBytes, List.length_cons, ih]

theorem littleEndian_bytes (n value : Nat) :
    littleEndian (littleEndianBytes n value) = value % 256 ^ n := by
  induction n generalizing value with
  | zero => rw [Nat.pow_zero, Nat.mod_one]; rfl
  | succ n ih =>
    rw [littleEndianBytes, littleEndian, ih, UInt8.toNat_ofNat', Nat.pow_succ' (n := n)]
    exact Nat.mod_mul.symm

theorem littleEndian_zeros (n : Nat) : littleEndian (List.replicate n 0) = 0 := by
  induction n with
  | zero => rfl
  | succ n ih => rw [List.replicate_succ, littleEndian, ih]; rfl

section Scalars

variable {buf pre : List UInt8} {type type' : ScalarType} {p q off value : Nat}

theorem scalarAt_append_right (pre buf : List UInt8) (type : ScalarType) (p : Nat) :
    scalarAt (pre ++ buf) type (pre.length + p) = scalarAt buf type p := by
  unfold scalarAt
  rw [List.drop_append, List.drop_eq_nil_of_le (by omega), List.nil_append, Nat.add_sub_cancel_left]

theorem scalarAt_append_left (h : p + type.sizeof ≤ pre.length) :
    scalarAt (pre ++ buf) type p = scalarAt pre type p := by
  unfold scalarAt
  rw [List.drop_append_of_le_length (by omega), List.take_append_of_le_length]
  rw [List.length_drop]
  omega

theorem scalarAt_bytes (type : ScalarType) (value : Nat) (buf : List UInt8) :
    scalarAt (littleEndianBytes type.sizeof value ++ buf) type 0 = value % 256 ^ type.sizeof := by
  rw [scalarAt_append_left (by simp), scalarAt, List.drop_zero, List.take_of_length_le (by simp),
    littleEndian_bytes]

theorem scalarAt_zeros (n : Nat) (type : ScalarType) (p : Nat) : scalarAt (List.replicate n 0) type p = 0 := by
  rw [scalarAt, List.drop_replicate, List.take_replicate, littleEndian_zeros]

/-- What a part of the buffer says is what the buffer says there. -/
theorem scalarAt_take_drop {n : Nat} (h : q + type.sizeof ≤ n) :
    scalarAt ((buf.drop p).take n) type q = scalarAt buf type (p + q) := by
  unfold scalarAt
  rw [List.drop_take, List.take_take, List.drop_drop, Nat.min_eq_left (by omega)]

/-- A distance from the end means the same when the buffer has grown. -/
theorem scalarFromEnd_append (h : off ≤ buf.length) :
    scalarFromEnd (pre ++ buf) type off = scalarFromEnd buf type off := by
  unfold scalarFromEnd
  rw [List.length_append, show pre.length + buf.length - off = pre.length + (buf.length - off) by omega,
    scalarAt_append_right]

theorem scalarFromEnd_suffix {buf' : List UInt8} (hs : buf <:+ buf') (h : off ≤ buf.length) :
    scalarFromEnd buf' type off = scalarFromEnd buf type off := by
  obtain ⟨pre, rfl⟩ := hs
  exact scalarFromEnd_append h

/-! ### Writes -/

theorem length_write {bs : List UInt8} (h : p + bs.length ≤ buf.length) :
    (write p bs buf).length = buf.length := by
  simp only [write, List.length_append, List.length_take, List.length_drop]
  omega

theorem write_append_left {bs : List UInt8} (h : p + bs.length ≤ pre.length) :
    write p bs (pre ++ buf) = write p bs pre ++ buf := by
  unfold write
  rw [List.take_append_of_le_length (by omega), List.drop_append_of_le_length h, List.append_assoc,
    List.append_assoc, List.append_assoc]

theorem write_append_right (pre bs buf : List UInt8) (p : Nat) :
    write (pre.length + p) bs (pre ++ buf) = pre ++ write p bs buf := by
  unfold write
  rw [List.take_length_add_append, Nat.add_assoc, List.drop_length_add_append, List.append_assoc,
    List.append_assoc, List.append_assoc]

@[simp] theorem length_writeScalar (h : p + type.sizeof ≤ buf.length) :
    (writeScalar type p value buf).length = buf.length :=
  length_write (by simpa using h)

theorem writeScalar_append_left (h : p + type.sizeof ≤ pre.length) :
    writeScalar type p value (pre ++ buf) = writeScalar type p value pre ++ buf :=
  write_append_left (by simpa using h)

theorem scalarAt_writeScalar (h : p ≤ buf.length) :
    scalarAt (writeScalar type p value buf) type p = value % 256 ^ type.sizeof := by
  have hlength : (buf.take p).length = p := by
    rw [List.length_take]
    omega
  have hread := scalarAt_append_right (buf.take p)
    (littleEndianBytes type.sizeof value ++ buf.drop (p + type.sizeof)) type 0
  rw [hlength, Nat.add_zero, scalarAt_bytes, ← List.append_assoc] at hread
  simpa only [writeScalar, write, length_littleEndianBytes] using hread

/-- A write leaves alone what lies before it and after it. -/
theorem scalarAt_writeScalar_of_disjoint (hp : p + type.sizeof ≤ buf.length)
    (h : q + type'.sizeof ≤ p ∨ p + type.sizeof ≤ q) :
    scalarAt (writeScalar type p value buf) type' q = scalarAt buf type' q := by
  have hlength : (buf.take p).length = p := by
    rw [List.length_take]
    omega
  unfold writeScalar write
  rcases h with h | h
  · have hread : scalarAt buf type' q = scalarAt (buf.take p ++ buf.drop p) type' q := by
      rw [List.take_append_drop]
    rw [List.append_assoc, hread, scalarAt_append_left (by omega), scalarAt_append_left (by omega)]
  · have hfront : (buf.take p ++ littleEndianBytes type.sizeof value).length = p + type.sizeof := by
      rw [List.length_append, hlength, length_littleEndianBytes]
    obtain ⟨r, rfl⟩ := Nat.exists_eq_add_of_le h
    have hread := scalarAt_append_right (buf.take p ++ littleEndianBytes type.sizeof value)
      (buf.drop (p + type.sizeof)) type' r
    rw [hfront] at hread
    rw [length_littleEndianBytes, hread, scalarAt, scalarAt, List.drop_drop]

end Scalars

/-! ### Padding -/

/-- The sizes of scalars, which are the alignments. -/
def IsAlignment (n : Nat) : Prop := n = 1 ∨ n = 2 ∨ n = 4 ∨ n = 8

theorem isAlignment_sizeof (type : ScalarType) : IsAlignment type.sizeof := by
  cases type <;> simp [IsAlignment, ScalarType.sizeof]

/-- Of two alignments the greater one is a multiple of the other. -/
theorem IsAlignment.dvd {m n : Nat} (hm : IsAlignment m) (hn : IsAlignment n) (h : m ≤ n) : m ∣ n := by
  rcases hm with rfl | rfl | rfl | rfl <;> rcases hn with rfl | rfl | rfl | rfl <;> omega

theorem paddingBytes_eq {s : Nat} (hs : IsAlignment s) (n : Nat) :
    paddingBytes n s = (2 ^ 64 - n % 2 ^ 64) % 2 ^ 64 % s := by
  unfold paddingBytes
  rcases hs with rfl | rfl | rfl | rfl
  · exact Nat.and_two_pow_sub_one_eq_mod _ 0
  · exact Nat.and_two_pow_sub_one_eq_mod _ 1
  · exact Nat.and_two_pow_sub_one_eq_mod _ 2
  · exact Nat.and_two_pow_sub_one_eq_mod _ 3

theorem dvd_add_paddingBytes {s : Nat} (hs : IsAlignment s) (n : Nat) : s ∣ n + paddingBytes n s := by
  rw [paddingBytes_eq hs]
  rcases hs with rfl | rfl | rfl | rfl <;> omega

theorem paddingBytes_lt {s : Nat} (hs : IsAlignment s) (n : Nat) : paddingBytes n s < s := by
  rw [paddingBytes_eq hs]
  exact Nat.mod_lt _ (by rcases hs with rfl | rfl | rfl | rfl <;> omega)

theorem paddingBytes_of_dvd {s n : Nat} (hs : IsAlignment s) (h : s ∣ n) : paddingBytes n s = 0 := by
  rw [paddingBytes_eq hs]
  rcases hs with rfl | rfl | rfl | rfl <;> omega

end FlatBuffers

end Us2d
