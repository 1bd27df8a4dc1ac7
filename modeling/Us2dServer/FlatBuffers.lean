import Mathlib.Algebra.Group.Nat.Defs
import Mathlib.Data.Nat.Bits
import Us2dServer.Lib.Reads

/-!
# FlatBuffers tables and their verifier

The readers of `Table` and the checks of `VerifierTemplate`, for tables of scalars, strings and
tables.  A pointer into the buffer is its distance from `buf_`; a scalar is read as the number
that its bits stand for, unsigned.  Every `ReadScalar` is logged, of the verifier as of the
accessors.

    whatever the bytes are, the verifier reads aligned scalars inside the buffer, and if it
    accepts them then so do all accessors                              (verifyBuffer_spec)
-/

namespace Us2d

namespace FlatBuffers

open Reads

/-! ## Scalars -/

inductive ScalarType
  | uint8 | int8 | uint16 | int32 | uint32 | float | uint64 | int64
deriving DecidableEq, Repr

def ScalarType.sizeof : ScalarType → Nat
  | .uint8 | .int8 => 1
  | .uint16 => 2
  | .int32 | .uint32 | .float => 4
  | .uint64 | .int64 => 8

/-- `uoffset_t`. -/
abbrev uoffset : ScalarType := .uint32

/-- `soffset_t`. -/
abbrev soffset : ScalarType := .int32

/-- `voffset_t`. -/
abbrev voffset : ScalarType := .uint16

def littleEndian : List UInt8 → Nat
  | [] => 0
  | b :: bs => b.toNat + 256 * littleEndian bs

def scalarAt (buf : List UInt8) (type : ScalarType) (p : Nat) : Nat :=
  littleEndian ((buf.drop p).take type.sizeof)

/-- `ReadScalar<T>(p)`. -/
def readScalar (buf : List UInt8) (type : ScalarType) (p : Nat) : Reads Nat :=
  ⟨scalarAt buf type p, [⟨p, type.sizeof⟩]⟩

@[simp] theorem readScalar_value (buf : List UInt8) (type : ScalarType) (p : Nat) :
    (readScalar buf type p).value = scalarAt buf type p := rfl

@[simp] theorem readScalar_reads (buf : List UInt8) (type : ScalarType) (p : Nat) :
    (readScalar buf type p).reads = [⟨p, type.sizeof⟩] := rfl

/-- `static_cast<size_t>` of a `soffset_t` with the bits `o`. -/
def soffsetSize (o : Nat) : Nat := if o < 2 ^ 31 then o else o + (2 ^ 64 - 2 ^ 32)

/-- `tableo - static_cast<size_t>(o)`. -/
def vtableOffset (tableo o : Nat) : Nat := (2 ^ 64 - soffsetSize o + tableo) % 2 ^ 64

/-! ## The readers of a table -/

namespace Table

variable (buf : List UInt8) (table : Nat)

def getVTable : Reads Nat := do
  let o ← readScalar buf soffset table
  return vtableOffset table o

def getOptionalFieldOffset (field : Nat) : Reads Nat := do
  let vtable ← getVTable buf table
  let vtsize ← readScalar buf voffset vtable
  if field < vtsize then readScalar buf voffset (vtable + field) else return 0

def getField (type : ScalarType) (field defaultval : Nat) : Reads Nat := do
  let fieldOffset ← getOptionalFieldOffset buf table field
  if fieldOffset ≠ 0 then readScalar buf type (table + fieldOffset) else return defaultval

def getPointer (field : Nat) : Reads (Option Nat) := do
  let fieldOffset ← getOptionalFieldOffset buf table field
  let p := table + fieldOffset
  if fieldOffset ≠ 0 then
    let o ← readScalar buf uoffset p
    return some (p + o)
  else return none

def checkField (field : Nat) : Reads Bool := do
  let fieldOffset ← getOptionalFieldOffset buf table field
  return fieldOffset ≠ 0

end Table

/-- `Vector::size()`. -/
def stringSize (buf : List UInt8) (str : Nat) : Reads Nat := readScalar buf uoffset str

/-- The `n` characters from `p` on. -/
def readChars (buf : List UInt8) : Nat → Nat → Reads (List Nat)
  | _, 0 => return []
  | p, n + 1 => do
    let c ← readScalar buf .int8 p
    let cs ← readChars buf (p + 1) n
    return c :: cs

/-- All of a string: its size, and what `c_str()` points to with the terminator. -/
def readString (buf : List UInt8) (str : Nat) : Reads (List Nat) := do
  let size ← stringSize buf str
  readChars buf (str + uoffset.sizeof) (size + 1)

/-- Reads what a pointer points to, unless it is null. -/
def follow (p : Option Nat) (read : Nat → Reads Unit) : Reads Unit :=
  match p with
  | none => return ()
  | some p => read p

theorem follow_reads (p : Option Nat) (read : Nat → Reads Unit) :
    (follow p read).reads = p.elim [] fun p => (read p).reads := by
  cases p with
  | none => rfl
  | some p => rfl

/-- `GetRoot<T>(buf)`. -/
def getRoot (buf : List UInt8) : Reads Nat := readScalar buf uoffset 0

/-! ## The verifier -/

/-- `VerifierTemplate::Options`. -/
structure Options where
  maxDepth : Nat := 64
  maxTables : Nat := 1000000
  checkAlignment : Bool := true
  maxSize : Nat := 2 ^ 31 - 1
deriving DecidableEq, Repr

structure VerifierTemplate where
  buf : List UInt8
  opts : Options := {}
deriving DecidableEq, Repr

/-- `depth_` and `num_tables_`. -/
structure Complexity where
  depth : Nat
  numTables : Nat
deriving DecidableEq, Repr

/-- `FLATBUFFERS_MIN_BUFFER_SIZE`. -/
def minBufferSize : Nat :=
  uoffset.sizeof + soffset.sizeof + ScalarType.uint16.sizeof + ScalarType.uint16.sizeof

namespace VerifierTemplate

variable (v : VerifierTemplate)

def verify (elem elemLen : Nat) : OptionT Reads Unit :=
  check (elemLen < v.buf.length && elem ≤ v.buf.length - elemLen)

def verifyAlignment (elem align : Nat) : OptionT Reads Unit :=
  check (elem &&& (align - 1) == 0 || !v.opts.checkAlignment)

/-- `Verify<T>(elem)`. -/
def verifyScalar (type : ScalarType) (elem : Nat) : OptionT Reads Unit := do
  v.verifyAlignment elem type.sizeof
  v.verify elem type.sizeof

def verifyField (type : ScalarType) (base elemOff align : Nat) : OptionT Reads Unit := do
  let f := base + elemOff
  v.verifyAlignment f align
  v.verify f type.sizeof

def verifyComplexity (c : Complexity) : OptionT Reads Complexity := do
  let c : Complexity := ⟨c.depth + 1, c.numTables + 1⟩
  check (c.depth ≤ v.opts.maxDepth && c.numTables ≤ v.opts.maxTables)
  return c

def endTable (c : Complexity) : Complexity := { c with depth := c.depth - 1 }

def verifyTableStart (table : Nat) (c : Complexity) : OptionT Reads Complexity := do
  v.verifyScalar soffset table
  let o ← readScalar v.buf soffset table
  let vtableo := vtableOffset table o
  let c ← v.verifyComplexity c
  v.verifyScalar voffset vtableo
  let size ← readScalar v.buf voffset vtableo
  v.verifyAlignment size voffset.sizeof
  let vsize ← readScalar v.buf voffset vtableo
  check (vsize &&& 1 == 0)
  v.verify vtableo vsize
  return c

/-- The failures are the zeros of the source. -/
def verifyOffset (start : Nat) : OptionT Reads Nat := do
  v.verifyScalar uoffset start
  let o ← readScalar v.buf uoffset start
  check (o != 0)
  -- `static_cast<soffset_t>(o) >= 0`
  check (o < 2 ^ 31)
  v.verify (start + o) 1
  return o

/-- Gives `end`. -/
def verifyVectorOrString (vec elemSize : Nat) : OptionT Reads Nat := do
  v.verifyScalar uoffset vec
  let size ← readScalar v.buf uoffset vec
  check (size < v.opts.maxSize / elemSize)
  let byteSize := uoffset.sizeof + elemSize * size
  v.verify vec byteSize
  return vec + byteSize

def verifyString : Option Nat → OptionT Reads Unit
  | none => return ()
  | some str => do
    let last ← v.verifyVectorOrString str 1
    v.verify last 1
    let c ← readScalar v.buf .uint8 last
    check (c == 0)

/-- `VerifyTable(table)`, with `verify` for `T::Verify`. -/
def verifyTable (verify : Nat → Complexity → OptionT Reads Complexity) (table : Option Nat)
    (c : Complexity) : OptionT Reads Complexity :=
  match table with
  | none => return c
  | some table => verify table c

end VerifierTemplate

namespace Table

def verifyField (v : VerifierTemplate) (table : Nat) (type : ScalarType) (field align : Nat) :
    OptionT Reads Unit := do
  let fieldOffset ← getOptionalFieldOffset v.buf table field
  if fieldOffset = 0 then return () else v.verifyField type table fieldOffset align

def verifyOffset (v : VerifierTemplate) (table field : Nat) : OptionT Reads Unit := do
  let fieldOffset ← getOptionalFieldOffset v.buf table field
  if fieldOffset = 0 then return () else discard (v.verifyOffset (table + fieldOffset))

end Table

/-! ## Generated tables -/

/-- The fields of a table in the order in which its generated `Verify` goes through them:
`VerifyField<T>(verifier, VT, align)` for a scalar, `VerifyOffset` and `VerifyString` or
`VerifyTable` for a string or a table. -/
inductive Schema
  | endTable
  | field (vt : Nat) (type : ScalarType) (align : Nat) (rest : Schema)
  | string (vt : Nat) (rest : Schema)
  | table (vt : Nat) (fields rest : Schema)
deriving DecidableEq, Repr

namespace Schema

/-- `Verify` after `VerifyTableStart`. -/
def verifyFields (v : VerifierTemplate) : Schema → Nat → Complexity → OptionT Reads Complexity
  | .endTable, _, c => return VerifierTemplate.endTable c
  | .field vt type align rest, tableo, c => do
    Table.verifyField v tableo type vt align
    rest.verifyFields v tableo c
  | .string vt rest, tableo, c => do
    Table.verifyOffset v tableo vt
    let str : Option Nat ← liftM (Table.getPointer v.buf tableo vt)
    v.verifyString str
    rest.verifyFields v tableo c
  | .table vt fields rest, tableo, c => do
    Table.verifyOffset v tableo vt
    let inner : Option Nat ← liftM (Table.getPointer v.buf tableo vt)
    let c ← VerifierTemplate.verifyTable (fun inner c => do
      let c ← v.verifyTableStart inner c
      fields.verifyFields v inner c) inner c
    rest.verifyFields v tableo c

/-- The accessors of a table, one after the other, with those of the strings and the tables that
they lead to. -/
def access (buf : List UInt8) : Schema → Nat → Reads Unit
  | .endTable, _ => return ()
  | .field vt type _ rest, tableo => do
    discard (Table.getField buf tableo type vt 0)
    rest.access buf tableo
  | .string vt rest, tableo => do
    let str ← Table.getPointer buf tableo vt
    follow str fun str => discard (readString buf str)
    rest.access buf tableo
  | .table vt fields rest, tableo => do
    let inner ← Table.getPointer buf tableo vt
    follow inner fun inner => fields.access buf inner
    rest.access buf tableo

/-- `T::Verify`. -/
def verify (v : VerifierTemplate) (fields : Schema) (tableo : Nat) (c : Complexity) :
    OptionT Reads Complexity := do
  let c ← v.verifyTableStart tableo c
  fields.verifyFields v tableo c

/-- What can be read after `GetRoot<T>(buf)`. -/
def accessRoot (buf : List UInt8) (fields : Schema) : Reads Unit := do
  let root ← getRoot buf
  fields.access buf root

/-- The slots of the vtable have two bytes, and a scalar is checked to be aligned to its size. -/
def WellFormed : Schema → Prop
  | .endTable => True
  | .field vt type align rest => 2 ∣ vt ∧ align = type.sizeof ∧ rest.WellFormed
  | .string vt rest => 2 ∣ vt ∧ rest.WellFormed
  | .table vt fields rest => 2 ∣ vt ∧ fields.WellFormed ∧ rest.WellFormed

instance decidableWellFormed : (fields : Schema) → Decidable fields.WellFormed
  | .endTable => inferInstanceAs (Decidable True)
  | .field vt type align rest =>
    have := decidableWellFormed rest
    inferInstanceAs (Decidable (2 ∣ vt ∧ align = type.sizeof ∧ rest.WellFormed))
  | .string vt rest =>
    have := decidableWellFormed rest
    inferInstanceAs (Decidable (2 ∣ vt ∧ rest.WellFormed))
  | .table vt fields rest =>
    have := decidableWellFormed fields
    have := decidableWellFormed rest
    inferInstanceAs (Decidable (2 ∣ vt ∧ fields.WellFormed ∧ rest.WellFormed))

/-- A field of eight bytes is present. -/
def hasWide (buf : List UInt8) : Schema → Nat → Bool
  | .endTable, _ => false
  | .field vt type _ rest, tableo =>
    (type.sizeof == 8 && (Table.checkField buf tableo vt).value) || rest.hasWide buf tableo
  | .string _ rest, tableo => rest.hasWide buf tableo
  | .table vt fields rest, tableo =>
    (Table.getPointer buf tableo vt).value.any (fields.hasWide buf) || rest.hasWide buf tableo

end Schema

/-- A table that `flatc` generates. -/
structure TableType where
  fields : Schema
  wellFormed : fields.WellFormed

/-- `VerifyBuffer<T>(nullptr)`. -/
def VerifierTemplate.verifyBuffer (v : VerifierTemplate) (t : TableType) : OptionT Reads Unit := do
  check (minBufferSize ≤ v.buf.length)
  let o ← v.verifyOffset 0
  check (o != 0)
  discard (t.fields.verify v o ⟨0, 0⟩)

/-! ## What the checks mean -/

/-- A scalar that lies inside the buffer, aligned to its size. -/
structure Fits (buf : List UInt8) (r : Read) : Prop where
  scalar : ∃ type : ScalarType, r.size = type.sizeof
  aligned : r.size ∣ r.offset
  inside : r.offset + r.size ≤ buf.length

variable {v : VerifierTemplate} {buf : List UInt8} {type : ScalarType} {table : Nat}

theorem and_sizeof (type : ScalarType) (n : Nat) : n &&& (type.sizeof - 1) = n % type.sizeof := by
  cases type with
  | uint8 | int8 => exact Nat.and_two_pow_sub_one_eq_mod n 0
  | uint16 => exact Nat.and_two_pow_sub_one_eq_mod n 1
  | int32 | uint32 | float => exact Nat.and_two_pow_sub_one_eq_mod n 2
  | uint64 | int64 => exact Nat.and_two_pow_sub_one_eq_mod n 3

section Checks

variable {P : Read → Prop}

theorem spec_verify (elem elemLen : Nat) :
    Spec (v.verify elem elemLen) P fun _ => elem + elemLen ≤ v.buf.length := by
  refine (spec_check _).mono fun _ h => ?_
  simp only [Bool.and_eq_true, decide_eq_true_eq] at h
  omega

theorem spec_verifyAlignment (ha : v.opts.checkAlignment = true) (elem : Nat) (type : ScalarType) :
    Spec (v.verifyAlignment elem type.sizeof) P fun _ => type.sizeof ∣ elem := by
  refine (spec_check _).mono fun _ h => ?_
  rw [ha, and_sizeof] at h
  exact Nat.dvd_of_mod_eq_zero (by simpa using h)

theorem spec_verifyScalar (ha : v.opts.checkAlignment = true) (type : ScalarType) (elem : Nat) :
    Spec (v.verifyScalar type elem) P fun _ => Fits v.buf ⟨elem, type.sizeof⟩ :=
  spec_bind (spec_verifyAlignment ha elem type) fun _ haligned =>
    (spec_verify elem type.sizeof).mono fun _ hinside => ⟨⟨type, rfl⟩, haligned, hinside⟩

theorem spec_verifyField (ha : v.opts.checkAlignment = true) (type : ScalarType) (base elemOff : Nat) :
    Spec (v.verifyField type base elemOff type.sizeof) P fun _ =>
      Fits v.buf ⟨base + elemOff, type.sizeof⟩ :=
  spec_verifyScalar ha type (base + elemOff)

end Checks

theorem spec_readScalar {p : Nat} (h : Fits buf ⟨p, type.sizeof⟩) :
    Spec (liftM (readScalar buf type p)) (Fits buf) (· = scalarAt buf type p) :=
  spec_lift fun r hr => by
    rw [readScalar_reads, List.mem_singleton] at hr
    exact hr ▸ h

/-- What `VerifyTableStart` has checked. -/
structure Started (buf : List UInt8) (table : Nat) : Prop where
  soffset : Fits buf ⟨table, soffset.sizeof⟩
  vtsize : Fits buf ⟨(Table.getVTable buf table).value, voffset.sizeof⟩
  even : 2 ∣ scalarAt buf voffset (Table.getVTable buf table).value
  vtable : (Table.getVTable buf table).value +
    scalarAt buf voffset (Table.getVTable buf table).value ≤ buf.length

theorem spec_verifyTableStart (ha : v.opts.checkAlignment = true) (table : Nat) (c : Complexity) :
    Spec (v.verifyTableStart table c) (Fits v.buf) fun _ => Started v.buf table := by
  refine spec_bind (spec_verifyScalar ha _ _) fun _ hsoffset => ?_
  refine spec_bind (spec_readScalar hsoffset) fun o ho => ?_
  refine spec_bind (Q := fun _ => True) ?_ fun c _ => ?_
  · exact spec_bind (spec_check _) fun _ _ => spec_pure trivial
  refine spec_bind (spec_verifyScalar ha _ _) fun _ hvtsize => ?_
  refine spec_bind (spec_readScalar hvtsize) fun size hsize => ?_
  refine spec_bind (spec_verifyAlignment ha _ _) fun _ heven => ?_
  refine spec_bind (spec_readScalar hvtsize) fun vsize hvsize => ?_
  refine spec_bind (spec_check _) fun _ _ => ?_
  refine spec_bind (spec_verify _ _) fun _ hvtable => spec_pure ?_
  subst ho hsize hvsize
  exact ⟨hsoffset, hvtsize, heven, hvtable⟩

/-! ## Reading a table that has been checked -/

theorem all_readScalar {p : Nat} (h : Fits buf ⟨p, type.sizeof⟩) :
    (readScalar buf type p).All (Fits buf) := fun r hr => by
  rw [readScalar_reads, List.mem_singleton] at hr
  exact hr ▸ h

theorem Started.all_fieldOffset (h : Started buf table) {vt : Nat} (hvt : 2 ∣ vt) :
    (Table.getOptionalFieldOffset buf table vt).All (Fits buf) := by
  unfold Table.getOptionalFieldOffset Table.getVTable
  refine all_bind.mpr ⟨all_bind.mpr ⟨all_readScalar h.soffset, all_pure _⟩, ?_⟩
  refine all_bind.mpr ⟨all_readScalar h.vtsize, ?_⟩
  split
  · next hlt =>
    -- both the slot and the size of the vtable are even, so the whole slot is in it
    have heven := h.even
    have hwhole := h.vtable
    refine all_readScalar ⟨⟨voffset, rfl⟩, Nat.dvd_add h.vtsize.aligned hvt, ?_⟩
    simp only [Table.getVTable, bind_value, pure_value, readScalar_value, ScalarType.sizeof] at *
    omega
  · exact all_pure _

theorem Started.spec_fieldOffset (h : Started v.buf table) {vt : Nat} (hvt : 2 ∣ vt) :
    Spec (liftM (Table.getOptionalFieldOffset v.buf table vt)) (Fits v.buf)
      (· = (Table.getOptionalFieldOffset v.buf table vt).value) :=
  spec_lift (h.all_fieldOffset hvt)

/-- The field is absent, or a scalar of its type. -/
def FieldFits (buf : List UInt8) (table vt : Nat) (type : ScalarType) : Prop :=
  (Table.getOptionalFieldOffset buf table vt).value = 0 ∨
    Fits buf ⟨table + (Table.getOptionalFieldOffset buf table vt).value, type.sizeof⟩

theorem Started.spec_verifyField (h : Started v.buf table) (ha : v.opts.checkAlignment = true)
    {vt : Nat} (hvt : 2 ∣ vt) (type : ScalarType) :
    Spec (Table.verifyField v table type vt type.sizeof) (Fits v.buf) fun _ =>
      FieldFits v.buf table vt type := by
  refine spec_bind (h.spec_fieldOffset hvt) fun offset hoffset => ?_
  split
  · next hzero => exact spec_pure (Or.inl (hoffset ▸ hzero))
  · exact (FlatBuffers.spec_verifyField ha type table offset).mono fun _ hfits =>
      Or.inr (hoffset ▸ hfits)

theorem spec_verifyOffset (ha : v.opts.checkAlignment = true) (start : Nat) :
    Spec (v.verifyOffset start) (Fits v.buf) fun o =>
      Fits v.buf ⟨start, uoffset.sizeof⟩ ∧ o = scalarAt v.buf uoffset start := by
  refine spec_bind (spec_verifyScalar ha _ _) fun _ hfits => ?_
  refine spec_bind (spec_readScalar hfits) fun o ho => ?_
  refine spec_bind (spec_check _) fun _ _ => spec_bind (spec_check _) fun _ _ => ?_
  exact spec_bind (spec_verify _ _) fun _ _ => spec_pure ⟨hfits, ho⟩

theorem Started.spec_verifyOffset (h : Started v.buf table) (ha : v.opts.checkAlignment = true)
    {vt : Nat} (hvt : 2 ∣ vt) :
    Spec (Table.verifyOffset v table vt) (Fits v.buf) fun _ => FieldFits v.buf table vt uoffset := by
  refine spec_bind (h.spec_fieldOffset hvt) fun offset hoffset => ?_
  split
  · next hzero => exact spec_pure (Or.inl (hoffset ▸ hzero))
  · refine spec_bind (FlatBuffers.spec_verifyOffset ha _) fun _ hfits => spec_pure ?_
    exact Or.inr (hoffset ▸ hfits.1)

theorem Started.all_getField (h : Started buf table) {vt : Nat} (hvt : 2 ∣ vt)
    (hfits : FieldFits buf table vt type) (defaultval : Nat) :
    (Table.getField buf table type vt defaultval).All (Fits buf) := by
  refine all_bind.mpr ⟨h.all_fieldOffset hvt, ?_⟩
  split
  · next hne => exact all_readScalar (hfits.resolve_left hne)
  · exact all_pure _

theorem Started.all_getPointer (h : Started buf table) {vt : Nat} (hvt : 2 ∣ vt)
    (hfits : FieldFits buf table vt uoffset) : (Table.getPointer buf table vt).All (Fits buf) := by
  refine all_bind.mpr ⟨h.all_fieldOffset hvt, ?_⟩
  split
  · next hne =>
    exact all_bind.mpr ⟨all_readScalar (hfits.resolve_left hne), all_pure _⟩
  · exact all_pure _

theorem all_readChars {p n : Nat} (h : p + n ≤ buf.length) : (readChars buf p n).All (Fits buf) := by
  induction n generalizing p with
  | zero => exact all_pure _
  | succ n ih =>
    refine all_bind.mpr ⟨all_readScalar ⟨⟨.int8, rfl⟩, Nat.one_dvd p, ?_⟩, ?_⟩
    · exact Nat.le_trans (Nat.add_le_add_left (Nat.succ_le_succ (Nat.zero_le n)) p) h
    · exact all_bind.mpr ⟨ih (by omega), all_pure _⟩

theorem spec_verifyString (ha : v.opts.checkAlignment = true) (str : Option Nat) :
    Spec (v.verifyString str) (Fits v.buf) fun _ =>
      (follow str fun str => discard (readString v.buf str)).All (Fits v.buf) := by
  cases str with
  | none => exact spec_pure (all_pure _)
  | some str =>
    unfold VerifierTemplate.verifyString VerifierTemplate.verifyVectorOrString
    refine spec_bind (Q := fun last => Fits v.buf ⟨str, uoffset.sizeof⟩ ∧
      last = str + (uoffset.sizeof + 1 * scalarAt v.buf uoffset str)) ?_ fun last hlast => ?_
    · refine spec_bind (spec_verifyScalar ha _ _) fun _ hfits => ?_
      refine spec_bind (spec_readScalar hfits) fun size hsize => ?_
      refine spec_bind (spec_check _) fun _ _ => ?_
      exact spec_bind (spec_verify _ _) fun _ _ => spec_pure ⟨hfits, hsize ▸ rfl⟩
    obtain ⟨hfits, rfl⟩ := hlast
    refine spec_bind (spec_verify _ 1) fun _ hend => ?_
    refine spec_bind (spec_readScalar ⟨⟨.uint8, rfl⟩, Nat.one_dvd _, hend⟩) fun _ _ => ?_
    refine (spec_check _).mono fun _ _ => ?_
    -- the terminator is in the buffer, so all characters are
    refine all_bind.mpr ⟨all_bind.mpr ⟨all_readScalar hfits, all_readChars ?_⟩, all_pure _⟩
    simp only [stringSize, readScalar_value]
    omega

/-! ## What is accepted can be read -/

/-- Field by field, what `Verify` has accepted the accessors can read. -/
theorem Schema.spec_verifyFields (ha : v.opts.checkAlignment = true) (fields : Schema)
    (hw : fields.WellFormed) (h : Started v.buf table) (c : Complexity) :
    Spec (fields.verifyFields v table c) (Fits v.buf) fun _ =>
      (fields.access v.buf table).All (Fits v.buf) := by
  induction fields generalizing table c with
  | endTable => exact spec_pure (all_pure _)
  | field vt type align rest ih =>
    obtain ⟨hvt, rfl, hrest⟩ := hw
    refine spec_bind (h.spec_verifyField ha hvt type) fun _ hfield => ?_
    refine (ih hrest h c).mono fun _ hall => all_bind.mpr ⟨?_, hall⟩
    exact all_bind.mpr ⟨h.all_getField hvt hfield 0, all_pure _⟩
  | string vt rest ih =>
    obtain ⟨hvt, hrest⟩ := hw
    refine spec_bind (h.spec_verifyOffset ha hvt) fun _ hfield => ?_
    have hpointer := h.all_getPointer hvt hfield
    refine spec_bind (spec_lift hpointer) fun str hstr => ?_
    refine spec_bind (spec_verifyString ha str) fun _ hstring => ?_
    refine (ih hrest h c).mono fun _ hall => ?_
    exact all_bind.mpr ⟨hpointer, all_bind.mpr ⟨hstr ▸ hstring, hall⟩⟩
  | table vt fields rest ih_fields ih =>
    obtain ⟨hvt, hfields, hrest⟩ := hw
    refine spec_bind (h.spec_verifyOffset ha hvt) fun _ hfield => ?_
    have hpointer := h.all_getPointer hvt hfield
    refine spec_bind (spec_lift hpointer) fun inner hinner => ?_
    refine spec_bind (Q := fun _ =>
      (follow inner fun inner => fields.access v.buf inner).All (Fits v.buf)) ?_ fun c hall => ?_
    · cases inner with
      | none => exact spec_pure (all_pure _)
      | some inner =>
        exact spec_bind (spec_verifyTableStart ha inner c) fun c hstarted =>
          ih_fields hfields hstarted c
    · refine (ih hrest h c).mono fun _ hall' => ?_
      exact all_bind.mpr ⟨hpointer, all_bind.mpr ⟨hinner ▸ hall, hall'⟩⟩

/-- **A verifier reads aligned scalars inside its buffer, whatever bytes it is given, and of a
buffer that it accepts so do the accessors.** -/
theorem verifyBuffer_spec (ha : v.opts.checkAlignment = true) (t : TableType) :
    Spec (v.verifyBuffer t) (Fits v.buf) fun _ => (t.fields.accessRoot v.buf).All (Fits v.buf) := by
  refine spec_bind (spec_check _) fun _ _ => ?_
  refine spec_bind (spec_verifyOffset ha 0) fun o ho => ?_
  obtain ⟨hroot, rfl⟩ := ho
  refine spec_bind (spec_check _) fun _ _ => ?_
  refine spec_bind (Q := fun _ =>
    (t.fields.access v.buf (scalarAt v.buf uoffset 0)).All (Fits v.buf)) ?_ fun _ hall => ?_
  · exact spec_bind (spec_verifyTableStart ha _ _) fun c hstarted =>
      t.fields.spec_verifyFields ha t.wellFormed hstarted c
  · exact spec_pure (all_bind.mpr ⟨all_readScalar hroot, hall⟩)

/-! ## Reads of eight bytes -/

theorem narrow_readScalar (buf : List UInt8) (type : ScalarType) (p : Nat) :
    (readScalar buf type p).All (·.size ≠ 8) ↔ type.sizeof ≠ 8 := by
  simp [All]

/-- The readers themselves look at nothing of eight bytes. -/
theorem narrow_fieldOffset (buf : List UInt8) (table vt : Nat) :
    (Table.getOptionalFieldOffset buf table vt).All (·.size ≠ 8) := by
  unfold Table.getOptionalFieldOffset Table.getVTable
  have hvoffset : ∀ p, (readScalar buf voffset p).All (·.size ≠ 8) := fun p =>
    (narrow_readScalar buf voffset p).mpr (by decide)
  refine all_bind.mpr ⟨all_bind.mpr ⟨(narrow_readScalar buf soffset _).mpr (by decide), all_pure _⟩, ?_⟩
  refine all_bind.mpr ⟨hvoffset _, ?_⟩
  split
  · exact hvoffset _
  · exact all_pure _

theorem narrow_getField (buf : List UInt8) (table vt defaultval : Nat) (type : ScalarType) :
    (Table.getField buf table type vt defaultval).All (·.size ≠ 8) ↔
      ¬ (type.sizeof = 8 ∧ (Table.checkField buf table vt).value = true) := by
  unfold Table.getField Table.checkField
  rw [all_bind, bind_value, pure_value, decide_eq_true_eq]
  split
  · next hne => simp [narrow_fieldOffset, narrow_readScalar, hne]
  · next hzero => simp [narrow_fieldOffset, all_pure, hzero]

theorem narrow_getPointer (buf : List UInt8) (table vt : Nat) :
    (Table.getPointer buf table vt).All (·.size ≠ 8) := by
  refine all_bind.mpr ⟨narrow_fieldOffset buf table vt, ?_⟩
  split
  · exact all_bind.mpr ⟨(narrow_readScalar buf uoffset _).mpr (by decide), all_pure _⟩
  · exact all_pure _

theorem narrow_readChars (buf : List UInt8) (p n : Nat) : (readChars buf p n).All (·.size ≠ 8) := by
  induction n generalizing p with
  | zero => exact all_pure _
  | succ n ih =>
    refine all_bind.mpr ⟨(narrow_readScalar buf .int8 p).mpr (by decide), ?_⟩
    exact all_bind.mpr ⟨ih (p + 1), all_pure _⟩

theorem narrow_readString (buf : List UInt8) (str : Nat) : (readString buf str).All (·.size ≠ 8) :=
  all_bind.mpr ⟨(narrow_readScalar buf uoffset str).mpr (by decide), narrow_readChars buf _ _⟩

/-- Scalars of eight bytes are read where a field of eight bytes is present. -/
theorem Schema.narrow_access (buf : List UInt8) (fields : Schema) (table : Nat) :
    (fields.access buf table).All (·.size ≠ 8) ↔ fields.hasWide buf table = false := by
  induction fields generalizing table with
  | endTable => exact ⟨fun _ => rfl, fun _ => all_pure _⟩
  | field vt type align rest ih =>
    have hfield : (discard (Table.getField buf table type vt 0) : Reads Unit).All (·.size ≠ 8) ↔
        (type.sizeof == 8 && (Table.checkField buf table vt).value) = false := by
      refine all_bind.trans ((and_iff_left (all_pure _)).trans ?_)
      rw [narrow_getField]
      simp
    refine all_bind.trans ?_
    rw [hfield, ih, hasWide, Bool.or_eq_false_iff]
  | string vt rest ih =>
    refine all_bind.trans ((and_iff_right (narrow_getPointer buf table vt)).trans ?_)
    refine all_bind.trans ((and_iff_right ?_).trans (ih table))
    cases (Table.getPointer buf table vt).value with
    | none => exact all_pure _
    | some str => exact all_bind.mpr ⟨narrow_readString buf str, all_pure _⟩
  | table vt fields rest ih_fields ih =>
    refine all_bind.trans ((and_iff_right (narrow_getPointer buf table vt)).trans ?_)
    refine all_bind.trans ?_
    rw [ih, hasWide, Bool.or_eq_false_iff]
    refine and_congr_left fun _ => ?_
    cases (Table.getPointer buf table vt).value with
    | none => exact ⟨fun _ => rfl, fun _ => all_pure _⟩
    | some inner => exact ih_fields inner

theorem Schema.narrow_accessRoot (buf : List UInt8) (fields : Schema) :
    (fields.accessRoot buf).All (·.size ≠ 8) ↔ fields.hasWide buf (getRoot buf).value = false := by
  refine all_bind.trans ((and_iff_right ?_).trans (fields.narrow_access buf _))
  exact (narrow_readScalar buf uoffset 0).mpr (by decide)

end FlatBuffers

end Us2d
