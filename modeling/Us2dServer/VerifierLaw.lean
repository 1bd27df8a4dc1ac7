import Us2dServer.FlatBuffers

/-!
# What the verifier accepts

`verifyBuffer_spec` says that what is accepted can be read.  This is the other half: the verifier
refuses nothing else.  `Schema.Valid` is what a table of a schema has to be, `height` is how deep
the tables below it are nested and `tables` how many they are.

    accepted  ↔  root, table and fields are valid, and nested at most `max_depth` deep with
                 at most `max_tables` tables                          (verifyBuffer_iff)
-/

namespace Us2d

namespace FlatBuffers

open Reads

/-! ## Validity -/

/-- An offset that leads forward to a byte of the buffer. -/
structure Refers (buf : List UInt8) (start o : Nat) : Prop where
  fits : Fits buf ⟨start, uoffset.sizeof⟩
  read : scalarAt buf uoffset start = o
  pos : 0 < o
  lt : o < 2 ^ 31
  inside : start + o < buf.length

/-- A table can start there; its vtable is not all of the buffer. -/
structure IsTable (buf : List UInt8) (table : Nat) : Prop where
  started : Started buf table
  vtable_lt : scalarAt buf voffset (Table.getVTable buf table).value < buf.length

structure IsString (buf : List UInt8) (maxSize str : Nat) : Prop where
  fits : Fits buf ⟨str, uoffset.sizeof⟩
  size_lt : scalarAt buf uoffset str < maxSize
  inside : str + uoffset.sizeof + scalarAt buf uoffset str < buf.length
  terminated : scalarAt buf .uint8 (str + uoffset.sizeof + scalarAt buf uoffset str) = 0

/-- The field is absent, or an offset that leads somewhere. -/
def PointerFits (buf : List UInt8) (table vt : Nat) : Prop :=
  (Table.getOptionalFieldOffset buf table vt).value = 0 ∨
    ∃ o, Refers buf (table + (Table.getOptionalFieldOffset buf table vt).value) o

namespace Schema

def Valid (buf : List UInt8) (maxSize : Nat) : Schema → Nat → Prop
  | .endTable, _ => True
  | .field vt type _ rest, tableo => FieldFits buf tableo vt type ∧ rest.Valid buf maxSize tableo
  | .string vt rest, tableo =>
    PointerFits buf tableo vt ∧
      (∀ str, (Table.getPointer buf tableo vt).value = some str → IsString buf maxSize str) ∧
        rest.Valid buf maxSize tableo
  | .table vt fields rest, tableo =>
    PointerFits buf tableo vt ∧
      (∀ inner, (Table.getPointer buf tableo vt).value = some inner →
        IsTable buf inner ∧ fields.Valid buf maxSize inner) ∧
        rest.Valid buf maxSize tableo

/-- How deep the tables below a table are nested. -/
def height (buf : List UInt8) : Schema → Nat → Nat
  | .endTable, _ => 0
  | .field _ _ _ rest, tableo | .string _ rest, tableo => rest.height buf tableo
  | .table vt fields rest, tableo =>
    max ((Table.getPointer buf tableo vt).value.elim 0 fun inner => 1 + fields.height buf inner)
      (rest.height buf tableo)

/-- How many tables there are below a table; one that is referred to twice counts twice. -/
def tables (buf : List UInt8) : Schema → Nat → Nat
  | .endTable, _ => 0
  | .field _ _ _ rest, tableo | .string _ rest, tableo => rest.tables buf tableo
  | .table vt fields rest, tableo =>
    ((Table.getPointer buf tableo vt).value.elim 0 fun inner => 1 + fields.tables buf inner) +
      rest.tables buf tableo

end Schema

/-! ## One check after the other -/

variable {v : VerifierTemplate} {type : ScalarType} {table elem start vt : Nat} {c c' : Complexity}

theorem gives_verify {n : Nat} {u : Unit} :
    Gives (v.verify elem n) u ↔ n < v.buf.length ∧ elem + n ≤ v.buf.length := by
  unfold VerifierTemplate.verify
  rw [gives_check, Bool.and_eq_true, decide_eq_true_eq, decide_eq_true_eq]
  omega

theorem gives_verifyAlignment (ha : v.opts.checkAlignment = true) {u : Unit} :
    Gives (v.verifyAlignment elem type.sizeof) u ↔ type.sizeof ∣ elem := by
  unfold VerifierTemplate.verifyAlignment
  rw [gives_check, ha, and_sizeof, Bool.not_true, Bool.or_false, beq_iff_eq]
  exact Nat.dvd_iff_mod_eq_zero.symm

/-- In a buffer that is not too small every scalar is shorter than the buffer. -/
theorem gives_verifyScalar (ha : v.opts.checkAlignment = true) (hmin : minBufferSize ≤ v.buf.length)
    {u : Unit} : Gives (v.verifyScalar type elem) u ↔ Fits v.buf ⟨elem, type.sizeof⟩ := by
  have hsize : type.sizeof < minBufferSize := by cases type <;> decide
  unfold VerifierTemplate.verifyScalar
  rw [gives_bind_unit, gives_verifyAlignment ha, gives_verify]
  constructor
  · rintro ⟨haligned, -, hinside⟩
    exact ⟨⟨type, rfl⟩, haligned, hinside⟩
  · intro h
    exact ⟨h.aligned, Nat.lt_of_lt_of_le hsize hmin, h.inside⟩

theorem gives_verifyComplexity : Gives (v.verifyComplexity c) c' ↔
    (c.depth + 1 ≤ v.opts.maxDepth ∧ c.numTables + 1 ≤ v.opts.maxTables) ∧
      ⟨c.depth + 1, c.numTables + 1⟩ = c' := by
  unfold VerifierTemplate.verifyComplexity
  rw [gives_bind_unit, gives_check, gives_pure, Bool.and_eq_true, decide_eq_true_eq, decide_eq_true_eq]

theorem gives_verifyTableStart (ha : v.opts.checkAlignment = true) (hmin : minBufferSize ≤ v.buf.length) :
    Gives (v.verifyTableStart table c) c' ↔ IsTable v.buf table ∧
      (c.depth + 1 ≤ v.opts.maxDepth ∧ c.numTables + 1 ≤ v.opts.maxTables) ∧
        ⟨c.depth + 1, c.numTables + 1⟩ = c' := by
  unfold VerifierTemplate.verifyTableStart
  simp only [gives_bind_unit, gives_bind_lift, gives_verifyScalar ha hmin, gives_verifyAlignment ha,
    gives_check, gives_verify, gives_pure, readScalar_value, Reads.gives_bind (x := v.verifyComplexity c),
    gives_verifyComplexity]
  constructor
  · rintro ⟨hsoffset, _, ⟨hlimits, rfl⟩, hvtsize, heven, -, ⟨hlt, hinside⟩, rfl⟩
    exact ⟨⟨⟨hsoffset, hvtsize, heven, hinside⟩, hlt⟩, hlimits, rfl⟩
  · rintro ⟨⟨⟨hsoffset, hvtsize, heven, hinside⟩, hlt⟩, hlimits, rfl⟩
    refine ⟨hsoffset, _, ⟨hlimits, rfl⟩, hvtsize, heven, ?_, ⟨hlt, hinside⟩, rfl⟩
    -- the size of a vtable is tested twice
    exact beq_iff_eq.mpr ((and_sizeof voffset _).trans (Nat.mod_eq_zero_of_dvd heven))

theorem gives_verifyOffset (ha : v.opts.checkAlignment = true) (hmin : minBufferSize ≤ v.buf.length)
    {o : Nat} : Gives (v.verifyOffset start) o ↔ Refers v.buf start o := by
  unfold VerifierTemplate.verifyOffset
  simp only [gives_bind_unit, gives_bind_lift, gives_verifyScalar ha hmin, gives_check, gives_verify,
    gives_pure, readScalar_value, bne_iff_ne]
  constructor
  · rintro ⟨hfits, hne, hlt, ⟨-, hinside⟩, rfl⟩
    exact ⟨hfits, rfl, Nat.pos_of_ne_zero hne, of_decide_eq_true hlt, hinside⟩
  · rintro ⟨hfits, rfl, hpos, hlt, hinside⟩
    have hone : 1 < v.buf.length := Nat.lt_of_lt_of_le (by decide) hmin
    exact ⟨hfits, Nat.ne_of_gt hpos, decide_eq_true hlt, ⟨hone, hinside⟩, rfl⟩

theorem gives_verifyVectorOrString (ha : v.opts.checkAlignment = true)
    (hmin : minBufferSize ≤ v.buf.length) {vec elemSize last : Nat} :
    Gives (v.verifyVectorOrString vec elemSize) last ↔ Fits v.buf ⟨vec, uoffset.sizeof⟩ ∧
      scalarAt v.buf uoffset vec < v.opts.maxSize / elemSize ∧
        (uoffset.sizeof + elemSize * scalarAt v.buf uoffset vec < v.buf.length ∧
          vec + (uoffset.sizeof + elemSize * scalarAt v.buf uoffset vec) ≤ v.buf.length) ∧
            vec + (uoffset.sizeof + elemSize * scalarAt v.buf uoffset vec) = last := by
  unfold VerifierTemplate.verifyVectorOrString
  simp only [gives_bind_unit, gives_bind_lift, gives_verifyScalar ha hmin, gives_verify, gives_pure,
    readScalar_value]
  exact and_congr_right' (and_congr_left' gives_check_decide)

theorem gives_verifyString (ha : v.opts.checkAlignment = true) (hmin : minBufferSize ≤ v.buf.length)
    {str : Option Nat} {u : Unit} :
    Gives (v.verifyString str) u ↔ ∀ s, str = some s → IsString v.buf v.opts.maxSize s := by
  cases str with
  | none => exact iff_of_true rfl fun s hs => by cases hs
  | some s =>
    have hone : 1 < v.buf.length := Nat.lt_of_lt_of_le (by decide) hmin
    unfold VerifierTemplate.verifyString
    rw [gives_bind]
    simp only [gives_verifyVectorOrString ha hmin, gives_bind_unit, gives_bind_lift, gives_check,
      gives_verify, readScalar_value, Nat.div_one, Nat.one_mul, beq_iff_eq, ← Nat.add_assoc]
    constructor
    · rintro ⟨last, ⟨hfits, hsize, -, rfl⟩, ⟨-, hinside⟩, hzero⟩ s' hs'
      cases hs'
      exact ⟨hfits, hsize, hinside, hzero⟩
    · intro h
      have hs := h s rfl
      have hinside := hs.inside
      exact ⟨_, ⟨hs.fits, hs.size_lt, by omega, rfl⟩, ⟨hone, hinside⟩, hs.terminated⟩

theorem gives_fieldFits (ha : v.opts.checkAlignment = true) (hmin : minBufferSize ≤ v.buf.length)
    {u : Unit} :
    Gives (Table.verifyField v table type vt type.sizeof) u ↔ FieldFits v.buf table vt type := by
  unfold Table.verifyField FieldFits
  rw [gives_bind_lift]
  split
  · next hzero => exact iff_of_true rfl (Or.inl hzero)
  · next hne => exact (gives_verifyScalar ha hmin).trans (or_iff_right hne).symm

theorem gives_pointerFits (ha : v.opts.checkAlignment = true) (hmin : minBufferSize ≤ v.buf.length)
    {u : Unit} : Gives (Table.verifyOffset v table vt) u ↔ PointerFits v.buf table vt := by
  unfold Table.verifyOffset PointerFits
  rw [gives_bind_lift]
  split
  · next hzero => exact iff_of_true rfl (Or.inl hzero)
  · next hne =>
    refine Iff.trans ?_ (or_iff_right hne).symm
    exact gives_bind.trans (exists_congr fun o => (and_iff_left rfl).trans (gives_verifyOffset ha hmin))

/-! ## One table after the other -/

/-- A table below the one that is verified, if there is one. -/
theorem gives_verifyTable (ha : v.opts.checkAlignment = true) (hmin : minBufferSize ≤ v.buf.length)
    {fields : Schema} {inner : Option Nat} (hd : c.depth ≤ v.opts.maxDepth)
    (ht : c.numTables ≤ v.opts.maxTables)
    (ih : ∀ (table : Nat) (c c' : Complexity), c.depth ≤ v.opts.maxDepth → c.numTables ≤ v.opts.maxTables →
      (Gives (fields.verifyFields v table c) c' ↔ fields.Valid v.buf v.opts.maxSize table ∧
        c.depth + fields.height v.buf table ≤ v.opts.maxDepth ∧
          c.numTables + fields.tables v.buf table ≤ v.opts.maxTables ∧
            ⟨c.depth - 1, c.numTables + fields.tables v.buf table⟩ = c')) :
    Gives (VerifierTemplate.verifyTable (fun inner c => do
        let c ← v.verifyTableStart inner c
        fields.verifyFields v inner c) inner c) c' ↔
      (∀ i, inner = some i → IsTable v.buf i ∧ fields.Valid v.buf v.opts.maxSize i) ∧
        c.depth + (inner.elim 0 fun i => 1 + fields.height v.buf i) ≤ v.opts.maxDepth ∧
          c.numTables + (inner.elim 0 fun i => 1 + fields.tables v.buf i) ≤ v.opts.maxTables ∧
            ⟨c.depth, c.numTables + (inner.elim 0 fun i => 1 + fields.tables v.buf i)⟩ = c' := by
  cases inner with
  | none =>
    exact gives_pure.trans ⟨fun h => ⟨fun _ hi => (nomatch hi), hd, ht, h⟩, fun h => h.2.2.2⟩
  | some i =>
    simp only [VerifierTemplate.verifyTable, gives_bind, gives_verifyTableStart ha hmin, Option.some.injEq,
      forall_eq', Option.elim_some]
    constructor
    · rintro ⟨_, ⟨htable, ⟨hdepth, hnum⟩, rfl⟩, hfields⟩
      obtain ⟨hvalid, hheight, htables, rfl⟩ := (ih i _ _ hdepth hnum).mp hfields
      simp only at hheight htables
      exact ⟨⟨htable, hvalid⟩, by omega, by omega, by simp only [Nat.add_assoc, Nat.add_sub_cancel]⟩
    · rintro ⟨⟨htable, hvalid⟩, hheight, htables, rfl⟩
      refine ⟨_, ⟨htable, ⟨by omega, by omega⟩, rfl⟩, (ih i _ _ ?_ ?_).mpr ⟨hvalid, ?_, ?_, ?_⟩⟩
      all_goals simp only [Nat.add_assoc, Nat.add_sub_cancel] at *
      all_goals omega

/-- **The verifier goes through the fields of a table and accepts the valid ones.** -/
theorem Schema.gives_verifyFields (ha : v.opts.checkAlignment = true)
    (hmin : minBufferSize ≤ v.buf.length) (fields : Schema) (hw : fields.WellFormed)
    (hd : c.depth ≤ v.opts.maxDepth) (ht : c.numTables ≤ v.opts.maxTables) :
    Gives (fields.verifyFields v table c) c' ↔ fields.Valid v.buf v.opts.maxSize table ∧
      c.depth + fields.height v.buf table ≤ v.opts.maxDepth ∧
        c.numTables + fields.tables v.buf table ≤ v.opts.maxTables ∧
          ⟨c.depth - 1, c.numTables + fields.tables v.buf table⟩ = c' := by
  induction fields generalizing table c c' with
  | endTable =>
    exact gives_pure.trans ⟨fun h => ⟨trivial, hd, ht, h⟩, fun h => h.2.2.2⟩
  | field vt type align rest ih =>
    obtain ⟨-, rfl, hrest⟩ := hw
    refine gives_bind_unit.trans ((and_congr (gives_fieldFits ha hmin) (ih hrest hd ht)).trans ?_)
    exact and_assoc.symm
  | string vt rest ih =>
    obtain ⟨-, hrest⟩ := hw
    refine gives_bind_unit.trans ((and_congr (gives_pointerFits ha hmin) ?_).trans and_assoc.symm)
    refine gives_bind_lift.trans (gives_bind_unit.trans ?_)
    exact (and_congr (gives_verifyString ha hmin) (ih hrest hd ht)).trans and_assoc.symm
  | table vt fields rest ih_fields ih =>
    obtain ⟨-, hfields, hrest⟩ := hw
    refine gives_bind_unit.trans ((and_congr (gives_pointerFits ha hmin) ?_).trans and_assoc.symm)
    refine gives_bind_lift.trans ?_
    rw [gives_bind]
    simp only [gives_verifyTable ha hmin hd ht fun table c c' hd ht => ih_fields hfields hd ht]
    have ih' := fun n c' (hn : n ≤ v.opts.maxTables) =>
      (ih hrest hd hn : Gives (rest.verifyFields v table ⟨c.depth, n⟩) c' ↔ _)
    constructor
    · rintro ⟨_, ⟨hinner, hheight, htables, rfl⟩, hmore⟩
      obtain ⟨hvalid, hheight', htables', rfl⟩ := (ih' _ _ htables).mp hmore
      simp only at hheight' htables'
      refine ⟨⟨hinner, hvalid⟩, ?_, ?_, ?_⟩
      · simp only [height]
        omega
      · simp only [tables]
        omega
      · simp only [tables, Nat.add_assoc]
    · rintro ⟨⟨hinner, hvalid⟩, hheight, htables, rfl⟩
      simp only [height] at hheight
      simp only [tables] at htables
      refine ⟨_, ⟨hinner, by omega, by omega, rfl⟩, (ih' _ _ ?_).mpr ⟨hvalid, ?_, ?_, ?_⟩⟩
      · omega
      · simp only
        omega
      · simp only
        omega
      · simp only [tables, Nat.add_assoc]

/-- The root of an acceptable buffer. -/
structure IsRoot (v : VerifierTemplate) (t : TableType) (root : Nat) : Prop where
  size : minBufferSize ≤ v.buf.length
  refers : Refers v.buf 0 root
  table : IsTable v.buf root
  valid : t.fields.Valid v.buf v.opts.maxSize root
  depth : 1 + t.fields.height v.buf root ≤ v.opts.maxDepth
  numTables : 1 + t.fields.tables v.buf root ≤ v.opts.maxTables

/-- **What `VerifyBuffer` accepts, whatever bytes it is given.** -/
theorem verifyBuffer_iff (v : VerifierTemplate) (ha : v.opts.checkAlignment = true) (t : TableType) :
    Gives (v.verifyBuffer t) () ↔ ∃ root, IsRoot v t root := by
  unfold VerifierTemplate.verifyBuffer
  rw [gives_bind_unit, gives_check, decide_eq_true_eq]
  constructor
  · rintro ⟨hmin, h⟩
    obtain ⟨root, hroot, h⟩ := gives_bind.mp h
    obtain ⟨-, h⟩ := gives_bind_unit.mp h
    obtain ⟨c, h, -⟩ := gives_bind.mp h
    obtain ⟨c₁, hstart, hfields⟩ := gives_bind.mp h
    obtain ⟨htable, hlimits, rfl⟩ := (gives_verifyTableStart ha hmin).mp hstart
    obtain ⟨hvalid, hdepth, hnum, -⟩ :=
      (t.fields.gives_verifyFields ha hmin t.wellFormed hlimits.1 hlimits.2).mp hfields
    exact ⟨root, hmin, (gives_verifyOffset ha hmin).mp hroot, htable, hvalid, by simpa using hdepth,
      by simpa using hnum⟩
  · rintro ⟨root, h⟩
    have hdepth := h.depth
    have hnum := h.numTables
    refine ⟨h.size, gives_bind.mpr ⟨root, (gives_verifyOffset ha h.size).mpr h.refers, ?_⟩⟩
    refine gives_bind_unit.mpr ⟨gives_check.mpr (bne_iff_ne.mpr (Nat.ne_of_gt h.refers.pos)), ?_⟩
    have hverify : Gives (t.fields.verify v root ⟨0, 0⟩) ⟨0, 1 + t.fields.tables v.buf root⟩ := by
      have hlimits : 1 ≤ v.opts.maxDepth ∧ 1 ≤ v.opts.maxTables := by omega
      refine gives_bind.mpr ⟨⟨1, 1⟩, (gives_verifyTableStart ha h.size).mpr ⟨h.table, hlimits, rfl⟩, ?_⟩
      exact (t.fields.gives_verifyFields ha h.size t.wellFormed hlimits.1 hlimits.2).mpr
        ⟨h.valid, hdepth, hnum, rfl⟩
    exact gives_bind.mpr ⟨_, hverify, rfl⟩

/-- Scalars and a subtable of floats, as `instantiate` has them. -/
def placedObject : TableType where
  fields := .field 4 .uint64 8 <| .field 6 .int32 4 <|
    .table 8 (.field 4 .float 4 <| .field 6 .float 4 <| .field 8 .float 4 .endTable) .endTable
  wellFormed := by decide

/-- Scalars and a string, as `chat` has them. -/
def signedText : TableType where
  fields := .field 4 .int8 1 <| .field 6 .uint64 8 <| .string 8 <| .field 10 .int64 8 .endTable
  wellFormed := by decide

def placedObjectBuffer : List UInt8 :=
  [20, 0, 0, 0, 0, 0, 0, 0, 0, 0, 10, 0, 22, 0, 12, 0, 4, 0, 8, 0, 10, 0, 0, 0, 1, 0, 0, 0, 20, 0, 0, 0,
    7, 0, 0, 0, 0, 0, 0, 0, 0, 0, 6, 0, 8, 0, 4, 0, 6, 0, 0, 0, 0, 0, 128, 63]

def signedTextBuffer : List UInt8 :=
  [20, 0, 0, 0, 0, 0, 0, 0, 12, 0, 28, 0, 7, 0, 12, 0, 8, 0, 20, 0, 12, 0, 0, 0, 0, 0, 0, 7, 20, 0, 0, 0,
    1, 0, 0, 0, 0, 0, 0, 0, 9, 0, 0, 0, 0, 0, 0, 0, 2, 0, 0, 0, 72, 105, 0, 0]

/-- Object 7 with its place and the text "Hi" are valid; a text that runs to the end of the buffer, without
a terminator, is not. -/
theorem verifyBuffer_iff_fields :
    (∃ root, IsRoot ⟨placedObjectBuffer, {}⟩ placedObject root) ∧
      (∃ root, IsRoot ⟨signedTextBuffer, {}⟩ signedText root) ∧
      ¬ ∃ root, IsRoot ⟨signedTextBuffer.take 54, {}⟩ signedText root := by
  refine ⟨(verifyBuffer_iff ⟨placedObjectBuffer, {}⟩ rfl placedObject).mp ?_,
    (verifyBuffer_iff ⟨signedTextBuffer, {}⟩ rfl signedText).mp ?_, fun h => ?_⟩
  · unfold Gives
    decide +kernel
  · unfold Gives
    decide +kernel
  · have hgives := (verifyBuffer_iff ⟨signedTextBuffer.take 54, {}⟩ rfl signedText).mpr h
    unfold Gives at hgives
    revert hgives
    decide +kernel

end FlatBuffers

end Us2d
