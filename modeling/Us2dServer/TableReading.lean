import Mathlib.Data.List.Nodup
import Us2dServer.TableLayout
import Us2dServer.VerifierLaw

/-!
# Reading what has been written

In a finished buffer a distance from the end is a position, aligned as the builder has aligned it
(`Image`).  There the readers of a table find what was added to it, and the default where nothing
was stored; and the table, its offsets and its strings are what the verifier asks for.
-/

namespace Us2d

namespace FlatBuffers

namespace FlatBufferBuilder

open Reads

variable {b : FlatBufferBuilder} {buf : List UInt8} {type : ScalarType} {off size value loc vt : Nat}
  {force : Bool} {adds : List Add}

/-! ## Scalars -/

theorem Image.length_le (h : Image b buf) : b.buf.length ≤ buf.length := h.suffix.length_le

theorem Image.aligned (h : Image b buf) (hp : Placed b off size) : size ∣ buf.length - off :=
  (Nat.dvd_sub (Nat.dvd_trans hp.minalign h.minalign) hp.aligned)

theorem Image.fits (h : Image b buf) (hp : Placed b off type.sizeof) :
    Fits buf ⟨buf.length - off, type.sizeof⟩ := by
  have hinside := hp.inside
  have hwritten := hp.written
  have hlength := h.length_le
  refine ⟨⟨type, rfl⟩, h.aligned hp, ?_⟩
  simp only
  omega

theorem Image.scalar (h : Image b buf) (hs : HasScalar b off type value) :
    scalarAt buf type (buf.length - off) = value :=
  (scalarFromEnd_suffix h.suffix hs.placed.written).trans hs.value

/-! ## Tables -/

section Tables

variable (h : Image b buf) (ht : HasTable b force adds loc vt)
include h ht

theorem Image.getVTable : (Table.getVTable buf (buf.length - loc)).value = buf.length - vt := by
  have hloc := ht.soffset.placed.written
  have hvt := ht.vtable.written
  have hlength := h.length_le
  have hsmall := h.small
  show vtableOffset (buf.length - loc) (scalarAt buf soffset (buf.length - loc)) = _
  rw [h.scalar ht.soffset, show 256 ^ soffset.sizeof = 2 ^ 32 from rfl, vtableOffset, soffsetSize]
  -- the vtable may lie before the table or behind it
  rcases Nat.lt_or_ge vt loc with hlt | hge
  · have hmod : (2 ^ 32 + vt - loc) % 2 ^ 32 = 2 ^ 32 + vt - loc := by omega
    rw [hmod, if_neg (by omega)]
    omega
  · have hmod : (2 ^ 32 + vt - loc) % 2 ^ 32 = vt - loc := by omega
    rw [hmod, if_pos (by omega)]
    omega

theorem Image.vtableSize :
    scalarAt buf voffset (Table.getVTable buf (buf.length - loc)).value =
      scalarFromEnd b.buf voffset vt := by
  rw [h.getVTable ht]
  exact scalarFromEnd_suffix h.suffix ht.vtable.written

/-- The slots of the vtable are found. -/
theorem Image.fieldOffset (field : Nat) :
    (Table.getOptionalFieldOffset buf (buf.length - loc) field).value = slotAt b.buf vt field := by
  have hwritten := ht.vtable.written
  have hinside := ht.vtable.inside
  have hlength := h.length_le
  have hslot : (Table.getOptionalFieldOffset buf (buf.length - loc) field).value =
      if field < scalarAt buf voffset (Table.getVTable buf (buf.length - loc)).value then
        scalarAt buf voffset ((Table.getVTable buf (buf.length - loc)).value + field)
      else 0 := by
    unfold Table.getOptionalFieldOffset
    simp only [bind_value, readScalar_value]
    exact apply_ite Reads.value _ _ _
  rw [hslot, h.vtableSize ht, slotAt]
  split
  · next hlt =>
    have hposition : buf.length - vt + field = buf.length - (vt - field) := by omega
    rw [h.getVTable ht, hposition]
    exact scalarFromEnd_suffix h.suffix (by omega)
  · rfl

theorem Image.isTable : IsTable buf (buf.length - loc) := by
  have hwritten := ht.vtable.written
  have hinside := ht.vtable.inside
  have hfour := ht.vtable.four_le
  have heven := ht.vtable.even
  have hfront := h.front
  have hlength := h.length_le
  have hwhole : 2 ∣ buf.length :=
    Nat.dvd_trans (Nat.dvd_trans (by decide : 2 ∣ soffset.sizeof) ht.soffset.placed.minalign) h.minalign
  simp only [ScalarType.sizeof] at hfront
  refine ⟨⟨h.fits ht.soffset.placed, ?_, ?_, ?_⟩, ?_⟩
  · rw [h.getVTable ht]
    refine ⟨⟨voffset, rfl⟩, ?_, ?_⟩
    · exact Nat.dvd_sub hwhole heven
    · simp only [ScalarType.sizeof]
      omega
  · rw [h.vtableSize ht]
    exact ht.vtable.evenSize
  · rw [h.vtableSize ht, h.getVTable ht]
    omega
  · rw [h.vtableSize ht]
    omega

/-! ### Fields -/

variable {field vt' defaultval e o : Nat} {a : Add}

/-- A field that was stored is where its slot says. -/
theorem Image.present (ha : a ∈ adds) (hstored : a.stored force = true) :
    ∃ off, 0 < off ∧ (∀ o ∈ a.target, o < off) ∧ HasScalar b off a.type (a.content off) ∧
      (Table.getOptionalFieldOffset buf (buf.length - loc) a.field).value ≠ 0 ∧
      buf.length - loc + (Table.getOptionalFieldOffset buf (buf.length - loc) a.field).value =
        buf.length - off := by
  obtain ⟨off, hoff, htarget, hslot, hscalar⟩ := ht.present a ha hstored
  have hinside := hscalar.placed.inside
  have hsize : 0 < a.type.sizeof := by cases a.type <;> decide
  have hloc := ht.soffset.placed.written
  have hlength := h.length_le
  refine ⟨off, Nat.lt_of_lt_of_le hsize hinside, htarget, hscalar, ?_, ?_⟩
  · rw [h.fieldOffset ht, hslot]
    omega
  · rw [h.fieldOffset ht, hslot]
    omega

theorem Image.absent (hfields : (adds.map Add.field).Nodup) (ha : a ∈ adds)
    (hwf : a.WellFormed b.buf.length) (hstored : a.stored force = false) :
    (Table.getOptionalFieldOffset buf (buf.length - loc) a.field).value = 0 := by
  rw [h.fieldOffset ht]
  refine ht.absent a.field hwf.even hwf.four_le fun a' ha' hstored' heq => ?_
  rw [List.inj_on_of_nodup_map hfields ha' ha heq, hstored] at hstored'
  cases hstored'

/-- **A scalar field is what was added, or the default if that was equal to it.** -/
theorem Image.getField (hfields : (adds.map Add.field).Nodup)
    (ha : Add.element field type e defaultval ∈ adds)
    (hwf : (Add.element field type e defaultval).WellFormed b.buf.length) :
    FieldFits buf (buf.length - loc) field type ∧
      (Table.getField buf (buf.length - loc) type field defaultval).value =
        if (Add.element field type e defaultval).stored force then e % 256 ^ type.sizeof else defaultval := by
  unfold Table.getField
  rw [bind_value, apply_ite Reads.value, pure_value, readScalar_value]
  cases hstored : (Add.element field type e defaultval).stored force with
  | true =>
    obtain ⟨off, -, -, hscalar, hne, hposition⟩ := h.present ht ha hstored
    simp only [Add.field] at hne hposition
    rw [if_pos hne, if_pos rfl, FieldFits, hposition]
    exact ⟨Or.inr (h.fits hscalar.placed), h.scalar hscalar⟩
  | false =>
    have hzero := h.absent ht hfields ha hwf hstored
    simp only [Add.field] at hzero
    rw [FieldFits, hzero]
    exact ⟨Or.inl rfl, rfl⟩

/-- **An offset leads to what it was made for.** -/
theorem Image.getPointer (hfields : (adds.map Add.field).Nodup) (ha : Add.offset field o ∈ adds)
    (hwf : (Add.offset field o).WellFormed b.buf.length) :
    PointerFits buf (buf.length - loc) field ∧
      (Table.getPointer buf (buf.length - loc) field).value =
        if o = 0 then none else some (buf.length - o) := by
  unfold Table.getPointer
  rw [bind_value, apply_ite Reads.value, pure_value, bind_value, pure_value, readScalar_value]
  by_cases ho : o = 0
  · subst ho
    have hzero := h.absent ht hfields ha hwf rfl
    simp only [Add.field] at hzero
    rw [PointerFits, hzero]
    exact ⟨Or.inl rfl, rfl⟩
  · have hstored : (Add.offset field o).stored force = true := by simpa [Add.stored] using ho
    obtain ⟨off, hpos, htarget, hscalar, hne, hposition⟩ := h.present ht ha hstored
    have hlt := htarget o rfl
    have hwritten := hscalar.placed.written
    have hlength := h.length_le
    have hsmall := h.small
    have hread : scalarAt buf uoffset (buf.length - off) = off - o := by
      refine (h.scalar hscalar).trans (Nat.mod_eq_of_lt ?_)
      simp only [ScalarType.sizeof]
      omega
    simp only [Add.field] at hne hposition
    rw [if_pos hne, if_neg ho, PointerFits, hposition, hread]
    refine ⟨Or.inr ⟨off - o, h.fits hscalar.placed, hread, by omega, by omega, by omega⟩, ?_⟩
    exact congrArg some (by omega)

end Tables

/-! ## Strings -/

theorem value_readChars {p n : Nat} (hinside : p + n ≤ buf.length) :
    (readChars buf p n).value = ((buf.drop p).take n).map UInt8.toNat := by
  induction n generalizing p with
  | zero => rw [List.take_zero]; rfl
  | succ n ih =>
    have hhead : scalarAt buf .int8 p = buf[p].toNat := by
      rw [scalarAt, List.drop_eq_getElem_cons (by omega)]
      exact Nat.add_zero _
    have htail := ih (p := p + 1) (by omega)
    rw [List.drop_eq_getElem_cons (by omega), List.take_succ_cons, List.map_cons, ← htail, ← hhead]
    rfl

/-- **A string is read with its terminator.** -/
theorem Image.readString (h : Image b buf) {str : List UInt8} (hs : HasString b str off) (maxSize : Nat)
    (hmax : str.length < maxSize) :
    IsString buf maxSize (buf.length - off) ∧ (stringSize buf (buf.length - off)).value = str.length ∧
      (FlatBuffers.readString buf (buf.length - off)).value = str.map UInt8.toNat ++ [0] := by
  have hinside := hs.inside
  have hwritten := hs.size.placed.written
  have hlength := h.length_le
  have hsmall := h.small
  have hsize : scalarAt buf uoffset (buf.length - off) = str.length := by
    refine (h.scalar hs.size).trans (Nat.mod_eq_of_lt ?_)
    simp only [ScalarType.sizeof]
    omega
  have hposition : buf.length - off + uoffset.sizeof = buf.length - (off - uoffset.sizeof) := by omega
  have hchars : (buf.drop (buf.length - off + uoffset.sizeof)).take (str.length + 1) = str ++ [0] := by
    rw [hposition, drop_suffix h.suffix (by omega)]
    exact hs.chars
  refine ⟨⟨h.fits hs.size.placed, by rwa [hsize], by rw [hsize]; omega, ?_⟩, hsize, ?_⟩
  · -- the character after the last one
    rw [hsize, ← scalarAt_take_drop (n := str.length + 1) (Nat.le_refl _), hchars, ← Nat.add_zero str.length,
      scalarAt_append_right]
    rfl
  · show (readChars buf (buf.length - off + uoffset.sizeof)
      (scalarAt buf uoffset (buf.length - off) + 1)).value = _
    rw [hsize, value_readChars (by omega), hchars, List.map_append]
    rfl

/-! ## The root -/

/-- What `Finish` has made of a table is accepted, if the fields of the table are valid. -/
theorem Image.verifyBuffer (h : Image b buf) (ht : HasTable b force adds loc vt)
    (hroot : scalarAt buf uoffset 0 = buf.length - loc) (t : TableType)
    (hvalid : t.fields.Valid buf ({} : Options).maxSize (buf.length - loc))
    (hdepth : t.fields.height buf (buf.length - loc) ≤ 63)
    (hnum : t.fields.tables buf (buf.length - loc) ≤ 999999) :
    ((VerifierTemplate.mk buf {}).verifyBuffer t).run.value = some () := by
  have height := ht.length
  have hfront := h.front
  have hloc := ht.soffset.placed.written
  have hinside := ht.soffset.placed.inside
  have hsmall := h.small
  simp only [ScalarType.sizeof] at hfront hinside
  refine (verifyBuffer_iff _ rfl t).mpr ⟨buf.length - loc, ?_, ⟨⟨⟨uoffset, rfl⟩, Nat.dvd_zero _, ?_⟩, hroot,
    by omega, by omega, ?_⟩, h.isTable ht, hvalid, ?_, ?_⟩
  all_goals simp only [minBufferSize, ScalarType.sizeof]
  all_goals omega

end FlatBufferBuilder

end FlatBuffers

end Us2d
