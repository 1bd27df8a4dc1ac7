import Mathlib.Data.Option.Basic
import Us2dServer.FlatBufferBuilder

/-!
# What the builder has written

What is written stays where it is while the buffer grows (`Extends`), so a table and a string are
described by distances from the end: `HasTable` and `HasString`.  Each operation of the builder
adds one of them and keeps the others.  A vtable may serve several tables.
-/

namespace Us2d

namespace FlatBuffers

namespace FlatBufferBuilder

/-! ## What is added to a table -/

namespace Add

def field : Add → Nat
  | element field _ _ _ | offset field _ => field

def type : Add → ScalarType
  | element _ type _ _ => type
  | offset _ _ => uoffset

/-- A value equal to the default is not stored, and neither is a null offset. -/
def stored (forceDefaults : Bool) : Add → Bool
  | element _ type e defaultval => !(isTheSameAs type e defaultval && !forceDefaults)
  | offset _ o => o ≠ 0

/-- What is stored at distance `off` from the end. -/
def content (off : Nat) : Add → Nat
  | element _ type e _ => e % 256 ^ type.sizeof
  | offset _ o => (off - o) % 256 ^ uoffset.sizeof

/-- What an offset refers to. -/
def target : Add → Option Nat
  | element _ _ _ _ => none
  | offset _ o => some o

/-- The slot fits into a vtable, and an offset into what has been written. -/
structure WellFormed (length : Nat) (a : Add) : Prop where
  even : 2 ∣ a.field
  four_le : 4 ≤ a.field
  lt : a.field + 2 < 2 ^ 16
  target : ∀ o ∈ a.target, o ≤ length

end Add

variable {b b' b'' : FlatBufferBuilder} {type : ScalarType} {off size e : Nat}

/-! ## Growth -/

structure Extends (b b' : FlatBufferBuilder) : Prop where
  buf : b.buf <:+ b'.buf
  minalign : b.minalign ∣ b'.minalign

theorem Extends.refl (b : FlatBufferBuilder) : Extends b b := ⟨List.suffix_rfl, Nat.dvd_refl _⟩

theorem Extends.trans (h : Extends b b') (h' : Extends b' b'') : Extends b b'' :=
  ⟨h.buf.trans h'.buf, Nat.dvd_trans h.minalign h'.minalign⟩

theorem Extends.length_le (h : Extends b b') : b.buf.length ≤ b'.buf.length := h.buf.length_le

/-- Something of `size` bytes starts at distance `off` from the end, aligned to its size. -/
structure Placed (b : FlatBufferBuilder) (off size : Nat) : Prop where
  aligned : size ∣ off
  inside : size ≤ off
  written : off ≤ b.buf.length
  minalign : size ∣ b.minalign

theorem Placed.mono (h : Placed b off size) (hext : Extends b b') : Placed b' off size :=
  ⟨h.aligned, h.inside, Nat.le_trans h.written hext.length_le, Nat.dvd_trans h.minalign hext.minalign⟩

/-- A scalar with its value. -/
structure HasScalar (b : FlatBufferBuilder) (off : Nat) (type : ScalarType) (value : Nat) : Prop where
  placed : Placed b off type.sizeof
  value : scalarFromEnd b.buf type off = value

theorem HasScalar.mono {value : Nat} (h : HasScalar b off type value) (hext : Extends b b') :
    HasScalar b' off type value :=
  ⟨h.placed.mono hext, (scalarFromEnd_suffix hext.buf h.placed.written).trans h.value⟩

/-! ## Pushing -/

theorem trackMinAlign_dvd (hb : IsAlignment b.minalign) (hs : IsAlignment size) :
    IsAlignment (b.trackMinAlign size).minalign ∧ b.minalign ∣ (b.trackMinAlign size).minalign ∧
      size ∣ (b.trackMinAlign size).minalign := by
  unfold trackMinAlign
  split
  · next hlt => exact ⟨hs, hb.dvd hs (Nat.le_of_lt hlt), Nat.dvd_refl _⟩
  · next hle => exact ⟨hb, Nat.dvd_refl _, hs.dvd hb (Nat.le_of_not_lt hle)⟩

theorem trackMinAlign_eq (b : FlatBufferBuilder) (size : Nat) :
    b.trackMinAlign size = { b with minalign := (b.trackMinAlign size).minalign } := by
  unfold trackMinAlign
  split <;> rfl

/-- `Align` pads up to the next multiple. -/
theorem align_eq (b : FlatBufferBuilder) (size : Nat) : b.align size =
    { b with buf := List.replicate (paddingBytes b.buf.length size) 0 ++ b.buf
             minalign := (b.trackMinAlign size).minalign } := by
  unfold align fill
  rw [trackMinAlign_eq]

theorem preAlign_eq (b : FlatBufferBuilder) {len : Nat} (hlen : 0 < len) (size : Nat) :
    b.preAlign len size =
      { b with buf := List.replicate (paddingBytes (b.buf.length + len) size) 0 ++ b.buf
               minalign := (b.trackMinAlign size).minalign } := by
  unfold preAlign fill
  rw [if_neg (by omega), trackMinAlign_eq]

/-- What `PushElement` gives, and where it puts the element. -/
structure Pushed (b : FlatBufferBuilder) (type : ScalarType) (e off : Nat) (b' : FlatBufferBuilder) :
    Prop where
  buf : b'.buf = littleEndianBytes type.sizeof e ++
    (List.replicate (paddingBytes b.buf.length type.sizeof) 0 ++ b.buf)
  off_eq : off = b'.buf.length
  scalar : HasScalar b' off type (e % 256 ^ type.sizeof)
  extend : Extends b b'
  isAlignment : IsAlignment b'.minalign
  frame : b' = { b with buf := b'.buf, minalign := b'.minalign }

theorem pushElement_pushed (hb : IsAlignment b.minalign) (type : ScalarType) (e : Nat) :
    Pushed b type e (b.pushElement type e).1 (b.pushElement type e).2 := by
  obtain ⟨hm, hdvd, hsize⟩ := trackMinAlign_dvd hb (isAlignment_sizeof type)
  have hpad := dvd_add_paddingBytes (isAlignment_sizeof type) b.buf.length
  unfold pushElement pushBytes
  rw [align_eq]
  refine ⟨rfl, rfl, ⟨⟨?_, ?_, Nat.le_refl _, hsize⟩, ?_⟩, ⟨?_, hdvd⟩, hm, rfl⟩
  · simp only [List.length_append, length_littleEndianBytes, List.length_replicate]
    rw [Nat.add_comm (paddingBytes _ _)]
    exact Nat.dvd_add (Nat.dvd_refl _) hpad
  · simp
  · rw [scalarFromEnd, Nat.sub_self, scalarAt_bytes]
  · exact (List.suffix_append _ _).trans (List.suffix_append _ _)

theorem Pushed.length (h : Pushed b type e off b') :
    off = b.buf.length + paddingBytes b.buf.length type.sizeof + type.sizeof := by
  rw [h.off_eq, h.buf]
  simp only [List.length_append, length_littleEndianBytes, List.length_replicate]
  omega

/-- An element takes less than twice its size, and no more than that if the buffer is aligned. -/
theorem Pushed.length_lt (h : Pushed b type e off b') :
    b.buf.length < off ∧ off < b.buf.length + 2 * type.sizeof := by
  have hlength := h.length
  have hpad := paddingBytes_lt (isAlignment_sizeof type) b.buf.length
  omega

/-! ## Vtables -/

/-- The slot of a field in the vtable at `vt`, as `GetOptionalFieldOffset` reads it. -/
def slotAt (buf : List UInt8) (vt field : Nat) : Nat :=
  if field < scalarFromEnd buf voffset vt then scalarFromEnd buf voffset (vt - field) else 0

/-- A vtable starts at distance `vt` from the end. -/
structure IsVtable (buf : List UInt8) (vt : Nat) : Prop where
  even : 2 ∣ vt
  written : vt ≤ buf.length
  evenSize : 2 ∣ scalarFromEnd buf voffset vt
  four_le : 4 ≤ scalarFromEnd buf voffset vt
  inside : scalarFromEnd buf voffset vt ≤ vt

theorem IsVtable.suffix {buf buf' : List UInt8} {vt : Nat} (h : IsVtable buf vt) (hs : buf <:+ buf') :
    IsVtable buf' vt := by
  have hsize : scalarFromEnd buf' voffset vt = scalarFromEnd buf voffset vt :=
    scalarFromEnd_suffix hs h.written
  refine ⟨h.even, Nat.le_trans h.written hs.length_le, ?_, ?_, ?_⟩
  · rw [hsize]
    exact h.evenSize
  · rw [hsize]
    exact h.four_le
  · rw [hsize]
    exact h.inside

theorem slotAt_suffix {buf buf' : List UInt8} {vt : Nat} (h : IsVtable buf vt) (hs : buf <:+ buf')
    (field : Nat) : slotAt buf' vt field = slotAt buf vt field := by
  have hwritten := h.written
  unfold slotAt
  rw [scalarFromEnd_suffix hs h.written, scalarFromEnd_suffix hs (by omega)]

/-! ## The fields of a table -/

/-- The field of `a` is at `l`. -/
structure Located (b : FlatBufferBuilder) (a : Add) (l : FieldLoc) : Prop where
  id : l.id = a.field
  scalar : HasScalar b l.off a.type (a.content l.off)

/-- `b` after `adds` to the table begun in `b₀`. -/
structure Adding (b₀ : FlatBufferBuilder) (adds : List Add) (b : FlatBufferBuilder) : Prop where
  extend : Extends b₀ b
  frame : b = { b₀ with buf := b.buf, minalign := b.minalign, fieldLocs := b.fieldLocs,
                        maxVoffset := b.maxVoffset }
  isAlignment : IsAlignment b.minalign
  ids : b.fieldLocs.map FieldLoc.id = (adds.filter (Add.stored b₀.forceDefaults)).map Add.field
  located : ∀ a ∈ adds, a.stored b₀.forceDefaults = true → ∃ l ∈ b.fieldLocs, Located b a l
  fieldLoc : ∀ l ∈ b.fieldLocs, b₀.buf.length < l.off ∧ l.off ≤ b.buf.length ∧ l.id ≤ b.maxVoffset
  maxVoffset : b.maxVoffset = 0 ∨ ∃ a ∈ adds, a.field = b.maxVoffset
  length : b.buf.length ≤ b₀.buf.length + 16 * adds.length

variable {b₀ : FlatBufferBuilder} {adds : List Add} {a : Add}

theorem Adding.start (h : IsAlignment b₀.minalign) (hlocs : b₀.fieldLocs = []) (hmax : b₀.maxVoffset = 0) :
    Adding b₀ [] b₀ where
  extend := Extends.refl b₀
  frame := rfl
  isAlignment := h
  ids := by rw [hlocs]; rfl
  located := fun a ha => absurd ha List.not_mem_nil
  fieldLoc := fun l hl => by rw [hlocs] at hl; cases hl
  maxVoffset := Or.inl hmax
  length := Nat.le_add_right _ _

theorem referTo_eq {o : Nat} (ho : o ≠ 0) (hle : o ≤ (b.align uoffset.sizeof).buf.length) :
    b.referTo o = some ((b.align uoffset.sizeof).buf.length - o + uoffset.sizeof, b.align uoffset.sizeof) :=
  if_pos ⟨ho, hle⟩

/-- Nothing is stored. -/
theorem Adding.skip (h : Adding b₀ adds b) (ha : a.stored b₀.forceDefaults = false) :
    Adding b₀ (adds ++ [a]) b := by
  refine { h with ids := ?_, located := fun a' ha' hstored => ?_, maxVoffset := ?_, length := ?_ }
  · rw [h.ids, List.filter_append, List.filter_cons_of_neg (by simp [ha]), List.filter_nil,
      List.append_nil]
  · rcases List.mem_append.mp ha' with ha' | ha'
    · exact h.located a' ha' hstored
    · rw [List.mem_singleton.mp ha', ha] at hstored
      cases hstored
  · exact h.maxVoffset.imp_right fun ⟨a', ha', hmax⟩ => ⟨a', List.mem_append_left _ ha', hmax⟩
  · have := h.length
    rw [List.length_append, List.length_singleton]
    omega

/-- The element of `a` is pushed and tracked. -/
theorem Adding.push {b₁ b₂ : FlatBufferBuilder} (h : Adding b₀ adds b)
    (ha : a.stored b₀.forceDefaults = true) (hext : Extends b b₁)
    (hframe : b₁ = { b with buf := b₁.buf, minalign := b₁.minalign })
    (hp : Pushed b₁ a.type e off b₂) (hcontent : e % 256 ^ a.type.sizeof = a.content off)
    (hlength : off ≤ b.buf.length + 16) : Adding b₀ (adds ++ [a]) (b₂.trackField a.field off) := by
  have hext₂ : Extends b (b₂.trackField a.field off) :=
    ⟨(hext.trans hp.extend).buf, (hext.trans hp.extend).minalign⟩
  have hlocs : b₂.fieldLocs = b.fieldLocs := by rw [hp.frame, hframe]
  have hmax : b₂.maxVoffset = b.maxVoffset := by rw [hp.frame, hframe]
  have hscalar : HasScalar (b₂.trackField a.field off) off a.type (a.content off) := by
    rw [← hcontent]
    exact hp.scalar.mono ⟨List.suffix_rfl, Nat.dvd_refl _⟩
  have hstart : b₀.buf.length < off :=
    Nat.lt_of_le_of_lt (h.extend.trans hext).length_le hp.length_lt.1
  have hnew : b₂.buf.length = off := hp.off_eq.symm
  refine ⟨h.extend.trans hext₂, ?_, hp.isAlignment, ?_, fun a' ha' hstored => ?_, fun l hl => ?_, ?_, ?_⟩
  · have hframe₂ := hp.frame
    rw [hframe, h.frame] at hframe₂
    rw [hframe₂]
    rfl
  · show (b₂.fieldLocs ++ [FieldLoc.mk off a.field]).map FieldLoc.id = _
    rw [hlocs, List.map_append, h.ids, List.filter_append, List.filter_cons_of_pos ha, List.filter_nil,
      List.map_append]
    rfl
  · rcases List.mem_append.mp ha' with ha' | ha'
    · obtain ⟨l, hl, hloc⟩ := h.located a' ha' hstored
      exact ⟨l, List.mem_append_left _ (hlocs ▸ hl), hloc.id, hloc.scalar.mono hext₂⟩
    · rw [List.mem_singleton.mp ha']
      exact ⟨⟨off, a.field⟩, List.mem_append_right _ (List.mem_singleton_self _), rfl, hscalar⟩
  · show _ ∧ _ ≤ b₂.buf.length ∧ _ ≤ max b₂.maxVoffset a.field
    rcases List.mem_append.mp (show l ∈ b₂.fieldLocs ++ [FieldLoc.mk off a.field] from hl) with hl | hl
    · obtain ⟨h₁, h₂, h₃⟩ := h.fieldLoc l (hlocs ▸ hl)
      have := hext₂.length_le
      exact ⟨h₁, Nat.le_trans h₂ this, by rw [hmax]; omega⟩
    · rw [List.mem_singleton.mp hl]
      exact ⟨hstart, Nat.le_of_eq hnew.symm, Nat.le_max_right _ _⟩
  · show max b₂.maxVoffset a.field = 0 ∨ ∃ a' ∈ adds ++ [a], a'.field = max b₂.maxVoffset a.field
    rw [hmax]
    rcases Nat.le_total b.maxVoffset a.field with hle | hle
    · rw [Nat.max_eq_right hle]
      exact Or.inr ⟨a, List.mem_append_right _ (List.mem_singleton_self a), rfl⟩
    · rw [Nat.max_eq_left hle]
      exact h.maxVoffset.imp_right fun ⟨a', ha', hmax⟩ => ⟨a', List.mem_append_left _ ha', hmax⟩
  · show b₂.buf.length ≤ _
    have := h.length
    rw [hnew, List.length_append, List.length_singleton]
    omega

/-- **A step of `Create`.** -/
theorem Adding.add (h : Adding b₀ adds b) (hwf : a.WellFormed b₀.buf.length) :
    ∃ b', b.add a = some b' ∧ Adding b₀ (adds ++ [a]) b' := by
  have hforce : b.forceDefaults = b₀.forceDefaults := by rw [h.frame]
  cases a with
  | element field type e defaultval =>
    refine ⟨_, rfl, ?_⟩
    unfold addElement
    split
    · next hsame =>
      rw [hforce] at hsame
      exact h.skip (by simp [Add.stored, hsame])
    · next hdiffers =>
      rw [hforce] at hdiffers
      have hp := pushElement_pushed h.isAlignment type e
      have hsize : type.sizeof ≤ 8 := by cases type <;> simp [ScalarType.sizeof]
      have hlength := hp.length_lt
      show Adding b₀ _ ((b.pushElement type e).2.trackField field (b.pushElement type e).1)
      exact h.push (by simp [Add.stored, hdiffers]) (Extends.refl b) rfl hp rfl (by omega)
  | offset field o =>
    by_cases ho : o = 0
    · subst ho
      exact ⟨b, rfl, h.skip rfl⟩
    · obtain ⟨hm, hdvd, hsize⟩ := trackMinAlign_dvd (b := b) h.isAlignment (isAlignment_sizeof uoffset)
      have hle : o ≤ (b.align uoffset.sizeof).buf.length := by
        have htarget := hwf.target o rfl
        have hlength := h.extend.length_le
        rw [align_eq, List.length_append]
        omega
      have hext : Extends b (b.align uoffset.sizeof) := by
        rw [align_eq]
        exact ⟨List.suffix_append _ _, hdvd⟩
      have hp := pushElement_pushed (b := b.align uoffset.sizeof) (by rw [align_eq]; exact hm) uoffset
        ((b.align uoffset.sizeof).buf.length - o + uoffset.sizeof)
      have hpad := paddingBytes_lt (isAlignment_sizeof uoffset) b.buf.length
      have halign : (b.align uoffset.sizeof).buf.length =
          b.buf.length + paddingBytes b.buf.length uoffset.sizeof := by
        rw [align_eq, List.length_append, List.length_replicate, Nat.add_comm]
      have hoff := hp.length
      rw [paddingBytes_of_dvd (isAlignment_sizeof uoffset)
        (halign ▸ dvd_add_paddingBytes (isAlignment_sizeof uoffset) b.buf.length), Nat.add_zero] at hoff
      refine ⟨_, ?_, h.push (a := .offset field o) (by simpa [Add.stored] using ho) hext
        (by rw [align_eq]) hp ?_ ?_⟩
      · -- the element is not zero, so `AddElement` stores it
        have hstore : isTheSameAs uoffset ((b.align uoffset.sizeof).buf.length - o + uoffset.sizeof) 0 =
            false := by simp [isTheSameAs, ScalarType.sizeof]
        simp only [FlatBufferBuilder.add, addOffset, if_neg ho, referTo_eq ho hle, Option.bind_eq_bind,
          Option.bind_some, addElement, hstore, Bool.false_and, Bool.false_eq_true, if_false]
        rfl
      · rw [hoff]
        exact congrArg (· % _) (by omega)
      · rw [hoff, halign]
        simp only [ScalarType.sizeof] at hpad ⊢
        omega

/-- **All of them.** -/
theorem Adding.all (h : Adding b₀ adds b) {more : List Add}
    (hwf : ∀ a ∈ more, a.WellFormed b₀.buf.length) :
    ∃ b', more.foldlM FlatBufferBuilder.add b = some b' ∧ Adding b₀ (adds ++ more) b' := by
  induction more generalizing adds b with
  | nil => exact ⟨b, rfl, by rwa [List.append_nil]⟩
  | cons a more ih =>
    obtain ⟨b₁, hadd, h₁⟩ := h.add (hwf a List.mem_cons_self)
    obtain ⟨b', hmore, h'⟩ := ih h₁ fun a' ha' => hwf a' (List.mem_cons_of_mem _ ha')
    refine ⟨b', ?_, by rwa [List.append_assoc] at h'⟩
    rw [List.foldlM_cons, hadd]
    exact hmore

/-! ## The vtable of a table -/

section Vtable

variable {v rest : List UInt8} {loc : Nat}

theorem writeFieldLoc_eq {l : FieldLoc} (hl : l.id + 2 ≤ v.length) (hzero : scalarAt v voffset l.id = 0) :
    writeFieldLoc loc (v ++ rest) l = some (writeScalar voffset l.id (loc - l.off) v ++ rest) := by
  have hread : scalarAt (v ++ rest) voffset l.id = 0 := by
    rw [scalarAt_append_left hl, hzero]
  rw [writeFieldLoc, if_pos hread]
  exact congrArg some (writeScalar_append_left hl)

/-- Slots that are empty and of different fields are filled one after the other. -/
theorem foldlM_writeFieldLoc {locs : List FieldLoc} (loc : Nat) (rest : List UInt8)
    (hlocs : ∀ l ∈ locs, 2 ∣ l.id ∧ l.id + 2 ≤ v.length ∧ scalarAt v voffset l.id = 0)
    (hnodup : (locs.map FieldLoc.id).Nodup) :
    ∃ v', locs.foldlM (writeFieldLoc loc) (v ++ rest) = some (v' ++ rest) ∧ v'.length = v.length ∧
      (∀ l ∈ locs, scalarAt v' voffset l.id = (loc - l.off) % 2 ^ 16) ∧
      ∀ field, 2 ∣ field → field ∉ locs.map FieldLoc.id →
        scalarAt v' voffset field = scalarAt v voffset field := by
  induction locs generalizing v with
  | nil => exact ⟨v, rfl, rfl, fun l hl => absurd hl List.not_mem_nil, fun _ _ _ => rfl⟩
  | cons l locs ih =>
    obtain ⟨heven, hinside, hzero⟩ := hlocs l List.mem_cons_self
    rw [List.map_cons, List.nodup_cons] at hnodup
    have hlength : (writeScalar voffset l.id (loc - l.off) v).length = v.length :=
      length_writeScalar hinside
    -- two slots of different fields do not overlap
    have hother : ∀ field, 2 ∣ field → field ≠ l.id →
        scalarAt (writeScalar voffset l.id (loc - l.off) v) voffset field = scalarAt v voffset field := by
      intro field hfield hne
      refine scalarAt_writeScalar_of_disjoint hinside ?_
      simp only [ScalarType.sizeof]
      omega
    obtain ⟨v', hfold, hlength', hslots, hothers⟩ := ih (v := writeScalar voffset l.id (loc - l.off) v)
      (fun l' hl' => by
        obtain ⟨heven', hinside', hzero'⟩ := hlocs l' (List.mem_cons_of_mem _ hl')
        have hne : l'.id ≠ l.id := fun heq => hnodup.1 (heq ▸ List.mem_map_of_mem hl')
        exact ⟨heven', hlength ▸ hinside', (hother l'.id heven' hne).trans hzero'⟩) hnodup.2
    refine ⟨v', ?_, hlength'.trans hlength, fun l' hl' => ?_, fun field hfield hnotin => ?_⟩
    · rw [List.foldlM_cons, writeFieldLoc_eq hinside hzero]
      exact hfold
    · rcases List.mem_cons.mp hl' with rfl | hl'
      · rw [hothers l'.id heven hnodup.1, scalarAt_writeScalar (by omega)]
        rfl
      · exact hslots l' hl'
    · rw [List.map_cons, List.mem_cons, not_or] at hnotin
      rw [hothers field hfield hnotin.2, hother field hfield hnotin.1]

/-- A vtable at the front of the buffer. -/
theorem isVtable_front (hsize : scalarAt v voffset 0 = v.length) (hfour : 4 ≤ v.length)
    (heven : 2 ∣ v.length) (hrest : 2 ∣ rest.length) : IsVtable (v ++ rest) (v ++ rest).length := by
  have hread : scalarFromEnd (v ++ rest) voffset (v ++ rest).length = v.length := by
    rw [scalarFromEnd, Nat.sub_self, scalarAt_append_left (by simp only [ScalarType.sizeof]; omega), hsize]
  refine ⟨?_, Nat.le_refl _, ?_, ?_, ?_⟩
  · rw [List.length_append]
    exact Nat.dvd_add heven hrest
  · rwa [hread]
  · rwa [hread]
  · rw [hread, List.length_append]
    omega

theorem slotAt_front (rest : List UInt8) (hsize : scalarAt v voffset 0 = v.length)
    (heven : 2 ∣ v.length) (hfour : 4 ≤ v.length) {field : Nat} (hfield : 2 ∣ field) : slotAt (v ++ rest) (v ++ rest).length field =
      if field < v.length then scalarAt v voffset field else 0 := by
  have hread : scalarFromEnd (v ++ rest) voffset (v ++ rest).length = v.length := by
    rw [scalarFromEnd, Nat.sub_self, scalarAt_append_left (by simp only [ScalarType.sizeof]; omega), hsize]
  rw [slotAt, hread]
  split
  · next hlt =>
    have hfrom : (v ++ rest).length - ((v ++ rest).length - field) = field := by
      rw [List.length_append]
      omega
    rw [scalarFromEnd, hfrom, scalarAt_append_left (by simp only [ScalarType.sizeof]; omega)]
  · rfl

/-- What `memcmp` has found equal says the same. -/
theorem slotAt_sameVtable {buf₀ : List UInt8} {vt : Nat} (hbuf : b.buf = v ++ rest)
    (hsize : scalarAt v voffset 0 = v.length) (heven : 2 ∣ v.length) (hfour : 4 ≤ v.length)
    (hvt : IsVtable buf₀ vt) (hs : buf₀ <:+ rest) (hsame : b.sameVtable vt = true) {field : Nat}
    (hfield : 2 ∣ field) :
    slotAt buf₀ vt field = if field < v.length then scalarAt v voffset field else 0 := by
  have hs' : buf₀ <:+ v ++ rest := hs.trans (List.suffix_append v rest)
  have hfront : scalarAt (v ++ rest) voffset 0 = v.length := by
    rw [scalarAt_append_left (by simp only [ScalarType.sizeof]; omega), hsize]
  simp only [sameVtable, hbuf, hfront, Bool.and_eq_true, beq_iff_eq, List.take_left] at hsame
  obtain ⟨hvtsize, hbytes⟩ := hsame
  have hwritten := Nat.le_trans hvt.written hs'.length_le
  have hinside := (hvt.suffix hs').inside
  rw [← slotAt_suffix hvt hs', slotAt, ← hvtsize]
  split
  · next hlt =>
    have hfrom : (v ++ rest).length - (vt - field) = (v ++ rest).length - vt + field := by omega
    rw [scalarFromEnd, hfrom, ← scalarAt_take_drop (n := v.length)
      (by simp only [ScalarType.sizeof]; omega), hbytes]
  · rfl

end Vtable

/-! ## Tables -/

/-- A table at distance `loc` from the end, with its vtable at `vt`: what `adds` has stored is
there, and the slots of all other fields are empty. -/
structure HasTable (b : FlatBufferBuilder) (forceDefaults : Bool) (adds : List Add) (loc vt : Nat) :
    Prop where
  length : 8 ≤ b.buf.length
  vtable : IsVtable b.buf vt
  soffset : HasScalar b loc soffset ((2 ^ 32 + vt - loc) % 256 ^ soffset.sizeof)
  present : ∀ a ∈ adds, a.stored forceDefaults = true → ∃ off, off < loc ∧ (∀ o ∈ a.target, o < off) ∧
    slotAt b.buf vt a.field = loc - off ∧ HasScalar b off a.type (a.content off)
  absent : ∀ field, 2 ∣ field → 4 ≤ field →
    (∀ a ∈ adds, a.stored forceDefaults = true → a.field ≠ field) → slotAt b.buf vt field = 0

theorem HasTable.mono {forceDefaults : Bool} {loc vt : Nat} (h : HasTable b forceDefaults adds loc vt)
    (hext : Extends b b') : HasTable b' forceDefaults adds loc vt where
  length := Nat.le_trans h.length hext.length_le
  vtable := h.vtable.suffix hext.buf
  soffset := h.soffset.mono hext
  present := fun a ha hstored => by
    obtain ⟨off, hoff, htarget, hslot, hscalar⟩ := h.present a ha hstored
    exact ⟨off, hoff, htarget, (slotAt_suffix h.vtable hext.buf a.field).trans hslot, hscalar.mono hext⟩
  absent := fun field heven hfour hnone =>
    (slotAt_suffix h.vtable hext.buf field).trans (h.absent field heven hfour hnone)

/-- Between two objects. -/
structure Ready (b : FlatBufferBuilder) : Prop where
  isAlignment : IsAlignment b.minalign
  fieldLocs : b.fieldLocs = []
  maxVoffset : b.maxVoffset = 0
  nested : b.nested = false
  vtables : ∀ vt ∈ b.vtables, IsVtable b.buf vt

theorem Ready.new : Ready {} := by
  refine ⟨Or.inl rfl, rfl, rfl, rfl, fun vt hvt => ?_⟩
  cases hvt

/-- From one object to the next, in at most `n` bytes. -/
structure Advances (b : FlatBufferBuilder) (n : Nat) (b' : FlatBufferBuilder) : Prop where
  extend : Extends b b'
  ready : Ready b'
  finished : b'.finished = b.finished
  forceDefaults : b'.forceDefaults = b.forceDefaults
  length : b'.buf.length ≤ b.buf.length + n

theorem write_zero (bs buf : List UInt8) : write 0 bs buf = bs ++ buf.drop bs.length := by
  rw [write, List.take_zero, List.nil_append, Nat.zero_add]

theorem guard_of {p : Prop} [Decidable p] (h : p) : (guard p : Option Unit) = some () := if_pos h

/-- The vtable that `EndTable` has written, before it looks for another one. -/
theorem Adding.vtable (h : Adding b₀ adds b) (hwf : ∀ a ∈ adds, a.WellFormed b₀.buf.length)
    (hfields : (adds.map Add.field).Nodup) {mv : Nat} (loc objectSize : Nat) (rest : List UInt8)
    (hmv : mv = max ((b.maxVoffset + voffset.sizeof) % 2 ^ 16) (fieldIndexToOffset 0)) :
    ∃ v, b.fieldLocs.foldlM (writeFieldLoc loc) (writeScalar voffset 0 mv
        (writeScalar voffset voffset.sizeof objectSize (List.replicate mv 0 ++ rest))) = some (v ++ rest) ∧
      v.length = mv ∧ 2 ∣ mv ∧ 4 ≤ mv ∧ mv < 2 ^ 16 ∧ scalarAt v voffset 0 = mv ∧
      (∀ l ∈ b.fieldLocs, l.id < mv ∧ scalarAt v voffset l.id = (loc - l.off) % 2 ^ 16) ∧
      ∀ field, 2 ∣ field → 4 ≤ field → field ∉ b.fieldLocs.map FieldLoc.id →
        scalarAt v voffset field = 0 := by
  have hmax : 2 ∣ b.maxVoffset ∧ b.maxVoffset + 2 < 2 ^ 16 := by
    rcases h.maxVoffset with hzero | ⟨a, ha, hmax⟩
    · omega
    · rw [← hmax]
      exact ⟨(hwf a ha).even, (hwf a ha).lt⟩
  have hmv' : mv = max (b.maxVoffset + 2) 4 := by
    rw [hmv, Nat.mod_eq_of_lt (by simp only [ScalarType.sizeof]; omega)]
    rfl
  have hnodup : (b.fieldLocs.map FieldLoc.id).Nodup := by
    rw [h.ids]
    exact hfields.sublist (List.filter_sublist.map Add.field)
  have hid : ∀ l ∈ b.fieldLocs, 2 ∣ l.id ∧ 4 ≤ l.id := by
    intro l hl
    have hmem : l.id ∈ (adds.filter (Add.stored b₀.forceDefaults)).map Add.field :=
      h.ids ▸ List.mem_map_of_mem hl
    obtain ⟨a, ha, hfield⟩ := List.mem_map.mp hmem
    rw [← hfield]
    exact ⟨(hwf a (List.mem_filter.mp ha).1).even, (hwf a (List.mem_filter.mp ha).1).four_le⟩
  have hzeros : (List.replicate mv (0 : UInt8)).length = mv := List.length_replicate
  have hinner : (writeScalar voffset voffset.sizeof objectSize (List.replicate mv 0)).length = mv := by
    rw [length_writeScalar (by simp only [ScalarType.sizeof, hzeros]; omega), hzeros]
  have houter : (writeScalar voffset 0 mv (writeScalar voffset voffset.sizeof objectSize (List.replicate mv 0))).length =
      mv := by
    rw [length_writeScalar (by rw [hinner]; simp only [ScalarType.sizeof]; omega), hinner]
  -- the two writes before the loop are in the vtable
  have hfront : writeScalar voffset 0 mv
      (writeScalar voffset voffset.sizeof objectSize (List.replicate mv 0 ++ rest)) =
        writeScalar voffset 0 mv (writeScalar voffset voffset.sizeof objectSize (List.replicate mv 0)) ++ rest := by
    rw [writeScalar_append_left (by rw [hzeros]; simp only [ScalarType.sizeof]; omega)]
    exact writeScalar_append_left (by rw [hinner]; simp only [ScalarType.sizeof]; omega)
  have hempty : ∀ field, 2 ∣ field → 4 ≤ field → scalarAt (writeScalar voffset 0 mv
      (writeScalar voffset voffset.sizeof objectSize (List.replicate mv 0))) voffset field = 0 := by
    intro field heven hfour
    rw [scalarAt_writeScalar_of_disjoint (by rw [hinner]; simp only [ScalarType.sizeof]; omega)
      (by simp only [ScalarType.sizeof]; omega), scalarAt_writeScalar_of_disjoint
      (by rw [hzeros]; simp only [ScalarType.sizeof]; omega) (by simp only [ScalarType.sizeof]; omega)]
    exact scalarAt_zeros mv voffset field
  obtain ⟨v, hfold, hlength, hslots, hothers⟩ := foldlM_writeFieldLoc loc rest
    (fun l hl => by
      obtain ⟨heven, hfour⟩ := hid l hl
      have := (h.fieldLoc l hl).2.2
      exact ⟨heven, by rw [houter]; omega, hempty l.id heven hfour⟩) hnodup
  refine ⟨v, hfront ▸ hfold, hlength.trans houter, by omega, by omega, by omega, ?_, fun l hl => ?_,
    fun field heven hfour hnotin => ?_⟩
  · rw [hothers 0 (by omega) fun hmem => ?_, scalarAt_writeScalar (by omega)]
    · exact Nat.mod_eq_of_lt (by simp only [ScalarType.sizeof]; omega)
    · obtain ⟨l, hl, hzero⟩ := List.mem_map.mp hmem
      have := (hid l hl).2
      omega
  · have := (h.fieldLoc l hl).2.2
    exact ⟨by omega, hslots l hl⟩
  · rw [hothers field heven hnotin, hempty field heven hfour]

/-- The vtable is kept or replaced by one that says the same, and the table refers to it. -/
theorem linkVtable_spec {c : FlatBufferBuilder} {v front tail : List UInt8} {loc : Nat}
    (hbuf : c.buf = v ++ (front ++ tail)) (hfront : front.length = soffset.sizeof)
    (hloc : loc = (front ++ tail).length) (heven : 2 ∣ loc) (hsize : scalarAt v voffset 0 = v.length)
    (hvEven : 2 ∣ v.length) (hvFour : 4 ≤ v.length) (hvts : ∀ vt ∈ c.vtables, IsVtable tail vt) :
    ∃ p vt, c.linkVtable loc = { c with
        buf := p ++ (littleEndianBytes soffset.sizeof (2 ^ 32 + vt - loc) ++ tail)
        vtables := (c.linkVtable loc).vtables, nested := false } ∧
      p.length ≤ v.length ∧ 8 ≤ (c.linkVtable loc).buf.length ∧ IsVtable (c.linkVtable loc).buf vt ∧
      (∀ field, 2 ∣ field → slotAt (c.linkVtable loc).buf vt field =
        if field < v.length then scalarAt v voffset field else 0) ∧
      ∀ vt ∈ (c.linkVtable loc).vtables, IsVtable (c.linkVtable loc).buf vt := by
  have hwrite : ∀ p value : List UInt8, value.length = soffset.sizeof →
      write ((p ++ (front ++ tail)).length - loc) value (p ++ (front ++ tail)) = p ++ (value ++ tail) := by
    intro p value hvalue
    rw [List.length_append, hloc, Nat.add_sub_cancel, ← Nat.add_zero p.length, write_append_right,
      write_zero, hvalue, ← hfront, List.drop_left]
  cases hfind : (if c.dedupVtables then c.vtables.find? c.sameVtable else none) with
  | none =>
    have hlink : c.linkVtable loc = { c with
        buf := v ++ (littleEndianBytes soffset.sizeof (2 ^ 32 + c.buf.length - loc) ++ tail)
        vtables := c.vtables ++ [c.buf.length], nested := false } := by
      simp only [linkVtable, dedup, hfind, if_true, writeScalar]
      rw [hbuf, hwrite v _ (length_littleEndianBytes _ _)]
    have hlength : c.buf.length = (v ++ (littleEndianBytes soffset.sizeof (2 ^ 32 + c.buf.length - loc) ++
        tail)).length := by
      rw [hbuf]
      simp only [List.length_append, length_littleEndianBytes, hfront]
    have hrest : 2 ∣ (littleEndianBytes soffset.sizeof (2 ^ 32 + c.buf.length - loc) ++ tail).length := by
      rw [List.length_append, length_littleEndianBytes, ← hfront, ← List.length_append, ← hloc]
      exact heven
    have hvtable := isVtable_front hsize hvFour hvEven hrest
    rw [← hlength] at hvtable
    refine ⟨v, c.buf.length, ?_, Nat.le_refl _, ?_, ?_, ?_, ?_⟩
    · rw [hlink]
    · rw [hlink]
      simp only [List.length_append, length_littleEndianBytes, ScalarType.sizeof]
      omega
    · rw [hlink]
      exact hvtable
    · rw [hlink]
      intro field hfield
      have hslot := slotAt_front (littleEndianBytes soffset.sizeof (2 ^ 32 + c.buf.length - loc) ++ tail)
        hsize hvEven hvFour hfield
      rw [← hlength] at hslot
      exact hslot
    · rw [hlink]
      intro vt hvt
      rcases List.mem_append.mp hvt with hvt | hvt
      · exact (hvts vt hvt).suffix ((List.suffix_append _ _).trans (List.suffix_append _ _))
      · rw [List.mem_singleton.mp hvt]
        exact hvtable
  | some vt₂ =>
    obtain ⟨hmem, hsame⟩ : vt₂ ∈ c.vtables ∧ c.sameVtable vt₂ = true := by
      split at hfind
      · exact ⟨List.mem_of_find?_eq_some hfind, List.find?_some hfind⟩
      · cases hfind
    have hvt := hvts vt₂ hmem
    have hdrop : c.buf.drop (c.buf.length - loc) = front ++ tail := by
      rw [hbuf, List.length_append, hloc, Nat.add_sub_cancel, List.drop_left]
    -- the vtable found lies in `tail`, so the new one is not remembered
    have hne : vt₂ ≠ (front ++ tail).length := by
      have := hvt.written
      rw [List.length_append, hfront]
      simp only [ScalarType.sizeof]
      omega
    have hlink : c.linkVtable loc = { c with
        buf := [] ++ (littleEndianBytes soffset.sizeof (2 ^ 32 + vt₂ - loc) ++ tail)
        nested := false } := by
      simp only [linkVtable, dedup, hfind, hdrop, if_neg hne, writeScalar]
      rw [← List.nil_append (front ++ tail), hwrite [] _ (length_littleEndianBytes _ _)]
    have hsuffix : tail <:+ [] ++ (littleEndianBytes soffset.sizeof (2 ^ 32 + vt₂ - loc) ++ tail) :=
      List.suffix_append _ _
    refine ⟨[], vt₂, ?_, Nat.zero_le _, ?_, ?_, ?_, ?_⟩
    · rw [hlink]
    · have hfour := hvt.four_le
      have hinside := hvt.inside
      have hwritten := hvt.written
      rw [hlink]
      simp only [List.nil_append, List.length_append, length_littleEndianBytes, ScalarType.sizeof]
      omega
    · rw [hlink]
      exact hvt.suffix hsuffix
    · rw [hlink]
      intro field hfield
      exact (slotAt_suffix hvt hsuffix field).trans (slotAt_sameVtable hbuf hsize hvEven hvFour hvt
        (List.suffix_append front tail) hsame hfield)
    · rw [hlink]
      exact fun vt hvt => (hvts vt hvt).suffix hsuffix

/-- The offset to the vtable has been written over the zero pushed for it. -/
theorem Pushed.linked {c : FlatBufferBuilder} {p : List UInt8} {loc vt : Nat}
    (hp : Pushed b soffset 0 loc c)
    (hbuf : b'.buf = p ++ (littleEndianBytes soffset.sizeof (2 ^ 32 + vt - loc) ++
      (List.replicate (paddingBytes b.buf.length soffset.sizeof) 0 ++ b.buf)))
    (hminalign : b'.minalign = c.minalign) :
    Extends b b' ∧ HasScalar b' loc soffset ((2 ^ 32 + vt - loc) % 256 ^ soffset.sizeof) ∧
      b'.buf.length = p.length + loc := by
  have hoff : loc = (littleEndianBytes soffset.sizeof (2 ^ 32 + vt - loc) ++
      (List.replicate (paddingBytes b.buf.length soffset.sizeof) 0 ++ b.buf)).length := by
    rw [hp.length]
    simp only [List.length_append, length_littleEndianBytes, List.length_replicate]
    omega
  have hlength : b'.buf.length = p.length + loc := by rw [hbuf, List.length_append, ← hoff]
  refine ⟨⟨?_, ?_⟩, ⟨⟨hp.scalar.placed.aligned, hp.scalar.placed.inside, ?_, ?_⟩, ?_⟩, hlength⟩
  · rw [hbuf]
    exact ((List.suffix_append _ _).trans (List.suffix_append _ _)).trans (List.suffix_append _ _)
  · rw [hminalign]
    exact hp.extend.minalign
  · rw [hlength]
    exact Nat.le_add_left _ _
  · rw [hminalign]
    exact hp.scalar.placed.minalign
  · rw [hbuf, scalarFromEnd_append (Nat.le_of_eq hoff), scalarFromEnd, ← hoff, Nat.sub_self,
      scalarAt_bytes]

/-- A vtable with the slots of `v`, which are those of the fields stored, makes a table of them. -/
theorem Adding.hasTable (h : Adding b₀ adds b) (hwf : ∀ a ∈ adds, a.WellFormed b₀.buf.length)
    {loc vt : Nat} (hext : Extends b b') (height : 8 ≤ b'.buf.length) (hvtable : IsVtable b'.buf vt)
    (hscalar : HasScalar b' loc soffset ((2 ^ 32 + vt - loc) % 256 ^ soffset.sizeof))
    (hloc : b.buf.length < loc) (hsize : loc - b₀.buf.length < 2 ^ 16)
    (hslot : ∀ field, 2 ∣ field → slotAt b'.buf vt field =
      if field < v.length then scalarAt v voffset field else 0)
    (hslots : ∀ l ∈ b.fieldLocs, l.id < v.length ∧ scalarAt v voffset l.id = (loc - l.off) % 2 ^ 16)
    (hempty : ∀ field, 2 ∣ field → 4 ≤ field → field ∉ b.fieldLocs.map FieldLoc.id →
      scalarAt v voffset field = 0) :
    HasTable b' b₀.forceDefaults adds loc vt := by
  refine ⟨height, hvtable, hscalar, fun a ha hstored => ?_, fun field heven hfour hnone => ?_⟩
  · obtain ⟨l, hl, hlocated⟩ := h.located a ha hstored
    obtain ⟨hlt, hread⟩ := hslots l hl
    have hwithin := (h.fieldLoc l hl).2.1
    have hstart := (h.fieldLoc l hl).1
    refine ⟨l.off, by omega, fun o ho => Nat.lt_of_le_of_lt ((hwf a ha).target o ho) hstart, ?_,
      hlocated.scalar.mono hext⟩
    rw [hslot a.field (hwf a ha).even, ← hlocated.id, if_pos hlt, hread]
    exact Nat.mod_eq_of_lt (by omega)
  · have hnotin : field ∉ b.fieldLocs.map FieldLoc.id := by
      rw [h.ids]
      intro hmem
      obtain ⟨a, ha, hfield⟩ := List.mem_map.mp hmem
      exact hnone a (List.mem_filter.mp ha).1 (List.mem_filter.mp ha).2 hfield
    rw [hslot field heven, hempty field heven hfour hnotin, ite_self]

/-- `EndTable` up to the search for another vtable. -/
theorem Adding.endTable_eq (h : Adding b₀ adds b) (hnested : b₀.nested = true) {loc : Nat}
    {c : FlatBufferBuilder} (hpush : b.pushElement soffset 0 = (loc, c))
    (hmv : v.length = max ((c.maxVoffset + voffset.sizeof) % 2 ^ 16) (fieldIndexToOffset 0))
    (hfold : c.fieldLocs.foldlM (writeFieldLoc loc) (writeScalar voffset 0 v.length
      (writeScalar voffset voffset.sizeof (loc - b₀.buf.length) (c.fill v.length).buf)) =
        some (v ++ c.buf)) (hsize : loc - b₀.buf.length < 2 ^ 16) :
    b.endTable b₀.buf.length =
      some (loc, { c.fill v.length with buf := v ++ c.buf }.clearOffsets.linkVtable loc) := by
  have hn : b.nested = true := by
    rw [h.frame]
    exact hnested
  have hobjectSize : loc - b₀.buf.length < 0x10000 := hsize
  have hfold' : (c.fill v.length).fieldLocs.foldlM (writeFieldLoc loc) (writeScalar voffset 0 v.length
      (writeScalar voffset voffset.sizeof (loc - b₀.buf.length) (c.fill v.length).buf)) =
        some (v ++ c.buf) := hfold
  simp only [FlatBufferBuilder.endTable, guard_of hn, hpush, ← hmv, guard_of hobjectSize, hfold',
    Option.bind_eq_bind, Option.pure_def, Option.bind_some]

/-- The vtable has two words and the slots up to the last field stored. -/
theorem Adding.vtable_le (h : Adding b₀ adds b) {M : Nat} (hM : ∀ a ∈ adds, a.field ≤ M) :
    max ((b.maxVoffset + voffset.sizeof) % 2 ^ 16) (fieldIndexToOffset 0) ≤ M + 4 := by
  have hmax : b.maxVoffset ≤ M := by
    rcases h.maxVoffset with hzero | ⟨a, ha, hmax⟩
    · omega
    · exact hmax ▸ hM a ha
  simp only [fieldIndexToOffset, ScalarType.sizeof]
  omega

/-- **What `EndTable` makes of the fields added.** -/
theorem Adding.endTable (h : Adding b₀ adds b) (hnested : b₀.nested = true)
    (hvts : ∀ vt ∈ b₀.vtables, IsVtable b₀.buf vt) (hwf : ∀ a ∈ adds, a.WellFormed b₀.buf.length)
    (hfields : (adds.map Add.field).Nodup) {M : Nat} (hM : ∀ a ∈ adds, a.field ≤ M)
    (hsmall : 16 * adds.length + 8 < 2 ^ 16) :
    ∃ loc b' vt, b.endTable b₀.buf.length = some (loc, b') ∧
      HasTable b' b₀.forceDefaults adds loc vt ∧ Advances b (M + 12) b' := by
  obtain ⟨loc, c, hpush⟩ : ∃ loc c, b.pushElement soffset 0 = (loc, c) := ⟨_, _, rfl⟩
  have hp : Pushed b soffset 0 loc c := by
    have := pushElement_pushed h.isAlignment soffset 0
    rwa [hpush] at this
  have hloc := hp.length_lt
  simp only [ScalarType.sizeof] at hloc
  have hobject := h.extend.length_le
  have hgrown := h.length
  have hcmax : c.maxVoffset = b.maxVoffset := by rw [hp.frame]
  have hclocs : c.fieldLocs = b.fieldLocs := by rw [hp.frame]
  obtain ⟨v, hfold, hlength, hmvEven, hmvFour, hmvLt, hsize, hslots, hempty⟩ :=
    h.vtable hwf hfields loc (loc - b₀.buf.length) c.buf rfl
  rw [← hlength] at hfold hmvEven hmvFour hsize hslots
  have hend := h.endTable_eq hnested hpush (hcmax ▸ hlength) (hclocs ▸ hfold) (by omega)
  -- the buffer when the search for another vtable begins
  obtain ⟨d, hd⟩ : ∃ d, d = { c.fill v.length with buf := v ++ c.buf }.clearOffsets := ⟨_, rfl⟩
  have hbuf : d.buf = v ++ (littleEndianBytes soffset.sizeof 0 ++
      (List.replicate (paddingBytes b.buf.length soffset.sizeof) 0 ++ b.buf)) := by
    rw [hd, ← hp.buf]
    rfl
  have hdvts : ∀ vt ∈ d.vtables, IsVtable
      (List.replicate (paddingBytes b.buf.length soffset.sizeof) 0 ++ b.buf) vt := by
    intro vt hvt
    rw [hd] at hvt
    have hvt' : vt ∈ b₀.vtables := by
      have : c.vtables = b₀.vtables := by rw [hp.frame, h.frame]
      rwa [← this]
    exact (hvts vt hvt').suffix (h.extend.buf.trans (List.suffix_append _ _))
  obtain ⟨p, vt, hlink, hplength, height, hvtable, hslot, hvts'⟩ := linkVtable_spec hbuf
    (length_littleEndianBytes _ _) (hp.off_eq.trans (congrArg List.length hp.buf))
    (Nat.dvd_trans (by decide) hp.scalar.placed.aligned) hsize hmvEven hmvFour hdvts
  rw [← hd] at hend
  obtain ⟨b', hb'⟩ : ∃ b', b' = d.linkVtable loc := ⟨_, rfl⟩
  rw [← hb'] at hend hlink height hvtable hslot hvts'
  have hminalign : b'.minalign = c.minalign := by
    rw [hlink, hd]
    rfl
  obtain ⟨hext, hscalar, hlength'⟩ := hp.linked (by rw [hlink]) hminalign
  have hvlength := hlength ▸ h.vtable_le hM
  refine ⟨loc, b', vt, hend, h.hasTable hwf hext height hvtable hscalar (by omega) (by omega) hslot hslots
    hempty, hext, ⟨?_, ?_, ?_, ?_, hvts'⟩, ?_, ?_, by omega⟩
  · rw [hminalign]
    exact hp.isAlignment
  all_goals rw [hlink, hd]
  · rfl
  · rfl
  · show c.finished = b.finished
    rw [hp.frame]
  · show c.forceDefaults = b.forceDefaults
    rw [hp.frame]

theorem Advances.trans {m n : Nat} (h : Advances b m b') (h' : Advances b' n b'') : Advances b (m + n) b'' := by
  refine ⟨h.extend.trans h'.extend, h'.ready, h'.finished.trans h.finished,
    h'.forceDefaults.trans h.forceDefaults, ?_⟩
  have := h.length
  have := h'.length
  omega

theorem Advances.mono {m n : Nat} (h : Advances b m b') (hle : m ≤ n) : Advances b n b' :=
  { h with length := Nat.le_trans h.length (Nat.add_le_add_left hle _) }

theorem Ready.notNested (h : Ready b) : b.notNested = true := by
  rw [FlatBufferBuilder.notNested, h.nested, h.fieldLocs]
  rfl

/-- **A generated `Create` writes its table.** -/
theorem createTable_spec (h : Ready b) (hwf : ∀ a ∈ adds, a.WellFormed b.buf.length)
    (hfields : (adds.map Add.field).Nodup) {M : Nat} (hM : ∀ a ∈ adds, a.field ≤ M)
    (hsmall : 16 * adds.length + 8 < 2 ^ 16) :
    ∃ loc b' vt, b.createTable adds = some (loc, b') ∧ HasTable b' b.forceDefaults adds loc vt ∧
      Advances b (16 * adds.length + M + 12) b' := by
  have hstart : Adding { b with nested := true } [] { b with nested := true } :=
    Adding.start h.isAlignment h.fieldLocs h.maxVoffset
  obtain ⟨b₁, hadds, h₁⟩ := hstart.all hwf
  rw [List.nil_append] at h₁
  obtain ⟨loc, b', vt, hend, htable, hadv⟩ := h₁.endTable rfl h.vtables hwf hfields hM hsmall
  refine ⟨loc, b', vt, ?_, htable, ?_⟩
  · simp only [createTable, startTable, h.notNested, if_true, Option.bind_eq_bind, Option.bind_some, hadds]
    exact hend
  · have hext : Extends b b₁ := ⟨h₁.extend.buf, h₁.extend.minalign⟩
    refine ⟨hext.trans hadv.extend, hadv.ready, ?_, ?_, ?_⟩
    · rw [hadv.finished, h₁.frame]
    · rw [hadv.forceDefaults, h₁.frame]
    · have hgrown : b₁.buf.length ≤ b.buf.length + 16 * adds.length := h₁.length
      have := hadv.length
      omega

/-! ## Strings -/

/-- A string at distance `off` from the end: its size, the characters and a terminator. -/
structure HasString (b : FlatBufferBuilder) (str : List UInt8) (off : Nat) : Prop where
  size : HasScalar b off uoffset (str.length % 256 ^ uoffset.sizeof)
  inside : uoffset.sizeof + str.length + 1 ≤ off
  chars : (b.buf.drop (b.buf.length - (off - uoffset.sizeof))).take (str.length + 1) = str ++ [0]

theorem drop_suffix {buf buf' : List UInt8} (hs : buf <:+ buf') {n : Nat} (h : n ≤ buf.length) :
    buf'.drop (buf'.length - n) = buf.drop (buf.length - n) := by
  obtain ⟨pre, rfl⟩ := hs
  rw [List.length_append, Nat.add_sub_assoc h, List.drop_length_add_append]

theorem HasString.mono {str : List UInt8} (h : HasString b str off) (hext : Extends b b') :
    HasString b' str off := by
  refine ⟨h.size.mono hext, h.inside, ?_⟩
  rw [drop_suffix hext.buf (Nat.le_trans (Nat.sub_le _ _) h.size.placed.written)]
  exact h.chars

theorem createString_spec (h : Ready b) (str : List UInt8) :
    ∃ off b', b.createString str = some (off, b') ∧ HasString b' str off ∧
      Advances b (str.length + 8) b' := by
  obtain ⟨hm, hdvd, hsize⟩ := trackMinAlign_dvd h.isAlignment (isAlignment_sizeof uoffset)
  obtain ⟨pad, hpad⟩ : ∃ pad, pad = paddingBytes (b.buf.length + (str.length + 1)) uoffset.sizeof := ⟨_, rfl⟩
  obtain ⟨c, hc⟩ : ∃ c, c = ((b.preAlign (str.length + 1) uoffset.sizeof).fill 1).pushBytes str := ⟨_, rfl⟩
  have hcreate : b.createString str = some (c.pushElement uoffset str.length) := by
    simp only [createString, guard_of h.notNested, ← hc, Option.bind_eq_bind, Option.pure_def,
      Option.bind_some]
  rw [preAlign_eq b (Nat.succ_pos _), ← hpad] at hc
  have hbuf : c.buf = (str ++ [0]) ++ (List.replicate pad 0 ++ b.buf) := by
    rw [hc, List.append_assoc]
    rfl
  have hminalign : c.minalign = (b.trackMinAlign uoffset.sizeof).minalign := by
    rw [hc]
    rfl
  have hext : Extends b c := by
    refine ⟨?_, hminalign ▸ hdvd⟩
    rw [hbuf]
    exact (List.suffix_append _ _).trans (List.suffix_append _ _)
  have hlength : c.buf.length = str.length + 1 + (pad + b.buf.length) := by
    rw [hbuf]
    simp only [List.length_append, List.length_replicate, List.length_singleton]
  have hpadLt : pad < uoffset.sizeof := hpad ▸ paddingBytes_lt (isAlignment_sizeof uoffset) _
  -- `PreAlign` has made room, so the size follows without padding
  have haligned : uoffset.sizeof ∣ c.buf.length := by
    have := dvd_add_paddingBytes (isAlignment_sizeof uoffset) (b.buf.length + (str.length + 1))
    rw [← hpad] at this
    rwa [hlength, show str.length + 1 + (pad + b.buf.length) = b.buf.length + (str.length + 1) + pad by omega]
  obtain ⟨off, b', hpush⟩ : ∃ off b', c.pushElement uoffset str.length = (off, b') := ⟨_, _, rfl⟩
  have hp : Pushed c uoffset str.length off b' := by
    have := pushElement_pushed (b := c) (hminalign ▸ hm) uoffset str.length
    rwa [hpush] at this
  have hoff := hp.length
  rw [paddingBytes_of_dvd (isAlignment_sizeof uoffset) haligned, Nat.add_zero] at hoff
  have hchars : b'.buf.drop (b'.buf.length - c.buf.length) = c.buf := by
    rw [drop_suffix hp.extend.buf (Nat.le_refl _), Nat.sub_self, List.drop_zero]
  refine ⟨off, b', by rw [hcreate, hpush], ⟨hp.scalar, by omega, ?_⟩, hext.trans hp.extend, ⟨hp.isAlignment,
    ?_, ?_, ?_, ?_⟩, ?_, ?_, ?_⟩
  · rw [hoff, Nat.add_sub_cancel, hchars, hbuf]
    exact List.take_left' (by rw [List.length_append, List.length_singleton])
  · rw [hp.frame, hc]
    exact h.fieldLocs
  · rw [hp.frame, hc]
    exact h.maxVoffset
  · rw [hp.frame, hc]
    exact h.nested
  · have hvtables : b'.vtables = b.vtables := by
      rw [hp.frame, hc]
      rfl
    rw [hvtables]
    exact fun vt hvt => (h.vtables vt hvt).suffix (hext.trans hp.extend).buf
  · rw [hp.frame, hc]
    rfl
  · rw [hp.frame, hc]
    rfl
  · rw [← hp.off_eq, hoff, hlength]
    simp only [ScalarType.sizeof] at hpadLt ⊢
    omega

/-! ## The finished buffer -/

/-- A buffer that ends in the bytes of `b` and is aligned to what `b` is. -/
structure Image (b : FlatBufferBuilder) (buf : List UInt8) : Prop where
  suffix : b.buf <:+ buf
  minalign : b.minalign ∣ buf.length
  front : b.buf.length + uoffset.sizeof ≤ buf.length
  small : buf.length < 2 ^ 31

theorem trackMinAlign_of_le (h : size ≤ b.minalign) : b.trackMinAlign size = b :=
  if_neg (Nat.not_lt_of_le h)

theorem align_of_dvd (hs : IsAlignment size) (hdvd : size ∣ b.buf.length) (h : size ≤ b.minalign) :
    b.align size = b := by
  rw [align_eq, paddingBytes_of_dvd hs hdvd, trackMinAlign_of_le h]
  rfl

/-- **What `Finish` puts in front.** -/
theorem finish_spec (h : Ready b) (hfinished : b.finished = false) {root : Nat}
    (hroot : Placed b root uoffset.sizeof) :
    ∃ b', b.finish root = some b' ∧ (b'.buf.length < 2 ^ 31 → Image b b'.buf) ∧
      scalarAt b'.buf uoffset 0 = (b'.buf.length - root) % 256 ^ uoffset.sizeof ∧
      b.buf.length + uoffset.sizeof ≤ b'.buf.length ∧ b'.buf.length < b.buf.length + 12 := by
  have hfour : uoffset.sizeof ≤ b.minalign := by
    refine Nat.le_of_dvd ?_ hroot.minalign
    rcases h.isAlignment with hm | hm | hm | hm <;> omega
  obtain ⟨pad, hpad⟩ : ∃ pad, pad = paddingBytes (b.buf.length + uoffset.sizeof) b.minalign := ⟨_, rfl⟩
  obtain ⟨c, hc⟩ : ∃ c : FlatBufferBuilder, c =
      { b with vtables := [], buf := List.replicate pad 0 ++ b.buf } := ⟨_, rfl⟩
  have hpre : ({ b with vtables := [] }.trackMinAlign 0).preAlign uoffset.sizeof b.minalign = c := by
    rw [trackMinAlign_of_le (Nat.zero_le _), preAlign_eq _ (by decide), trackMinAlign_of_le (Nat.le_refl _),
      hc, hpad]
  have hlength : c.buf.length = pad + b.buf.length := by
    rw [hc, List.length_append, List.length_replicate]
  have hpadLt : pad < b.minalign := hpad ▸ paddingBytes_lt h.isAlignment _
  have hwhole : b.minalign ∣ c.buf.length + uoffset.sizeof := by
    have := dvd_add_paddingBytes h.isAlignment (b.buf.length + uoffset.sizeof)
    rw [← hpad] at this
    rw [hlength]
    rwa [show pad + b.buf.length + uoffset.sizeof = b.buf.length + uoffset.sizeof + pad by omega]
  have hcminalign : c.minalign = b.minalign := by rw [hc]
  have haligned : uoffset.sizeof ∣ c.buf.length :=
    (Nat.dvd_add_left (Nat.dvd_refl _)).mp (Nat.dvd_trans hroot.minalign hwhole)
  have halign : c.align uoffset.sizeof = c :=
    align_of_dvd (isAlignment_sizeof uoffset) haligned (hcminalign ▸ hfour)
  have hinside := hroot.inside
  have hwritten := hroot.written
  have hrefer : c.referTo root = some (c.buf.length - root + uoffset.sizeof, c) := by
    rw [referTo_eq (by simp only [ScalarType.sizeof] at hinside; omega) (by rw [halign]; omega), halign]
  obtain ⟨off, d, hpush⟩ : ∃ off d, c.pushElement uoffset (c.buf.length - root + uoffset.sizeof) = (off, d) :=
    ⟨_, _, rfl⟩
  have hp : Pushed c uoffset (c.buf.length - root + uoffset.sizeof) off d := by
    have := pushElement_pushed (b := c) (hcminalign ▸ h.isAlignment) uoffset
      (c.buf.length - root + uoffset.sizeof)
    rwa [hpush] at this
  have hoff := hp.length
  rw [paddingBytes_of_dvd (isAlignment_sizeof uoffset) haligned, Nat.add_zero, hp.off_eq] at hoff
  have height : b.minalign ≤ 8 := by
    rcases h.isAlignment with hm | hm | hm | hm <;> omega
  have hfinal : d.buf.length < b.buf.length + 12 := by
    rw [hoff, hlength]
    simp only [ScalarType.sizeof]
    omega
  have hfront : b.buf.length + uoffset.sizeof ≤ d.buf.length := by omega
  refine ⟨{ d with finished := true }, ?_, fun hsmall => ⟨?_, ?_, hfront, hsmall⟩, ?_, hfront, hfinal⟩
  · have hunfinished : (!b.finished) = true := by
      rw [hfinished]
      rfl
    have hzero : 0 + uoffset.sizeof + 0 = uoffset.sizeof := rfl
    have hmin : ({ b with vtables := [] }.trackMinAlign 0).minalign = b.minalign := by
      rw [trackMinAlign_of_le (Nat.zero_le _)]
    simp only [finish, guard_of hunfinished, guard_of h.notNested, hzero, hmin, hpre, hrefer, hpush, Option.bind_eq_bind,
      Option.pure_def, Option.bind_some]
  · refine List.IsSuffix.trans ?_ hp.extend.buf
    rw [hc]
    exact List.suffix_append _ _
  · show b.minalign ∣ d.buf.length
    rwa [hoff]
  · show scalarAt d.buf uoffset 0 = _
    have hscalar := hp.scalar.value
    rw [scalarFromEnd, hp.off_eq, Nat.sub_self] at hscalar
    rw [hscalar]
    exact congrArg (· % _) (by simp only [hoff]; omega)

end FlatBufferBuilder

end FlatBuffers

end Us2d
