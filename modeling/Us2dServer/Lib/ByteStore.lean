import Mathlib.Data.List.GetD

/-!
# Byte buffers

A buffer is a function from offsets to bytes, without an end: whether an access stays inside
the object it is meant for is a statement to prove, not a feature of the representation.

    slice m off n      the `n` bytes from offset `off`
    store m off bs     `m` with `bs` written from offset `off`
    u16At bs off       the little-endian 16-bit value at offset `off` of a byte string
-/

namespace ByteStore

abbrev Buffer := Nat → UInt8

def slice (m : Buffer) (off n : Nat) : List UInt8 := (List.range n).map fun i => m (off + i)

def store (m : Buffer) (off : Nat) (bs : List UInt8) : Buffer := fun i =>
  if i < off then m i else bs.getD (i - off) (m i)

/-- The 16-bit value with the given low and high byte. -/
def le16 (lo hi : UInt8) : UInt16 := UInt16.ofNat (lo.toNat + 256 * hi.toNat)

def u16At (bs : List UInt8) (off : Nat) : UInt16 := le16 (bs.getD off 0) (bs.getD (off + 1) 0)

/-! ## Slices -/

@[simp] theorem length_slice (m : Buffer) (off n : Nat) : (slice m off n).length = n := by
  simp [slice]

@[simp] theorem slice_zero (m : Buffer) (off : Nat) : slice m off 0 = [] := rfl

theorem slice_congr {m m' : Buffer} {off n : Nat} (h : ∀ i, off ≤ i → i < off + n → m i = m' i) :
    slice m off n = slice m' off n := by
  apply List.map_congr_left
  intro i hi
  rw [List.mem_range] at hi
  exact h _ (by omega) (by omega)

theorem slice_add (m : Buffer) (off a b : Nat) :
    slice m off (a + b) = slice m off a ++ slice m (off + a) b := by
  unfold slice
  rw [List.range_add, List.map_append, List.map_map]
  congr 1
  apply List.map_congr_left
  intro i _
  simp [Nat.add_assoc]

theorem getD_slice (m : Buffer) (off n i : Nat) (d : UInt8) (h : i < n) :
    (slice m off n).getD i d = m (off + i) := by
  rw [List.getD_eq_getElem _ _ (by simpa using h)]
  simp [slice]

theorem u16At_append {bs cs : List UInt8} {off : Nat} (h : off + 1 < bs.length) :
    u16At (bs ++ cs) off = u16At bs off := by
  unfold u16At
  rw [List.getD_append _ _ _ _ (by omega), List.getD_append _ _ _ _ (by omega)]

theorem u16At_slice (m : Buffer) {n off : Nat} (h : off + 1 < n) :
    u16At (slice m 0 n) off = le16 (m off) (m (off + 1)) := by
  unfold u16At
  rw [getD_slice _ _ _ _ _ (by omega), getD_slice _ _ _ _ _ h]
  simp

/-! ## Stores -/

theorem store_lt {m : Buffer} {off : Nat} {bs : List UInt8} {i : Nat} (h : i < off) :
    store m off bs i = m i := if_pos h

theorem store_at {m : Buffer} {off : Nat} {bs : List UInt8} {i : Nat} (h : i < bs.length) :
    store m off bs (off + i) = bs[i] := by
  unfold store
  rw [if_neg (by omega), Nat.add_sub_cancel_left, List.getD_eq_getElem _ _ h]

theorem slice_store_below (m : Buffer) (off : Nat) (bs : List UInt8) {at' n : Nat}
    (h : at' + n ≤ off) : slice (store m off bs) at' n = slice m at' n :=
  slice_congr fun i _ hi => store_lt (by omega)

theorem slice_store_self (m : Buffer) (off : Nat) (bs : List UInt8) :
    slice (store m off bs) off bs.length = bs := by
  apply List.ext_getElem (by simp)
  intro i h1 h2
  simp only [slice, List.getElem_map, List.getElem_range]
  exact store_at h2

/-- Writing `bs` right after the first `n` bytes extends the slice by `bs`. -/
theorem slice_store_append (m : Buffer) (n : Nat) (bs : List UInt8) :
    slice (store m n bs) 0 (n + bs.length) = slice m 0 n ++ bs := by
  rw [slice_add, slice_store_below _ _ _ (by omega), Nat.zero_add, slice_store_self]

end ByteStore
