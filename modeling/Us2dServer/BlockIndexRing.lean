import Us2dServer.BlockIndex
import Us2dServer.ConcurrentQueueInv
import Mathlib.Data.Nat.ModEq

/-!
# The rings of a block index

The blocks of a producer are numbered in the order in which they are put into the index, and number
`m` has the key `32 * m`.  A ring that begins with the block `base` has the block `m` at the place
`(m - base) % capacity`, as long as it is one of the last `capacity` blocks.  A block that is in use is
in the last ring, and in each older ring in which it has been put.

    from the key at the tail the place of a block in use is found     (IndexWindow.lookup)
    the entry after the tail is for the next block                   (storeKey, storeIndexTail, rewindTail)
    a new ring is made only when the oldest block is in use          (full, grow)
-/

namespace Us2d

/-! ## Places -/

theorem eq_of_mod_eq {a b c : Nat} (h : a % c = b % c) (hab : a ≤ b) (hlt : b < a + c) : a = b := by
  have hdvd : c ∣ b - a := (Nat.modEq_iff_dvd' hab).mp h
  have hzero : b - a = 0 := Nat.eq_zero_of_dvd_of_lt hdvd (by omega)
  omega

theorem mod_cancel {a b c d : Nat} (h : (a + d) % c = (b + d) % c) : a % c = b % c :=
  Nat.ModEq.add_right_cancel' d h

theorem BlockIndexHeader.mask_eq {h : BlockIndexHeader} {k : Nat} (hcap : h.capacity = 2 ^ k) (hk : k ≤ 64)
    (i : Nat) : h.mask i = i % h.capacity := by
  unfold mask
  rw [hcap, Nat.and_two_pow_sub_one_eq_mod, Nat.mod_mod_of_dvd _ (Nat.pow_dvd_pow 2 hk)]

namespace BlockIndex

/-- The start of the block `m`. -/
def blockKey (m : Nat) : Index := BitVec.ofNat 64 (32 * m)

theorem blockKey_toNat {m : Nat} (hm : m < 2 ^ 59) : (blockKey m).toNat = 32 * m := by
  rw [blockKey, BitVec.toNat_ofNat]
  omega

theorem blockKey_div (i : Index) : blockKey (i.toNat / 32) = blockBase i := by
  apply BitVec.eq_of_toNat_eq
  have := i.isLt
  rw [blockKey_toNat (by omega), blockBase_toNat]
  omega

theorem blockKey_of_mod {i : Index} (h : i.toNat % 32 = 0) : blockKey (i.toNat / 32) = i := by
  rw [blockKey_div, blockBase_of_mod h]

theorem blockKey_inj {m n : Nat} (hm : m < 2 ^ 59) (hn : n < 2 ^ 59) (h : blockKey m = blockKey n) : m = n := by
  have := congrArg BitVec.toNat h
  rw [blockKey_toNat hm, blockKey_toNat hn] at this
  omega

/-- From the block `m` back to the block of `i`. -/
theorem offset_eq {i key : Index} {m : Nat} (hm : m < 2 ^ 58) (hkey : key.toNat = 32 * m)
    (hle : i.toNat / 32 ≤ m) : offset i key = (2 ^ 64 - (m - i.toNat / 32)) % 2 ^ 64 := by
  have hsub : (blockBase i - key).toInt = 32 * ((i.toNat / 32 : Nat) : Int) - 32 * (m : Int) := by
    rw [BitVec.toInt_sub, BitVec.toInt_eq_toNat_of_lt (by rw [blockBase_toNat]; omega),
      BitVec.toInt_eq_toNat_of_lt (by omega), blockBase_toNat, hkey, Int.bmod_eq_of_le (by omega) (by omega)]
    omega
  have hdiv : (blockBase i - key).toInt.tdiv BLOCK_SIZE = ((i.toNat / 32 : Nat) : Int) - m := by
    rw [hsub, ← Int.mul_sub]
    exact Int.mul_tdiv_cancel_left _ (by decide)
  rw [offset, hdiv, BitVec.toNat_ofInt]
  omega

end BlockIndex

/-! ## Rings -/

/-- What the source does not store: the last header; by header, the first block of its ring and the
numbers of blocks up to its tail and with a key in it; by block, its entry. -/
structure IndexGhost where
  cur : Nat
  base : Nat → Nat
  top : Nat → Nat
  high : Nat → Nat
  entryOf : Nat → Nat

/-- The ring of a header. -/
structure IndexWindow (h : BlockIndexHeader) (base top high : Nat) (entryOf : Nat → Nat) : Prop where
  capacity : ∃ k, h.capacity = 2 ^ k ∧ k ≤ 64
  base_le : base ≤ top
  top_le : top ≤ high
  tail_lt : h.tail < h.capacity
  tail : (h.tail + 1) % h.capacity = (top - base) % h.capacity
  slots : ∀ m, base ≤ m → high ≤ m + h.capacity → m < high →
    h.index ((m - base) % h.capacity) = entryOf m

namespace IndexWindow

variable {h : BlockIndexHeader} {base top high n m : Nat} {entryOf : Nat → Nat} {i key : Index}

theorem pos (hw : IndexWindow h base top high entryOf) : 0 < h.capacity := by
  obtain ⟨k, hk, -⟩ := hw.capacity
  rw [hk]
  exact Nat.two_pow_pos k

theorem mask_eq (hw : IndexWindow h base top high entryOf) (j : Nat) : h.mask j = j % h.capacity := by
  obtain ⟨k, hk, hle⟩ := hw.capacity
  exact BlockIndexHeader.mask_eq hk hle j

theorem dvd (hw : IndexWindow h base top high entryOf) : h.capacity ∣ 2 ^ 64 := by
  obtain ⟨k, hk, hle⟩ := hw.capacity
  rw [hk]
  exact Nat.pow_dvd_pow 2 hle

/-- The place after the tail is that of the next block. -/
theorem mask_tail (hw : IndexWindow h base top high entryOf) :
    h.mask (h.tail + 1) = (top - base) % h.capacity := by
  rw [hw.mask_eq, hw.tail]

/-- The tail is at the last block. -/
theorem tail_eq (hw : IndexWindow h base top high entryOf) (hlt : base < top) :
    h.tail = (top - 1 - base) % h.capacity := by
  have htail := hw.tail
  rw [show top - base = top - 1 - base + 1 by omega] at htail
  have := mod_cancel htail
  rwa [Nat.mod_eq_of_lt hw.tail_lt] at this

/-- **From the key of the block `m`, at its place, the place of the block of `i` is found.** -/
theorem lookup (hw : IndexWindow h base top high entryOf) (hm : m < 2 ^ 58) (hkey : key.toNat = 32 * m)
    (hbase : base ≤ i.toNat / 32) (hle : i.toNat / 32 ≤ m) :
    h.mask ((m - base) % h.capacity + BlockIndex.offset i key) = (i.toNat / 32 - base) % h.capacity := by
  have hzero : 2 ^ 64 % h.capacity = 0 := Nat.mod_eq_zero_of_dvd hw.dvd
  rw [hw.mask_eq, BlockIndex.offset_eq hm hkey hle, Nat.add_mod, Nat.mod_mod_of_dvd _ hw.dvd, Nat.mod_mod,
    ← Nat.add_mod]
  apply mod_cancel (d := m - i.toNat / 32)
  rw [show m - base + (2 ^ 64 - (m - i.toNat / 32)) + (m - i.toNat / 32) = m - base + 2 ^ 64 by omega,
    show i.toNat / 32 - base + (m - i.toNat / 32) = m - base by omega, Nat.add_mod, hzero, Nat.add_zero,
    Nat.mod_mod]

end IndexWindow

/-- The index of a producer that has begun `begun` blocks: what its last ring has of them, and what
`map` says of them. -/
structure IndexRing (ix : BlockIndex) (map : Index → Option Nat) (begun : Nat) (g : IndexGhost) : Prop where
  current : ix.blockIndex = some g.cur
  count : ix.headerCount = g.cur + 1
  windows : ∀ h, h ≤ g.cur → IndexWindow (ix.headers h) (g.base h) (g.top h) (g.high h) g.entryOf
  next : ix.nextBlockIndexCapacity = 2 * (ix.headers g.cur).capacity
  fresh : ∀ j, j < (ix.headers g.cur).capacity → (ix.headers g.cur).index j < ix.entryCount
  inj : ∀ i j, i < (ix.headers g.cur).capacity → j < (ix.headers g.cur).capacity →
    (ix.headers g.cur).index i = (ix.headers g.cur).index j → i = j
  high_le : g.high g.cur ≤ g.top g.cur + 1
  older : ∀ h, h < g.cur → g.high h ≤ begun ∧ g.high h ≤ g.high g.cur
  base_le : g.base g.cur ≤ begun
  begun_le : begun ≤ g.top g.cur
  top_le : g.top g.cur ≤ begun + 1
  room : (ix.headers g.cur).capacity ≤ 2 * g.high g.cur + 32
  keys : ∀ m, g.base g.cur ≤ m → g.high g.cur ≤ m + (ix.headers g.cur).capacity → m < g.high g.cur →
    (ix.entries (g.entryOf m)).key.toNat = 32 * m ∧
      (ix.entries (g.entryOf m)).value = map (BlockIndex.blockKey m)
  unused : ∀ j, g.high g.cur - g.base g.cur ≤ j → j < (ix.headers g.cur).capacity →
    (ix.entries ((ix.headers g.cur).index j)).key = INVALID_BLOCK_BASE ∧
      (ix.entries ((ix.headers g.cur).index j)).value = none
  live : ∀ n, n < 2 ^ 59 → map (BlockIndex.blockKey n) ≠ none →
    g.base g.cur ≤ n ∧ g.high g.cur ≤ n + (ix.headers g.cur).capacity ∧ n < g.high g.cur

namespace IndexRing

variable {ix : BlockIndex} {map : Index → Option Nat} {begun m n : Nat} {g : IndexGhost}

theorem window (hr : IndexRing ix map begun g) :
    IndexWindow (ix.headers g.cur) (g.base g.cur) (g.top g.cur) (g.high g.cur) g.entryOf :=
  hr.windows _ (Nat.le_refl _)

theorem pos (hr : IndexRing ix map begun g) : 0 < (ix.headers g.cur).capacity := hr.window.pos

/-- The place of the block `m` in the last ring. -/
theorem place_lt (hr : IndexRing ix map begun g) (m : Nat) :
    (m - g.base g.cur) % (ix.headers g.cur).capacity < (ix.headers g.cur).capacity :=
  Nat.mod_lt _ hr.pos

/-- Different blocks have different entries. -/
theorem entryOf_ne (hr : IndexRing ix map begun g) (hm : g.base g.cur ≤ m)
    (hm' : g.high g.cur ≤ m + (ix.headers g.cur).capacity) (hlt : m < g.high g.cur) (hn : m < n)
    (hn' : n < m + (ix.headers g.cur).capacity) :
    g.entryOf m ≠ (ix.headers g.cur).index ((n - g.base g.cur) % (ix.headers g.cur).capacity) := by
  rw [← hr.window.slots m hm hm' hlt]
  intro heq
  have := eq_of_mod_eq (hr.inj _ _ (hr.place_lt m) (hr.place_lt n) heq) (by omega) (by omega)
  omega

theorem entryOf_inj (hr : IndexRing ix map begun g) (hm : g.base g.cur ≤ m)
    (hm' : g.high g.cur ≤ m + (ix.headers g.cur).capacity) (hlt : m < g.high g.cur) (hn : g.base g.cur ≤ n)
    (hn' : g.high g.cur ≤ n + (ix.headers g.cur).capacity) (hnlt : n < g.high g.cur)
    (heq : g.entryOf m = g.entryOf n) : m = n := by
  rcases Nat.lt_trichotomy m n with h | h | h
  · refine absurd ?_ (hr.entryOf_ne hm hm' hlt h (by omega))
    rw [heq, hr.window.slots n hn hn' hnlt]
  · exact h
  · refine absurd ?_ (hr.entryOf_ne hn hn' hnlt h (by omega))
    rw [← heq, hr.window.slots m hm hm' hlt]

/-- The producer has begun a block that the index had already. -/
theorem begin_block (hr : IndexRing ix map begun g) {begun' : Nat} (h : begun ≤ begun')
    (h' : begun' ≤ g.top g.cur) : IndexRing ix map begun' g where
  __ := hr
  older := fun k hk => ⟨Nat.le_trans (hr.older k hk).1 h, (hr.older k hk).2⟩
  base_le := Nat.le_trans hr.base_le h
  begun_le := h'
  top_le := by have := hr.top_le; omega

end IndexRing

/-! ## The accesses of the producer -/

namespace IndexGhost

/-- The entry `e` has the key of the next block. -/
def keyed (g : IndexGhost) (e : Nat) : IndexGhost :=
  { g with
    high := Function.update g.high g.cur (g.top g.cur + 1)
    entryOf := Function.update g.entryOf (g.top g.cur) e }

/-- The tail is at the block before `top`. -/
def upTo (g : IndexGhost) (top : Nat) : IndexGhost := { g with top := Function.update g.top g.cur top }

/-- The ring of `capacity` entries has been copied into a new one. -/
def grown (g : IndexGhost) (capacity : Nat) : IndexGhost where
  cur := g.cur + 1
  base := Function.update g.base (g.cur + 1) (g.top g.cur - capacity)
  top := Function.update g.top (g.cur + 1) (g.top g.cur)
  high := Function.update g.high (g.cur + 1) (g.top g.cur)
  entryOf := g.entryOf

end IndexGhost

namespace IndexRing

variable {ix : BlockIndex} {map : Index → Option Nat} {begun m n e : Nat} {g : IndexGhost} {key : Index}

/-- A block with the value `none` at the place of the next one is not in use. -/
theorem next_free (hr : IndexRing ix map begun g)
    (he : e = (ix.headers g.cur).index ((g.top g.cur - g.base g.cur) % (ix.headers g.cur).capacity))
    (hnone : (ix.entries e).value = none) (hn : n < 2 ^ 59) (hlive : map (BlockIndex.blockKey n) ≠ none) :
    g.top g.cur < n + (ix.headers g.cur).capacity := by
  obtain ⟨hbase, hle, hlt⟩ := hr.live n hn hlive
  have htop := hr.window.top_le
  by_contra hge
  have hplace : (n - g.base g.cur) % (ix.headers g.cur).capacity =
      (g.top g.cur - g.base g.cur) % (ix.headers g.cur).capacity := by
    rw [show g.top g.cur - g.base g.cur = n - g.base g.cur + (ix.headers g.cur).capacity by omega,
      Nat.add_mod_right]
  rw [he, ← hplace, hr.window.slots n hbase hle hlt, (hr.keys n hbase hle hlt).2] at hnone
  exact hlive hnone

/-- As long as the ring is not full, the entry after the tail has never been used. -/
theorem next_unused (hr : IndexRing ix map begun g) (hhigh : g.high g.cur = g.top g.cur)
    (hroom : g.top g.cur < g.base g.cur + (ix.headers g.cur).capacity) :
    (ix.entries ((ix.headers g.cur).index ((g.top g.cur - g.base g.cur) % (ix.headers g.cur).capacity))).key =
        INVALID_BLOCK_BASE ∧
      (ix.entries ((ix.headers g.cur).index
        ((g.top g.cur - g.base g.cur) % (ix.headers g.cur).capacity))).value = none := by
  have hbase := hr.window.base_le
  rw [Nat.mod_eq_of_lt (by omega)]
  exact hr.unused _ (by omega) (by omega)

/-- The entry after the tail is not in use if it never had a key. -/
theorem value_of_invalid (hr : IndexRing ix map begun g)
    (he : e = (ix.headers g.cur).index ((g.top g.cur - g.base g.cur) % (ix.headers g.cur).capacity))
    (hkey : (ix.entries e).key = INVALID_BLOCK_BASE) : (ix.entries e).value = none := by
  have hbase := hr.window.base_le
  have htop := hr.window.top_le
  have hpos := hr.pos
  have hhigh := hr.high_le
  have hinvalid : (ix.entries e).key.toNat = 1 := by rw [hkey]; rfl
  by_cases heq : g.high g.cur = g.top g.cur
  · by_cases hfull : g.base g.cur + (ix.headers g.cur).capacity ≤ g.top g.cur
    · have hslot := hr.window.slots (g.top g.cur - (ix.headers g.cur).capacity) (by omega) (by omega) (by omega)
      rw [← Nat.add_mod_right, show g.top g.cur - (ix.headers g.cur).capacity - g.base g.cur +
        (ix.headers g.cur).capacity = g.top g.cur - g.base g.cur by omega, ← he] at hslot
      have := (hr.keys (g.top g.cur - (ix.headers g.cur).capacity) (by omega) (by omega) (by omega)).1
      rw [← hslot] at this
      omega
    · rw [he]
      exact (hr.next_unused heq (by omega)).2
  · have hslot := hr.window.slots (g.top g.cur) hbase (by omega) (by omega)
    rw [← he] at hslot
    have := (hr.keys _ hbase (by omega) (by omega)).1
    rw [← hslot] at this
    omega

/-- The entry after the tail is in use only if the ring is full. -/
theorem full (hr : IndexRing ix map begun g)
    (he : e = (ix.headers g.cur).index ((g.top g.cur - g.base g.cur) % (ix.headers g.cur).capacity))
    (hvalue : (ix.entries e).value ≠ none) (hmap : map (BlockIndex.blockKey (g.top g.cur)) = none) :
    g.high g.cur = g.top g.cur ∧ g.base g.cur + (ix.headers g.cur).capacity ≤ g.top g.cur := by
  have hbase := hr.window.base_le
  have htop := hr.window.top_le
  have hpos := hr.pos
  have hhigh := hr.high_le
  by_cases heq : g.high g.cur = g.top g.cur
  · refine ⟨heq, ?_⟩
    by_contra hfull
    refine hvalue ?_
    rw [he]
    exact (hr.next_unused heq (by omega)).2
  · have hslot := hr.window.slots (g.top g.cur) hbase (by omega) (by omega)
    rw [← he] at hslot
    rw [hslot, (hr.keys _ hbase (by omega) (by omega)).2] at hvalue
    exact absurd hmap hvalue

/-- The key of the next block is stored in the entry after the tail. -/
theorem storeKey (hr : IndexRing ix map begun g) (hbegun : g.top g.cur = begun)
    (he : e = (ix.headers g.cur).index ((g.top g.cur - g.base g.cur) % (ix.headers g.cur).capacity))
    (hnone : (ix.entries e).value = none) (hkey : key.toNat = 32 * g.top g.cur)
    (hmap : map (BlockIndex.blockKey (g.top g.cur)) = none) :
    IndexRing (ix.setEntry e { ix.entries e with key := key }) map begun (g.keyed e) := by
  have hbase := hr.window.base_le
  have htop := hr.window.top_le
  have hhigh := hr.high_le
  have hpos := hr.pos
  have hvalue : ∀ e', ((ix.setEntry e { ix.entries e with key := key }).entries e').value =
      (ix.entries e').value := by
    intro e'
    simp only [BlockIndex.setEntry, Function.update_apply]
    split
    · next heq => rw [heq]
    · rfl
  refine {
    current := hr.current
    count := hr.count
    windows := ?_
    next := hr.next
    fresh := hr.fresh
    inj := hr.inj
    high_le := by simp [IndexGhost.keyed]
    older := ?_
    base_le := hr.base_le
    begun_le := hr.begun_le
    top_le := hr.top_le
    room := ?_
    keys := ?_
    unused := ?_
    live := ?_ }
  · intro h hh
    obtain rfl | hlt := Nat.eq_or_lt_of_le hh
    · have hw := hr.window
      simp only [IndexGhost.keyed, Function.update_self]
      refine ⟨hw.capacity, hw.base_le, Nat.le_succ _, hw.tail_lt, hw.tail, fun m hm hm' hlt => ?_⟩
      by_cases hmtop : m = g.top g.cur
      · rw [hmtop, Function.update_self, he]
        rfl
      · rw [Function.update_of_ne hmtop]
        exact hw.slots m hm (Nat.le_trans hhigh hm') (by omega)
    · have hw := hr.windows h hh
      have hold := (hr.older h hlt).1
      have hne : h ≠ g.cur := Nat.ne_of_lt hlt
      simp only [IndexGhost.keyed, Function.update_of_ne hne]
      refine ⟨hw.capacity, hw.base_le, hw.top_le, hw.tail_lt, hw.tail, fun m hm hm' hmlt => ?_⟩
      rw [Function.update_of_ne (by omega)]
      exact hw.slots m hm hm' hmlt
  · intro h hh
    have hold := hr.older h hh
    have hne : h ≠ g.cur := Nat.ne_of_lt hh
    simp only [IndexGhost.keyed, Function.update_self, Function.update_of_ne hne]
    omega
  · have hroom := hr.room
    simp only [IndexGhost.keyed, Function.update_self]
    exact Nat.le_trans hroom (by omega)
  · intro m hm hm' hlt
    simp only [IndexGhost.keyed, Function.update_self] at hm hm' hlt ⊢
    by_cases hmtop : m = g.top g.cur
    · subst hmtop
      rw [Function.update_self, hvalue, hnone, hmap]
      exact ⟨by simpa [BlockIndex.setEntry] using hkey, rfl⟩
    · have hm'' : g.top g.cur + 1 ≤ m + (ix.headers g.cur).capacity := hm'
      have hne : g.entryOf m ≠ e := by
        rw [he]
        exact hr.entryOf_ne hm (by omega) (by omega) (by omega) (by omega)
      rw [Function.update_of_ne hmtop, hvalue]
      simp only [BlockIndex.setEntry, Function.update_of_ne hne]
      exact hr.keys m hm (by omega) (by omega)
  · intro j hj hj'
    simp only [IndexGhost.keyed, Function.update_self] at hj
    have hj'' : j < (ix.headers g.cur).capacity := hj'
    have hne : (ix.headers g.cur).index j ≠ e := by
      rw [he]
      intro heq
      have hplace := hr.inj _ _ hj' (hr.place_lt _) heq
      rw [Nat.mod_eq_of_lt (by omega)] at hplace
      omega
    have hold := hr.unused j (by omega) hj'
    simpa only [BlockIndex.setEntry, IndexGhost.keyed, Function.update_of_ne hne] using hold
  · intro n hn hlive
    obtain ⟨hb, -, hlt⟩ := hr.live n hn hlive
    have hfree := hr.next_free he hnone hn hlive
    simp only [IndexGhost.keyed, Function.update_self]
    exact ⟨hb, hfree, by omega⟩

/-- The tail of the last ring is set, to a block that it has a key for. -/
theorem setTail (hr : IndexRing ix map begun g) {tail top : Nat} (hlt : tail < (ix.headers g.cur).capacity)
    (htail : (tail + 1) % (ix.headers g.cur).capacity = (top - g.base g.cur) % (ix.headers g.cur).capacity)
    (hle : top ≤ g.high g.cur) (hhigh : g.high g.cur ≤ top + 1) (hbegun : begun ≤ top)
    (hbegun' : top ≤ begun + 1) : IndexRing (ix.setTail g.cur tail) map begun (g.upTo top) := by
  have hcap : ((ix.setTail g.cur tail).headers g.cur).capacity = (ix.headers g.cur).capacity := by
    simp [BlockIndex.setTail]
  have hindex : ((ix.setTail g.cur tail).headers g.cur).index = (ix.headers g.cur).index := by
    simp [BlockIndex.setTail]
  refine {
    current := hr.current
    count := hr.count
    windows := ?_
    next := ?_
    fresh := ?_
    inj := ?_
    high_le := by simpa [IndexGhost.upTo] using hhigh
    older := hr.older
    base_le := hr.base_le
    begun_le := by simpa [IndexGhost.upTo] using hbegun
    top_le := by simpa [IndexGhost.upTo] using hbegun'
    room := ?_
    keys := ?_
    unused := ?_
    live := ?_ }
  · intro h hh
    obtain rfl | hne := Nat.eq_or_lt_of_le hh
    · have hw := hr.window
      simp only [IndexGhost.upTo, BlockIndex.setTail, Function.update_self]
      exact ⟨hw.capacity, Nat.le_trans hr.base_le hbegun, hle, hlt, htail, hw.slots⟩
    · have hne' : h ≠ g.cur := Nat.ne_of_lt hne
      simp only [IndexGhost.upTo, BlockIndex.setTail, Function.update_of_ne hne']
      exact hr.windows h hh
  all_goals simp only [IndexGhost.upTo, hcap, hindex]
  · exact hr.next
  · exact hr.fresh
  · exact hr.inj
  · exact hr.room
  · exact hr.keys
  · exact hr.unused
  · exact hr.live

/-- The tail moves on to the next block. -/
theorem storeIndexTail (hr : IndexRing ix map begun g) (hbegun : g.top g.cur = begun)
    (hhigh : g.high g.cur = g.top g.cur + 1) :
    IndexRing (ix.setTail g.cur ((g.top g.cur - g.base g.cur) % (ix.headers g.cur).capacity)) map begun
      (g.upTo (g.top g.cur + 1)) := by
  have hbase := hr.window.base_le
  refine hr.setTail (hr.place_lt _) ?_ (by omega) (by omega) (by omega) (by omega)
  rw [Nat.mod_add_mod, show g.top g.cur + 1 - g.base g.cur = g.top g.cur - g.base g.cur + 1 by omega]

/-- The tail moves back. -/
theorem rewindTail (hr : IndexRing ix map begun g) (htop : g.top g.cur = begun + 1)
    (hhigh : g.high g.cur = g.top g.cur) :
    IndexRing (ix.setTail g.cur ((ix.headers g.cur).mask ((ix.headers g.cur).tail + (2 ^ 64 - 1)))) map begun
      (g.upTo begun) := by
  have hw := hr.window
  have hbase := hr.base_le
  have hzero : 2 ^ 64 % (ix.headers g.cur).capacity = 0 := Nat.mod_eq_zero_of_dvd hw.dvd
  rw [hw.mask_eq]
  refine hr.setTail (Nat.mod_lt _ hr.pos) ?_ (by omega) (by omega) (by omega) (by omega)
  rw [Nat.mod_add_mod, show (ix.headers g.cur).tail + (2 ^ 64 - 1) + 1 = (ix.headers g.cur).tail + 2 ^ 64 by omega,
    Nat.add_mod, hzero, Nat.add_zero, Nat.mod_mod, hw.tail_eq (by omega), Nat.mod_mod,
    show g.top g.cur - 1 - g.base g.cur = begun - g.base g.cur by omega]

/-- The value of a block's entry is stored. -/
theorem setValue (hr : IndexRing ix map begun g) (hm : g.base g.cur ≤ m)
    (hm' : g.high g.cur ≤ m + (ix.headers g.cur).capacity) (hlt : m < g.high g.cur)
    (hsmall : g.high g.cur ≤ 2 ^ 59) (v : Option Nat) :
    IndexRing (ix.setEntry (g.entryOf m) { ix.entries (g.entryOf m) with value := v })
      (Function.update map (BlockIndex.blockKey m) v) begun g where
  __ := hr
  keys := by
    intro n hn hn' hnlt
    have hold := hr.keys n hn hn' hnlt
    by_cases hnm : n = m
    · subst hnm
      simp only [BlockIndex.setEntry, Function.update_self]
      exact ⟨hold.1, trivial⟩
    · have hkey : BlockIndex.blockKey n ≠ BlockIndex.blockKey m := fun heq =>
        hnm (BlockIndex.blockKey_inj (by omega) (by omega) heq)
      have hentry : g.entryOf n ≠ g.entryOf m := fun heq =>
        hnm (hr.entryOf_inj hn hn' hnlt hm hm' hlt heq)
      simpa only [BlockIndex.setEntry, Function.update_of_ne hentry, Function.update_of_ne hkey] using hold
  unused := by
    intro j hj hj'
    have hj'' : j < (ix.headers g.cur).capacity := hj'
    have hne : (ix.headers g.cur).index j ≠ g.entryOf m := by
      rw [← hr.window.slots m hm hm' hlt]
      intro heq
      have hplace := hr.inj _ _ hj' (hr.place_lt m) heq
      rw [Nat.mod_eq_of_lt (by omega)] at hplace
      omega
    simp only [BlockIndex.setEntry, Function.update_of_ne hne]
    exact hr.unused j hj hj'
  live := by
    intro n hn hlive
    by_cases hnm : n = m
    · subst hnm
      exact ⟨hm, hm', hlt⟩
    · have hkey : BlockIndex.blockKey n ≠ BlockIndex.blockKey m := fun heq =>
        hnm (BlockIndex.blockKey_inj hn (by omega) heq)
      rw [Function.update_of_ne hkey] at hlive
      exact hr.live n hn hlive

/-- **A new ring has the blocks that are in use.**  It is made only when the entry after the tail is in
use, so that the last ring is full. -/
theorem grow (hr : IndexRing ix map begun g) (hbegun : g.top g.cur = begun) (hhigh : g.high g.cur = g.top g.cur)
    (hfull : g.base g.cur + (ix.headers g.cur).capacity ≤ g.top g.cur) (hsmall : begun ≤ 2 ^ 58) :
    IndexRing ix.newBlockIndex map begun (g.grown (ix.headers g.cur).capacity) := by
  have hpos := hr.pos
  have hw := hr.window
  obtain ⟨k, hk, hk64⟩ := hw.capacity
  have hcap : (ix.headers g.cur).capacity ≤ 2 ^ 58 := by omega
  have hklt : k < 59 := by
    rw [← Nat.pow_lt_pow_iff_right (a := 2) (by decide), ← hk]
    omega
  have hnext : ix.nextBlockIndexCapacity = 2 ^ (k + 1) := by
    rw [hr.next, hk, Nat.pow_succ, Nat.mul_comm]
  -- the copied entries
  have hcopied : ∀ j, j < (ix.headers g.cur).capacity →
      (ix.headers g.cur).index ((ix.headers g.cur).mask ((ix.headers g.cur).tail + 1 + j)) =
        g.entryOf (g.top g.cur - (ix.headers g.cur).capacity + j) := by
    intro j hj
    rw [hw.mask_eq, Nat.add_mod, hw.tail, ← Nat.add_mod,
      ← hw.slots (g.top g.cur - (ix.headers g.cur).capacity + j) (by omega) (by omega) (by omega),
      show g.top g.cur - g.base g.cur + j = g.top g.cur - (ix.headers g.cur).capacity + j - g.base g.cur +
        (ix.headers g.cur).capacity by omega, Nat.add_mod_right]
  have hheader : ix.newBlockIndex.headers (g.cur + 1) = {
      capacity := 2 * (ix.headers g.cur).capacity
      tail := (ix.headers g.cur).capacity - 1
      index := fun i => if i < (ix.headers g.cur).capacity then
        g.entryOf (g.top g.cur - (ix.headers g.cur).capacity + i)
        else ix.entryCount + (i - (ix.headers g.cur).capacity) } := by
    simp only [BlockIndex.newBlockIndex, hr.current, hr.count, Function.update_self, hr.next]
    refine BlockIndexHeader.mk.injEq _ _ _ _ _ _ ▸ ⟨rfl, ?_, ?_⟩
    · rw [← hr.next, hnext, Nat.and_two_pow_sub_one_eq_mod,
        show (ix.headers g.cur).capacity + (2 ^ 64 - 1) = (ix.headers g.cur).capacity - 1 + 2 ^ 64 by omega,
        Nat.add_mod_right, Nat.mod_eq_of_lt (show (ix.headers g.cur).capacity - 1 < 2 ^ 64 by omega),
        Nat.mod_eq_of_lt (by rw [Nat.pow_succ, ← hk]; omega)]
    · funext i
      split
      · next hi => exact hcopied i hi
      · rfl
  have hold : ∀ h, h ≤ g.cur → ix.newBlockIndex.headers h = ix.headers h := by
    intro h hh
    simp only [BlockIndex.newBlockIndex, hr.count]
    exact Function.update_of_ne (by omega) _ _
  have hcount : ix.newBlockIndex.entryCount = ix.entryCount + (ix.headers g.cur).capacity := by
    simp only [BlockIndex.newBlockIndex, hr.current]
  have hentry : ∀ e, ix.newBlockIndex.entries e =
      if ix.entryCount ≤ e ∧ e < ix.entryCount + (ix.headers g.cur).capacity then
        ⟨INVALID_BLOCK_BASE, none⟩ else ix.entries e := by
    intro e
    simp only [BlockIndex.newBlockIndex, hr.current]
  have hfresh : ∀ m, g.top g.cur ≤ m + (ix.headers g.cur).capacity → m < g.top g.cur →
      g.entryOf m < ix.entryCount := by
    intro m hm hlt
    rw [← hw.slots m (by omega) (by omega) (by omega)]
    exact hr.fresh _ (hr.place_lt m)
  refine {
    current := ?_
    count := ?_
    windows := ?_
    next := ?_
    fresh := ?_
    inj := ?_
    high_le := by simp [IndexGhost.grown]
    older := ?_
    base_le := by simp only [IndexGhost.grown, Function.update_self]; omega
    begun_le := by simp only [IndexGhost.grown, Function.update_self]; omega
    top_le := by simp only [IndexGhost.grown, Function.update_self]; omega
    room := ?_
    keys := ?_
    unused := ?_
    live := ?_ }
  · simp only [BlockIndex.newBlockIndex, hr.count]
    rfl
  · simp only [BlockIndex.newBlockIndex, hr.count]
    rfl
  · intro h hh
    obtain rfl | hlt := Nat.eq_or_lt_of_le hh
    · simp only [IndexGhost.grown, hheader, Function.update_self]
      refine ⟨⟨k + 1, by rw [hk, Nat.pow_succ, Nat.mul_comm], by omega⟩, by omega, Nat.le_refl _,
        show _ - 1 < 2 * _ by omega, ?_, ?_⟩
      · rw [show (ix.headers g.cur).capacity - 1 + 1 =
          g.top g.cur - (g.top g.cur - (ix.headers g.cur).capacity) by omega]
      · intro m hm hm' hmlt
        dsimp only at hm' ⊢
        rw [Nat.mod_eq_of_lt (by omega), if_pos (by omega),
          show g.top g.cur - (ix.headers g.cur).capacity + (m - (g.top g.cur - (ix.headers g.cur).capacity)) = m
            by omega]
    · have hle : h ≤ g.cur := Nat.le_of_lt_succ hlt
      have hne : h ≠ g.cur + 1 := by omega
      simp only [IndexGhost.grown, hold h hle, Function.update_of_ne hne]
      exact hr.windows h hle
  · simp only [IndexGhost.grown, hheader]
    simp only [BlockIndex.newBlockIndex, hr.next, Nat.shiftLeft_eq]
    omega
  · intro j hj
    simp only [IndexGhost.grown, hheader, hcount] at hj ⊢
    split
    · next hj' =>
      have := hfresh (g.top g.cur - (ix.headers g.cur).capacity + j) (by omega) (by omega)
      omega
    · omega
  · intro i j hi hj heq
    simp only [IndexGhost.grown, hheader] at hi hj heq
    have hlt : ∀ j, j < (ix.headers g.cur).capacity →
        g.entryOf (g.top g.cur - (ix.headers g.cur).capacity + j) < ix.entryCount := fun j hj =>
      hfresh _ (by omega) (by omega)
    split at heq <;> split at heq
    · have := hr.entryOf_inj (by omega) (by omega) (by omega) (by omega) (by omega) (by omega) heq
      omega
    · have := hlt i (by assumption)
      omega
    · have := hlt j (by assumption)
      omega
    · omega
  · intro h hh
    have hle : h ≤ g.cur := Nat.le_of_lt_succ hh
    have hne : h ≠ g.cur + 1 := by omega
    simp only [IndexGhost.grown, Function.update_self, Function.update_of_ne hne]
    obtain rfl | hlt := Nat.eq_or_lt_of_le hle
    · omega
    · have := hr.older h hlt
      omega
  · simp only [IndexGhost.grown, hheader, Function.update_self]
    omega
  · intro m hm hm' hlt
    simp only [IndexGhost.grown, Function.update_self] at hm hm' hlt ⊢
    have hlt' := hfresh m (by omega) hlt
    rw [hentry, if_neg (by omega)]
    exact hr.keys m (by omega) (by omega) (by omega)
  · intro j hj hj'
    simp only [IndexGhost.grown, hheader, Function.update_self] at hj hj' ⊢
    rw [if_neg (by omega), hentry, if_pos (by omega)]
    exact ⟨rfl, rfl⟩
  · intro n hn hlive
    have hn' := hr.live n hn hlive
    simp only [IndexGhost.grown, hheader, Function.update_self]
    omega

/-- The new ring is not full. -/
theorem grown_room (hr : IndexRing ix map begun g)
    (hfull : g.base g.cur + (ix.headers g.cur).capacity ≤ g.top g.cur) {g' : IndexGhost}
    (hg' : g' = g.grown (ix.headers g.cur).capacity) : g'.high g'.cur = g'.top g'.cur ∧
      g'.top g'.cur < g'.base g'.cur + (ix.newBlockIndex.headers g'.cur).capacity := by
  have hpos := hr.pos
  have hcap : (ix.newBlockIndex.headers (g.cur + 1)).capacity = 2 * (ix.headers g.cur).capacity := by
    rw [← hr.count, ← hr.next]
    simp only [BlockIndex.newBlockIndex, Function.update_self]
  subst hg'
  constructor
  · simp only [IndexGhost.grown, Function.update_self]
  · simp only [IndexGhost.grown, Function.update_self, hcap]
    omega

end IndexRing

end Us2d
