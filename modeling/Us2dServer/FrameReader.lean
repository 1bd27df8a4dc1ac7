import Us2dServer.Connection
import Us2dServer.MemoryPoolInv

/-!
# The frame reader of one connection refines a parser

`parse` is the reference: it cuts a byte stream into frames (20-byte header, `type_id` at
offset 2, `payload_size` at offset 14, then the payload) until the stream ends, a frame is
longer than 4096 bytes or the pool refuses.  `FrameReader` runs the handlers of one connection
against a transport that delivers the stream in chunks and then fails, and against a pool that
answers as it likes.

    run n (start …) is finished, and requests = parse … chunks.flatten
                                        (frameReader_refines_parse)
-/

namespace Us2d

open ByteStore

theorem length_drop_lt {l : List UInt8} (n : Nat) (h : 20 ≤ l.length) :
    (l.drop (20 + n)).length < l.length := by
  rw [List.length_drop]
  omega

/-- The frames of a stream; `granted i` is the answer to the `i`-th `rent` of at most 4096
bytes. -/
def parse (id : UInt32) (granted : Nat → Bool) (i : Nat) (stream : List UInt8) : List Frame :=
  if h : 20 ≤ stream.length then
    let n := (u16At stream 14).toNat
    if 20 + n ≤ 4096 ∧ granted i = true ∧ 20 + n ≤ stream.length then
      (id, u16At stream 2, stream.take (20 + n)) :: parse id granted (i + 1) (stream.drop (20 + n))
    else []
  else []
termination_by stream.length
decreasing_by exact length_drop_lt _ h

/-! ## The reader -/

/-- What `rent` returns: the pointer, and the bytes that are in the block. -/
abbrev Lent := SharedPtr × Buffer

structure FrameReader where
  conn : Connection
  mem : Memory
  /-- arrived and not yet read from the socket -/
  unread : List UInt8
  /-- the chunks still to arrive -/
  chunks : List (List UInt8)
  /-- answered calls of `rent` -/
  rents : Nat
  /-- the requests enqueued, each with the bytes of its frame at that time -/
  requests : List (PacketRequest × List UInt8)

namespace FrameReader

/-- The call of `rent(size)` in the header handler, and the rest of the handler. -/
def rented (answers : Nat → Option Lent) (size : Nat) (c : Connection) (r : FrameReader) :
    FrameReader :=
  match TsMemoryPool.classOf size with
  | none => { r with conn := (c.headerRented none r.mem).1 }
  | some _ =>
    match answers r.rents with
    | none => { r with conn := (c.headerRented none r.mem).1, rents := r.rents + 1 }
    | some (owner, bytes) =>
      let out := c.headerRented (some owner) (Function.update r.mem owner.ptr bytes)
      { r with conn := out.1, mem := out.2.1, rents := r.rents + 1 }

/-- The completion handler of the outstanding read. -/
def complete (answers : Nat → Option Lent) (error : Option ErrorCode) (op : AsyncRead)
    (r : FrameReader) : FrameReader :=
  match op with
  | .header _ =>
    match r.conn.asyncReadHeaderHandler error with
    | (c, .rent size) => rented answers size c r
    | (c, _) => { r with conn := c }
  | .payload owner _ _ =>
    match r.conn.asyncReadPayloadHandler owner error r.mem with
    | (c, .enqueue request) =>
      let size := sizeofPacketHeader + (PacketHeader.payloadSize (r.mem owner.ptr)).toNat
      { r with conn := c.asyncReadHeader,
               requests := r.requests ++ [(request, slice (r.mem owner.ptr) 0 size)] }
    | (c, _) => { r with conn := c }

/-- The read takes what has arrived, as much as fits in its buffer. -/
def receive (op : AsyncRead) (r : FrameReader) : FrameReader :=
  let n := op.length - op.got
  let out := r.conn.receive (r.unread.take n) r.mem
  { r with conn := out.1, mem := out.2, unread := r.unread.drop n }

/-- One event at the connection; `none` when no read is outstanding.  A read that has got its
buffer full completes (at once when the buffer is empty); otherwise it takes what has arrived,
as much as fits, or the next chunk arrives, or the transport fails. -/
def step (answers : Nat → Option Lent) (ending : ErrorCode) (r : FrameReader) : Option FrameReader :=
  match r.conn.read with
  | none => none
  | some op =>
    if op.got = op.length then some (r.complete answers none op)
    else
      match r.unread, r.chunks with
      | [], [] => some (r.complete answers (some ending) op)
      | [], chunk :: chunks => some { r with unread := chunk, chunks := chunks }
      | _ :: _, _ => some (r.receive op)

def run (answers : Nat → Option Lent) (ending : ErrorCode) : Nat → FrameReader → FrameReader
  | 0, r => r
  | fuel + 1, r =>
    match step answers ending r with
    | none => r
    | some r' => run answers ending fuel r'

/-- A connection that the accept handler has just started. -/
def start (id : UInt32) (chunks : List (List UInt8)) : FrameReader where
  conn := (Connection.new id).start
  mem := fun _ _ => 0
  unread := []
  chunks := chunks
  rents := 0
  requests := []

/-- The requests enqueued so far, in order. -/
def frames (r : FrameReader) : List Frame :=
  r.requests.map fun q => (q.1.sessionId, q.1.packetId, q.2)

/-! ## What is still to come -/

/-- The part of the stream that no read has taken. -/
def rest (r : FrameReader) : List UInt8 := r.unread ++ r.chunks.flatten

/-- The frames that the reader will still enqueue, by the reference parser: an outstanding
header read is the parser at the start of a frame, an outstanding payload read is the parser
after a granted `rent`. -/
def expected (answers : Nat → Option Lent) (r : FrameReader) : List Frame :=
  let id := r.conn.connectionId
  let granted := fun i => (answers i).isSome
  match r.conn.read with
  | none => []
  | some (.header got) => parse id granted r.rents (slice r.conn.headerReadBuffer 0 got ++ r.rest)
  | some (.payload owner n got) =>
    if n.toNat - got ≤ r.rest.length then
      (id, PacketHeader.typeId (r.mem owner.ptr),
        slice (r.mem owner.ptr) 0 (20 + got) ++ r.rest.take (n.toNat - got)) ::
        parse id granted r.rents (r.rest.drop (n.toNat - got))
    else []

structure Inv (r : FrameReader) : Prop where
  running : r.conn.read ≠ none → r.conn.isRunning = true
  header : ∀ got, r.conn.read = some (.header got) → got ≤ 20
  payload : ∀ owner n got, r.conn.read = some (.payload owner n got) →
    got ≤ n.toNat ∧ PacketHeader.payloadSize (r.mem owner.ptr) = n

def stageWeight : Option AsyncRead → Nat
  | none => 0
  | some (.header got) => if got = 0 then 1 else 3
  | some (.payload _ _ _) => 2

/-- Every event lowers it: a byte counts three, a chunk one, and a read by its stage. -/
def weight (r : FrameReader) : Nat := 3 * r.rest.length + r.chunks.length + stageWeight r.conn.read

/-- What one event preserves. -/
structure Step (answers : Nat → Option Lent) (r r' : FrameReader) : Prop where
  inv : r'.Inv
  frames : r'.frames ++ expected answers r' = r.frames ++ expected answers r
  weight : r'.weight < r.weight

theorem parse_short {id : UInt32} {granted : Nat → Bool} {i : Nat} {stream : List UInt8}
    (h : stream.length < 20) : parse id granted i stream = [] := by
  rw [parse, dif_neg (by omega)]

/-- The parser on a stream that starts with the header `hdr`. -/
theorem parse_header {id : UInt32} {granted : Nat → Bool} {i : Nat} {hdr rest : List UInt8}
    (h : hdr.length = 20) :
    parse id granted i (hdr ++ rest) =
      if 20 + (u16At hdr 14).toNat ≤ 4096 ∧ granted i = true ∧ (u16At hdr 14).toNat ≤ rest.length then
        (id, u16At hdr 2, hdr ++ rest.take (u16At hdr 14).toNat) ::
          parse id granted (i + 1) (rest.drop (u16At hdr 14).toNat)
      else [] := by
  rw [parse, dif_pos (by simp [h])]
  rw [u16At_append (by omega), u16At_append (by omega)]
  have htake : ∀ n, (hdr ++ rest).take (20 + n) = hdr ++ rest.take n := by
    intro n; rw [← h, List.take_length_add_append]
  have hdrop : ∀ n, (hdr ++ rest).drop (20 + n) = rest.drop n := by
    intro n; rw [← h, List.drop_length_add_append]
  simp only [htake, hdrop, List.length_append, h, Nat.add_le_add_iff_left]

theorem inv_of_ended {r : FrameReader} (h : r.conn.read = none) : r.Inv where
  running := fun hn => absurd h hn
  header := fun got hr => by rw [h] at hr; cases hr
  payload := fun owner n got hr => by rw [h] at hr; cases hr

/-! ## One event -/

variable {answers : Nat → Option Lent} {ending : ErrorCode} {r r' : FrameReader}

theorem stageWeight_pos {op : Option AsyncRead} (h : op ≠ none) : 0 < stageWeight op := by
  unfold stageWeight
  split
  · exact absurd rfl h
  · split <;> omega
  · omega

/-- A failed read ends the connection. -/
theorem complete_error (error : ErrorCode) (op : AsyncRead) :
    r.complete answers (some error) op =
      { r with conn := r.conn.completed.stop.close } := by
  cases op <;> cases error <;> rfl

/-- The transport fails while the outstanding read waits for more. -/
theorem step_error (hr : r.conn.read ≠ none) (op : AsyncRead) (error : ErrorCode)
    (hexp : expected answers r = []) : Step answers r (r.complete answers (some error) op) := by
  rw [complete_error]
  refine ⟨inv_of_ended rfl, ?_, ?_⟩
  · rw [hexp]; rfl
  · exact Nat.add_lt_add_left (stageWeight_pos hr) _

/-- A chunk arrives. -/
theorem step_arrive {chunk : List UInt8} {chunks : List (List UInt8)} (hi : r.Inv)
    (hu : r.unread = []) (hc : r.chunks = chunk :: chunks) :
    Step answers r { r with unread := chunk, chunks := chunks } := by
  have hrest : rest { r with unread := chunk, chunks := chunks } = r.rest := by
    simp [rest, hu, hc]
  refine ⟨⟨hi.running, hi.header, hi.payload⟩, ?_, ?_⟩
  · unfold expected
    rw [hrest]
    rfl
  · unfold weight
    rw [hrest, hc]
    simp

/-- A whole frame of at most 4096 bytes that is granted comes out of the parser, whatever
follows it; its payload may be empty. -/
theorem parse_frame {id : UInt32} {granted : Nat → Bool} {i : Nat} {hdr payload rest : List UInt8}
    (h : hdr.length = 20) (hp : payload.length = (u16At hdr 14).toNat)
    (hle : 20 + payload.length ≤ 4096) (hg : granted i = true) :
    parse id granted i (hdr ++ payload ++ rest) =
      (id, u16At hdr 2, hdr ++ payload) :: parse id granted (i + 1) rest := by
  rw [List.append_assoc, parse_header h, ← hp, if_pos ⟨hle, hg, by simp⟩, List.take_left,
    List.drop_left]

/-- The frames are cut one after the other from the front of the stream. -/
theorem parse_prefix (id : UInt32) (granted : Nat → Bool) (i : Nat) (stream : List UInt8) :
    (parse id granted i stream).flatMap (·.2.2) <+: stream := by
  induction i, stream using parse.induct granted with
  | case1 i stream h n hcond ih =>
    rw [parse, dif_pos h, if_pos hcond, List.flatMap_cons]
    conv => rhs; rw [← List.take_append_drop (20 + n) stream]
    exact (List.prefix_append_right_inj _).mpr ih
  | case2 i stream h n hcond =>
    rw [parse, dif_pos h, if_neg hcond]
    exact List.nil_prefix
  | case3 i stream h =>
    rw [parse, dif_neg h]
    exact List.nil_prefix

/-- A connection without a read has nothing to come. -/
theorem expected_of_ended (h : r.conn.read = none) : expected answers r = [] := by
  unfold expected
  rw [h]

/-- The header read is full: the size is known and `rent` is called. -/
theorem complete_header (hrun : r.conn.isRunning = true) (got : Nat) :
    r.complete answers none (.header got) =
      rented answers (20 + (PacketHeader.payloadSize r.conn.headerReadBuffer).toNat)
        r.conn.completed r := by
  have hrun' : r.conn.completed.isRunning = true := hrun
  simp only [complete, Connection.asyncReadHeaderHandler, checkReadError, hrun', Bool.not_true,
    Bool.false_eq_true, if_false]
  rfl

theorem step_header (hi : r.Inv) (hread : r.conn.read = some (.header 20)) :
    Step answers r (r.complete answers none (.header 20)) := by
  have hrun : r.conn.isRunning = true := hi.running (by rw [hread]; simp)
  have hexp : expected answers r = parse r.conn.connectionId (fun i => (answers i).isSome) r.rents
      (slice r.conn.headerReadBuffer 0 20 ++ r.rest) := by
    unfold expected; rw [hread]
  have hweight : r.weight = 3 * r.rest.length + r.chunks.length + 3 := by
    unfold weight; rw [hread]; rfl
  rw [complete_header hrun, rented]
  rw [parse_header (by simp), PacketHeader.payloadSize_eq_u16At _ (Nat.le_refl 20),
    PacketHeader.typeId_eq_u16At _ (Nat.le_refl 20)] at hexp
  generalize hn : PacketHeader.payloadSize r.conn.headerReadBuffer = n at hexp ⊢
  cases hclass : TsMemoryPool.classOf (20 + n.toNat) with
  | none =>
    have hbig := TsMemoryPool.classOf_eq_none.mp hclass
    refine ⟨inv_of_ended rfl, ?_, hweight ▸ Nat.add_lt_add_left (by decide : 0 < 3) _⟩
    rw [hexp, if_neg (by omega), expected_of_ended rfl]
    rfl
  | some t =>
    have hsmall : 20 + n.toNat ≤ 4096 := by
      apply Classical.byContradiction
      intro hlt
      rw [TsMemoryPool.classOf_eq_none.mpr (by omega)] at hclass
      cases hclass
    cases ha : answers r.rents with
    | none =>
      refine ⟨inv_of_ended rfl, ?_, hweight ▸ Nat.add_lt_add_left (by decide : 0 < 3) _⟩
      rw [hexp, if_neg (by simp [ha]), expected_of_ended rfl]
      rfl
    | some lent =>
      obtain ⟨owner, bytes⟩ := lent
      -- the block now begins with the header
      have hblock : slice (store bytes 0 (slice r.conn.headerReadBuffer 0 20)) 0 20 =
          slice r.conn.headerReadBuffer 0 20 := by
        have := slice_store_self bytes 0 (slice r.conn.headerReadBuffer 0 20)
        rwa [length_slice] at this
      obtain ⟨htype, hsize⟩ := PacketHeader.fields_congr hblock
      simp only [Connection.headerRented, Connection.asyncReadPayload, Memory.write,
        PacketHeader.sizeof_eq, Function.update_self, Function.update_idem]
      refine ⟨⟨fun _ => hrun, fun got hr => (by cases hr), fun o m got hr => ?_⟩, ?_, ?_⟩
      · simp only [Option.some.injEq, AsyncRead.payload.injEq] at hr
        obtain ⟨rfl, rfl, rfl⟩ := hr
        refine ⟨Nat.zero_le _, ?_⟩
        simp only [Function.update_self]
        exact hsize
      · rw [hexp]
        unfold expected
        simp only [frames, Function.update_self, hblock, htype, Nat.sub_zero, Nat.add_zero,
          Connection.completed, hn, ha, Option.isSome_some, hsmall, true_and]
        rfl
      · rw [hweight]
        exact Nat.add_lt_add_left (by decide : 2 < 3) _

/-- The payload read is full: the request is enqueued and the next header is awaited. -/
theorem step_payload (hi : r.Inv) {owner : SharedPtr} {n : UInt16}
    (hread : r.conn.read = some (.payload owner n n.toNat)) :
    Step answers r (r.complete answers none (.payload owner n n.toNat)) := by
  have hrun : r.conn.isRunning = true := hi.running (by rw [hread]; simp)
  have hsize := (hi.payload owner n _ hread).2
  have hrun' : r.conn.completed.isRunning = true := hrun
  have hcomplete : r.complete answers none (.payload owner n n.toNat) =
      { r with conn := r.conn.completed.asyncReadHeader,
               requests := r.requests ++ [(⟨r.conn.connectionId, PacketHeader.typeId (r.mem owner.ptr),
                 owner⟩, slice (r.mem owner.ptr) 0 (20 + n.toNat))] } := by
    simp only [complete, Connection.asyncReadPayloadHandler, checkReadError, hrun', Bool.not_true,
      Bool.false_eq_true, if_false, hsize, PacketHeader.sizeof_eq]
    rfl
  rw [hcomplete]
  refine ⟨⟨fun _ => hrun, fun got hr => ?_, fun o m got hr => (by cases hr)⟩, ?_, ?_⟩
  · simp only [Connection.asyncReadHeader, Option.some.injEq, AsyncRead.header.injEq] at hr
    omega
  · unfold expected
    simp only [frames, Connection.asyncReadHeader, Connection.completed, hread, Nat.sub_self,
      Nat.zero_le, if_true, List.take_zero, List.drop_zero, List.append_nil, List.map_append,
      List.map_cons, List.map_nil, List.append_assoc, List.singleton_append, slice_zero,
      List.nil_append]
    rfl
  · show 3 * r.rest.length + r.chunks.length + 1 < r.weight
    unfold weight
    rw [hread]
    exact Nat.add_lt_add_left (by decide : 1 < 2) _

/-- The transport stores bytes in the outstanding read. -/
theorem step_receive (hi : r.Inv) {op : AsyncRead} (hread : r.conn.read = some op)
    (hlt : op.got < op.length) (hu : r.unread ≠ []) : Step answers r (r.receive op) := by
  have hrun : r.conn.isRunning = true := hi.running (by rw [hread]; simp)
  have hrest : r.rest = r.unread.take (op.length - op.got) ++ (r.receive op).rest := by
    simp only [rest, receive]
    rw [← List.append_assoc, List.take_append_drop]
  have hconn : (r.receive op).conn = (r.conn.receive (r.unread.take (op.length - op.got)) r.mem).1 := rfl
  have hmem : (r.receive op).mem = (r.conn.receive (r.unread.take (op.length - op.got)) r.mem).2 := rfl
  have hframes : (r.receive op).frames = r.frames := rfl
  have hrents : (r.receive op).rents = r.rents := rfl
  have hchunks : (r.receive op).chunks = r.chunks := rfl
  generalize hbs : r.unread.take (op.length - op.got) = bs at hrest hconn hmem
  have hpos : 0 < bs.length := by
    rw [← hbs, List.length_take]
    have := List.length_pos_iff.mpr hu
    omega
  have hle : bs.length ≤ op.length - op.got := by rw [← hbs, List.length_take]; omega
  generalize r.receive op = r' at hrest hconn hmem hframes hrents hchunks ⊢
  have hlen : r.rest.length = bs.length + r'.rest.length := by rw [hrest, List.length_append]
  have hid : r'.conn.connectionId = r.conn.connectionId := by
    rw [hconn]; cases op <;> simp [Connection.receive, hread]
  have hrun' : r'.conn.isRunning = true := by
    rw [hconn]; cases op <;> simp [Connection.receive, hread, hrun]
  cases op with
  | header got =>
    simp only [AsyncRead.got, AsyncRead.length, PacketHeader.sizeof_eq] at hlt hle
    have hread' : r'.conn.read = some (.header (got + bs.length)) := by
      rw [hconn]; simp [Connection.receive, hread]
    have hbuf : r'.conn.headerReadBuffer = store r.conn.headerReadBuffer got bs := by
      rw [hconn]; simp [Connection.receive, hread]
    refine ⟨⟨fun _ => hrun', fun g hg => ?_, fun o m g hg => ?_⟩, ?_, ?_⟩
    · rw [hread'] at hg
      simp only [Option.some.injEq, AsyncRead.header.injEq] at hg
      omega
    · rw [hread'] at hg; cases hg
    · unfold expected
      simp only [hread, hread', hid, hbuf, hframes, hrents]
      rw [hrest, slice_store_append, List.append_assoc]
    · unfold weight stageWeight
      rw [hread, hread', hchunks, hlen]
      simp only
      split <;> split <;> omega
  | payload owner n got =>
    simp only [AsyncRead.got, AsyncRead.length] at hlt hle
    have hread' : r'.conn.read = some (.payload owner n (got + bs.length)) := by
      rw [hconn]; simp [Connection.receive, hread]
    have hblock : r'.mem owner.ptr = store (r.mem owner.ptr) (20 + got) bs := by
      rw [hmem]; simp [Connection.receive, hread, Memory.write, PacketHeader.sizeof_eq]
    obtain ⟨htype, hsize⟩ : PacketHeader.typeId (r'.mem owner.ptr) = PacketHeader.typeId (r.mem owner.ptr) ∧
        PacketHeader.payloadSize (r'.mem owner.ptr) = PacketHeader.payloadSize (r.mem owner.ptr) :=
      PacketHeader.fields_congr (by rw [hblock, slice_store_below _ _ _ (by omega)])
    refine ⟨⟨fun _ => hrun', fun g hg => ?_, fun o m g hg => ?_⟩, ?_, ?_⟩
    · rw [hread'] at hg; cases hg
    · rw [hread'] at hg
      simp only [Option.some.injEq, AsyncRead.payload.injEq] at hg
      obtain ⟨rfl, rfl, rfl⟩ := hg
      exact ⟨by omega, by rw [hsize]; exact (hi.payload _ _ _ hread).2⟩
    · have hn : n.toNat - got = bs.length + (n.toNat - (got + bs.length)) := by omega
      have htake : r.rest.take (n.toNat - got) = bs ++ r'.rest.take (n.toNat - (got + bs.length)) := by
        rw [hn, hrest, List.take_length_add_append]
      have hdrop : r.rest.drop (n.toNat - got) = r'.rest.drop (n.toNat - (got + bs.length)) := by
        rw [hn, hrest, List.drop_length_add_append]
      have hcond : n.toNat - got ≤ r.rest.length ↔ n.toNat - (got + bs.length) ≤ r'.rest.length := by
        omega
      have hslice : slice (r'.mem owner.ptr) 0 (20 + (got + bs.length)) =
          slice (r.mem owner.ptr) 0 (20 + got) ++ bs := by
        rw [hblock, ← Nat.add_assoc, slice_store_append]
      unfold expected
      simp only [hread, hread', hid, hframes, hrents, htype, htake, hdrop, hcond, hslice,
        List.append_assoc]
    · unfold weight stageWeight
      rw [hread, hread', hchunks, hlen]
      simp only
      omega

/-- Every event is a `Step`. -/
theorem step_spec (hi : r.Inv) (h : step answers ending r = some r') : Step answers r r' := by
  unfold step at h
  split at h
  · cases h
  · next op hread =>
    have hread0 : r.conn.read ≠ none := by rw [hread]; simp
    have hgot : op.got ≤ op.length := by
      cases op with
      | header got => exact hi.header got hread
      | payload owner n got => exact (hi.payload owner n got hread).1
    split at h
    · next hfull =>
      obtain rfl := Option.some.inj h
      cases op with
      | header got =>
        obtain rfl : got = 20 := hfull
        exact step_header hi hread
      | payload owner n got =>
        obtain rfl : got = n.toNat := hfull
        exact step_payload hi hread
    · next hfull =>
      split at h
      · next hu hc =>
        obtain rfl := Option.some.inj h
        have hrest : r.rest = [] := by simp [rest, hu, hc]
        refine step_error hread0 op ending ?_
        -- a frame whose bytes never come is not expected
        unfold expected
        rw [hread]
        cases op with
        | header got =>
          have : got < 20 := Nat.lt_of_le_of_ne hgot hfull
          exact parse_short (by simp [hrest, this])
        | payload owner n got =>
          have : got < n.toNat := Nat.lt_of_le_of_ne hgot hfull
          simp only [hrest, List.length_nil]
          rw [if_neg (by omega)]
      · next chunk chunks hu hc =>
        obtain rfl := Option.some.inj h
        exact step_arrive hi hu hc
      · next hu =>
        obtain rfl := Option.some.inj h
        exact step_receive hi hread (Nat.lt_of_le_of_ne hgot hfull) (by rw [hu]; simp)

theorem step_eq_none : step answers ending r = none ↔ r.conn.read = none := by
  unfold step
  split
  · next h => simp [h]
  · next op h =>
    split
    · simp [h]
    · split <;> simp [h]

/-! ## The whole run -/

theorem run_spec (hi : r.Inv) {fuel : Nat} (h : r.weight ≤ fuel) :
    (run answers ending fuel r).conn.read = none ∧
      (run answers ending fuel r).frames = r.frames ++ expected answers r := by
  induction fuel generalizing r with
  | zero =>
    cases hs : step answers ending r with
    | some r' => have := (step_spec hi hs).weight; omega
    | none =>
      have hread := step_eq_none.mp hs
      exact ⟨hread, by rw [expected_of_ended hread, List.append_nil]; rfl⟩
  | succ fuel ih =>
    rw [run]
    cases hs : step answers ending r with
    | none =>
      have hread := step_eq_none.mp hs
      exact ⟨hread, by rw [expected_of_ended hread, List.append_nil]⟩
    | some r' =>
      have hstep := step_spec hi hs
      have := hstep.weight
      obtain ⟨h1, h2⟩ := ih hstep.inv (by omega)
      exact ⟨h1, h2.trans hstep.frames⟩

theorem inv_start (id : UInt32) (chunks : List (List UInt8)) : (start id chunks).Inv where
  running := fun _ => rfl
  header := fun got h => by
    simp only [start, Connection.start, Connection.asyncReadHeader, Option.some.injEq,
      AsyncRead.header.injEq] at h
    omega
  payload := fun owner n got h => by
    simp [start, Connection.start, Connection.asyncReadHeader] at h

/-- **The reader refines the parser.**  Whatever the stream, its division into chunks, the
answers of the pool and the error that ends it, the connection comes to its end, and the
requests it has enqueued are those of the reference parser; their bytes are, one after the
other, the beginning of the stream. -/
theorem frameReader_refines_parse (id : UInt32) (chunks : List (List UInt8))
    (answers : Nat → Option Lent) (ending : ErrorCode) :
    ∃ n, ∀ k, (run answers ending (n + k) (start id chunks)).conn.read = none ∧
      (run answers ending (n + k) (start id chunks)).frames =
        parse id (fun i => (answers i).isSome) 0 chunks.flatten ∧
      (run answers ending (n + k) (start id chunks)).frames.flatMap (·.2.2) <+: chunks.flatten := by
  refine ⟨(start id chunks).weight, fun k => ?_⟩
  have hfuel : (start id chunks).weight ≤ (start id chunks).weight + k := Nat.le_add_right _ k
  obtain ⟨h1, h2⟩ : (run answers ending ((start id chunks).weight + k) (start id chunks)).conn.read = none ∧
      (run answers ending ((start id chunks).weight + k) (start id chunks)).frames =
        (start id chunks).frames ++ expected answers (start id chunks) :=
    run_spec (inv_start id chunks) hfuel
  have hparse : (run answers ending ((start id chunks).weight + k) (start id chunks)).frames =
      parse id (fun i => (answers i).isSome) 0 chunks.flatten := by
    rw [h2]; rfl
  refine ⟨h1, hparse, ?_⟩
  rw [hparse]
  exact parse_prefix _ _ _ _

/-- Two frames in three chunks, the first without a payload, the second cut short. -/
example : (run (fun _ => some (⟨7, 0⟩, fun _ => 255)) (.other 2) 200
    (start 10000 [List.replicate 3 0, List.replicate 30 0 ++ [0, 4, 0, 0], [1, 2]])).frames =
      [(10000, 0, List.replicate 20 0)] := by decide

end FrameReader

end Us2d
