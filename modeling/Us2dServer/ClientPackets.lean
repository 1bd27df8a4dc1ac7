import Us2dServer.FrameReader
import Us2dServer.Lib.PrefixCode
import Us2dServer.ProtocolCodec
import Us2dServer.RequestFlow

/-!
# From a client's message to its handler

A client puts a `packet_header` before the payload that it has built.  The frames of such packets
are a prefix code, so whatever pieces the transport delivers, the frames that a connection cuts
are the packets sent; and what a typed handler is called with decodes to the message.

    the bytes delivered to connection k begin a stream of packets  →
      a dispatched frame of k is the packet of its number, and its handler, if it is the one
      for the message, is called and decodes the message              (messages_decoded)
-/

namespace Us2d

open ByteStore

/-! ## The header -/

namespace PacketHeader

open FlatBuffers

/-- The arguments of the constructor of `packet_header`. -/
structure Values where
  flowType : UInt8
  typeId : UInt16
  connectionId : UInt32
  timestamp : UInt32
  sequence : UInt16
  payloadSize : UInt16
  checksum : UInt16
deriving DecidableEq, Repr

/-- What a field is initialized with. -/
def Values.field (h : Values) : Field → Nat
  | .flowType => h.flowType.toNat
  | .typeId => h.typeId.toNat
  | .connectionId => h.connectionId.toNat
  | .timestamp => h.timestamp.toNat
  | .sequence => h.sequence.toNat
  | .payloadSize => h.payloadSize.toNat
  | .checksum => h.checksum.toNat
  | .padding0 | .padding1 => 0

/-- The struct in memory. -/
def Values.bytes (h : Values) : List UInt8 := layout.flatMap fun f => littleEndianBytes f.size (h.field f)

/-- An accessor. -/
def Field.read (f : Field) (bs : List UInt8) : Nat := littleEndian ((bs.drop f.offset).take f.size)

/-- What the accessors give. -/
def Values.read (bs : List UInt8) : Values where
  flowType := UInt8.ofNat (Field.flowType.read bs)
  typeId := UInt16.ofNat (Field.typeId.read bs)
  connectionId := UInt32.ofNat (Field.connectionId.read bs)
  timestamp := UInt32.ofNat (Field.timestamp.read bs)
  sequence := UInt16.ofNat (Field.sequence.read bs)
  payloadSize := UInt16.ofNat (Field.payloadSize.read bs)
  checksum := UInt16.ofNat (Field.checksum.read bs)

variable (h : Values) (rest : List UInt8)

@[simp] theorem Values.length_bytes : h.bytes.length = 20 := by
  simp [bytes, layout, Field.size]

theorem Values.field_lt (f : Field) : h.field f < 256 ^ f.size := by
  cases f with
  | padding0 => exact (by decide : 0 < 256 ^ 1)
  | padding1 => exact (by decide : 0 < 256 ^ 2)
  | flowType => exact h.flowType.toNat_lt
  | typeId => exact h.typeId.toNat_lt
  | connectionId => exact h.connectionId.toNat_lt
  | timestamp => exact h.timestamp.toNat_lt
  | sequence => exact h.sequence.toNat_lt
  | payloadSize => exact h.payloadSize.toNat_lt
  | checksum => exact h.checksum.toNat_lt

/-- A field is where the layout says. -/
theorem Field.read_bytes (f : Field) : f.read (h.bytes ++ rest) = h.field f := by
  have hbytes : ((h.bytes ++ rest).drop f.offset).take f.size = littleEndianBytes f.size (h.field f) := by
    cases f <;> rfl
  rw [Field.read, hbytes, littleEndian_bytes, Nat.mod_eq_of_lt (h.field_lt f)]

theorem Values.read_bytes : Values.read (h.bytes ++ rest) = h := by
  simp only [Values.read, Field.read_bytes, Values.field, UInt8.ofNat_toNat, UInt16.ofNat_toNat,
    UInt32.ofNat_toNat]

/-- The fields that the server looks at. -/
theorem Values.u16At_bytes :
    u16At (h.bytes ++ rest) 2 = h.typeId ∧ u16At (h.bytes ++ rest) 14 = h.payloadSize := by
  have htype : u16At (h.bytes ++ rest) 2 = UInt16.ofNat (Field.typeId.read (h.bytes ++ rest)) := rfl
  have hsize : u16At (h.bytes ++ rest) 14 = UInt16.ofNat (Field.payloadSize.read (h.bytes ++ rest)) := rfl
  rw [htype, hsize, Field.read_bytes, Field.read_bytes]
  exact ⟨UInt16.ofNat_toNat, UInt16.ofNat_toNat⟩

end PacketHeader

/-! ## Packets -/

open Protocol

/-- What a client sends for a message: a header that says how long the payload is, and the payload. -/
structure Packet where
  header : PacketHeader.Values
  message : Message
  payload : List UInt8
  encoded : message.encode = some payload
  payloadSize : header.payloadSize.toNat = payload.length

namespace Packet

def bytes (p : Packet) : List UInt8 := p.header.bytes ++ p.payload

theorem drop_bytes (p : Packet) : p.bytes.drop 20 = p.payload := by
  rw [bytes, ← p.header.length_bytes, List.drop_left]

end Packet

/-- An `ATTACK` on object 1 with damage 5. -/
def attackPacket : Packet where
  header := ⟨1, 20004, 0, 0, 0, 32, 0⟩
  message := .attack 1 5
  payload := [16, 0, 0, 0, 0, 0, 0, 0, 8, 0, 16, 0, 8, 0, 4, 0, 8, 0, 0, 0, 5, 0, 0, 0, 1, 0, 0, 0, 0, 0, 0, 0]
  encoded := by decide +kernel
  payloadSize := rfl

/-- A header with as many bytes behind it as it says. -/
def IsFrame (frame : List UInt8) : Prop := frame.length = 20 + (u16At frame 14).toNat

theorem isFrame_packet (p : Packet) : IsFrame p.bytes := by
  unfold IsFrame Packet.bytes
  rw [(p.header.u16At_bytes p.payload).2, p.payloadSize, List.length_append, PacketHeader.Values.length_bytes]

/-- The header is in the first 20 bytes, so the length of a frame is known from them. -/
theorem prefixCode_isFrame : PrefixCode IsFrame := by
  refine ⟨fun w hw hnil => ?_, fun w w' hw hw' hpre => ?_⟩
  · subst hnil
    simp [IsFrame] at hw
    omega
  · unfold IsFrame at hw hw'
    obtain ⟨more, rfl⟩ := hpre
    rw [u16At_append (by omega), List.length_append] at hw'
    have hmore : more = [] := List.length_eq_zero_iff.mp (by omega)
    rw [hmore, List.append_nil]

/-! ## One connection -/

/-- **A stream of packets is parsed into the packets**, as long as the pool grants their blocks. -/
theorem parse_packets (id : UInt32) (granted : Nat → Bool) (i : Nat) (packets : List Packet)
    (rest : List UInt8) (hsize : ∀ p ∈ packets, p.bytes.length ≤ 4096)
    (hgranted : ∀ j, i ≤ j → j < i + packets.length → granted j = true) :
    parse id granted i ((packets.map Packet.bytes).flatten ++ rest) =
      (packets.map fun p => (id, p.header.typeId, p.bytes)) ++
        parse id granted (i + packets.length) rest := by
  induction packets generalizing i with
  | nil => rfl
  | cons p packets ih =>
    have hp := hsize p List.mem_cons_self
    rw [Packet.bytes, List.length_append, PacketHeader.Values.length_bytes] at hp
    have hlength : p.payload.length = (u16At p.header.bytes 14).toNat := by
      have := (p.header.u16At_bytes []).2
      rw [List.append_nil] at this
      rw [this, p.payloadSize]
    have htype : u16At p.header.bytes 2 = p.header.typeId := by
      have := (p.header.u16At_bytes []).1
      rwa [List.append_nil] at this
    rw [List.map_cons, List.flatten_cons, List.append_assoc, Packet.bytes,
      FrameReader.parse_frame p.header.length_bytes hlength hp (hgranted i (Nat.le_refl i) (by simp)), htype,
      ih (i + 1) (fun q hq => hsize q (List.mem_cons_of_mem _ hq))
        (fun j hij hj => hgranted j (by omega) (by rw [List.length_cons]; omega)), List.length_cons,
      List.map_cons, Nat.add_right_comm, Nat.add_assoc]
    rfl

namespace FrameReader

/-- **All packets of a client become requests**, however the transport divides them and even if it
breaks off in a header, as long as the pool grants their blocks. -/
theorem reads_packets (id : UInt32) (packets : List Packet) (broken : List UInt8)
    (chunks : List (List UInt8)) (answers : Nat → Option Lent) (ending : ErrorCode)
    (hsize : ∀ p ∈ packets, p.bytes.length ≤ 4096) (hbroken : broken.length < 20)
    (hchunks : chunks.flatten = (packets.map Packet.bytes).flatten ++ broken)
    (hgranted : ∀ i, i < packets.length → (answers i).isSome = true) :
    ∃ n, ∀ k, (run answers ending (n + k) (start id chunks)).conn.read = none ∧
      (run answers ending (n + k) (start id chunks)).frames =
        packets.map fun p => (id, p.header.typeId, p.bytes) := by
  refine ⟨(start id chunks).weight, fun k => ?_⟩
  obtain ⟨hread, hframes⟩ : (run answers ending ((start id chunks).weight + k) (start id chunks)).conn.read =
      none ∧ (run answers ending ((start id chunks).weight + k) (start id chunks)).frames =
        (start id chunks).frames ++ expected answers (start id chunks) :=
    run_spec (inv_start id chunks) (Nat.le_add_right (start id chunks).weight k)
  refine ⟨hread, hframes.trans ?_⟩
  have hparse : expected answers (start id chunks) =
      parse id (fun i => (answers i).isSome) 0 chunks.flatten := rfl
  rw [hparse, hchunks, parse_packets id _ 0 packets broken hsize
    (fun j _ hj => hgranted j (by omega)), parse_short hbroken, List.append_nil]
  rfl

/-- An attack arrives in three chunks, and then the connection is reset. -/
theorem reads_packets_attack : ∃ n, ∀ k,
    (run (fun _ => some (⟨7, 0⟩, fun _ => 255)) .connectionAborted (n + k) (start 10000
      [attackPacket.bytes.take 3, attackPacket.bytes.drop 3, [1, 0]])).frames =
        [(10000, 20004, attackPacket.bytes)] := by
  obtain ⟨n, hn⟩ := reads_packets 10000 [attackPacket] [1, 0]
    [attackPacket.bytes.take 3, attackPacket.bytes.drop 3, [1, 0]] (fun _ => some (⟨7, 0⟩, fun _ => 255))
    .connectionAborted (by decide +kernel) (by decide) (by decide +kernel) (fun _ _ => rfl)
  exact ⟨n, fun k => (hn k).2⟩

end FrameReader

/-! ## The server -/

namespace Server

open Transition

variable {cfg : Config} {s s' : Server} {k : Nat}

/-- The bytes that an action delivers to connection `k`. -/
def deliveredBy (k : Nat) : Action → List UInt8
  | .session j (.receive bs) => if j = k then bs else []
  | _ => []

/-- The bytes that the actions of a run deliver to connection `k`. -/
def delivered (k : Nat) (as : List Action) : List UInt8 := as.flatMap (deliveredBy k)

/-- What connection `k` has received: its frames and what has come of the next one. -/
def stream (s : Server) (k : Nat) : List UInt8 := (s.sessions k).frames.flatten ++ (s.sessions k).pending

theorem SessionEffect.stream {a : SessionAction} {j : Nat} (h : SessionEffect s j (s.sessions j) a s') :
    s'.stream k = s.stream k ++ deliveredBy k (.session j a) := by
  by_cases hj : k = j
  · subst hj
    cases h with
    | received op bs hread hfit => simp [Server.stream, setSession, deliveredBy]
    | enqueued w owner n hread hpc item hitem => simp [Server.stream, setSession, deliveredBy]
    | failed w e op hread hpc hgot =>
      cases op <;> simp [Server.stream, setSession, report, deliveredBy, AsyncRead.completion]
    | _ => simp [Server.stream, setSession, report, rented, deliveredBy]
  · have hnone : deliveredBy k (.session j a) = [] := by
      cases a with
      | receive bs => exact if_neg (Ne.symm hj)
      | _ => rfl
    rw [Server.stream, Server.stream, h.other hj, hnone, List.append_nil]

theorem Effect.stream {a : Action} (hc : s.Control) (h : Effect cfg s a s') :
    s'.stream k = s.stream k ++ deliveredBy k a := by
  cases h with
  | accept w error s' hready hout h =>
    show s'.stream k = s.stream k ++ []
    rw [List.append_nil]
    cases h with
    | created hrun =>
      by_cases hk : k = s.created
      · subst hk
        simp [Server.stream, setSession, hc.unused s.created (Nat.le_refl _), Session.new, Session.unused]
      · simp [Server.stream, setSession, Function.update_of_ne hk]
    | aborted | failed | notRunning => rfl
  | session j b s' hj ha h => exact h.stream
  | header j w s' hj h =>
    have hsame : (s.getInstance cfg).stream k = s.stream k := by
      unfold Server.stream
      rw [getInstance_sessions]
    rw [← hsame]
    exact h.stream
  | main b s' h =>
    rw [Server.stream, Server.stream, h.sessions]
    exact (List.append_nil _).symm

/-- A run keeps all bytes that it delivers. -/
theorem stream_of_run {as : List Action} (hc : s.Control) (h : run (step cfg) s as = some s') :
    s'.stream k = s.stream k ++ delivered k as := by
  induction as generalizing s with
  | nil =>
    obtain rfl := Option.some.inj h
    exact (List.append_nil _).symm
  | cons a as ih =>
    obtain ⟨s₁, hs, hrest⟩ := run_cons.mp h
    have heff := step_effect hc hs
    rw [ih (hc.step heff) hrest, heff.stream hc, List.append_assoc]
    rfl

/-- Every frame received is one by its header. -/
def Framed (s : Server) : Prop := ∀ k, ∀ f ∈ (s.sessions k).frames, IsFrame f

theorem Framed.session_effect {a : SessionAction} {j : Nat} (hf : s.Framed) (hd : s.Data)
    (hj : j < s.created) (h : SessionEffect s j (s.sessions j) a s') : s'.Framed := by
  intro k f hmem
  by_cases hk : k = j
  · subst hk
    rcases h.log with ⟨-, -, hframes⟩ | ⟨w, owner, m, item, -, hread, -, -, -, hframes, -⟩
    · exact hf k f (hframes ▸ hmem)
    · rw [hframes, List.mem_append, List.mem_singleton] at hmem
      rcases hmem with hmem | rfl
      · exact hf k f hmem
      · obtain ⟨-, hlength, hsize, -⟩ := (hd.session k hj).payload owner m _ hread
        rw [IsFrame, hsize, hlength]
  · rw [h.other hk] at hmem
    exact hf k f hmem

theorem Framed.step {a : Action} (hf : s.Framed) (hi : s.Owned) (hd : s.Data) (h : Effect cfg s a s') :
    s'.Framed := by
  cases h with
  | accept w error s' hready hout h =>
    cases h with
    | created hrun =>
      intro k f hmem
      by_cases hk : k = s.created
      · subst hk
        simp [setSession, Session.new, Session.unused] at hmem
      · simp only [setSession, Function.update_of_ne hk] at hmem
        exact hf k f hmem
    | aborted | failed | notRunning => exact hf
  | session j b s' hj ha h => exact hf.session_effect hd hj h
  | header j w s' hj h =>
    have hf' : (s.getInstance cfg).Framed := by
      unfold Framed
      rw [getInstance_sessions]
      exact hf
    exact hf'.session_effect (hd.getInstance hi) hj h
  | main b s' h =>
    unfold Framed
    rw [h.sessions]
    exact hf

theorem framed_of_reachable {mem : Memory} (h : Reachable (step cfg) (init mem) s) : s.Framed := by
  have hinit : (init mem).Framed := fun k f hmem => absurd hmem List.not_mem_nil
  exact (reachable_induction (I := fun s => s.Owned ∧ s.Data ∧ s.Framed) h
    ⟨owned_init mem, data_init mem, hinit⟩ fun _ _ _ hc hi h =>
      ⟨hi.1.step hc h, hi.2.1.step hi.1 hc h, hi.2.2.step hi.1 hi.2.1 h⟩).2.2

/-- A dispatched request is among those enqueued, so its frame is the one of its number. -/
theorem dispatched_getElem {mem : Memory} (h : Reachable (step cfg) (init mem) s) {d : Dispatched}
    (hd : d ∈ s.dispatched) : (s.sessions d.item.source).frames[d.item.seq]? = some d.bytes := by
  have hs := sequenced_of_reachable h
  have hpre := (inOrder_ofWorker h d.item.source d.item.worker).dispatched
  have hmem : d.item ∈ s.enqueued.filter (ofWorker d.item.source d.item.worker) := by
    refine hpre.subset (List.mem_map_of_mem (List.mem_filter.mpr ⟨hd, ?_⟩))
    simp [ofWorker]
  rw [hs.getElem_frames (List.mem_filter.mp hmem).1, ((logged_of_reachable h).dispatched d hd).1]

/-- What a handler gets of a packet: it is called, and its accessors give the message. -/
theorem handlerOf_packet {handlers : Handlers} {f : Nat} (p : Packet)
    (hhandler : handlers p.header.typeId = some (p.message.type.typedHandler f)) :
    handlerOf handlers p.bytes = some f ∧
      decode p.message.type (p.bytes.drop sizeofPacketHeader) = p.message.received := by
  obtain ⟨buf, hencode, -, -, hread⟩ := p.message.encode_spec
  obtain rfl : p.payload = buf := Option.some.inj (p.encoded.symm.trans hencode)
  have hsmall : p.payload.length < 2 ^ 31 := by
    rw [← p.payloadSize]
    exact Nat.lt_of_lt_of_le p.header.payloadSize.toNat_lt (by decide)
  obtain ⟨haccept, hdecode⟩ := hread hsmall
  have htype : u16At p.bytes 2 = p.header.typeId := (p.header.u16At_bytes p.payload).1
  rw [PacketHeader.sizeof_eq, p.drop_bytes]
  refine ⟨?_, hdecode⟩
  rw [handlerOf, htype, hhandler, p.drop_bytes]
  simp only [Option.filter_some, haccept f, if_true, Option.map_some]
  rfl

/-- **A handler decodes what the client has encoded.**  If what a run delivers to a connection is
the beginning of a stream of packets, then every request of the connection that is dispatched is
the packet of its number, and the handler for its message is called and reads the message. -/
theorem messages_decoded (cfg : Config) (mem : Memory) (as : List Action) (s : Server)
    (h : run (step cfg) (init mem) as = some s) (k : Nat) (packets : List Packet)
    (hstream : delivered k as <+: (packets.map Packet.bytes).flatten) :
    (s.sessions k).frames <+: packets.map Packet.bytes ∧
    ∀ d ∈ s.dispatched, d.item.source = k → ∃ p, packets[d.item.seq]? = some p ∧ d.bytes = p.bytes ∧
      ∀ f, cfg.handlers p.header.typeId = some (p.message.type.typedHandler f) →
        d.called = some f ∧ decode p.message.type (d.bytes.drop sizeofPacketHeader) = p.message.received := by
  have hreach : Reachable (step cfg) (init mem) s := ⟨as, h⟩
  have hall : s.stream k = delivered k as := by
    rw [stream_of_run (control_init mem) h]
    rfl
  have hfirst : (s.sessions k).frames <+: packets.map Packet.bytes := by
    refine prefixCode_isFrame.prefix_of_flatten (framed_of_reachable hreach k) (fun f hf => ?_)
      (s.sessions k).pending (by rw [← Server.stream, hall]; exact hstream)
    obtain ⟨p, -, rfl⟩ := List.mem_map.mp hf
    exact isFrame_packet p
  refine ⟨hfirst, fun d hd hsource => ?_⟩
  have hframe : (packets.map Packet.bytes)[d.item.seq]? = some d.bytes := by
    obtain ⟨more, hmore⟩ := hfirst
    have hget := hsource ▸ dispatched_getElem hreach hd
    rw [← hmore, List.getElem?_append_left (List.getElem?_eq_some_iff.mp hget).1]
    exact hget
  rw [List.getElem?_map] at hframe
  obtain ⟨p, hp, hbytes⟩ := Option.map_eq_some_iff.mp hframe
  refine ⟨p, hp, hbytes.symm, fun f hhandler => ?_⟩
  obtain ⟨hcalled, hdecode⟩ := handlerOf_packet p hhandler
  rw [((logged_of_reachable hreach).dispatched d hd).2.2, ← hbytes]
  exact ⟨hcalled, hdecode⟩

def attackServer : Config :=
  ⟨2, PacketPayload.attack.registerTypedHandler 20004 1 fun _ => none, fun _ => true⟩

/-- It arrives and is dispatched. -/
theorem messages_decoded_attack : ∃ s d, run (step attackServer) (init fun _ _ => 255)
    (connects 0 ++ arrives 0 1 attackPacket.header.bytes attackPacket.payload ++ dispatches 1) = some s ∧
    d ∈ s.dispatched ∧ d.called = some 1 ∧
    decode .attack (d.bytes.drop sizeofPacketHeader) = .attack 1 5 := by
  have hrun : (run (step attackServer) (init fun _ _ => 255)
      (connects 0 ++ arrives 0 1 attackPacket.header.bytes attackPacket.payload ++ dispatches 1)).map
        (fun s => s.dispatched.map fun d => (d.item.source, d.item.seq)) = some [(0, 0)] := by
    decide +kernel
  obtain ⟨s, hs, hdispatched⟩ := Option.map_eq_some_iff.mp hrun
  obtain ⟨d, hd, hitem⟩ : ∃ d ∈ s.dispatched, (d.item.source, d.item.seq) = (0, 0) :=
    List.mem_map.mp (hdispatched ▸ List.mem_singleton_self _)
  obtain ⟨hsource, hseq⟩ := Prod.mk.inj hitem
  obtain ⟨p, hp, -, hcalled⟩ := (messages_decoded attackServer _ _ s hs 0 [attackPacket]
    (List.prefix_refl _)).2 d hd hsource
  rw [hseq] at hp
  obtain rfl : attackPacket = p := Option.some.inj hp
  exact ⟨s, d, hs, hd, hcalled 1 rfl⟩

/-! ## What a handler reads -/

/-- **A typed handler reads nothing but the payload of its own frame**, and so stays in the block. -/
theorem handler_reads_frame {mem : Memory} {type : PacketPayload} {handlers : Handlers} {f : Nat}
    (h : Transition.Reachable (step cfg) (init mem) s)
    (hw : s.Waiting item) (hcall : dispatch (type.registerTypedHandler item.request.packetId f handlers)
      s.mem item.request = some f) :
    payload s.mem item.request = item.frame.drop sizeofPacketHeader ∧
      ∀ r ∈ type.reads (item.frame.drop sizeofPacketHeader),
        sizeofPacketHeader + r.offset + r.size ≤ item.frame.length ∧
        ∃ t, s.pool.heap[item.owner.ptr]? = some t ∧ sizeofPacketHeader + r.offset + r.size ≤ t.size := by
  have hd := data_of_reachable h
  have hframe : payload s.mem item.request = item.frame.drop sizeofPacketHeader :=
    verifier_bytes (hd.packetBytes_eq hw).1
  refine ⟨hframe, fun r hr => ?_⟩
  have hinside := (fits_of_dispatch hcall r (hframe ▸ hr)).inside
  rw [hframe, List.length_drop] at hinside
  have hlength := (hd.stamped item hw).length
  obtain ⟨-, t, ht, hcap⟩ := hd.block item hw
  have hle : sizeofPacketHeader + r.offset + r.size ≤ item.frame.length := by
    rw [PacketHeader.sizeof_eq] at hinside ⊢
    omega
  exact ⟨hle, t, ht, hle.trans hcap⟩

/-- The packet arrives and waits; each read of its handler is in the frame. -/
theorem handler_reads_frame_attack : ∃ s item, run (step attackServer) (init fun _ _ => 255)
    (connects 0 ++ arrives 0 1 attackPacket.header.bytes attackPacket.payload) = some s ∧
    s.Waiting item ∧ payload s.mem item.request = attackPacket.payload ∧
    (PacketPayload.attack.reads attackPacket.payload).length = 9 ∧
    ∀ r ∈ PacketPayload.attack.reads attackPacket.payload, sizeofPacketHeader + r.offset + r.size ≤ 52 := by
  have hrun : (run (step attackServer) (init fun _ _ => 255)
      (connects 0 ++ arrives 0 1 attackPacket.header.bytes attackPacket.payload)).map
        (fun s => (s.requests.inner.items 1, dispatch attackServer.handlers s.mem ⟨10000, 20004, ⟨127, 0⟩⟩)) =
      some ([⟨⟨10000, 20004, ⟨127, 0⟩⟩, 0, 0, attackPacket.bytes, 1⟩], some 1) := by
    decide +kernel
  obtain ⟨s, hs, hitems⟩ := Option.map_eq_some_iff.mp hrun
  simp only [Prod.mk.injEq] at hitems
  have hw : s.Waiting ⟨⟨10000, 20004, ⟨127, 0⟩⟩, 0, 0, attackPacket.bytes, 1⟩ :=
    .inl (SubQueues.mem_contents.mpr ⟨1, by rw [hitems.1]; exact List.mem_cons_self⟩)
  obtain ⟨hpayload, hreads⟩ := handler_reads_frame ⟨_, hs⟩ hw hitems.2
  rw [PacketHeader.sizeof_eq, attackPacket.drop_bytes] at hpayload hreads
  exact ⟨s, _, hs, hw, hpayload, by decide +kernel, fun r hr => (hreads r hr).1⟩

end Server

end Us2d
