import Us2dServer.ConnectionEnd

/-!
# Packets from receipt to dispatch

Where the bytes of a packet are at each stage, and that nothing else writes there: the header in
`header_read_buffer`, then the block of the read, then the block of the queued request until
its handler returns.  The history of a connection says which bytes the transport has delivered
(`pending`, `frames`); the invariant compares the memory with it.

    Reachable (step cfg) (init mem) s →
      every range written or verified is inside its block, and every waiting request's block
      holds the frame received                                      (packets_intact)
-/

namespace Us2d

open ByteStore TsMemoryPool

namespace Server

variable {cfg : Config} {s s' : Server} {k : Nat} {x : Session} {o : SharedPtr} {bs : List UInt8}
  {n : Nat} {item : Queued}

/-- The block of `o` begins with `bs` and has room for `n` bytes. -/
def Holds (s : Server) (o : SharedPtr) (bs : List UInt8) (n : Nat) : Prop :=
  slice (s.mem o.ptr) 0 bs.length = bs ∧ ∃ t, s.pool.heap[o.ptr]? = some t ∧ n ≤ t.size

/-- Blocks keep their type. -/
def HeapGrows (s s' : Server) : Prop :=
  ∀ (b : Nat) (t : BlockType), s.pool.heap[b]? = some t → s'.pool.heap[b]? = some t

theorem Holds.congr (h : s.Holds o bs n) (hheap : s.HeapGrows s') (hmem : s'.mem o.ptr = s.mem o.ptr) :
    s'.Holds o bs n := by
  obtain ⟨hbs, t, ht, hn⟩ := h
  exact ⟨by rw [hmem]; exact hbs, t, hheap _ t ht, hn⟩

/-- The bytes of a connection's unfinished packet, at the stage its reading has reached. -/
structure SessionData (s : Server) (x : Session) : Prop where
  fresh : ∀ w, x.accept = .created w → x.pending = []
  header : ∀ got, x.conn.read = some (.header got) →
    got ≤ 20 ∧ slice x.conn.headerReadBuffer 0 got = x.pending
  renting : ∀ w size, x.handler = some (.allocating w size) →
    size = x.conn.rentSize ∧ slice x.conn.headerReadBuffer 0 20 = x.pending
  signalling : ∀ w o, x.handler = some (.enqueued w o) → x.pending = []
  payload : ∀ o n got, x.conn.read = some (.payload o n got) → got ≤ n.toNat ∧
    x.pending.length = 20 + got ∧ u16At x.pending 14 = n ∧ s.Holds o x.pending (20 + n.toNat)

/-- A request names its connection and its type, and is one of the frames received there. -/
structure Stamped (s : Server) (item : Queued) : Prop where
  source : item.source < s.created
  sessionId : item.request.sessionId = s.id item.source
  packetId : item.request.packetId = u16At item.frame 2
  received : (s.sessions item.source).frames[item.seq]? = some item.frame
  length : item.frame.length = 20 + (u16At item.frame 14).toNat

/-- The requests in the queue, and the one the main thread holds. -/
def Waiting (s : Server) (item : Queued) : Prop :=
  item ∈ s.requests.inner.contents ∨ s.request = some item

structure Data (s : Server) : Prop where
  session : ∀ k, k < s.created → s.SessionData (s.sessions k)
  stamped : ∀ item, s.Waiting item → s.Stamped item
  block : ∀ item, s.Waiting item → s.Holds item.owner item.frame item.frame.length

/-! ## What a step leaves alone -/

theorem RefsEffect.heap (hi : s.Owned) (h : RefsEffect s s') : s.HeapGrows s' := by
  intro b t hb
  cases h with
  | same hpool => rwa [hpool]
  | rented u sp hpool =>
    rcases hpool with hp | hp
    · rw [(rentPopped_heap hi.pool hp).1]; exact hb
    · rw [show s'.pool = (s.pool.rentFresh u).2 from congrArg Prod.snd hp, rentFresh_heap.1,
        List.getElem?_append_left (List.getElem?_eq_some_iff.mp hb).1]
      exact hb
  | copied sp hsp hpool => rw [hpool, copy_heap]; exact hb
  | dropped sp pushed hpool => rw [hpool, drop_heap]; exact hb

/-- A step of connection `k` writes to no block that anybody else refers to. -/
theorem SessionEffect.mem_eq {a : SessionAction} (hi : s.Owned) (hk : k < s.created)
    (h : SessionEffect s k (s.sessions k) a s') (ho : o ∈ s.refsBut k) :
    s'.mem o.ptr = s.mem o.ptr := by
  have hrefs : o ∈ s.refs := by rw [refs_eq hk]; exact Multiset.mem_add.mpr (Or.inr ho)
  cases h with
  | received op bs hread hfit =>
    cases op with
    | header got => simp [Connection.receive, hread]
    | payload owner n got =>
      have hunf : (s.sessions k).Unfinished owner := Or.inl ⟨n, got, hread⟩
      have hne := (hi.ne_of_sole (hi.sole k owner hk hunf) (pair_le_refs hk hunf.mem ho)).2
      simp [Connection.receive, hread, Memory.write, hne]
  | popped w t owner p hread hpc hclass hpop =>
    have hne := ((hi.rented_new (Or.inl hpop)).2 o hrefs).2
    simp [rented, Memory.write, hne]
  | grown w size t hpc hclass =>
    have hfresh : ((s.pool.rentFresh t).1, (s.pool.rentFresh t).2) = s.pool.rentFresh t := rfl
    have hne := ((hi.rented_new (Or.inr hfresh)).2 o hrefs).2
    simp [rented, Memory.write, hne]
  | _ => rfl

theorem MainEffect.mem_eq {a : MainAction} (h : MainEffect cfg s a s') : s'.mem = s.mem := by
  cases h <;> rfl

theorem Waiting.mem_refsBut (h : s.Waiting item) : item.owner ∈ s.refsBut k := by
  refine mem_refsBut_of_main ?_
  rcases h with h | h
  · exact Multiset.mem_add.mpr (Or.inl (Multiset.mem_map_of_mem Queued.owner h))
  · exact Multiset.mem_add.mpr (Or.inr (mem_mainOwners_of_request h))

/-- The unfinished packet of another connection. -/
theorem SessionData.congr (h : s.SessionData x) (hheap : s.HeapGrows s')
    (hmem : ∀ o ∈ x.owners, s'.mem o.ptr = s.mem o.ptr) : s'.SessionData x where
  fresh := h.fresh
  header := h.header
  renting := h.renting
  signalling := h.signalling
  payload := by
    intro o n got hread
    obtain ⟨hgot, hlen, hsize, hholds⟩ := h.payload o n got hread
    refine ⟨hgot, hlen, hsize, hholds.congr hheap (hmem o ?_)⟩
    exact Session.Unfinished.mem (Or.inl ⟨n, got, hread⟩)

/-- Frames are only added. -/
theorem SessionEffect.frames {a : SessionAction} (h : SessionEffect s k x a s') :
    x.frames <+: (s'.sessions k).frames := by
  cases h <;> simp [setSession, report, rented]

theorem Stamped.session {a : SessionAction} (hi : s.Stamped item)
    (h : SessionEffect s k (s.sessions k) a s') : s'.Stamped item where
  source := h.created.symm ▸ hi.source
  sessionId := by
    rw [hi.sessionId]
    by_cases hj : item.source = k
    · rw [hj, id, id, h.connectionId]
    · rw [id, id, h.other hj]
  packetId := hi.packetId
  received := by
    by_cases hj : item.source = k
    · obtain ⟨hlt, hget⟩ := List.getElem?_eq_some_iff.mp (hj ▸ hi.received)
      obtain ⟨more, hmore⟩ := h.frames
      rw [hj, ← hmore, List.getElem?_append_left hlt, List.getElem?_eq_some_iff]
      exact ⟨hlt, hget⟩
    · rw [h.other hj]; exact hi.received
  length := hi.length

/-! ## The bytes of the connection that takes the step -/

/-- The block just rented gets the header, and the payload goes behind it. -/
theorem Holds.rented {t : BlockType} {sp : SharedPtr} {c : Connection}
    (hheap : s'.pool.heap[sp.ptr]? = some t) (hclass : classOf c.rentSize = some t)
    (hmem : s'.mem sp.ptr = store (s.mem sp.ptr) 0 (slice c.headerReadBuffer 0 20)) :
    s'.Holds sp (slice c.headerReadBuffer 0 20)
      (20 + (PacketHeader.payloadSize c.headerReadBuffer).toNat) := by
  refine ⟨?_, t, hheap, (classOf_eq_some hclass).1⟩
  rw [hmem]
  exact slice_store_self _ 0 _

/-- A connection that waits for the payload, right after `rent`. -/
theorem SessionData.rented {x' : Session} {sp : SharedPtr} {c : Connection}
    (hpc : x'.handler = none) (hacc : ∀ w, x'.accept ≠ .created w)
    (hread : x'.conn.read = some (.payload sp (PacketHeader.payloadSize c.headerReadBuffer) 0))
    (hpending : slice c.headerReadBuffer 0 20 = x'.pending)
    (hholds : s'.Holds sp (slice c.headerReadBuffer 0 20)
      (20 + (PacketHeader.payloadSize c.headerReadBuffer).toNat)) : s'.SessionData x' where
  fresh := fun w hw => absurd hw (hacc w)
  header := fun got hr => by rw [hread] at hr; cases hr
  renting := fun w size hr => by rw [hpc] at hr; cases hr
  signalling := fun w o hr => by rw [hpc] at hr; cases hr
  payload := by
    intro o n got hr
    rw [hread] at hr
    simp only [Option.some.injEq, AsyncRead.payload.injEq] at hr
    obtain ⟨rfl, rfl, rfl⟩ := hr
    rw [← hpending]
    exact ⟨Nat.zero_le _, by simp, PacketHeader.payloadSize_eq_u16At _ (Nat.le_refl 20), hholds⟩

/-- A connection without a read and without a handler on its way to the next. -/
theorem SessionData.idle {x' : Session} (hread : x'.conn.read = none) (hacc : ∀ w, x'.accept ≠ .created w)
    (hpc : ∀ w size, x'.handler ≠ some (.allocating w size))
    (hpc' : ∀ w o, x'.handler = some (.enqueued w o) → x'.pending = []) : s'.SessionData x' where
  fresh := fun w hw => absurd hw (hacc w)
  header := fun got hr => by rw [hread] at hr; cases hr
  renting := fun w size hr => absurd hr (hpc w size)
  signalling := hpc'
  payload := fun o n got hr => by rw [hread] at hr; cases hr

/-- A connection at the start of a packet. -/
theorem SessionData.atHeader {x' : Session} (hread : x'.conn.read = some (.header 0))
    (hacc : ∀ w, x'.accept ≠ .created w) (hpc : ∀ w size, x'.handler ≠ some (.allocating w size))
    (hpc' : ∀ w o, x'.handler ≠ some (.enqueued w o)) (hpending : x'.pending = []) :
    s'.SessionData x' where
  fresh := fun w hw => absurd hw (hacc w)
  header := by
    intro got hr
    rw [hread] at hr
    simp only [Option.some.injEq, AsyncRead.header.injEq] at hr
    subst hr
    exact ⟨Nat.zero_le _, hpending.symm⟩
  renting := fun w size hr => absurd hr (hpc w size)
  signalling := fun w o hr => absurd hr (hpc' w o)
  payload := fun o n got hr => by rw [hread] at hr; cases hr

/-- The transport stores more bytes of the packet. -/
theorem SessionData.received {op : AsyncRead} (hd : s.SessionData x) (hacc : ∀ w, x.accept ≠ .created w)
    (hpc : x.between = 0) (hread : x.conn.read = some op) (hfit : op.got + bs.length ≤ op.length)
    (hmem : s'.mem = (x.conn.receive bs s.mem).2) (hheap : s'.pool.heap = s.pool.heap) :
    s'.SessionData { x with conn := (x.conn.receive bs s.mem).1, pending := x.pending ++ bs } := by
  have hrent : ∀ w size, x.handler ≠ some (.allocating w size) := by
    intro w size hr
    simp [Session.between, hr] at hpc
  have hsignal : ∀ w o, x.handler ≠ some (.enqueued w o) := by
    intro w o hr
    simp [Session.between, hr] at hpc
  cases op with
  | header got =>
    obtain ⟨hgot, hslice⟩ := hd.header got hread
    have hfit : got + bs.length ≤ 20 := hfit
    simp only [Connection.receive, hread]
    refine ⟨fun w hw => absurd hw (hacc w), fun g hr => ?_, fun w size hr => absurd hr (hrent w size),
      fun w o hr => absurd hr (hsignal w o), fun o n g hr => (by cases hr)⟩
    simp only [Option.some.injEq, AsyncRead.header.injEq] at hr
    subst hr
    exact ⟨hfit, by rw [slice_store_append, hslice]⟩
  | payload owner n got =>
    obtain ⟨hgot, hlen, hsize, hblock, t, ht, hcap⟩ := hd.payload owner n got hread
    have hfit : got + bs.length ≤ n.toNat := hfit
    simp only [Connection.receive, hread] at hmem ⊢
    refine ⟨fun w hw => absurd hw (hacc w), fun g hr => (by cases hr),
      fun w size hr => absurd hr (hrent w size), fun w o hr => absurd hr (hsignal w o),
      fun o m g hr => ?_⟩
    simp only [Option.some.injEq, AsyncRead.payload.injEq] at hr
    obtain ⟨rfl, rfl, rfl⟩ := hr
    refine ⟨hfit, by simp only [List.length_append]; omega, ?_, ?_, t, by rw [hheap]; exact ht, hcap⟩
    · rw [u16At_append (by omega)]; exact hsize
    · rw [hmem, Memory.write, Function.update_self, PacketHeader.sizeof_eq, ← hlen,
        List.length_append, slice_store_append, hblock]

theorem SessionEffect.data {a : SessionAction} (hi : s.Owned) (hk : k < s.created)
    (hc : (s.sessions k).Control) (hd : s.SessionData (s.sessions k))
    (h : SessionEffect s k (s.sessions k) a s') : s'.SessionData (s'.sessions k) := by
  have hheap := (h.refs hk hc).heap hi
  cases h with
  | started w hpc =>
    obtain ⟨-, hhandler, -⟩ := hc.fresh w hpc
    simp only [setSession, Function.update_self]
    exact .atHeader rfl (by simp) (by simp [hhandler]) (by simp [hhandler]) (hd.fresh w hpc)
  | inserted w hpc =>
    simp only [setSession, Function.update_self]
    exact ⟨fun v hv => (by cases hv), hd.header, hd.renting, hd.signalling, hd.payload⟩
  | rearmed w hpc =>
    simp only [setSession, Function.update_self]
    exact ⟨fun v hv => (by cases hv), hd.header, hd.renting, hd.signalling, hd.payload⟩
  | received op bs hread hfit =>
    simp only [setSession, Function.update_self]
    exact hd.received (hc.started_of_read hread) (hc.reading hread).2.2.1 hread hfit rfl rfl
  | failed w e op hread hpc hgot =>
    simp only [report, setSession, Function.update_self]
    refine .idle rfl (hc.started_of_read hread) ?_ ?_ <;> cases op <;> simp [AsyncRead.owner]
  | refused w hread hpc hclass =>
    simp only [report, setSession, Function.update_self]
    exact .idle rfl (hc.started_of_read hread) (by simp) (by simp)
  | popped w t owner p hread hpc hclass hpop =>
    have hheap' := (rentPopped_heap hi.pool hpop).2.2
    simp only [rented, setSession, Function.update_self]
    refine .rented (c := (s.sessions k).conn) rfl (hc.started_of_read hread) rfl
      (hd.header 20 hread).2 ?_
    refine .rented (s := s) hheap' hclass ?_
    simp [Memory.write, Connection.completed, PacketHeader.sizeof_eq]
  | emptyStack w t hread hpc hclass =>
    simp only [setSession, Function.update_self]
    refine ⟨fun v hv => absurd hv (hc.started_of_read hread v), fun g hr => (by cases hr),
      fun v size hr => ?_, fun v o hr => (by cases hr), fun o n g hr => (by cases hr)⟩
    simp only [Option.some.injEq, HandlerPc.allocating.injEq] at hr
    obtain ⟨-, rfl⟩ := hr
    exact ⟨rfl, (hd.header 20 hread).2⟩
  | grown w size t hpc hclass =>
    obtain ⟨rfl, hslice⟩ := hd.renting w size hpc
    simp only [rented, setSession, Function.update_self]
    refine .rented (c := (s.sessions k).conn) rfl (hc.started_of_handler hpc) rfl hslice ?_
    refine .rented (s := s) rentFresh_heap.2.2 hclass ?_
    simp [Memory.write, PacketHeader.sizeof_eq]
  | notGrown w size hpc =>
    have hread := (hc.ofBetween hpc (by simp [Session.between, hpc])).1
    simp only [report, setSession, Function.update_self]
    exact .idle hread (hc.started_of_handler hpc) (by simp) (by simp)
  | enqueued w owner n hread hpc item hitem =>
    simp only [setSession, Function.update_self]
    exact .idle rfl (hc.started_of_read hread) (by simp) (by simp)
  | signalled w owner hpc =>
    simp only [setSession, Function.update_self]
    exact .atHeader rfl (hc.started_of_handler hpc) (by simp) (by simp) (hd.signalling w owner hpc)
  | left w owner pushed hpc =>
    simp only [setSession, Function.update_self]
    refine ⟨hd.fresh, hd.header, by simp, by simp, fun o n got hr => ?_⟩
    obtain ⟨hgot, hlen, hsize, hholds⟩ := hd.payload o n got hr
    exact ⟨hgot, hlen, hsize, hholds.congr hheap rfl⟩

/-! ## The waiting requests -/

/-- The request that a payload handler enqueues is the frame received. -/
theorem SessionData.stamped {owner : SharedPtr} {m : UInt16} {w : Nat} (hk : k < s'.created)
    (hd : s.SessionData x) (hread : x.conn.read = some (.payload owner m m.toNat))
    (hitem : item = ⟨⟨x.conn.connectionId, PacketHeader.typeId (s.mem owner.ptr), owner⟩, k,
      x.frames.length, x.pending, w⟩)
    (hid : s'.id k = x.conn.connectionId) (hframes : (s'.sessions k).frames = x.frames ++ [x.pending]) :
    s'.Stamped item ∧ s.Holds item.owner item.frame item.frame.length := by
  obtain ⟨-, hlen, hsize, hblock, t, ht, hcap⟩ := hd.payload owner m _ hread
  subst hitem
  refine ⟨⟨hk, hid.symm, ?_, ?_, by rw [hsize]; exact hlen⟩, hblock, t, ht, ?_⟩
  · rw [← PacketHeader.typeId_eq_u16At (s.mem owner.ptr) (n := x.pending.length) (by omega), hblock]
  · rw [hframes]
    simp
  · show x.pending.length ≤ t.size
    omega

/-- A step of connection `k` enqueues nothing, or the frame it has just received. -/
theorem SessionEffect.log {a : SessionAction} (h : SessionEffect s k x a s') :
    (s'.enqueued = s.enqueued ∧ s'.requests.inner = s.requests.inner ∧
      (s'.sessions k).frames = x.frames) ∨
    ∃ w owner m item, a = .payload w none ∧ x.conn.read = some (.payload owner m m.toNat) ∧
      item = ⟨⟨x.conn.connectionId, PacketHeader.typeId (s.mem owner.ptr), owner⟩, k,
        x.frames.length, x.pending, w⟩ ∧
      s'.enqueued = s.enqueued ++ [item] ∧ s'.requests.inner = s.requests.inner.push w item ∧
      (s'.sessions k).frames = x.frames ++ [x.pending] ∧ s'.mem = s.mem := by
  cases h with
  | enqueued w owner m hread hpc item hitem =>
    exact Or.inr ⟨w, owner, m, item, rfl, hread, hitem, rfl, rfl, by simp [setSession], rfl⟩
  | _ => exact Or.inl ⟨rfl, rfl, by simp [setSession, report, rented]⟩

theorem SessionEffect.waiting {a : SessionAction} (h : SessionEffect s k x a s')
    (hw : s'.Waiting item) : s.Waiting item ∨
      ∃ w owner m, x.conn.read = some (.payload owner m m.toNat) ∧
        item = ⟨⟨x.conn.connectionId, PacketHeader.typeId (s.mem owner.ptr), owner⟩, k,
          x.frames.length, x.pending, w⟩ ∧
        (s'.sessions k).frames = x.frames ++ [x.pending] ∧ s'.mem = s.mem := by
  rcases hw with hw | hw
  · rcases h.log with ⟨-, hq, -⟩ | ⟨w, owner, m, new, -, hread, hnew, -, hq, hframes, hmem⟩
    · exact Or.inl (Or.inl (hq ▸ hw))
    · rw [hq, SubQueues.contents_push, Multiset.mem_cons] at hw
      rcases hw with rfl | hw
      · exact Or.inr ⟨w, owner, m, hread, hnew, hframes, hmem⟩
      · exact Or.inl (Or.inl hw)
  · exact Or.inl (Or.inr (h.others.1 ▸ hw))

theorem MainEffect.waiting {a : MainAction} (h : MainEffect cfg s a s') (hw : s'.Waiting item) :
    s.Waiting item := by
  cases h with
  | popped sizeApprox n ptr new q hpc hpop =>
    have hcontents := SubQueues.contents_removeHead hpop
    refine Or.inl ?_
    rw [hcontents]
    rcases hw with hw | hw
    · exact Multiset.mem_cons_of_mem hw
    · exact (Option.some.inj hw) ▸ Multiset.mem_cons_self _ _
  | returned pushed hpc =>
    rcases hw with hw | hw
    · exact Or.inl hw
    · cases hw
  | _ => exact hw

theorem Data.session_effect {a : SessionAction} (hd : s.Data) (hi : s.Owned) (hc : s.Control)
    (hk : k < s.created) (h : SessionEffect s k (s.sessions k) a s') : s'.Data := by
  have hheap := (h.refs hk (hc.session k hk)).heap hi
  refine ⟨fun j hj => ?_, fun item hw => ?_, fun item hw => ?_⟩
  · by_cases hjk : j = k
    · exact hjk ▸ h.data hi hk (hc.session k hk) (hd.session k hk)
    · rw [h.other hjk]
      have hj' : j < s.created := h.created ▸ hj
      exact (hd.session j hj').congr hheap fun o ho => h.mem_eq hi hk (mem_refsBut_of_owner hj' hjk ho)
  · rcases h.waiting hw with hw | ⟨w, owner, m, hread, hitem, hframes, -⟩
    · exact (hd.stamped item hw).session h
    · exact ((hd.session k hk).stamped (h.created.symm ▸ hk) hread hitem h.connectionId hframes).1
  · rcases h.waiting hw with hw | ⟨w, owner, m, hread, hitem, hframes, hmem⟩
    · exact (hd.block item hw).congr hheap (h.mem_eq hi hk hw.mem_refsBut)
    · have := ((hd.session k hk).stamped (h.created.symm ▸ hk) hread hitem h.connectionId hframes).2
      exact this.congr hheap (by rw [hmem])

theorem Data.getInstance (hd : s.Data) (hi : s.Owned) : (s.getInstance cfg).Data := by
  by_cases hbuilt : Singleton.tsMemoryPool ∈ s.constructed
  · simpa [Server.getInstance, hbuilt] using hd
  · -- before the construction of the pool nothing lies in a block
    have hnone : ∀ {o bs n}, ¬ s.Holds o bs n := by
      rintro o bs n ⟨-, t, ht, -⟩
      rw [(hi.unbuilt hbuilt).1] at ht
      cases ht
    have hwaiting : ∀ item, (s.getInstance cfg).Waiting item → s.Waiting item := by
      intro item hw
      simpa [Server.getInstance, hbuilt, Waiting] using hw
    refine ⟨fun j hj => ?_, fun item hw => absurd (hd.block item (hwaiting item hw)) hnone,
      fun item hw => absurd (hd.block item (hwaiting item hw)) hnone⟩
    have hx := hd.session j (by simpa using hj)
    rw [getInstance_sessions]
    exact ⟨hx.fresh, hx.header, hx.renting, hx.signalling,
      fun o n got hr => absurd (hx.payload o n got hr).2.2.2 hnone⟩

theorem Data.step {a : Action} (hd : s.Data) (hi : s.Owned) (hc : s.Control) (h : Effect cfg s a s') :
    s'.Data := by
  cases h with
  | accept w error s' hready hout h =>
    cases h with
    | created hrun =>
      have hold : ∀ j, j ≠ s.created → Function.update s.sessions s.created
          (Session.new s.tcp.connectionIdCounter w) j = s.sessions j :=
        fun j hj => Function.update_of_ne hj _ _
      refine ⟨fun j hj => ?_, fun item hw => ?_, hd.block⟩
      · by_cases hjc : j = s.created
        · subst hjc
          simp only [setSession, Function.update_self]
          exact ⟨fun _ _ => rfl, fun g hr => (by cases hr), fun v size hr => (by cases hr),
            fun v o hr => (by cases hr), fun o n g hr => (by cases hr)⟩
        · simp only [setSession, hold j hjc]
          have hx := hd.session j (by simp only at hj; omega)
          exact ⟨hx.fresh, hx.header, hx.renting, hx.signalling, hx.payload⟩
      · obtain ⟨hsource, hid, hpacket, hrec, hlen⟩ := hd.stamped item hw
        have hne : item.source ≠ s.created := by omega
        refine ⟨Nat.lt_succ_of_lt hsource, ?_, hpacket, ?_, hlen⟩
        · simp only [id, setSession, hold _ hne]; exact hid
        · simp only [setSession, hold _ hne]; exact hrec
    | _ =>
      refine ⟨fun j hj => ?_, fun item hw => ?_, hd.block⟩
      · have hx := hd.session j hj
        exact ⟨hx.fresh, hx.header, hx.renting, hx.signalling, hx.payload⟩
      · obtain ⟨hsource, hid, hpacket, hrec, hlen⟩ := hd.stamped item hw
        exact ⟨hsource, hid, hpacket, hrec, hlen⟩
  | session k b s' hk ha h => exact hd.session_effect hi hc hk h
  | header k w s' hk h => exact (hd.getInstance hi).session_effect hi.getInstance hc.getInstance hk h
  | main b s' h =>
    have hheap := h.refs.heap hi
    refine ⟨fun j hj => ?_, fun item hw => ?_, fun item hw => ?_⟩
    · rw [h.sessions]
      exact (hd.session j (h.created ▸ hj)).congr hheap fun o _ => by rw [h.mem_eq]
    · obtain ⟨hsource, hid, hpacket, hrec, hlen⟩ := hd.stamped item (h.waiting hw)
      refine ⟨h.created.symm ▸ hsource, ?_, hpacket, ?_, hlen⟩
      · rw [id, h.sessions]; exact hid
      · rw [h.sessions]; exact hrec
    · exact (hd.block item (h.waiting hw)).congr hheap (by rw [h.mem_eq])

theorem data_init (mem : Memory) : (init mem).Data where
  session := fun k hk => absurd hk (Nat.not_lt_zero k)
  stamped := fun item hw => by rcases hw with hw | hw <;> cases hw
  block := fun item hw => by rcases hw with hw | hw <;> cases hw

theorem data_of_reachable {mem : Memory} (h : Transition.Reachable (step cfg) (init mem) s) :
    s.Data :=
  (reachable_induction (I := fun s => s.Owned ∧ s.Data) h ⟨owned_init mem, data_init mem⟩
    fun _ _ _ hc hi h => ⟨hi.1.step hc h, hi.2.step hi.1 hc h⟩).2

/-- What the dispatcher finds in the block of a waiting request. -/
theorem Data.packetBytes_eq (hd : s.Data) (hw : s.Waiting item) :
    packetBytes s.mem item.request = item.frame ∧
      PacketHeader.payloadSize (s.mem item.owner.ptr) = u16At item.frame 14 ∧
      PacketHeader.typeId (s.mem item.owner.ptr) = item.request.packetId := by
  have hst := hd.stamped item hw
  have hblock := (hd.block item hw).1
  have hlen := hst.length
  have hsize : PacketHeader.payloadSize (s.mem item.owner.ptr) = u16At item.frame 14 := by
    rw [← PacketHeader.payloadSize_eq_u16At _ (n := item.frame.length) (by omega), hblock]
  refine ⟨?_, hsize, ?_⟩
  · unfold packetBytes
    rw [show item.request.packetOwner = item.owner from rfl, hsize, PacketHeader.sizeof_eq, ← hlen, hblock]
  · rw [hst.packetId, ← PacketHeader.typeId_eq_u16At _ (n := item.frame.length) (by omega), hblock]

/-- **A packet's bytes stay in bounds and unchanged.**  The range that a payload read may fill
lies in its block, which begins with the header and what has come of the payload; and from its
`enqueue` until its handler has returned a request's block holds exactly the frame received on
its connection, which is what the verifier's range and `packet_id` are taken from. -/
theorem packets_intact (cfg : Config) (mem : Memory) (s : Server)
    (h : Transition.Reachable (step cfg) (init mem) s) :
    (∀ k owner n got, (s.sessions k).conn.read = some (.payload owner n got) →
      (∃ t, s.pool.heap[owner.ptr]? = some t ∧ sizeofPacketHeader + n.toNat ≤ t.size) ∧
      slice (s.mem owner.ptr) 0 (sizeofPacketHeader + got) = (s.sessions k).pending) ∧
    (∀ item, s.Waiting item →
      (∃ t, s.pool.heap[(verifier s.mem item.request).block]? = some t ∧
        (verifier s.mem item.request).offset + (verifier s.mem item.request).size ≤ t.size) ∧
      packetBytes s.mem item.request = item.frame ∧
      sizeofPacketHeader + (PacketHeader.payloadSize (s.mem item.owner.ptr)).toNat = item.frame.length ∧
      item.request.packetId = PacketHeader.typeId (s.mem item.owner.ptr) ∧
      item.request.sessionId = s.id item.source ∧
      (s.sessions item.source).frames[item.seq]? = some item.frame) := by
  have hc := control_of_reachable h
  have hd := data_of_reachable h
  refine ⟨fun k owner n got hread => ?_, fun item hw => ?_⟩
  · have hk : k < s.created := hc.lt_of_ne fun hu => by
      rw [hu] at hread
      cases hread
    obtain ⟨hgot, hlen, hsize, hblock, t, ht, hcap⟩ := (hd.session k hk).payload owner n got hread
    exact ⟨⟨t, ht, hcap⟩, by rw [PacketHeader.sizeof_eq, ← hlen]; exact hblock⟩
  · obtain ⟨hbytes, hsize, htype⟩ := hd.packetBytes_eq hw
    have hst := hd.stamped item hw
    obtain ⟨-, t, ht, hcap⟩ := hd.block item hw
    have hlen : sizeofPacketHeader + (PacketHeader.payloadSize (s.mem item.owner.ptr)).toNat =
        item.frame.length := by rw [hsize, PacketHeader.sizeof_eq]; exact hst.length.symm
    exact ⟨⟨t, ht, hlen.trans_le hcap⟩, hbytes, hlen, htype.symm, hst.sessionId, hst.received⟩

/-- A client connects, and worker 0 makes the connection `k`. -/
def connects (k : Nat) : List Action :=
  [.accept 0 none, .session k .start, .session k .insert, .session k .rearm]

/-- A packet arrives on connection `k`, and worker `w` runs its handlers. -/
def arrives (k w : Nat) (header payload : List UInt8) : List Action :=
  [.session k (.receive header), .session k (.header w none), .session k (.receive payload),
    .session k (.payload w none), .session k .rearmRead, .session k (.leave true)]

/-- The header of a packet of type 0 with one byte of payload. -/
def oneByteHeader : List UInt8 := List.replicate 14 0 ++ [1, 0, 0, 0, 0, 0]

/-- A packet arrives, and its request waits in the queue. -/
theorem packets_intact_one_byte : ∃ s item, Transition.run (step twoWorkers) (init fun _ _ => 255)
    (connects 0 ++ arrives 0 1 oneByteHeader [7]) = some s ∧
    s.Waiting item ∧ packetBytes s.mem item.request = oneByteHeader ++ [7] := by
  have hrun : (Transition.run (step twoWorkers) (init fun _ _ => 255)
      (connects 0 ++ arrives 0 1 oneByteHeader [7])).map (fun s => s.requests.inner.items 1) =
      some [⟨⟨10000, 0, ⟨127, 0⟩⟩, 0, 0, oneByteHeader ++ [7], 1⟩] := by
    decide +kernel
  obtain ⟨s, hs, hitems⟩ := Option.map_eq_some_iff.mp hrun
  have hw : s.Waiting ⟨⟨10000, 0, ⟨127, 0⟩⟩, 0, 0, oneByteHeader ++ [7], 1⟩ :=
    Or.inl (SubQueues.mem_contents.mpr ⟨1, by rw [hitems]; exact List.mem_cons_self⟩)
  exact ⟨s, _, hs, hw, ((packets_intact twoWorkers _ s ⟨_, hs⟩).2 _ hw).2.1⟩

end Server

end Us2d
