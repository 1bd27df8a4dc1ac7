import Us2dServer.ConcurrentQueueCustody
import Us2dServer.Lib.SubQueues

/-!
# The law of the concurrent queue

Whatever the threads do, as long as fewer than `2 ^ 62` accesses have been made (the look-up and the
insertion in the block index and the calls of the pool count as one access each, as in the model):

    what is observed of the queue is observed of a FIFO sub-queue for each producer
                                                                  (queue_linearizable)
    every access that is due is defined                           (queue_access_defined)
    every block is in exactly one place                           (queue_block_custody)
    with no call open, no block is leaked                         (queue_no_leak)

`enqueue` takes effect when it stores `tailIndex`, `dequeue` when it adds to `headIndex`.
-/

namespace Us2d

open Transition AtomicObject

namespace QueueThreads

variable {α : Type} {s s' : QueueThreads α} {gh gh' : Nat → QueueGhost α} {n t p b : Nat}
  {c : QueuePc α}

/-! ## The accesses -/

/-- The thread reads, decides or returns; the producers and their blocks stay as they are. -/
theorem Inv.stays (hi : s.Inv gh n) (hpc : s'.pc = Function.update s.pc t c)
    (hproducers : s'.queue.producers = s.queue.producers) (hblocks : s'.queue.blocks = s.queue.blocks)
    (hcustody : s'.Custody)
    (hview : ∀ p, c.ticketView p = (s.pc t).ticketView p ∨
      (c.ticketView p).Ok (gh p).fates ∧ (c.ticketView p).ticket = none)
    (hbuilding : (s.pc t).building = true → c.building = true)
    (hbuilding' : c.building = true →
      (s.pc t).building = true ∨ (s.queue.producers t).tailIndex.toNat % 32 ≠ 0)
    (hok : ∀ p, c.target t = some p → c.Ok (s.queue.producers p) s.queue.blocks (gh p))
    (hholding : ∀ i p, c.target t = some p → c.holding = some i →
      (s.pc t).target t = some p ∧ (s.pc t).holding = some i)
    (hclearing : c.clearing = none)
    (hheld : ∀ i p, (s.pc t).target t = some p → (s.pc t).holding = some i →
      c.target t = some p ∧ c.holding = some i)
    (hcleared : (s.pc t).clearing = none) : s'.Inv gh (n + 1) := by
  constructor
  · intro p
    rw [hpc, hproducers, hblocks]
    refine (hi.producer p).goes (fun _ _ _ => rfl) (fun _ _ _ _ => rfl) (hview p) ?_ ?_ (hok p)
      (fun i hp h => hholding i p hp h) (fun key _ => by rw [hclearing]; simp)
      (fun i hp h => hheld i p hp h) hcleared
    · rintro rfl
      exact hbuilding
    · rintro rfl
      exact hbuilding'
  · exact hcustody
  · intro p
    have := hi.small p
    omega

/-- The thread changes its producer and blocks that no one else refers to. -/
theorem Inv.local {P : ImplicitProducer} {g : QueueGhost α} (hi : s.Inv gh n)
    (htarget : (s.pc t).target t = some p) (htarget' : ∀ p', p' ≠ p → c.target t ≠ some p')
    (hpc : s'.pc = Function.update s.pc t c)
    (hproducers : s'.queue.producers = Function.update s.queue.producers p P)
    (hnew : ProducerInv p P s'.queue.blocks (Function.update s.pc t c) g)
    (hentry : ∀ p' key b, p' ≠ p → (s.queue.producers p').blockIndex key = some b →
      s'.queue.blocks b = s.queue.blocks b)
    (hhand : ∀ u b, u ≠ t → (s.pc u).inHand = some b → s'.queue.blocks b = s.queue.blocks b)
    (hcustody : s'.Custody) (hsmall : g.hist.length ≤ n + 1 ∧ g.fates.length ≤ n + 1) :
    s'.Inv (Function.update gh p g) (n + 1) := by
  constructor
  · intro p'
    rw [hpc, hproducers]
    by_cases hp : p' = p
    · subst hp
      rw [Function.update_self, Function.update_self]
      exact hnew
    · rw [Function.update_of_ne hp, Function.update_of_ne hp]
      refine (hi.producer p').frame ?_ (htarget' p' hp) (fun key b h => hentry p' key b hp h) hhand
      rw [htarget]
      simpa using Ne.symm hp
  · exact hcustody
  · intro p'
    by_cases hp : p' = p
    · subst hp
      rw [Function.update_self]
      exact hsmall
    · rw [Function.update_of_ne hp]
      have := hi.small p'
      omega

/-- `Inv.local` for a block that stands in the index of the producer. -/
theorem Inv.localBlock {g : QueueGhost α} {B : Block α} {key : Index} (hi : s.Inv gh n)
    (htarget : (s.pc t).target t = some p) (htarget' : ∀ p', p' ≠ p → c.target t ≠ some p')
    (hkey : (s.queue.producers p).blockIndex key = some b) (hhand : c.inHand = (s.pc t).inHand)
    (hnew : ProducerInv p (s.queue.producers p) (Function.update s.queue.blocks b B)
      (Function.update s.pc t c) g)
    (hsmall : g.hist.length ≤ n + 1 ∧ g.fates.length ≤ n + 1) :
    Inv ⟨s.queue.setBlock b B, Function.update s.pc t c⟩ (Function.update gh p g) (n + 1) := by
  have hcustody : Custody ⟨s.queue.setBlock b B, Function.update s.pc t c⟩ :=
    hi.custody.same rfl hhand rfl rfl rfl fun _ => rfl
  refine hi.local htarget htarget' rfl (by rw [Function.update_eq_self]; rfl) hnew ?_ ?_ hcustody hsmall
  · intro p' key' b' hp h
    refine Function.update_of_ne ?_ _ _
    rintro rfl
    cases hi.custody.unique (.entry p' key') (.entry p key) b' h hkey
    exact hp rfl
  · intro u b' _ h
    refine Function.update_of_ne ?_ _ _
    rintro rfl
    cases hi.custody.unique (.hand u) (.entry p key) b' h hkey


/-! ## The queue as an object -/

/-- What the elements that wait, by producer, are to the calls: `enqueue` appends to the thread's own
sub-queue or, without a block, does nothing; `dequeue` removes the head of a sub-queue or misses. -/
def allows (thread : Nat) : QueueOp α → SubQueues α → QueueRes α → SubQueues α → Prop
  | .enqueue x, q, .enqueued true, q' => q' = q.push thread x
  | .enqueue _, q, .enqueued false, q' => q' = q
  | .dequeue p, q, .dequeued (some x), q' => q.removeHead p = some (x, q')
  | .dequeue _, q, .dequeued none, q' => q' = q
  | _, _, _, _ => False

variable {R : Nat → QueueOp α → SubQueues α → QueueRes α → SubQueues α → Prop}

/-- The rule `R`, on the items alone. -/
def Serves (R : Nat → QueueOp α → SubQueues α → QueueRes α → SubQueues α → Prop) (thread : Nat)
    (op : QueueOp α) (x : Nat → List α) (r : QueueRes α) (x' : Nat → List α) : Prop :=
  ∀ q : SubQueues α, q.items = x → ∃ q', R thread op q r q' ∧ q'.items = x'

theorem serves_push (x : Nat → List α) (a : α) :
    Serves allows t (.enqueue a) x (.enqueued true) (Function.update x t (x t ++ [a])) := by
  rintro q rfl
  exact ⟨q.push t a, rfl, rfl⟩

theorem serves_full (x : Nat → List α) (a : α) : Serves allows t (.enqueue a) x (.enqueued false) x := by
  rintro q rfl
  exact ⟨q, rfl, rfl⟩

theorem serves_miss (x : Nat → List α) : Serves allows t (.dequeue p) x (.dequeued none) x := by
  rintro q rfl
  exact ⟨q, rfl, rfl⟩

theorem serves_pop {x : Nat → List α} {a : α} {rest : List α} (h : x p = a :: rest) :
    Serves allows t (.dequeue p) x (.dequeued (some a)) (Function.update x p rest) := by
  rintro q rfl
  obtain ⟨⟨a', q'⟩, hq⟩ := Option.isSome_iff_exists.mp (SubQueues.removeHead_isSome (q := q) (t := p)
    (by rw [h]; exact List.cons_ne_nil _ _))
  obtain ⟨rest', hrest, hitems, -⟩ := SubQueues.removeHead_eq_some hq
  rw [h] at hrest
  cases hrest
  exact ⟨q', hq, hitems⟩

/-- The call that a thread is in. -/
def callOf (gh : Nat → QueueGhost α) : QueuePc α → Call (QueueOp α) (QueueRes α)
  | .idle => .idle
  | .loadTail x => .pending (.enqueue x)
  | .loadHead x _ => .pending (.enqueue x)
  | .insertEntry x _ => .pending (.enqueue x)
  | .requisition x _ => .pending (.enqueue x)
  | .resetEmpty x _ _ => .pending (.enqueue x)
  | .storeEntry x _ _ => .pending (.enqueue x)
  | .construct x _ => .pending (.enqueue x)
  | .storeTail x _ => .pending (.enqueue x)
  | .readTail p => .pending (.dequeue p)
  | .readOvercommit p _ => .pending (.dequeue p)
  | .readOptimistic p _ _ => .pending (.dequeue p)
  | .addOptimistic p _ => .pending (.dequeue p)
  | .rereadTail p _ _ => .pending (.dequeue p)
  | .addHead p _ => .pending (.dequeue p)
  | .addOvercommit p _ => .pending (.dequeue p)
  -- the index has been taken: the element at it is the result
  | .loadEntry p i => .done (.dequeued (gh p).hist[i.toNat]?)
  | .moveElement p i _ => .done (.dequeued (gh p).hist[i.toNat]?)
  | .setEmpty _ _ _ x => .done (.dequeued (some x))
  | .clearEntry _ _ _ x => .done (.dequeued (some x))
  | .giveBlock _ x => .done (.dequeued (some x))

/-- The elements that wait at a producer. -/
def waiting (s : QueueThreads α) (gh : Nat → QueueGhost α) (p : Nat) : List α :=
  (gh p).hist.drop (s.queue.producers p).headIndex.toNat

/-- What an access is to the object. -/
inductive Linear (R : Nat → QueueOp α → SubQueues α → QueueRes α → SubQueues α → Prop) (thread : Nat)
    (x x' : Nat → List α) (k : Call (QueueOp α) (QueueRes α)) :
    Call (QueueOp α) (QueueRes α) ⊕ QueueRes α → Prop
  | silent {k'} (hk : k' = k) (hx : x' = x) : Linear R thread x x' k (.inl k')
  | effect {op r} (hk : k = .pending op) (hs : Serves R thread op x r x') :
    Linear R thread x x' k (.inl (.done r))
  | answer {op r} (hk : k = .pending op) (hs : Serves R thread op x r x') : Linear R thread x x' k (.inr r)
  | ret {r} (hk : k = .done r) (hx : x' = x) : Linear R thread x x' k (.inr r)

/-- Where a thread is after an access. -/
def after : QueuePc α ⊕ QueueRes α → QueuePc α
  | .inl c => c
  | .inr _ => .idle

theorem goto_fst (q : ConcurrentQueue α) (r : QueuePc α ⊕ QueueRes α) :
    (s.goto t q r).1 = ⟨q, Function.update s.pc t (after r)⟩ := by
  cases r <;> rfl

/-- What an access keeps, and what it is to the object. -/
structure Advances (s : QueueThreads α) (gh : Nat → QueueGhost α) (n t : Nat) (q : ConcurrentQueue α)
    (r : QueuePc α ⊕ QueueRes α) (gh' : Nat → QueueGhost α) : Prop where
  inv : Inv ⟨q, Function.update s.pc t (after r)⟩ gh' (n + 1)
  linear : Linear allows t (s.waiting gh) (waiting ⟨q, s.pc⟩ gh') (callOf gh (s.pc t)) (r.map (callOf gh') id)
  others : ∀ u, u ≠ t → callOf gh' (s.pc u) = callOf gh (s.pc u)

theorem callOf_congr (h : ∀ p, (gh' p).hist = (gh p).hist) (c : QueuePc α) : callOf gh' c = callOf gh c := by
  cases c <;> simp only [callOf, h]

theorem waiting_congr {q : ConcurrentQueue α} (h : ∀ p, (gh' p).hist = (gh p).hist)
    (hhead : ∀ p, (q.producers p).headIndex = (s.queue.producers p).headIndex) :
    waiting ⟨q, s.pc⟩ gh' = s.waiting gh := by
  funext p
  simp only [waiting, h, hhead]

theorem hist_update {g : QueueGhost α} (h : g.hist = (gh p).hist) (p' : Nat) :
    (Function.update gh p g p').hist = (gh p').hist :=
  (Function.forall_update_iff gh fun p' g' => g'.hist = (gh p').hist).mpr ⟨h, fun _ _ => rfl⟩ p'

/-- An access that takes no element and appends none. -/
theorem Advances.quiet {q : ConcurrentQueue α} {r : QueuePc α ⊕ QueueRes α}
    (hinv : Inv ⟨q, Function.update s.pc t (after r)⟩ gh' (n + 1))
    (hhist : ∀ p, (gh' p).hist = (gh p).hist)
    (hhead : ∀ p, (q.producers p).headIndex = (s.queue.producers p).headIndex)
    (hlinear : Linear allows t (s.waiting gh) (s.waiting gh) (callOf gh (s.pc t)) (r.map (callOf gh) id)) :
    s.Advances gh n t q r gh' where
  inv := hinv
  linear := by
    have hcall : callOf gh' = callOf gh := funext (callOf_congr hhist)
    rw [waiting_congr hhist hhead, hcall]
    exact hlinear
  others := fun u _ => callOf_congr hhist _

/-! ### `enqueue` -/

theorem Inv.loadTail {x : α} (hi : s.Inv gh n) (hp : s.pc t = .loadTail x) :
    s.Advances gh n t s.queue (.inl (if blockOffset (s.queue.producers t).tailIndex = 0
      then .loadHead x (s.queue.producers t).tailIndex
      else .construct x (s.queue.producers t).tailIndex)) gh := by
  by_cases hzero : blockOffset (s.queue.producers t).tailIndex = 0
  · rw [if_pos hzero]
    refine .quiet (hi.stays rfl rfl rfl (hi.custody.same rfl (by rw [hp]; rfl) rfl rfl rfl fun _ => rfl)
      (fun p => by rw [hp]; exact .inl rfl) (by rw [hp]; intro h; cases h) (by intro h; cases h)
      (fun p h => ?_) (fun i p _ h => by cases h) rfl (fun i p _ h => by rw [hp] at h; cases h)
      (by rw [hp]; rfl)) (fun _ => rfl) (fun _ => rfl) (.silent (by rw [hp]; rfl) rfl)
    cases h
    exact ⟨rfl, blockOffset_eq_zero.mp hzero⟩
  · rw [if_neg hzero]
    refine .quiet (hi.stays rfl rfl rfl (hi.custody.same rfl (by rw [hp]; rfl) rfl rfl rfl fun _ => rfl)
      (fun p => by rw [hp]; exact .inl rfl) (by rw [hp]; intro h; cases h) (fun _ => .inr ?_)
      (fun p h => ?_) (fun i p _ h => by cases h) rfl (fun i p _ h => by rw [hp] at h; cases h)
      (by rw [hp]; rfl)) (fun _ => rfl) (fun _ => rfl) (.silent (by rw [hp]; rfl) rfl)
    · exact fun h => hzero (blockOffset_eq_zero.mpr h)
    · cases h
      rfl

/-- A thread at the start of a block goes on without a change. -/
theorem Inv.starts {x : α} {cur : Index} (hi : s.Inv gh n) (hcall : callOf gh (s.pc t) = .pending (.enqueue x))
    (hview : ∀ p, (s.pc t).ticketView p = .out) (hbuilding : (s.pc t).building = false)
    (hhand : (s.pc t).inHand = none) (hquiet : (s.pc t).holding = none ∧ (s.pc t).clearing = none)
    (hok : cur = (s.queue.producers t).tailIndex ∧ cur.toNat % 32 = 0) (r : QueuePc α ⊕ QueueRes α)
    (hr : r = .inl (.insertEntry x cur) ∨ r = .inl (.requisition x cur) ∨ r = .inr (.enqueued false)) :
    s.Advances gh n t s.queue r gh := by
  have hplain : (∀ p, (after r).ticketView p = .out) ∧ (after r).building = false ∧
      (after r).inHand = none ∧ (after r).holding = none ∧ (after r).clearing = none := by
    rcases hr with rfl | rfl | rfl <;> exact ⟨fun _ => rfl, rfl, rfl, rfl, rfl⟩
  obtain ⟨hview', hbuilding', hhand', hholding', hclearing'⟩ := hplain
  refine .quiet (hi.stays rfl rfl rfl
    (hi.custody.same rfl (by rw [hhand, hhand']) rfl rfl rfl fun _ => rfl)
    (fun p => .inl (by rw [hview, hview'])) (by rw [hbuilding]; intro h; cases h)
    (by rw [hbuilding']; intro h; cases h) (fun p h => ?_)
    (fun i p _ h => by rw [hholding'] at h; cases h) hclearing'
    (fun i p _ h => by rw [hquiet.1] at h; cases h) hquiet.2) (fun _ => rfl) (fun _ => rfl) ?_
  · rcases hr with rfl | rfl | rfl
    · cases h
      exact hok
    · cases h
      exact hok
    · cases h
  · rcases hr with rfl | rfl | rfl
    · exact .silent hcall.symm rfl
    · exact .silent hcall.symm rfl
    · exact .answer hcall (serves_full _ x)

theorem Inv.resetEmpty {x : α} {cur : Index} (hi : s.Inv gh n) (hp : s.pc t = .resetEmpty x cur b) :
    s.Advances gh n t
      (s.queue.setBlock b { s.queue.blocks b with elementsCompletelyDequeued := 0 })
      (.inl (.storeEntry x cur b)) (Function.update gh t (gh t)) := by
  have htarget : (s.pc t).target t = some t := by rw [hp]; rfl
  have hhand : s.Holds (.hand t) b := by
    show (s.pc t).inHand = some b
    rw [hp]
    rfl
  have hok := (hi.producer t).threads t htarget
  rw [hp] at hok
  -- the block is in the hand of the thread and nowhere else
  have hentry : ∀ p' key b', (s.queue.producers p').blockIndex key = some b' →
      Function.update s.queue.blocks b { s.queue.blocks b with elementsCompletelyDequeued := 0 } b' =
        s.queue.blocks b' := by
    intro p' key b' h
    refine Function.update_of_ne ?_ _ _
    rintro rfl
    cases hi.custody.unique (.entry p' key) (.hand t) b' h hhand
  have hhands : ∀ u b', u ≠ t → (s.pc u).inHand = some b' →
      Function.update s.queue.blocks b { s.queue.blocks b with elementsCompletelyDequeued := 0 } b' =
        s.queue.blocks b' := by
    intro u b' hu h
    refine Function.update_of_ne ?_ _ _
    rintro rfl
    cases hi.custody.unique (.hand u) (.hand t) b' h hhand
    exact hu rfl
  have hcustody : Custody ⟨s.queue.setBlock b { s.queue.blocks b with elementsCompletelyDequeued := 0 },
      Function.update s.pc t (.storeEntry x cur b)⟩ :=
    hi.custody.same rfl (by rw [hp]; rfl) rfl rfl rfl fun _ => rfl
  have hsmall := hi.small t
  have hnew : ProducerInv t (s.queue.producers t)
      (Function.update s.queue.blocks b { s.queue.blocks b with elementsCompletelyDequeued := 0 })
      (Function.update s.pc t (.storeEntry x cur b)) (gh t) := by
    refine (hi.producer t).goes (hentry t) hhands (.inl (by rw [hp]; rfl))
      (fun _ h => by rw [hp] at h; cases h) (fun _ h => by cases h) (fun _ => ⟨hok, ?_⟩)
      (fun i _ h => by cases h) (fun key _ h => by cases h) (fun i _ h => by rw [hp] at h; cases h)
      (by rw [hp]; rfl)
    rw [Function.update_self]
  refine .quiet (hi.local htarget (fun p' hp' h => ?_) rfl (by rw [Function.update_eq_self]; rfl) hnew
    (fun p' key b' _ h => hentry p' key b' h) hhands hcustody (by omega)) (hist_update rfl) (fun _ => rfl)
    (.silent (by rw [hp]; rfl) rfl)
  cases h
  exact hp' rfl

theorem Inv.storeEntry {x : α} {cur : Index} {P : ImplicitProducer} (hi : s.Inv gh n)
    (hp : s.pc t = .storeEntry x cur b)
    (hP : P = { s.queue.producers t with
      blockIndex := Function.update (s.queue.producers t).blockIndex cur (some b), tailBlock := some b }) :
    s.Advances gh n t (s.queue.setProducer t P) (.inl (.construct x cur)) (Function.update gh t (gh t)) := by
  have htarget : (s.pc t).target t = some t := by rw [hp]; rfl
  have hok := (hi.producer t).threads t htarget
  rw [hp] at hok
  have hkey := (hi.producer t).index_tail_none (by rw [hp]; rfl) hok.1.1
  have hcustody := hi.custody.publish (c := .construct x cur) (P := P) (by rw [hp]; rfl) rfl hkey
    (by rw [hP])
  have hsmall := hi.small t
  refine .quiet (hi.local htarget (fun p' hp' h => ?_) rfl rfl
    (by rw [hP]; exact (hi.producer t).storeEntry hp) (fun _ _ _ _ _ => rfl) (fun _ _ _ _ => rfl) hcustody
    (by omega)) (hist_update rfl) (field_setProducer ImplicitProducer.headIndex (by rw [hP])) (.silent (by rw [hp]; rfl) rfl)
  cases h
  exact hp' rfl

theorem Inv.construct {x : α} {cur : Index} (hi : s.Inv gh n) (hp : s.pc t = .construct x cur)
    (hb : (s.queue.producers t).tailBlock = some b) :
    s.Advances gh n t (s.queue.setBlock b ((s.queue.blocks b).set cur (some x)))
      (.inl (.storeTail x cur)) (Function.update gh t (gh t)) := by
  have htarget : (s.pc t).target t = some t := by rw [hp]; rfl
  obtain ⟨b', hb', hkey⟩ := (hi.producer t).tailBlock (.inr (by rw [hp]; rfl))
  rw [hb] at hb'
  cases hb'
  have hsmall := hi.small t
  refine .quiet (hi.localBlock htarget (fun p' hp' h => ?_) hkey (by rw [hp]; rfl)
    ((hi.producer t).construct (hi.custody.apart t) hp hb) (by omega)) (hist_update rfl) (fun _ => rfl)
    (.silent (by rw [hp]; rfl) rfl)
  cases h
  exact hp' rfl

/-- **The element is enqueued.** -/
theorem Inv.storeTail {x : α} {cur : Index} (hi : s.Inv gh n) (hn : n < 2 ^ 62)
    (hp : s.pc t = .storeTail x cur) :
    s.Advances gh n t (s.queue.setProducer t { s.queue.producers t with tailIndex := 1 + cur })
      (.inr (.enqueued true)) (Function.update gh t { gh t with hist := (gh t).hist ++ [x] }) := by
  have htarget : (s.pc t).target t = some t := by rw [hp]; rfl
  have hsmall := hi.small t
  have hhead := (hi.producer t).head_le
  have hcustody : Custody ⟨s.queue.setProducer t { s.queue.producers t with tailIndex := 1 + cur },
      Function.update s.pc t (.idle : QueuePc α)⟩ := by
    exact hi.custody.same rfl (by rw [hp]; rfl) rfl rfl rfl (field_setProducer ImplicitProducer.blockIndex rfl)
  constructor
  · refine hi.local htarget (fun p' _ h => by cases h) rfl rfl
      ((hi.producer t).storeTail hp (by omega)) (fun _ _ _ _ _ => rfl) (fun _ _ _ _ => rfl) hcustody ?_
    show ((gh t).hist ++ [x]).length ≤ n + 1 ∧ (gh t).fates.length ≤ n + 1
    rw [List.length_append, List.length_singleton]
    omega
  · refine .answer (by rw [hp]; rfl) ?_
    have hwaiting : waiting ⟨s.queue.setProducer t { s.queue.producers t with tailIndex := 1 + cur }, s.pc⟩
        (Function.update gh t { gh t with hist := (gh t).hist ++ [x] }) =
        Function.update (s.waiting gh) t (s.waiting gh t ++ [x]) := by
      funext p'
      simp only [waiting, field_setProducer ImplicitProducer.headIndex (q := s.queue) (p := t)
        (P := { s.queue.producers t with tailIndex := 1 + cur }) rfl p']
      by_cases hp' : p' = t
      · subst hp'
        rw [Function.update_self, Function.update_self, List.drop_append_of_le_length hhead]
      · rw [Function.update_of_ne hp', Function.update_of_ne hp']
        rfl
    rw [hwaiting]
    exact serves_push _ x
  · intro u _
    -- an index that has been taken is not the new one
    have hget : ∀ p' i, (s.pc u).target u = some p' → (s.pc u).holding = some i →
        (Function.update gh t { gh t with hist := (gh t).hist ++ [x] } p').hist[i.toNat]? =
          (gh p').hist[i.toNat]? := by
      intro p' i hu hh
      by_cases hp' : p' = t
      · subst hp'
        rw [Function.update_self]
        have hlt := (hi.producer p').holding_lt hu hh
        exact List.getElem?_append_left (by omega)
      · rw [Function.update_of_ne hp']
    cases hc : s.pc u <;> simp only [callOf]
    · rw [hget _ _ (by rw [hc]; rfl) (by rw [hc]; rfl)]
    · rw [hget _ _ (by rw [hc]; rfl) (by rw [hc]; rfl)]


/-! ### `dequeue` -/

/-- A consumer without a ticket looks at a counter. -/
theorem Inv.looks {r : QueuePc α ⊕ QueueRes α} (hi : s.Inv gh n)
    (hcall : callOf gh (s.pc t) = .pending (.dequeue p)) (hbuilding : (s.pc t).building = false)
    (hhand : (s.pc t).inHand = none) (hquiet : (s.pc t).holding = none ∧ (s.pc t).clearing = none)
    (hview : ∀ p', (after r).ticketView p' = (s.pc t).ticketView p' ∨
      ((after r).ticketView p').Ok (gh p').fates ∧ ((after r).ticketView p').ticket = none)
    (hr : (∃ tail, r = .inl (.readOvercommit p tail)) ∨
      (∃ tail overcommit, r = .inl (.readOptimistic p tail overcommit)) ∨
      (∃ overcommit, r = .inl (.addOptimistic p overcommit)) ∨ r = .inr (.dequeued none)) :
    s.Advances gh n t s.queue r gh := by
  have hplain : (after r).building = false ∧ (after r).inHand = none ∧ (after r).holding = none ∧
      (after r).clearing = none ∧ ∀ p', (after r).Ok (s.queue.producers p') s.queue.blocks (gh p') := by
    rcases hr with ⟨_, rfl⟩ | ⟨_, _, rfl⟩ | ⟨_, rfl⟩ | rfl <;>
      exact ⟨rfl, rfl, rfl, rfl, fun _ => trivial⟩
  obtain ⟨hbuilding', hhand', hholding', hclearing', hok'⟩ := hplain
  refine .quiet (hi.stays rfl rfl rfl
    (hi.custody.same rfl (by rw [hhand, hhand']) rfl rfl rfl fun _ => rfl) hview
    (by rw [hbuilding]; intro h; cases h) (by rw [hbuilding']; intro h; cases h) (fun p' _ => hok' p')
    (fun i p' _ h => by rw [hholding'] at h; cases h) hclearing'
    (fun i p' _ h => by rw [hquiet.1] at h; cases h) hquiet.2) (fun _ => rfl) (fun _ => rfl) ?_
  rcases hr with ⟨_, rfl⟩ | ⟨_, _, rfl⟩ | ⟨_, rfl⟩ | rfl
  · exact .silent hcall.symm rfl
  · exact .silent hcall.symm rfl
  · exact .silent hcall.symm rfl
  · exact .answer hcall (serves_miss _)

theorem Inv.readOvercommit {tail : Index} (hi : s.Inv gh n) (hp : s.pc t = .readOvercommit p tail) :
    s.Advances gh n t s.queue (.inl (.readOptimistic p tail (s.queue.producers p).dequeueOvercommit)) gh := by
  refine hi.looks (by rw [hp]; rfl) (by rw [hp]; rfl) (by rw [hp]; rfl) (by rw [hp]; exact ⟨rfl, rfl⟩)
    (fun p' => ?_) (.inr (.inl ⟨_, _, rfl⟩))
  by_cases hpp : p = p'
  · subst hpp
    refine .inr ⟨?_, by simp [after, QueuePc.ticketView, Tickets.View.ticket]⟩
    simp only [after, QueuePc.ticketView, if_true]
    exact Nat.le_of_eq (hi.producer p).overcommit
  · refine .inl ?_
    rw [hp]
    simp [after, QueuePc.ticketView, hpp]

theorem Inv.readOptimistic {tail overcommit : Index} {r : QueuePc α ⊕ QueueRes α} (hi : s.Inv gh n)
    (hp : s.pc t = .readOptimistic p tail overcommit)
    (hr : r = .inl (.addOptimistic p overcommit) ∨ r = .inr (.dequeued none)) :
    s.Advances gh n t s.queue r gh := by
  refine hi.looks (by rw [hp]; rfl) (by rw [hp]; rfl) (by rw [hp]; rfl) (by rw [hp]; exact ⟨rfl, rfl⟩)
    (fun p' => ?_) (.inr (.inr (hr.imp_left fun h => ⟨_, h⟩)))
  rcases hr with rfl | rfl
  · exact .inl (by rw [hp]; rfl)
  · exact .inr ⟨trivial, rfl⟩

/-- A step of a consumer that changes the counters of the producer alone. -/
theorem Inv.counts {P : ImplicitProducer} {fates' : List Tickets.Fate} (hi : s.Inv gh n)
    (hnew : ProducerInv p P s.queue.blocks (Function.update s.pc t c) { gh p with fates := fates' })
    (hindex : P.blockIndex = (s.queue.producers p).blockIndex) (htarget : (s.pc t).target t = some p)
    (htarget' : ∀ p', p' ≠ p → c.target t ≠ some p') (hhand : c.inHand = (s.pc t).inHand)
    (hsmall : fates'.length ≤ n + 1) :
    Inv ⟨s.queue.setProducer p P, Function.update s.pc t c⟩
      (Function.update gh p { gh p with fates := fates' }) (n + 1) := by
  have hcustody : Custody ⟨s.queue.setProducer p P, Function.update s.pc t c⟩ := by
    exact hi.custody.same rfl hhand rfl rfl rfl (field_setProducer ImplicitProducer.blockIndex hindex)
  exact hi.local htarget htarget' rfl rfl hnew (fun _ _ _ _ _ => rfl) (fun _ _ _ _ => rfl) hcustody
    ⟨Nat.le_succ_of_le (hi.small p).1, hsmall⟩

theorem Inv.addOptimistic {overcommit : Index} (hi : s.Inv gh n) (hn : n < 2 ^ 62)
    (hp : s.pc t = .addOptimistic p overcommit) :
    s.Advances gh n t (s.queue.setProducer p { s.queue.producers p with
        dequeueOptimisticCount := (s.queue.producers p).dequeueOptimisticCount + 1 })
      (.inl (.rereadTail p overcommit (s.queue.producers p).dequeueOptimisticCount))
      (Function.update gh p { gh p with fates := (gh p).fates ++ [.pending] }) := by
  have hsmall := hi.small p
  refine .quiet (hi.counts ((hi.producer p).addOptimistic hp (by omega)) rfl (by rw [hp]; rfl)
    (fun p' hp' h => ?_) (by rw [hp]; rfl) ?_) (hist_update rfl) (field_setProducer ImplicitProducer.headIndex rfl)
    (.silent (by rw [hp]; rfl) rfl)
  · cases h
    exact hp' rfl
  · rw [List.length_append, List.length_singleton]
    omega

theorem setProducer_self (q : ConcurrentQueue α) (p : Nat) : q.setProducer p (q.producers p) = q := by
  rw [ConcurrentQueue.setProducer, Function.update_eq_self]

theorem Inv.rereadTail {overcommit my : Index} (hi : s.Inv gh n) (hn : n < 2 ^ 62)
    (hp : s.pc t = .rereadTail p overcommit my) :
    ∃ gh', s.Advances gh n t s.queue (.inl (if circularLessThan (my - overcommit) (s.queue.producers p).tailIndex
      then .addHead p my else .addOvercommit p my)) gh' := by
  have hsmall := hi.small p
  obtain ⟨fates', hnew, hlen⟩ := (hi.producer p).rereadTail hp (by omega) (by omega)
  have hinv := hi.counts hnew rfl (by rw [hp]; rfl) (fun p' hp' h => ?_) (by rw [hp]; split <;> rfl)
    (by omega)
  · rw [setProducer_self] at hinv
    refine ⟨_, .quiet hinv (hist_update rfl) (fun _ => rfl) (.silent ?_ rfl)⟩
    rw [hp]
    split <;> rfl
  · split at h <;> cases h <;> exact hp' rfl

/-- **The element is taken.** -/
theorem Inv.addHead {my : Index} (hi : s.Inv gh n) (hn : n < 2 ^ 62) (hp : s.pc t = .addHead p my) :
    ∃ gh', s.Advances gh n t (s.queue.setProducer p { s.queue.producers p with
        headIndex := (s.queue.producers p).headIndex + 1 })
      (.inl (.loadEntry p (s.queue.producers p).headIndex)) gh' := by
  have hsmall := hi.small p
  obtain ⟨hlt, fates', hnew, hlen⟩ := (hi.producer p).addHead hp (by omega)
  have hle : fates'.length ≤ n + 1 := by omega
  have hinv := hi.counts hnew rfl (by rw [hp]; rfl) (fun p' hp' h => by cases h; exact hp' rfl)
    (by rw [hp]; rfl) hle
  have hhist : ∀ p', (Function.update gh p { gh p with fates := fates' } p').hist = (gh p').hist :=
    hist_update rfl
  refine ⟨_, hinv, ?_, fun u _ => callOf_congr hhist _⟩
  have hget := List.getElem?_eq_getElem hlt
  have hcall : callOf (Function.update gh p { gh p with fates := fates' })
      (.loadEntry p (s.queue.producers p).headIndex) =
        .done (.dequeued (some (gh p).hist[(s.queue.producers p).headIndex.toNat])) := by
    rw [callOf_congr hhist]
    simp only [callOf, hget]
  simp only [Sum.map_inl, hcall]
  refine .effect (by rw [hp]; rfl) ?_
  have hsucc : ((s.queue.producers p).headIndex + 1).toNat = (s.queue.producers p).headIndex.toNat + 1 :=
    toNat_succ (n := 2 ^ 62) (by omega) (by decide)
  have hwaiting : waiting ⟨s.queue.setProducer p { s.queue.producers p with
      headIndex := (s.queue.producers p).headIndex + 1 }, s.pc⟩
      (Function.update gh p { gh p with fates := fates' }) =
      Function.update (s.waiting gh) p
        ((gh p).hist.drop ((s.queue.producers p).headIndex.toNat + 1)) := by
    funext p'
    simp only [waiting, hhist, ConcurrentQueue.setProducer]
    by_cases hp' : p' = p
    · subst hp'
      rw [Function.update_self, Function.update_self, hsucc]
    · rw [Function.update_of_ne hp', Function.update_of_ne hp']
      rfl
  rw [hwaiting]
  exact serves_pop (List.drop_eq_getElem_cons hlt)

theorem Inv.addOvercommit {my : Index} (hi : s.Inv gh n) (hn : n < 2 ^ 62)
    (hp : s.pc t = .addOvercommit p my) :
    ∃ gh', s.Advances gh n t (s.queue.setProducer p { s.queue.producers p with
        dequeueOvercommit := (s.queue.producers p).dequeueOvercommit + 1 }) (.inr (.dequeued none)) gh' := by
  have hsmall := hi.small p
  obtain ⟨fates', hnew, hlen⟩ := (hi.producer p).addOvercommit hp (by omega)
  have hle : fates'.length ≤ n + 1 := by omega
  have hinv := hi.counts hnew rfl (by rw [hp]; rfl) (fun p' _ h => by cases h) (by rw [hp]; rfl) hle
  exact ⟨_, .quiet hinv (hist_update rfl) (field_setProducer ImplicitProducer.headIndex rfl)
    (.answer (by rw [hp]; rfl) (serves_miss _))⟩

theorem Inv.loadEntry {i : Index} (hi : s.Inv gh n) (hp : s.pc t = .loadEntry p i)
    (hb : (s.queue.producers p).blockIndex (blockBase i) = some b) :
    s.Advances gh n t s.queue (.inl (.moveElement p i b)) gh := by
  have hok := (hi.producer p).threads t (by rw [hp]; rfl)
  rw [hp] at hok
  refine .quiet (hi.stays rfl rfl rfl (hi.custody.same rfl (by rw [hp]; rfl) rfl rfl rfl fun _ => rfl)
    (fun p' => .inl (by rw [hp]; rfl)) (by rw [hp]; intro h; cases h) (by intro h; cases h)
    (fun p' h => ?_) (fun i' p' h h' => ?_) rfl (fun i' p' h h' => ?_) (by rw [hp]; rfl)) (fun _ => rfl)
    (fun _ => rfl) (.silent (by rw [hp]; rfl) rfl)
  · cases h
    exact ⟨hok, hb⟩
  · rw [hp]
    exact ⟨h, h'⟩
  · rw [hp] at h h'
    exact ⟨h, h'⟩

theorem Inv.moveElement {i : Index} {x : α} (hi : s.Inv gh n) (hp : s.pc t = .moveElement p i b)
    (hx : (s.queue.blocks b).elements (blockOffset i) = some x) :
    ∃ gh', s.Advances gh n t (s.queue.setBlock b ((s.queue.blocks b).set i none))
      (.inl (.setEmpty p i b x)) gh' := by
  have htarget : (s.pc t).target t = some p := by rw [hp]; rfl
  have hok := (hi.producer p).threads t htarget
  rw [hp] at hok
  have hsmall := hi.small p
  obtain ⟨hget, hnew⟩ := (hi.producer p).moveElement (hi.custody.apart p) hp hx
  have hinv := hi.localBlock htarget (fun p' hp' h => by cases h; exact hp' rfl) hok.2 (by rw [hp]; rfl) hnew
    ⟨Nat.le_succ_of_le hsmall.1, Nat.le_succ_of_le hsmall.2⟩
  refine ⟨_, .quiet hinv (hist_update rfl) (fun _ => rfl) (.silent ?_ rfl)⟩
  rw [hp]
  simp only [callOf, hget]

theorem Inv.setEmpty {i : Index} {x : α} (hi : s.Inv gh n) (hp : s.pc t = .setEmpty p i b x) :
    ∃ gh', s.Advances gh n t (s.queue.setBlock b { s.queue.blocks b with
        elementsCompletelyDequeued := (s.queue.blocks b).elementsCompletelyDequeued + 1 })
      (if (s.queue.blocks b).elementsCompletelyDequeued = BLOCK_SIZE - 1 then .inl (.clearEntry p i b x)
        else .inr (.dequeued (some x))) gh' := by
  have htarget : (s.pc t).target t = some p := by rw [hp]; rfl
  have hok := (hi.producer p).threads t htarget
  rw [hp] at hok
  have hsmall := hi.small p
  have hcall : callOf gh (s.pc t) = .done (.dequeued (some x)) := by rw [hp]; rfl
  have hinv : ∀ {c : QueuePc α}, c = (if (s.queue.blocks b).elementsCompletelyDequeued = BLOCK_SIZE - 1
      then .clearEntry p i b x else .idle) → Inv ⟨s.queue.setBlock b { s.queue.blocks b with
        elementsCompletelyDequeued := (s.queue.blocks b).elementsCompletelyDequeued + 1 },
        Function.update s.pc t c⟩ (Function.update gh p { gh p with done := insert i.toNat (gh p).done })
        (n + 1) := by
    intro c hc
    refine hi.localBlock htarget (fun p' hp' h => ?_) hok.2.1 (by rw [hp, hc]; split <;> rfl)
      ((hi.producer p).setEmpty (hi.custody.apart p) hp hc)
      ⟨Nat.le_succ_of_le hsmall.1, Nat.le_succ_of_le hsmall.2⟩
    rw [hc] at h
    split at h
    · cases h
      exact hp' rfl
    · cases h
  refine ⟨_, .quiet (hinv ?_) (hist_update rfl) (fun _ => rfl) ?_⟩
  · split <;> rfl
  · split
    · exact .silent hcall.symm rfl
    · exact .ret hcall rfl

theorem Inv.clearEntry {i : Index} {x : α} {P : ImplicitProducer} (hi : s.Inv gh n)
    (hp : s.pc t = .clearEntry p i b x)
    (hP : P = { s.queue.producers p with
      blockIndex := Function.update (s.queue.producers p).blockIndex (blockBase i) none }) :
    s.Advances gh n t (s.queue.setProducer p P) (.inl (.giveBlock b x)) (Function.update gh p (gh p)) := by
  have htarget : (s.pc t).target t = some p := by rw [hp]; rfl
  have hok := (hi.producer p).threads t htarget
  rw [hp] at hok
  have hsmall := hi.small p
  have hcustody := hi.custody.clear (c := .giveBlock b x) (P := P) (by rw [hp]; rfl) rfl hok.1 (by rw [hP])
  exact .quiet (hi.local htarget (fun p' _ h => by cases h) rfl rfl
    (by rw [hP]; exact (hi.producer p).clearEntry hp) (fun _ _ _ _ _ => rfl) (fun _ _ _ _ => rfl) hcustody
    (by omega)) (hist_update rfl) (field_setProducer ImplicitProducer.headIndex (by rw [hP])) (.silent (by rw [hp]; rfl) rfl)

theorem Inv.giveBlock {x : α} (hi : s.Inv gh n) (hp : s.pc t = .giveBlock b x) :
    s.Advances gh n t (s.queue.addBlockToFreeList b) (.inr (.dequeued (some x))) gh := by
  have hsame : (s.queue.addBlockToFreeList b).producers = s.queue.producers ∧
      (s.queue.addBlockToFreeList b).blocks = s.queue.blocks := by
    unfold ConcurrentQueue.addBlockToFreeList
    split <;> exact ⟨rfl, rfl⟩
  refine .quiet (hi.stays rfl hsame.1 hsame.2 (hi.custody.give (by rw [hp]; rfl) rfl)
    (fun p' => .inl (by rw [hp]; rfl)) (by rw [hp]; intro h; cases h) (by intro h; cases h)
    (fun p' h => by cases h) (fun i p' h => by cases h) rfl (fun i p' _ h => by rw [hp] at h; cases h)
    (by rw [hp]; rfl)) (fun _ => rfl) (fun p' => by rw [hsame.1]) (.ret (by rw [hp]; rfl) rfl)


/-! ### All accesses -/

theorem Inv.access {q : ConcurrentQueue α} {r : QueuePc α ⊕ QueueRes α} (hi : s.Inv gh n)
    (hn : n < 2 ^ 62) (h : s.queue.access t (s.pc t) = some (q, r)) : ∃ gh', s.Advances gh n t q r gh' := by
  cases hp : s.pc t <;> rw [hp] at h <;> simp only [ConcurrentQueue.access, reduceCtorEq] at h
  case loadTail x =>
    cases h
    exact ⟨gh, hi.loadTail hp⟩
  case loadHead x cur =>
    have hok := (hi.producer t).threads t (by rw [hp]; rfl)
    rw [hp] at hok
    split at h <;> cases h
    · exact ⟨gh, hi.starts (by rw [hp]; rfl) (fun _ => by rw [hp]; rfl) (by rw [hp]; rfl) (by rw [hp]; rfl)
        (by rw [hp]; exact ⟨rfl, rfl⟩) hok _ (.inl rfl)⟩
    · exact ⟨gh, hi.starts (by rw [hp]; rfl) (fun _ => by rw [hp]; rfl) (by rw [hp]; rfl) (by rw [hp]; rfl)
        (by rw [hp]; exact ⟨rfl, rfl⟩) hok _ (.inr (.inr rfl))⟩
  case resetEmpty x cur b =>
    rw [hi.custody.deref (w := .hand t) (by simp only [Holds, hp]; rfl) (by simp)] at h
    cases h
    exact ⟨_, hi.resetEmpty hp⟩
  case storeEntry x cur b =>
    cases h
    exact ⟨_, hi.storeEntry hp rfl⟩
  case construct x cur =>
    obtain ⟨b, hb, hkey⟩ := (hi.producer t).tailBlock (.inr (by rw [hp]; rfl))
    rw [hb, Option.bind_some, hi.custody.deref (w := .entry t _) hkey (by simp)] at h
    cases h
    exact ⟨_, hi.construct hp hb⟩
  case storeTail x cur =>
    cases h
    exact ⟨_, hi.storeTail hn hp⟩
  case readTail p =>
    cases h
    exact ⟨gh, hi.looks (by rw [hp]; rfl) (by rw [hp]; rfl) (by rw [hp]; rfl)
      (by rw [hp]; exact ⟨rfl, rfl⟩) (fun _ => .inl (by rw [hp]; rfl)) (.inl ⟨_, rfl⟩)⟩
  case readOvercommit p tail =>
    cases h
    exact ⟨gh, hi.readOvercommit hp⟩
  case readOptimistic p tail overcommit =>
    split at h <;> cases h
    · exact ⟨gh, hi.readOptimistic hp (.inl rfl)⟩
    · exact ⟨gh, hi.readOptimistic hp (.inr rfl)⟩
  case addOptimistic p overcommit =>
    cases h
    exact ⟨_, hi.addOptimistic hn hp⟩
  case rereadTail p overcommit my =>
    cases h
    exact hi.rereadTail hn hp
  case addHead p my =>
    cases h
    exact hi.addHead hn hp
  case addOvercommit p my =>
    cases h
    exact hi.addOvercommit hn hp
  case loadEntry p i =>
    obtain ⟨b, hb, hr⟩ := Option.map_eq_some_iff.mp h
    cases hr
    exact ⟨gh, hi.loadEntry hp hb⟩
  case moveElement p i b =>
    have hok := (hi.producer p).threads t (by rw [hp]; rfl)
    rw [hp] at hok
    rw [hi.custody.deref (w := .entry p _) hok.2 (by simp), Option.bind_some] at h
    obtain ⟨x, hx, hr⟩ := Option.map_eq_some_iff.mp h
    cases hr
    exact hi.moveElement hp hx
  case setEmpty p i b x =>
    have hok := (hi.producer p).threads t (by rw [hp]; rfl)
    rw [hp] at hok
    rw [hi.custody.deref (w := .entry p _) hok.2.1 (by simp)] at h
    cases h
    exact hi.setEmpty hp
  case clearEntry p i b x =>
    cases h
    exact ⟨_, hi.clearEntry hp rfl⟩
  case giveBlock b x =>
    cases h
    exact ⟨gh, hi.giveBlock hp⟩


theorem requisitionBlock_same {q q' : ConcurrentQueue α} (h : q.requisitionBlock (some b) = some q') :
    q'.producers = q.producers ∧ q'.blocks = q.blocks := by
  simp only [ConcurrentQueue.requisitionBlock] at h
  split at h
  · cases h
    exact ⟨rfl, rfl⟩
  · split at h <;> cases h
    exact ⟨rfl, rfl⟩

/-- The thread takes the block that `requisition_block` gives it. -/
theorem Inv.requisition {x : α} {cur : Index} {q : ConcurrentQueue α} (hi : s.Inv gh n)
    (hp : s.pc t = .requisition x cur) (hq : s.queue.requisitionBlock (some b) = some q) :
    s.Advances gh n t q (.inl (.resetEmpty x cur b)) gh := by
  have hok := (hi.producer t).threads t (by rw [hp]; rfl)
  rw [hp] at hok
  have hsame := requisitionBlock_same hq
  refine .quiet (hi.stays rfl hsame.1 hsame.2 (hi.custody.requisition (by rw [hp]; rfl) rfl hq)
    (fun p' => .inl (by rw [hp]; rfl)) (by rw [hp]; intro h; cases h) (by intro h; cases h)
    (fun p' h => ?_) (fun i p' _ h => by cases h) rfl (fun i p' _ h => by rw [hp] at h; cases h)
    (by rw [hp]; rfl)) (fun _ => rfl) (fun p' => by rw [hsame.1]) (.silent (by rw [hp]; rfl) rfl)
  cases h
  exact hok

/-- A thread calls an operation. -/
theorem Inv.call {op : QueueOp α} (hi : s.Inv gh n) (hp : s.pc t = .idle) :
    Inv ⟨s.queue, Function.update s.pc t (start op)⟩ gh (n + 1) := by
  have hplain : (start op).inHand = none ∧ (∀ p', (start op).ticketView p' = .out) ∧
      (start op).building = false ∧ (start op).holding = none ∧ (start op).clearing = none ∧
      ∀ p', (start op).Ok (s.queue.producers p') s.queue.blocks (gh p') := by
    cases op <;> exact ⟨rfl, fun _ => rfl, rfl, rfl, rfl, fun _ => trivial⟩
  obtain ⟨hhand, hview, hbuilding, hholding, hclearing, hok⟩ := hplain
  exact hi.stays rfl rfl rfl (hi.custody.same rfl (by rw [hhand, hp]; rfl) rfl rfl rfl fun _ => rfl)
    (fun p' => .inl (by rw [hview, hp]; rfl)) (by rw [hp]; intro h; cases h)
    (by rw [hbuilding]; intro h; cases h) (fun p' _ => hok p')
    (fun i p' _ h => by rw [hholding] at h; cases h) hclearing
    (fun i p' _ h => by rw [hp] at h; cases h) (by rw [hp]; rfl)

/-! ## Runs -/

theorem ProducerInv.new (p : Nat) :
    ProducerInv (α := α) p newProducer (fun _ => ⟨fun _ => none, 0⟩) (fun _ => .idle) ⟨[], [], ∅, ∅⟩ where
  tail := rfl
  head := rfl
  optimistic := rfl
  overcommit := rfl
  tickets := ⟨fun k f h => by simp at h, fun _ => trivial, fun t u my h => by cases h⟩
  done_sub := Finset.Subset.refl _
  moved_lt := fun k h => absurd h (Finset.notMem_empty k)
  keys := fun key b h => by cases h
  entry := fun i h => absurd h (Nat.not_lt_zero _)
  slot := fun i x b h => by simp at h
  count := fun key b h => by cases h
  tailBlock := fun h => by
    rcases h with h | h
    · exact absurd rfl h
    · cases h
  threads := fun t h => by cases h
  holdingUnique := fun t u i h => by cases h
  clearingUnique := fun t u key h => by cases h
  held := fun i h => absurd h (Nat.not_lt_zero _)
  cleared := fun key b h => by cases h

theorem inv_init (k : Nat) : Inv (init k : QueueThreads α) (fun _ => ⟨[], [], ∅, ∅⟩) 0 where
  producer := ProducerInv.new
  custody := by
    have hfree : ∀ w b, (init k : QueueThreads α).Holds w b → w = .free ∧ b < k := by
      intro w b h
      cases w with
      | free => exact ⟨rfl, List.mem_range.mp h⟩
      | destroyed => cases h
      | hand t => cases h
      | entry p key => cases h
    refine ⟨fun w b h => (hfree w b h).2, fun w w' b h h' => ?_, ⟨List.nodup_range, List.nodup_nil⟩,
      fun b hb => ⟨.free, List.mem_range.mpr hb⟩⟩
    rw [(hfree w b h).1, (hfree w' b h').1]
  small := fun _ => ⟨Nat.le_refl 0, Nat.le_refl 0⟩

/-- The threads and the object. -/
structure Sim (s : QueueThreads α) (gh : Nat → QueueGhost α)
    (a : AtomicObject.State (SubQueues α) (QueueOp α) (QueueRes α)) : Prop where
  items : a.obj.items = s.waiting gh
  call : ∀ t, a.call t = callOf gh (s.pc t)

variable {a : AtomicObject.State (SubQueues α) (QueueOp α) (QueueRes α)}
  {os : List (Observed (QueueOp α) (QueueRes α))}

/-- The call that a thread is in after an access. -/
def callAfter : Call (QueueOp α) (QueueRes α) ⊕ QueueRes α → Call (QueueOp α) (QueueRes α)
  | .inl k => k
  | .inr _ => .idle

/-- What is observed of an access. -/
def observed (thread : Nat) :
    Call (QueueOp α) (QueueRes α) ⊕ QueueRes α → List (Observed (QueueOp α) (QueueRes α))
  | .inl _ => []
  | .inr r => [.returned thread r]

theorem goto_snd {f : QueuePc α → Call (QueueOp α) (QueueRes α)} (q : ConcurrentQueue α)
    (r : QueuePc α ⊕ QueueRes α) : (s.goto t q r).2 = observed t (r.map f id) := by
  cases r <;> rfl

theorem callAfter_map {f : QueuePc α → Call (QueueOp α) (QueueRes α)} (hf : f .idle = .idle)
    (r : QueuePc α ⊕ QueueRes α) : callAfter (r.map f id) = f (after r) := by
  cases r with
  | inl c => rfl
  | inr r => exact hf.symm

/-- Whatever an access is to the object, the object can do. -/
theorem Linear.follows {x x' : Nat → List α} {k : Call (QueueOp α) (QueueRes α)}
    {kr : Call (QueueOp α) (QueueRes α) ⊕ QueueRes α} (h : Linear R t x x' k kr) (hx : a.obj.items = x)
    (hk : a.call t = k) :
    ∃ bs a', trace (RelationalObject.act R) a bs = some (a', observed t kr) ∧ a'.obj.items = x' ∧
      a'.call = Function.update a.call t (callAfter kr) := by
  cases h with
  | silent hk' hx' =>
    refine ⟨[], a, rfl, hx.trans hx'.symm, ?_⟩
    rw [callAfter, hk', ← hk, Function.update_eq_self]
  | effect hop hserves =>
    obtain ⟨obj, hR, hitems⟩ := hserves a.obj hx
    exact ⟨_, _, trace_singleton (RelationalObject.act_effect (hk.trans hop) hR), hitems, rfl⟩
  | answer hop hserves =>
    obtain ⟨obj, hR, hitems⟩ := hserves a.obj hx
    exact ⟨_, _, RelationalObject.trace_return (hk.trans hop) hR, hitems, rfl⟩
  | ret hdone hx' =>
    exact ⟨_, _, trace_singleton (RelationalObject.act_ret (hk.trans hdone)), hx.trans hx'.symm, rfl⟩

/-- The calls of all threads after a step of one of them. -/
theorem calls_update {f f' : QueuePc α → Call (QueueOp α) (QueueRes α)}
    {k : Call (QueueOp α) (QueueRes α)} (hcall : ∀ u, a.call u = f (s.pc u))
    (hothers : ∀ u, u ≠ t → f' (s.pc u) = f (s.pc u)) (hk : f' c = k) (u : Nat) :
    Function.update a.call t k u = f' (Function.update s.pc t c u) := by
  by_cases hu : u = t
  · subst hu
    rw [Function.update_self, Function.update_self, hk]
  · rw [Function.update_of_ne hu, Function.update_of_ne hu, hothers u hu, hcall]

theorem Advances.follows {q : ConcurrentQueue α} {r : QueuePc α ⊕ QueueRes α}
    (h : s.Advances gh n t q r gh') (hs : Sim s gh a) :
    ∃ bs a', trace (RelationalObject.act allows) a bs = some (a', (s.goto t q r).2) ∧
      Sim (s.goto t q r).1 gh' a' := by
  obtain ⟨bs, a', htrace, hitems, hcall⟩ := h.linear.follows hs.items (hs.call t)
  rw [goto_fst, goto_snd (f := callOf gh')]
  refine ⟨bs, a', htrace, hitems, fun u => ?_⟩
  rw [hcall]
  exact calls_update hs.call h.others (callAfter_map rfl r).symm u

/-- Every step is a call, an access, or an answer that `enqueue` waits for. -/
theorem Inv.act_cases {x : Action α} (hi : s.Inv gh n) (h : s.act x = some (s', os)) :
    (∃ t op, x = .call t op ∧ s.pc t = .idle ∧ s' = ⟨s.queue, Function.update s.pc t (start op)⟩ ∧
      os = [.called t op]) ∨
    ∃ t q r, s.goto t q r = (s', os) ∧ (s.queue.access t (s.pc t) = some (q, r) ∨
      ((s.pc t).consuming = false ∧ (after r).consuming = false ∧ q.producers = s.queue.producers ∧
        s.Advances gh n t q r gh)) := by
  cases x with
  | call t op =>
    simp only [QueueThreads.act] at h
    split at h
    · next hp =>
      cases h
      exact .inl ⟨t, op, rfl, hp, rfl, rfl⟩
    · cases h
  | next t =>
    obtain ⟨⟨q, r⟩, haccess, heq⟩ := Option.map_eq_some_iff.mp h
    exact .inr ⟨t, q, r, heq, .inl haccess⟩
  | insert t ok =>
    simp only [QueueThreads.act] at h
    split at h
    · next x cur hp =>
      have hok := (hi.producer t).threads t (by rw [hp]; rfl)
      rw [hp] at hok
      have hadv := hi.starts (x := x) (by rw [hp]; rfl) (fun _ => by rw [hp]; rfl) (by rw [hp]; rfl)
        (by rw [hp]; rfl) (by rw [hp]; exact ⟨rfl, rfl⟩) hok
      split at h <;> simp only [Option.some.injEq] at h
      · exact .inr ⟨t, _, _, h, .inr ⟨by rw [hp]; rfl, rfl, rfl, hadv _ (.inr (.inl rfl))⟩⟩
      · exact .inr ⟨t, _, _, h, .inr ⟨by rw [hp]; rfl, rfl, rfl, hadv _ (.inr (.inr rfl))⟩⟩
    · cases h
  | requisition t newBlock =>
    simp only [QueueThreads.act] at h
    split at h
    · next x cur hp =>
      obtain ⟨q, hq, heq⟩ := Option.map_eq_some_iff.mp h
      have hold : (s.pc t).consuming = false := by rw [hp]; rfl
      cases newBlock with
      | some b =>
        exact .inr ⟨t, q, _, heq, .inr ⟨hold, rfl, (requisitionBlock_same hq).1, hi.requisition hp hq⟩⟩
      | none =>
        cases hq
        have hok := (hi.producer t).threads t (by rw [hp]; rfl)
        rw [hp] at hok
        -- the entry of the block is empty already
        have hkey := (hi.producer t).index_tail_none (by rw [hp]; rfl) hok.1
        have hsame : s.queue.setProducer t { s.queue.producers t with
            blockIndex := Function.update (s.queue.producers t).blockIndex cur none } = s.queue := by
          rw [Function.update_eq_self_iff.mpr hkey.symm]
          exact setProducer_self _ t
        simp only [hsame] at heq
        exact .inr ⟨t, _, _, heq, .inr ⟨hold, rfl, rfl, hi.starts (x := x) (by rw [hp]; rfl)
          (fun _ => by rw [hp]; rfl) (by rw [hp]; rfl) (by rw [hp]; rfl) (by rw [hp]; exact ⟨rfl, rfl⟩) hok _
          (.inr (.inr rfl))⟩⟩
    · cases h

/-- The object is called. -/
theorem follows_call {f : QueuePc α → Call (QueueOp α) (QueueRes α)} {op : QueueOp α}
    (hcall : ∀ u, a.call u = f (s.pc u)) (hidle : f (s.pc t) = .idle) (hop : f (start op) = .pending op) :
    trace (RelationalObject.act R) a [.call t op] = some (a.set t (.pending op), [.called t op]) ∧
      ∀ u, (a.set t (.pending op)).call u = f (Function.update s.pc t (start op) u) :=
  ⟨trace_singleton (RelationalObject.act_call ((hcall t).trans hidle)),
    calls_update hcall (fun _ _ => rfl) hop⟩

/-- **One step.** -/
theorem Inv.act {x : Action α} (hi : s.Inv gh n) (hn : n < 2 ^ 62) (hs : Sim s gh a)
    (h : s.act x = some (s', os)) : ∃ gh' bs a', s'.Inv gh' (n + 1) ∧ Sim s' gh' a' ∧
      trace (RelationalObject.act allows) a bs = some (a', os) := by
  obtain ⟨t, op, -, hp, rfl, rfl⟩ | ⟨t, q, r, heq, hstep⟩ := hi.act_cases h
  · have hop : callOf gh (start op) = .pending op := by cases op <;> rfl
    obtain ⟨htrace, hcall⟩ := follows_call (R := allows) (t := t) hs.call (by rw [hp]; rfl) hop
    exact ⟨gh, _, a.set t (.pending op), hi.call hp, ⟨hs.items, hcall⟩, htrace⟩
  · have hadv : ∃ gh', s.Advances gh n t q r gh' := by
      rcases hstep with haccess | ⟨-, -, -, hadv⟩
      · exact hi.access hn haccess
      · exact ⟨gh, hadv⟩
    obtain ⟨gh', hadv⟩ := hadv
    obtain ⟨bs, a', htrace, hsim⟩ := hadv.follows hs
    have hinv := hadv.inv
    rw [← goto_fst, heq] at hinv
    rw [heq] at htrace hsim
    exact ⟨gh', bs, a', hinv, hsim, htrace⟩

/-- What a run keeps. -/
theorem run_inv {k : Nat} {as : List (Action α)} (hlen : as.length < 2 ^ 62)
    (h : trace QueueThreads.act (init k) as = some (s', os)) :
    ∃ gh a bs, s'.Inv gh as.length ∧ Sim s' gh a ∧
      trace (RelationalObject.act allows) (AtomicObject.idle SubQueues.empty) bs = some (a, os) := by
  refine trace_invariant (I := fun n s os => ∃ gh a bs, s.Inv gh n ∧ Sim s gh a ∧
    trace (RelationalObject.act allows) (AtomicObject.idle SubQueues.empty) bs = some (a, os)) ?_ h ?_
  · rintro n s os x s' o hn - ⟨gh, a, bs, hi, hs, hbs⟩ hx
    obtain ⟨gh', cs, a', hi', hs', hcs⟩ := hi.act (by omega) hs hx
    exact ⟨gh', a', bs ++ cs, hi', hs', trace_append hbs hcs⟩
  · exact ⟨_, _, [], inv_init k, ⟨rfl, fun _ => rfl⟩, rfl⟩

/-- **The queue is a FIFO sub-queue for each producer.**  Whatever the order of the accesses, what is
observed of the queue is observed of atomic sub-queues: an element that `dequeue` returns is the one
that has waited longest at that producer, and none is lost or returned twice.  The block index is an
atomic map and the pool an atomic bag. -/
theorem queue_linearizable (k : Nat) (as : List (Action α)) (s : QueueThreads α)
    (os : List (Observed (QueueOp α) (QueueRes α))) (hlen : as.length < 2 ^ 62)
    (h : trace act (init k) as = some (s, os)) :
    ∃ bs a, trace (RelationalObject.act allows) (AtomicObject.idle SubQueues.empty) bs = some (a, os) := by
  obtain ⟨-, a, bs, -, -, hbs⟩ := run_inv hlen h
  exact ⟨bs, a, hbs⟩

/-- Both consumers see the one element; who draws the second ticket gives it back. -/
def ticketRace : List (Action Nat) :=
  [.call 0 (.enqueue 7), .next 0, .next 0, .insert 0 true, .requisition 0 (some 0), .next 0, .next 0,
    .next 0, .call 1 (.dequeue 0), .call 2 (.dequeue 0), .next 0, .next 1, .next 2, .next 1, .next 2,
    .next 1, .next 2, .next 2, .next 1, .next 1, .next 2, .next 1, .next 2, .next 2, .next 2, .next 2]

def ticketRaceObserved : List (Observed (QueueOp Nat) (QueueRes Nat)) :=
  [.called 0 (.enqueue 7), .called 1 (.dequeue 0), .called 2 (.dequeue 0), .returned 0 (.enqueued true),
    .returned 1 (.dequeued none), .returned 2 (.dequeued (some 7))]

theorem queue_linearizable_race : ∃ bs a,
    trace (RelationalObject.act allows) (AtomicObject.idle SubQueues.empty) bs =
      some (a, ticketRaceObserved) := by
  have hrun : (trace act (init 0) ticketRace).map Prod.snd = some ticketRaceObserved := by
    decide +kernel
  obtain ⟨⟨s, os⟩, hs, rfl⟩ := Option.map_eq_some_iff.mp hrun
  exact queue_linearizable 0 ticketRace s _ (by decide) hs

/-- An access that is due is defined. -/
theorem Inv.access_isSome (hi : s.Inv gh n) (hidle : s.pc t ≠ .idle)
    (hinsert : ∀ x cur, s.pc t ≠ .insertEntry x cur) (hrequisition : ∀ x cur, s.pc t ≠ .requisition x cur) :
    (s.queue.access t (s.pc t)).isSome = true := by
  cases hp : s.pc t with
  | idle => exact absurd hp hidle
  | insertEntry x cur => exact absurd hp (hinsert x cur)
  | requisition x cur => exact absurd hp (hrequisition x cur)
  | resetEmpty x cur b =>
    simp only [ConcurrentQueue.access]
    rw [hi.custody.deref (w := .hand t) (by simp only [Holds, hp]; rfl) (by simp)]
    rfl
  | construct x cur =>
    obtain ⟨b, hb, hkey⟩ := (hi.producer t).tailBlock (.inr (by rw [hp]; rfl))
    simp only [ConcurrentQueue.access]
    rw [hb, Option.bind_some, hi.custody.deref (w := .entry t _) hkey (by simp)]
    rfl
  | loadEntry p i =>
    have hok := (hi.producer p).threads t (by rw [hp]; rfl)
    rw [hp] at hok
    have hhead := (hi.producer p).head_le
    obtain ⟨b, hb⟩ := (hi.producer p).entry i (by have := hok.1; omega)
      fun hd => hok.2 ((hi.producer p).done_sub hd)
    simp only [ConcurrentQueue.access]
    rw [hb]
    rfl
  | moveElement p i b =>
    have hok := (hi.producer p).threads t (by rw [hp]; rfl)
    rw [hp] at hok
    have hhead := (hi.producer p).head_le
    have hlt : i.toNat < (gh p).hist.length := Nat.lt_of_lt_of_le hok.1.1 hhead
    have hslot := (hi.producer p).slot i _ b (List.getElem?_eq_getElem hlt) hok.1.2 hok.2
    simp only [ConcurrentQueue.access]
    rw [hi.custody.deref (w := .entry p _) hok.2 (by simp), Option.bind_some, hslot]
    rfl
  | setEmpty p i b x =>
    have hok := (hi.producer p).threads t (by rw [hp]; rfl)
    rw [hp] at hok
    simp only [ConcurrentQueue.access]
    rw [hi.custody.deref (w := .entry p _) hok.2.1 (by simp)]
    rfl
  | readOptimistic p tail overcommit =>
    simp only [ConcurrentQueue.access]
    split <;> rfl
  | loadHead x cur =>
    simp only [ConcurrentQueue.access]
    split <;> rfl
  | _ => rfl

/-- **No access is undefined.**  In every state of every run, each thread that is inside a call can
make its next access: the index it has taken is a key of the (atomic) map of blocks, the block has not
been deleted, and the slot that it moves an element from holds one. -/
theorem queue_access_defined (k : Nat) (as : List (Action α)) (s : QueueThreads α)
    (os : List (Observed (QueueOp α) (QueueRes α))) (hlen : as.length < 2 ^ 62)
    (h : trace act (init k) as = some (s, os)) (t : Nat) (ht : s.pc t ≠ .idle) :
    ∃ x : Action α, x.thread = t ∧ (s.act x).isSome = true := by
  obtain ⟨gh, a, bs, hi, -, -⟩ := run_inv hlen h
  by_cases hinsert : ∃ x cur, s.pc t = .insertEntry x cur
  · obtain ⟨x, cur, hp⟩ := hinsert
    refine ⟨.insert t true, rfl, ?_⟩
    simp only [act, hp]
    rfl
  · by_cases hrequisition : ∃ x cur, s.pc t = .requisition x cur
    · obtain ⟨x, cur, hp⟩ := hrequisition
      refine ⟨.requisition t none, rfl, ?_⟩
      simp only [act, hp]
      rfl
    · refine ⟨.next t, rfl, ?_⟩
      have hsome := hi.access_isSome ht (fun x cur hp => hinsert ⟨x, cur, hp⟩)
        fun x cur hp => hrequisition ⟨x, cur, hp⟩
      simpa only [act, Option.isSome_map] using hsome

/-- An `enqueue` of thread 0: with a block, it starts that block. -/
def enqueueRun (x : Nat) : Option Nat → List (Action Nat)
  | some b => [.call 0 (.enqueue x), .next 0, .next 0, .insert 0 true, .requisition 0 (some b)] ++
      List.replicate 4 (.next 0)
  | none => .call 0 (.enqueue x) :: List.replicate 3 (.next 0)

def dequeueRun (t steps : Nat) : List (Action Nat) := .call t (.dequeue 0) :: List.replicate steps (.next t)

/-- 33 elements are put in two blocks; thread 1 takes 31 of them and goes on to the last slot of the
first block, and thread 2 has taken the first index of the second block. -/
def drainRun : List (Action Nat) :=
  enqueueRun 0 (some 0) ++ (List.range 31).flatMap (fun x => enqueueRun (x + 1) none) ++
    enqueueRun 32 (some 1) ++ (List.range 31).flatMap (fun _ => dequeueRun 1 9) ++ dequeueRun 1 7 ++
    dequeueRun 2 6

/-- Thread 1 moves the last element of the block, thread 2 looks up a block: both can go on. -/
theorem queue_access_defined_drain : ∃ s os, trace act (init 1) drainRun = some (s, os) ∧
    s.pc 1 = .moveElement 0 31 0 ∧ s.pc 2 = .loadEntry 0 32 ∧
    ∀ t, t = 1 ∨ t = 2 → ∃ x : Action Nat, x.thread = t ∧ (s.act x).isSome = true := by
  have hrun : (trace act (init 1) drainRun).map (fun r => (r.1.pc 1, r.1.pc 2)) =
      some (.moveElement 0 31 0, .loadEntry 0 32) := by
    decide +kernel
  obtain ⟨⟨s, os⟩, hs, hpc⟩ := Option.map_eq_some_iff.mp hrun
  simp only [Prod.mk.injEq] at hpc
  refine ⟨s, os, hs, hpc.1, hpc.2, fun t ht => queue_access_defined 1 _ s os (by decide +kernel) hs t ?_⟩
  rcases ht with rfl | rfl
  · rw [hpc.1]
    simp
  · rw [hpc.2]
    simp

/-- **Custody of the blocks.**  At every access each block that was ever created is in exactly one
place: in the pool (an atomic bag), deleted, in the hand of one thread, or in one entry of one
producer's index (an atomic map).  No block is handed out twice, deleted twice, or reused while it is in
an index. -/
theorem queue_block_custody (k : Nat) (as : List (Action α)) (s : QueueThreads α)
    (os : List (Observed (QueueOp α) (QueueRes α))) (hlen : as.length < 2 ^ 62)
    (h : trace act (init k) as = some (s, os)) :
    (∀ b, b < s.queue.created ↔ ∃ w, s.Holds w b) ∧ (∀ b w w', s.Holds w b → s.Holds w' b → w = w') ∧
      s.queue.freeList.Nodup ∧ s.queue.destroyed.Nodup := by
  obtain ⟨gh, a, bs, hi, -, -⟩ := run_inv hlen h
  refine ⟨fun b => ⟨hi.custody.somewhere b, ?_⟩, fun b w w' => hi.custody.unique w w' b,
    hi.custody.nodup⟩
  rintro ⟨w, hpl⟩
  exact hi.custody.lt w b hpl

/-- Both threads finish. -/
def drainedRun : List (Action Nat) := drainRun ++ List.replicate 4 (.next 1) ++ List.replicate 3 (.next 2)

/-- The first block is back in the pool and in no index; the second stays in the index. -/
theorem queue_block_custody_drained : ∃ s os, trace act (init 1) drainedRun = some (s, os) ∧
    s.Holds .free 0 ∧ (∀ p key, ¬ s.Holds (.entry p key) 0) ∧ s.Holds (.entry 0 32) 1 := by
  have hrun : (trace act (init 1) drainedRun).map (fun r =>
      (r.1.queue.freeList, (r.1.queue.producers 0).blockIndex 32)) = some ([0], some 1) := by
    decide +kernel
  obtain ⟨⟨s, os⟩, hs, hb⟩ := Option.map_eq_some_iff.mp hrun
  simp only [Prod.mk.injEq] at hb
  obtain ⟨-, hunique, -⟩ := queue_block_custody 1 drainedRun s os (by decide +kernel) hs
  have hfree : s.Holds .free 0 := by
    show 0 ∈ s.queue.freeList
    rw [hb.1]
    exact List.mem_singleton_self 0
  refine ⟨s, os, hs, hfree, fun p key hentry => ?_, hb.2⟩
  cases hunique 0 .free (.entry p key) hfree hentry

/-- With every thread idle, a producer's entries are the blocks of the indexes between its head and its
tail. -/
theorem Inv.entry_iff (hi : s.Inv gh n) (hidle : ∀ t, s.pc t = .idle) (p : Nat) (key : Index) :
    (∃ b, s.Holds (.entry p key) b) ↔ key.toNat % BLOCK_SIZE = 0 ∧
      key.toNat < (s.queue.producers p).tailIndex.toNat ∧
      (s.queue.producers p).headIndex.toNat < key.toNat + BLOCK_SIZE := by
  have hpi := hi.producer p
  have hhead := hpi.head_le
  have htail := hpi.tail
  have hword := (s.queue.producers p).headIndex.isLt
  -- no thread is late with an index, so all below the head are done, and none above
  have hdone : ∀ i : Index, i.toNat ∈ (gh p).done ↔ i.toNat < (s.queue.producers p).headIndex.toNat := by
    intro i
    refine ⟨fun hd => hpi.moved_lt _ (hpi.done_sub hd), fun hlt => ?_⟩
    by_contra hm
    obtain ⟨t, -, hheld⟩ := hpi.held i hlt hm
    rw [hidle t] at hheld
    cases hheld
  unfold BLOCK_SIZE
  constructor
  · rintro ⟨b, hb⟩
    obtain ⟨hkey, hlt⟩ := hpi.keys key b hb
    refine ⟨hkey, ?_, ?_⟩
    · rcases hlt with hlt | ⟨-, hbuilding⟩
      · omega
      · rw [hidle p] at hbuilding
        cases hbuilding
    · by_contra hle
      have hfull : ((gh p).doneIn key).card = BLOCK_SIZE := by
        refine QueueGhost.card_doneIn hkey fun k _ hk => ?_
        unfold BLOCK_SIZE at hk
        have hk' : (BitVec.ofNat 64 k).toNat = k := by
          rw [BitVec.toNat_ofNat]
          omega
        rw [← hk', hdone, hk']
        omega
      obtain ⟨t, -, hcleared⟩ := hpi.cleared key b hb hfull
      rw [hidle t] at hcleared
      cases hcleared
  · rintro ⟨hkey, hlt, hwindow⟩
    by_cases hnext : (s.queue.producers p).headIndex.toNat < (s.queue.producers p).tailIndex.toNat
    · -- the block has an index that is not taken yet
      by_cases hle : key.toNat ≤ (s.queue.producers p).headIndex.toNat
      · obtain ⟨b, hb⟩ := hpi.entry (s.queue.producers p).headIndex (by omega) (by rw [hdone]; omega)
        rw [blockBase_eq_of_mem hkey hle hwindow] at hb
        exact ⟨b, hb⟩
      · obtain ⟨b, hb⟩ := hpi.entry key (by omega) (by rw [hdone]; omega)
        rw [blockBase_eq_of_mem hkey (Nat.le_refl _) (by omega)] at hb
        exact ⟨b, hb⟩
    · -- all are taken, and the block is the one that the next element goes into
      obtain ⟨b, -, hb⟩ := hpi.tailBlock (.inl (by omega))
      rw [blockBase_eq_of_mem hkey (by omega) (by omega)] at hb
      exact ⟨b, hb⟩

/-- **No block is leaked.**  When no thread is inside a call, each block is in the pool, deleted, or in
an index, and an index holds the blocks of the elements that wait and of the slot that comes next, and
no others: a block whose 32 elements have gone has been given back.  Pool and index are atomic. -/
theorem queue_no_leak (k : Nat) (as : List (Action α)) (s : QueueThreads α)
    (os : List (Observed (QueueOp α) (QueueRes α))) (hlen : as.length < 2 ^ 62)
    (h : trace act (init k) as = some (s, os)) (hidle : ∀ t, s.pc t = .idle) :
    (∀ b, b < s.queue.created ↔ b ∈ s.queue.freeList ∨ b ∈ s.queue.destroyed ∨
      ∃ p key, (s.queue.producers p).blockIndex key = some b) ∧
    ∀ p key, ((s.queue.producers p).blockIndex key).isSome = true ↔ key.toNat % BLOCK_SIZE = 0 ∧
      key.toNat < (s.queue.producers p).tailIndex.toNat ∧
      (s.queue.producers p).headIndex.toNat < key.toNat + BLOCK_SIZE := by
  obtain ⟨gh, a, bs, hi, -, -⟩ := run_inv hlen h
  refine ⟨fun b => ⟨fun hb => ?_, ?_⟩, fun p key => ?_⟩
  · obtain ⟨w, hw⟩ := hi.custody.somewhere b hb
    cases w with
    | free => exact .inl hw
    | destroyed => exact .inr (.inl hw)
    | entry p key => exact .inr (.inr ⟨p, key, hw⟩)
    | hand t =>
      change (s.pc t).inHand = some b at hw
      rw [hidle t] at hw
      cases hw
  · rintro (hb | hb | ⟨p, key, hb⟩)
    · exact hi.custody.lt .free b hb
    · exact hi.custody.lt .destroyed b hb
    · exact hi.custody.lt (.entry p key) b hb
  · rw [Option.isSome_iff_exists]
    exact hi.entry_iff hidle p key

/-- Only the thread that acts goes on. -/
theorem act_pc {x : Action α} (h : s.act x = some (s', os)) (ht : x.thread ≠ t) : s'.pc t = s.pc t := by
  have hgoto : ∀ q r, s.goto x.thread q r = (s', os) → s'.pc t = s.pc t := by
    intro q r heq
    have hs : s' = ⟨q, Function.update s.pc x.thread (after r)⟩ := by rw [← goto_fst, heq]
    rw [hs]
    exact Function.update_of_ne ht.symm _ _
  cases x with
  | call u op =>
    simp only [act] at h
    split at h <;> cases h
    exact Function.update_of_ne ht.symm _ _
  | next u =>
    obtain ⟨r, -, hr⟩ := Option.map_eq_some_iff.mp h
    exact hgoto _ _ hr
  | insert u ok =>
    simp only [act] at h
    split at h
    · split at h
      · exact hgoto _ _ (Option.some.inj h)
      · exact hgoto _ _ (Option.some.inj h)
    · cases h
  | requisition u newBlock =>
    simp only [act] at h
    split at h
    · obtain ⟨q, -, hq⟩ := Option.map_eq_some_iff.mp h
      cases newBlock with
      | some b => exact hgoto _ _ hq
      | none => exact hgoto _ _ hq
    · cases h

/-- A thread without an action in the run is idle. -/
theorem idle_of_run {k : Nat} {as : List (Action α)} (h : trace QueueThreads.act (init k) as = some (s', os))
    (ht : ∀ x ∈ as, x.thread ≠ t) : s'.pc t = .idle :=
  trace_invariant (I := fun _ s _ => s.pc t = .idle)
    (fun _ _ _ _ _ _ _ hmem hidle hx => (act_pc hx (ht _ hmem)).trans hidle) h rfl

/-- The index of the producer has its second block, and no other. -/
theorem queue_no_leak_drained : ∃ s os, trace act (init 1) drainedRun = some (s, os) ∧
    (∀ t, s.pc t = .idle) ∧ ∀ key, ((s.queue.producers 0).blockIndex key).isSome = true ↔ key = 32 := by
  have hrun : (trace act (init 1) drainedRun).map (fun r => ((r.1.pc 0, r.1.pc 1, r.1.pc 2),
      (r.1.queue.producers 0).headIndex, (r.1.queue.producers 0).tailIndex)) =
      some ((.idle, .idle, .idle), 33, 33) := by
    decide +kernel
  obtain ⟨⟨s, os⟩, hs, hpc⟩ := Option.map_eq_some_iff.mp hrun
  simp only [Prod.mk.injEq] at hpc
  obtain ⟨⟨h0, h1, h2⟩, hhead, htail⟩ := hpc
  have hidle : ∀ t, s.pc t = .idle := by
    intro t
    match t with
    | 0 => exact h0
    | 1 => exact h1
    | 2 => exact h2
    | t + 3 =>
      refine idle_of_run hs fun x hx => ?_
      have hthread : x.thread < 3 := by
        have hall : ∀ x ∈ drainedRun, x.thread < 3 := by decide +kernel
        exact hall x hx
      omega
  refine ⟨s, os, hs, hidle, fun key => ?_⟩
  rw [(queue_no_leak 1 drainedRun s os (by decide +kernel) hs hidle).2 0 key, hhead, htail, BitVec.toNat_eq]
  change key.toNat % 32 = 0 ∧ key.toNat < 33 ∧ 33 < key.toNat + 32 ↔ key.toNat = 32
  omega

end QueueThreads

end Us2d
