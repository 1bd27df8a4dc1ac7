import Us2dServer.BlockIndexSteps

/-!
# The law of the queue with its block indexes

Whatever the threads do, as long as fewer than `2 ^ 62` accesses have been made (those of the look-up,
of the insertion, of the growth and of the rewinding of a block index among them):

    what is observed of the queue is observed of a FIFO sub-queue for each producer
                                                                  (indexed_linearizable)
    every access that is due is defined                           (indexed_access_defined)

Only the pool of the blocks is atomic.
-/

namespace Us2d

open Transition AtomicObject

namespace IndexedThreads

variable {α : Type}

variable {s s' : IndexedThreads α} {maps maps' : Nat → Index → Option Nat} {gs gs' : Nat → IndexGhost}
  {gh : Nat → QueueGhost α} {n t p : Nat} {c : IndexedPc α} {q : IndexedQueue α} {r : IndexedPc α ⊕ QueueRes α}
  {os : List (Observed (QueueOp α) (QueueRes α))}

/-! ## Runs -/

/-- **Each access of the queue with its indexes is none or one of the queue with the maps.** -/
theorem access_follows (hi : Indexed s.queue s.pc maps gs) (ha : (s.abs maps).Inv gh n) (hn : n < 2 ^ 62)
    (h : s.queue.access t (s.pc t) = some (q, r)) : s.Follows maps t q r := by
  cases hp : s.pc t with
  | loadTail x => exact access_loadTail hi hp h
  | loadHead x cur => exact access_loadHead hi hp h
  | insertEntry x cur => exact access_insertEntry hi ha hn hp h
  | checkValue x cur newTail e => exact access_checkValue hi ha hn hp h
  | storeKey x cur newTail e => exact access_storeKey hi ha hn hp h
  | storeIndexTail x cur newTail e => exact access_storeIndexTail hi ha hn hp h
  | rewindTail x cur e => exact access_rewindTail hi ha hn hp h
  | clearFailed x cur e => exact access_clearFailed hi ha hn hp h
  | resetEmpty x cur b e => exact access_resetEmpty hi hp h
  | storeEntry x cur b e => exact access_storeEntry hi ha hn hp h
  | construct x cur => exact access_construct hi hp h
  | storeTail x cur => exact access_storeTail hi ha hn hp h
  | readTail p => exact access_read hi (.inl hp) h
  | readOvercommit p tail => exact access_read hi (.inr ⟨_, hp⟩) h
  | readOptimistic p tail overcommit => exact access_readOptimistic hi hp h
  | addOptimistic p overcommit => exact access_counter hi (.inl ⟨_, hp⟩) h
  | rereadTail p overcommit my => exact access_rereadTail hi hp h
  | addHead p my => exact access_counter hi (.inr (.inl ⟨_, hp⟩)) h
  | addOvercommit p my => exact access_counter hi (.inr (.inr ⟨_, hp⟩)) h
  | loadIndex p i => exact access_loadIndex hi ha hp h
  | loadIndexTail p i k => exact access_loadIndexTail hi ha hp h
  | loadTailKey p i k tail => exact access_loadTailKey hi ha hn hp h
  | loadEntry p i k idx => exact access_loadEntry hi ha hp h
  | moveElement p i b e => exact access_moveElement hi hp h
  | setEmpty p i b e x => exact access_setEmpty hi hp h
  | clearEntry p i b e x => exact access_clearEntry hi ha hn hp h
  | giveBlock b x => exact access_giveBlock hi hp h
  | idle =>
    rw [hp] at h
    cases h
  | growIndex x cur =>
    rw [hp] at h
    cases h
  | requisition x cur e =>
    rw [hp] at h
    cases h

/-- **Each step of the queue with its indexes is none or one of the queue with the maps.** -/
theorem act_follows {x : Action α} (hi : Indexed s.queue s.pc maps gs) (ha : (s.abs maps).Inv gh n)
    (hn : n < 2 ^ 62) (h : s.act x = some (s', os)) :
    ∃ bs maps' gs', bs.length ≤ 1 ∧
      trace QueueThreads.act (s.abs maps) bs = some (s'.abs maps', os) ∧
      Indexed s'.queue s'.pc maps' gs' := by
  have hgoto : ∀ t q r, s.goto t q r = (s', os) → s.Follows maps t q r →
      ∃ bs maps' gs', bs.length ≤ 1 ∧
      trace QueueThreads.act (s.abs maps) bs = some (s'.abs maps', os) ∧
      Indexed s'.queue s'.pc maps' gs' := by
    rintro t q r heq ⟨bs, maps', gs', hlen, htrace, hinv⟩
    refine ⟨bs, maps', gs', hlen, by rw [htrace, heq], ?_⟩
    rw [show s' = (s.goto t q r).1 by rw [heq], goto_fst]
    exact hinv
  cases x with
  | call t op =>
    simp only [act] at h
    split at h
    · next hp =>
      cases h
      have hidle : (s.abs maps).pc t = .idle := by
        show (s.pc t).abs = _
        rw [hp]
        rfl
      have hstart : (start op).abs = QueueThreads.start op := by cases op <;> rfl
      refine ⟨[.call t op], maps, gs, by simp, trace_singleton ?_, ?_⟩
      · simp only [QueueThreads.act, hidle]
        simp only [abs, abs_update, hstart]
      · refine hi.goes (fun _ => rfl) (fun _ _ => rfl) ((hi t).owned.steps rfl rfl ?_ ?_) fun p => ?_
        all_goals cases op
        all_goals first | trivial | (rw [hp]; rfl)
    · cases h
  | next t =>
    obtain ⟨⟨q, r⟩, haccess, heq⟩ := Option.map_eq_some_iff.mp h
    exact hgoto t q r heq (access_follows hi ha hn haccess)
  | grow t ok =>
    simp only [act] at h
    split at h
    · next x cur hp =>
      split at h
      · obtain ⟨c, hc, heq⟩ := Option.map_eq_some_iff.mp h
        exact hgoto t _ _ heq (grow_follows hi ha hn hp hc)
      · refine hgoto t _ _ (Option.some.inj h) (follows_one (x := .insert t false) ?_
          (hi.goes (fun _ => rfl) (fun _ _ => rfl) ((hi t).owned.steps rfl rfl (by rw [hp]; rfl) rfl)
            fun _ => trivial))
        simp only [QueueThreads.act, abs, hp, IndexedPc.abs]
        rfl
    · cases h
  | requisition t newBlock =>
    simp only [act] at h
    split at h
    · next x cur e hp =>
      obtain ⟨q, hq, heq⟩ := Option.map_eq_some_iff.mp h
      have hproducers := IndexedQueue.requisitionBlock_producers hq
      have hown := (hi t).owned
      rw [hp] at hown
      cases newBlock with
      | none =>
        cases hq
        exact hgoto t _ _ heq (follows_none rfl (by rw [hp]; rfl) (hi.goes (fun _ => rfl) (fun _ _ => rfl)
          (hown.goes rfl rfl (fun _ => id) (fun _ => rfl) hown.own) fun _ => trivial))
      | some b =>
        refine hgoto t _ _ heq (follows_one (x := .requisition t (some b)) ?_
          (hi.goes (fun p => by rw [hproducers]) (fun p _ => by rw [hproducers])
            (hown.goes (by rw [hproducers]) (by rw [hproducers]) (fun _ => id) (fun _ => rfl) hown.own)
            fun _ => trivial))
        simp only [QueueThreads.act, abs, hp, IndexedPc.abs, IndexedQueue.abs_requisitionBlock, hq]
        rfl
    · cases h

/-- No index has a block yet. -/
def emptyGhost : IndexGhost := ⟨0, fun _ => 0, fun _ => 0, fun _ => 0, fun e => e⟩

/-- What the constructor of a producer makes. -/
theorem ring_init : IndexRing BlockIndex.empty.newBlockIndex (fun _ => none) 0 emptyGhost := by
  have hheader : BlockIndex.empty.newBlockIndex.headers 0 = ⟨32, 31, fun i => i⟩ := by
    simp only [BlockIndex.newBlockIndex, BlockIndex.empty, Function.update_self]
    refine BlockIndexHeader.mk.injEq _ _ _ _ _ _ ▸ ⟨rfl, by decide, ?_⟩
    funext i
    simp
  have hentry : ∀ e, BlockIndex.empty.newBlockIndex.entries e = ⟨INVALID_BLOCK_BASE, none⟩ := by
    intro e
    show (if 0 ≤ e ∧ e < 0 + 32 then (⟨INVALID_BLOCK_BASE, none⟩ : BlockIndexEntry)
      else ⟨INVALID_BLOCK_BASE, none⟩) = _
    rw [ite_self]
  refine {
    current := rfl
    count := rfl
    windows := ?_
    next := by rw [show emptyGhost.cur = 0 from rfl, hheader]; rfl
    fresh := by rw [show emptyGhost.cur = 0 from rfl, hheader]; exact fun j hj => hj
    inj := by rw [show emptyGhost.cur = 0 from rfl, hheader]; exact fun _ _ _ _ h => h
    high_le := Nat.zero_le _
    older := fun h hh => absurd hh (Nat.not_lt_zero h)
    base_le := Nat.le_refl _
    begun_le := Nat.le_refl _
    top_le := Nat.zero_le _
    room := by rw [show emptyGhost.cur = 0 from rfl, hheader]; exact Nat.le_add_left _ _
    keys := fun m _ _ hm => absurd hm (Nat.not_lt_zero m)
    unused := fun _ _ _ => by rw [hentry]; exact ⟨rfl, rfl⟩
    live := fun _ _ h => absurd rfl h }
  intro h hh
  obtain rfl := Nat.le_zero.mp hh
  rw [hheader]
  exact ⟨⟨5, by decide, by decide⟩, Nat.le_refl _, Nat.le_refl _, by decide, by decide,
    fun m _ _ hm => absurd hm (Nat.not_lt_zero m)⟩

theorem indexed_init (k : Nat) (built : Nat → Bool) :
    Indexed (init k built : IndexedThreads α).queue (init k built : IndexedThreads α).pc (fun _ _ => none)
      fun _ => emptyGhost := by
  intro p
  refine ⟨?_, fun _ => trivial⟩
  cases hb : built p with
  | false =>
    have hnone : (newProducer (built p)).index.blockIndex = none := by rw [hb]; rfl
    exact ⟨fun _ => ⟨fun _ => rfl, rfl⟩, fun h => absurd hnone h, fun h => absurd hnone h, fun _ => trivial⟩
  | true =>
    have hindex : (newProducer (built p)).index = BlockIndex.empty.newBlockIndex := by rw [hb]; rfl
    have hsome : (newProducer (built p)).index.blockIndex ≠ none := by
      rw [hindex]
      exact fun h => by cases h
    refine ⟨fun h => absurd h hsome, fun _ => ?_, fun _ => show 0 = begun 0 by decide, fun _ => trivial⟩
    show IndexRing (newProducer (built p)).index (fun _ => none) (begun 0) emptyGhost
    rw [hindex, show begun 0 = 0 by decide]
    exact ring_init

/-- What a run keeps. -/
theorem run_indexed {k : Nat} {built : Nat → Bool} {as : List (Action α)} (hlen : as.length < 2 ^ 62)
    (h : trace act (init k built) as = some (s', os)) :
    ∃ bs maps gs, bs.length ≤ as.length ∧
      trace QueueThreads.act (QueueThreads.init k) bs = some (s'.abs maps, os) ∧
      Indexed s'.queue s'.pc maps gs := by
  refine trace_invariant (I := fun n s os => ∃ bs maps gs, bs.length ≤ n ∧
    trace QueueThreads.act (QueueThreads.init k) bs = some (s.abs maps, os) ∧
    Indexed s.queue s.pc maps gs) ?_ h ?_
  · rintro n s os x s' o hn - ⟨bs, maps, gs, hbs, htrace, hi⟩ hx
    obtain ⟨gh, -, -, ha, -, -⟩ := QueueThreads.run_inv (by omega) htrace
    obtain ⟨cs, maps', gs', hcs, htrace', hi'⟩ := act_follows hi ha (by omega) hx
    refine ⟨bs ++ cs, maps', gs', ?_, trace_append htrace htrace', hi'⟩
    rw [List.length_append]
    omega
  · exact ⟨[], fun _ _ => none, fun _ => emptyGhost, Nat.le_refl _, rfl, indexed_init k built⟩

/-- **The queue with its block indexes is a FIFO sub-queue for each producer.**  Whatever the order of
the accesses, those to the block indexes among them, what is observed of the queue is observed of atomic
sub-queues. -/
theorem indexed_linearizable (k : Nat) (built : Nat → Bool) (as : List (Action α)) (s : IndexedThreads α)
    (os : List (Observed (QueueOp α) (QueueRes α))) (hlen : as.length < 2 ^ 62)
    (h : trace act (init k built) as = some (s, os)) :
    ∃ bs a, trace (RelationalObject.act QueueThreads.allows) (AtomicObject.idle SubQueues.empty) bs =
      some (a, os) := by
  obtain ⟨bs, maps, gs, hbs, htrace, -⟩ := run_indexed hlen h
  obtain ⟨-, a, cs, -, -, hcs⟩ := QueueThreads.run_inv (by omega) htrace
  exact ⟨cs, a, hcs⟩

/-- Two consumers and one element, as with the maps; the second ticket is given back. -/
def indexRace : List (Action Nat) :=
  [.call 0 (.enqueue 7), .next 0, .next 0, .next 0, .next 0, .next 0, .requisition 0 (some 0), .next 0,
    .next 0, .next 0, .call 1 (.dequeue 0), .call 2 (.dequeue 0), .next 0, .next 1, .next 2, .next 1, .next 2,
    .next 1, .next 2, .next 2, .next 1, .next 1, .next 2, .next 1, .next 2, .next 2, .next 2, .next 2, .next 2,
    .next 2, .next 2]

def indexRaceObserved : List (Observed (QueueOp Nat) (QueueRes Nat)) :=
  [.called 0 (.enqueue 7), .called 1 (.dequeue 0), .called 2 (.dequeue 0), .returned 0 (.enqueued true),
    .returned 1 (.dequeued none), .returned 2 (.dequeued (some 7))]

theorem indexed_linearizable_race : ∃ bs a,
    trace (RelationalObject.act QueueThreads.allows) (AtomicObject.idle SubQueues.empty) bs =
      some (a, indexRaceObserved) := by
  have hrun : (trace act (init 0 fun _ => true) indexRace).map Prod.snd = some indexRaceObserved := by
    decide +kernel
  obtain ⟨⟨s, os⟩, hs, rfl⟩ := Option.map_eq_some_iff.mp hrun
  exact indexed_linearizable 0 _ indexRace s _ (by decide) hs

/-! ## Defined accesses -/

theorem access_isSome (hi : Indexed s.queue s.pc maps gs) (ha : (s.abs maps).Inv gh n) (hn : n < 2 ^ 62)
    (hidle : s.pc t ≠ .idle) (hgrow : ∀ x cur, s.pc t ≠ .growIndex x cur)
    (hrequisition : ∀ x cur e, s.pc t ≠ .requisition x cur e) :
    (s.queue.access t (s.pc t)).isSome = true := by
  have hbuilding : ∀ {cur}, (s.pc t).indexed = true → (s.pc t).abs.building = false →
      cur = (s.queue.producers t).tailIndex ∧ cur.toNat % 32 = 0 → s.Building maps t (gs t) cur :=
    fun hidx hb hok => hi.building ha hn (hi.built hidx) hok hb
  -- the accesses that the queue with the maps makes too
  have hsame : ((s.pc t).abs ≠ .idle) → (∀ x cur, (s.pc t).abs ≠ .insertEntry x cur) →
      (∀ x cur, (s.pc t).abs ≠ .requisition x cur) →
      ((s.queue.abs maps).access t (s.pc t).abs).isSome = true := fun h h' h'' =>
    ha.access_isSome h h' h''
  cases hp : s.pc t with
  | idle => exact absurd hp hidle
  | growIndex x cur => exact absurd hp (hgrow x cur)
  | requisition x cur e => exact absurd hp (hrequisition x cur e)
  | insertEntry x cur =>
    by_cases hbuilt : (s.queue.producers t).index.blockIndex = none
    · simp only [IndexedQueue.access, IndexedQueue.insertBlockIndexEntry, hbuilt]
      rfl
    · have hb := hi.building ha hn hbuilt (inserting ha (by rw [hp]; rfl)) (by rw [hp]; rfl)
      simp only [IndexedQueue.access, insertBlockIndexEntry_eq hb.ring]
      rfl
  | storeIndexTail x cur newTail e =>
    have hb := hbuilding (by rw [hp]; rfl) (by rw [hp]; rfl) (inserting ha (by rw [hp]; rfl))
    simp only [IndexedQueue.access, hb.ring.current]
    rfl
  | rewindTail x cur e =>
    have hb := hbuilding (by rw [hp]; rfl) (by rw [hp]; rfl) (requisitioning ha (by rw [hp]; rfl))
    simp only [IndexedQueue.access, hb.ring.current]
    rfl
  | loadIndex p i =>
    rw [loadIndex_eq hi ha hp]
    rfl
  | loadTailKey p i k tail =>
    rw [(loadTailKey_eq hi ha hn hp).2]
    rfl
  | loadEntry p i k idx =>
    rw [loadEntry_eq hi ha hp, Option.isSome_map, Option.isSome_iff_ne_none]
    exact (reading_live ha (by rw [hp]; rfl)).1
  | loadHead x cur =>
    simp only [IndexedQueue.access]
    split <;> rfl
  | readOptimistic p tail overcommit =>
    simp only [IndexedQueue.access]
    split <;> rfl
  | resetEmpty x cur b e =>
    have h := hsame (by rw [hp]; simp [IndexedPc.abs]) (by rw [hp]; simp [IndexedPc.abs])
      (by rw [hp]; simp [IndexedPc.abs])
    rw [hp] at h
    simpa only [IndexedQueue.access, IndexedPc.abs, ConcurrentQueue.access, IndexedQueue.abs_deref,
      Option.isSome_map] using h
  | construct x cur =>
    have h := hsame (by rw [hp]; simp [IndexedPc.abs]) (by rw [hp]; simp [IndexedPc.abs])
      (by rw [hp]; simp [IndexedPc.abs])
    rw [hp] at h
    simp only [IndexedQueue.access, IndexedPc.abs, ConcurrentQueue.access, IndexedQueue.abs_deref,
      Option.isSome_bind, Option.isSome_map] at h ⊢
    exact h
  | moveElement p i b e =>
    have h := hsame (by rw [hp]; simp [IndexedPc.abs]) (by rw [hp]; simp [IndexedPc.abs])
      (by rw [hp]; simp [IndexedPc.abs])
    rw [hp] at h
    simpa only [IndexedQueue.access, IndexedPc.abs, ConcurrentQueue.access, IndexedQueue.abs_deref,
      Option.isSome_bind, Option.isSome_map] using h
  | setEmpty p i b e x =>
    have h := hsame (by rw [hp]; simp [IndexedPc.abs]) (by rw [hp]; simp [IndexedPc.abs])
      (by rw [hp]; simp [IndexedPc.abs])
    rw [hp] at h
    simpa only [IndexedQueue.access, IndexedPc.abs, ConcurrentQueue.access, IndexedQueue.abs_deref,
      Option.isSome_map] using h
  | _ => rfl

/-- **No access is undefined.**  In every state of every run, each thread that is inside a call can make
its next access: there is an index to look in, the assertions on its keys and values hold, the place that
the consumer comes to has the entry of its block, and the block and its slot are as with the maps.  If
there is memory for a new ring, the entry after its tail is free. -/
theorem indexed_access_defined (k : Nat) (built : Nat → Bool) (as : List (Action α)) (s : IndexedThreads α)
    (os : List (Observed (QueueOp α) (QueueRes α))) (hlen : as.length < 2 ^ 62)
    (h : trace act (init k built) as = some (s, os)) (t : Nat) (ht : s.pc t ≠ .idle) :
    (∃ x : Action α, x.thread = t ∧ (s.act x).isSome = true) ∧
      ∀ x cur, s.pc t = .growIndex x cur → (s.act (.grow t true)).isSome = true := by
  obtain ⟨bs, maps, gs, hbs, htrace, hi⟩ := run_indexed hlen h
  obtain ⟨gh, -, -, ha, -, -⟩ := QueueThreads.run_inv (by omega) htrace
  refine ⟨?_, fun x cur hp => ?_⟩
  rotate_left
  · obtain ⟨c, hc⟩ := grow_defined hi ha (by omega) hp
    simp only [act, hp, if_true, hc]
    rfl
  by_cases hgrow : ∃ x cur, s.pc t = .growIndex x cur
  · obtain ⟨x, cur, hp⟩ := hgrow
    refine ⟨.grow t false, rfl, ?_⟩
    simp only [act, hp]
    rfl
  · by_cases hrequisition : ∃ x cur e, s.pc t = .requisition x cur e
    · obtain ⟨x, cur, e, hp⟩ := hrequisition
      refine ⟨.requisition t none, rfl, ?_⟩
      simp only [act, hp]
      rfl
    · refine ⟨.next t, rfl, ?_⟩
      have hsome := access_isSome hi ha (by omega) ht (fun x cur hp => hgrow ⟨x, cur, hp⟩)
        fun x cur e hp => hrequisition ⟨x, cur, e, hp⟩
      simpa only [act, Option.isSome_map] using hsome

/-- An `enqueue` of thread 0: with a block, it starts that block. -/
def enqueueRun (x : Nat) : Option Nat → List (Action Nat)
  | some b => [.call 0 (.enqueue x), .next 0, .next 0, .next 0, .next 0, .next 0, .requisition 0 (some b),
      .next 0, .next 0, .next 0, .next 0]
  | none => [.call 0 (.enqueue x), .next 0, .next 0, .next 0]

/-- Thread 2 takes index 0 and loads the tail; the producer fills the block and starts another; thread 1
takes index 1, loads the tail and finds its place from there. -/
def staleRun : List (Action Nat) :=
  enqueueRun 0 (some 0) ++ .call 2 (.dequeue 0) :: List.replicate 8 (.next 2) ++
    (List.range 31).flatMap (fun x => enqueueRun (x + 1) none) ++ enqueueRun 32 (some 1) ++
    .call 1 (.dequeue 0) :: List.replicate 9 (.next 1)

theorem indexed_access_defined_stale : ∃ s os, trace act (init 0 fun _ => true) staleRun = some (s, os) ∧
    s.pc 2 = .loadTailKey 0 0 0 0 ∧ s.pc 1 = .loadEntry 0 1 0 0 ∧
    ∀ t, t = 1 ∨ t = 2 → ∃ x : Action Nat, x.thread = t ∧ (s.act x).isSome = true := by
  have hrun : (trace act (init 0 fun _ => true) staleRun).map (fun r => (r.1.pc 2, r.1.pc 1)) =
      some (.loadTailKey 0 0 0 0, .loadEntry 0 1 0 0) := by
    decide +kernel
  obtain ⟨⟨s, os⟩, hs, hpc⟩ := Option.map_eq_some_iff.mp hrun
  simp only [Prod.mk.injEq] at hpc
  refine ⟨s, os, hs, hpc.1, hpc.2, fun t ht => (indexed_access_defined 0 _ _ s os (by decide +kernel) hs t ?_).1⟩
  rcases ht with rfl | rfl
  · rw [hpc.2]
    simp
  · rw [hpc.1]
    simp

end IndexedThreads

end Us2d
