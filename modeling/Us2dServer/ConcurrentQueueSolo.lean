import Us2dServer.ConcurrentQueueLaw

/-!
# The concurrent queue with one consumer

The server's only consumer is its main loop.  A consumer that is alone never draws a ticket in vain:
the failures that it counts are none, and before it draws, the tickets drawn are the indexes taken.
So `dequeue` misses only if nothing waited at the producer when it read `tailIndex`, and the queue
is a FIFO sub-queue for each producer with `removeHead` as it stands
(`queue_linearizable_one_consumer`).
-/

namespace Us2d

open Transition AtomicObject

namespace QueuePc

variable {α : Type}

/-- The tickets of the producer that the thread has drawn and has no index for yet. -/
def drawn (p : Nat) : QueuePc α → Index
  | .rereadTail p' _ _ => if p' = p then 1 else 0
  | .addHead p' _ => if p' = p then 1 else 0
  | _ => 0

/-- What the only consumer knows. -/
def Sees (producers : Nat → ImplicitProducer) : QueuePc α → Prop
  | .readOvercommit p tail => tail.toNat ≤ (producers p).tailIndex.toNat
  | .readOptimistic p tail overcommit => tail.toNat ≤ (producers p).tailIndex.toNat ∧ overcommit = 0
  | .addOptimistic p overcommit =>
    overcommit = 0 ∧ (producers p).headIndex.toNat < (producers p).tailIndex.toNat
  | .rereadTail p overcommit my => overcommit = 0 ∧ my = (producers p).headIndex ∧
    (producers p).headIndex.toNat < (producers p).tailIndex.toNat
  | .addOvercommit _ _ => False
  | _ => True

variable {c : QueuePc α} {producers producers' : Nat → ImplicitProducer}

theorem drawn_of_not_consuming (h : c.consuming = false) (p : Nat) : c.drawn p = 0 := by
  cases c <;> first | rfl | cases h

theorem sees_of_not_consuming (h : c.consuming = false) : c.Sees producers := by
  cases c <;> trivial

theorem Sees.mono (h : c.Sees producers)
    (hhead : ∀ p, (producers' p).headIndex = (producers p).headIndex)
    (htail : ∀ p, (producers p).tailIndex.toNat ≤ (producers' p).tailIndex.toNat) :
    c.Sees producers' := by
  cases c with
  | readOvercommit p tail => exact Nat.le_trans h (htail p)
  | readOptimistic p tail overcommit => exact ⟨Nat.le_trans h.1 (htail p), h.2⟩
  | addOptimistic p overcommit =>
    refine ⟨h.1, ?_⟩
    rw [hhead]
    exact Nat.lt_of_lt_of_le h.2 (htail p)
  | rereadTail p overcommit my =>
    refine ⟨h.1, ?_, ?_⟩
    · rw [hhead]
      exact h.2.1
    · rw [hhead]
      exact Nat.lt_of_lt_of_le h.2.2 (htail p)
  | addOvercommit p my => exact h
  | _ => trivial

end QueuePc

namespace QueueThreads

variable {α : Type} {s s' : QueueThreads α} {gh gh' : Nat → QueueGhost α} {n t p w : Nat}
  {c : QueuePc α} {q : ConcurrentQueue α} {r : QueuePc α ⊕ QueueRes α}

/-- `w` is the only consumer. -/
structure Solo (w : Nat) (s : QueueThreads α) : Prop where
  only : ∀ t, (s.pc t).consuming = true → t = w
  overcommit : ∀ p, (s.queue.producers p).dequeueOvercommit = 0
  count : ∀ p, (s.queue.producers p).dequeueOptimisticCount =
    (s.queue.producers p).headIndex + (s.pc w).drawn p
  sees : (s.pc w).Sees s.queue.producers

/-! ## Other threads -/

/-- The counters of the consumers stand still, and the tail does not go back. -/
structure Undisturbed (P P' : ImplicitProducer) : Prop where
  head : P'.headIndex = P.headIndex
  optimistic : P'.dequeueOptimisticCount = P.dequeueOptimisticCount
  overcommit : P'.dequeueOvercommit = P.dequeueOvercommit
  tail : P.tailIndex.toNat ≤ P'.tailIndex.toNat

theorem Undisturbed.refl (P : ImplicitProducer) : Undisturbed P P := ⟨rfl, rfl, rfl, Nat.le_refl _⟩

/-- A step of a thread outside `dequeue`. -/
theorem Solo.frame (h : Solo w s) (hpc : s'.pc = Function.update s.pc t c)
    (hold : (s.pc t).consuming = false) (hnew : c.consuming = false)
    (hframe : ∀ p, Undisturbed (s.queue.producers p) (s'.queue.producers p)) : Solo w s' where
  only := by
    intro u hu
    rw [hpc] at hu
    by_cases hut : u = t
    · subst hut
      rw [Function.update_self, hnew] at hu
      cases hu
    · rw [Function.update_of_ne hut] at hu
      exact h.only u hu
  overcommit := fun p => (hframe p).overcommit.trans (h.overcommit p)
  count := by
    intro p
    have hdrawn : (s'.pc w).drawn p = (s.pc w).drawn p := by
      rw [hpc]
      by_cases hwt : w = t
      · subst hwt
        rw [Function.update_self, QueuePc.drawn_of_not_consuming hnew, QueuePc.drawn_of_not_consuming hold]
      · rw [Function.update_of_ne hwt]
    rw [hdrawn, (hframe p).head, (hframe p).optimistic]
    exact h.count p
  sees := by
    rw [hpc]
    by_cases hwt : w = t
    · subst hwt
      rw [Function.update_self]
      exact QueuePc.sees_of_not_consuming hnew
    · rw [Function.update_of_ne hwt]
      exact h.sees.mono (fun p => (hframe p).head) fun p => (hframe p).tail

/-- `enqueue` touches no counter of the consumers, and its tail only grows. -/
theorem Inv.enqueue_frame (hi : s.Inv gh n) (hn : n < 2 ^ 62) (hold : (s.pc t).consuming = false)
    (h : s.queue.access t (s.pc t) = some (q, r)) :
    (after r).consuming = false ∧ ∀ p, Undisturbed (s.queue.producers p) (q.producers p) := by
  have hproducer : ∀ {P : ImplicitProducer}, Undisturbed (s.queue.producers t) P →
      ∀ p, Undisturbed (s.queue.producers p) ((s.queue.setProducer t P).producers p) := by
    intro P hP
    exact (Function.forall_update_iff s.queue.producers
      fun p P' => Undisturbed (s.queue.producers p) P').mpr ⟨hP, fun _ _ => .refl _⟩
  have hsame : ∀ p, Undisturbed (s.queue.producers p) (s.queue.producers p) := fun _ => .refl _
  cases hp : s.pc t <;> rw [hp] at h hold <;>
    simp only [ConcurrentQueue.access, reduceCtorEq, QueuePc.consuming] at h hold
  case loadTail x =>
    cases h
    refine ⟨?_, hsame⟩
    simp only [after]
    split <;> rfl
  case loadHead x cur => split at h <;> cases h <;> exact ⟨rfl, hsame⟩
  case resetEmpty x cur b =>
    obtain ⟨B, -, hr⟩ := Option.map_eq_some_iff.mp h
    cases hr
    exact ⟨rfl, hsame⟩
  case storeEntry x cur b =>
    cases h
    exact ⟨rfl, hproducer ⟨rfl, rfl, rfl, Nat.le_refl _⟩⟩
  case construct x cur =>
    obtain ⟨b, -, hr⟩ := Option.bind_eq_some_iff.mp h
    obtain ⟨B, -, hr⟩ := Option.map_eq_some_iff.mp hr
    cases hr
    exact ⟨rfl, hsame⟩
  case storeTail x cur =>
    have hok := (hi.producer t).threads t (by rw [hp]; rfl)
    rw [hp] at hok
    have htail := (hi.producer t).tail
    have hsmall := hi.small t
    have hsucc : (cur + 1).toNat = cur.toNat + 1 :=
      toNat_succ (n := 2 ^ 62) (by rw [hok.1]; omega) (by decide)
    cases h
    refine ⟨rfl, hproducer ⟨rfl, rfl, rfl, ?_⟩⟩
    show _ ≤ (1 + cur).toNat
    rw [BitVec.add_comm, hsucc, hok.1]
    omega

/-! ## The consumer -/

/-- The sub-queues with `removeHead` as it stands: `dequeue` misses only if nothing waits. -/
def allowsSolo (thread : Nat) : QueueOp α → SubQueues α → QueueRes α → SubQueues α → Prop
  | .enqueue x, q, .enqueued true, q' => q' = q.push thread x
  | .enqueue _, q, .enqueued false, q' => q' = q
  | .dequeue p, q, .dequeued (some x), q' => q.removeHead p = some (x, q')
  | .dequeue p, q, .dequeued none, q' => q.removeHead p = none ∧ q' = q
  | _, _, _, _ => False

/-- The call that a thread is in.  What the only consumer will find is settled when it reads
`tailIndex`. -/
def soloCall (producers : Nat → ImplicitProducer) (gh : Nat → QueueGhost α) :
    QueuePc α → Call (QueueOp α) (QueueRes α)
  | .readOvercommit p tail =>
    if tail.toNat ≤ (producers p).headIndex.toNat then .done (.dequeued none) else .pending (.dequeue p)
  | .readOptimistic p tail _ =>
    if tail.toNat ≤ (producers p).headIndex.toNat then .done (.dequeued none) else .pending (.dequeue p)
  | c => callOf gh c

theorem soloCall_of_not_consuming {producers : Nat → ImplicitProducer} (h : c.consuming = false) :
    soloCall producers gh c = callOf gh c := by
  cases c <;> first | rfl | cases h

variable {x x' : Nat → List α} {k : Call (QueueOp α) (QueueRes α)}
  {kr : Call (QueueOp α) (QueueRes α) ⊕ QueueRes α}

theorem serves_empty (h : x p = []) : Serves allowsSolo t (.dequeue p) x (.dequeued none) x := by
  rintro q rfl
  refine ⟨q, ⟨?_, rfl⟩, rfl⟩
  cases hr : q.removeHead p with
  | none => rfl
  | some r =>
    obtain ⟨rest, hrest, -⟩ := SubQueues.removeHead_eq_some hr
    rw [h] at hrest
    cases hrest

/-- Only a miss makes a difference. -/
theorem Linear.solo (h : Linear allows t x x' k kr) (hk : ∀ p, k ≠ .pending (.dequeue p)) :
    Linear allowsSolo t x x' k kr := by
  have henqueue : ∀ {op r}, k = .pending op → Serves allows t op x r x' → Serves allowsSolo t op x r x' := by
    intro op r hop hs q hq
    obtain ⟨q', hallows, hitems⟩ := hs q hq
    refine ⟨q', ?_, hitems⟩
    cases op with
    | dequeue p => exact absurd hop (hk p)
    | enqueue a =>
      cases r with
      | enqueued ok => cases ok <;> exact hallows
      | dequeued e => exact hallows
  cases h with
  | silent hk' hx => exact .silent hk' hx
  | effect hop hs => exact .effect hop (henqueue hop hs)
  | answer hop hs => exact .answer hop (henqueue hop hs)
  | ret hdone hx => exact .ret hdone hx

theorem Linear.eq_of_pending {op : QueueOp α} (h : Linear allows t x x' k (.inl (.pending op))) :
    k = .pending op ∧ x' = x := by
  cases h with
  | silent hk hx => exact ⟨hk.symm, hx⟩

/-- A step of the consumer. -/
theorem Solo.consumer (h : Solo w s) (hpc : s'.pc = Function.update s.pc w c)
    (hovercommit : ∀ p, (s'.queue.producers p).dequeueOvercommit = (s.queue.producers p).dequeueOvercommit)
    (hcount : ∀ p, (s'.queue.producers p).dequeueOptimisticCount =
      (s'.queue.producers p).headIndex + c.drawn p)
    (hsees : c.Sees s'.queue.producers) : Solo w s' where
  only := by
    intro u hu
    by_contra hne
    rw [hpc, Function.update_of_ne hne] at hu
    exact hne (h.only u hu)
  overcommit := fun p => (hovercommit p).trans (h.overcommit p)
  count := by
    rw [hpc, Function.update_self]
    exact hcount
  sees := by
    rw [hpc, Function.update_self]
    exact hsees

/-- A step of the consumer that leaves the counters alone. -/
theorem Solo.quiet (h : Solo w s) (hpc : s'.pc = Function.update s.pc w c)
    (hcounters : ∀ p, (s'.queue.producers p).headIndex = (s.queue.producers p).headIndex ∧
      (s'.queue.producers p).dequeueOptimisticCount = (s.queue.producers p).dequeueOptimisticCount ∧
      (s'.queue.producers p).dequeueOvercommit = (s.queue.producers p).dequeueOvercommit)
    (hdrawn : ∀ p, c.drawn p = (s.pc w).drawn p) (hsees : c.Sees s'.queue.producers) : Solo w s' := by
  refine h.consumer hpc (fun p => (hcounters p).2.2) (fun p => ?_) hsees
  rw [(hcounters p).1, (hcounters p).2.1, hdrawn]
  exact h.count p

/-- Before it draws, the tickets drawn are the indexes taken. -/
theorem Solo.count_eq (h : Solo w s) (hdrawn : (s.pc w).drawn p = 0) :
    (s.queue.producers p).dequeueOptimisticCount = (s.queue.producers p).headIndex := by
  rw [h.count p, hdrawn]
  exact BitVec.add_zero _

/-- What an access of the consumer is, when it is alone. -/
structure AdvancesSolo (w : Nat) (s : QueueThreads α) (gh : Nat → QueueGhost α) (n : Nat)
    (q : ConcurrentQueue α) (r : QueuePc α ⊕ QueueRes α) (gh' : Nat → QueueGhost α) : Prop where
  advances : s.Advances gh n w q r gh'
  solo : Solo w ⟨q, Function.update s.pc w (after r)⟩
  linear : Linear allowsSolo w (s.waiting gh) (waiting ⟨q, s.pc⟩ gh')
    (soloCall s.queue.producers gh (s.pc w)) (r.map (soloCall q.producers gh') id)

theorem Solo.readTail (h : Solo w s) (hi : s.Inv gh n) (hp : s.pc w = .readTail p) :
    AdvancesSolo w s gh n s.queue (.inl (.readOvercommit p (s.queue.producers p).tailIndex)) gh where
  advances := hi.looks (by rw [hp]; rfl) (by rw [hp]; rfl) (by rw [hp]; rfl)
    (by rw [hp]; exact ⟨rfl, rfl⟩) (fun _ => .inl (by rw [hp]; rfl)) (.inl ⟨_, rfl⟩)
  solo := h.quiet rfl (fun _ => ⟨rfl, rfl, rfl⟩) (fun _ => by rw [hp]; rfl) (Nat.le_refl _)
  linear := by
    rw [hp]
    simp only [Sum.map_inl, soloCall]
    by_cases hle : (s.queue.producers p).tailIndex.toNat ≤ (s.queue.producers p).headIndex.toNat
    · rw [if_pos hle]
      have hempty : s.waiting gh p = [] := by
        rw [(hi.producer p).tail] at hle
        exact List.drop_eq_nil_of_le hle
      exact .effect rfl (serves_empty hempty)
    · rw [if_neg hle]
      exact .silent rfl rfl

theorem Solo.readOvercommit {tail : Index} (h : Solo w s) (hi : s.Inv gh n)
    (hp : s.pc w = .readOvercommit p tail) :
    AdvancesSolo w s gh n s.queue (.inl (.readOptimistic p tail (s.queue.producers p).dequeueOvercommit))
      gh where
  advances := hi.readOvercommit hp
  solo := by
    have hsees := h.sees
    rw [hp] at hsees
    exact h.quiet rfl (fun _ => ⟨rfl, rfl, rfl⟩) (fun _ => by rw [hp]; rfl) ⟨hsees, h.overcommit p⟩
  linear := by
    rw [hp]
    exact .silent rfl rfl

theorem Solo.readOptimistic {tail overcommit : Index} (h : Solo w s) (hi : s.Inv gh n) (hn : n < 2 ^ 62)
    (hp : s.pc w = .readOptimistic p tail overcommit) :
    AdvancesSolo w s gh n s.queue (if circularLessThan
      ((s.queue.producers p).dequeueOptimisticCount - overcommit) tail then .inl (.addOptimistic p overcommit)
      else .inr (.dequeued none)) gh := by
  have hsees := h.sees
  rw [hp] at hsees
  obtain ⟨hle, hzero⟩ := hsees
  have hsmall := hi.small p
  have htail := (hi.producer p).tail
  have hhead := (hi.producer p).head_le
  have hless : circularLessThan ((s.queue.producers p).dequeueOptimisticCount - overcommit) tail = true ↔
      ¬ tail.toNat ≤ (s.queue.producers p).headIndex.toNat := by
    have hsub : (s.queue.producers p).dequeueOptimisticCount - overcommit = (s.queue.producers p).headIndex := by
      rw [hzero, h.count_eq (by rw [hp]; rfl)]
      exact BitVec.sub_zero _
    rw [hsub, circularLessThan_iff (by omega) (by omega), Nat.not_le]
  by_cases hmiss : tail.toNat ≤ (s.queue.producers p).headIndex.toNat
  · rw [if_neg (fun hlt => hless.mp hlt hmiss)]
    refine ⟨hi.readOptimistic hp (.inr rfl), h.quiet rfl (fun _ => ⟨rfl, rfl, rfl⟩)
      (fun _ => by rw [hp]; rfl) trivial, .ret ?_ rfl⟩
    rw [hp]
    exact if_pos hmiss
  · rw [if_pos (hless.mpr hmiss)]
    have hlt : (s.queue.producers p).headIndex.toNat < (s.queue.producers p).tailIndex.toNat := by omega
    refine ⟨hi.readOptimistic hp (.inl rfl), h.quiet rfl (fun _ => ⟨rfl, rfl, rfl⟩)
      (fun _ => by rw [hp]; rfl) ⟨hzero, hlt⟩, .silent ?_ rfl⟩
    rw [hp]
    exact (if_neg hmiss).symm

theorem Solo.addOptimistic {overcommit : Index} (h : Solo w s) (hi : s.Inv gh n) (hn : n < 2 ^ 62)
    (hp : s.pc w = .addOptimistic p overcommit) :
    ∃ gh', AdvancesSolo w s gh n (s.queue.setProducer p { s.queue.producers p with
        dequeueOptimisticCount := (s.queue.producers p).dequeueOptimisticCount + 1 })
      (.inl (.rereadTail p overcommit (s.queue.producers p).dequeueOptimisticCount)) gh' := by
  have hsees := h.sees
  rw [hp] at hsees
  have hadv := hi.addOptimistic hn hp
  have heq := h.count_eq (p := p) (by rw [hp]; rfl)
  refine ⟨_, hadv, h.consumer rfl (field_setProducer ImplicitProducer.dequeueOvercommit rfl)
    (fun p' => ?_) ?_, ?_⟩
  · simp only [ConcurrentQueue.setProducer, after, QueuePc.drawn]
    by_cases hpp : p' = p
    · subst hpp
      rw [Function.update_self, if_pos rfl]
      show (s.queue.producers p').dequeueOptimisticCount + 1 = (s.queue.producers p').headIndex + 1
      rw [heq]
    · rw [Function.update_of_ne hpp, h.count_eq (by rw [hp]; rfl), if_neg (Ne.symm hpp)]
      exact (BitVec.add_zero _).symm
  · simp only [after, QueuePc.Sees, ConcurrentQueue.setProducer, Function.update_self]
    exact ⟨hsees.1, heq, hsees.2⟩
  · have hlinear := hadv.linear
    rw [hp] at hlinear
    rw [hp]
    exact .silent rfl (Linear.eq_of_pending hlinear).2

theorem Solo.rereadTail {overcommit my : Index} (h : Solo w s) (hi : s.Inv gh n) (hn : n < 2 ^ 62)
    (hp : s.pc w = .rereadTail p overcommit my) :
    ∃ gh', AdvancesSolo w s gh n s.queue (.inl (if circularLessThan (my - overcommit)
      (s.queue.producers p).tailIndex then .addHead p my else .addOvercommit p my)) gh' := by
  have hsees := h.sees
  rw [hp] at hsees
  obtain ⟨hzero, hmy, hlt⟩ := hsees
  obtain ⟨gh', hadv⟩ := hi.rereadTail hn hp
  have hsmall := hi.small p
  have htail := (hi.producer p).tail
  have hless : circularLessThan (my - overcommit) (s.queue.producers p).tailIndex = true := by
    have hsub : my - overcommit = (s.queue.producers p).headIndex := by
      rw [hzero, hmy]
      exact BitVec.sub_zero _
    rw [hsub, circularLessThan_iff (by omega) (by omega)]
    exact hlt
  rw [if_pos hless] at hadv ⊢
  refine ⟨gh', hadv, h.quiet rfl (fun _ => ⟨rfl, rfl, rfl⟩) (fun _ => by rw [hp]; rfl) trivial, ?_⟩
  have hlinear := hadv.linear
  rw [hp] at hlinear
  rw [hp]
  exact .silent rfl (Linear.eq_of_pending hlinear).2

theorem Solo.addHead {my : Index} (h : Solo w s) (hi : s.Inv gh n) (hn : n < 2 ^ 62)
    (hp : s.pc w = .addHead p my) :
    ∃ gh', AdvancesSolo w s gh n (s.queue.setProducer p { s.queue.producers p with
        headIndex := (s.queue.producers p).headIndex + 1 })
      (.inl (.loadEntry p (s.queue.producers p).headIndex)) gh' := by
  obtain ⟨gh', hadv⟩ := hi.addHead hn hp
  refine ⟨gh', hadv, h.consumer rfl (field_setProducer ImplicitProducer.dequeueOvercommit rfl)
    (fun p' => ?_) trivial, ?_⟩
  · have hcount := h.count p'
    simp only [hp, QueuePc.drawn] at hcount
    simp only [ConcurrentQueue.setProducer, after, QueuePc.drawn]
    by_cases hpp : p' = p
    · subst hpp
      rw [if_pos rfl] at hcount
      rw [Function.update_self, hcount]
      exact (BitVec.add_zero _).symm
    · rw [if_neg (Ne.symm hpp)] at hcount
      rw [Function.update_of_ne hpp]
      exact hcount
  · -- the index that it has taken is that of an element
    have hnew := hadv.inv.producer p
    have hok := hnew.threads w (by simp only [Function.update_self]; rfl)
    simp only [Function.update_self] at hok
    have hlt : (s.queue.producers p).headIndex.toNat < (gh' p).hist.length :=
      Nat.lt_of_lt_of_le hok.1 hnew.head_le
    have hlinear := hadv.linear
    simp only [Sum.map_inl, callOf, List.getElem?_eq_getElem hlt, hp] at hlinear
    simp only [Sum.map_inl, soloCall, callOf, List.getElem?_eq_getElem hlt, hp]
    cases hlinear with
    | silent hk hx => cases hk
    | effect hop hserves =>
      cases hop
      exact .effect rfl hserves

/-- **An access of the consumer.** -/
theorem Solo.access (h : Solo w s) (hi : s.Inv gh n) (hn : n < 2 ^ 62) (hold : (s.pc w).consuming = true)
    (haccess : s.queue.access w (s.pc w) = some (q, r)) : ∃ gh', AdvancesSolo w s gh n q r gh' := by
  -- once it has its index, nothing is different
  have hrest : (∀ p, (s.pc w).drawn p = 0 ∧ (after r).drawn p = 0) → (after r).Sees q.producers →
      (∀ p, (q.producers p).headIndex = (s.queue.producers p).headIndex ∧
        (q.producers p).dequeueOptimisticCount = (s.queue.producers p).dequeueOptimisticCount ∧
        (q.producers p).dequeueOvercommit = (s.queue.producers p).dequeueOvercommit) →
      (∀ p, callOf gh (s.pc w) ≠ .pending (.dequeue p)) →
      soloCall s.queue.producers gh (s.pc w) = callOf gh (s.pc w) →
      (∀ gh', soloCall q.producers gh' (after r) = callOf gh' (after r)) →
      ∃ gh', AdvancesSolo w s gh n q r gh' := by
    intro hdrawn hsees hcounters hcall hsame hsame'
    obtain ⟨gh', hadv⟩ := hi.access hn haccess
    refine ⟨gh', hadv, h.quiet rfl hcounters (fun p => by rw [(hdrawn p).1, (hdrawn p).2]) hsees, ?_⟩
    have hmap : r.map (soloCall q.producers gh') id = r.map (callOf gh') id := by
      cases r with
      | inl c => exact congrArg Sum.inl (hsame' gh')
      | inr r => rfl
    rw [hsame, hmap]
    exact hadv.linear.solo hcall
  cases hp : s.pc w <;> rw [hp] at haccess hold <;>
    simp only [ConcurrentQueue.access, reduceCtorEq, QueuePc.consuming, Bool.false_eq_true] at haccess hold
  case readTail p =>
    cases haccess
    exact ⟨gh, h.readTail hi hp⟩
  case readOvercommit p tail =>
    cases haccess
    exact ⟨gh, h.readOvercommit hi hp⟩
  case readOptimistic p tail overcommit =>
    have hadv := h.readOptimistic hi hn hp
    split at haccess <;> rename_i hless <;> cases haccess
    · rw [if_pos hless] at hadv
      exact ⟨gh, hadv⟩
    · rw [if_neg hless] at hadv
      exact ⟨gh, hadv⟩
  case addOptimistic p overcommit =>
    cases haccess
    exact h.addOptimistic hi hn hp
  case rereadTail p overcommit my =>
    cases haccess
    exact h.rereadTail hi hn hp
  case addHead p my =>
    cases haccess
    exact h.addHead hi hn hp
  case addOvercommit p my =>
    have hsees := h.sees
    rw [hp] at hsees
    exact hsees.elim
  case loadEntry p i =>
    obtain ⟨b, -, hr⟩ := Option.map_eq_some_iff.mp haccess
    cases hr
    exact hrest (fun _ => by rw [hp]; exact ⟨rfl, rfl⟩) trivial (fun _ => ⟨rfl, rfl, rfl⟩)
      (fun _ => by rw [hp]; simp [callOf]) (by rw [hp]; rfl) fun _ => rfl
  case moveElement p i b =>
    obtain ⟨B, -, hr⟩ := Option.bind_eq_some_iff.mp haccess
    obtain ⟨x, -, hr⟩ := Option.map_eq_some_iff.mp hr
    cases hr
    exact hrest (fun _ => by rw [hp]; exact ⟨rfl, rfl⟩) trivial (fun _ => ⟨rfl, rfl, rfl⟩)
      (fun _ => by rw [hp]; simp [callOf]) (by rw [hp]; rfl) fun _ => rfl
  case setEmpty p i b x =>
    obtain ⟨B, -, hr⟩ := Option.map_eq_some_iff.mp haccess
    split at hr <;> cases hr
    · exact hrest (fun _ => by rw [hp]; exact ⟨rfl, rfl⟩) trivial (fun _ => ⟨rfl, rfl, rfl⟩)
        (fun _ => by rw [hp]; simp [callOf]) (by rw [hp]; rfl) fun _ => rfl
    · exact hrest (fun _ => by rw [hp]; exact ⟨rfl, rfl⟩) trivial (fun _ => ⟨rfl, rfl, rfl⟩)
        (fun _ => by rw [hp]; simp [callOf]) (by rw [hp]; rfl) fun _ => rfl
  case clearEntry p i b x =>
    cases haccess
    exact hrest (fun _ => by rw [hp]; exact ⟨rfl, rfl⟩) trivial
      (fun p' => ⟨field_setProducer ImplicitProducer.headIndex (by rfl) p',
        field_setProducer ImplicitProducer.dequeueOptimisticCount (by rfl) p',
        field_setProducer ImplicitProducer.dequeueOvercommit (by rfl) p'⟩)
      (fun _ => by rw [hp]; simp [callOf]) (by rw [hp]; rfl) fun _ => rfl
  case giveBlock b x =>
    cases haccess
    have hsame : (s.queue.addBlockToFreeList b).producers = s.queue.producers := by
      unfold ConcurrentQueue.addBlockToFreeList
      split <;> rfl
    exact hrest (fun _ => by rw [hp]; exact ⟨rfl, rfl⟩) trivial
      (fun _ => by rw [hsame]; exact ⟨rfl, rfl, rfl⟩)
      (fun _ => by rw [hp]; simp [callOf]) (by rw [hp]; rfl) fun _ => rfl


/-! ## Runs -/

theorem soloCall_congr {producers producers' : Nat → ImplicitProducer}
    (hhead : ∀ p, (producers' p).headIndex = (producers p).headIndex) (hcall : callOf gh' c = callOf gh c) :
    soloCall producers' gh' c = soloCall producers gh c := by
  cases c <;> simp only [soloCall, hhead] <;> exact hcall

theorem callOf_of_not_consuming (h : c.consuming = false) (p : Nat) : callOf gh c ≠ .pending (.dequeue p) := by
  cases c <;> simp_all [callOf, QueuePc.consuming]

/-- An access of a thread outside `dequeue`. -/
theorem Solo.outside (h : Solo w s) (hadv : s.Advances gh n t q r gh') (hold : (s.pc t).consuming = false)
    (hnew : (after r).consuming = false)
    (hframe : ∀ p, Undisturbed (s.queue.producers p) (q.producers p)) :
    Solo w ⟨q, Function.update s.pc t (after r)⟩ ∧
      Linear allowsSolo t (s.waiting gh) (waiting ⟨q, s.pc⟩ gh') (soloCall s.queue.producers gh (s.pc t))
        (r.map (soloCall q.producers gh') id) ∧
      ∀ u, u ≠ t → soloCall q.producers gh' (s.pc u) = soloCall s.queue.producers gh (s.pc u) := by
  have hmap : r.map (soloCall q.producers gh') id = r.map (callOf gh') id := by
    cases r with
    | inl c => exact congrArg Sum.inl (soloCall_of_not_consuming hnew)
    | inr r => rfl
  refine ⟨h.frame rfl hold hnew hframe, ?_, fun u hu =>
    soloCall_congr (fun p => (hframe p).head) (hadv.others u hu)⟩
  rw [soloCall_of_not_consuming hold, hmap]
  exact hadv.linear.solo (callOf_of_not_consuming hold)

/-- An access of any thread. -/
theorem Solo.step (h : Solo w s) (hi : s.Inv gh n) (hn : n < 2 ^ 62)
    (haccess : s.queue.access t (s.pc t) = some (q, r)) :
    ∃ gh', s.Advances gh n t q r gh' ∧ Solo w ⟨q, Function.update s.pc t (after r)⟩ ∧
      Linear allowsSolo t (s.waiting gh) (waiting ⟨q, s.pc⟩ gh') (soloCall s.queue.producers gh (s.pc t))
        (r.map (soloCall q.producers gh') id) ∧
      ∀ u, u ≠ t → soloCall q.producers gh' (s.pc u) = soloCall s.queue.producers gh (s.pc u) := by
  by_cases hold : (s.pc t).consuming = true
  · obtain rfl := h.only t hold
    obtain ⟨gh', hadv, hsolo, hlinear⟩ := h.access hi hn hold haccess
    refine ⟨gh', hadv, hsolo, hlinear, fun u hu => ?_⟩
    -- no other thread is in `dequeue`
    have hout : (s.pc u).consuming = false := by
      by_contra hin
      exact hu (h.only u (by simpa using hin))
    rw [soloCall_of_not_consuming hout, soloCall_of_not_consuming hout]
    exact hadv.others u hu
  · have hold : (s.pc t).consuming = false := by simpa using hold
    obtain ⟨gh', hadv⟩ := hi.access hn haccess
    obtain ⟨hnew, hframe⟩ := hi.enqueue_frame hn hold haccess
    exact ⟨gh', hadv, h.outside hadv hold hnew hframe⟩

/-- The threads and the object. -/
structure SoloSim (s : QueueThreads α) (gh : Nat → QueueGhost α)
    (a : AtomicObject.State (SubQueues α) (QueueOp α) (QueueRes α)) : Prop where
  items : a.obj.items = s.waiting gh
  call : ∀ t, a.call t = soloCall s.queue.producers gh (s.pc t)

variable {a : AtomicObject.State (SubQueues α) (QueueOp α) (QueueRes α)}
  {os : List (Observed (QueueOp α) (QueueRes α))}

theorem Solo.call {op : QueueOp α} (h : Solo w s) (hp : s.pc t = .idle)
    (hw : ∀ p, op = .dequeue p → t = w) : Solo w ⟨s.queue, Function.update s.pc t (start op)⟩ := by
  cases op with
  | enqueue x =>
    exact h.frame rfl (by rw [hp]; rfl) rfl fun _ => .refl _
  | dequeue p =>
    obtain rfl := hw p rfl
    exact h.quiet rfl (fun _ => ⟨rfl, rfl, rfl⟩) (fun _ => by rw [hp]; rfl) trivial

/-- **One step.** -/
theorem Solo.act {x : Action α} (h : Solo w s) (hi : s.Inv gh n) (hn : n < 2 ^ 62) (hs : SoloSim s gh a)
    (hw : ∀ t p, x = .call t (.dequeue p) → t = w) (hact : s.act x = some (s', os)) :
    ∃ gh' bs a', (s'.Inv gh' (n + 1) ∧ Solo w s') ∧ SoloSim s' gh' a' ∧
      trace (RelationalObject.act allowsSolo) a bs = some (a', os) := by
  obtain ⟨t, op, hx, hp, rfl, rfl⟩ | ⟨t, q, r, heq, hstep⟩ := hi.act_cases hact
  · have hop : soloCall s.queue.producers gh (start op) = .pending op := by cases op <;> rfl
    obtain ⟨htrace, hcall⟩ := follows_call (R := allowsSolo) (t := t) hs.call (by rw [hp]; rfl) hop
    have hsolo : Solo w ⟨s.queue, Function.update s.pc t (start op)⟩ :=
      h.call hp fun p hdequeue => hw t p (by rw [hx, hdequeue])
    exact ⟨gh, _, a.set t (.pending op), ⟨hi.call hp, hsolo⟩, ⟨hs.items, hcall⟩, htrace⟩
  · have hadv : ∃ gh', s.Advances gh n t q r gh' ∧ Solo w ⟨q, Function.update s.pc t (after r)⟩ ∧
        Linear allowsSolo t (s.waiting gh) (waiting ⟨q, s.pc⟩ gh')
          (soloCall s.queue.producers gh (s.pc t)) (r.map (soloCall q.producers gh') id) ∧
        ∀ u, u ≠ t → soloCall q.producers gh' (s.pc u) = soloCall s.queue.producers gh (s.pc u) := by
      rcases hstep with haccess | ⟨hold, hnew, hsame, hadv⟩
      · exact h.step hi hn haccess
      · exact ⟨gh, hadv, h.outside hadv hold hnew fun p => by
          rw [hsame]
          exact .refl _⟩
    obtain ⟨gh', hadv, hsolo, hlinear, hothers⟩ := hadv
    obtain ⟨bs, a', htrace, hitems, hcall⟩ := hlinear.follows hs.items (hs.call t)
    rw [← goto_snd (s := s), heq] at htrace
    have hstate : s' = ⟨q, Function.update s.pc t (after r)⟩ := by rw [← goto_fst, heq]
    subst hstate
    refine ⟨gh', bs, a', ⟨hadv.inv, hsolo⟩, ⟨hitems, fun u => ?_⟩, htrace⟩
    rw [hcall]
    exact calls_update hs.call hothers (callAfter_map rfl r).symm u

theorem solo_init (k w : Nat) : Solo w (init k : QueueThreads α) where
  only := fun t h => by cases h
  overcommit := fun _ => rfl
  count := fun _ => rfl
  sees := trivial

/-- **One consumer.**  If only one thread ever dequeues, whatever is observed of the queue is observed
of atomic sub-queues whose `dequeue` is `removeHead`: it comes back without an element only if, at a
moment of the call, none waited at the producer.  The block index is an atomic map and the pool an
atomic bag. -/
theorem queue_linearizable_one_consumer (k w : Nat) (as : List (Action α)) (s : QueueThreads α)
    (os : List (Observed (QueueOp α) (QueueRes α))) (hlen : as.length < 2 ^ 62)
    (h : trace act (init k) as = some (s, os)) (hw : ∀ t p, .call t (.dequeue p) ∈ as → t = w) :
    ∃ bs a, trace (RelationalObject.act allowsSolo) (AtomicObject.idle SubQueues.empty) bs =
      some (a, os) := by
  have hrun : ∃ gh a bs, (s.Inv gh as.length ∧ Solo w s) ∧ SoloSim s gh a ∧
      trace (RelationalObject.act allowsSolo) (AtomicObject.idle SubQueues.empty) bs = some (a, os) := by
    refine trace_invariant (I := fun n s os => ∃ gh a bs, (s.Inv gh n ∧ Solo w s) ∧ SoloSim s gh a ∧
      trace (RelationalObject.act allowsSolo) (AtomicObject.idle SubQueues.empty) bs = some (a, os)) ?_ h ?_
    · rintro n s os x s' o hn hx ⟨gh, a, bs, ⟨hi, hsolo⟩, hs, hbs⟩ hstep
      obtain ⟨gh', cs, a', hinv, hs', hcs⟩ := hsolo.act hi (by omega) hs
        (fun t p hcall => hw t p (hcall ▸ hx)) hstep
      exact ⟨gh', a', bs ++ cs, hinv, hs', trace_append hbs hcs⟩
    · exact ⟨_, _, [], ⟨inv_init k, solo_init k w⟩, ⟨rfl, fun _ => rfl⟩, rfl⟩
  obtain ⟨-, a, bs, -, -, hbs⟩ := hrun
  exact ⟨bs, a, hbs⟩

/-- The consumer reads `tailIndex` before the element is there, and returns after it. -/
def missedRun : List (Action Nat) :=
  [.call 1 (.dequeue 0), .next 1, .call 0 (.enqueue 7), .next 0, .next 0, .insert 0 true,
    .requisition 0 (some 0), .next 0, .next 0, .next 0, .next 0, .next 1, .next 1, .call 1 (.dequeue 0),
    .next 1, .next 1, .next 1, .next 1, .next 1, .next 1, .next 1, .next 1, .next 1]

def missedObserved : List (Observed (QueueOp Nat) (QueueRes Nat)) :=
  [.called 1 (.dequeue 0), .called 0 (.enqueue 7), .returned 0 (.enqueued true),
    .returned 1 (.dequeued none), .called 1 (.dequeue 0), .returned 1 (.dequeued (some 7))]

theorem queue_linearizable_one_consumer_miss : ∃ bs a,
    trace (RelationalObject.act allowsSolo) (AtomicObject.idle SubQueues.empty) bs =
      some (a, missedObserved) := by
  have hrun : (trace act (init 1) missedRun).map Prod.snd = some missedObserved := by
    decide +kernel
  obtain ⟨⟨s, os⟩, hs, rfl⟩ := Option.map_eq_some_iff.mp hrun
  refine queue_linearizable_one_consumer 1 1 missedRun s _ (by decide) hs ?_
  intro t p hm
  simp only [missedRun, List.mem_cons, Action.call.injEq, QueueOp.dequeue.injEq, reduceCtorEq, and_false,
    List.not_mem_nil, or_false, false_or] at hm
  rcases hm with ⟨rfl, -⟩ | ⟨rfl, -⟩ <;> rfl


end QueueThreads

end Us2d
