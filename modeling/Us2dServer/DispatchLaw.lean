import Mathlib.Tactic.Abel
import Us2dServer.DispatchLoop

/-!
# The law of the dispatch loop

`Sound` holds the references and the counts together through every step, `fuel` bounds the steps
of a call, and `Quiet` follows the order of removal while nobody enqueues.

    run (step handlers) (start c) as = some s → Law handlers c as s      (dispatch_request_law)

When the loop has returned it has no reference left; a block can still be on loan then, to the
payload handler that has enqueued its request.
-/

namespace Us2d

open TsMemoryPool

namespace DispatchLoop

variable {handlers : Handlers} {s s' : DispatchLoop} {a : Action} {as : List Action} {c : Setting}

/-! ## What every step preserves -/

/-- A request removed whose `dispatch` has yet to be called. -/
def inHand (s : DispatchLoop) : List Queued :=
  match s.main with
  | .assigning _ _ | .dispatching _ => s.request.toList
  | _ => []

/-- How many requests the call has removed: `n`, and the one it is at. -/
def Counts (s : DispatchLoop) : Prop :=
  match s.main with
  | .dequeue n => s.removed.length = s.before + n ∧ n ≤ maxPacketDispatchThreshold
  | .spinning n => s.removed.length = s.before + n ∧ n < maxPacketDispatchThreshold
  | .assigning n _ | .dispatching n | .handling n _ =>
    s.removed.length = s.before + (n + 1) ∧ n < maxPacketDispatchThreshold
  | .idle | .returning => s.removed.length ≤ s.before + maxPacketDispatchThreshold ∧
    (s.removed.length < s.before + maxPacketDispatchThreshold → s.lastTry = 0)

/-- `request` is empty between the calls, and not when there is a request to dispatch. -/
def Locals (s : DispatchLoop) : Prop :=
  match s.main with
  | .idle => s.request = none
  | .assigning _ _ | .dispatching _ | .handling _ _ => s.request ≠ none
  | _ => True

structure Sound (s : DispatchLoop) : Prop where
  inv : s.pool.Inv
  refs : s.pool.Refs s.refs
  card : s.requests.inner.contents.card = s.requests.sema + s.unsignalled + s.main.waited
  counts : s.Counts
  locals : s.Locals
  log : s.dispatched.map Dispatched.item ++ s.inHand = s.removed
  removed : ∀ item ∈ s.removed, item.owner.ptr < s.pool.heap.length

theorem sound_start (c : Setting) : (start c).Sound where
  inv := c.inv
  refs := by simpa [start, DispatchLoop.refs, queueOwners, localOwners, MainPc.old] using c.refs
  card := by simpa [start, MainPc.waited] using c.card
  counts := ⟨Nat.zero_le _, fun _ => rfl⟩
  locals := rfl
  log := rfl
  removed := fun _ h => by cases h

/-! ## The references -/

/-- The references and the pool change together. -/
inductive RefsEffect (s s' : DispatchLoop) : Prop
  | same (hpool : s'.pool = s.pool) (hrefs : s'.refs = s.refs)
  | rented (t : BlockType) (sp : SharedPtr)
      (hpool : s.pool.rentPopped t = some (sp, s'.pool) ∨ (sp, s'.pool) = s.pool.rentFresh t)
      (hrefs : s'.refs = sp ::ₘ s.refs)
  | copied (sp : SharedPtr) (hsp : sp ∈ s.refs) (hpool : s'.pool = s.pool.copy sp)
      (hrefs : s'.refs = sp ::ₘ s.refs)
  | dropped (sp : SharedPtr) (pushed : Bool) (hpool : s'.pool = s.pool.drop sp pushed)
      (hrefs : s.refs = sp ::ₘ s'.refs)

theorem Effect.refs (h : Effect handlers s a s') : RefsEffect s s' := by
  cases h with
  | popped sizeApprox n ptr item q hpc hle htry hpop =>
    refine .same rfl ?_
    have hqueue : s.queueOwners = {item.owner} + q.contents.map Queued.owner := by
      rw [queueOwners, SubQueues.contents_removeHead hpop, Multiset.map_cons, Multiset.singleton_add]
    unfold DispatchLoop.refs
    rw [hqueue]
    simp only [queueOwners, localOwners, hpc, MainPc.old, Option.map_some, Option.toList_some,
      Option.toList_none, Multiset.coe_singleton, Multiset.coe_nil]
    abel
  | assigned n old pushed hpc =>
    cases old with
    | none => exact .same rfl (by simp [DispatchLoop.refs, queueOwners, localOwners, hpc, MainPc.old])
    | some sp =>
      refine .dropped sp pushed rfl ?_
      rw [← Multiset.singleton_add]
      simp only [DispatchLoop.refs, queueOwners, localOwners, hpc, MainPc.old, Option.toList_some,
        Option.toList_none, Multiset.coe_singleton, Multiset.coe_nil]
      abel
  | returned pushed hpc =>
    cases hreq : s.request with
    | none =>
      exact .same rfl (by simp [DispatchLoop.refs, queueOwners, localOwners, hpc, hreq, MainPc.old])
    | some item =>
      refine .dropped item.owner pushed rfl ?_
      rw [← Multiset.singleton_add]
      simp only [DispatchLoop.refs, queueOwners, localOwners, hpc, hreq, MainPc.old, Option.map_some,
        Option.map_none, Option.toList_some, Option.toList_none, Multiset.coe_singleton,
        Multiset.coe_nil]
      abel
  | kept n f item hpc hreq =>
    refine .copied item.owner ?_ rfl (Multiset.cons_add _ _ _)
    simp [DispatchLoop.refs, localOwners, hreq]
  | enqueued thread item others hothers =>
    refine .same rfl ?_
    unfold DispatchLoop.refs
    rw [hothers]
    simp only [queueOwners, localOwners, BlockingConcurrentQueue.enqueue, SubQueues.contents_push,
      Multiset.map_cons]
    simp only [← Multiset.singleton_add]
    abel
  | rented t fresh sp p hpool => exact .rented t sp hpool (Multiset.cons_add _ _ _)
  | copied sp hsp => exact .copied sp (Multiset.mem_add.mpr (Or.inl hsp)) rfl (Multiset.cons_add _ _ _)
  | dropped sp pushed others hothers =>
    refine .dropped sp pushed rfl ?_
    unfold DispatchLoop.refs
    rw [hothers, Multiset.cons_add]
    rfl
  | _ => exact .same rfl (by simp [DispatchLoop.refs, queueOwners, localOwners, MainPc.old,
      BlockingConcurrentQueue.signal, *])

/-- Every reference taken is counted, and no block is lost from the heap. -/
theorem RefsEffect.pool (h : RefsEffect s s') (hi : s.pool.Inv) (hr : s.pool.Refs s.refs) :
    s'.pool.Inv ∧ s'.pool.Refs s'.refs ∧ s.pool.heap.length ≤ s'.pool.heap.length := by
  cases h with
  | same hpool hrefs => exact ⟨hpool ▸ hi, hrefs ▸ hpool ▸ hr, hpool ▸ Nat.le_refl _⟩
  | rented t sp hpool hrefs =>
    rw [hrefs]
    rcases hpool with hpop | hfresh
    · exact ⟨hi.rentPopped hpop, hr.rentPopped hpop, (rentPopped_heap hi hpop).1 ▸ Nat.le_refl _⟩
    · rw [show s'.pool = (s.pool.rentFresh t).2 from congrArg Prod.snd hfresh,
        show sp = (s.pool.rentFresh t).1 from congrArg Prod.fst hfresh]
      exact ⟨hi.rentFresh, hr.rentFresh, by rw [rentFresh_heap.1, List.length_append]; omega⟩
  | copied sp hsp hpool hrefs =>
    rw [hpool, hrefs]
    exact ⟨hi.copy (hr.useCount_pos hsp), hr.copy hsp, by rw [copy_heap]⟩
  | dropped sp pushed hpool hrefs =>
    rw [hpool]
    exact ⟨hi.drop pushed, Refs.drop (hrefs ▸ hr) pushed, by rw [drop_heap]⟩

/-! ## Every step keeps `Sound` -/

theorem Effect.card (h : Effect handlers s a s')
    (hc : s.requests.inner.contents.card = s.requests.sema + s.unsignalled + s.main.waited) :
    s'.requests.inner.contents.card = s'.requests.sema + s'.unsignalled + s'.main.waited := by
  cases h with
  | waited n hpc hn hsema =>
    simp only [hpc, MainPc.waited] at hc ⊢
    omega
  | popped sizeApprox n ptr item q hpc hle htry hpop =>
    rw [SubQueues.contents_removeHead hpop, Multiset.card_cons] at hc
    simp only [hpc, MainPc.waited] at hc ⊢
    omega
  | enqueued thread item others hothers =>
    simp only [BlockingConcurrentQueue.enqueue, SubQueues.contents_push, Multiset.card_cons]
    omega
  | signalled hpos =>
    simp only [BlockingConcurrentQueue.signal]
    omega
  | called hpc | empty n hpc | full n hpc | assigned n old pushed hpc | dispatched n item called bytes hpc
  | handled n called outcome errors hpc | returned pushed hpc =>
    simpa only [hpc, MainPc.waited] using hc
  | _ => exact hc

theorem Effect.counts (h : Effect handlers s a s') (hc : s.Counts) : s'.Counts := by
  cases h with
  | called hpc => exact ⟨rfl, Nat.zero_le _⟩
  | waited n hpc hn hsema =>
    simp only [Counts, hpc] at hc ⊢
    exact ⟨hc.1, hn⟩
  | empty n hpc hn hsema =>
    simp only [Counts, hpc] at hc ⊢
    exact ⟨by omega, fun _ => trivial⟩
  | full n hpc hn =>
    simp only [Counts, hpc] at hc ⊢
    exact ⟨by omega, fun h => by omega⟩
  | popped sizeApprox n ptr item q hpc hle htry hpop =>
    simp only [Counts, hpc, List.length_append, List.length_singleton] at hc ⊢
    exact ⟨by omega, hc.2⟩
  | handled n called outcome errors hpc =>
    simp only [Counts, hpc] at hc ⊢
    exact ⟨hc.1, hc.2⟩
  | assigned n old pushed hpc | dispatched n item called bytes hpc | returned pushed hpc =>
    simpa only [Counts, hpc] using hc
  | _ => exact hc

theorem Effect.locals (h : Effect handlers s a s') (hl : s.Locals) : s'.Locals := by
  cases h with
  | popped sizeApprox n ptr item q hpc hle htry hpop => exact Option.some_ne_none item
  | returned pushed hpc => rfl
  | called hpc | waited n hpc | empty n hpc | full n hpc | handled n called outcome errors hpc => trivial
  | assigned n old pushed hpc | dispatched n item called bytes hpc =>
    simpa only [Locals, hpc] using hl
  | _ => exact hl

/-- `dispatch` is called for the requests removed, in the order of their removal. -/
theorem Effect.log (h : Effect handlers s a s')
    (hlog : s.dispatched.map Dispatched.item ++ s.inHand = s.removed) :
    s'.dispatched.map Dispatched.item ++ s'.inHand = s'.removed := by
  cases h with
  | popped sizeApprox n ptr item q hpc hle htry hpop =>
    simp only [inHand, hpc, List.append_nil] at hlog ⊢
    rw [hlog]
    rfl
  | assigned n old pushed hpc => simpa only [inHand, hpc] using hlog
  | dispatched n item called bytes hpc hreq =>
    simp only [inHand, hpc, hreq] at hlog ⊢
    simpa using hlog
  | called hpc | waited n hpc | empty n hpc | full n hpc | handled n called outcome errors hpc
  | returned pushed hpc =>
    simpa only [inHand, hpc] using hlog
  | _ => exact hlog

/-- What is removed has been in the queue. -/
theorem Effect.mem_removed (h : Effect handlers s a s') {item : Queued} (hm : item ∈ s'.removed) :
    item ∈ s.removed ∨ item.owner ∈ s.refs := by
  cases h with
  | popped sizeApprox n ptr item' q hpc hle htry hpop =>
    rcases List.mem_append.mp hm with hm | hm
    · exact Or.inl hm
    · rw [List.mem_singleton.mp hm]
      refine Or.inr (Multiset.mem_add.mpr (Or.inr (Multiset.mem_add.mpr (Or.inl ?_))))
      rw [queueOwners, SubQueues.contents_removeHead hpop, Multiset.map_cons]
      exact Multiset.mem_cons_self _ _
  | _ => exact Or.inl hm

theorem Sound.step (hs : s.Sound) (h : Effect handlers s a s') : s'.Sound := by
  obtain ⟨hi, hr, hheap⟩ := h.refs.pool hs.inv hs.refs
  refine ⟨hi, hr, h.card hs.card, h.counts hs.counts, h.locals hs.locals, h.log hs.log,
    fun item hm => ?_⟩
  rcases h.mem_removed hm with hm | hm
  · exact Nat.lt_of_lt_of_le (hs.removed item hm) hheap
  · exact Nat.lt_of_lt_of_le (hs.refs.at_rental hs.inv hm).1 hheap

theorem sound_of_run (hs : s.Sound) (h : Transition.run (step handlers) s as = some s') : s'.Sound :=
  Transition.run_invariant (fun _ _ _ hi hstep => hi.step (effect_of_step hstep)) h hs

/-! ## Where the blocks go -/

/-- The action's push on a stack is refused. -/
def Action.refused : Action → Bool
  | .assign pushed | .return pushed | .drop _ pushed => !pushed
  | _ => false

theorem dropOwner_deleted (owner : Option SharedPtr) (p : TsMemoryPool) :
    (Server.dropOwner owner true p).deleted = p.deleted := by
  cases owner with
  | none => rfl
  | some sp => exact drop_deleted

/-- Unless a push is refused nothing is deleted. -/
theorem Effect.deleted (h : Effect handlers s a s') (ha : a.refused = false) :
    s'.pool.deleted = s.pool.deleted := by
  cases h with
  | assigned n old pushed hpc =>
    cases pushed with
    | true => exact dropOwner_deleted old s.pool
    | false => cases ha
  | returned pushed hpc =>
    cases pushed with
    | true => exact dropOwner_deleted _ s.pool
    | false => cases ha
  | dropped sp pushed others hothers =>
    cases pushed with
    | true => exact drop_deleted
    | false => cases ha
  | kept n f item hpc hreq => exact copy_deleted
  | copied sp hsp => exact copy_deleted
  | rented t fresh sp p hpool =>
    rcases hpool with hpop | hfresh
    · obtain ⟨rest, -, rfl, -⟩ := rentPopped_eq_some hpop
      rfl
    · rw [show p = (s.pool.rentFresh t).2 from congrArg Prod.snd hfresh]
      rfl
  | _ => rfl

/-- What has been removed from the queue has not been deleted before. -/
theorem Effect.removed_notMem_deleted (hs : s.Sound) (h : Effect handlers s a s')
    (ha : a.refused = false) (hd : ∀ item ∈ s.removed, item.owner.ptr ∉ s.pool.deleted) :
    ∀ item ∈ s'.removed, item.owner.ptr ∉ s'.pool.deleted := by
  intro item hm
  rw [h.deleted ha]
  rcases h.mem_removed hm with hm | hm
  · exact hd item hm
  · exact hs.refs.notMem_deleted hs.inv hm

theorem removed_notMem_deleted (hs : s.Sound) (hnone : s.removed = [])
    (h : Transition.run (step handlers) s as = some s') (has : ∀ a ∈ as, a.refused = false) :
    ∀ item ∈ s'.removed, item.owner.ptr ∉ s'.pool.deleted :=
  (Transition.run_invariant_along
    (I := fun s => s.Sound ∧ ∀ item ∈ s.removed, item.owner.ptr ∉ s.pool.deleted)
    (C := fun _ a => a.refused = false)
    (fun _ _ _ hi ha hstep => ⟨hi.1.step (effect_of_step hstep),
      (effect_of_step hstep).removed_notMem_deleted hi.1 ha hi.2⟩)
    h (Transition.along_of_actions fun a ha _ => has a ha) ⟨hs, by simp [hnone]⟩).2

/-! ## The loop ends -/

/-- The steps of a call of `dispatch_request` itself, besides those of the packet handlers. -/
def Action.isLoop : Action → Bool
  | .tryWait | .tryDequeue _ | .assign _ | .dispatch | .endDispatch _ | .return _ => true
  | _ => false

/-- A bound for the steps that a call has left: five for each request, and two at the end. -/
def fuel : MainPc → Nat
  | .idle => 0
  | .returning => 1
  | .dequeue n => 5 * (maxPacketDispatchThreshold - n) + 2
  | .spinning n => 5 * (maxPacketDispatchThreshold - n) + 1
  | .assigning n _ => 5 * (maxPacketDispatchThreshold - n)
  | .dispatching n => 5 * (maxPacketDispatchThreshold - n) - 1
  | .handling n _ => 5 * (maxPacketDispatchThreshold - n) - 2

/-- A step of the loop uses up fuel, a call brings 5122 of it, and nothing else changes it. -/
theorem Effect.fuel (h : Effect handlers s a s') (hc : s.Counts) :
    (if a.isLoop then 1 else 0) + DispatchLoop.fuel s'.main + 5122 * s.calls ≤
      DispatchLoop.fuel s.main + 5122 * s'.calls := by
  unfold Counts maxPacketDispatchThreshold at hc
  cases h with
  | called hpc =>
    simp only [Action.isLoop, DispatchLoop.fuel, maxPacketDispatchThreshold, hpc,
      Bool.false_eq_true, if_false]
    omega
  | waited n hpc hn hsema =>
    simp only [Action.isLoop, DispatchLoop.fuel, hpc, if_true]
    omega
  | empty n hpc hn hsema =>
    simp only [Action.isLoop, DispatchLoop.fuel, hpc, if_true]
    omega
  | full n hpc hn =>
    simp only [Action.isLoop, DispatchLoop.fuel, hpc, if_true]
    omega
  | popped sizeApprox n ptr item q hpc hle htry hpop =>
    simp only [Action.isLoop, DispatchLoop.fuel, hpc, if_true]
    omega
  | assigned n old pushed hpc =>
    simp only [hpc] at hc
    simp only [Action.isLoop, DispatchLoop.fuel, maxPacketDispatchThreshold, hpc, if_true]
    omega
  | dispatched n item called bytes hpc =>
    simp only [hpc] at hc
    simp only [Action.isLoop, DispatchLoop.fuel, maxPacketDispatchThreshold, hpc, if_true]
    omega
  | handled n called outcome errors hpc =>
    simp only [hpc] at hc
    simp only [Action.isLoop, DispatchLoop.fuel, maxPacketDispatchThreshold, hpc, if_true]
    omega
  | returned pushed hpc =>
    simp only [Action.isLoop, DispatchLoop.fuel, hpc, if_true]
    omega
  | _ => simp [Action.isLoop]

theorem countP_isLoop_le (hs : s.Sound) (h : Transition.run (step handlers) s as = some s') :
    as.countP Action.isLoop + fuel s'.main + 5122 * s.calls ≤ fuel s.main + 5122 * s'.calls := by
  induction as generalizing s with
  | nil =>
    cases h
    simp
  | cons a as ih =>
    obtain ⟨s₁, h₁, h₂⟩ := Transition.run_cons.mp h
    have heff := effect_of_step h₁
    have hstep := heff.fuel hs.counts
    have hrest := ih (hs.step heff) h₂
    rw [List.countP_cons]
    omega

/-- Until it returns a call can always go on, whatever the other threads do. -/
theorem Sound.progress (hs : s.Sound) (hmain : s.main ≠ .idle) :
    ∃ a s', a.isLoop = true ∧ DispatchLoop.step handlers s a = some s' := by
  have hlocals := hs.locals
  have hcard := hs.card
  cases hpc : s.main with
  | idle => exact absurd hpc hmain
  | dequeue n =>
    by_cases hn : n < maxPacketDispatchThreshold
    · cases hq : s.requests.tryWait with
      | some q => exact ⟨.tryWait, _, rfl, by simp [DispatchLoop.step, tryWait, hpc, hn, hq]; rfl⟩
      | none => exact ⟨.tryWait, _, rfl, by simp [DispatchLoop.step, tryWait, hpc, hn, hq]; rfl⟩
    · exact ⟨.tryWait, _, rfl, by simp [DispatchLoop.step, tryWait, hpc, hn]; rfl⟩
  | spinning n =>
    -- a permit of the semaphore stands for an item
    obtain ⟨item, hitem⟩ : ∃ item, item ∈ s.requests.inner.contents := by
      refine Multiset.card_pos_iff_exists_mem.mp ?_
      rw [hcard, hpc, MainPc.waited]
      omega
    obtain ⟨⟨item', q⟩, htry⟩ := Option.isSome_iff_exists.mp
      (BlockingConcurrentQueue.tryDequeue_isSome_of_mem hitem)
    exact ⟨.tryDequeue fun t => (s.requests.inner.items t).length, _, rfl,
      by simp [DispatchLoop.step, tryDequeue, hpc, htry]; rfl⟩
  | assigning n old => exact ⟨.assign true, _, rfl, by simp [DispatchLoop.step, assign, hpc]; rfl⟩
  | dispatching n =>
    simp only [Locals, hpc] at hlocals
    obtain ⟨item, hreq⟩ := Option.ne_none_iff_exists'.mp hlocals
    exact ⟨.dispatch, _, rfl, by simp [DispatchLoop.step, dispatch, hpc, hreq]; rfl⟩
  | handling n called =>
    simp only [Locals, hpc] at hlocals
    obtain ⟨item, hreq⟩ := Option.ne_none_iff_exists'.mp hlocals
    exact ⟨.endDispatch (.ok ()), _, rfl, by simp [DispatchLoop.step, endDispatch, hpc, hreq]; rfl⟩
  | returning => exact ⟨.return true, _, rfl, by simp [DispatchLoop.step, endDispatchRequest, hpc]; rfl⟩

theorem Effect.calls (h : Effect handlers s a s') (ha : a.isLoop = true) : s'.calls = s.calls := by
  cases h with
  | called hpc => cases ha
  | _ => rfl

/-- The steps of the call alone make it return. -/
theorem Sound.returns (hs : s.Sound) : ∃ bs s', (∀ b ∈ bs, b.isLoop = true) ∧
    Transition.run (DispatchLoop.step handlers) s bs = some s' ∧ s'.main = .idle := by
  induction hn : DispatchLoop.fuel s.main using Nat.strong_induction_on generalizing s with
  | _ n ih =>
    by_cases hmain : s.main = .idle
    · exact ⟨[], s, by simp, rfl, hmain⟩
    · have hnext : ∃ a s₁, a.isLoop = true ∧ DispatchLoop.step handlers s a = some s₁ := hs.progress hmain
      obtain ⟨a, s₁, ha, h₁⟩ := hnext
      have heff := effect_of_step h₁
      have hfuel := heff.fuel hs.counts
      rw [ha, heff.calls ha, if_pos rfl] at hfuel
      obtain ⟨bs, s₂, hbs, h₂, hidle⟩ := ih _ (by omega) (hs.step heff) rfl
      refine ⟨a :: bs, s₂, fun b hb => ?_, Transition.run_cons.mpr ⟨s₁, h₁, h₂⟩, hidle⟩
      rcases List.mem_cons.mp hb with rfl | hb
      · exact ha
      · exact hbs b hb

/-! ## The requests that stay -/

/-- The request that an action enqueues, and the thread that does it. -/
def Action.enqueued : Action → Option (Nat × Queued)
  | .enqueue thread item => some (thread, item)
  | _ => none

/-- The requests enqueued in a run. -/
def enqueuedIn (as : List Action) : List Queued := (as.filterMap Action.enqueued).map Prod.snd

/-- Those of them that thread `t` has enqueued. -/
def enqueuedBy (t : Nat) (as : List Action) : List Queued :=
  ((as.filterMap Action.enqueued).filter (·.1 = t)).map Prod.snd

/-- What comes and what goes. -/
theorem Effect.contents (h : Effect handlers s a s') :
    s.requests.inner.contents + s.removed + enqueuedIn [a] = s'.removed + s'.requests.inner.contents := by
  cases h with
  | popped sizeApprox n ptr item q hpc hle htry hpop =>
    rw [SubQueues.contents_removeHead hpop, ← Multiset.coe_add, Multiset.coe_singleton,
      ← Multiset.singleton_add]
    rw [show enqueuedIn [.tryDequeue sizeApprox] = [] from rfl, Multiset.coe_nil]
    abel
  | enqueued thread item others hothers =>
    rw [show enqueuedIn [.enqueue thread item] = [item] from rfl, Multiset.coe_singleton]
    simp only [BlockingConcurrentQueue.enqueue, SubQueues.contents_push, ← Multiset.singleton_add]
    abel
  | _ => exact (add_zero _).trans (add_comm _ _)

theorem contents_of_run (h : Transition.run (step handlers) s as = some s') :
    s.requests.inner.contents + s.removed + enqueuedIn as = s'.removed + s'.requests.inner.contents := by
  induction as generalizing s with
  | nil =>
    cases h
    exact (add_zero _).trans (add_comm _ _)
  | cons a as ih =>
    obtain ⟨s₁, h₁, h₂⟩ := Transition.run_cons.mp h
    have happend : enqueuedIn (a :: as) = enqueuedIn [a] ++ enqueuedIn as := by
      simp [enqueuedIn, ← List.map_append, ← List.filterMap_append]
    rw [happend, ← Multiset.coe_add, ← add_assoc, (effect_of_step h₁).contents, ← ih h₂,
      add_comm (s₁.removed : Multiset Queued)]

/-- From a sub-queue only its head goes, and what comes stands at its end. -/
theorem Effect.items (h : Effect handlers s a s') (t : Nat) :
    s'.requests.inner.items t <:+ s.requests.inner.items t ++ enqueuedBy t [a] := by
  cases h with
  | popped sizeApprox n ptr item q hpc hle htry hpop =>
    obtain ⟨rest, hi, hi', -⟩ := SubQueues.removeHead_eq_some hpop
    rw [show enqueuedBy t [.tryDequeue sizeApprox] = [] from rfl, List.append_nil]
    show q.items t <:+ _
    by_cases ht : t = ptr
    · rw [ht, hi', Function.update_self, hi]
      exact List.suffix_cons item rest
    · rw [hi', Function.update_of_ne ht]
  | enqueued thread item others hothers =>
    show (s.requests.inner.push thread item).items t <:+ _
    rw [SubQueues.push_items]
    by_cases ht : t = thread
    · rw [ht, Function.update_self, show enqueuedBy thread [.enqueue thread item] = [item] by
        simp [enqueuedBy, Action.enqueued]]
    · rw [Function.update_of_ne ht, show enqueuedBy t [.enqueue thread item] = [] by
        simp [enqueuedBy, Action.enqueued, Ne.symm ht], List.append_nil]
  | _ => exact ⟨[], (List.append_nil _).symm⟩

theorem items_of_run (h : Transition.run (step handlers) s as = some s') (t : Nat) :
    s'.requests.inner.items t <:+ s.requests.inner.items t ++ enqueuedBy t as := by
  induction as generalizing s with
  | nil =>
    cases h
    simp [enqueuedBy]
  | cons a as ih =>
    obtain ⟨s₁, h₁, h₂⟩ := Transition.run_cons.mp h
    have happend : enqueuedBy t (a :: as) = enqueuedBy t [a] ++ enqueuedBy t as := by
      simp [enqueuedBy, ← List.map_append, ← List.filter_append, ← List.filterMap_append]
    obtain ⟨pre, hpre⟩ := (effect_of_step h₁).items t
    rw [happend, ← List.append_assoc, ← hpre, List.append_assoc]
    exact List.suffix_append_of_suffix (ih h₂)

/-! ## Calls without enqueues -/

/-- The action is a part of an `enqueue`. -/
def Action.enqueues : Action → Bool
  | .enqueue _ _ | .signal => true
  | _ => false

/-- While nobody enqueues, the requests come out of the queue `q` in one of its removal orders,
1024 in each call but the last ones. -/
structure Quiet (q : SubQueues Queued) (s : DispatchLoop) : Prop where
  unsignalled : s.unsignalled = 0
  card : s.removed.length + s.requests.inner.contents.card = q.contents.card
  order : ∀ rest, BlockingConcurrentQueue.RemovalOrder s.requests.inner rest →
    BlockingConcurrentQueue.RemovalOrder q (s.removed ++ rest)
  called : s.main ≠ .idle → 0 < s.calls
  fresh : s.calls = 0 → s.removed = []
  before : s.before = min (maxPacketDispatchThreshold * (s.calls - 1)) q.contents.card
  ended : s.main = .idle ∨ s.main = .returning → 0 < s.calls →
    s.removed.length < s.before + maxPacketDispatchThreshold → s.requests.inner.contents.card = 0

theorem quiet_start (h : c.unsignalled = 0) : Quiet c.requests.inner (start c) where
  unsignalled := h
  card := Nat.zero_add _
  order := fun _ h => h
  called := fun h => absurd rfl h
  fresh := fun _ => rfl
  before := by simp [start]
  ended := fun _ h => absurd h (Nat.lt_irrefl 0)

variable {q : SubQueues Queued}

/-- What the calls so far have removed when the last of them has ended. -/
theorem Quiet.length (hq : Quiet q s) (hs : s.Sound) (hmain : s.main = .idle ∨ s.main = .returning) :
    s.removed.length = min (maxPacketDispatchThreshold * s.calls) q.contents.card := by
  have hcounts : s.removed.length ≤ s.before + maxPacketDispatchThreshold := by
    have h := hs.counts
    rcases hmain with hpc | hpc
    · simp only [Counts, hpc] at h
      exact h.1
    · simp only [Counts, hpc] at h
      exact h.1
  have hcard := hq.card
  have hbefore := hq.before
  have hended := hq.ended hmain
  unfold maxPacketDispatchThreshold at *
  by_cases hcalls : s.calls = 0
  · rw [hq.fresh hcalls, hcalls]
    simp
  · omega

theorem Quiet.step (hq : Quiet q s) (hs : s.Sound) (h : Effect handlers s a s')
    (ha : a.enqueues = false) : Quiet q s' := by
  have hstarted : ∀ {pc}, s.main = pc → pc ≠ .idle → 0 < s.calls := fun hpc hne =>
    hq.called (hpc.trans_ne hne)
  cases h with
  | called hpc =>
    refine { hq with called := fun _ => Nat.succ_pos _, fresh := fun h => absurd h (Nat.succ_ne_zero _),
                     before := hq.length hs (Or.inl hpc), ended := fun h => ?_ }
    rcases h with h | h <;> cases h
  | waited n hpc hn hsema =>
    refine { hq with called := fun _ => hstarted hpc (by simp), ended := fun h => ?_ }
    rcases h with h | h <;> cases h
  | empty n hpc hn hsema =>
    have hcard := hs.card
    rw [hpc, hsema, hq.unsignalled] at hcard
    exact { hq with called := fun _ => hstarted hpc (by simp), ended := fun _ _ _ => hcard }
  | full n hpc hn =>
    have hcounts := hs.counts
    simp only [Counts, hpc] at hcounts
    refine { hq with called := fun _ => hstarted hpc (by simp), ended := fun _ _ hless => ?_ }
    exact absurd (show s.removed.length < s.before + maxPacketDispatchThreshold from hless) (by omega)
  | popped sizeApprox n ptr item q' hpc hle htry hpop =>
    have hcard := hq.card
    rw [SubQueues.contents_removeHead hpop, Multiset.card_cons] at hcard
    have hcalls := hstarted hpc (by simp)
    refine { hq with card := ?_, order := fun rest hrest => ?_, called := fun _ => hcalls,
                     fresh := fun h => ?_, ended := fun h => ?_ }
    · show (s.removed ++ [item]).length + q'.contents.card = q.contents.card
      rw [List.length_append, List.length_singleton]
      omega
    · rw [List.append_assoc]
      exact hq.order _ (.cons sizeApprox hle htry hrest)
    · exact absurd h (Nat.ne_of_gt hcalls)
    · rcases h with h | h <;> cases h
  | assigned n old pushed hpc =>
    refine { hq with called := fun _ => hstarted hpc (by simp), ended := fun h => ?_ }
    rcases h with h | h <;> cases h
  | dispatched n item called bytes hpc =>
    refine { hq with called := fun _ => hstarted hpc (by simp), ended := fun h => ?_ }
    rcases h with h | h <;> cases h
  | handled n called outcome errors hpc =>
    refine { hq with called := fun _ => hstarted hpc (by simp), ended := fun h => ?_ }
    rcases h with h | h <;> cases h
  | returned pushed hpc =>
    exact { hq with called := fun h => absurd rfl h, ended := fun _ => hq.ended (Or.inr hpc) }
  | enqueued thread item others hothers => cases ha
  | signalled hpos => cases ha
  | _ => exact { hq with }

theorem quiet_of_run (hq : Quiet q s) (hs : s.Sound)
    (h : Transition.run (DispatchLoop.step handlers) s as = some s')
    (has : ∀ a ∈ as, a.enqueues = false) : Quiet q s' :=
  (Transition.run_invariant_along (I := fun s => Quiet q s ∧ s.Sound)
    (C := fun _ a => a.enqueues = false)
    (fun _ _ _ hi ha hstep => ⟨hi.1.step hi.2 (effect_of_step hstep) ha, hi.2.step (effect_of_step hstep)⟩)
    h (Transition.along_of_actions fun a ha _ => has a ha) ⟨hq, hs⟩).1

/-- The calls have dispatched the first requests of a removal order. -/
theorem Quiet.dispatched (hq : Quiet q s) (hs : s.Sound) (hmain : s.main = .idle) :
    ∃ order, BlockingConcurrentQueue.RemovalOrder q order ∧
      s.dispatched.map Dispatched.item = order.take (maxPacketDispatchThreshold * s.calls) := by
  obtain ⟨rest, hrest⟩ := BlockingConcurrentQueue.exists_removalOrder s.requests.inner
  refine ⟨s.removed ++ rest, hq.order rest hrest, ?_⟩
  have hlog := hs.log
  simp only [inHand, hmain, List.append_nil] at hlog
  have hlength := hq.length hs (Or.inl hmain)
  have hcard := hq.card
  rw [← hrest.length] at hcard
  rw [hlog, List.take_append]
  by_cases hall : maxPacketDispatchThreshold * s.calls ≤ q.contents.card
  · rw [List.take_of_length_le (by omega), show _ - s.removed.length = 0 by omega, List.take_zero,
      List.append_nil]
  · have hnil : rest = [] := List.length_eq_zero_iff.mp (by omega)
    rw [hnil, List.take_of_length_le (by omega), List.take_nil, List.append_nil]

/-! ## The law -/

/-- The law of `dispatch_request` for a run from `c` along `as` to `s`. -/
structure Law (handlers : Handlers) (c : Setting) (as : List Action) (s : DispatchLoop) : Prop where
  /-- A call removes at most 1024 requests, -/
  budget : s.removed.length ≤ s.before + maxPacketDispatchThreshold
  /-- and fewer only if at its last try no request was left whose enqueue was complete. -/
  fewer : s.main = .idle → s.removed.length < s.before + maxPacketDispatchThreshold → s.lastTry = 0
  /-- Each request removed is dispatched once, in the order of removal. -/
  dispatched : s.main = .idle → s.dispatched.map Dispatched.item = s.removed
  /-- All other requests remain queued, -/
  queued : c.requests.inner.contents + enqueuedIn as = s.removed + s.requests.inner.contents
  /-- in the order of their threads. -/
  inOrder : ∀ t, s.requests.inner.items t <:+ c.requests.inner.items t ++ enqueuedBy t as
  /-- On return the references of the requests removed have been dropped. -/
  dropped : s.main = .idle → s.pool.Refs (s.others + s.queueOwners)
  /-- A block that nobody refers to any more is on the stack of its type, once, or deleted if
  a push was refused. -/
  freed : s.main = .idle → ∀ item ∈ s.removed,
    (∀ sp ∈ s.others + s.queueOwners, sp.ptr ≠ item.owner.ptr) →
      (∃ t, s.pool.heap[item.owner.ptr]? = some t ∧
        Custody.At s.pool.held item.owner.ptr (.stack t)) ∨
      (∃ a ∈ as, a.refused = true) ∧ Custody.At s.pool.held item.owner.ptr .deleted
  /-- Whatever has happened, the call's own steps make it return, -/
  returns : ∃ bs s', (∀ b ∈ bs, b.isLoop = true) ∧
    Transition.run (step handlers) s bs = some s' ∧ s'.main = .idle
  /-- and there are at most 5122 of them in a call. -/
  bounded : as.countP Action.isLoop ≤ 5122 * s.calls
  /-- Calls during which nobody enqueues dispatch the first requests of a removal order. -/
  repeated : c.unsignalled = 0 → (∀ a ∈ as, a.enqueues = false) → s.main = .idle →
    ∃ order, BlockingConcurrentQueue.RemovalOrder c.requests.inner order ∧
      s.dispatched.map Dispatched.item = order.take (maxPacketDispatchThreshold * s.calls)

theorem Sound.idle_refs (hs : s.Sound) (hmain : s.main = .idle) : s.refs = s.others + s.queueOwners := by
  have hlocals := hs.locals
  simp only [Locals, hmain] at hlocals
  simp [DispatchLoop.refs, localOwners, hlocals, hmain, MainPc.old]

/-- **The law of the dispatch loop.** -/
theorem dispatch_request_law (handlers : Handlers) (c : Setting) (as : List Action) (s : DispatchLoop)
    (h : Transition.run (step handlers) (start c) as = some s) : Law handlers c as s := by
  have hs : s.Sound := sound_of_run (sound_start c) h
  have hcounts := hs.counts
  refine ⟨?_, fun hmain => ?_, fun hmain => ?_, ?_, items_of_run h, fun hmain => ?_,
    fun hmain item hm hfree => ?_, hs.returns, ?_, fun hu has hmain => ?_⟩
  · unfold Counts at hcounts
    split at hcounts <;> omega
  · simp only [Counts, hmain] at hcounts
    exact hcounts.2
  · have hlog := hs.log
    simpa only [inHand, hmain, List.append_nil] using hlog
  · have hcontents := contents_of_run h
    rw [show (start c).removed = [] from rfl, Multiset.coe_nil, add_zero] at hcontents
    exact hcontents
  · rw [← hs.idle_refs hmain]
    exact hs.refs
  · rw [← hs.idle_refs hmain] at hfree
    rcases hs.refs.block_free hs.inv (hs.removed item hm) hfree with hstack | hdeleted
    · exact Or.inl hstack
    · by_cases hrefused : ∃ a ∈ as, a.refused = true
      · exact Or.inr ⟨hrefused, hdeleted⟩
      · have hnot := removed_notMem_deleted (sound_start c) rfl h
          (fun a ha => Bool.eq_false_iff.mpr fun hr => hrefused ⟨a, ha, hr⟩) item hm
        exact absurd (mem_of_at_deleted hdeleted) hnot
  · have hcount := countP_isLoop_le (sound_start c) h
    simp only [start, fuel] at hcount
    omega
  · exact (quiet_of_run (quiet_start hu) (sound_start c) h has).dispatched hs hmain

/-- An empty queue and an empty pool. -/
def nothing : Setting where
  requests := BlockingConcurrentQueue.empty
  unsignalled := 0
  pool := TsMemoryPool.empty
  mem := fun _ _ => 0
  others := 0
  card := BlockingConcurrentQueue.card_empty
  inv := inv_empty
  refs := ⟨fun _ => rfl, fun _ h => absurd h (Multiset.notMem_zero _)⟩

/-- The handler of the only request throws, and the block is given back. -/
theorem dispatch_request_law_throw : ∃ s item,
    Transition.run (step Server.oneHandler.handlers) (start nothing)
      [.rent .block64 true, .enqueue 0 item, .signal, .call, .tryWait, .tryDequeue fun _ => 1,
        .assign true, .dispatch, .endDispatch (.error ⟨"no such object"⟩), .tryWait, .return true] = some s ∧
    s.errors = [(10000, "no such object")] ∧ s.dispatched.map Dispatched.item = [item] ∧
    ∃ t, Custody.At s.pool.held item.owner.ptr (.stack t) := by
  have hrun : (Transition.run (step Server.oneHandler.handlers) (start nothing)
      [.rent .block64 true, .enqueue 0 ⟨⟨10000, 0, ⟨0, 0⟩⟩, 0, 0, [], 0⟩, .signal, .call, .tryWait,
        .tryDequeue fun _ => 1, .assign true, .dispatch, .endDispatch (.error ⟨"no such object"⟩),
        .tryWait, .return true]).map (fun s => (s.errors, s.main, s.removed,
          (s.others + s.queueOwners).card)) =
      some ([(10000, "no such object")], .idle, [⟨⟨10000, 0, ⟨0, 0⟩⟩, 0, 0, [], 0⟩], 0) := by
    decide +kernel
  obtain ⟨s, hs, hfin⟩ := Option.map_eq_some_iff.mp hrun
  simp only [Prod.mk.injEq] at hfin
  obtain ⟨herrors, hmain, hremoved, hcard⟩ := hfin
  have hlaw := dispatch_request_law Server.oneHandler.handlers nothing _ s hs
  refine ⟨s, _, hs, herrors, (hlaw.dispatched hmain).trans hremoved, ?_⟩
  rcases hlaw.freed hmain ⟨⟨10000, 0, ⟨0, 0⟩⟩, 0, 0, [], 0⟩ (by simp [hremoved])
    (by simp [Multiset.card_eq_zero.mp hcard]) with ⟨t, -, ht⟩ | ⟨⟨a, ha, hrefused⟩, -⟩
  · exact ⟨t, ht⟩
  · simp at ha
    rcases ha with rfl | rfl | rfl | rfl | rfl | rfl | rfl | rfl | rfl | rfl | rfl <;> cases hrefused

end DispatchLoop

namespace Server

/-- `dispatch_request` has returned, no handler has kept a copy, and yet the block of the packet
dispatched is still on loan: the payload handler that enqueued the request is about to end. -/
theorem block_on_loan_after_dispatch : ¬ ∀ (cfg : Config) (mem : Memory) (s : Server),
    Transition.Reachable (step cfg) (init mem) s → s.main = .idle →
      ∀ d ∈ s.dispatched, d.item.owner ∉ s.kept →
        ∃ t, Custody.At s.pool.held d.item.owner.ptr (.stack t) := by
  intro hall
  have hrun : (Transition.run (step oneHandler) (init fun _ _ => 255)
      (connects 0 ++ (arrives 0 1 oneByteHeader [7]).dropLast ++ dispatches 1 ++ returns)).map
        (fun s => (s.main, s.dispatched.map fun d => d.item.owner, s.kept, s.created)) =
      some (.idle, [⟨127, 0⟩], [], 1) := by
    decide +kernel
  have hhandler : (Transition.run (step oneHandler) (init fun _ _ => 255)
      (connects 0 ++ (arrives 0 1 oneByteHeader [7]).dropLast ++ dispatches 1 ++ returns)).map
        (fun s => (s.sessions 0).handler) = some (some (.leaving 1 ⟨127, 0⟩)) := by
    decide +kernel
  obtain ⟨s, hs, hfin⟩ := Option.map_eq_some_iff.mp hrun
  rw [hs] at hhandler
  simp only [Prod.mk.injEq] at hfin
  obtain ⟨hmain, howners, hkept, hcreated⟩ := hfin
  obtain ⟨d, hd, howner⟩ := List.mem_map.mp (howners ▸ List.mem_singleton_self (⟨127, 0⟩ : SharedPtr))
  obtain ⟨t, ht⟩ := hall oneHandler _ s ⟨_, hs⟩ hmain d hd (by simp [hkept])
  -- the payload handler still holds the block, so it is on no stack
  have hi := owned_of_reachable ⟨_, hs⟩
  have hheld : (⟨127, 0⟩ : SharedPtr) ∈ s.refs := by
    rw [refs_eq (show 0 < s.created by omega)]
    refine Multiset.mem_add.mpr (Or.inl ?_)
    simp [Session.owners, Option.some.inj hhandler, HandlerPc.owner]
  rw [howner] at ht
  cases ht.unique (hi.refs.at_rental hi.pool hheld).2

end Server

end Us2d
