import Us2dServer.RequestQueue
import Us2dServer.Lib.Transition
import Mathlib.Tactic.Common

/-!
# `try_dequeue` of the blocking queue, among producers

The only consumer takes a permit from the semaphore and then calls the inner `try_dequeue` until it
hands out an element.  The inner one looks at the sizes of the producers one after the other, while
they go on enqueueing, and dequeues from the best.  Sub-queues and semaphore are the atomic ones
that the concurrent queue with one consumer and the lightweight semaphore refine.

    a permit was taken  →  the first call of the inner try_dequeue succeeds,
                           after one access for each producer and two more   (try_dequeue_first_try)
-/

namespace Us2d

open Transition

/-- The access that the consumer is about to make. -/
inductive DequeuePc
  | idle
  | loadTail
  | sizeApprox (ptr : Nat) (next : List Nat) (nonEmptyCount : Nat) (best : Option Nat) (bestSize : Nat)
  | dequeueBest (best : Nat)
  | reloadTail (best : Nat)
  | dequeueOther (best ptr : Nat) (next : List Nat)
deriving DecidableEq, Repr

structure BlockingDequeue (α : Type) where
  requests : BlockingConcurrentQueue α
  /-- from `producerListTail` along `next_prod` -/
  producerList : List Nat
  /-- the threads between the two halves of `enqueue` -/
  signalling : List Nat
  pc : DequeuePc
  /-- how often the inner `try_dequeue` has returned false -/
  failures : Nat
  /-- the accesses of the consumer since it took its last permit -/
  accesses : Nat
  items : List α

namespace BlockingDequeue

variable {α : Type}

def init : BlockingDequeue α := ⟨.empty, [], [], .idle, 0, 0, []⟩

/-- The inner `try_dequeue` returns false, and is called again. -/
def failed (s : BlockingDequeue α) : BlockingDequeue α :=
  { s with pc := .loadTail, failures := s.failures + 1 }

/-- After the first loop; `none` is a call through a null `best`. -/
def scanned (s : BlockingDequeue α) (nonEmptyCount : Nat) (best : Option Nat) : Option (BlockingDequeue α) :=
  if 0 < nonEmptyCount then best.map fun b => { s with pc := .dequeueBest b } else some s.failed

/-- The head of the first loop. -/
def scan (s : BlockingDequeue α) (nonEmptyCount : Nat) (best : Option Nat) (bestSize : Nat) :
    List Nat → Option (BlockingDequeue α)
  | ptr :: next =>
    if nonEmptyCount < 3 then some { s with pc := .sizeApprox ptr next nonEmptyCount best bestSize }
    else s.scanned nonEmptyCount best
  | [] => s.scanned nonEmptyCount best

/-- The head of the second loop. -/
def others (s : BlockingDequeue α) (best : Nat) : List Nat → BlockingDequeue α
  | [] => s.failed
  | ptr :: next => if ptr = best then s.others best next else { s with pc := .dequeueOther best ptr next }

/-- `ptr->dequeue(item)` -/
def dequeue (s : BlockingDequeue α) (ptr : Nat) (otherwise : BlockingDequeue α) : BlockingDequeue α :=
  match s.requests.inner.removeHead ptr with
  | some (a, q) => { s with requests := { s.requests with inner := q }, pc := .idle, items := s.items ++ [a] }
  | none => otherwise

/-- One access of the consumer. -/
def next (s : BlockingDequeue α) : Option (BlockingDequeue α) :=
  match s.pc with
  | .idle => none
  | .loadTail => s.scan 0 none 0 s.producerList
  | .sizeApprox ptr next nonEmptyCount best bestSize =>
    let size := (s.requests.inner.items ptr).length
    if 0 < size then
      if bestSize < size then s.scan (nonEmptyCount + 1) (some ptr) size next
      else s.scan (nonEmptyCount + 1) best bestSize next
    else s.scan nonEmptyCount best bestSize next
  | .dequeueBest best => some (s.dequeue best { s with pc := .reloadTail best })
  | .reloadTail best => some (s.others best s.producerList)
  | .dequeueOther best ptr next => some (s.dequeue ptr (s.others best next))

inductive Action (α : Type)
  /-- `add_producer` -/
  | addProducer (thread : Nat)
  | enqueue (thread : Nat) (item : α)
  | signal (thread : Nat)
  /-- the consumer calls `try_dequeue` -/
  | tryWait
  | next

def step (s : BlockingDequeue α) : Action α → Option (BlockingDequeue α)
  | .addProducer thread =>
    if thread ∈ s.producerList then none else some { s with producerList := thread :: s.producerList }
  | .enqueue thread item =>
    if thread ∈ s.producerList ∧ thread ∉ s.signalling then
      some { s with requests := s.requests.enqueue thread item, signalling := thread :: s.signalling }
    else none
  | .signal thread =>
    if thread ∈ s.signalling then
      some { s with requests := s.requests.signal, signalling := s.signalling.erase thread }
    else none
  | .tryWait =>
    match s.pc with
    | .idle =>
      match s.requests.tryWait with
      | some q => some { s with requests := q, pc := .loadTail, accesses := 0 }
      | none => some s
    | _ => none
  | .next => s.next.map fun s => { s with accesses := s.accesses + 1 }

end BlockingDequeue

/-! ## The invariant -/

/-- The first loop has found an element, or one waits at a producer that it has yet to look at. -/
def Promising {α : Type} (items : Nat → List α) (nonEmptyCount : Nat) (best : Option Nat) (bestSize : Nat)
    (rest : List Nat) : Prop :=
  (nonEmptyCount = 0 ∧ bestSize = 0 ∧ ∃ t ∈ rest, items t ≠ []) ∨
    (0 < nonEmptyCount ∧ ∃ b, best = some b ∧ items b ≠ [])

/-- What the consumer knows. -/
def DequeuePc.Ok {α : Type} (items : Nat → List α) : DequeuePc → Prop
  | .sizeApprox ptr next nonEmptyCount best bestSize =>
    Promising items nonEmptyCount best bestSize (ptr :: next)
  | .dequeueBest best => items best ≠ []
  | .reloadTail _ => False
  | .dequeueOther _ _ _ => False
  | _ => True

/-- The permits that the consumer holds. -/
def DequeuePc.permits : DequeuePc → Nat
  | .idle => 0
  | _ => 1

/-- The accesses that the consumer has left, at most, with `n` producers in the list. -/
def DequeuePc.left (n : Nat) : DequeuePc → Nat
  | .loadTail => n + 2
  | .sizeApprox _ next _ _ _ => next.length + 2
  | .dequeueBest _ => 1
  | _ => 0

namespace BlockingDequeue

variable {α : Type} {s s' : BlockingDequeue α}

structure Inv (s : BlockingDequeue α) : Prop where
  listed : ∀ t, s.requests.inner.items t ≠ [] → t ∈ s.producerList
  balance : s.requests.inner.contents.card = s.requests.sema + s.signalling.length + s.pc.permits
  failures : s.failures = 0
  consumer : s.pc.Ok s.requests.inner.items
  bound : s.accesses + s.pc.left s.producerList.length ≤ s.producerList.length + 2

theorem inv_init : Inv (init : BlockingDequeue α) where
  listed := fun _ h => absurd rfl h
  balance := rfl
  failures := rfl
  consumer := trivial
  bound := Nat.zero_le _

/-- What the consumer knows stays true when elements come. -/
theorem ok_mono {pc : DequeuePc} {items items' : Nat → List α} (h : pc.Ok items)
    (hitems : ∀ t, items t ≠ [] → items' t ≠ []) : pc.Ok items' := by
  cases pc with
  | sizeApprox ptr next nonEmptyCount best bestSize =>
    rcases h with ⟨hn, hsize, t, ht, hne⟩ | ⟨hn, b, hb, hne⟩
    · exact .inl ⟨hn, hsize, t, ht, hitems t hne⟩
    · exact .inr ⟨hn, b, hb, hitems b hne⟩
  | dequeueBest best => exact hitems best h
  | reloadTail best => exact h
  | dequeueOther best ptr next => exact h
  | _ => trivial

/-- The first loop goes on, or ends with a producer that holds an element. -/
theorem scan_spec {rest : List Nat} {nonEmptyCount bestSize : Nat} {best : Option Nat}
    (h : Promising s.requests.inner.items nonEmptyCount best bestSize rest) :
    ∃ pc, s.scan nonEmptyCount best bestSize rest = some { s with pc := pc } ∧
      pc.Ok s.requests.inner.items ∧ pc.permits = 1 ∧ ∀ n, pc.left n ≤ rest.length + 1 := by
  have hscanned : 0 < nonEmptyCount → ∃ pc, s.scanned nonEmptyCount best = some { s with pc := pc } ∧
      pc.Ok s.requests.inner.items ∧ pc.permits = 1 ∧ ∀ n, pc.left n ≤ rest.length + 1 := by
    intro hn
    obtain ⟨hzero, -⟩ | ⟨-, b, rfl, hb⟩ := h
    · omega
    · exact ⟨.dequeueBest b, by simp [scanned, hn], hb, rfl, fun _ => Nat.le_add_left _ _⟩
  cases rest with
  | nil =>
    apply hscanned
    obtain ⟨-, -, t, ht, -⟩ | ⟨hn, -⟩ := h
    · cases ht
    · exact hn
  | cons ptr next =>
    simp only [scan]
    by_cases hgo : nonEmptyCount < 3
    · rw [if_pos hgo]
      exact ⟨_, rfl, h, rfl, fun _ => Nat.le_refl _⟩
    · rw [if_neg hgo]
      exact hscanned (by omega)

/-- The size of the next producer. -/
theorem next_sizeApprox {ptr nonEmptyCount bestSize : Nat} {next : List Nat} {best : Option Nat}
    (hpc : s.pc = .sizeApprox ptr next nonEmptyCount best bestSize)
    (h : s.pc.Ok s.requests.inner.items) :
    ∃ pc, s.next = some { s with pc := pc } ∧ pc.Ok s.requests.inner.items ∧ pc.permits = 1 ∧
      ∀ n, pc.left n ≤ next.length + 1 := by
  rw [hpc] at h
  simp only [BlockingDequeue.next, hpc]
  by_cases hsize : 0 < (s.requests.inner.items ptr).length
  · have hne : s.requests.inner.items ptr ≠ [] := List.ne_nil_of_length_pos hsize
    rw [if_pos hsize]
    by_cases hbest : bestSize < (s.requests.inner.items ptr).length
    · rw [if_pos hbest]
      exact scan_spec (.inr ⟨Nat.succ_pos _, ptr, rfl, hne⟩)
    · rw [if_neg hbest]
      obtain ⟨-, hzero, -⟩ | ⟨-, hb⟩ := h
      · omega
      · exact scan_spec (.inr ⟨Nat.succ_pos _, hb⟩)
  · rw [if_neg hsize]
    obtain ⟨hn, hzero, t, ht, hne⟩ | hb := h
    · refine scan_spec (.inl ⟨hn, hzero, t, ?_, hne⟩)
      rcases List.mem_cons.mp ht with rfl | ht
      · exact absurd (List.length_pos_iff.mpr hne) hsize
      · exact ht
    · exact scan_spec (.inr hb)

/-- An element that is enqueued stays with the others. -/
theorem enqueue_ne_nil {q : BlockingConcurrentQueue α} {thread : Nat} {item : α} {t : Nat}
    (h : q.inner.items t ≠ []) : (q.enqueue thread item).inner.items t ≠ [] := by
  show (q.inner.push thread item).items t ≠ []
  rw [SubQueues.push_items]
  by_cases ht : t = thread
  · subst ht
    rw [Function.update_self]
    simp
  · rwa [Function.update_of_ne ht]

/-- **One access of the consumer.**  It is defined, and the second loop is not entered. -/
theorem Inv.next (hi : s.Inv) (hpc : s.pc ≠ .idle) :
    ∃ s', s.next = some s' ∧ Inv { s' with accesses := s'.accesses + 1 } := by
  have hbalance := hi.balance
  have hok := hi.consumer
  have hbound := hi.bound
  -- the consumer only goes on
  have hgoes : ∀ {pc : DequeuePc}, s.pc.permits = 1 → s.next = some { s with pc := pc } →
      pc.Ok s.requests.inner.items → pc.permits = 1 →
      pc.left s.producerList.length < s.pc.left s.producerList.length →
      ∃ s', s.next = some s' ∧ Inv { s' with accesses := s'.accesses + 1 } := by
    intro pc hold hnext hok' hnew hless
    refine ⟨_, hnext, hi.listed, ?_, hi.failures, hok', ?_⟩
    · show _ = _ + pc.permits
      rw [hnew, ← hold]
      exact hbalance
    · show s.accesses + 1 + pc.left s.producerList.length ≤ s.producerList.length + 2
      omega
  cases hc : s.pc with
  | idle => exact absurd hc hpc
  | loadTail =>
    -- the permit that it holds is that of an element
    have hcard : 0 < s.requests.inner.contents.card := by
      rw [hbalance, hc]
      exact Nat.succ_pos _
    obtain ⟨x, hx⟩ := Multiset.card_pos_iff_exists_mem.mp hcard
    obtain ⟨t, ht⟩ := SubQueues.mem_contents.mp hx
    have hne : s.requests.inner.items t ≠ [] := List.ne_nil_of_mem ht
    have hpromising : Promising s.requests.inner.items 0 none 0 s.producerList :=
      .inl ⟨rfl, rfl, t, hi.listed t hne, hne⟩
    obtain ⟨pc, hscan, hok', hpermits, hleft⟩ := scan_spec hpromising
    refine hgoes (by rw [hc]; rfl) (by simp only [BlockingDequeue.next, hc]; exact hscan) hok' hpermits ?_
    rw [hc]
    exact Nat.lt_succ_of_le (hleft _)
  | sizeApprox ptr next nonEmptyCount best bestSize =>
    obtain ⟨pc, hnext, hok', hpermits, hleft⟩ := next_sizeApprox hc hok
    refine hgoes (by rw [hc]; rfl) hnext hok' hpermits ?_
    rw [hc]
    exact Nat.lt_succ_of_le (hleft _)
  | dequeueBest best =>
    rw [hc] at hok
    obtain ⟨⟨x, q⟩, hq⟩ := Option.isSome_iff_exists.mp (SubQueues.removeHead_isSome hok)
    have hnext : s.next = some { s with
        requests := { s.requests with inner := q }, pc := .idle, items := s.items ++ [x] } := by
      simp only [BlockingDequeue.next, hc, dequeue, hq]
    obtain ⟨rest, hrest, hitems, -⟩ := SubQueues.removeHead_eq_some hq
    refine ⟨_, hnext, fun t ht => hi.listed t ?_, ?_, hi.failures, trivial, ?_⟩
    · intro hnil
      apply ht
      show q.items t = []
      rw [hitems]
      by_cases htb : t = best
      · subst htb
        rw [hrest] at hnil
        cases hnil
      · rw [Function.update_of_ne htb, hnil]
    · rw [SubQueues.contents_removeHead hq, Multiset.card_cons, hc] at hbalance
      simpa [DequeuePc.permits] using hbalance
    · rw [hc] at hbound
      exact hbound
  | reloadTail best =>
    rw [hc] at hok
    exact hok.elim
  | dequeueOther best ptr next =>
    rw [hc] at hok
    exact hok.elim

theorem Inv.step {a : Action α} (hi : s.Inv) (h : s.step a = some s') : s'.Inv := by
  have hbalance := hi.balance
  cases a with
  | addProducer thread =>
    simp only [BlockingDequeue.step] at h
    split at h
    · cases h
    · cases h
      refine { hi with listed := fun t ht => List.mem_cons_of_mem _ (hi.listed t ht), bound := ?_ }
      -- a longer list may cost the consumer another access only if it has not read it
      have hleft : ∀ {pc : DequeuePc} {n : Nat}, pc.left (n + 1) ≤ pc.left n + 1 := by
        intro pc n
        cases pc <;> simp only [DequeuePc.left] <;> omega
      have hbound := hi.bound
      have hone := @hleft s.pc s.producerList.length
      show s.accesses + s.pc.left (s.producerList.length + 1) ≤ s.producerList.length + 1 + 2
      omega
  | enqueue thread item =>
    simp only [BlockingDequeue.step] at h
    split at h
    · next hcan =>
      cases h
      refine ⟨fun t ht => ?_, ?_, hi.failures, ok_mono hi.consumer fun t ht => enqueue_ne_nil ht, hi.bound⟩
      · by_cases htt : t = thread
        · subst htt
          exact hcan.1
        · apply hi.listed
          intro hnil
          apply ht
          show (s.requests.inner.push thread item).items t = []
          rw [SubQueues.push_items, Function.update_of_ne htt, hnil]
      · show (s.requests.inner.push thread item).contents.card =
          s.requests.sema + (thread :: s.signalling).length + s.pc.permits
        rw [SubQueues.contents_push, Multiset.card_cons, List.length_cons]
        omega
    · cases h
  | signal thread =>
    simp only [BlockingDequeue.step] at h
    split at h
    · next hm =>
      cases h
      refine ⟨hi.listed, ?_, hi.failures, hi.consumer, hi.bound⟩
      show s.requests.inner.contents.card =
        s.requests.sema + 1 + (s.signalling.erase thread).length + s.pc.permits
      have hpos := List.length_pos_of_mem hm
      rw [List.length_erase_of_mem hm]
      omega
    · cases h
  | tryWait =>
    simp only [BlockingDequeue.step] at h
    split at h
    · next hpc =>
      split at h
      · next q hq =>
        -- the permit goes from the semaphore to the consumer
        cases h
        unfold BlockingConcurrentQueue.tryWait at hq
        split at hq
        · cases hq
          refine ⟨hi.listed, ?_, hi.failures, trivial, Nat.le_of_eq (Nat.zero_add _)⟩
          rw [hpc] at hbalance
          show s.requests.inner.contents.card = s.requests.sema - 1 + s.signalling.length + 1
          simp only [DequeuePc.permits] at hbalance
          omega
        · cases hq
      · cases h
        exact hi
    · cases h
  | next =>
    have hpc : s.pc ≠ .idle := by
      intro hpc
      simp only [BlockingDequeue.step, BlockingDequeue.next, hpc, Option.map_none] at h
      cases h
    obtain ⟨s1, hs1, hinv⟩ := hi.next hpc
    rw [BlockingDequeue.step, hs1] at h
    cases h
    exact hinv

/-- **The first call succeeds.**  However the producers go on in between, once the semaphore has given
the only consumer a permit, the inner `try_dequeue` finds a producer, never through a null pointer,
and that producer hands out an element: the loop around it is left at once, the second loop inside it
is not entered, and the consumer makes at most one access for each producer and two more, where a look
at a producer, `size_approx` with `next_prod`, counts as one. -/
theorem try_dequeue_first_try (h : Reachable step init s) :
    s.failures = 0 ∧ (∀ best, s.pc ≠ .reloadTail best) ∧ s.accesses ≤ s.producerList.length + 2 ∧
      (s.pc ≠ .idle → (s.step .next).isSome = true) := by
  have hi : s.Inv := h.invariant inv_init fun _ _ _ hi hs => hi.step hs
  refine ⟨hi.failures, fun best hpc => ?_, Nat.le_trans (Nat.le_add_right _ _) hi.bound, fun hpc => ?_⟩
  · have hok := hi.consumer
    rw [hpc] at hok
    exact hok
  · obtain ⟨s', hs', -⟩ := hi.next hpc
    rw [step, hs']
    rfl

/-- The consumer has passed the producer 1, still empty, when that enqueues an element too. -/
def passingRun : List (Action Nat) :=
  [.addProducer 0, .addProducer 1, .enqueue 0 7, .signal 0, .tryWait, .next, .next, .enqueue 1 8, .next]

theorem try_dequeue_first_try_passing : ∃ s : BlockingDequeue Nat, run step init passingRun = some s ∧
    s.pc = .dequeueBest 0 ∧ s.failures = 0 ∧ s.accesses ≤ s.producerList.length + 2 ∧
      (s.step .next).isSome = true := by
  have hrun : (run step init passingRun).map (fun s => s.pc) = some (.dequeueBest 0) := by decide
  obtain ⟨s, hs, hpc⟩ := Option.map_eq_some_iff.mp hrun
  obtain ⟨hfailures, -, haccesses, hnext⟩ := try_dequeue_first_try ⟨passingRun, hs⟩
  exact ⟨s, hs, hpc, hfailures, haccesses, hnext (by rw [hpc]; simp)⟩

end BlockingDequeue

end Us2d
