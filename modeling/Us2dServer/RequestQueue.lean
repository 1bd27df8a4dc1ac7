import Us2dServer.Lib.SubQueues

/-!
# The request queue

`moodycamel::BlockingConcurrentQueue`, as far as the server uses it: `enqueue` without a token
appends to the sub-queue of the calling thread and then signals the semaphore; `try_dequeue`
takes from the semaphore and then tries the inner queue until that hands out an item.  The
inner `try_dequeue` looks at the first three producers that seem to hold anything and takes
from the one that seems to hold most; producers stand latest first.

    tryDequeue size q = some (a, q')  →  ∃ ptr, q.removeHead ptr = some (a, q')
                                                        (tryDequeue_eq_some)
-/

namespace Us2d

/-- The inner queue, and the count of the semaphore. -/
structure BlockingConcurrentQueue (α : Type) where
  inner : SubQueues α
  sema : Nat

namespace BlockingConcurrentQueue

variable {α : Type}

def empty : BlockingConcurrentQueue α := ⟨SubQueues.empty, 0⟩

theorem card_empty : (empty : BlockingConcurrentQueue α).inner.contents.card =
    (empty : BlockingConcurrentQueue α).sema := rfl

/-- `inner.enqueue(item)` on a thread: the first half of `enqueue`. -/
def enqueue (thread : Nat) (item : α) (q : BlockingConcurrentQueue α) : BlockingConcurrentQueue α :=
  { q with inner := q.inner.push thread item }

/-- `sema->signal()`: the second half. -/
def signal (q : BlockingConcurrentQueue α) : BlockingConcurrentQueue α := { q with sema := q.sema + 1 }

/-- `sema->tryWait()`: the first half of `try_dequeue`. -/
def tryWait (q : BlockingConcurrentQueue α) : Option (BlockingConcurrentQueue α) :=
  if 0 < q.sema then some { q with sema := q.sema - 1 } else none

/-- The scoring loop of the inner `try_dequeue` along the producer list: `nonEmptyCount` and
`best`. -/
def score (sizeApprox : Nat → Nat) :
    List Nat → Nat → Option Nat → Nat → Nat × Option Nat
  | [], nonEmptyCount, best, _ => (nonEmptyCount, best)
  | ptr :: next, nonEmptyCount, best, bestSize =>
    if nonEmptyCount < 3 then
      let size := sizeApprox ptr
      if 0 < size then
        if bestSize < size then score sizeApprox next (nonEmptyCount + 1) (some ptr) size
        else score sizeApprox next (nonEmptyCount + 1) best bestSize
      else score sizeApprox next nonEmptyCount best bestSize
    else (nonEmptyCount, best)

/-- The inner `try_dequeue`; `sizeApprox` are the sizes that it sees. -/
def tryDequeue (sizeApprox : Nat → Nat) (q : SubQueues α) : Option (α × SubQueues α) :=
  match score sizeApprox q.producers 0 none 0 with
  | (_ + 1, some best) =>
    match q.removeHead best with
    | some out => some out
    | none => (q.producers.filter (· ≠ best)).findSome? q.removeHead
  | _ => none

/-! ## Lemmas -/

variable {sizeApprox : Nat → Nat} {q q' : SubQueues α} {a : α}

/-- Whatever sizes it sees, it hands out the head of a sub-queue. -/
theorem tryDequeue_eq_some (h : tryDequeue sizeApprox q = some (a, q')) :
    ∃ ptr, q.removeHead ptr = some (a, q') := by
  unfold tryDequeue at h
  split at h
  · next best _ =>
    split at h
    · next out hout => exact ⟨best, hout.trans h⟩
    · obtain ⟨ptr, -, hptr⟩ := List.exists_of_findSome?_eq_some h
      exact ⟨ptr, hptr⟩
  · cases h

/-- A producer that is seen to hold something makes the loop find a best one. -/
theorem score_of_pos {l : List Nat} {ptr : Nat} (hm : ptr ∈ l) (hpos : 0 < sizeApprox ptr) :
    ∃ n best, score sizeApprox l 0 none 0 = (n + 1, some best) ∧ 0 < sizeApprox best := by
  have hkeep : ∀ (l : List Nat) (n : Nat) (b : Nat) (size : Nat), 0 < sizeApprox b →
      ∃ n' best, score sizeApprox l (n + 1) (some b) size = (n' + 1, some best) ∧
        0 < sizeApprox best := by
    intro l
    induction l with
    | nil => exact fun n b _ hb => ⟨n, b, rfl, hb⟩
    | cons ptr l ih =>
      intro n b size hb
      simp only [score]
      repeat' split
      · next hp _ => exact ih _ _ _ hp
      · exact ih _ _ _ hb
      · exact ih _ _ _ hb
      · exact ⟨n, b, rfl, hb⟩
  induction l with
  | nil => cases hm
  | cons p l ih =>
    simp only [score, Nat.zero_lt_succ, if_true]
    by_cases hp : 0 < sizeApprox p
    · rw [if_pos hp, if_pos hp]
      exact hkeep l 0 p _ hp
    · rw [if_neg hp]
      rcases List.mem_cons.mp hm with rfl | hm
      · exact absurd hpos hp
      · exact ih hm

/-- It succeeds when it sees an item and every size it sees is a lower bound. -/
theorem tryDequeue_isSome {ptr : Nat} (hle : ∀ t, sizeApprox t ≤ (q.items t).length)
    (hpos : 0 < sizeApprox ptr) : (tryDequeue sizeApprox q).isSome := by
  have hne : ∀ t, 0 < sizeApprox t → q.items t ≠ [] := by
    intro t ht hnil
    have := hle t
    rw [hnil, List.length_nil] at this
    omega
  have hm : ptr ∈ q.producers := by
    apply Classical.byContradiction
    intro hn
    exact hne ptr hpos (q.closed ptr hn)
  obtain ⟨n, best, hscore, hbest⟩ := score_of_pos hm hpos
  unfold tryDequeue
  rw [hscore]
  have hsome := SubQueues.removeHead_isSome (hne best hbest)
  simp only
  split
  · rfl
  · next hnone => rw [hnone] at hsome; cases hsome

/-- An order in which `try_dequeue` hands out all items of the queue. -/
inductive RemovalOrder : SubQueues α → List α → Prop
  | nil {q : SubQueues α} (h : q.contents = 0) : RemovalOrder q []
  | cons {q q' : SubQueues α} {a : α} {rest : List α} (sizeApprox : Nat → Nat)
      (hle : ∀ t ∈ q.producers, sizeApprox t ≤ (q.items t).length)
      (h : tryDequeue sizeApprox q = some (a, q')) (hrest : RemovalOrder q' rest) :
      RemovalOrder q (a :: rest)

theorem RemovalOrder.length {order : List α} (h : RemovalOrder q order) :
    order.length = q.contents.card := by
  induction h with
  | nil h => rw [h]; rfl
  | cons sizeApprox hle h hrest ih =>
    obtain ⟨ptr, hpop⟩ := tryDequeue_eq_some h
    rw [SubQueues.contents_removeHead hpop, Multiset.card_cons, ← ih]
    rfl

/-- What `try_dequeue` sees when nobody enqueues lets it hand out everything. -/
theorem tryDequeue_isSome_of_mem (h : a ∈ q.contents) :
    (tryDequeue (fun t => (q.items t).length) q).isSome := by
  obtain ⟨t, ht⟩ := SubQueues.mem_contents.mp h
  exact tryDequeue_isSome (fun _ => Nat.le_refl _) (List.length_pos_of_mem ht)

theorem exists_removalOrder (q : SubQueues α) : ∃ order, RemovalOrder q order := by
  induction hn : q.contents.card generalizing q with
  | zero => exact ⟨[], .nil (Multiset.card_eq_zero.mp hn)⟩
  | succ n ih =>
    obtain ⟨a, ha⟩ := Multiset.card_pos_iff_exists_mem.mp (by omega : 0 < q.contents.card)
    obtain ⟨⟨b, q'⟩, htry⟩ := Option.isSome_iff_exists.mp (tryDequeue_isSome_of_mem ha)
    obtain ⟨ptr, hpop⟩ := tryDequeue_eq_some htry
    rw [SubQueues.contents_removeHead hpop, Multiset.card_cons] at hn
    obtain ⟨rest, hrest⟩ := ih q' (by omega)
    exact ⟨b :: rest, .cons _ (fun _ _ => Nat.le_refl _) htry hrest⟩

/-- Of two sub-queues of one item each, the one of the later producer is served. -/
example : (tryDequeue (fun _ => 1) (((SubQueues.empty.push 0 10).push 1 11))).map Prod.fst =
    some 11 := by decide

end BlockingConcurrentQueue

end Us2d
