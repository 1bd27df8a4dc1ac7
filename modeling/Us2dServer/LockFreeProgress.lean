import Us2dServer.LockFreeStackLaw
import Mathlib.Algebra.Order.BigOperators.Group.Finset

/-!
# The stack without the window

What does not need `Windowed`, and so holds through every reuse of a node and every tag that has
gone round: the stack is lock-free, and no thread follows a pointer to a node that is not allocated.

A CAS fails because another one succeeded, or spuriously.  `Pc.rank` is the number of accesses
that a thread still makes if nobody interferes, two of them added when its handle is no longer
the head, since its CAS will fail and it will load and write again.  A successful CAS outdates at
most the handles of the other threads, and an operation has at most two of them (`Pc.casLeft`).
So the sum over the threads pays for every access:

    accesses ≤ (4 (N - 1) + 7) · calls + spurious failures       (lock_free)

Pointers only ever move between heads, links and threads, and nodes are not given back before the
stack is destroyed:

    the nodes in heads, links and handles are nodes that the allocator returned   (no_dangling)
-/

namespace Us2d

open AtomicObject Transition

variable {Node α : Type} [DecidableEq Node]

/-! ## The potential -/

/-- Accesses left in the popping loop, the head being `head`. -/
def Take.rank (head : TaggedPtr Node) : Take Node → Nat
  | .start => 3
  | .loaded old => if old = head then 2 else 4
  | .read top tag _ => if ⟨some top, tag⟩ = head then 1 else 3

/-- Accesses left in the pushing loop. -/
def Put.rank (head : TaggedPtr Node) : Put Node → Nat
  | .start => 3
  | .loaded old => if old = head then 2 else 4
  | .linked old => if old = head then 1 else 3

namespace Pc

/-- Accesses left in the operation. -/
def rank (head : Head → TaggedPtr Node) : Pc Node α → Nat
  | .idle => 0
  | .allocating _ at' => at'.rank (head .pool) + 4
  | .constructing _ _ => 4
  | .linking _ at' => at'.rank (head .tos)
  | .consuming at' => at'.rank (head .tos) + 4
  | .moving _ => 4
  | .deallocating _ _ at' => at'.rank (head .pool)

/-- Successful CASes left in the operation. -/
def casLeft : Pc Node α → Nat
  | .idle => 0
  | .allocating _ _ => 2
  | .constructing _ _ => 1
  | .linking _ _ => 1
  | .consuming _ => 2
  | .moving _ => 1
  | .deallocating _ _ _ => 1

/-- What a thread may still spend, each of its CASes costing the others `w` accesses. -/
def weight (w : Nat) (head : Head → TaggedPtr Node) (p : Pc Node α) : Nat :=
  p.rank head + w * p.casLeft

end Pc

theorem Take.rank_le (head head' : TaggedPtr Node) (at' : Take Node) :
    at'.rank head' ≤ at'.rank head + 2 := by
  cases at' with
  | start => exact Nat.le_add_right _ _
  | loaded old =>
    simp only [Take.rank]
    split <;> split <;> omega
  | read top tag link =>
    simp only [Take.rank]
    split <;> split <;> omega

theorem Put.rank_le (head head' : TaggedPtr Node) (at' : Put Node) :
    at'.rank head' ≤ at'.rank head + 2 := by
  cases at' with
  | start => exact Nat.le_add_right _ _
  | loaded old =>
    simp only [Put.rank]
    split <;> split <;> omega
  | linked old =>
    simp only [Put.rank]
    split <;> split <;> omega

theorem Take.rank_pos (head : TaggedPtr Node) (at' : Take Node) : 1 ≤ at'.rank head := by
  cases at' with
  | start => exact Nat.le_add_left _ _
  | loaded old =>
    simp only [Take.rank]
    split <;> omega
  | read top tag link =>
    simp only [Take.rank]
    split <;> omega

theorem Put.rank_pos (head : TaggedPtr Node) (at' : Put Node) : 1 ≤ at'.rank head := by
  cases at' with
  | start => exact Nat.le_add_left _ _
  | loaded old =>
    simp only [Put.rank]
    split <;> omega
  | linked old =>
    simp only [Put.rank]
    split <;> omega

/-- The first load, and the one after a CAS that found another head. -/
theorem Take.rank_load {head : TaggedPtr Node} {at' : Take Node}
    (h : at' = .start ∨ ∃ top tag link, at' = .read top tag link ∧ head ≠ ⟨some top, tag⟩) :
    (Take.loaded head).rank head + 1 ≤ at'.rank head := by
  rcases h with rfl | ⟨top, tag, link, rfl, hne⟩
  · simp [Take.rank]
  · simp [Take.rank, Ne.symm hne]

theorem Put.rank_load {head : TaggedPtr Node} {at' : Put Node}
    (h : at' = .start ∨ ∃ old, at' = .linked old ∧ head ≠ old) :
    (Put.loaded head).rank head + 1 ≤ at'.rank head := by
  rcases h with rfl | ⟨old, rfl, hne⟩
  · simp [Put.rank]
  · simp [Put.rank, Ne.symm hne]

theorem Take.rank_read (head : TaggedPtr Node) (top : Node) (tag : BitVec 16) (link : Option Node) :
    (Take.read top tag link).rank head + 1 = (Take.loaded ⟨some top, tag⟩).rank head := by
  simp only [Take.rank]
  split <;> rfl

theorem Put.rank_link (head old : TaggedPtr Node) :
    (Put.linked old).rank head + 1 = (Put.loaded old).rank head := by
  simp only [Put.rank]
  split <;> rfl

/-- A CAS of another thread costs two accesses. -/
theorem Pc.weight_le (w : Nat) (head head' : Head → TaggedPtr Node) (p : Pc Node α) :
    p.weight w head' ≤ p.weight w head + 2 := by
  unfold Pc.weight Pc.rank
  cases p with
  | allocating x at' =>
    have := at'.rank_le (head .pool) (head' .pool)
    simp only
    omega
  | linking n at' =>
    have := at'.rank_le (head .tos) (head' .tos)
    simp only
    omega
  | consuming at' =>
    have := at'.rank_le (head .tos) (head' .tos)
    simp only
    omega
  | deallocating n x at' =>
    have := at'.rank_le (head .pool) (head' .pool)
    simp only
    omega
  | _ => exact Nat.le_add_right _ _

namespace StackThreads

/-- What the first `N` threads may still spend. -/
def potential (N : Nat) (s : StackThreads Node α) : Nat :=
  Parties.total N fun t => (s.pc t).weight (2 * (N - 1)) s.stack.head

variable {s : StackThreads Node α} {m : LockFreeStack Node α} {p : Pc Node α} {t N : Nat}

/-- A step of the thread `t` that leaves the heads alone. -/
theorem potential_goto (ht : t < N) (hm : m.head = s.stack.head) :
    potential N (goto ⟨m, s.pc⟩ t p) + (s.pc t).weight (2 * (N - 1)) s.stack.head =
      potential N s + p.weight (2 * (N - 1)) s.stack.head := by
  unfold potential
  rw [Parties.total_eq ht, Parties.total_eq ht, goto_pc_self, goto_stack, hm]
  have hothers : Parties.others N t
      (fun u => ((goto ⟨m, s.pc⟩ t p).pc u).weight (2 * (N - 1)) s.stack.head) =
        Parties.others N t (fun u => (s.pc u).weight (2 * (N - 1)) s.stack.head) :=
    Parties.others_congr fun u hu => by rw [goto_pc_of_ne _ _ hu]
  rw [hothers]
  omega

/-- A CAS of the thread `t`: the others may have to load again. -/
theorem potential_cas (ht : t < N) :
    potential N (goto ⟨m, s.pc⟩ t p) + (s.pc t).weight (2 * (N - 1)) s.stack.head ≤
      potential N s + p.weight (2 * (N - 1)) m.head + 2 * (N - 1) := by
  unfold potential
  rw [Parties.total_eq ht, Parties.total_eq ht]
  simp only [goto_pc_self, goto_stack]
  have hothers : Parties.others N t
      (fun u => ((goto ⟨m, s.pc⟩ t p).pc u).weight (2 * (N - 1)) m.head) ≤
        Parties.others N t (fun u => (s.pc u).weight (2 * (N - 1)) s.stack.head) + 2 * (N - 1) := by
    calc Parties.others N t (fun u => ((goto ⟨m, s.pc⟩ t p).pc u).weight (2 * (N - 1)) m.head)
        = Parties.others N t (fun u => (s.pc u).weight (2 * (N - 1)) m.head) :=
          Parties.others_congr fun u hu => by rw [goto_pc_of_ne _ _ hu]
      _ ≤ Parties.others N t (fun u => (s.pc u).weight (2 * (N - 1)) s.stack.head + 2) :=
          Finset.sum_le_sum fun u _ => Pc.weight_le _ _ _ _
      _ = _ := by
          have hcard : ∑ _u ∈ (Finset.range N).erase t, 2 = (N - 1) * 2 := by
            rw [Finset.sum_const_nat fun _ _ => rfl,
              Finset.card_erase_of_mem (Finset.mem_range.mpr ht), Finset.card_range]
          rw [Parties.others, Finset.sum_add_distrib, hcard, Nat.mul_comm (N - 1)]
          rfl
  omega

theorem spend_quiet (ht : t < N) (hm : m.head = s.stack.head)
    (hr : p.rank s.stack.head + 1 ≤ (s.pc t).rank s.stack.head)
    (hc : p.casLeft ≤ (s.pc t).casLeft) : potential N (goto ⟨m, s.pc⟩ t p) + 1 ≤ potential N s := by
  have hgoto := potential_goto (p := p) ht hm
  have hmul := Nat.mul_le_mul_left (2 * (N - 1)) hc
  unfold Pc.weight at hgoto
  omega

theorem spend_cas (ht : t < N) (hr : p.rank m.head + 1 ≤ (s.pc t).rank s.stack.head)
    (hc : p.casLeft + 1 = (s.pc t).casLeft) :
    potential N (goto ⟨m, s.pc⟩ t p) + 1 ≤ potential N s := by
  have hgoto := potential_cas (s := s) (m := m) (p := p) ht
  unfold Pc.weight at hgoto
  rw [← hc, Nat.mul_add, Nat.mul_one] at hgoto
  omega

/-- **Step of the potential.**  Every access spends one. -/
theorem next_spends {s' : StackThreads Node α} {o : List (Observed (StackOp α) (StackRes α))}
    (ht : t < N) (h : s.next t = some (s', o)) : potential N s' + 1 ≤ potential N s := by
  unfold StackThreads.next at h
  cases hpc : s.pc t with
  | idle => simp [hpc] at h
  | allocating y at' =>
    simp only [hpc, LockFreeStack.allocateImpl] at h
    rcases s.stack.takeTop_cases .pool at' with
      ⟨hat, htop⟩ | ⟨tag, rfl, htop⟩ | ⟨top, tag, rfl, htop⟩ | ⟨top, tag, link, rfl, hhead, htop⟩
    all_goals
      rw [htop] at h
      cases h
    · refine spend_quiet ht rfl ?_ (by rw [hpc]; rfl)
      have := Take.rank_load hat
      rw [hpc]
      simp only [Pc.rank]
      omega
    · refine spend_quiet ht rfl ?_ (by rw [hpc]; rfl)
      have := Take.rank_read (s.stack.head .pool) top tag (s.stack.next top)
      rw [hpc]
      simp only [Pc.rank]
      omega
    · refine spend_cas ht ?_ (by rw [hpc]; rfl)
      have := Take.rank_pos (s.stack.head .pool) (.read top tag link)
      rw [hpc]
      simp only [Pc.rank]
      omega
  | constructing y n =>
    simp only [hpc] at h
    cases h
    exact spend_quiet ht rfl (by rw [hpc]; rfl) (by rw [hpc]; rfl)
  | linking n at' =>
    simp only [hpc, LockFreeStack.linkNodesAtomic] at h
    rcases s.stack.putTop_cases .tos n at' with
      ⟨hat, htop⟩ | ⟨old, rfl, htop⟩ | ⟨old, rfl, hhead, htop⟩
    all_goals
      rw [htop] at h
      cases h
    · refine spend_quiet ht rfl ?_ (by rw [hpc]; rfl)
      rw [hpc]
      exact Put.rank_load hat
    · refine spend_quiet ht rfl ?_ (by rw [hpc]; rfl)
      rw [hpc]
      exact (Put.rank_link _ _).le
    · refine spend_cas ht ?_ (by rw [hpc]; rfl)
      rw [hpc]
      exact Put.rank_pos (s.stack.head .tos) (.linked old)
  | consuming at' =>
    simp only [hpc, LockFreeStack.consumeOne] at h
    rcases s.stack.takeTop_cases .tos at' with
      ⟨hat, htop⟩ | ⟨tag, rfl, htop⟩ | ⟨top, tag, rfl, htop⟩ | ⟨top, tag, link, rfl, hhead, htop⟩
    all_goals
      rw [htop] at h
      cases h
    · refine spend_quiet ht rfl ?_ (by rw [hpc]; rfl)
      have := Take.rank_load hat
      rw [hpc]
      simp only [Pc.rank]
      omega
    · refine spend_quiet ht rfl ?_ (by rw [hpc]; exact Nat.zero_le _)
      rw [hpc]
      exact Nat.le_add_left _ _
    · refine spend_quiet ht rfl ?_ (by rw [hpc]; rfl)
      have := Take.rank_read (s.stack.head .tos) top tag (s.stack.next top)
      rw [hpc]
      simp only [Pc.rank]
      omega
    · refine spend_cas ht ?_ (by rw [hpc]; rfl)
      have := Take.rank_pos (s.stack.head .tos) (.read top tag link)
      rw [hpc]
      simp only [Pc.rank]
      omega
  | moving n =>
    simp only [hpc] at h
    cases h
    exact spend_quiet ht rfl (by rw [hpc]; rfl) (by rw [hpc]; rfl)
  | deallocating n y at' =>
    simp only [hpc, LockFreeStack.deallocateImpl] at h
    rcases s.stack.putTop_cases .pool n at' with
      ⟨hat, htop⟩ | ⟨old, rfl, htop⟩ | ⟨old, rfl, hhead, htop⟩
    all_goals
      rw [htop] at h
      cases h
    · refine spend_quiet ht rfl ?_ (by rw [hpc]; rfl)
      rw [hpc]
      exact Put.rank_load hat
    · refine spend_quiet ht rfl ?_ (by rw [hpc]; rfl)
      rw [hpc]
      exact (Put.rank_link _ _).le
    · refine spend_cas ht ?_ (by rw [hpc]; rfl)
      rw [hpc]
      exact Put.rank_pos (s.stack.head .pool) (.linked old)

/-- A CAS that fails spuriously sends the thread back by one access. -/
theorem weak_spends {s' : StackThreads Node α} (ht : t < N) (h : s.weak t = some s') :
    potential N s' ≤ potential N s + 1 := by
  have hback : ∀ p : Pc Node α, p.rank s.stack.head ≤ (s.pc t).rank s.stack.head + 1 →
      p.casLeft = (s.pc t).casLeft → potential N (s.goto t p) ≤ potential N s + 1 := by
    intro p hr hc
    have hgoto := potential_goto (s := s) (m := s.stack) (p := p) ht rfl
    have heq : goto ⟨s.stack, s.pc⟩ t p = s.goto t p := rfl
    unfold Pc.weight at hgoto
    rw [heq, hc] at hgoto
    omega
  have hload : ∀ h, (Take.loaded (s.stack.head h)).rank (s.stack.head h) = 2 := by simp [Take.rank]
  have hload' : ∀ h, (Put.loaded (s.stack.head h)).rank (s.stack.head h) = 2 := by simp [Put.rank]
  unfold StackThreads.weak at h
  cases hpc : s.pc t with
  | allocating y at' =>
    simp only [hpc] at h
    obtain ⟨at1, hat, rfl⟩ := Option.map_eq_some_iff.mp h
    cases at' with
    | read top tag link =>
      cases hat
      refine hback _ ?_ (by rw [hpc]; rfl)
      have := Take.rank_pos (s.stack.head .pool) (.read top tag link)
      rw [hpc]
      simp only [Pc.rank, hload]
      omega
    | _ => cases hat
  | consuming at' =>
    simp only [hpc] at h
    obtain ⟨at1, hat, rfl⟩ := Option.map_eq_some_iff.mp h
    cases at' with
    | read top tag link =>
      cases hat
      refine hback _ ?_ (by rw [hpc]; rfl)
      have := Take.rank_pos (s.stack.head .tos) (.read top tag link)
      rw [hpc]
      simp only [Pc.rank, hload]
      omega
    | _ => cases hat
  | linking n at' =>
    simp only [hpc] at h
    obtain ⟨at1, hat, rfl⟩ := Option.map_eq_some_iff.mp h
    cases at' with
    | linked old =>
      cases hat
      refine hback _ ?_ (by rw [hpc]; rfl)
      have := Put.rank_pos (s.stack.head .tos) (.linked old)
      rw [hpc]
      simp only [Pc.rank, hload']
      omega
    | _ => cases hat
  | deallocating n y at' =>
    simp only [hpc] at h
    obtain ⟨at1, hat, rfl⟩ := Option.map_eq_some_iff.mp h
    cases at' with
    | linked old =>
      cases hat
      refine hback _ ?_ (by rw [hpc]; rfl)
      have := Put.rank_pos (s.stack.head .pool) (.linked old)
      rw [hpc]
      simp only [Pc.rank, hload']
      omega
    | _ => cases hat
  | _ => simp [hpc] at h

/-! ## Runs -/

namespace Action

omit [DecidableEq Node]

def thread : Action Node α → Nat
  | .call t _ => t
  | .next t => t
  | .weak t => t
  | .allocate t _ => t

def isCall : Action Node α → Bool
  | .call _ _ => true
  | _ => false

/-- An access of the code, a spurious failure excepted. -/
def isAccess : Action Node α → Bool
  | .next _ => true
  | .allocate _ _ => true
  | _ => false

def isSpurious : Action Node α → Bool
  | .weak _ => true
  | _ => false

end Action

variable [Inhabited α]

theorem act_spends {s' : StackThreads Node α} {a : Action Node α}
    {o : List (Observed (StackOp α) (StackRes α))} (ht : a.thread < N)
    (h : act s a = some (s', o)) :
    potential N s' + a.isAccess.toNat ≤
      potential N s + (4 * (N - 1) + 7) * a.isCall.toNat + a.isSpurious.toNat := by
  cases a with
  | call t op =>
    simp only [act] at h
    split at h
    · next hpc =>
      cases h
      have hgoto := potential_goto (s := s) (m := s.stack) (p := enter op) (t := t) ht rfl
      have henter : (enter op : Pc Node α).weight (2 * (N - 1)) s.stack.head = 4 * (N - 1) + 7 := by
        cases op <;> simp only [enter, Pc.weight, Pc.rank, Pc.casLeft, Take.rank] <;> omega
      have heq : goto ⟨s.stack, s.pc⟩ t (enter op) = s.goto t (enter op) := rfl
      rw [heq, henter] at hgoto
      simp only [Action.isAccess, Action.isCall, Action.isSpurious, Bool.toNat_false, Bool.toNat_true]
      omega
    · cases h
  | next t =>
    have := next_spends ht h
    simp only [Action.isAccess, Action.isCall, Action.isSpurious, Bool.toNat_false, Bool.toNat_true]
    omega
  | weak t =>
    obtain ⟨s1, hweak, heq⟩ := Option.map_eq_some_iff.mp h
    cases heq
    have := weak_spends ht hweak
    simp only [Action.isAccess, Action.isCall, Action.isSpurious, Bool.toNat_false, Bool.toNat_true]
    omega
  | allocate t n =>
    simp only [act] at h
    split at h
    · next y tag hpc =>
      split at h
      · cases h
      · cases h
        have hspend : potential N (goto ⟨s.stack.newNode n, s.pc⟩ t (.constructing y n)) + 1 ≤
            potential N s := by
          refine spend_quiet ht rfl ?_ (by rw [hpc]; exact Nat.le_succ _)
          have := Take.rank_pos (s.stack.head .pool) (.loaded ⟨none, tag⟩)
          rw [hpc]
          simp only [Pc.rank]
          omega
        simp only [Action.isAccess, Action.isCall, Action.isSpurious, Bool.toNat_false,
          Bool.toNat_true]
        omega
    · cases h

theorem run_spends {s s' : StackThreads Node α} {as : List (Action Node α)}
    (hN : ∀ a ∈ as, a.thread < N) (h : run step s as = some s') :
    potential N s' + as.countP Action.isAccess ≤
      potential N s + (4 * (N - 1) + 7) * as.countP Action.isCall + as.countP Action.isSpurious := by
  induction as generalizing s with
  | nil =>
    cases h
    exact Nat.le_add_right _ _
  | cons a as ih =>
    obtain ⟨s1, ha, has⟩ := run_cons.mp h
    obtain ⟨⟨s2, o⟩, hact, heq⟩ := Option.map_eq_some_iff.mp ha
    obtain rfl : s2 = s1 := heq
    have h1 := act_spends (hN a List.mem_cons_self) hact
    have h2 := ih (fun b hb => hN b (List.mem_cons_of_mem _ hb)) has
    have hcount : ∀ q : Action Node α → Bool, (a :: as).countP q = as.countP q + (q a).toNat := by
      intro q
      rw [List.countP_cons]
      cases q a <;> rfl
    rw [hcount, hcount, hcount, Nat.mul_add]
    omega

/-- A thread in a call can go on: with its next access, or with a node from the allocator. -/
theorem next_enabled (ht : s.pc t ≠ .idle) : (∃ r, act s (.next t) = some r) ∨
    ∀ n, n ∉ s.stack.heap → ∃ r, act s (.allocate t n) = some r := by
  cases hpc : s.pc t with
  | idle => exact absurd hpc ht
  | allocating y at' =>
    rcases s.stack.takeTop_cases .pool at' with
      ⟨-, htop⟩ | ⟨tag, rfl, -⟩ | ⟨top, tag, -, htop⟩ | ⟨top, tag, link, -, -, htop⟩
    · left
      simp [act, StackThreads.next, hpc, LockFreeStack.allocateImpl, htop]
    · right
      intro n hn
      simp [act, hpc, hn]
    · left
      simp [act, StackThreads.next, hpc, LockFreeStack.allocateImpl, htop]
    · left
      simp [act, StackThreads.next, hpc, LockFreeStack.allocateImpl, htop]
  | linking n at' =>
    left
    simp only [act, StackThreads.next, hpc]
    split <;> exact ⟨_, rfl⟩
  | consuming at' =>
    left
    simp only [act, StackThreads.next, hpc]
    split <;> exact ⟨_, rfl⟩
  | deallocating n y at' =>
    left
    simp only [act, StackThreads.next, hpc]
    split <;> exact ⟨_, rfl⟩
  | _ =>
    left
    simp [act, StackThreads.next, hpc]

/-- **Lock freedom.**  Whatever the interleaving, `N` threads make at most `4 (N - 1) + 7`
accesses for each call made so far, and one more for each spurious failure; and a thread that is
in a call is never stuck.  So calls return as long as accesses are made. -/
theorem lock_free (nodes : List Node) (N : Nat) (as : List (Action Node α))
    (s : StackThreads Node α) (h : run step (init nodes) as = some s)
    (hN : ∀ a ∈ as, a.thread < N) :
    as.countP Action.isAccess ≤
        (4 * (N - 1) + 7) * as.countP Action.isCall + as.countP Action.isSpurious ∧
      ∀ t, s.pc t ≠ .idle → (∃ r, act s (.next t) = some r) ∨
        ∀ n, n ∉ s.stack.heap → ∃ r, act s (.allocate t n) = some r := by
  refine ⟨?_, fun t ht => next_enabled ht⟩
  have hspent := run_spends hN h
  have hzero : potential N (init nodes : StackThreads Node α) = 0 :=
    Parties.total_eq_zero fun _ _ => rfl
  omega

/-- The three calls of the race take 24 accesses, two of them CASes that fail. -/
theorem lock_free_race : ∃ s : StackThreads Nat Nat, run step (init [0]) raceRun = some s ∧
    raceRun.countP Action.isAccess ≤ (4 * (4 - 1) + 7) * 3 + 0 := by
  obtain ⟨⟨s, os⟩, hs, -⟩ := Option.map_eq_some_iff.mp raceRun_observed
  have hrun := run_of_trace hs
  exact ⟨s, hrun, (lock_free [0] 4 raceRun s hrun (by decide)).1⟩

end StackThreads

/-! ## Pointers -/

section

omit [DecidableEq Node]

/-- The nodes a thread has pointers to. -/
def Take.nodes : Take Node → List Node
  | .start => []
  | .loaded old => old.ptr.toList
  | .read top _ link => top :: link.toList

def Put.nodes : Put Node → List Node
  | .start => []
  | .loaded old => old.ptr.toList
  | .linked old => old.ptr.toList

def Pc.nodes : Pc Node α → List Node
  | .idle => []
  | .allocating _ at' => at'.nodes
  | .constructing _ n => [n]
  | .linking n at' => n :: at'.nodes
  | .consuming at' => at'.nodes
  | .moving n => [n]
  | .deallocating n _ at' => n :: at'.nodes

end

/-- The pointers in the stack's memory are to allocated nodes. -/
structure LockFreeStack.Closed (m : LockFreeStack Node α) : Prop where
  head : ∀ h, ∀ n ∈ (m.head h).ptr, n ∈ m.heap
  next : ∀ k ∈ m.heap, ∀ n ∈ m.next k, n ∈ m.heap

namespace LockFreeStack

variable {m m' : LockFreeStack Node α} {h : Head} {n : Node}

theorem Closed.setNext (hm : m.Closed) {w : Option Node} (hw : ∀ k ∈ w, k ∈ m.heap) :
    (m.setNext n w).Closed := by
  refine ⟨hm.head, fun k hk j hj => ?_⟩
  by_cases hkn : k = n
  · subst hkn
    rw [show (m.setNext k w).next k = w from Function.update_self _ _ _] at hj
    exact hw j hj
  · rw [show (m.setNext n w).next k = m.next k from Function.update_of_ne hkn _ _] at hj
    exact hm.next k hk j hj

omit [DecidableEq Node] in
theorem Closed.setHead (hm : m.Closed) {p : TaggedPtr Node} (hp : ∀ k ∈ p.ptr, k ∈ m.heap) :
    (m.setHead h p).Closed := by
  refine ⟨fun h' k hk => ?_, hm.next⟩
  by_cases hh : h' = h
  · subst hh
    rw [show (m.setHead h' p).head h' = p from Function.update_self _ _ _] at hk
    exact hp k hk
  · rw [show (m.setHead h p).head h' = m.head h' from Function.update_of_ne hh _ _] at hk
    exact hm.head h' k hk

theorem Closed.newNode [Inhabited α] (hm : m.Closed) (n : Node) : (m.newNode n).Closed := by
  refine ⟨fun h k hk => List.mem_cons_of_mem _ (hm.head h k hk), fun k hk j hj => ?_⟩
  by_cases hkn : k = n
  · subst hkn
    rw [show (m.newNode k).next k = none from Function.update_self _ _ _] at hj
    cases hj
  · rw [show (m.newNode n).next k = m.next k from Function.update_of_ne hkn _ _] at hj
    exact List.mem_cons_of_mem _ (hm.next k ((List.mem_cons.mp hk).resolve_left hkn) j hj)

theorem Closed.takeTop {at' : Take Node} (hm : m.Closed) (hat : ∀ k ∈ at'.nodes, k ∈ m.heap) :
    (m.takeTop h at').1.Closed ∧ (m.takeTop h at').1.heap = m.heap ∧
      (∀ at1, (m.takeTop h at').2 = .again at1 → ∀ k ∈ at1.nodes, k ∈ m.heap) ∧
      ∀ n, (m.takeTop h at').2 = .node n → n ∈ m.heap := by
  have hload : ∀ k ∈ (Take.loaded (m.head h)).nodes, k ∈ m.heap :=
    fun k hk => hm.head h k (Option.mem_toList.mp hk)
  rcases m.takeTop_cases h at' with
    ⟨-, htop⟩ | ⟨tag, -, htop⟩ | ⟨top, tag, rfl, htop⟩ | ⟨top, tag, link, rfl, -, htop⟩
  all_goals rw [htop]
  · refine ⟨hm, rfl, ?_, fun n hn => by cases hn⟩
    rintro at1 ⟨⟩
    exact hload
  · exact ⟨hm, rfl, fun at1 hn => (by cases hn), fun n hn => by cases hn⟩
  · have htop' : top ∈ m.heap := hat top (by simp [Take.nodes])
    refine ⟨hm, rfl, ?_, fun n hn => by cases hn⟩
    rintro at1 ⟨⟩ k hk
    rcases List.mem_cons.mp hk with rfl | hk
    · exact htop'
    · exact hm.next top htop' k (Option.mem_toList.mp hk)
  · refine ⟨hm.setHead fun k hk => hat k ?_, rfl, fun at1 hn => (by cases hn), ?_⟩
    · exact List.mem_cons_of_mem _ (Option.mem_toList.mpr hk)
    · rintro n ⟨⟩
      exact hat top List.mem_cons_self

theorem Closed.putTop {at' : Put Node} (hm : m.Closed) (hn : n ∈ m.heap)
    (hat : ∀ k ∈ at'.nodes, k ∈ m.heap) :
    (m.putTop h n at').1.Closed ∧ (m.putTop h n at').1.heap = m.heap ∧
      ∀ at1, (m.putTop h n at').2 = some at1 → ∀ k ∈ at1.nodes, k ∈ m.heap := by
  rcases m.putTop_cases h n at' with
    ⟨-, htop⟩ | ⟨old, rfl, htop⟩ | ⟨old, rfl, -, htop⟩
  all_goals rw [htop]
  · refine ⟨hm, rfl, ?_⟩
    rintro at1 ⟨⟩ k hk
    exact hm.head h k (Option.mem_toList.mp hk)
  · refine ⟨hm.setNext fun k hk => hat k (Option.mem_toList.mpr hk), rfl, ?_⟩
    rintro at1 ⟨⟩
    exact hat
  · refine ⟨hm.setHead ?_, rfl, fun at1 hat1 => by cases hat1⟩
    rintro k ⟨⟩
    exact hn

end LockFreeStack

namespace StackThreads

/-- No pointer, in memory or in a thread, is to a node that is not allocated. -/
structure NoDangling (s : StackThreads Node α) : Prop where
  memory : s.stack.Closed
  threads : ∀ t, ∀ n ∈ (s.pc t).nodes, n ∈ s.stack.heap

variable {s s' : StackThreads Node α} {m : LockFreeStack Node α} {p : Pc Node α} {t : Nat}

omit [DecidableEq Node] in
theorem NoDangling.goto (hs : s.NoDangling) (hm : m.Closed) (hheap : ∀ n ∈ s.stack.heap, n ∈ m.heap)
    (hp : ∀ n ∈ p.nodes, n ∈ m.heap) : NoDangling (StackThreads.goto ⟨m, s.pc⟩ t p) := by
  refine ⟨hm, fun u n hn => ?_⟩
  by_cases hu : u = t
  · subst hu
    rw [goto_pc_self] at hn
    exact hp n hn
  · rw [goto_pc_of_ne _ _ hu] at hn
    exact hheap n (hs.threads u n hn)

theorem NoDangling.next {o : List (Observed (StackOp α) (StackRes α))} (hs : s.NoDangling)
    (h : s.next t = some (s', o)) : s'.NoDangling := by
  have hpt := hs.threads t
  unfold StackThreads.next at h
  cases hpc : s.pc t with
  | idle => simp [hpc] at h
  | allocating y at' =>
    rw [hpc] at hpt
    obtain ⟨hm, hheap, hagain, hnode⟩ := hs.memory.takeTop (h := .pool) hpt
    simp only [hpc, LockFreeStack.allocateImpl] at h
    split at h
    · next m at1 heq =>
      rw [heq] at hm hheap hagain
      cases h
      exact hs.goto hm (fun n hn => hheap ▸ hn) fun n hn => hheap ▸ hagain at1 rfl n hn
    · cases h
    · next m n heq =>
      rw [heq] at hm hheap hnode
      cases h
      refine hs.goto hm (fun n hn => hheap ▸ hn) fun k hk => ?_
      rw [List.mem_singleton.mp hk]
      exact hheap ▸ hnode n rfl
  | constructing y n =>
    rw [hpc] at hpt
    simp only [hpc] at h
    cases h
    exact hs.goto ⟨hs.memory.head, hs.memory.next⟩ (fun _ hn => hn) hpt
  | linking n at' =>
    rw [hpc] at hpt
    have hn : n ∈ s.stack.heap := hpt n List.mem_cons_self
    obtain ⟨hm, hheap, hagain⟩ := hs.memory.putTop (h := .tos) hn
      fun k hk => hpt k (List.mem_cons_of_mem _ hk)
    simp only [hpc, LockFreeStack.linkNodesAtomic] at h
    split at h
    · next m at1 heq =>
      rw [heq] at hm hheap hagain
      cases h
      refine hs.goto hm (fun n hn => hheap ▸ hn) fun k hk => ?_
      rcases List.mem_cons.mp hk with rfl | hk
      · exact hheap ▸ hn
      · exact hheap ▸ hagain at1 rfl k hk
    · next m heq =>
      rw [heq] at hm hheap
      cases h
      exact hs.goto hm (fun n hn => hheap ▸ hn) fun k hk => absurd hk List.not_mem_nil
  | consuming at' =>
    rw [hpc] at hpt
    obtain ⟨hm, hheap, hagain, hnode⟩ := hs.memory.takeTop (h := .tos) hpt
    simp only [hpc, LockFreeStack.consumeOne] at h
    split at h
    · next m at1 heq =>
      rw [heq] at hm hheap hagain
      cases h
      exact hs.goto hm (fun n hn => hheap ▸ hn) fun n hn => hheap ▸ hagain at1 rfl n hn
    · next m heq =>
      rw [heq] at hm hheap
      cases h
      exact hs.goto hm (fun n hn => hheap ▸ hn) fun k hk => absurd hk List.not_mem_nil
    · next m n heq =>
      rw [heq] at hm hheap hnode
      cases h
      refine hs.goto hm (fun n hn => hheap ▸ hn) fun k hk => ?_
      rw [List.mem_singleton.mp hk]
      exact hheap ▸ hnode n rfl
  | moving n =>
    rw [hpc] at hpt
    simp only [hpc] at h
    cases h
    exact hs.goto hs.memory (fun _ hn => hn) hpt
  | deallocating n y at' =>
    rw [hpc] at hpt
    have hn : n ∈ s.stack.heap := hpt n List.mem_cons_self
    obtain ⟨hm, hheap, hagain⟩ := hs.memory.putTop (h := .pool) hn
      fun k hk => hpt k (List.mem_cons_of_mem _ hk)
    simp only [hpc, LockFreeStack.deallocateImpl] at h
    split at h
    · next m at1 heq =>
      rw [heq] at hm hheap hagain
      cases h
      refine hs.goto hm (fun n hn => hheap ▸ hn) fun k hk => ?_
      rcases List.mem_cons.mp hk with rfl | hk
      · exact hheap ▸ hn
      · exact hheap ▸ hagain at1 rfl k hk
    · next m heq =>
      rw [heq] at hm hheap
      cases h
      exact hs.goto hm (fun n hn => hheap ▸ hn) fun k hk => absurd hk List.not_mem_nil

omit [DecidableEq Node] in
theorem NoDangling.weak (hs : s.NoDangling) (h : s.weak t = some s') : s'.NoDangling := by
  have hpt := hs.threads t
  have hhead : ∀ h, ∀ k ∈ (s.stack.head h).ptr.toList, k ∈ s.stack.heap :=
    fun h k hk => hs.memory.head h k (Option.mem_toList.mp hk)
  have hback : ∀ p : Pc Node α, (∀ k ∈ p.nodes, k ∈ s.stack.heap) → (s.goto t p).NoDangling :=
    fun p hp => hs.goto hs.memory (fun _ hn => hn) hp
  unfold StackThreads.weak at h
  cases hpc : s.pc t with
  | allocating y at' =>
    simp only [hpc] at h
    obtain ⟨at1, hat, rfl⟩ := Option.map_eq_some_iff.mp h
    cases at' with
    | read top tag link =>
      cases hat
      exact hback _ (hhead .pool)
    | _ => cases hat
  | consuming at' =>
    simp only [hpc] at h
    obtain ⟨at1, hat, rfl⟩ := Option.map_eq_some_iff.mp h
    cases at' with
    | read top tag link =>
      cases hat
      exact hback _ (hhead .tos)
    | _ => cases hat
  | linking n at' =>
    rw [hpc] at hpt
    simp only [hpc] at h
    obtain ⟨at1, hat, rfl⟩ := Option.map_eq_some_iff.mp h
    cases at' with
    | linked old =>
      cases hat
      exact hback _ (List.forall_mem_cons.mpr ⟨hpt n List.mem_cons_self, hhead .tos⟩)
    | _ => cases hat
  | deallocating n y at' =>
    rw [hpc] at hpt
    simp only [hpc] at h
    obtain ⟨at1, hat, rfl⟩ := Option.map_eq_some_iff.mp h
    cases at' with
    | linked old =>
      cases hat
      exact hback _ (List.forall_mem_cons.mpr ⟨hpt n List.mem_cons_self, hhead .pool⟩)
    | _ => cases hat
  | _ => simp [hpc] at h

variable [Inhabited α]

theorem NoDangling.step {a : Action Node α} (hs : s.NoDangling) (h : step s a = some s') :
    s'.NoDangling := by
  obtain ⟨⟨s1, o⟩, hact, heq⟩ := Option.map_eq_some_iff.mp h
  obtain rfl : s1 = s' := heq
  cases a with
  | call t op =>
    simp only [act] at hact
    split at hact
    · cases hact
      refine hs.goto hs.memory (fun _ hn => hn) fun k hk => ?_
      cases op <;> cases hk
    · cases hact
  | next t => exact hs.next hact
  | weak t =>
    obtain ⟨s2, hweak, heq⟩ := Option.map_eq_some_iff.mp hact
    cases heq
    exact hs.weak hweak
  | allocate t n =>
    simp only [act] at hact
    split at hact
    · split at hact
      · cases hact
      · cases hact
        refine hs.goto (hs.memory.newNode n) (fun k hk => List.mem_cons_of_mem _ hk) fun k hk => ?_
        rw [List.mem_singleton.mp hk]
        exact List.mem_cons_self
    · cases hact

theorem create_closed (nodes : List Node) :
    (LockFreeStack.create nodes : LockFreeStack Node α).Closed := by
  suffices hfill : ∀ m : LockFreeStack Node α, m.Closed →
      (nodes.foldl (fun s n => (s.newNode n).deallocateImplUnsafe n) m).Closed from
    hfill _ ⟨fun _ _ hk => (by cases hk), fun _ hk => absurd hk List.not_mem_nil⟩
  induction nodes with
  | nil => exact fun m hm => hm
  | cons n nodes ih =>
    intro m hm
    have hnew := hm.newNode n
    refine ih _ ((hnew.setNext fun k hk => hnew.head .pool k hk).setHead ?_)
    rintro k ⟨⟩
    exact List.mem_cons_self

/-- **No dangling pointer.**  In every run, window or not, the heads, the links of allocated nodes
and the pointers that threads hold lead to allocated nodes, so that every access is to one. -/
theorem no_dangling (nodes : List Node) (s : StackThreads Node α)
    (h : Reachable step (init nodes) s) : s.NoDangling :=
  h.invariant ⟨create_closed nodes, fun _ _ hn => absurd hn List.not_mem_nil⟩
    fun _ _ _ hs hstep => hs.step hstep

theorem no_dangling_race : ∃ s : StackThreads Nat Nat, run step (init [0]) raceRun = some s ∧
    s.NoDangling := by
  obtain ⟨⟨s, os⟩, hs, -⟩ := Option.map_eq_some_iff.mp raceRun_observed
  have hrun := run_of_trace hs
  exact ⟨s, hrun, no_dangling [0] s ⟨raceRun, hrun⟩⟩

end StackThreads

end Us2d
