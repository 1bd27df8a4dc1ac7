import Us2dServer.Lib.Linearization
import Us2dServer.Lib.Parties
import Mathlib.Tactic.Common

/-!
# `LightweightSemaphore`

The semaphore of the request queue, access by access: `m_count` is an atomic 64-bit counter that
goes below zero by the number of threads that wait, and `m_sema` the semaphore of the operating
system on which they wait.  `access` is the next access of a thread that stands at a `SemaPc`.

A wait can end without success (`giveUp`): the time is over, or the operating system refuses.
-/

namespace Us2d

open Transition AtomicObject

/-- `static_cast<ssize_t>`: what a 64-bit counter holds after an operation with the result `x`. -/
def ssize (x : Int) : Int := x.bmod (2 ^ 64)

/-- The conversion to `int`. -/
def toInt32 (x : Int) : Int := x.bmod (2 ^ 32)

/-- `wait` and `tryWait` take one, `waitMany` and `tryWaitMany` what there is, up to `max`. -/
inductive Amount
  | one
  | many (max : Nat)
deriving DecidableEq, Repr

/-- `newCount`, where `oldCount > 0`. -/
def Amount.newCount : Amount → Int → Int
  | .one, oldCount => oldCount - 1
  | .many max, oldCount => if (max : Int) < oldCount then oldCount - max else 0

/-- The public methods.  `wait()` is `wait(-1)`, and so is `waitMany(max)`. -/
inductive SemaOp
  | tryWait
  | wait (timeoutUsecs : Int)
  | tryWaitMany (max : Nat)
  | waitMany (max : Nat) (timeoutUsecs : Int)
  | signal (count : Nat)
  | availableApprox
deriving DecidableEq, Repr

inductive SemaRes
  | success (b : Bool)
  | acquired (n : Int)
  | signalled
  | available (n : Int)
deriving DecidableEq, Repr

/-- What a method returns when it has taken `n`. -/
def Amount.res : Amount → Int → SemaRes
  | .one, n => .success (n ≠ 0)
  | .many _, n => .acquired n

/-- What follows the loop of `tryWait` or `tryWaitMany`. -/
inductive AfterTry
  | ret
  /-- `|| waitWithPartialSpinning(timeout_usecs)` -/
  | spin (timeoutUsecs : Int)
  /-- `return 1 + …` -/
  | plusOne
deriving DecidableEq, Repr

/-- The access that a thread is about to make. -/
inductive SemaPc
  | idle
  | load (k : Amount) (next : AfterTry)
  /-- `compare_exchange_weak(oldCount, newCount)` -/
  | cas (k : Amount) (next : AfterTry) (oldCount : Int)
  /-- the load in the spinning loop, `spin` rounds before its last -/
  | spinLoad (k : Amount) (timeoutUsecs : Int) (spin : Nat)
  /-- `compare_exchange_strong(oldCount, newCount)` -/
  | spinCas (k : Amount) (timeoutUsecs : Int) (spin : Nat) (oldCount : Int)
  | fetchSub (k : Amount) (timeoutUsecs : Int)
  /-- in `m_sema.wait()` or `m_sema.timed_wait(timeout_usecs)` -/
  | park (k : Amount) (timeoutUsecs : Int)
  /-- the load in the loop after a wait without success -/
  | recheck (k : Amount)
  | semaTryWait (k : Amount)
  /-- `compare_exchange_strong(oldCount, oldCount + 1)` -/
  | backOut (k : Amount) (oldCount : Int)
  | fetchAdd (count : Nat)
  /-- in `m_sema.signal(count)` -/
  | release (count : Int)
  | approx
deriving DecidableEq, Repr

structure LightweightSemaphore where
  mCount : Int
  /-- the count of the operating system's semaphore -/
  mSema : Nat
  mMaxSpins : Nat
deriving DecidableEq, Repr

namespace LightweightSemaphore

/-- `maxLong` -/
def maxLong : Nat := 0x7fffffff

/-- Where a method starts. -/
def start : SemaOp → SemaPc
  | .tryWait => .load .one .ret
  | .wait timeout => .load .one (.spin timeout)
  | .tryWaitMany max => .load (.many max) .ret
  | .waitMany max timeout => .load (.many max) (.spin timeout)
  | .signal count => .fetchAdd count
  | .availableApprox => .approx

/-- `while (--spin >= 0)` with `n` rounds to go. -/
def spinning (k : Amount) (timeoutUsecs : Int) : Nat → SemaPc
  | 0 => .fetchSub k timeoutUsecs
  | n + 1 => .spinLoad k timeoutUsecs n

/-- `tryWait` or `tryWaitMany` has taken `n`. -/
def afterTry (q : LightweightSemaphore) (k : Amount) (n : Int) : AfterTry → SemaPc ⊕ SemaRes
  | .ret => .inr (k.res n)
  | .spin timeout =>
    match k with
    | .one => if n = 0 then .inl (spinning k timeout q.mMaxSpins) else .inr (k.res n)
    | .many max =>
      if n = 0 ∧ 0 < max then .inl (spinning k timeout q.mMaxSpins) else .inr (k.res n)
  | .plusOne => .inr (.acquired (1 + n))

/-- `while (oldCount > 0)` of `tryWait` and `tryWaitMany`. -/
def tryLoop (q : LightweightSemaphore) (k : Amount) (next : AfterTry) (oldCount : Int) :
    SemaPc ⊕ SemaRes :=
  if 0 < oldCount then .inl (.cas k next oldCount) else q.afterTry k 0 next

/-- One has been taken from a count that was decremented before: `return true`, or
`return 1 + tryWaitMany(max - 1)`. -/
def tookOne : Amount → SemaPc ⊕ SemaRes
  | .one => .inr (.success true)
  | .many max => if 1 < max then .inl (.load (.many (max - 1)) .plusOne) else .inr (.acquired 1)

/-- One access of a thread; `none` where it waits. -/
def access (q : LightweightSemaphore) :
    SemaPc → Option (LightweightSemaphore × (SemaPc ⊕ SemaRes))
  | .idle => none
  | .load k next => some (q, q.tryLoop k next q.mCount)
  | .cas k next oldCount =>
    if q.mCount = oldCount then
      some ({ q with mCount := k.newCount oldCount }, q.afterTry k (oldCount - k.newCount oldCount) next)
    else some (q, q.tryLoop k next q.mCount)
  | .spinLoad k timeout n =>
    if 0 < q.mCount then some (q, .inl (.spinCas k timeout n q.mCount))
    else some (q, .inl (spinning k timeout n))
  | .spinCas k timeout n oldCount =>
    if q.mCount = oldCount then
      some ({ q with mCount := k.newCount oldCount }, .inr (k.res (oldCount - k.newCount oldCount)))
    else some (q, .inl (spinning k timeout n))
  | .fetchSub k timeout =>
    some ({ q with mCount := ssize (q.mCount - 1) },
      if 0 < q.mCount then tookOne k
      else if timeout = 0 then .inl (.recheck k) else .inl (.park k timeout))
  | .park k _ => if 0 < q.mSema then some ({ q with mSema := q.mSema - 1 }, tookOne k) else none
  | .recheck k =>
    some (q, .inl (if 0 ≤ q.mCount then .semaTryWait k else .backOut k q.mCount))
  | .semaTryWait k =>
    if 0 < q.mSema then some ({ q with mSema := q.mSema - 1 }, tookOne k)
    else some (q, .inl (.recheck k))
  | .backOut k oldCount =>
    if q.mCount = oldCount then some ({ q with mCount := ssize (oldCount + 1) }, .inr (k.res 0))
    else some (q, .inl (.recheck k))
  | .fetchAdd count =>
    let toRelease := if -q.mCount < count then -q.mCount else count
    some ({ q with mCount := ssize (q.mCount + count) },
      if 0 < toRelease then .inl (.release (toInt32 toRelease)) else .inr .signalled)
  | .release count =>
    -- `ReleaseSemaphore` refuses a count that is not positive, and to go beyond the maximum
    if 0 < count ∧ q.mSema + count ≤ maxLong then
      some ({ q with mSema := q.mSema + count.toNat }, .inr .signalled)
    else some (q, .inl (.release count))
  | .approx => some (q, .inr (.available (if 0 < q.mCount then q.mCount else 0)))

end LightweightSemaphore

/-- The semaphore and the threads that use it. -/
structure SemaThreads where
  sema : LightweightSemaphore
  pc : Nat → SemaPc

namespace SemaThreads

inductive Action
  | call (thread : Nat) (op : SemaOp)
  | next (thread : Nat)
  /-- `compare_exchange_weak` fails though the count is `oldCount` -/
  | spurious (thread : Nat)
  | giveUp (thread : Nat)
deriving DecidableEq, Repr

def Action.thread : Action → Nat
  | .call thread _ => thread
  | .next thread => thread
  | .spurious thread => thread
  | .giveUp thread => thread

/-- Thread `thread` comes to the next access, or returns. -/
def goto (s : SemaThreads) (thread : Nat) (q : LightweightSemaphore) :
    SemaPc ⊕ SemaRes → SemaThreads × List (Observed SemaOp SemaRes)
  | .inl p => (⟨q, Function.update s.pc thread p⟩, [])
  | .inr r => (⟨q, Function.update s.pc thread .idle⟩, [.returned thread r])

def act (s : SemaThreads) : Action → Option (SemaThreads × List (Observed SemaOp SemaRes))
  | .call thread op =>
    if s.pc thread = .idle then
      some (⟨s.sema, Function.update s.pc thread (LightweightSemaphore.start op)⟩, [.called thread op])
    else none
  | .next thread => (s.sema.access (s.pc thread)).map fun r => s.goto thread r.1 r.2
  | .spurious thread =>
    match s.pc thread with
    | .cas k next _ => some (s.goto thread s.sema (s.sema.tryLoop k next s.sema.mCount))
    | _ => none
  | .giveUp thread =>
    match s.pc thread with
    | .park k _ => some (s.goto thread s.sema (.inl (.recheck k)))
    | _ => none

/-- The constructor; no thread uses the semaphore yet. -/
def init (initialCount maxSpins : Nat) : SemaThreads := ⟨⟨initialCount, 0, maxSpins⟩, fun _ => .idle⟩

end SemaThreads

end Us2d
