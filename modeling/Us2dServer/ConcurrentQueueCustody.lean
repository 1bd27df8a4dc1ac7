import Us2dServer.ConcurrentQueueInv

/-!
# Custody of the queue's blocks

A block is in the pool, deleted, in the hand of a thread, or in an entry of a producer's index.
Four accesses move one; all others leave every block where it is (`Custody.same`).

    requisition_block         pool or new → hand     (Custody.requisition)
    enqueue publishes it      hand → entry           (Custody.publish)
    dequeue clears the entry  entry → hand           (Custody.clear)
    add_block_to_free_list    hand → pool or deleted (Custody.give)
-/

namespace Us2d

namespace QueueThreads

variable {α : Type} {s s' : QueueThreads α} {gh gh' : Nat → QueueGhost α} {n t p b : Nat}
  {c : QueuePc α}

/-- A field of the producers that is not written. -/
theorem field_setProducer {β : Type} (f : ImplicitProducer → β) {q : ConcurrentQueue α}
    {P : ImplicitProducer} (h : f P = f (q.producers p)) (p' : Nat) :
    f ((q.setProducer p P).producers p') = f (q.producers p') :=
  (Function.forall_update_iff q.producers fun p' P' => f P' = f (q.producers p')).mpr ⟨h, fun _ _ => rfl⟩ p'

/-- The places stay as they are. -/
theorem Custody.same (hc : s.Custody) (hpc : s'.pc = Function.update s.pc t c)
    (hhand : c.inHand = (s.pc t).inHand) (hfree : s'.queue.freeList = s.queue.freeList)
    (hdestroyed : s'.queue.destroyed = s.queue.destroyed) (hcreated : s'.queue.created = s.queue.created)
    (hindex : ∀ p, (s'.queue.producers p).blockIndex = (s.queue.producers p).blockIndex) :
    s'.Custody := by
  have hsame : ∀ w b, s'.Holds w b ↔ s.Holds w b := by
    intro w b
    cases w with
    | free => simp only [Holds, hfree]
    | destroyed => simp only [Holds, hdestroyed]
    | hand u =>
      simp only [Holds, hpc]
      by_cases hu : u = t
      · subst hu
        rw [Function.update_self, hhand]
      · rw [Function.update_of_ne hu]
    | entry p key => simp only [Holds, hindex]
  constructor
  · intro w b h
    rw [hcreated]
    exact hc.lt w b ((hsame w b).mp h)
  · intro w w' b h h'
    exact hc.unique w w' b ((hsame w b).mp h) ((hsame w' b).mp h')
  · rw [hfree, hdestroyed]
    exact hc.nodup
  · intro b hb
    rw [hcreated] at hb
    obtain ⟨w, h⟩ := hc.somewhere b hb
    exact ⟨w, (hsame w b).mpr h⟩

/-- One block comes to a place. -/
theorem Custody.move {w : BlockPlace} (hc : s.Custody)
    (hother : ∀ w' b', b' ≠ b → (s'.Holds w' b' ↔ s.Holds w' b'))
    (hto : s'.Holds w b) (honly : ∀ w', s'.Holds w' b → w' = w)
    (hnodup : s'.queue.freeList.Nodup ∧ s'.queue.destroyed.Nodup)
    (hcreated : ∀ b', b' < s'.queue.created ↔ b' < s.queue.created ∨ b' = b) : s'.Custody := by
  constructor
  · intro w' b' h
    by_cases hb : b' = b
    · exact (hcreated b').mpr (.inr hb)
    · exact (hcreated b').mpr (.inl (hc.lt w' b' ((hother w' b' hb).mp h)))
  · intro w' w'' b' h' h''
    by_cases hb : b' = b
    · subst hb
      rw [honly w' h', honly w'' h'']
    · exact hc.unique w' w'' b' ((hother w' b' hb).mp h') ((hother w'' b' hb).mp h'')
  · exact hnodup
  · intro b' hlt
    by_cases hb : b' = b
    · subst hb
      exact ⟨w, hto⟩
    · rcases (hcreated b').mp hlt with hlt | heq
      · obtain ⟨w', h⟩ := hc.somewhere b' hlt
        exact ⟨w', (hother w' b' hb).mpr h⟩
      · exact absurd heq hb

theorem Custody.created_iff (hc : s.Custody) {w : BlockPlace} (h : s.Holds w b) (b' : Nat) :
    b' < s.queue.created ↔ b' < s.queue.created ∨ b' = b := by
  refine ⟨.inl, ?_⟩
  rintro (hlt | rfl)
  · exact hlt
  · exact hc.lt w b' h

/-- A place of its own: what a thread has in its hand stands nowhere else. -/
theorem Custody.elsewhere (hc : s.Custody) {w w' : BlockPlace} (h : s.Holds w b) (hne : w' ≠ w) :
    ¬ s.Holds w' b := fun h' => hne (hc.unique w' w b h' h)

theorem holds_hand_update {u b' : Nat} (hpc : s'.pc = Function.update s.pc t c)
    (h : u ≠ t ∨ (c.inHand = some b' ↔ (s.pc t).inHand = some b')) :
    s'.Holds (.hand u) b' ↔ s.Holds (.hand u) b' := by
  simp only [Holds, hpc]
  by_cases hu : u = t
  · subst hu
    rw [Function.update_self]
    exact h.resolve_left fun hne => hne rfl
  · rw [Function.update_of_ne hu]

/-- A thread takes a block out of the pool, or creates one. -/
theorem Custody.requisition {q : ConcurrentQueue α} (hc : s.Custody) (hempty : (s.pc t).inHand = none)
    (hhand : c.inHand = some b) (hq : s.queue.requisitionBlock (some b) = some q) :
    Custody ⟨q, Function.update s.pc t c⟩ := by
  have hothers : ∀ {u b'}, b' ≠ b → (Holds ⟨q, Function.update s.pc t c⟩ (.hand u) b' ↔
      s.Holds (.hand u) b') := by
    intro u b' hb
    refine holds_hand_update (t := t) (c := c) rfl (.inr ?_)
    rw [hhand, hempty]
    simp [Ne.symm hb]
  have hto : Holds ⟨q, Function.update s.pc t c⟩ (.hand t) b := by
    show (Function.update s.pc t c t).inHand = some b
    rw [Function.update_self, hhand]
  have hhands : ∀ {u}, u ≠ t → Holds ⟨q, Function.update s.pc t c⟩ (.hand u) b → s.Holds (.hand u) b :=
    fun hu => (holds_hand_update (t := t) (c := c) rfl (.inl hu)).mp
  simp only [ConcurrentQueue.requisitionBlock] at hq
  split at hq
  · next hfree =>
    cases hq
    have hnone : ∀ {w}, w ≠ .free → ¬ s.Holds w b := fun hne => hc.elsewhere (w := .free) hfree hne
    refine hc.move (w := .hand t) (fun w' b' hb => ?_) hto (fun w' h => ?_)
      ⟨hc.nodup.1.erase b, hc.nodup.2⟩ (hc.created_iff (w := .free) hfree)
    · cases w' with
      | free =>
        show b' ∈ s.queue.freeList.erase b ↔ b' ∈ s.queue.freeList
        rw [hc.nodup.1.mem_erase_iff]
        exact ⟨fun h => h.2, fun h => ⟨hb, h⟩⟩
      | destroyed => exact Iff.rfl
      | hand u => exact hothers hb
      | entry p key => exact Iff.rfl
    · cases w' with
      | free => exact absurd rfl (hc.nodup.1.mem_erase_iff.mp h).1
      | destroyed => exact absurd h (hnone (w := .destroyed) (by simp))
      | hand u =>
        by_cases hu : u = t
        · rw [hu]
        · exact absurd (hhands hu h) (hnone (by simp))
      | entry p key => exact absurd h (hnone (w := .entry p key) (by simp))
  · split at hq
    · next hnew =>
      cases hq
      have hnone : ∀ {w}, ¬ s.Holds w b := by
        intro w h
        have := hc.lt w b h
        omega
      refine hc.move (w := .hand t) (fun w' b' hb => ?_) hto (fun w' h => ?_) hc.nodup (fun b' => ?_)
      · cases w' with
        | hand u => exact hothers hb
        | _ => exact Iff.rfl
      · cases w' with
        | hand u =>
          by_cases hu : u = t
          · rw [hu]
          · exact absurd (hhands hu h) hnone
        | free => exact absurd h (hnone (w := .free))
        | destroyed => exact absurd h (hnone (w := .destroyed))
        | entry p key => exact absurd h (hnone (w := .entry p key))
      · show b' < s.queue.created + 1 ↔ _
        omega
    · cases hq

/-- The entries, after one of them has been written. -/
theorem holds_entry_update {P : ImplicitProducer} {key key' : Index} {v : Option Nat} {p' b' : Nat}
    {f : Nat → QueuePc α} (hP : P.blockIndex = Function.update (s.queue.producers p).blockIndex key v) :
    Holds ⟨s.queue.setProducer p P, f⟩ (.entry p' key') b' ↔
      (p' = p ∧ key' = key ∧ v = some b') ∨ (¬ (p' = p ∧ key' = key) ∧ s.Holds (.entry p' key') b') := by
  simp only [Holds, ConcurrentQueue.setProducer]
  by_cases hp : p' = p
  · subst hp
    rw [Function.update_self, hP]
    by_cases hkey : key' = key
    · subst hkey
      simp
    · simp [hkey]
  · simp [hp]

/-- The block in the hand of a producer's thread goes into an entry of the index. -/
theorem Custody.publish {P : ImplicitProducer} {key : Index} (hc : s.Custody)
    (hhand : (s.pc t).inHand = some b) (hempty : c.inHand = none)
    (hkey : (s.queue.producers t).blockIndex key = none)
    (hP : P.blockIndex = Function.update (s.queue.producers t).blockIndex key (some b)) :
    Custody ⟨s.queue.setProducer t P, Function.update s.pc t c⟩ := by
  have hnone : ∀ {w}, w ≠ .hand t → ¬ s.Holds w b := fun hne => hc.elsewhere (w := .hand t) hhand hne
  refine hc.move (w := .entry t key) (fun w' b' hb => ?_)
    ((holds_entry_update hP).mpr (.inl ⟨rfl, rfl, rfl⟩)) (fun w' h => ?_) hc.nodup
    (hc.created_iff (w := .hand t) hhand)
  · cases w' with
    | free => exact Iff.rfl
    | destroyed => exact Iff.rfl
    | hand u =>
      refine holds_hand_update (t := t) (c := c) rfl (.inr ?_)
      rw [hhand, hempty]
      simp [Ne.symm hb]
    | entry p' key' =>
      rw [holds_entry_update hP]
      constructor
      · rintro (⟨-, -, heq⟩ | ⟨-, hold⟩)
        · exact absurd (Option.some.inj heq).symm hb
        · exact hold
      · intro hold
        refine .inr ⟨?_, hold⟩
        rintro ⟨rfl, rfl⟩
        rw [Holds, hkey] at hold
        cases hold
  · cases w' with
    | free => exact absurd h (hnone (w := .free) (by simp))
    | destroyed => exact absurd h (hnone (w := .destroyed) (by simp))
    | hand u =>
      by_cases hu : u = t
      · subst hu
        simp only [Holds, Function.update_self, hempty] at h
        cases h
      · exact absurd ((holds_hand_update (t := t) (c := c) rfl (.inl hu)).mp h)
          (hnone (by simpa using hu))
    | entry p' key' =>
      obtain ⟨rfl, rfl, -⟩ | ⟨-, hold⟩ := (holds_entry_update hP).mp h
      · rfl
      · exact absurd hold (hnone (by simp))

/-- The block of an entry goes into the hand of the thread that clears the entry. -/
theorem Custody.clear {P : ImplicitProducer} {key : Index} (hc : s.Custody)
    (hempty : (s.pc t).inHand = none) (hhand : c.inHand = some b)
    (hkey : (s.queue.producers p).blockIndex key = some b)
    (hP : P.blockIndex = Function.update (s.queue.producers p).blockIndex key none) :
    Custody ⟨s.queue.setProducer p P, Function.update s.pc t c⟩ := by
  have hnone : ∀ {w}, w ≠ .entry p key → ¬ s.Holds w b :=
    fun hne => hc.elsewhere (w := .entry p key) hkey hne
  have hto : Holds ⟨s.queue.setProducer p P, Function.update s.pc t c⟩ (.hand t) b := by
    simp only [Holds, Function.update_self, hhand]
  refine hc.move (w := .hand t) (fun w' b' hb => ?_) hto (fun w' h => ?_) hc.nodup
    (hc.created_iff (w := .entry p key) hkey)
  · cases w' with
    | free => exact Iff.rfl
    | destroyed => exact Iff.rfl
    | hand u =>
      refine holds_hand_update (t := t) (c := c) rfl (.inr ?_)
      rw [hhand, hempty]
      simp [Ne.symm hb]
    | entry p' key' =>
      rw [holds_entry_update hP]
      constructor
      · rintro (⟨-, -, heq⟩ | ⟨-, hold⟩)
        · cases heq
        · exact hold
      · intro hold
        refine .inr ⟨?_, hold⟩
        rintro ⟨rfl, rfl⟩
        rw [Holds, hkey] at hold
        exact hb (Option.some.inj hold).symm
  · cases w' with
    | free => exact absurd h (hnone (w := .free) (by simp))
    | destroyed => exact absurd h (hnone (w := .destroyed) (by simp))
    | hand u =>
      by_cases hu : u = t
      · rw [hu]
      · exact absurd ((holds_hand_update (t := t) (c := c) rfl (.inl hu)).mp h) (hnone (by simp))
    | entry p' key' =>
      obtain ⟨-, -, heq⟩ | ⟨hne, hold⟩ := (holds_entry_update hP).mp h
      · cases heq
      · refine absurd hold (hnone ?_)
        rintro ⟨rfl, rfl⟩
        exact hne ⟨rfl, rfl⟩

/-- The block in the hand of a consumer goes back to the pool, or is deleted. -/
theorem Custody.give (hc : s.Custody) (hhand : (s.pc t).inHand = some b) (hempty : c.inHand = none) :
    Custody ⟨s.queue.addBlockToFreeList b, Function.update s.pc t c⟩ := by
  have hnone : ∀ {w}, w ≠ .hand t → ¬ s.Holds w b := fun hne => hc.elsewhere (w := .hand t) hhand hne
  have hothers : ∀ {q : ConcurrentQueue α} {u b'}, b' ≠ b →
      (Holds ⟨q, Function.update s.pc t c⟩ (.hand u) b' ↔ s.Holds (.hand u) b') := by
    intro q u b' hb
    refine holds_hand_update (t := t) (c := c) rfl (.inr ?_)
    rw [hhand, hempty]
    simp [Ne.symm hb]
  have hhands : ∀ {q : ConcurrentQueue α} {u}, ¬ Holds ⟨q, Function.update s.pc t c⟩ (.hand u) b := by
    intro q u h
    by_cases hu : u = t
    · subst hu
      simp only [Holds, Function.update_self, hempty] at h
      cases h
    · exact hnone (by simpa using hu) ((holds_hand_update (t := t) (c := c) rfl (.inl hu)).mp h)
  have hcreated := hc.created_iff (w := .hand t) hhand
  unfold ConcurrentQueue.addBlockToFreeList
  split
  · refine hc.move (w := .destroyed) (fun w' b' hb => ?_) List.mem_cons_self (fun w' h => ?_)
      ⟨hc.nodup.1, List.nodup_cons.mpr ⟨hnone (w := .destroyed) (by simp), hc.nodup.2⟩⟩ hcreated
    · cases w' with
      | destroyed => simp [Holds, hb]
      | hand u => exact hothers hb
      | _ => exact Iff.rfl
    · cases w' with
      | destroyed => rfl
      | hand u => exact absurd h hhands
      | free => exact absurd h (hnone (w := .free) (by simp))
      | entry p key => exact absurd h (hnone (w := .entry p key) (by simp))
  · refine hc.move (w := .free) (fun w' b' hb => ?_) List.mem_cons_self (fun w' h => ?_)
      ⟨List.nodup_cons.mpr ⟨hnone (w := .free) (by simp), hc.nodup.1⟩, hc.nodup.2⟩ hcreated
    · cases w' with
      | free => simp [Holds, hb]
      | hand u => exact hothers hb
      | _ => exact Iff.rfl
    · cases w' with
      | free => rfl
      | hand u => exact absurd h hhands
      | destroyed => exact absurd h (hnone (w := .destroyed) (by simp))
      | entry p key => exact absurd h (hnone (w := .entry p key) (by simp))

theorem Custody.apart (hc : s.Custody) (p : Nat) :
    ProducerInv.Apart (s.queue.producers p) s.pc := by
  constructor
  · intro key key' b h h'
    have heq := hc.unique (.entry p key) (.entry p key') b h h'
    cases heq
    rfl
  · intro key b u h h'
    cases hc.unique (.entry p key) (.hand u) b h h'

/-- A block that is in an entry or in a hand has not been deleted. -/
theorem Custody.deref (hc : s.Custody) {w : BlockPlace} (h : s.Holds w b) (hne : w ≠ .destroyed) :
    s.queue.deref b = some (s.queue.blocks b) := by
  have hnot : b ∉ s.queue.destroyed := hc.elsewhere h (Ne.symm hne)
  simp [ConcurrentQueue.deref, hnot]

end QueueThreads

end Us2d
