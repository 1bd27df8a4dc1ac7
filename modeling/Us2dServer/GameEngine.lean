import Mathlib.Data.List.Nodup
import Us2dServer.Lib.Transition

/-!
# The game engine

`instantiate` puts a new object on `pending_objects`, and `update` goes through `game_objects`.
No function hands an object over from the one list to the other, so `update` updates nothing.

    run step init as = some e →
      every update of `as` drives all objects  ↔  at every update there is nothing to drive
      every object is on one of the two lists, once               (updates_drive_iff)
-/

namespace Us2d

/-- `game_component`, with the number of the object that it has been added to. -/
structure GameComponent where
  object : Nat
  enabled : Bool
deriving DecidableEq, Repr

structure GameObject where
  activeSelf : Bool
  components : List Nat
deriving DecidableEq, Repr

/-- `game_engine` with the objects and components made so far.  A `shared_ptr` to one of them is
its number in the order of construction; `δ` is the type of `dt`. -/
structure GameEngine (δ : Type) where
  gameObjects : List Nat
  pendingObjects : List Nat
  objects : List GameObject
  components : List GameComponent
  /-- history: the calls of `comp->update(dt)` in order -/
  updates : List (Nat × δ)
deriving DecidableEq, Repr

namespace GameObject

def new : GameObject := ⟨true, []⟩

/-- `components.push_back(comp)` of `add_component`. -/
def addComponent (comp : Nat) (obj : GameObject) : GameObject :=
  { obj with components := obj.components ++ [comp] }

def setActive (active : Bool) (obj : GameObject) : GameObject := { obj with activeSelf := active }

def getComponents (obj : GameObject) : List Nat := obj.components

end GameObject

namespace GameEngine

variable {δ : Type} {e e' : GameEngine δ}

def init : GameEngine δ := ⟨[], [], [], [], []⟩

/-! ## Calls -/

/-- The object made is the one of the number `e.objects.length`. -/
def instantiate (e : GameEngine δ) : GameEngine δ :=
  { e with objects := e.objects ++ [GameObject.new],
           pendingObjects := e.pendingObjects ++ [e.objects.length] }

/-- `add_component` on an object: the new component gets `comp->object = this`. -/
def addComponent (obj : Nat) (e : GameEngine δ) : GameEngine δ :=
  { e with components := e.components ++ [⟨obj, true⟩],
           objects := e.objects.modify obj (GameObject.addComponent e.components.length) }

def setActive (obj : Nat) (active : Bool) (e : GameEngine δ) : GameEngine δ :=
  { e with objects := e.objects.modify obj (GameObject.setActive active) }

/-- `comp->enabled = enabled`. -/
def setEnabled (comp : Nat) (enabled : Bool) (e : GameEngine δ) : GameEngine δ :=
  { e with components := e.components.modify comp fun c => { c with enabled := enabled } }

inductive Call
  | instantiate
  | addComponent (obj : Nat)
  | setActive (obj : Nat) (active : Bool)
  | setEnabled (comp : Nat) (enabled : Bool)
deriving DecidableEq, Repr

/-- A call; one on an object or a component that does not exist cannot be made. -/
def call (e : GameEngine δ) : Call → Option (GameEngine δ)
  | .instantiate => some e.instantiate
  | .addComponent obj => if obj < e.objects.length then some (e.addComponent obj) else none
  | .setActive obj active => if obj < e.objects.length then some (e.setActive obj active) else none
  | .setEnabled comp enabled =>
    if comp < e.components.length then some (e.setEnabled comp enabled) else none

/-! ## Frames -/

def isEnabled (e : GameEngine δ) (comp : Nat) : Bool :=
  match e.components[comp]? with
  | some c => c.enabled
  | none => false

/-- The body of the loop over `game_objects`: the components of `obj` that are updated. -/
def updateObject (e : GameEngine δ) (obj : Nat) : List Nat :=
  match e.objects[obj]? with
  | none => []
  | some o => if !o.activeSelf then [] else o.getComponents.filter e.isEnabled

/-- The loop of `update`.  The components' own `update` leaves the engine as it is. -/
def updateObjects (dt : δ) (e : GameEngine δ) : GameEngine δ :=
  { e with updates := e.updates ++ (e.gameObjects.flatMap e.updateObject).map (·, dt) }

/-- `dispatch_request` comes first; `handled` are the calls that its packet handlers make. -/
def update (handled : List Call) (dt : δ) (e : GameEngine δ) : Option (GameEngine δ) :=
  (Transition.run call e handled).map (updateObjects dt)

inductive Action (δ : Type)
  | call (c : Call)
  | update (handled : List Call) (dt : δ)

def step (e : GameEngine δ) : Action δ → Option (GameEngine δ)
  | .call c => e.call c
  | .update handled dt => e.update handled dt

/-! ## What a frame is for -/

/-- An update drives all objects: taking them in some order, it updates those of each object's
components that are enabled, in the order of addition, if the object is active. -/
def Drives (e : GameEngine δ) : Action δ → Prop
  | .call _ => True
  | .update handled dt => ∀ e', Transition.run call e handled = some e' →
    ∃ order : List Nat, order.Perm (List.range e'.objects.length) ∧
      (e'.updateObjects dt).updates = e'.updates ++ (order.flatMap e'.updateObject).map (·, dt)

/-- No active object has an enabled component. -/
def Still (e : GameEngine δ) : Prop :=
  ∀ obj ∈ e.objects, obj.activeSelf = true → ∀ comp ∈ obj.components, e.isEnabled comp = false

/-- When an update comes to its loop there is nothing to drive. -/
def NothingToDrive (e : GameEngine δ) : Action δ → Prop
  | .call _ => True
  | .update handled _ => ∀ e', Transition.run call e handled = some e' → e'.Still

instance (e : GameEngine δ) : Decidable e.Still :=
  inferInstanceAs (Decidable (∀ obj ∈ e.objects, _ → ∀ comp ∈ obj.components, _))

instance (e : GameEngine δ) : (a : Action δ) → Decidable (e.NothingToDrive a)
  | .call _ => .isTrue trivial
  | .update handled _ =>
    inferInstanceAs (Decidable (∀ e' ∈ Transition.run GameEngine.call e handled, e'.Still))

/-! ## The two lists -/

/-- All objects ever made are pending, in the order of their making. -/
structure Pending (e : GameEngine δ) : Prop where
  gameObjects : e.gameObjects = []
  pendingObjects : e.pendingObjects = List.range e.objects.length

theorem pending_init : (init : GameEngine δ).Pending := ⟨rfl, rfl⟩

theorem Pending.call {c : Call} (hp : e.Pending) (h : e.call c = some e') : e'.Pending := by
  obtain ⟨hg, hq⟩ := hp
  cases c with
  | instantiate =>
    cases h
    refine ⟨hg, ?_⟩
    show e.pendingObjects ++ [e.objects.length] = List.range (e.objects ++ [GameObject.new]).length
    rw [hq, List.length_append, List.length_singleton, List.range_succ]
  | addComponent obj =>
    simp only [GameEngine.call] at h
    split at h <;> cases h
    exact ⟨hg, by simpa [GameEngine.addComponent] using hq⟩
  | setActive obj active =>
    simp only [GameEngine.call] at h
    split at h <;> cases h
    exact ⟨hg, by simpa [GameEngine.setActive] using hq⟩
  | setEnabled comp enabled =>
    simp only [GameEngine.call] at h
    split at h <;> cases h
    exact ⟨hg, hq⟩

theorem Pending.calls {cs : List Call} (hp : e.Pending) (h : Transition.run GameEngine.call e cs = some e') :
    e'.Pending :=
  Transition.run_invariant (fun _ _ _ hi hs => Pending.call hi hs) h hp

theorem Pending.step {a : Action δ} (hp : e.Pending) (h : e.step a = some e') : e'.Pending := by
  cases a with
  | call c => exact hp.call h
  | update handled dt =>
    obtain ⟨e₁, h₁, rfl⟩ := Option.map_eq_some_iff.mp h
    exact ⟨(hp.calls h₁).gameObjects, (hp.calls h₁).pendingObjects⟩

/-- So the loop of `update` makes no call. -/
theorem Pending.updateObjects (hp : e.Pending) (dt : δ) : (e.updateObjects dt).updates = e.updates := by
  simp [GameEngine.updateObjects, hp.gameObjects]

/-! ## When a frame does what it is for -/

theorem updateObject_eq_nil_iff {obj : Nat} {o : GameObject} (ho : e.objects[obj]? = some o) :
    e.updateObject obj = [] ↔
      (o.activeSelf = true → ∀ comp ∈ o.components, e.isEnabled comp = false) := by
  simp only [updateObject, ho, GameObject.getComponents]
  cases o.activeSelf <;> simp [List.filter_eq_nil_iff]

/-- Whatever the order of the objects, there is nothing to update if and only if the engine is
still. -/
theorem flatMap_updateObject_eq_nil_iff {order : List Nat}
    (horder : order.Perm (List.range e.objects.length)) :
    order.flatMap e.updateObject = [] ↔ e.Still := by
  have hmem : ∀ obj, obj ∈ order ↔ obj < e.objects.length := by
    intro obj
    rw [horder.mem_iff, List.mem_range]
  rw [List.flatMap_eq_nil_iff]
  constructor
  · intro h o ho
    obtain ⟨obj, hobj⟩ := List.mem_iff_getElem?.mp ho
    have hlt : obj < e.objects.length := (List.getElem?_eq_some_iff.mp hobj).1
    exact (updateObject_eq_nil_iff hobj).mp (h obj ((hmem obj).mpr hlt))
  · intro h obj hm
    obtain ⟨o, ho⟩ : ∃ o, e.objects[obj]? = some o :=
      ⟨_, List.getElem?_eq_getElem ((hmem obj).mp hm)⟩
    exact (updateObject_eq_nil_iff ho).mpr (h o (List.mem_of_getElem? ho))

theorem Pending.drives_iff (hp : e.Pending) (a : Action δ) : e.Drives a ↔ e.NothingToDrive a := by
  cases a with
  | call c => exact Iff.rfl
  | update handled dt =>
    refine forall_congr' fun e' => forall_congr' fun h => ?_
    rw [(hp.calls h).updateObjects dt]
    constructor
    · rintro ⟨order, horder, hnone⟩
      have hnil := List.map_eq_nil_iff.mp (List.append_right_eq_self.mp hnone.symm)
      exact (flatMap_updateObject_eq_nil_iff horder).mp hnil
    · intro hstill
      refine ⟨List.range e'.objects.length, List.Perm.refl _, ?_⟩
      rw [(flatMap_updateObject_eq_nil_iff (List.Perm.refl _)).mpr hstill, List.map_nil, List.append_nil]

/-- **Frames.**  The updates of a run drive all objects if and only if at each of them there is
nothing to drive; and every object stays on the list of pending ones. -/
theorem updates_drive_iff {as : List (Action δ)} (h : Transition.run step init as = some e) :
    (Transition.Along step Drives init as ↔ Transition.Along step NothingToDrive init as) ∧
      ∀ obj, obj < e.objects.length → (e.pendingObjects ++ e.gameObjects).count obj = 1 := by
  constructor
  · have hpending : Transition.Along step (fun e _ => e.Pending) init as :=
      Transition.along_of_run (I := Pending) (fun _ _ _ hi hs => ⟨hi.step hs, hi⟩) h pending_init
    exact Transition.along_congr (hpending.mono fun e a hp => hp.drives_iff a)
  · intro obj hobj
    have hp : e.Pending := Transition.run_invariant (fun _ _ _ hi hs => Pending.step hi hs) h pending_init
    rw [hp.gameObjects, hp.pendingObjects, List.append_nil]
    exact List.count_eq_one_of_mem List.nodup_range (List.mem_range.mpr hobj)

/-- An object without components may be updated, and so may one that is not active. -/
theorem updates_drive_no_component : Transition.Along step Drives init
    [.call .instantiate, .update [] 16, .call (.addComponent 0), .update [.setActive 0 false] 17] :=
  (updates_drive_iff (e := ⟨[], [0], [⟨false, [0]⟩], [⟨0, true⟩], []⟩) (by decide)).1.mpr (by decide)

/-- The component of an active object is not updated. -/
theorem enabled_component_not_updated : ¬ Transition.Along step Drives init
    [.call .instantiate, .call (.addComponent 0), .update [] 16] := by
  intro h
  obtain ⟨order, horder, hupdates⟩ := ((h.2 _ rfl).2 _ rfl).1 _ rfl
  rw [List.perm_singleton.mp horder] at hupdates
  exact absurd hupdates (by decide)

end GameEngine

end Us2d
