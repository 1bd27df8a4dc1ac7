import Us2dServer.Connection

/-!
# The acceptor and the session map of `tcp`

`TsMap` is `ts_map`, whose methods hold the lock and so are one step each.  `Tcp` holds the
part of `tcp` that the accept handler, the sessions and the main loop share; the session that
an accepted socket gets is named by its number in the order of acceptance.  `acceptHandler` is
the lambda of `async_accept` up to the `fetch_add`; what it does with the new session follows
in the model of the server.
-/

namespace Us2d

/-- `net::common::ts_map`. -/
structure TsMap (κ ν : Type) where
  mapData : κ → Option ν

namespace TsMap

variable {κ ν : Type} [DecidableEq κ]

def empty : TsMap κ ν := ⟨fun _ => none⟩

def insert (key : κ) (value : ν) (m : TsMap κ ν) : TsMap κ ν :=
  ⟨Function.update m.mapData key (some value)⟩

def erase (key : κ) (m : TsMap κ ν) : TsMap κ ν := ⟨Function.update m.mapData key none⟩

/-- `get` and `find`: the entry, if there is one. -/
def find (key : κ) (m : TsMap κ ν) : Option ν := m.mapData key

theorem find_insert (m : TsMap κ ν) (key key' : κ) (value : ν) :
    (m.insert key value).find key' = if key' = key then some value else m.find key' := by
  simp [find, insert, Function.update_apply]

theorem find_erase (m : TsMap κ ν) (key key' : κ) :
    (m.erase key).find key' = if key' = key then none else m.find key' := by
  simp [find, erase, Function.update_apply]

end TsMap

/-- `tcp::mode`. -/
inductive Mode
  | server | client
deriving DecidableEq, Repr

structure Tcp where
  isRunning : Bool
  mode : Mode
  /-- `context.stop()` has been called -/
  contextStopped : Bool
  /-- outstanding `acceptor->async_accept` operations -/
  accepts : Nat
  connectionIdCounter : UInt32
  connections : TsMap UInt32 Nat

/-- `CHECK_ACCEPT_ERROR`: the text of `CHECK_READ_ERROR`. -/
def checkAcceptError {α : Type} (err : Option ErrorCode) (onAborted onConnAborted onError : α)
    (otherwise : α) : α :=
  checkReadError err onAborted onConnAborted onError otherwise

namespace Tcp

/-- The members as the constructor and `init(port)` leave them. -/
def init : Tcp where
  isRunning := false
  mode := .server
  contextStopped := false
  accepts := 0
  connectionIdCounter := 10000
  connections := TsMap.empty

def asyncAccept (t : Tcp) : Tcp := { t with accepts := t.accepts + 1 }

/-- `start`, up to the start of the workers. -/
def start (t : Tcp) : Tcp :=
  let t := { t with isRunning := true }
  if t.mode = .server then t.asyncAccept else t

def onOperationAborted (t : Tcp) : Tcp := t.asyncAccept

def onConnectionAborted (t : Tcp) : Tcp := t.asyncAccept

/-- Writes to the log only. -/
def onAcceptError (t : Tcp) : Tcp := t

/-- The handler of the outstanding accept is called; it returns the id of the new session, if
it makes one. -/
def acceptHandler (error : Option ErrorCode) (t : Tcp) : Tcp × Option UInt32 :=
  let t := { t with accepts := t.accepts - 1 }
  checkAcceptError error (t.onOperationAborted, none) (t.onConnectionAborted, none)
    (t.onAcceptError, none) <|
    if !t.isRunning then (t, none)
    else ({ t with connectionIdCounter := t.connectionIdCounter + 1 }, some t.connectionIdCounter)

def disconnect (connectionId : UInt32) (t : Tcp) : Tcp :=
  { t with connections := t.connections.erase connectionId }

/-! ## The ways through the accept handler -/

variable {t : Tcp}

theorem acceptHandler_notRunning (h : t.isRunning = false) :
    t.acceptHandler none = ({ t with accepts := t.accepts - 1 }, none) := by
  have ht : (!t.isRunning) = true := by rw [h]; rfl
  exact if_pos ht

theorem acceptHandler_running (h : t.isRunning = true) :
    t.acceptHandler none = ({ t with accepts := t.accepts - 1,
                                     connectionIdCounter := t.connectionIdCounter + 1 },
      some t.connectionIdCounter) := by
  have ht : ¬ (!t.isRunning) = true := by rw [h]; simp
  exact if_neg ht

end Tcp

end Us2d
