import CxxUtil.Asio.ErrorCode
import CxxUtil.Foundations.EventLoop
import CxxUtil.Foundations.Runs

/-! # `ConnectorImpl`

`include/util/asio/ws/connector.hpp`, over a single-threaded `io_service`. Connections, connects and
message queues are numbered. Handlers run inline, and what a client does there is a parameter of the
step: calls of `asyncConnect` and `close()`, which only post. The log records the events of
connections and what is done in response. -/
namespace CxxUtil.Ws.ConnectorImpl
open Foundations Asio
set_option autoImplicit false

structure NascentConnectionData where
  id : ℕ
  mq : ℕ
  deriving DecidableEq, Repr

/-- What `asyncConnect`, `close()` and `handleOpenOrFail` post. `before` is the number of connects
initiated when `close()` was called. -/
inductive Job
  | connect (id mq : ℕ)
  | close (before : ℕ)
  | clearHandlers (con : ℕ)
  deriving DecidableEq, Repr

inductive Event
  | opened (con : ℕ)
  | failed (con : ℕ)
  | inserted (con id mq : ℕ)
  | given (mq con : ℕ)
  | called (id : ℕ) (ec : ErrorCode)
  deriving DecidableEq, Repr

/-- The map, ordered by its keys; the connections in existence, and those whose open and fail
handlers are set; the connects so far, the closes whose function has run, and whether
`assert(false)` was reached. -/
structure World where
  mNascentConnections : List (ℕ × NascentConnectionData)
  live : List ℕ
  bound : List ℕ
  initiated : ℕ
  closesRun : List ℕ
  assertFailed : Bool
  log : List Event

abbrev ConnectorLoop := Loop World Job

/-! ## The map -/

/-- `std::map::insert`: whether the key was new. -/
def insert (con : ℕ) (data : NascentConnectionData) :
    List (ℕ × NascentConnectionData) → List (ℕ × NascentConnectionData) × Bool
  | [] => ([(con, data)], true)
  | entry :: map =>
    if con < entry.1 then ((con, data) :: entry :: map, true)
    else if con = entry.1 then (entry :: map, false)
    else
      let (map, success) := insert con data map
      (entry :: map, success)

/-- `find`, with the map after `erase`. -/
def extract (con : ℕ) : List (ℕ × NascentConnectionData) →
    Option (NascentConnectionData × List (ℕ × NascentConnectionData))
  | [] => none
  | entry :: map =>
    if entry.1 = con then some (entry.2, map)
    else (extract con map).map fun found => (found.1, entry :: found.2)

/-! ## What clients call -/

def asyncConnect (mq : ℕ) (s : ConnectorLoop) : ConnectorLoop :=
  (s.update fun w => { w with initiated := w.initiated + 1 }).post (.connect s.world.initiated mq)

def close (s : ConnectorLoop) : ConnectorLoop := s.post (.close s.world.initiated)

inductive Call
  | asyncConnect (mq : ℕ)
  | close
  deriving DecidableEq, Repr

def Call.run : Call → ConnectorLoop → ConnectorLoop
  | .asyncConnect mq => ConnectorImpl.asyncConnect mq
  | .close => ConnectorImpl.close

/-- What a handler called with a code calls in turn. -/
abbrev Client := ℕ → ErrorCode → List Call

def record (e : Event) (s : ConnectorLoop) : ConnectorLoop :=
  s.update fun w => { w with log := w.log ++ [e] }

def callHandler (client : Client) (id : ℕ) (ec : ErrorCode) (s : ConnectorLoop) : ConnectorLoop :=
  (client id ec).foldl (fun s call => call.run s) (record (.called id ec) s)

/-! ## The posted functions -/

/-- The function posted by `asyncConnect`. `get_connection` returns an error or a connection that
did not exist before. -/
def connect (id mq : ℕ) (got : Except Error ℕ) (client : Client) (s : ConnectorLoop) :
    Option ConnectorLoop :=
  match got with
  | .error e => some (callHandler client id (some e) s)
  | .ok con =>
    if con ∈ s.world.live then none
    else
      let (map, success) := insert con ⟨id, mq⟩ s.world.mNascentConnections
      let s := s.update fun w =>
        { w with mNascentConnections := map, live := con :: w.live, bound := con :: w.bound }
      -- `mWsClient.connect(con)`: what comes of it is an event of its own
      if success then some (record (.inserted con id mq) s)
      else
        some (callHandler client id (some .operationAborted)
          (s.update fun w => { w with assertFailed := true }))

def clearHandlers (con : ℕ) (s : ConnectorLoop) : ConnectorLoop :=
  s.update fun w => { w with bound := w.bound.filter (· ≠ con) }

def closeNascent (client : Client) (s : ConnectorLoop) (entry : ℕ × NascentConnectionData) :
    ConnectorLoop :=
  callHandler client entry.2.id (some .operationAborted) (clearHandlers entry.1 s)

/-- The function posted by `close()`. -/
def runClose (before : ℕ) (client : Client) (s : ConnectorLoop) : ConnectorLoop :=
  (s.world.mNascentConnections.foldl (closeNascent client) s).update fun w =>
    { w with mNascentConnections := [], closesRun := w.closesRun ++ [before] }

/-! ## The handlers of connections -/

def handleOpenOrFail (con : ℕ) (ec : ErrorCode) (client : Client) (s : ConnectorLoop) :
    ConnectorLoop :=
  match extract con s.world.mNascentConnections with
  | none => s
  | some (data, map) =>
    let s := (s.update fun w => { w with mNascentConnections := map }).post (.clearHandlers con)
    callHandler client data.id ec (record (.given data.mq con) s)

/-- `got` is the code of `get_con_from_hdl`. -/
def handleOpen (con : ℕ) (got : ErrorCode) (client : Client) (s : ConnectorLoop) : ConnectorLoop :=
  if got.isSome then s else handleOpenOrFail con got client s

def handleFail (con : ℕ) (got transportEc : ErrorCode) (client : Client) (s : ConnectorLoop) :
    ConnectorLoop :=
  if got.isSome then s
  else handleOpenOrFail con (transportEc.or (some .networkDown)) client s

/-! ## Runs -/

inductive Action
  | asyncConnect (mq : ℕ)
  | close
  | openEvent (con : ℕ) (got : ErrorCode) (client : Client)
  | failEvent (con : ℕ) (got transportEc : ErrorCode) (client : Client)
  | next (got : Except Error ℕ) (client : Client)
  /-- Nobody refers to a connection any more. -/
  | release (con : ℕ)

def exec (got : Except Error ℕ) (client : Client) : Job → ConnectorLoop → Option ConnectorLoop
  | .connect id mq, s => connect id mq got client s
  | .close before, s => some (runClose before client s)
  | .clearHandlers con, s => some (clearHandlers con s)

def step (s : ConnectorLoop) : Action → Option ConnectorLoop
  | .asyncConnect mq => some (asyncConnect mq s)
  | .close => some (close s)
  | .openEvent con got client =>
    if con ∈ s.world.bound then some (handleOpen con got client (record (.opened con) s)) else none
  | .failEvent con got transportEc client =>
    if con ∈ s.world.bound then
      some (handleFail con got transportEc client (record (.failed con) s))
    else none
  | .next got client => s.next (exec got client)
  | .release con =>
    if con ∈ s.world.mNascentConnections.map Prod.fst ∨ .clearHandlers con ∈ s.posted then none
    else some (s.update fun w =>
      { w with live := w.live.filter (· ≠ con), bound := w.bound.filter (· ≠ con) })

def init : ConnectorLoop where
  world := ⟨[], [], [], 0, [], false, []⟩
  posted := []

end CxxUtil.Ws.ConnectorImpl
