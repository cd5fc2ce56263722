import CxxUtil.Foundations.EventLoop
import CxxUtil.Foundations.Runs
import CxxUtil.Asio.SetSerialPortOptions

/-! # `SerialPortOpener`

`include/util/asio/serialportopener.hpp`: two stackless coroutines over one timer. A coroutine
that has yielded waits on the timer (`Wait`) or is posted to the `io_service` (`Job`).
`asyncOpenUntilSuccess` is the handler of the `asyncOpen`s it makes, and an operation whose
coroutine returns without `op.complete` completes with the default result. -/
namespace CxxUtil.Asio.SerialPortOpener
open Foundations
set_option autoImplicit false

/-- `mTimer.expires_at()`: of a timer never set, of a closed one, or `d` from a call of
`expires_from_now`. -/
inductive Expiry
  | unset
  | min
  | fromNow (d : ℤ)
  deriving DecidableEq, Repr

/-- The arguments of an asynchronous open. `op` numbers the user's operations, and `serialPort` the
`serial_port` objects. -/
structure Request where
  op : ℕ
  serialPort : ℕ
  baudRate : UInt32
  settleDelay : ℤ
  writeDelay : ℤ
  deriving DecidableEq, Repr

/-- Whose handler an `asyncOpen` has: the user's, or the retrying coroutine. -/
inductive Caller
  | user
  | untilSuccess (retryDelay : ℤ)
  deriving DecidableEq, Repr

inductive Event
  | opened (ec : ErrorCode)
  | settled (ec : ErrorCode)
  | set (o : SerialOption) (ec : ErrorCode)
  | written (ec : ErrorCode)
  deriving DecidableEq, Repr

/-- One `asyncOpen`: what its coroutine captures, whether it found the port closed when it started,
and its events so far. -/
structure Attempt where
  request : Request
  caller : Caller
  foundClosed : Bool
  history : List Event
  deriving DecidableEq, Repr

structure Finished extends Attempt where
  ec : ErrorCode
  leftOpen : Bool
  deriving DecidableEq, Repr

/-- A coroutine that waits on the timer: an `asyncOpen` for the settle or the write delay, or an
`asyncOpenUntilSuccess` for the retry delay. -/
inductive Wait
  | settle (a : Attempt)
  | write (a : Attempt)
  | retry (r : Request) (retryDelay : ℤ)
  deriving DecidableEq, Repr

/-- A coroutine posted to the `io_service`: at its start, or with the code its wait ended with. -/
inductive Job
  | openStart (r : Request) (c : Caller)
  | retryStart (r : Request) (retryDelay : ℤ)
  | resume (w : Wait) (ec : ErrorCode)
  deriving DecidableEq, Repr

def Wait.request : Wait → Request
  | settle a => a.request
  | write a => a.request
  | retry r _ => r

def Job.request : Job → Request
  | openStart r _ => r
  | retryStart r _ => r
  | resume w _ => w.request

/-- The opener, the ports, and what has come of the operations. `arms` counts the calls of
`expires_from_now`. -/
structure Opener where
  expiry : Expiry
  waiting : Option Wait
  isOpen : ℕ → Bool
  initiated : ℕ
  arms : ℕ
  attempts : List Finished
  completed : List (ℕ × ErrorCode)

abbrev OpenerLoop := Loop Opener Job

/-- What the devices and the dispatches in one step do: the outcomes of `open` and `set_option`, and
whether the user's operation and an `asyncOpen` run at once. -/
structure Device where
  startsAtOnce : Bool
  opensAtOnce : Bool
  open_ : ErrorCode
  setOption : SerialOption → ℕ → ErrorCode

def Device.atOnce (open_ option : ErrorCode) : Device := ⟨true, true, open_, fun _ _ => option⟩

/-! ## The timer -/

def cancelWait (s : OpenerLoop) : OpenerLoop where
  world := { s.world with waiting := none }
  posted := s.posted ++ s.world.waiting.toList.map fun w => .resume w (some .operationAborted)

def expiresFromNow (d : ℤ) (s : OpenerLoop) : OpenerLoop :=
  (cancelWait s).update fun w => { w with expiry := .fromNow d, arms := w.arms + 1 }

def asyncWait (wait : Wait) (s : OpenerLoop) : OpenerLoop :=
  s.update fun w => { w with waiting := some wait }

def close (s : OpenerLoop) : OpenerLoop :=
  (cancelWait s).update fun w => { w with expiry := .min }

/-! ## The coroutines

`openStart`, `openSettled` and `openWritten` are the coroutine of `asyncOpen`, each up to its next
`yield`, and `retryStart`, `openFinished` and `retryWaited` that of `asyncOpenUntilSuccess`. -/

def complete (op : ℕ) (ec : ErrorCode) (s : OpenerLoop) : OpenerLoop :=
  s.update fun w => { w with completed := w.completed ++ [(op, ec)] }

/-- The head of the `while` loop, after an `asyncOpen`. -/
def openFinished (r : Request) (retryDelay : ℤ) (ec : ErrorCode) (s : OpenerLoop) : OpenerLoop :=
  if ec.isSome then
    -- returns without `op.complete`
    if s.world.expiry = .min then complete r.op (some .operationAborted) s
    else asyncWait (.retry r retryDelay) (expiresFromNow retryDelay s)
  else complete r.op ec s

def logAttempt (a : Attempt) (ec : ErrorCode) (s : OpenerLoop) : OpenerLoop :=
  s.update fun w =>
    { w with attempts := w.attempts ++ [⟨a, ec, w.isOpen a.request.serialPort⟩] }

def finishOpen (a : Attempt) (ec : ErrorCode) (s : OpenerLoop) : OpenerLoop :=
  match a.caller with
  | .user => complete a.request.op ec (logAttempt a ec s)
  | .untilSuccess retryDelay => openFinished a.request retryDelay ec (logAttempt a ec s)

def markOpen (p : ℕ) (s : OpenerLoop) : OpenerLoop :=
  s.update fun w => { w with isOpen := Function.update w.isOpen p true }

/-- `serialPort.open`: an open port stays as it is. -/
def openPort (p : ℕ) (outcome : ErrorCode) (s : OpenerLoop) : OpenerLoop × ErrorCode :=
  if s.world.isOpen p then (s, some .alreadyOpen)
  else
    match outcome with
    | some e => (s, some e)
    | none => (markOpen p s, none)

def openStart (r : Request) (c : Caller) (dev : Device) (s : OpenerLoop) : OpenerLoop :=
  let (s', ec) := openPort r.serialPort dev.open_ s
  let a : Attempt := ⟨r, c, !s.world.isOpen r.serialPort, [.opened ec]⟩
  if ec.isSome then finishOpen a ec s'
  -- "asyncOpen cancelled before settle delay"
  else if s'.world.expiry = .min then finishOpen a (some .operationAborted) s'
  else asyncWait (.settle a) (expiresFromNow r.settleDelay s')

def openSettled (a : Attempt) (ec : ErrorCode) (dev : Device) (s : OpenerLoop) : OpenerLoop :=
  let (tried, ec') := setSerialPortOptions dev.setOption a.request.baudRate ec
  let a := { a with history := a.history ++ .settled ec :: tried.map fun t => .set t.1 t.2 }
  if ec'.isSome then finishOpen a ec' s
  -- "asyncOpen cancelled before write delay"
  else if s.world.expiry = .min then finishOpen a (some .operationAborted) s
  else asyncWait (.write a) (expiresFromNow a.request.writeDelay s)

def openWritten (a : Attempt) (ec : ErrorCode) (s : OpenerLoop) : OpenerLoop :=
  finishOpen { a with history := a.history ++ [.written ec] } ec s

/-- `asyncOpen`: takes back an earlier `close`, then dispatches its coroutine. -/
def asyncOpen (r : Request) (c : Caller) (dev : Device) (s : OpenerLoop) : OpenerLoop :=
  let s := expiresFromNow 0 s
  if dev.opensAtOnce then openStart r c dev s else s.post (.openStart r c)

def retryStart (r : Request) (retryDelay : ℤ) (dev : Device) (s : OpenerLoop) : OpenerLoop :=
  asyncOpen r (.untilSuccess retryDelay) dev s

def retryWaited (r : Request) (retryDelay : ℤ) (ec : ErrorCode) (dev : Device) (s : OpenerLoop) :
    OpenerLoop :=
  if ec.isSome then complete r.op ec s else asyncOpen r (.untilSuccess retryDelay) dev s

def asyncOpenUntilSuccess (r : Request) (retryDelay : ℤ) (dev : Device) (s : OpenerLoop) :
    OpenerLoop :=
  if dev.startsAtOnce then retryStart r retryDelay dev s
  else s.post (.retryStart r retryDelay)

def exec (dev : Device) : Job → OpenerLoop → OpenerLoop
  | .openStart r c => openStart r c dev
  | .retryStart r d => retryStart r d dev
  | .resume (.settle a) ec => openSettled a ec dev
  | .resume (.write a) ec => openWritten a ec
  | .resume (.retry r d) ec => retryWaited r d ec dev

/-! ## Runs -/

inductive Action
  | asyncOpen (serialPort : ℕ) (baudRate : UInt32) (settleDelay writeDelay : ℤ) (dev : Device)
  | asyncOpenUntilSuccess (serialPort : ℕ) (baudRate : UInt32)
      (retryDelay settleDelay writeDelay : ℤ) (dev : Device)
  | close
  /-- The timer expires: the wait on it can no longer be cancelled. -/
  | expire
  | next (dev : Device)

def initiate (s : OpenerLoop) : OpenerLoop :=
  s.update fun w => { w with initiated := w.initiated + 1 }

def step (s : OpenerLoop) : Action → Option OpenerLoop
  | .asyncOpen p baud settle write dev =>
    some (asyncOpen ⟨s.world.initiated, p, baud, settle, write⟩ .user dev (initiate s))
  | .asyncOpenUntilSuccess p baud retry settle write dev =>
    some (asyncOpenUntilSuccess ⟨s.world.initiated, p, baud, settle, write⟩ retry dev (initiate s))
  | .close => some (close s)
  | .expire =>
    match s.world.waiting with
    | none => none
    | some wait => some ((s.update fun w => { w with waiting := none }).post (.resume wait none))
  | .next dev => s.next fun j s => some (exec dev j s)

theorem step_next {s s' : OpenerLoop} {dev : Device} :
    step s (.next dev) = some s' ↔
      ∃ job jobs, s.posted = job :: jobs ∧ exec dev job ⟨s.world, jobs⟩ = s' := by
  rw [step, Loop.next_eq_some]
  simp only [Option.some.injEq]

theorem step_expire {s s' : OpenerLoop} :
    step s .expire = some s' ↔ ∃ wait, s.world.waiting = some wait ∧
      (s.update fun w => { w with waiting := none }).post (.resume wait none) = s' := by
  unfold step
  cases s.world.waiting <;> simp

def Action.initiates : Action → Bool
  | .asyncOpen .. => true
  | .asyncOpenUntilSuccess .. => true
  | _ => false

def Action.isNext : Action → Bool
  | .next _ => true
  | _ => false

def init (isOpen : ℕ → Bool) : OpenerLoop where
  world := ⟨.unset, none, isOpen, 0, 0, [], []⟩
  posted := []

end CxxUtil.Asio.SerialPortOpener
