import CxxUtil.Asio.ErrorCode
import CxxUtil.Foundations.EventLoop
import CxxUtil.Foundations.Runs
import CxxUtil.Queue.ProducerConsumerQueue

/-! # `AcceptorImpl`

`include/util/asio/ws/acceptor.hpp`, over a single-threaded `io_service`. Accept handlers run inline
and are arbitrary client code: the active calls of `post()` and `close()` are kept on a stack, and
the actions of a run choose what the client code calls, when it returns and whether it throws.
Accepts, connections and events of connections are numbered; an event stays with what its function
produces, and no step reads it there. -/
namespace CxxUtil.Ws.AcceptorImpl
open Foundations Queue Asio
set_option autoImplicit false

structure Accept where
  id : ℕ
  mq : ℕ
  deriving DecidableEq, Repr

/-- An open event of a connection, or a fail event. -/
structure ConEvent where
  number : ℕ
  con : ℕ
  opened : Bool
  deriving DecidableEq, Repr

/-- What `mConnectionQueue` holds: a connection with the transport code it was found to have, or the
abort that `close()` produces, which has a null pointer. -/
inductive Datum
  | established (e : ConEvent) (ec : ErrorCode)
  | aborted
  deriving DecidableEq, Repr

def Datum.ec : Datum → ErrorCode
  | established _ ec => ec
  | aborted => some .operationAborted

def Datum.event? : Datum → Option ConEvent
  | established e _ => some e
  | aborted => none

/-- The consumer of an `asyncAccept`, or the one with which `close()` discards. -/
inductive Consumer
  | accept (a : Accept)
  | discard
  deriving DecidableEq, Repr

/-- A call of an accept handler: the datum it was made for, the code it was called with, and the
connection its message queue was given before that. -/
structure Answer where
  accept : Accept
  datum : Datum
  ec : ErrorCode
  given : Option ℕ
  deriving DecidableEq, Repr

/-- An active call: of `post()`, or of `close()` in one of its two loops. -/
inductive Frame
  | post
  | abortDemand
  | discardSupply
  deriving DecidableEq, Repr

/-- Execution is in client code (the caller of the outermost call, or the handler that the innermost
`post()` has called), or at the loop test of the innermost call. -/
inductive Control
  | client
  | test
  deriving DecidableEq, Repr

/-- The members, the calls, the transport codes, and the connections whose open and fail handlers
are cleared. What is counted and recorded: the accepts and the events so far, the calls of accept
handlers, and the events whose connection `close()` has closed. -/
structure World where
  mConnectionQueue : ProducerConsumerQueue Consumer Datum
  frames : List Frame
  control : Control
  transportEc : ℕ → ErrorCode
  cleared : List ℕ
  accepts : ℕ
  events : ℕ
  answered : List Answer
  closed : List ConEvent

/-- The posted functions are those of `handleOpen`. -/
abbrev AcceptorLoop := Loop World ConEvent

def depth (s : AcceptorLoop) : ℤ := s.world.mConnectionQueue.depth

/-! ## Calls into the queue -/

def consume (c : Consumer) (s : AcceptorLoop) : AcceptorLoop :=
  s.update fun w =>
    { w with
      mConnectionQueue := w.mConnectionQueue.emplaceHandler c
      frames := .post :: w.frames
      control := .test }

def produce (d : Datum) (s : AcceptorLoop) : AcceptorLoop :=
  s.update fun w =>
    { w with
      mConnectionQueue := w.mConnectionQueue.emplaceData d
      frames := .post :: w.frames
      control := .test }

/-- Where a `post()` that ends returns to. -/
def afterPost : List Frame → Control
  | .abortDemand :: _ => .test
  | .discardSupply :: _ => .test
  | _ => .client

/-- What a consumer does with a datum. The handler of an accept is client code. A connection that is
discarded is first logged with its `get_uri()`, which is assumed not to be null there. -/
def callConsumer : Consumer → Datum → World → World
  | .accept a, d, w =>
    let given := if d.ec.isSome then none else d.event?.map ConEvent.con
    { w with answered := w.answered ++ [⟨a, d, d.ec, given⟩], control := .client }
  | .discard, d, w =>
    if d.ec.isSome then w else { w with closed := w.closed ++ d.event?.toList }

/-- `post()` from its loop test to its next, to a handler, or to its end. -/
def runPost (outer : List Frame) (s : AcceptorLoop) : AcceptorLoop :=
  match s.world.mConnectionQueue.popPair with
  | some ((c, d), q) => s.update fun w => callConsumer c d { w with mConnectionQueue := q }
  | none => s.update fun w => { w with frames := outer, control := afterPost outer }

/-! ## The member functions -/

def asyncAccept (mq : ℕ) (s : AcceptorLoop) : AcceptorLoop :=
  consume (.accept ⟨s.world.accepts, mq⟩) (s.update fun w => { w with accepts := w.accepts + 1 })

/-- `close()` up to its first loop. -/
def close (s : AcceptorLoop) : AcceptorLoop :=
  s.update fun w => { w with frames := .abortDemand :: w.frames, control := .test }

/-- The first loop of `close()` at its test. -/
def runAbortDemand (outer : List Frame) (s : AcceptorLoop) : AcceptorLoop :=
  if depth s < 0 then produce .aborted s
  else s.update fun w => { w with frames := .discardSupply :: outer }

/-- The second loop of `close()` at its test. -/
def runDiscardSupply (outer : List Frame) (s : AcceptorLoop) : AcceptorLoop :=
  if 0 < depth s then consume .discard s
  else s.update fun w => { w with frames := outer, control := .client }

/-- The open handler and the fail handler, which `listen` both binds to it. `got` is the code of
`get_con_from_hdl`. -/
def handleOpen (e : ConEvent) (got : ErrorCode) (s : AcceptorLoop) : AcceptorLoop :=
  if got.isSome then s else s.post e

def connectionEvent (con : ℕ) (opened : Bool) (got : ErrorCode) (s : AcceptorLoop) : AcceptorLoop :=
  handleOpen ⟨s.world.events, con, opened⟩ got
    (s.update fun w => { w with events := w.events + 1 })

/-- The function posted by `handleOpen`. -/
def establish (e : ConEvent) (s : AcceptorLoop) : AcceptorLoop :=
  produce (.established e (s.world.transportEc e.con))
    (s.update fun w => { w with cleared := e.con :: w.cleared })

/-! ## Runs -/

inductive Action
  | asyncAccept (mq : ℕ)
  | close
  | openEvent (con : ℕ) (got : ErrorCode)
  | failEvent (con : ℕ) (got : ErrorCode)
  | transport (con : ℕ) (ec : ErrorCode)
  /-- The `io_service` runs the function posted first. -/
  | next
  /-- The innermost call goes on from its loop test. -/
  | resume
  | ret
  /-- A handler throws: the exception leaves `post()`, and `close()` if that is around it. -/
  | throw
  deriving DecidableEq, Repr

/-- The calls left when an exception has passed the innermost `post()`. -/
def unwound : List Frame → List Frame
  | .abortDemand :: outer => outer
  | .discardSupply :: outer => outer
  | outer => outer

def resume (s : AcceptorLoop) : Option AcceptorLoop :=
  match s.world.frames with
  | [] => none
  | .post :: outer => some (runPost outer s)
  | .abortDemand :: outer => some (runAbortDemand outer s)
  | .discardSupply :: outer => some (runDiscardSupply outer s)

/-- What client code, and the `io_service` from it, can do. -/
def clientStep (s : AcceptorLoop) : Action → Option AcceptorLoop
  | .asyncAccept mq => some (asyncAccept mq s)
  | .close => some (close s)
  | .openEvent con got =>
    if con ∈ s.world.cleared then none else some (connectionEvent con true got s)
  | .failEvent con got =>
    if con ∈ s.world.cleared then none else some (connectionEvent con false got s)
  | .transport con ec =>
    some (s.update fun w => { w with transportEc := Function.update w.transportEc con ec })
  | .next => s.next fun e s => some (establish e s)
  | .ret =>
    match s.world.frames with
    | [] => none
    | _ :: _ => some (s.update fun w => { w with control := .test })
  | .throw =>
    match s.world.frames with
    | [] => none
    | _ :: outer => some (s.update fun w => { w with frames := unwound outer })
  | .resume => none

def step (s : AcceptorLoop) (act : Action) : Option AcceptorLoop :=
  match s.world.control with
  | .client => clientStep s act
  | .test => if act = .resume then resume s else none

def init : AcceptorLoop where
  world := ⟨.empty, [], .client, fun _ => none, [], 0, 0, [], []⟩
  posted := []

/-! ## What a step does -/

/-- The connections that `close()` closes when it discards a datum. -/
def Datum.discarded (d : Datum) : List ConEvent := if d.ec.isSome then [] else d.event?.toList

theorem callConsumer_discard (d : Datum) (w : World) :
    callConsumer .discard d w = { w with closed := w.closed ++ d.discarded } := by
  change (if d.ec.isSome then w else { w with closed := w.closed ++ d.event?.toList }) = _
  unfold Datum.discarded
  split
  · rw [List.append_nil]
  · rfl

theorem connectionEvent_eq (con : ℕ) (opened : Bool) (got : ErrorCode) (s : AcceptorLoop) :
    connectionEvent con opened got s = ⟨{ s.world with events := s.world.events + 1 },
      s.posted ++ if got.isSome then [] else [⟨s.world.events, con, opened⟩]⟩ := by
  unfold connectionEvent handleOpen
  split
  · rw [List.append_nil]
    rfl
  · rfl

/-- The steps that can be taken in `s`, and where they lead. -/
inductive Effect (s : AcceptorLoop) : Action → AcceptorLoop → Prop
  | asyncAccept (mq : ℕ) (hc : s.world.control = .client) :
      Effect s (.asyncAccept mq) (asyncAccept mq s)
  | close (hc : s.world.control = .client) : Effect s .close (close s)
  | openEvent (con : ℕ) (got : ErrorCode) (hc : s.world.control = .client)
      (hcon : con ∉ s.world.cleared) :
      Effect s (.openEvent con got) (connectionEvent con true got s)
  | failEvent (con : ℕ) (got : ErrorCode) (hc : s.world.control = .client)
      (hcon : con ∉ s.world.cleared) :
      Effect s (.failEvent con got) (connectionEvent con false got s)
  | transport (con : ℕ) (ec : ErrorCode) (hc : s.world.control = .client) :
      Effect s (.transport con ec)
        (s.update fun w => { w with transportEc := Function.update w.transportEc con ec })
  | next (e : ConEvent) (es : List ConEvent) (hc : s.world.control = .client)
      (hposted : s.posted = e :: es) : Effect s .next (establish e ⟨s.world, es⟩)
  | call (outer : List Frame) (c : Consumer) (d : Datum) (q : ProducerConsumerQueue Consumer Datum)
      (hc : s.world.control = .test) (hframes : s.world.frames = .post :: outer)
      (hpop : s.world.mConnectionQueue.popPair = some ((c, d), q)) :
      Effect s .resume (s.update fun w => callConsumer c d { w with mConnectionQueue := q })
  | posted (outer : List Frame) (hc : s.world.control = .test)
      (hframes : s.world.frames = .post :: outer)
      (hpop : s.world.mConnectionQueue.popPair = none) :
      Effect s .resume (s.update fun w => { w with frames := outer, control := afterPost outer })
  | abort (outer : List Frame) (hc : s.world.control = .test)
      (hframes : s.world.frames = .abortDemand :: outer) (hdepth : depth s < 0) :
      Effect s .resume (produce .aborted s)
  | aborted (outer : List Frame) (hc : s.world.control = .test)
      (hframes : s.world.frames = .abortDemand :: outer) (hdepth : ¬ depth s < 0) :
      Effect s .resume (s.update fun w => { w with frames := .discardSupply :: outer })
  | discard (outer : List Frame) (hc : s.world.control = .test)
      (hframes : s.world.frames = .discardSupply :: outer) (hdepth : 0 < depth s) :
      Effect s .resume (consume .discard s)
  | closed (outer : List Frame) (hc : s.world.control = .test)
      (hframes : s.world.frames = .discardSupply :: outer) (hdepth : ¬ 0 < depth s) :
      Effect s .resume (s.update fun w => { w with frames := outer, control := .client })
  | ret (f : Frame) (outer : List Frame) (hc : s.world.control = .client)
      (hframes : s.world.frames = f :: outer) :
      Effect s .ret (s.update fun w => { w with control := .test })
  | throw (f : Frame) (outer : List Frame) (hc : s.world.control = .client)
      (hframes : s.world.frames = f :: outer) :
      Effect s .throw (s.update fun w => { w with frames := unwound outer })

theorem resume_effect {s s' : AcceptorLoop} (hc : s.world.control = .test)
    (hs : resume s = some s') : Effect s .resume s' := by
  unfold resume at hs
  split at hs
  case h_1 => cases hs
  case h_2 outer hframes =>
    obtain rfl := Option.some.inj hs
    unfold runPost
    cases hpop : s.world.mConnectionQueue.popPair with
    | none => exact .posted outer hc hframes hpop
    | some pq => exact .call outer pq.1.1 pq.1.2 pq.2 hc hframes hpop
  case h_3 outer hframes =>
    obtain rfl := Option.some.inj hs
    unfold runAbortDemand
    by_cases hdepth : depth s < 0
    · rw [if_pos hdepth]
      exact .abort outer hc hframes hdepth
    · rw [if_neg hdepth]
      exact .aborted outer hc hframes hdepth
  case h_4 outer hframes =>
    obtain rfl := Option.some.inj hs
    unfold runDiscardSupply
    by_cases hdepth : 0 < depth s
    · rw [if_pos hdepth]
      exact .discard outer hc hframes hdepth
    · rw [if_neg hdepth]
      exact .closed outer hc hframes hdepth

theorem clientStep_effect {s s' : AcceptorLoop} {act : Action} (hc : s.world.control = .client)
    (hs : clientStep s act = some s') : Effect s act s' := by
  cases act with
  | asyncAccept mq =>
    obtain rfl := Option.some.inj hs
    exact .asyncAccept mq hc
  | close =>
    obtain rfl := Option.some.inj hs
    exact .close hc
  | openEvent con got =>
    obtain ⟨hcon, hs⟩ := Option.ite_none_left_eq_some.mp hs
    obtain rfl := Option.some.inj hs
    exact .openEvent con got hc hcon
  | failEvent con got =>
    obtain ⟨hcon, hs⟩ := Option.ite_none_left_eq_some.mp hs
    obtain rfl := Option.some.inj hs
    exact .failEvent con got hc hcon
  | transport con ec =>
    obtain rfl := Option.some.inj hs
    exact .transport con ec hc
  | next =>
    have hnext : (s.next fun e s => some (establish e s)) = some s' := hs
    obtain ⟨e, es, hposted, hestablish⟩ := Loop.next_eq_some.mp hnext
    obtain rfl := Option.some.inj hestablish
    exact .next e es hc hposted
  | resume => cases hs
  | ret =>
    cases hframes : s.world.frames with
    | nil =>
      rw [clientStep, hframes] at hs
      cases hs
    | cons f outer =>
      rw [clientStep, hframes] at hs
      obtain rfl := Option.some.inj hs
      exact .ret f outer hc hframes
  | throw =>
    cases hframes : s.world.frames with
    | nil =>
      rw [clientStep, hframes] at hs
      cases hs
    | cons f outer =>
      rw [clientStep, hframes] at hs
      obtain rfl := Option.some.inj hs
      exact .throw f outer hc hframes

theorem step_effect {s s' : AcceptorLoop} {act : Action} (hs : step s act = some s') :
    Effect s act s' := by
  unfold step at hs
  cases hc : s.world.control with
  | client =>
    rw [hc] at hs
    exact clientStep_effect hc hs
  | test =>
    simp only [hc, Option.ite_none_right_eq_some] at hs
    obtain ⟨rfl, hs⟩ := hs
    exact resume_effect hc hs

end CxxUtil.Ws.AcceptorImpl
