import CxxUtil.Asio.ErrorCode
import CxxUtil.Foundations.EventLoop
import CxxUtil.Foundations.Runs
import CxxUtil.Foundations.WhileLoop
import CxxUtil.Queue.ProducerConsumerQueue

/-! # `MessageQueueImpl`

`include/util/asio/ws/messagequeue.hpp`, over a single-threaded `io_service`. Connections and
receives are numbered. The buffer of a receive is its content, which nobody else writes to while the
receive is outstanding. What is counted and recorded besides the members of the class: the receives
and the messages so far, the consumers and the items in the order in which they entered
`mReceiveQueue`, the pairs it has handed out, and the handlers posted with their results. -/
namespace CxxUtil.Ws.MessageQueueImpl
open Foundations Queue Asio
set_option autoImplicit false

structure Message where
  con : ℕ
  number : ℕ
  payload : List UInt8
  deriving DecidableEq, Repr

/-- What `mReceiveQueue` holds: a message, the error of a closed connection, or the abort that
`close()` produces. -/
inductive Item
  | message (m : Message)
  | closed (con : ℕ) (e : Error)
  | aborted
  deriving DecidableEq, Repr

structure Receive where
  id : ℕ
  buffer : List UInt8
  deriving DecidableEq, Repr

/-- What waits for an item: a receive, or the consumer with which `close()` discards one. -/
inductive Consumer
  | receive (r : Receive)
  | discard
  deriving DecidableEq, Repr

/-- A handler bound to its results, with what the buffer then holds. -/
structure Completion where
  receive : Receive
  ec : ErrorCode
  nCopied : ℕ
  buffer : List UInt8
  deriving DecidableEq, Repr

inductive Job
  | receive (r : Receive)
  | handler (c : Completion)
  deriving DecidableEq, Repr

structure World where
  mPtr : Option ℕ
  mReceiveQueue : ProducerConsumerQueue Consumer Item
  transportEc : ℕ → ErrorCode
  bound : List ℕ
  received : ℕ
  arrived : ℕ
  consumers : List Consumer
  items : List Item
  handed : List (Consumer × Item)
  answered : List Completion

abbrev MqLoop := Loop World Job

/-! ## One item for one consumer -/

/-- `boost::asio::buffer_copy`: the number of bytes copied, and the buffer afterwards. -/
def bufferCopy (buffer payload : List UInt8) : ℕ × List UInt8 :=
  (min buffer.length payload.length,
    payload.take buffer.length ++ buffer.drop payload.length)

/-- What the consumer of `asyncReceive` binds to the handler. -/
def completion (r : Receive) : Item → Completion
  | .message m =>
    let (nCopied, buffer) := bufferCopy r.buffer m.payload
    ⟨r, if nCopied = m.payload.length then none else some .messageSize, nCopied, buffer⟩
  | .closed _ e => ⟨r, some e, 0, r.buffer⟩
  | .aborted => ⟨r, some .operationAborted, 0, r.buffer⟩

def postHandler (c : Completion) (s : MqLoop) : MqLoop :=
  (s.update fun w => { w with answered := w.answered ++ [c] }).post (.handler c)

def deliver (c : Consumer) (it : Item) (s : MqLoop) : MqLoop :=
  let s := s.update fun w => { w with handed := w.handed ++ [(c, it)] }
  match c with
  | .receive r => postHandler (completion r it) s
  | .discard => s

def setQueue (q : ProducerConsumerQueue Consumer Item) (s : MqLoop) : MqLoop :=
  s.update fun w => { w with mReceiveQueue := q }

def consume (c : Consumer) (s : MqLoop) : MqLoop :=
  let s := s.update fun w => { w with consumers := w.consumers ++ [c] }
  let (q, s) := s.world.mReceiveQueue.consume deliver c s
  setQueue q s

def produce (it : Item) (s : MqLoop) : MqLoop :=
  let s := s.update fun w => { w with items := w.items ++ [it] }
  let (q, s) := s.world.mReceiveQueue.produce deliver it s
  setQueue q s

def depth (s : MqLoop) : ℤ := s.world.mReceiveQueue.depth

/-! ## The member functions -/

def imbalance (s : MqLoop) : ℕ := (depth s).natAbs

/-- The first loop of `close()`: aborts for the waiting receives. -/
def abortDemand : MqLoop → MqLoop :=
  whileLoop (fun s => decide (depth s < 0)) (produce .aborted) imbalance

/-- The second loop of `close()`: consumers that discard what is buffered. -/
def discardSupply : MqLoop → MqLoop :=
  whileLoop (fun s => decide (0 < depth s)) (consume .discard) imbalance

/-- `close()`. The connection it closes calls neither handler from there. -/
def close (s : MqLoop) : MqLoop := discardSupply (abortDemand s)

def setConnectionPtr (con : ℕ) (s : MqLoop) : MqLoop :=
  s.update fun w => { w with mPtr := some con, bound := con :: w.bound }

def asyncReceive (buffer : List UInt8) (s : MqLoop) : MqLoop :=
  (s.update fun w => { w with received := w.received + 1 }).post
    (.receive ⟨s.world.received, buffer⟩)

/-- The function posted by `asyncReceive`. There has to be a connection. -/
def receive (r : Receive) (s : MqLoop) : Option MqLoop :=
  match s.world.mPtr with
  | none => none
  | some p =>
    match s.world.transportEc p with
    | none => some (consume (.receive r) s)
    | some e => some (postHandler ⟨r, some e, 0, r.buffer⟩ s)

def handleMessage (con : ℕ) (payload : List UInt8) (s : MqLoop) : MqLoop :=
  produce (.message ⟨con, s.world.arrived, payload⟩)
    (s.update fun w => { w with arrived := w.arrived + 1 })

def handleClose (con : ℕ) (s : MqLoop) : Option MqLoop :=
  match s.world.mPtr with
  | none => none
  | some p => some (produce (.closed con ((s.world.transportEc p).getD .operationAborted)) s)

/-! ## Runs -/

inductive Action
  | setConnectionPtr (con : ℕ)
  | asyncReceive (buffer : List UInt8)
  | close
  /-- A message arrives on a connection whose handlers have been set. -/
  | message (con : ℕ) (payload : List UInt8)
  | closeEvent (con : ℕ)
  | transport (con : ℕ) (ec : ErrorCode)
  | next

/-- A handler that runs may call the member functions; those calls are actions of their own. -/
def exec : Job → MqLoop → Option MqLoop
  | .receive r, s => receive r s
  | .handler _, s => some s

def step (s : MqLoop) : Action → Option MqLoop
  | .setConnectionPtr con => some (setConnectionPtr con s)
  | .asyncReceive buffer => some (asyncReceive buffer s)
  | .close => some (close s)
  | .message con payload => if con ∈ s.world.bound then some (handleMessage con payload s) else none
  | .closeEvent con => if con ∈ s.world.bound then handleClose con s else none
  | .transport con ec =>
    some (s.update fun w => { w with transportEc := Function.update w.transportEc con ec })
  | .next => s.next exec

def init : MqLoop where
  world := ⟨none, .empty, fun _ => none, [], 0, 0, [], [], [], []⟩
  posted := []

/-- A posted receive asks the connection, and enters the queue or fails with the transport error. -/
theorem receive_cases {r : Receive} {s s' : MqLoop} (h : receive r s = some s') :
    (∃ p, s.world.mPtr = some p ∧ s.world.transportEc p = none ∧ consume (.receive r) s = s') ∨
    (∃ p e, s.world.mPtr = some p ∧ s.world.transportEc p = some e ∧
      postHandler ⟨r, some e, 0, r.buffer⟩ s = s') := by
  unfold receive at h
  cases hp : s.world.mPtr with
  | none => simp [hp] at h
  | some p =>
    cases hec : s.world.transportEc p with
    | none => exact .inl ⟨p, rfl, hec, by simpa [hp, hec] using h⟩
    | some e => exact .inr ⟨p, e, rfl, hec, by simpa [hp, hec] using h⟩

theorem closeEvent_cases {con : ℕ} {s s' : MqLoop} (hs : step s (.closeEvent con) = some s') :
    ∃ e, produce (.closed con e) s = s' := by
  simp only [step, Option.ite_none_right_eq_some, handleClose] at hs
  obtain ⟨-, hs⟩ := hs
  cases hp : s.world.mPtr with
  | none => simp [hp] at hs
  | some p => exact ⟨_, by simpa [hp] using hs⟩

/-- What a step does. -/
inductive Effect (s : MqLoop) : Action → MqLoop → Prop
  | setConnectionPtr (con : ℕ) : Effect s (.setConnectionPtr con) (setConnectionPtr con s)
  | asyncReceive (buffer : List UInt8) : Effect s (.asyncReceive buffer) (asyncReceive buffer s)
  | close : Effect s .close (close s)
  | message (con : ℕ) (payload : List UInt8) :
      Effect s (.message con payload) (handleMessage con payload s)
  | closeEvent (con : ℕ) (e : Error) : Effect s (.closeEvent con) (produce (.closed con e) s)
  | transport (con : ℕ) (ec : ErrorCode) : Effect s (.transport con ec)
      (s.update fun w => { w with transportEc := Function.update w.transportEc con ec })
  | handler {c : Completion} {jobs : List Job} (hposted : s.posted = .handler c :: jobs) :
      Effect s .next ⟨s.world, jobs⟩
  | receive {r : Receive} {jobs : List Job} {p : ℕ} (hposted : s.posted = .receive r :: jobs)
      (hp : s.world.mPtr = some p) (hec : s.world.transportEc p = none) :
      Effect s .next (consume (.receive r) ⟨s.world, jobs⟩)
  | turnedAway {r : Receive} {jobs : List Job} {p : ℕ} {e : Error}
      (hposted : s.posted = .receive r :: jobs) (hp : s.world.mPtr = some p)
      (hec : s.world.transportEc p = some e) :
      Effect s .next (postHandler ⟨r, some e, 0, r.buffer⟩ ⟨s.world, jobs⟩)

theorem step_effect {s s' : MqLoop} {act : Action} (hs : step s act = some s') :
    Effect s act s' := by
  cases act with
  | setConnectionPtr con =>
    obtain rfl := Option.some.inj hs
    exact .setConnectionPtr con
  | asyncReceive buffer =>
    obtain rfl := Option.some.inj hs
    exact .asyncReceive buffer
  | close =>
    obtain rfl := Option.some.inj hs
    exact .close
  | message con payload =>
    simp only [step, Option.ite_none_right_eq_some, Option.some.injEq] at hs
    obtain ⟨-, rfl⟩ := hs
    exact .message con payload
  | closeEvent con =>
    obtain ⟨e, rfl⟩ := closeEvent_cases hs
    exact .closeEvent con e
  | transport con ec =>
    obtain rfl := Option.some.inj hs
    exact .transport con ec
  | next =>
    obtain ⟨job, jobs, hposted, hexec⟩ := Loop.next_eq_some.mp hs
    cases job with
    | handler c =>
      obtain rfl := Option.some.inj hexec
      exact .handler hposted
    | receive r =>
      rcases receive_cases hexec with ⟨p, hp, hec, rfl⟩ | ⟨p, e, hp, hec, rfl⟩
      · exact .receive hposted hp hec
      · exact .turnedAway hposted hp hec

/-! ## The queue at work -/

open ProducerConsumerQueue

section
variable {s : MqLoop}

/-- A consumer waits, or takes the item that has waited longest. -/
theorem consume_cases (h : s.world.mReceiveQueue.OneSided) (c : Consumer) :
    (∃ cs, s.world.mReceiveQueue = ⟨cs, []⟩ ∧
      consume c s = setQueue ⟨cs ++ [c], []⟩
        (s.update fun w => { w with consumers := w.consumers ++ [c] })) ∨
    (∃ it its, s.world.mReceiveQueue = ⟨[], it :: its⟩ ∧
      consume c s = setQueue ⟨[], its⟩
        (deliver c it (s.update fun w => { w with consumers := w.consumers ++ [c] }))) := by
  unfold consume
  cases hq : s.world.mReceiveQueue with
  | mk cs its =>
    rw [hq] at h
    cases its with
    | nil => exact .inl ⟨cs, rfl, by simp [hq, consume_waits]⟩
    | cons it its =>
      obtain rfl : cs = [] := by simpa [OneSided] using h
      exact .inr ⟨it, its, rfl, by simp [hq, consume_takes]⟩

/-- An item waits, or goes to the consumer that has waited longest. -/
theorem produce_cases (h : s.world.mReceiveQueue.OneSided) (it : Item) :
    (∃ its, s.world.mReceiveQueue = ⟨[], its⟩ ∧
      produce it s = setQueue ⟨[], its ++ [it]⟩
        (s.update fun w => { w with items := w.items ++ [it] })) ∨
    (∃ c cs, s.world.mReceiveQueue = ⟨c :: cs, []⟩ ∧
      produce it s = setQueue ⟨cs, []⟩
        (deliver c it (s.update fun w => { w with items := w.items ++ [it] }))) := by
  unfold produce
  cases hq : s.world.mReceiveQueue with
  | mk cs its =>
    rw [hq] at h
    cases cs with
    | nil => exact .inl ⟨its, rfl, by simp [hq, produce_waits]⟩
    | cons c cs =>
      obtain rfl : its = [] := by simpa [OneSided] using h
      exact .inr ⟨c, cs, rfl, by simp [hq, produce_takes]⟩

theorem depth_consume_eq (c : Consumer) (h : 0 < depth s) : depth (consume c s) = depth s - 1 :=
  depth_consume deliver c (s.update fun w => { w with consumers := w.consumers ++ [c] }) h

theorem depth_produce_eq (it : Item) (h : depth s < 0) : depth (produce it s) = depth s + 1 :=
  depth_produce deliver it (s.update fun w => { w with items := w.items ++ [it] }) h

/-! ## The loops of `close()` -/

theorem imbalance_produce (s : MqLoop) (h : decide (depth s < 0) = true) :
    imbalance (produce .aborted s) < imbalance s := by
  have hneg := of_decide_eq_true h
  have := depth_produce_eq .aborted hneg
  unfold imbalance
  omega

theorem imbalance_consume (s : MqLoop) (h : decide (0 < depth s) = true) :
    imbalance (consume .discard s) < imbalance s := by
  have hpos := of_decide_eq_true h
  have := depth_consume_eq .discard hpos
  unfold imbalance
  omega

theorem abortDemand_eq (s : MqLoop) :
    abortDemand s = if depth s < 0 then abortDemand (produce .aborted s) else s := by
  simpa [abortDemand] using whileLoop_eq imbalance_produce s

theorem discardSupply_eq (s : MqLoop) :
    discardSupply s = if 0 < depth s then discardSupply (consume .discard s) else s := by
  simpa [discardSupply] using whileLoop_eq imbalance_consume s

theorem depth_abortDemand (s : MqLoop) : 0 ≤ depth (abortDemand s) := by
  have := of_decide_eq_false (whileLoop_test imbalance_produce s)
  exact Int.not_lt.mp this

/-- The second loop takes away no more than the supply. -/
theorem depth_discardSupply (h : 0 ≤ depth s) : depth (discardSupply s) = 0 := by
  have hbody (s : MqLoop) (_ : 0 ≤ depth s) (h : decide (0 < depth s) = true) :
      0 ≤ depth (consume .discard s) := by
    have hpos := of_decide_eq_true h
    have := depth_consume_eq .discard hpos
    omega
  have hkeep : 0 ≤ depth (discardSupply s) := whileLoop_invariant hbody imbalance h
  have := of_decide_eq_false (whileLoop_test imbalance_consume s)
  exact Int.le_antisymm (Int.not_lt.mp this) hkeep

theorem depth_close (s : MqLoop) : depth (close s) = 0 := depth_discardSupply (depth_abortDemand s)

end
end CxxUtil.Ws.MessageQueueImpl
