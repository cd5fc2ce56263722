import CxxUtil.Foundations.Ownership
import CxxUtil.Ws.MessageQueueClose
import CxxUtil.Ws.MessageQueueStream

/-! # What keeps a message queue

The `shared_ptr`s of `include/util/asio/ws/messagequeue.hpp`. A `MessageQueueImpl` is kept by the
I/O object, by the functions of `asyncReceive` that it has posted, by the consumers in its own
`mReceiveQueue`, and by the message and close handlers that it has set on a connection; `mPtr` keeps
the connection, next to the pointers of others (`outside`). Queues and connections are numbered. An
object that nothing keeps is destroyed in a step of its own, and the functions posted by different
queues run in any order. -/
namespace CxxUtil.Ws.Lifetime
open Foundations MessageQueueImpl Asio
set_option autoImplicit false

/-- `object`: an I/O object has its pointer to the implementation. -/
structure Queue where
  loop : MqLoop
  object : Bool
  destroyed : Bool

/-- `handlers` is the queue that the message and close handlers are bound to. -/
structure Connection where
  outside : ℕ
  handlers : Option ℕ
  destroyed : Bool

/-- What is recorded besides the objects: the connections that queues have been given, and for each
queue whose destructor has found an `mPtr` the queue to which the handlers that it takes off there
are bound. -/
structure World where
  queues : ℕ → Queue
  queuesMade : ℕ
  connections : ℕ → Connection
  connectionsMade : ℕ
  given : List (ℕ × ℕ)
  cleared : List (ℕ × Option ℕ)

inductive Node
  | queue (i : ℕ)
  | connection (c : ℕ)
  deriving DecidableEq, Repr

section
variable (s : World)

def Live : Node → Prop
  | .queue i => i < s.queuesMade ∧ (s.queues i).destroyed = false
  | .connection c => c < s.connectionsMade ∧ (s.connections c).destroyed = false

/-- The receives whose posted function has a pointer to the queue. -/
def postedReceives (loop : MqLoop) : List Receive := loop.posted.filterMap Job.receive?

def Rooted : Node → Prop
  | .queue i => (s.queues i).object = true ∨ postedReceives (s.queues i).loop ≠ []
  | .connection c => 0 < (s.connections c).outside

def Owns : Node → Node → Prop
  | .queue i, .queue j => i = j ∧ waiting (s.queues i).loop ≠ []
  | .queue i, .connection c => (s.queues i).loop.world.mPtr = some c
  | .connection c, .queue i => (s.connections c).handlers = some i
  | .connection _, .connection _ => False

def ownership : Ownership Node := ⟨Live s, Rooted s, Owns s⟩

abbrev Held : Node → Prop := (ownership s).Held

instance : DecidablePred (Live s)
  | .queue _ => inferInstanceAs (Decidable (_ ∧ _))
  | .connection _ => inferInstanceAs (Decidable (_ ∧ _))

instance : DecidablePred (Rooted s)
  | .queue _ => inferInstanceAs (Decidable (_ ∨ _))
  | .connection _ => inferInstanceAs (Decidable (_ < _))

instance : DecidableRel (Owns s)
  | .queue _, .queue _ => inferInstanceAs (Decidable (_ ∧ _))
  | .queue _, .connection _ => inferInstanceAs (Decidable (_ = _))
  | .connection _, .queue _ => inferInstanceAs (Decidable (_ = _))
  | .connection _, .connection _ => .isFalse not_false

/-- Live objects have been made. -/
theorem held_iff (n : Node) : Held s n ↔ Rooted s n ∨
    (∃ i < s.queuesMade, Live s (.queue i) ∧ Owns s (.queue i) n) ∨
      ∃ c < s.connectionsMade, Live s (.connection c) ∧ Owns s (.connection c) n := by
  refine or_congr_right ⟨?_, ?_⟩
  · rintro ⟨m, hlive, howns⟩
    cases m with
    | queue i => exact .inl ⟨i, hlive.1, hlive, howns⟩
    | connection c => exact .inr ⟨c, hlive.1, hlive, howns⟩
  · rintro (⟨i, -, hlive, howns⟩ | ⟨c, -, hlive, howns⟩)
    · exact ⟨.queue i, hlive, howns⟩
    · exact ⟨.connection c, hlive, howns⟩

instance : DecidablePred (Held s) := fun n => decidable_of_iff' _ (held_iff s n)

end

/-! ## Steps -/

def setQueue (i : ℕ) (q : Queue) (s : World) : World :=
  { s with queues := Function.update s.queues i q }

def setConnection (c : ℕ) (con : Connection) (s : World) : World :=
  { s with connections := Function.update s.connections c con }

/-- The constructor of `MessageQueue`: `make_shared`. -/
def makeQueue (s : World) : World :=
  { setQueue s.queuesMade ⟨MessageQueueImpl.init, true, false⟩ s with
    queuesMade := s.queuesMade + 1 }

def makeConnection (s : World) : World :=
  { setConnection s.connectionsMade ⟨1, none, false⟩ s with
    connectionsMade := s.connectionsMade + 1 }

/-- A step of one implementation. -/
def queueStep (i : ℕ) (act : MessageQueueImpl.Action) (s : World) : Option World :=
  (MessageQueueImpl.step (s.queues i).loop act).map fun loop =>
    setQueue i { s.queues i with loop } s

def setOutside (c outside : ℕ) (s : World) : World :=
  setConnection c { s.connections c with outside } s

def setHandlers (c : ℕ) (handlers : Option ℕ) (s : World) : World :=
  setConnection c { s.connections c with handlers } s

def setConnectionPtr (i c : ℕ) (s : World) : World :=
  let loop := MessageQueueImpl.setConnectionPtr c (s.queues i).loop
  let s := setHandlers c (some i) (setQueue i { s.queues i with loop } s)
  { s with given := s.given ++ [(i, c)] }

/-- `get_transport_ec` of a connection is the same for all queues. -/
def transport (c : ℕ) (ec : ErrorCode) (s : World) : World :=
  { s with
    queues := fun i =>
      { s.queues i with
        loop := (s.queues i).loop.update fun w =>
          { w with transportEc := Function.update w.transportEc c ec } } }

/-- The I/O object goes: `TransparentService::destroy`. -/
def dropObject (i : ℕ) (s : World) : World :=
  setQueue i
    { s.queues i with loop := MessageQueueImpl.close (s.queues i).loop, object := false } s

/-- `~MessageQueueImpl` up to the call of `close()`. -/
def clearHandlers (i : ℕ) (s : World) : World :=
  match (s.queues i).loop.world.mPtr with
  | none => s
  | some c =>
    { setHandlers c none s with cleared := s.cleared ++ [(i, (s.connections c).handlers)] }

def destroy : Node → World → World
  | .queue i, s =>
    let s := clearHandlers i s
    let loop := MessageQueueImpl.close (s.queues i).loop
    setQueue i { s.queues i with loop, destroyed := true } s
  | .connection c, s => setConnection c { s.connections c with destroyed := true } s

inductive Action
  | makeQueue
  | makeConnection
  /-- Somebody copies a `ConnectionPtr`. -/
  | retain (con : ℕ)
  | release (con : ℕ)
  | setConnectionPtr (queue con : ℕ)
  /-- Somebody who has the connection sets other message and close handlers. -/
  | setHandlers (con : ℕ)
  | asyncReceive (queue : ℕ) (buffer : List UInt8)
  | close (queue : ℕ)
  | message (con : ℕ) (payload : List UInt8)
  | closeEvent (con : ℕ)
  | transport (con : ℕ) (ec : ErrorCode)
  | next (queue : ℕ)
  | dropObject (queue : ℕ)
  | destroy (node : Node)

def step (s : World) : Action → Option World
  | .makeQueue => some (makeQueue s)
  | .makeConnection => some (makeConnection s)
  | .retain c =>
    if 0 < (s.connections c).outside then some (setOutside c ((s.connections c).outside + 1) s)
    else none
  | .release c =>
    if 0 < (s.connections c).outside then some (setOutside c ((s.connections c).outside - 1) s)
    else none
  | .setConnectionPtr i c =>
    if (s.queues i).object = true ∧ 0 < (s.connections c).outside then
      some (setConnectionPtr i c s)
    else none
  | .setHandlers c => if 0 < (s.connections c).outside then some (setHandlers c none s) else none
  | .asyncReceive i buffer =>
    if (s.queues i).object = true then queueStep i (.asyncReceive buffer) s else none
  | .close i => if (s.queues i).object = true then queueStep i .close s else none
  | .message c payload =>
    match (s.connections c).handlers with
    | some i => if Live s (.connection c) then queueStep i (.message c payload) s else none
    | none => none
  | .closeEvent c =>
    match (s.connections c).handlers with
    | some i => if Live s (.connection c) then queueStep i (.closeEvent c) s else none
    | none => none
  | .transport c ec => some (transport c ec s)
  | .next i => queueStep i .next s
  | .dropObject i => if (s.queues i).object = true then some (dropObject i s) else none
  | .destroy n => if Live s n ∧ ¬ Held s n then some (destroy n s) else none

def init : World where
  queues _ := ⟨MessageQueueImpl.init, false, false⟩
  queuesMade := 0
  connections _ := ⟨0, none, false⟩
  connectionsMade := 0
  given := []
  cleared := []

end CxxUtil.Ws.Lifetime
