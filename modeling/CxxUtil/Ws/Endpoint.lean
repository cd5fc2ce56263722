import CxxUtil.Foundations.SharedLoop
import CxxUtil.Ws.MessageQueuePairing

/-! # Sending, next to receiving

`asyncSend` of `include/util/asio/ws/messagequeue.hpp` hands the buffer to the connection and posts
the handler with the code that `send` has returned. Its functions and those of the receives go
through one `io_service`. -/
namespace CxxUtil.Ws.MessageQueueImpl
open Foundations Queue ProducerConsumerQueue Asio
set_option autoImplicit false

/-- A call of `asyncSend`: the connection it found, the content of its buffer, and what
`mPtr->send()` returned. -/
structure Send where
  id : ℕ
  con : ℕ
  payload : List UInt8
  ec : ErrorCode
  deriving DecidableEq, Repr

/-- `std::bind(init.handler, ec)`. -/
structure SendHandler where
  id : ℕ
  ec : ErrorCode
  deriving DecidableEq, Repr

/-- The sends so far, and the calls of their handlers. -/
structure Sends where
  sent : List Send
  called : List SendHandler
  deriving DecidableEq, Repr

inductive SendAction
  | asyncSend (con : ℕ) (payload : List UInt8) (ec : ErrorCode)
  | next
  deriving DecidableEq, Repr

def Action.isNext : Action → Bool
  | .next => true
  | _ => false

def SendAction.isNext : SendAction → Bool
  | .next => true
  | .asyncSend _ _ _ => false

abbrev SendLoop := Loop Sends SendHandler

def asyncSend (con : ℕ) (payload : List UInt8) (ec : ErrorCode) (s : SendLoop) : SendLoop :=
  (s.update fun w => { w with sent := w.sent ++ [⟨w.sent.length, con, payload, ec⟩] }).post
    ⟨s.world.sent.length, ec⟩

def callSendHandler (h : SendHandler) (s : SendLoop) : Option SendLoop :=
  some (s.update fun w => { w with called := w.called ++ [h] })

def sendStep (s : SendLoop) : SendAction → Option SendLoop
  | .asyncSend con payload ec => some (asyncSend con payload ec s)
  | .next => s.next callSendHandler

inductive SendEffect (s : SendLoop) : SendAction → SendLoop → Prop
  | asyncSend (con : ℕ) (payload : List UInt8) (ec : ErrorCode) :
      SendEffect s (.asyncSend con payload ec) (asyncSend con payload ec s)
  | next {h : SendHandler} {hs : List SendHandler} (hposted : s.posted = h :: hs) :
      SendEffect s .next ⟨{ s.world with called := s.world.called ++ [h] }, hs⟩

theorem sendStep_effect {s s' : SendLoop} {act : SendAction} (hs : sendStep s act = some s') :
    SendEffect s act s' := by
  cases act with
  | asyncSend con payload ec =>
    obtain rfl := Option.some.inj hs
    exact .asyncSend con payload ec
  | next =>
    obtain ⟨h, hs', hposted, hexec⟩ := Loop.next_eq_some.mp hs
    obtain rfl := Option.some.inj hexec
    exact .next hposted

/-! ## What is posted -/

section
variable {s s' : MqLoop}

theorem posted_deliver (c : Consumer) (it : Item) (s : MqLoop) :
    s.posted <+: (deliver c it s).posted := by
  cases c with
  | receive r => exact List.prefix_append _ _
  | discard => exact List.prefix_rfl

theorem posted_post (cs : List Consumer) (its : List Item) (s : MqLoop) :
    s.posted <+: (post deliver cs its s).2.posted := by
  induction cs generalizing its s with
  | nil => simp
  | cons c cs ih =>
    cases its with
    | nil => simp
    | cons it its => exact (posted_deliver c it s).trans (ih its _)

theorem posted_consume (c : Consumer) (s : MqLoop) : s.posted <+: (consume c s).posted :=
  posted_post _ _ (s.update fun w => { w with consumers := w.consumers ++ [c] })

theorem posted_produce (it : Item) (s : MqLoop) : s.posted <+: (produce it s).posted :=
  posted_post _ _ (s.update fun w => { w with items := w.items ++ [it] })

theorem posted_close (s : MqLoop) : s.posted <+: (close s).posted := by
  have hproduce (t : MqLoop) (ht : s.posted <+: t.posted) (_ : decide (depth t < 0) = true) :
      s.posted <+: (produce .aborted t).posted := ht.trans (posted_produce _ t)
  have hconsume (t : MqLoop) (ht : s.posted <+: t.posted) (_ : decide (0 < depth t) = true) :
      s.posted <+: (consume .discard t).posted := ht.trans (posted_consume _ t)
  have habort : s.posted <+: (abortDemand s).posted :=
    whileLoop_invariant hproduce imbalance List.prefix_rfl
  exact whileLoop_invariant hconsume imbalance habort

theorem posts_behind {act : Action} (hs : step s act = some s') :
    remaining act.isNext s.posted <+: s'.posted := by
  cases step_effect hs with
  | setConnectionPtr con => exact List.prefix_rfl
  | asyncReceive buffer => exact List.prefix_append _ _
  | close => exact posted_close s
  | message con payload => exact posted_produce _ (s.update _)
  | closeEvent con e => exact posted_produce _ s
  | transport con ec => exact List.prefix_rfl
  | @handler c jobs hposted =>
    rw [hposted]
    exact List.prefix_rfl
  | @receive r jobs p hposted hp hec =>
    rw [hposted]
    exact posted_consume _ ⟨s.world, jobs⟩
  | @turnedAway r jobs p e hposted hp hec =>
    rw [hposted]
    exact List.prefix_append _ _

end

/-! ## One `io_service` -/

def receiving : Component World Job Action where
  step := step
  takes := Action.isNext
  posts_behind := posts_behind

def sending : Component Sends SendHandler SendAction where
  step := sendStep
  takes := SendAction.isNext
  posts_behind h := by
    cases sendStep_effect h with
    | asyncSend con payload ec => exact List.prefix_append _ _
    | next hposted =>
      rw [hposted]
      exact List.prefix_rfl

abbrev EndLoop := Loop (World × Sends) (Job ⊕ SendHandler)
abbrev EndAction := Action ⊕ SendAction

/-- `assert(mPtr)`, and the connection is the one that `mPtr` refers to. -/
def SendsOnPtr (s : EndLoop) : EndAction → Prop
  | .inr (.asyncSend con _ _) => s.world.1.mPtr = some con
  | _ => True

instance (s : EndLoop) (act : EndAction) : Decidable (SendsOnPtr s act) := by
  unfold SendsOnPtr
  split <;> infer_instance

def endpoint : Component (World × Sends) (Job ⊕ SendHandler) EndAction :=
  (receiving.share sending).guard SendsOnPtr

end CxxUtil.Ws.MessageQueueImpl
