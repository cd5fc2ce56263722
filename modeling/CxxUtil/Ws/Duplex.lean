import CxxUtil.Ws.Endpoint
import CxxUtil.Ws.MessageQueueStream

/-! # Two message queues and what is between them

A connection joins two ends, which give it one number. What brings messages from one end to the
other is a parameter, which sees every step and decides which can be taken; `Ordered` is what is
asked of it. A message that arrives is dropped when nobody has set a message handler yet, and
handled by the message queue otherwise. `Pair` is a pair of ends that take steps one at a time, on
two `io_service`s (`apart`) or on one (`together`). -/
namespace CxxUtil.Ws.Duplex
open Foundations Component MessageQueueImpl Asio
set_option autoImplicit false

inductive Side
  | client
  | server
  deriving DecidableEq, Repr

def Side.other : Side → Side
  | .client => .server
  | .server => .client

abbrev Payload := List UInt8

structure Pair (S : Type*) where
  step : S → Side → EndAction → Option S
  view : Side → S → EndLoop
  step_view : ∀ {s s' : S} {x : Side} {act : EndAction}, step s x act = some s' →
    endpoint.step (view x s) act = some (view x s') ∧ view x.other s' = view x.other s

/-- The ends have an `io_service` each. -/
def apart : Pair (EndLoop × EndLoop) where
  step
    | (c, s), .client, act => (endpoint.step c act).map (·, s)
    | (c, s), .server, act => (endpoint.step s act).map (c, ·)
  view
    | .client => Prod.fst
    | .server => Prod.snd
  step_view {s s' x act} h := by
    cases x with
    | client =>
      obtain ⟨c, hc, rfl⟩ := Option.map_eq_some_iff.mp h
      exact ⟨hc, rfl⟩
    | server =>
      obtain ⟨c, hc, rfl⟩ := Option.map_eq_some_iff.mp h
      exact ⟨hc, rfl⟩

/-- The ends share an `io_service`. -/
def together : Pair
    (Loop ((World × Sends) × World × Sends) ((Job ⊕ SendHandler) ⊕ Job ⊕ SendHandler)) where
  step
    | s, .client, act => (endpoint.share endpoint).step s (.inl act)
    | s, .server, act => (endpoint.share endpoint).step s (.inr act)
  view
    | .client => left
    | .server => right
  step_view {s s' x act} h := by
    cases x with
    | client => exact share_step_inl h
    | server => exact share_step_inr h

inductive NetAction (I : Type*)
  | act (x : Side) (act : EndAction)
  | arrive (x : Side) (con : ℕ) (payload : Payload)
  /-- Something that neither end sees: frames are lost, or the connection is. -/
  | between (event : I)

/-- What brings the messages. It has states `W`. -/
abbrev Transport (W I : Type*) := W → NetAction I → Option W

/-- The payload that `mPtr->send()` accepts on a connection. -/
def NetAction.sends {I : Type*} (x : Side) (con : ℕ) : NetAction I → Option Payload
  | .act x' (.inr (.asyncSend con' payload none)) =>
    if x' = x ∧ con' = con then some payload else none
  | _ => none

def NetAction.brings {I : Type*} (x : Side) (con : ℕ) : NetAction I → Option Payload
  | .arrive x' con' payload => if x' = x ∧ con' = con then some payload else none
  | _ => none

/-- What arrives on a connection has been sent there, in that order and each message once. What was
sent last may be lost, as it is after `close()` or a failure. -/
def Ordered {W I : Type*} (transport : Transport W I) (wire : W) : Prop :=
  ∀ as w, run transport wire as = some w → ∀ x con,
    as.filterMap (NetAction.brings x con) <+: as.filterMap (NetAction.sends x.other con)

/-- The messages in `dropped` arrived on a connection before it had a message handler. -/
structure Net (S W : Type*) where
  ends : S
  wire : W
  dropped : Side → ℕ → List Payload

/-- Messages are not brought by an end itself. -/
def brought : EndAction → Bool
  | .inl (.message _ _) => true
  | _ => false

section
variable {S W I : Type*} (E : Pair S) (transport : Transport W I)

def queue (x : Side) (n : Net S W) : MqLoop := left (E.view x n.ends)

def sends (x : Side) (n : Net S W) : SendLoop := right (E.view x n.ends)

def drop (x : Side) (con : ℕ) (payload : Payload) (n : Net S W) : Net S W :=
  let here := Function.update (n.dropped x) con (n.dropped x con ++ [payload])
  { n with dropped := Function.update n.dropped x here }

/-- What the step is for the ends. -/
def stepEnds (n : Net S W) : NetAction I → Option (Net S W)
  | .act x act =>
    if brought act then none else (E.step n.ends x act).map fun ends => { n with ends }
  | .arrive x con payload =>
    if con ∈ (queue E x n).world.bound then
      (E.step n.ends x (.inl (.message con payload))).map fun ends => { n with ends }
    else some (drop x con payload n)
  | .between _ => some n

def step (n : Net S W) (act : NetAction I) : Option (Net S W) :=
  (transport n.wire act).bind fun wire => stepEnds E { n with wire } act

/-- Two ends that have not done anything. -/
structure Starts (n : Net S W) : Prop where
  ends : ∀ x, E.view x n.ends = ⟨(init.world, ⟨[], []⟩), []⟩
  dropped : ∀ x con, n.dropped x con = []

end

/-- What has been sent on a connection. -/
def sentOn (con : ℕ) (s : SendLoop) : List Payload :=
  (s.world.sent.filter fun m => m.con = con ∧ m.ec = none).map Send.payload

/-- What has been received on a connection. -/
def arrivedOn (con : ℕ) (s : MqLoop) : List Payload :=
  ((messages s).filter fun m => m.con = con).map Message.payload

/-! ## One end -/

/-- The handlers of the sends are called in order, each with the code of its send. -/
structure SendsInOrder (s : SendLoop) : Prop where
  handlers : s.world.called ++ s.posted = s.world.sent.map fun m => ⟨m.id, m.ec⟩
  numbered : s.world.sent.map Send.id = List.range s.world.sent.length

theorem sendsInOrder_step {s s' : SendLoop} {act : SendAction} (h : SendsInOrder s)
    (hs : sendStep s act = some s') : SendsInOrder s' := by
  cases sendStep_effect hs with
  | asyncSend con payload ec =>
    refine ⟨?_, ?_⟩
    · simp [asyncSend, ← h.handlers]
    · simp [asyncSend, h.numbered, List.range_succ]
  | @next sh shs hposted =>
    refine ⟨?_, h.numbered⟩
    rw [← h.handlers, hposted]
    simp

structure InStep (e : EndLoop) : Prop where
  consistent : Consistent (left e)
  inOrder : InOrder (left e)
  known : Known (left e)
  sends : SendsInOrder (right e)

section
variable {e e' : EndLoop}

theorem endpoint_inl {act : Action} (h : endpoint.step e (.inl act) = some e') :
    MessageQueueImpl.step (left e) act = some (left e') ∧ right e' = right e :=
  share_step_inl (guard_step h).2

theorem endpoint_inr {act : SendAction} (h : endpoint.step e (.inr act) = some e') :
    sendStep (right e) act = some (right e') ∧ left e' = left e :=
  share_step_inr (guard_step h).2

theorem inStep_step {act : EndAction} (h : InStep e) (hs : endpoint.step e act = some e') :
    InStep e' := by
  cases act with
  | inl act =>
    obtain ⟨hleft, hright⟩ := endpoint_inl hs
    exact ⟨consistent_step _ act _ h.consistent hleft, inOrder_step h.consistent h.inOrder hleft,
      known_step h.consistent h.known hleft, hright ▸ h.sends⟩
  | inr act =>
    obtain ⟨hright, hleft⟩ := endpoint_inr hs
    exact ⟨hleft ▸ h.consistent, hleft ▸ h.inOrder, hleft ▸ h.known,
      sendsInOrder_step h.sends hright⟩

end

/-! ## Both ends -/

section
variable {S W I : Type*} {E : Pair S} {transport : Transport W I} {n n' : Net S W}
  {as : List (NetAction I)}

theorem Side.eq_or_other (x y : Side) : y = x ∨ y = x.other := by
  cases x <;> cases y <;> simp [Side.other]

theorem dropped_drop (x y : Side) (con con' : ℕ) (payload : Payload) (n : Net S W) :
    (drop x con payload n).dropped y con' =
      n.dropped y con' ++ if x = y ∧ con = con' then [payload] else [] := by
  unfold drop
  dsimp only
  by_cases hy : x = y
  · subst hy
    rw [Function.update_self]
    by_cases hcon : con = con'
    · subst hcon
      rw [Function.update_self, if_pos ⟨rfl, rfl⟩]
    · rw [Function.update_of_ne fun heq => hcon heq.symm, if_neg fun h => hcon h.2, List.append_nil]
  · rw [Function.update_of_ne fun heq => hy heq.symm, if_neg fun h => hy h.1, List.append_nil]

/-- What both ends have sent and received in the course of `as`. -/
structure Carried (E : Pair S) (as : List (NetAction I)) (n : Net S W) : Prop where
  inStep : ∀ x, InStep (E.view x n.ends)
  sent : ∀ x con, as.filterMap (NetAction.sends x con) = sentOn con (sends E x n)
  arrived : ∀ x con, as.filterMap (NetAction.brings x con) =
    n.dropped x con ++ arrivedOn con (queue E x n)

theorem inStep_ends {x : Side} {act : EndAction} {ends : S}
    (h : ∀ y, InStep (E.view y n.ends)) (hs : E.step n.ends x act = some ends) (y : Side) :
    InStep (E.view y ends) := by
  obtain ⟨hx, hother⟩ := E.step_view hs
  rcases Side.eq_or_other x y with rfl | rfl
  · exact inStep_step (h y) hx
  · rw [hother]
    exact h _

/-- What a side has received and sent, before and after a step of some side. -/
theorem views_inl {x : Side} {act : Action} {ends : S} (h : InStep (E.view x n.ends))
    (hs : E.step n.ends x (.inl act) = some ends) (y : Side) (con : ℕ) :
    right (E.view y ends) = sends E y n ∧
      arrivedOn con (left (E.view y ends)) = arrivedOn con (queue E y n) ++
        if y = x then
          ((act.brings (queue E x n)).filter fun m => m.con = con).map Message.payload
        else [] := by
  obtain ⟨hx, hother⟩ := E.step_view hs
  obtain ⟨hleft, hright⟩ := endpoint_inl hx
  rcases Side.eq_or_other x y with rfl | rfl
  · refine ⟨hright, ?_⟩
    rw [if_pos rfl, arrivedOn, messages_step h.consistent hleft, List.filter_append,
      List.map_append]
    rfl
  · refine ⟨congrArg right hother, ?_⟩
    rw [if_neg (by cases x <;> simp [Side.other]), hother, List.append_nil]
    rfl

theorem views_inr {x : Side} {act : SendAction} {ends : S}
    (hs : E.step n.ends x (.inr act) = some ends) :
    (∀ y, left (E.view y ends) = queue E y n) ∧
      right (E.view x.other ends) = sends E x.other n ∧
      sendStep (sends E x n) act = some (right (E.view x ends)) := by
  obtain ⟨hx, hother⟩ := E.step_view hs
  obtain ⟨hright, hleft⟩ := endpoint_inr hx
  refine ⟨fun y => ?_, congrArg right hother, hright⟩
  rcases Side.eq_or_other x y with rfl | rfl
  · exact hleft
  · exact congrArg left hother

theorem sentOn_asyncSend (con con' : ℕ) (payload : List UInt8) (ec : ErrorCode) (s : SendLoop) :
    sentOn con' (asyncSend con payload ec s) =
      sentOn con' s ++ if con = con' ∧ ec = none then [payload] else [] := by
  simp only [sentOn, asyncSend, Loop.post_world, Loop.update_world, List.filter_append,
    List.map_append]
  by_cases h : con = con' ∧ ec = none
  · simp [h]
  · simp [h]

theorem toList_ite {α : Type*} (p : Prop) [Decidable p] (a : α) :
    (if p then some a else none).toList = if p then [a] else [] := by
  split <;> rfl

theorem carried_act {x : Side} {act : EndAction} (h : Carried E as n)
    (hs : stepEnds (I := I) E n (.act x act) = some n') : Carried E (as ++ [.act x act]) n' := by
  simp only [stepEnds] at hs
  obtain ⟨hbrought, hs⟩ := Option.ite_none_left_eq_some.mp hs
  obtain ⟨ends, hends, rfl⟩ := Option.map_eq_some_iff.mp hs
  refine ⟨inStep_ends h.inStep hends, fun y con' => ?_, fun y con' => ?_⟩
  · rw [filterMap_concat, h.sent]
    change _ = sentOn con' (right (E.view y ends))
    cases act with
    | inl act =>
      rw [(views_inl (h.inStep x) hends y con').1]
      exact List.append_nil _
    | inr act =>
      obtain ⟨-, hother, hstep⟩ := views_inr hends
      rcases Side.eq_or_other x y with rfl | rfl
      · generalize right (E.view y ends) = after at hstep ⊢
        cases sendStep_effect hstep with
        | next hposted => exact List.append_nil _
        | asyncSend con payload ec =>
          rw [sentOn_asyncSend]
          cases ec with
          | none => simp only [NetAction.sends, toList_ite, true_and, and_true]
          | some e => simp [NetAction.sends]
      · have hx : x ≠ x.other := by cases x <;> simp [Side.other]
        have hnone : NetAction.sends (I := I) x.other con' (.act x (.inr act)) = none := by
          cases act with
          | next => rfl
          | asyncSend con payload ec => cases ec <;> simp [NetAction.sends, hx]
        rw [hother, hnone]
        exact List.append_nil _
  · rw [filterMap_concat, h.arrived]
    refine (List.append_nil _).trans ?_
    change _ = n.dropped y con' ++ arrivedOn con' (left (E.view y ends))
    cases act with
    | inl act =>
      have hbrings : act.brings (queue E x n) = [] := by
        cases act with
        | message con payload => exact absurd rfl hbrought
        | setConnectionPtr | asyncReceive | close | closeEvent | transport | next => rfl
      have harrived := (views_inl (h.inStep x) hends y con').2
      rw [hbrings, List.filter_nil, List.map_nil, ite_self, List.append_nil] at harrived
      rw [harrived]
    | inr act => rw [(views_inr hends).1 y]

theorem arrivedOn_of_not_bound {s : MqLoop} {con : ℕ} (h : Known s) (hcon : con ∉ s.world.bound) :
    arrivedOn con s = [] := by
  rw [arrivedOn, List.map_eq_nil_iff, List.filter_eq_nil_iff]
  intro m hm heq
  exact hcon (of_decide_eq_true heq ▸ h m hm)

theorem carried_arrive {x : Side} {con : ℕ} {payload : Payload} (h : Carried E as n)
    (hs : stepEnds (I := I) E n (.arrive x con payload) = some n') :
    Carried E (as ++ [.arrive x con payload]) n' := by
  simp only [stepEnds] at hs
  split at hs
  case isTrue hbound =>
    obtain ⟨ends, hends, rfl⟩ := Option.map_eq_some_iff.mp hs
    refine ⟨inStep_ends h.inStep hends, fun y con' => ?_, fun y con' => ?_⟩
    · rw [filterMap_concat, h.sent]
      refine (List.append_nil _).trans ?_
      exact congrArg (sentOn con') (views_inl (h.inStep x) hends y con').1.symm
    · rw [filterMap_concat, h.arrived]
      change _ = n.dropped y con' ++ arrivedOn con' (left (E.view y ends))
      rw [(views_inl (h.inStep x) hends y con').2, List.append_assoc]
      congr 2
      simp only [NetAction.brings, toList_ite, Action.brings]
      by_cases hy : y = x <;> by_cases hcon : con = con' <;> simp [hy, hcon, Ne.symm]
  case isFalse hbound =>
    obtain rfl := Option.some.inj hs
    refine ⟨h.inStep, fun y con' => ?_, fun y con' => ?_⟩
    · rw [filterMap_concat, h.sent]
      exact List.append_nil _
    · rw [filterMap_concat, h.arrived, dropped_drop]
      change _ = _ ++ arrivedOn con' (queue E y n)
      simp only [NetAction.brings, toList_ite]
      by_cases hthere : x = y ∧ con = con'
      · obtain ⟨rfl, rfl⟩ := hthere
        -- nothing has arrived there, so that this comes right after what was dropped
        have hnone : arrivedOn con (queue E x n) = [] :=
          arrivedOn_of_not_bound (h.inStep x).known hbound
        rw [hnone, List.append_nil, List.append_nil]
      · rw [if_neg hthere, List.append_nil, List.append_nil]

theorem carried_step (as : List (NetAction I)) (n : Net S W) (act : NetAction I) (n' : Net S W)
    (h : Carried E as n) (hs : step E transport n act = some n') : Carried E (as ++ [act]) n' := by
  obtain ⟨wire, -, hs⟩ := Option.bind_eq_some_iff.mp hs
  have hn : Carried E as { n with wire } := ⟨h.inStep, h.sent, h.arrived⟩
  cases act with
  | act x act => exact carried_act hn hs
  | arrive x con payload => exact carried_arrive hn hs
  | between event =>
    obtain rfl := Option.some.inj hs
    refine ⟨hn.inStep, fun x con => ?_, fun x con => ?_⟩
    · rw [filterMap_concat, hn.sent]
      exact List.append_nil _
    · rw [filterMap_concat, hn.arrived]
      exact List.append_nil _

theorem carried_start (h : Starts E n) : Carried (I := I) E [] n := by
  refine ⟨fun x => ?_, fun x con => ?_, fun x con => ?_⟩
  · rw [h.ends x]
    exact ⟨consistent_init, rfl, fun m hm => (by cases hm), ⟨rfl, rfl⟩⟩
  · rw [sends, h.ends]
    rfl
  · rw [h.dropped, queue, h.ends]
    rfl

/-- What the transport has seen. -/
def Carries (transport : Transport W I) (wire : W) (as : List (NetAction I)) (m : Net S W) : Prop :=
  run transport wire as = some m.wire

theorem carries_step {wire₀ : W} (as : List (NetAction I)) (m : Net S W) (act : NetAction I)
    (m' : Net S W) (h : Carries transport wire₀ as m) (hs : step E transport m act = some m') :
    Carries transport wire₀ (as ++ [act]) m' := by
  obtain ⟨wire, hwire, hs⟩ := Option.bind_eq_some_iff.mp hs
  have hsame : m'.wire = wire := by
    cases act with
    | act x act =>
      simp only [stepEnds] at hs
      obtain ⟨-, hs⟩ := Option.ite_none_left_eq_some.mp hs
      obtain ⟨ends, -, rfl⟩ := Option.map_eq_some_iff.mp hs
      rfl
    | arrive x con payload =>
      simp only [stepEnds] at hs
      split at hs
      case isTrue =>
        obtain ⟨ends, -, rfl⟩ := Option.map_eq_some_iff.mp hs
        rfl
      case isFalse =>
        obtain rfl := Option.some.inj hs
        rfl
    | between event =>
      obtain rfl := Option.some.inj hs
      rfl
  rw [Carries, hsame]
  exact run_trans h (run_cons_iff.mpr ⟨wire, hwire, rfl⟩)

/-- What has arrived is what the other end has sent first. -/
theorem arrived_prefix {t : Net S W} (hordered : Ordered transport n.wire) (hn : Starts E n)
    (h : run (step E transport) n as = some t) (x : Side) (con : ℕ) :
    t.dropped x con ++ arrivedOn con (queue E x t) <+: sentOn con (sends E x.other t) := by
  have hcarried : Carried E ([] ++ as) t := run_invariant_history carried_step (carried_start hn) h
  have hstart : Carries transport n.wire [] n := rfl
  have hwire : Carries transport n.wire ([] ++ as) t := run_invariant_history carries_step hstart h
  rw [List.nil_append] at hcarried hwire
  rw [← hcarried.arrived, ← hcarried.sent]
  exact hordered as t.wire hwire x con

/-! ## What a message queue receives -/

/-- The messages of a connection among items. -/
def payloadsOn (con : ℕ) (its : List Item) : List Payload :=
  ((its.filterMap Item.message?).filter fun m => m.con = con).map Message.payload

theorem arrivedOn_eq {s : MqLoop} (h : Consistent s) (con : ℕ) :
    arrivedOn con s = payloadsOn con (s.world.handed.map Prod.snd) ++
      payloadsOn con s.world.mReceiveQueue.mData := by
  rw [arrivedOn, messages, h.sound.items, List.filterMap_append, List.filter_append,
    List.map_append]
  rfl

theorem payloadsOn_of_forall {con : ℕ} {its : List Item}
    (h : ∀ m ∈ its.filterMap Item.message?, m.con = con) :
    payloadsOn con its = (its.filterMap Item.message?).map Message.payload := by
  rw [payloadsOn, List.filter_eq_self.mpr fun m hm => decide_eq_true (h m hm)]

theorem InStep.sublist {e : EndLoop} {con : ℕ} (h : InStep e)
    (hbound : ∀ c ∈ (left e).world.bound, c = con) :
    ((successes (left e)).map Completion.content).Sublist
      (payloadsOn con ((left e).world.handed.map Prod.snd)) := by
  have hmessages (m : Message)
      (hm : m ∈ ((left e).world.handed.map Prod.snd).filterMap Item.message?) : m.con = con := by
    refine hbound _ (h.known m ?_)
    rw [messages, h.consistent.sound.items, List.filterMap_append]
    exact List.mem_append_left _ hm
  rw [payloadsOn_of_forall hmessages, List.filterMap_map, h.inOrder]
  exact results_sublist _

/-- **What one end sends, the other end receives.** In every run of two ends, on one `io_service` or
on two, with anything between them that keeps to `Ordered`: what one end has sent on a connection
begins, in order, with what was dropped before a message queue took over, then what has been handed
out, then what is buffered. A queue that has had one connection completes its successful receives
with messages sent on it, in the order in which they were sent and each at most once. Every send
handler is called at most once, in the order of the sends, with the code of its send. -/
theorem received_as_sent {t : Net S W} (hordered : Ordered transport n.wire) (hn : Starts E n)
    (h : run (step E transport) n as = some t) (x : Side) (con : ℕ) :
    (t.dropped x con ++ (payloadsOn con ((queue E x t).world.handed.map Prod.snd) ++
      payloadsOn con (queue E x t).world.mReceiveQueue.mData) <+:
        sentOn con (sends E x.other t)) ∧
    ((∀ c ∈ (queue E x t).world.bound, c = con) →
      ((successes (queue E x t)).map Completion.content).Sublist
        (sentOn con (sends E x.other t))) ∧
    (sends E x t).world.called ++ (sends E x t).posted =
      ((sends E x t).world.sent.map fun m => ⟨m.id, m.ec⟩) ∧
    (sends E x t).world.sent.map Send.id = List.range (sends E x t).world.sent.length := by
  have ht : Carried E ([] ++ as) t := run_invariant_history carried_step (carried_start hn) h
  have hbegin := arrived_prefix hordered hn h x con
  have harrived : arrivedOn con (queue E x t) = _ := arrivedOn_eq (ht.inStep x).consistent con
  rw [harrived] at hbegin
  refine ⟨hbegin, fun hbound => ?_, (ht.inStep x).sends.handlers, (ht.inStep x).sends.numbered⟩
  have hhanded := (ht.inStep x).sublist hbound
  exact ((hhanded.trans (List.sublist_append_left _ _)).trans
    (List.sublist_append_right _ _)).trans hbegin.sublist

end

/-! ## A transport -/

/-- Everything that has happened: a message may arrive if it is the next of those sent. -/
def reliable : Transport (List (NetAction Unit)) Unit := fun past act =>
  match act with
  | .arrive x con payload =>
    if (past.filterMap (NetAction.sends x.other con))[
        (past.filterMap (NetAction.brings x con)).length]? = some payload then
      some (past ++ [act])
    else none
  | _ => some (past ++ [act])

theorem ordered_step (as past : List (NetAction Unit)) (act : NetAction Unit)
    (past' : List (NetAction Unit))
    (h : past = as ∧ ∀ x con,
      as.filterMap (NetAction.brings x con) <+: as.filterMap (NetAction.sends x.other con))
    (hs : reliable past act = some past') :
    past' = as ++ [act] ∧ ∀ x con, (as ++ [act]).filterMap (NetAction.brings x con) <+:
      (as ++ [act]).filterMap (NetAction.sends x.other con) := by
  obtain ⟨rfl, hbegin⟩ := h
  have hlater (x : Side) (con : ℕ) : past.filterMap (NetAction.brings x con) <+:
      (past ++ [act]).filterMap (NetAction.sends x.other con) := by
    rw [filterMap_concat]
    exact (hbegin x con).trans (List.prefix_append _ _)
  cases act with
  | act y act =>
    refine ⟨(Option.some.inj hs).symm, fun x con => ?_⟩
    rw [filterMap_concat (NetAction.brings x con)]
    exact (List.append_nil _).symm ▸ hlater x con
  | between event =>
    refine ⟨(Option.some.inj hs).symm, fun x con => ?_⟩
    rw [filterMap_concat (NetAction.brings x con)]
    exact (List.append_nil _).symm ▸ hlater x con
  | arrive y con' payload =>
    obtain ⟨hnext, hs⟩ := Option.ite_none_right_eq_some.mp hs
    refine ⟨(Option.some.inj hs).symm, fun x con => ?_⟩
    rw [filterMap_concat (NetAction.brings x con), NetAction.brings, toList_ite]
    by_cases hthere : y = x ∧ con' = con
    · obtain ⟨rfl, rfl⟩ := hthere
      obtain ⟨rest, hrest⟩ := hbegin y con'
      rw [← hrest, List.getElem?_append_right (Nat.le_refl _), Nat.sub_self] at hnext
      obtain ⟨rest', rfl⟩ : ∃ rest', rest = payload :: rest' := by
        cases rest with
        | nil => cases hnext
        | cons p rest' =>
          obtain rfl : p = payload := Option.some.inj hnext
          exact ⟨rest', rfl⟩
      rw [if_pos ⟨rfl, rfl⟩]
      refine ⟨rest', ?_⟩
      rw [filterMap_concat, ← hrest]
      simp [NetAction.sends]
    · rw [if_neg hthere, List.append_nil]
      exact hlater x con

theorem ordered_reliable : Ordered reliable [] := by
  intro as w h
  have hstart : ([] : List (NetAction Unit)) = [] ∧ ∀ x con,
      ([] : List (NetAction Unit)).filterMap (NetAction.brings x con) <+:
        ([] : List (NetAction Unit)).filterMap (NetAction.sends x.other con) :=
    ⟨rfl, fun _ _ => List.prefix_rfl⟩
  exact (run_invariant_history ordered_step hstart h).2

/-- Both ends on one `io_service`. -/
def quiet : Net (Loop ((World × Sends) × World × Sends) ((Job ⊕ SendHandler) ⊕ Job ⊕ SendHandler))
    (List (NetAction Unit)) where
  ends := ⟨((init.world, ⟨[], []⟩), init.world, ⟨[], []⟩), []⟩
  wire := []
  dropped _ _ := []

theorem starts_quiet : Starts together quiet where
  ends x := by cases x <;> rfl
  dropped _ _ := rfl

/-- Two messages, the second of which is too long for its receive, and a third that is lost. -/
theorem received_as_sent_two :
    ∃ t, run (step together reliable) quiet [.act .client (.inl (.setConnectionPtr 7)),
        .act .server (.inl (.setConnectionPtr 7)), .act .client (.inr (.asyncSend 7 [1, 2] none)),
        .act .server (.inl (.asyncReceive [0, 0])), .act .client (.inr (.asyncSend 7 [3, 4] none)),
        .act .client (.inr .next), .arrive .server 7 [1, 2], .act .server (.inl (.asyncReceive [0])),
        .act .server (.inl .next), .arrive .server 7 [3, 4], .act .client (.inr .next),
        .act .server (.inl .next), .act .client (.inr (.asyncSend 7 [5] none)), .between ()] =
          some t ∧
      (successes (queue together .server t)).map Completion.content = [[1, 2]] ∧
      ((successes (queue together .server t)).map Completion.content).Sublist
        (sentOn 7 (sends together .client t)) := by
  have hrun : run (step together reliable) quiet [.act .client (.inl (.setConnectionPtr 7)),
      .act .server (.inl (.setConnectionPtr 7)), .act .client (.inr (.asyncSend 7 [1, 2] none)),
      .act .server (.inl (.asyncReceive [0, 0])), .act .client (.inr (.asyncSend 7 [3, 4] none)),
      .act .client (.inr .next), .arrive .server 7 [1, 2], .act .server (.inl (.asyncReceive [0])),
      .act .server (.inl .next), .arrive .server 7 [3, 4], .act .client (.inr .next),
      .act .server (.inl .next), .act .client (.inr (.asyncSend 7 [5] none)), .between ()] =
        some _ := rfl
  have hsent := received_as_sent (n := quiet) ordered_reliable starts_quiet hrun .server 7
  exact ⟨_, hrun, by decide, hsent.2.1 (by decide)⟩

end CxxUtil.Ws.Duplex
