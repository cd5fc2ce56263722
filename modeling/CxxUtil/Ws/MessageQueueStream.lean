import CxxUtil.Ws.MessageQueueReuse

/-! # A queue as a stream

The messages that a queue has been given, in order, and the receives that succeed, in order: the
`k`-th success is that of the `k`-th receive to be handed a message that fits. `Plain` runs have one
connection, no `close()` and no error, and there the `k`-th call of `asyncReceive` gets the `k`-th
message. -/
namespace CxxUtil.Ws.MessageQueueImpl
open Foundations Queue ProducerConsumerQueue Asio
set_option autoImplicit false

def messages (s : MqLoop) : List Message := s.world.items.filterMap Item.message?

/-- The message that an action brings. -/
def Action.brings (s : MqLoop) : Action → List Message
  | .message con payload => [⟨con, s.world.arrived, payload⟩]
  | _ => []

/-- What the receives among the consumers complete with. -/
def results (handed : List (Consumer × Item)) : List Completion :=
  handed.flatMap fun p => p.1.receive?.toList.map fun r => completion r p.2

def successes (s : MqLoop) : List Completion := s.world.answered.filter fun c => c.ec.isNone

/-- The bytes that a handler finds in its buffer. -/
def Completion.content (c : Completion) : List UInt8 := c.buffer.take c.nCopied

section
variable {s s' : MqLoop}

/-! ## What arrives -/

theorem messages_produce (h : s.world.mReceiveQueue.OneSided) (it : Item) :
    messages (produce it s) = messages s ++ it.message?.toList := by
  rw [messages, (produce_items h it).1, List.filterMap_append, filterMap_cons_toList,
    List.filterMap_nil, List.append_nil]
  rfl

theorem messages_consume (h : s.world.mReceiveQueue.OneSided) (c : Consumer) :
    messages (consume c s) = messages s := by
  rw [messages, (consume_items h c).1]
  rfl

theorem messages_close (h : Consistent s) : messages (close s) = messages s := by
  let Inv (t : MqLoop) : Prop := messages t = messages s
  have hproduce (t : MqLoop) (ht : Consistent t ∧ Inv t) : Inv (produce .aborted t) := by
    refine (messages_produce ht.1.sound.oneSided _).trans ?_
    rw [ht.2]
    exact List.append_nil _
  have hconsume (t : MqLoop) (ht : Consistent t ∧ Inv t) : Inv (consume .discard t) :=
    (messages_consume ht.1.sound.oneSided _).trans ht.2
  have hstart : Consistent s ∧ Inv s := ⟨h, rfl⟩
  exact close_keeps hstart hproduce hconsume

/-- Nothing but the arrival of a message gives the queue a message. -/
theorem messages_step {act : Action} (h : Consistent s) (hs : step s act = some s') :
    messages s' = messages s ++ act.brings s := by
  have hone := h.sound.oneSided
  cases step_effect hs with
  | setConnectionPtr con => exact (List.append_nil _).symm
  | asyncReceive buffer => exact (List.append_nil _).symm
  | close => exact (messages_close h).trans (List.append_nil _).symm
  | message con payload =>
    exact messages_produce (s := s.update fun w => { w with arrived := w.arrived + 1 }) hone _
  | closeEvent con e => exact messages_produce hone _
  | transport con ec => exact (List.append_nil _).symm
  | handler hposted => exact (List.append_nil _).symm
  | @receive r jobs p hposted hp hec =>
    exact (messages_consume (s := ⟨s.world, jobs⟩) hone _).trans (List.append_nil _).symm
  | turnedAway hposted hp hec => exact (List.append_nil _).symm

/-! ## What succeeds -/

theorem results_append (ps : List (Consumer × Item)) (c : Consumer) (it : Item) :
    results (ps ++ [(c, it)]) = results ps ++ c.receive?.toList.map fun r => completion r it := by
  simp [results]

/-- The successes are those among the results, in order. -/
def InOrder (s : MqLoop) : Prop :=
  successes s = (results s.world.handed).filter fun c => c.ec.isNone

theorem InOrder.consume (h : InOrder s) (hone : s.world.mReceiveQueue.OneSided) (c : Consumer) :
    InOrder (consume c s) := by
  rcases consume_cases hone c with ⟨cs, -, heq⟩ | ⟨it, its, -, heq⟩
  · rw [heq]
    exact h
  · rw [heq, InOrder, successes, setQueue, Loop.update_world, deliver_world]
    simp only [results_append, List.filter_append]
    exact congrArg (· ++ _) h

theorem InOrder.produce (h : InOrder s) (hone : s.world.mReceiveQueue.OneSided) (it : Item) :
    InOrder (produce it s) := by
  rcases produce_cases hone it with ⟨its, -, heq⟩ | ⟨c, cs, -, heq⟩
  · rw [heq]
    exact h
  · rw [heq, InOrder, successes, setQueue, Loop.update_world, deliver_world]
    simp only [results_append, List.filter_append]
    exact congrArg (· ++ _) h

theorem inOrder_step {act : Action} (hcons : Consistent s) (h : InOrder s)
    (hs : step s act = some s') : InOrder s' := by
  have hone := hcons.sound.oneSided
  cases step_effect hs with
  | setConnectionPtr con => exact h
  | asyncReceive buffer => exact h
  | close =>
    exact close_keeps ⟨hcons, h⟩ (fun t ht => ht.2.produce ht.1.sound.oneSided _)
      fun t ht => ht.2.consume ht.1.sound.oneSided _
  | message con payload =>
    exact InOrder.produce (s := s.update fun w => { w with arrived := w.arrived + 1 }) h hone _
  | closeEvent con e => exact h.produce hone _
  | transport con ec => exact h
  | handler hposted => exact h
  | @receive r jobs p hposted hp hec => exact InOrder.consume (s := ⟨s.world, jobs⟩) h hone _
  | turnedAway hposted hp hec =>
    rw [InOrder, successes, postHandler, Loop.post_world, Loop.update_world, List.filter_append]
    exact (List.append_nil _).trans h

/-- A receive succeeds with the whole of a message. -/
theorem success_content {r : Receive} {it : Item} (h : (completion r it).ec = none) :
    it.message?.map Message.payload = some (completion r it).content := by
  cases it with
  | message m =>
    rcases completion_message r m with ⟨-, -, hn, hbuffer⟩ | ⟨-, hsize, -⟩
    · rw [Completion.content, hn, hbuffer]
      rfl
    · rw [hsize] at h
      cases h
  | closed con e => cases h
  | aborted => cases h

/-- The contents that arrive are those of messages, in order and none of them twice. -/
theorem results_sublist (ps : List (Consumer × Item)) :
    (((results ps).filter fun c => c.ec.isNone).map Completion.content).Sublist
      ((ps.filterMap fun p => p.2.message?).map Message.payload) := by
  induction ps with
  | nil => exact List.Sublist.refl _
  | cons p ps ih =>
    obtain ⟨c, it⟩ := p
    have hone : (((results [(c, it)]).filter fun c => c.ec.isNone).map Completion.content).Sublist
        (it.message?.toList.map Message.payload) := by
      cases c with
      | discard => exact List.nil_sublist _
      | receive r =>
        cases hec : (completion r it).ec with
        | some e => simp [results, Consumer.receive?, hec]
        | none =>
          obtain ⟨m, hm, hcontent⟩ := Option.map_eq_some_iff.mp (success_content hec)
          simp [results, Consumer.receive?, hec, hm, hcontent]
    have hsplit : results ((c, it) :: ps) = results [(c, it)] ++ results ps := by
      simp [results]
    rw [hsplit, List.filter_append, List.map_append, filterMap_cons_toList, List.map_append]
    exact hone.append ih

/-! ## The connections -/

/-- What the queue knows of connections. -/
def connections (s : MqLoop) : Option ℕ × (ℕ → ErrorCode) × List ℕ :=
  (s.world.mPtr, s.world.transportEc, s.world.bound)

theorem connections_deliver (c : Consumer) (it : Item) (s : MqLoop) :
    connections (deliver c it s) = connections s := by
  rw [connections, deliver_world]
  rfl

theorem connections_post (cs : List Consumer) (its : List Item) (s : MqLoop) :
    connections (post deliver cs its s).2 = connections s := by
  induction cs generalizing its s with
  | nil => rw [post_nil_left]
  | cons c cs ih =>
    cases its with
    | nil => rw [post_nil_right]
    | cons it its => rw [post, ih, connections_deliver]

theorem connections_consume (c : Consumer) (s : MqLoop) :
    connections (consume c s) = connections s :=
  connections_post _ _ (s.update fun w => { w with consumers := w.consumers ++ [c] })

theorem connections_produce (it : Item) (s : MqLoop) :
    connections (produce it s) = connections s :=
  connections_post _ _ (s.update fun w => { w with items := w.items ++ [it] })

theorem connections_close (s : MqLoop) : connections (close s) = connections s := by
  have hproduce (t : MqLoop) (ht : connections t = connections s)
      (_ : decide (depth t < 0) = true) : connections (produce .aborted t) = connections s :=
    (connections_produce _ t).trans ht
  have hconsume (t : MqLoop) (ht : connections t = connections s)
      (_ : decide (0 < depth t) = true) : connections (consume .discard t) = connections s :=
    (connections_consume _ t).trans ht
  have habort : connections (abortDemand s) = connections s :=
    whileLoop_invariant hproduce imbalance rfl
  exact whileLoop_invariant hconsume imbalance habort

/-- What an action does to the connections. -/
def Action.connect : Action → Option ℕ × (ℕ → ErrorCode) × List ℕ →
    Option ℕ × (ℕ → ErrorCode) × List ℕ
  | .setConnectionPtr con, (_, ec, bound) => (some con, ec, con :: bound)
  | .transport con ec, (p, ecs, bound) => (p, Function.update ecs con ec, bound)
  | _, cs => cs

theorem connections_step {act : Action} (hs : step s act = some s') :
    connections s' = act.connect (connections s) := by
  cases step_effect hs with
  | setConnectionPtr con => rfl
  | asyncReceive buffer => rfl
  | close => exact connections_close s
  | message con payload =>
    exact connections_produce _ (s.update fun w => { w with arrived := w.arrived + 1 })
  | closeEvent con e => exact connections_produce _ s
  | transport con ec => rfl
  | handler hposted => rfl
  | @receive r jobs p hposted hp hec => exact connections_consume _ ⟨s.world, jobs⟩
  | turnedAway hposted hp hec => rfl

/-- Every message is from a connection whose handlers have been set. -/
def Known (s : MqLoop) : Prop := ∀ m ∈ messages s, m.con ∈ s.world.bound

theorem bound_step {act : Action} (hs : step s act = some s') : s.world.bound ⊆ s'.world.bound := by
  have hbound : s'.world.bound = (act.connect (connections s)).2.2 :=
    congrArg (fun cs => cs.2.2) (connections_step hs)
  rw [hbound]
  cases act with
  | setConnectionPtr con => exact List.subset_cons_self _ _
  | asyncReceive | close | message | closeEvent | transport | next => exact List.Subset.refl _

theorem known_step {act : Action} (hcons : Consistent s) (h : Known s)
    (hs : step s act = some s') : Known s' := by
  intro m hm
  rw [messages_step hcons hs] at hm
  refine bound_step hs ?_
  rcases List.mem_append.mp hm with hm | hm
  · exact h m hm
  · cases act with
    | message con payload =>
      obtain rfl := List.mem_singleton.mp hm
      exact (Option.ite_none_right_eq_some.mp hs).1
    | setConnectionPtr | asyncReceive | close | closeEvent | transport | next => cases hm

/-! ## The `k`-th receive and the `k`-th message -/

/-- One connection, which has no error and stays open, and `n` bytes are enough for a message. -/
def Plain (con n : ℕ) : Action → Prop
  | .setConnectionPtr con' => con' = con
  | .asyncReceive buffer => n ≤ buffer.length
  | .close => False
  | .message _ payload => payload.length ≤ n
  | .closeEvent _ => False
  | .transport _ ec => ec = none
  | .next => True

instance (con n : ℕ) : ∀ act, Decidable (Plain con n act)
  | .setConnectionPtr con' => inferInstanceAs (Decidable (con' = con))
  | .asyncReceive buffer => inferInstanceAs (Decidable (n ≤ buffer.length))
  | .message _ payload => inferInstanceAs (Decidable (payload.length ≤ n))
  | .transport _ ec => inferInstanceAs (Decidable (ec = none))
  | .close | .closeEvent _ => .isFalse not_false
  | .next => .isTrue trivial

/-- The receives that have entered the queue, and those that are posted. -/
def queued (s : MqLoop) : List Receive := s.world.consumers.filterMap Consumer.receive?
def upcoming (s : MqLoop) : List Receive := s.posted.filterMap Job.receive?

structure Piped (n : ℕ) (s : MqLoop) : Prop where
  clear : ∀ con, s.world.transportEc con = none
  answered : s.world.answered = results s.world.handed
  consumers : s.world.consumers = (queued s).map .receive
  items : s.world.items = (messages s).map .message
  numbered : (queued s ++ upcoming s).map Receive.id = List.range s.world.received
  room : ∀ r ∈ queued s ++ upcoming s, n ≤ r.buffer.length
  short : ∀ m ∈ messages s, m.payload.length ≤ n

/-- A receive goes from the posted functions into the queue. -/
theorem Piped.consume {n : ℕ} {r : Receive} {jobs : List Job} (h : Piped n s)
    (hone : s.world.mReceiveQueue.OneSided) (hposted : s.posted = .receive r :: jobs) :
    Piped n (consume (.receive r) ⟨s.world, jobs⟩) := by
  have hmessages := messages_consume (s := ⟨s.world, jobs⟩) hone (.receive r)
  have hitems := (consume_items (s := ⟨s.world, jobs⟩) hone (.receive r)).1
  have hclear : (MessageQueueImpl.consume (.receive r) ⟨s.world, jobs⟩).world.transportEc =
      s.world.transportEc :=
    congrArg (fun cs => cs.2.1) (connections_consume (.receive r) ⟨s.world, jobs⟩)
  have hupcoming : upcoming s = r :: jobs.filterMap Job.receive? := by
    rw [upcoming, hposted, filterMap_cons_toList]
    rfl
  obtain ⟨hqueued, hrest, hreceived, hconsumers, hanswered⟩ :
      queued (MessageQueueImpl.consume (.receive r) ⟨s.world, jobs⟩) = queued s ++ [r] ∧
      upcoming (MessageQueueImpl.consume (.receive r) ⟨s.world, jobs⟩) =
        jobs.filterMap Job.receive? ∧
      (MessageQueueImpl.consume (.receive r) ⟨s.world, jobs⟩).world.received =
        s.world.received ∧
      (MessageQueueImpl.consume (.receive r) ⟨s.world, jobs⟩).world.consumers =
        s.world.consumers ++ [.receive r] ∧
      (MessageQueueImpl.consume (.receive r) ⟨s.world, jobs⟩).world.answered =
        results (MessageQueueImpl.consume (.receive r) ⟨s.world, jobs⟩).world.handed := by
    rcases consume_cases (s := ⟨s.world, jobs⟩) hone (.receive r) with
      ⟨cs, -, heq⟩ | ⟨it, its, -, heq⟩
    · rw [heq]
      refine ⟨?_, rfl, rfl, rfl, h.answered⟩
      simp [queued, setQueue, Consumer.receive?]
    · rw [heq]
      refine ⟨?_, ?_, rfl, rfl, ?_⟩
      · simp [queued, setQueue, deliver, postHandler, Consumer.receive?]
      · simp [upcoming, setQueue, deliver, postHandler, Job.receive?]
      · rw [setQueue, Loop.update_world, deliver_world, results_append]
        exact congrArg (· ++ _) h.answered
  refine ⟨fun con => ?_, hanswered, ?_, ?_, ?_, ?_, ?_⟩
  · rw [hclear]
    exact h.clear con
  · rw [hconsumers, hqueued, h.consumers]
    simp [queued]
  · rw [hitems, hmessages]
    exact h.items
  · rw [hqueued, hrest, hreceived, ← h.numbered, hupcoming]
    simp
  · rw [hqueued, hrest]
    intro r' hr'
    refine h.room r' ?_
    rw [hupcoming]
    simpa using hr'
  · rw [hmessages]
    exact h.short

theorem Piped.handleMessage {n con : ℕ} {payload : List UInt8} (h : Piped n s)
    (hone : s.world.mReceiveQueue.OneSided) (hshort : payload.length ≤ n) :
    Piped n (handleMessage con payload s) := by
  let s₁ := s.update fun w => { w with arrived := w.arrived + 1 }
  let m : Message := ⟨con, s.world.arrived, payload⟩
  have hone₁ : s₁.world.mReceiveQueue.OneSided := hone
  have hmessages : messages (produce (.message m) s₁) = messages s ++ [m] :=
    messages_produce hone₁ (.message m)
  have hitems : (produce (.message m) s₁).world.items = s.world.items ++ [.message m] :=
    (produce_items hone₁ (.message m)).1
  have hclear : (produce (.message m) s₁).world.transportEc = s.world.transportEc :=
    congrArg (fun cs => cs.2.1) (connections_produce (.message m) s₁)
  obtain ⟨hqueued, hrest, hreceived, hconsumers, hanswered⟩ :
      queued (produce (.message m) s₁) = queued s ∧
      upcoming (produce (.message m) s₁) = upcoming s ∧
      (produce (.message m) s₁).world.received = s.world.received ∧
      (produce (.message m) s₁).world.consumers = s.world.consumers ∧
      (produce (.message m) s₁).world.answered =
        results (produce (.message m) s₁).world.handed := by
    rcases produce_cases hone₁ (.message m) with ⟨its, -, heq⟩ | ⟨c, cs, -, heq⟩
    · rw [heq]
      exact ⟨rfl, rfl, rfl, rfl, h.answered⟩
    · rw [heq]
      refine ⟨?_, ?_, ?_, ?_, ?_⟩
      · rw [queued, setQueue, Loop.update_world, deliver_world]
        rfl
      · cases c <;> simp [upcoming, setQueue, deliver, postHandler, Job.receive?, s₁]
      · rw [setQueue, Loop.update_world, deliver_world]
        rfl
      · rw [setQueue, Loop.update_world, deliver_world]
        rfl
      · rw [setQueue, Loop.update_world, deliver_world, results_append]
        exact congrArg (· ++ _) h.answered
  refine ⟨fun con => ?_, hanswered, ?_, ?_, ?_, ?_, ?_⟩
  · exact (congrFun hclear con).trans (h.clear con)
  · exact hconsumers.trans (h.consumers.trans (congrArg _ hqueued.symm))
  · refine hitems.trans ?_
    rw [h.items]
    exact (List.map_append.symm.trans (congrArg _ hmessages.symm))
  · exact (congrArg _ (congrArg₂ _ hqueued hrest)).trans
      (h.numbered.trans (congrArg _ hreceived.symm))
  · intro r hr
    exact h.room r (by rwa [← hqueued, ← hrest])
  · intro m' hm'
    rcases List.mem_append.mp (hmessages ▸ hm') with hm' | hm'
    · exact h.short m' hm'
    · obtain rfl := List.mem_singleton.mp hm'
      exact hshort

theorem piped_step {con n : ℕ} (s : MqLoop) (act : Action) (s' : MqLoop)
    (h : Consistent s ∧ Piped n s) (hact : Plain con n act) (hs : step s act = some s') :
    Consistent s' ∧ Piped n s' := by
  obtain ⟨hcons, h⟩ := h
  refine ⟨consistent_step s act s' hcons hs, ?_⟩
  have hone := hcons.sound.oneSided
  cases step_effect hs with
  | setConnectionPtr con => exact { h with }
  | asyncReceive buffer =>
    have hposted : upcoming (asyncReceive buffer s) = upcoming s ++ [⟨s.world.received, buffer⟩] :=
      List.filterMap_append
    refine { h with numbered := ?_, room := fun r hr => ?_ }
    · rw [hposted, ← List.append_assoc, List.map_append]
      exact (congrArg (· ++ _) h.numbered).trans List.range_succ.symm
    · rw [hposted, ← List.append_assoc] at hr
      rcases List.mem_append.mp hr with hr | hr
      · exact h.room r hr
      · obtain rfl := List.mem_singleton.mp hr
        exact hact
  | close => exact hact.elim
  | message con payload => exact h.handleMessage hone hact
  | closeEvent con e => exact hact.elim
  | transport con' ec =>
    refine { h with clear := fun c => ?_ }
    obtain rfl : ec = none := hact
    by_cases hc : c = con'
    · rw [hc]
      exact Function.update_self _ _ _
    · exact (Function.update_of_ne hc _ _).trans (h.clear c)
  | @handler c jobs hposted =>
    have hupcoming : upcoming ⟨s.world, jobs⟩ = upcoming s := by
      rw [upcoming, upcoming, hposted, filterMap_cons_toList]
      rfl
    refine { h with numbered := ?_, room := ?_ }
    · rw [hupcoming]
      exact h.numbered
    · rw [hupcoming]
      exact h.room
  | receive hposted hp hec => exact h.consume hone hposted
  | turnedAway hposted hp hec =>
    rw [h.clear] at hec
    cases hec

theorem piped_init (n : ℕ) : Piped n init where
  clear _ := rfl
  answered := rfl
  consumers := rfl
  items := rfl
  numbered := rfl
  room := fun _ hr => (by cases hr)
  short := fun _ hm => (by cases hm)

theorem results_zip (rs : List Receive) (ms : List Message) :
    results ((rs.map .receive).zip (ms.map .message)) =
      List.zipWith (fun r m => completion r (.message m)) rs ms := by
  induction rs generalizing ms with
  | nil => rfl
  | cons r rs ih =>
    cases ms with
    | nil => rfl
    | cons m ms =>
      rw [List.zipWith_cons_cons, ← ih]
      rfl

theorem Piped.answered_eq {n : ℕ} (h : Piped n s) (hsound : Sound [] s) :
    s.world.answered =
      List.zipWith (fun r m => completion r (.message m)) (queued s) (messages s) := by
  rw [h.answered, hsound.handed_eq, h.consumers, h.items, results_zip]

/-- The `k`-th handler to be posted is that of the `k`-th receive, with the `k`-th message. -/
theorem Piped.getElem? {n k : ℕ} {c : Completion} (h : Piped n s) (hsound : Sound [] s)
    (hc : s.world.answered[k]? = some c) :
    c.receive.id = k ∧ c.ec = none ∧
      ((messages s)[k]?).map Message.payload = some c.content := by
  rw [h.answered_eq hsound, List.getElem?_zipWith_eq_some] at hc
  obtain ⟨r, m, hr, hm, rfl⟩ := hc
  have hshort := h.short m (List.mem_of_getElem? hm)
  have hroom := h.room r (List.mem_append_left _ (List.mem_of_getElem? hr))
  have hok : (completion r (.message m)).ec = none := by
    rcases completion_message r m with ⟨-, hec, -, -⟩ | ⟨hlt, -, -⟩
    · exact hec
    · omega
  refine ⟨?_, hok, ?_⟩
  · rw [completion_receive]
    have hid : ((queued s ++ upcoming s).map Receive.id)[k]? = some r.id := by
      rw [List.getElem?_map, List.getElem?_append_left (List.getElem?_eq_some_iff.mp hr).1, hr]
      rfl
    rw [h.numbered] at hid
    exact (List.getElem?_eq_some_iff.mp hid).2.symm.trans (List.getElem_range _)
  · rw [hm]
    exact success_content hok

/-- When every posted function has run, no receive waits while there is a message for it. -/
theorem Piped.length_answered {n : ℕ} (h : Piped n s) (hsound : Sound [] s)
    (hidle : s.posted = []) :
    s.world.answered.length = min s.world.received (messages s).length := by
  have hreceived : (queued s).length = s.world.received := by
    have hlength := congrArg List.length h.numbered
    simpa [upcoming, hidle] using hlength
  rw [h.answered_eq hsound, List.length_zipWith, hreceived]

end
end CxxUtil.Ws.MessageQueueImpl
