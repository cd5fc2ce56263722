import CxxUtil.Ws.MessageQueue

/-! # Receives and messages, paired in order

`mReceiveQueue` hands the items out in the order in which they were produced, to the consumers in
the order in which they came; every receive is posted, waits in the queue or has had its handler
posted. Both are kept by every step (`consistent_step`). The results a receive completes with are
those of `completion`, or the transport error its posted function found. -/
namespace CxxUtil.Ws.MessageQueueImpl
open Foundations Queue ProducerConsumerQueue Asio
set_option autoImplicit false

def Consumer.receive? : Consumer → Option Receive
  | .receive r => some r
  | .discard => none

def Job.receive? : Job → Option Receive
  | .receive r => some r
  | .handler _ => none

def Item.message? : Item → Option Message
  | .message m => some m
  | _ => none

def outstanding (s : MqLoop) : List Receive :=
  s.posted.filterMap Job.receive? ++ s.world.mReceiveQueue.mHandlers.filterMap Consumer.receive?

/-- What a handler is posted with: the results for an item handed to its receive, or an error. -/
def Accountable (handed : List (Consumer × Item)) (c : Completion) : Prop :=
  (∃ it, (.receive c.receive, it) ∈ handed ∧ c = completion c.receive it) ∨
    ∃ e, c = ⟨c.receive, some e, 0, c.receive.buffer⟩

/-- The receives are those answered, those of `busy` and those outstanding. -/
structure Sound (busy : List Receive) (s : MqLoop) : Prop where
  oneSided : s.world.mReceiveQueue.OneSided
  consumers : s.world.consumers = s.world.handed.map Prod.fst ++ s.world.mReceiveQueue.mHandlers
  items : s.world.items = s.world.handed.map Prod.snd ++ s.world.mReceiveQueue.mData
  receives : IssuedOnce s.world.received
    ((s.world.answered.map Completion.receive ++ (busy ++ outstanding s)).map Receive.id)
  completed : ∀ r it, (.receive r, it) ∈ s.world.handed → completion r it ∈ s.world.answered
  accountable : ∀ c ∈ s.world.answered, Accountable s.world.handed c

/-! ## One delivery -/

theorem setQueue_deliver (q : ProducerConsumerQueue Consumer Item) (c : Consumer) (it : Item)
    (s : MqLoop) : setQueue q (deliver c it s) = deliver c it (setQueue q s) := by
  cases c <;> rfl

/-- Whatever else the world holds is not touched. -/
theorem deliver_world (c : Consumer) (it : Item) (s : MqLoop) :
    (deliver c it s).world = { s.world with
      handed := s.world.handed ++ [(c, it)],
      answered := s.world.answered ++ c.receive?.toList.map fun r => completion r it } := by
  cases c with
  | receive r => rfl
  | discard => simp [deliver, Consumer.receive?]

theorem completion_receive (r : Receive) (it : Item) : (completion r it).receive = r := by
  cases it <;> rfl

theorem Accountable.mono {handed : List (Consumer × Item)} {p : Consumer × Item} {c : Completion}
    (h : Accountable handed c) : Accountable (handed ++ [p]) c :=
  h.imp_left fun ⟨it, hmem, heq⟩ => ⟨it, List.mem_append_left _ hmem, heq⟩

section
variable {s : MqLoop} {c : Consumer} {it : Item}

/-- `deliver` finishes what taking `c` and `it` out of the queue has begun. -/
theorem sound_deliver (hone : s.world.mReceiveQueue.OneSided)
    (hcons : s.world.consumers =
      s.world.handed.map Prod.fst ++ c :: s.world.mReceiveQueue.mHandlers)
    (hitems : s.world.items = s.world.handed.map Prod.snd ++ it :: s.world.mReceiveQueue.mData)
    (hrec : IssuedOnce s.world.received ((s.world.answered.map Completion.receive ++
      (c.receive?.toList ++ outstanding s)).map Receive.id))
    (hcomp : ∀ r it, (.receive r, it) ∈ s.world.handed → completion r it ∈ s.world.answered)
    (hacc : ∀ c ∈ s.world.answered, Accountable s.world.handed c) :
    Sound [] (deliver c it s) := by
  cases c with
  | discard =>
    refine ⟨hone, by simpa [deliver] using hcons, by simpa [deliver] using hitems, hrec, ?_, ?_⟩
    · intro r it' hmem
      rcases List.mem_append.mp hmem with hmem | hmem
      · exact hcomp r it' hmem
      · cases List.mem_singleton.mp hmem
    · exact fun c hc => (hacc c hc).mono
  | receive r =>
    refine ⟨hone, by simpa [deliver, postHandler] using hcons,
      by simpa [deliver, postHandler] using hitems, ?_, ?_, ?_⟩
    · refine hrec.perm ?_
      simp [deliver, postHandler, outstanding, filterMap_cons_toList, Job.receive?,
        Consumer.receive?, completion_receive]
    · intro r' it' hmem
      rcases List.mem_append.mp hmem with hmem | hmem
      · exact List.mem_append_left _ (hcomp r' it' hmem)
      · obtain ⟨hr, rfl⟩ := Prod.mk.inj (List.mem_singleton.mp hmem)
        obtain rfl := Consumer.receive.inj hr
        exact List.mem_append_right _ List.mem_cons_self
    · intro c hc
      rcases List.mem_append.mp hc with hc | hc
      · exact (hacc c hc).mono
      · obtain rfl := List.mem_singleton.mp hc
        refine .inl ⟨it, ?_, ?_⟩
        · rw [completion_receive]
          exact List.mem_append_right _ List.mem_cons_self
        · rw [completion_receive]

theorem Sound.consume (h : Sound c.receive?.toList s) : Sound [] (consume c s) := by
  rcases consume_cases h.oneSided c with ⟨cs, hq, heq⟩ | ⟨it, its, hq, heq⟩
  · -- `c` waits: a receive goes from `busy` to the outstanding ones
    rw [heq]
    refine ⟨.inr rfl, ?_, ?_, ?_, h.completed, h.accountable⟩
    · simp [setQueue, h.consumers, hq]
    · simpa [setQueue, hq] using h.items
    · refine h.receives.perm (List.Perm.map _ (List.Perm.append_left _ ?_))
      have hcomm (as bs cs : List Receive) : (as ++ (bs ++ cs)).Perm (cs ++ (as ++ bs)) := by
        rw [← List.append_assoc]
        exact List.perm_append_comm
      simpa [setQueue, outstanding, hq, filterMap_cons_toList] using hcomm _ _ _
  · rw [heq, setQueue_deliver]
    refine sound_deliver (.inl rfl) ?_ ?_ ?_ h.completed h.accountable
    · simp [setQueue, h.consumers, hq]
    · simpa [setQueue, hq] using h.items
    · simpa [setQueue, outstanding, hq] using h.receives

theorem Sound.produce (h : Sound [] s) (it : Item) : Sound [] (produce it s) := by
  rcases produce_cases h.oneSided it with ⟨its, hq, heq⟩ | ⟨c, cs, hq, heq⟩
  · rw [heq]
    refine ⟨.inl rfl, ?_, ?_, ?_, h.completed, h.accountable⟩
    · simpa [setQueue, hq] using h.consumers
    · simp [setQueue, h.items, hq]
    · simpa [setQueue, outstanding, hq] using h.receives
  · -- the consumer leaves the queue, and its receive the outstanding ones
    rw [heq, setQueue_deliver]
    refine sound_deliver (.inr rfl) ?_ ?_ ?_ h.completed h.accountable
    · simpa [setQueue, hq] using h.consumers
    · simp [setQueue, h.items, hq]
    · refine h.receives.perm (List.Perm.map _ (List.Perm.append_left _ ?_))
      simpa [setQueue, outstanding, hq, filterMap_cons_toList] using
        List.perm_append_comm_assoc _ _ _

/-! ## The numbers of the messages -/

/-- The messages among the items are numbered in order. -/
def Numbered (s : MqLoop) : Prop :=
  (s.world.items.filterMap Item.message?).map Message.number = List.range s.world.arrived

theorem consume_items (h : s.world.mReceiveQueue.OneSided) (c : Consumer) :
    (consume c s).world.items = s.world.items ∧
      (consume c s).world.arrived = s.world.arrived := by
  rcases consume_cases h c with ⟨cs, -, heq⟩ | ⟨it, its, -, heq⟩
  · rw [heq]
    exact ⟨rfl, rfl⟩
  · rw [heq, setQueue, Loop.update_world, deliver_world]
    exact ⟨rfl, rfl⟩

theorem produce_items (h : s.world.mReceiveQueue.OneSided) (it : Item) :
    (produce it s).world.items = s.world.items ++ [it] ∧
      (produce it s).world.arrived = s.world.arrived := by
  rcases produce_cases h it with ⟨its, -, heq⟩ | ⟨c, cs, -, heq⟩
  · rw [heq]
    exact ⟨rfl, rfl⟩
  · rw [heq, setQueue, Loop.update_world, deliver_world]
    exact ⟨rfl, rfl⟩

theorem Numbered.consume (hn : Numbered s) (h : s.world.mReceiveQueue.OneSided) (c : Consumer) :
    Numbered (consume c s) := by
  obtain ⟨hitems, harrived⟩ := consume_items h c
  rw [Numbered, hitems, harrived]
  exact hn

theorem Numbered.produce (hn : Numbered s) (h : s.world.mReceiveQueue.OneSided)
    (hit : it.message? = none) : Numbered (produce it s) := by
  obtain ⟨hitems, harrived⟩ := produce_items h it
  rw [Numbered, hitems, harrived, List.filterMap_append, filterMap_cons_toList, hit]
  simpa [Numbered] using hn

theorem Numbered.handleMessage (hn : Numbered s) (h : s.world.mReceiveQueue.OneSided) (con : ℕ)
    (payload : List UInt8) : Numbered (handleMessage con payload s) := by
  obtain ⟨hitems, harrived⟩ := produce_items (s := s.update fun w =>
    { w with arrived := w.arrived + 1 }) h (.message ⟨con, s.world.arrived, payload⟩)
  rw [Numbered, MessageQueueImpl.handleMessage, hitems, harrived, List.filterMap_append,
    filterMap_cons_toList, List.map_append]
  simp only [Loop.update_world]
  rw [hn, List.range_succ]
  rfl

/-! ## Runs -/

structure Consistent (s : MqLoop) : Prop where
  sound : Sound [] s
  numbered : Numbered s

theorem Consistent.consume_discard (h : Consistent s) : Consistent (consume .discard s) :=
  ⟨Sound.consume (c := .discard) h.sound, h.numbered.consume h.sound.oneSided _⟩

theorem Consistent.produce (h : Consistent s) (hit : it.message? = none) :
    Consistent (produce it s) :=
  ⟨h.sound.produce it, h.numbered.produce h.sound.oneSided hit⟩

theorem Consistent.close (h : Consistent s) : Consistent (close s) := by
  have habort : Consistent (abortDemand s) :=
    whileLoop_invariant (fun t ht _ => ht.produce rfl) imbalance h
  exact whileLoop_invariant (fun t ht _ => ht.consume_discard) imbalance habort

theorem Sound.fail {r : Receive} (h : Sound [r] s) (e : Error) :
    Sound [] (postHandler ⟨r, some e, 0, r.buffer⟩ s) := by
  refine ⟨h.oneSided, h.consumers, h.items, ?_, ?_, ?_⟩
  · refine h.receives.perm ?_
    simp [postHandler, outstanding, filterMap_cons_toList, Job.receive?]
  · exact fun r' it hmem => List.mem_append_left _ (h.completed r' it hmem)
  · intro c hc
    rcases List.mem_append.mp hc with hc | hc
    · exact h.accountable c hc
    · obtain rfl := List.mem_singleton.mp hc
      exact .inr ⟨e, rfl⟩

theorem Sound.next (h : Sound [] s) {job : Job} {jobs : List Job}
    (hposted : s.posted = job :: jobs) : Sound job.receive?.toList ⟨s.world, jobs⟩ := by
  refine ⟨h.oneSided, h.consumers, h.items, ?_, h.completed, h.accountable⟩
  refine h.receives.perm ?_
  simp [outstanding, hposted, filterMap_cons_toList]

theorem consistent_init : Consistent init where
  sound := ⟨.inl rfl, rfl, rfl, IssuedOnce.nil, fun _ _ hmem => (by cases hmem),
    fun _ hmem => (by cases hmem)⟩
  numbered := rfl

theorem consistent_step (s : MqLoop) (act : Action) (s' : MqLoop) (h : Consistent s)
    (hs : step s act = some s') : Consistent s' := by
  obtain ⟨hsound, hnum⟩ := h
  cases step_effect hs with
  | setConnectionPtr con => exact ⟨{ hsound with }, hnum⟩
  | asyncReceive buffer =>
    refine ⟨{ hsound with receives := (IssuedOnce.issue hsound.receives).perm ?_ }, hnum⟩
    -- the new number goes behind those of the posted receives, which come before the waiting ones
    have hlast (x : ℕ) (as bs cs : List ℕ) :
        (as ++ (bs ++ x :: cs)).Perm (as ++ (bs ++ (cs ++ [x]))) :=
      List.Perm.append_left _ (List.Perm.append_left _ (List.perm_append_singleton _ _).symm)
    simpa [asyncReceive, outstanding, Job.receive?] using hlast _ _ _ _
  | close => exact Consistent.close ⟨hsound, hnum⟩
  | message con payload =>
    refine ⟨Sound.produce ?_ _, hnum.handleMessage hsound.oneSided con payload⟩
    exact { hsound with }
  | closeEvent con e => exact Consistent.produce ⟨hsound, hnum⟩ rfl
  | transport con ec => exact ⟨{ hsound with }, hnum⟩
  | handler hposted => exact ⟨hsound.next hposted, hnum⟩
  | @receive r jobs p hposted hp hec =>
    have hbusy := hsound.next hposted
    exact ⟨Sound.consume (c := .receive r) hbusy,
      Numbered.consume (s := ⟨s.world, jobs⟩) hnum hbusy.oneSided _⟩
  | turnedAway hposted hp hec => exact ⟨Sound.fail (hsound.next hposted) _, hnum⟩

theorem consistent_run {as : List Action} (h : run step init as = some s) : Consistent s :=
  run_invariant consistent_step consistent_init h

/-! ## What the invariant says -/

/-- Waiting consumers and buffered items exclude each other, so the pairs are formed in order. -/
theorem Sound.handed_eq {busy : List Receive} (h : Sound busy s) :
    s.world.handed = s.world.consumers.zip s.world.items := by
  have hrest : s.world.mReceiveQueue.mHandlers.zip s.world.mReceiveQueue.mData = [] := by
    rcases h.oneSided with hq | hq <;> simp [hq]
  rw [h.consumers, h.items, List.zip_append (by simp), hrest, List.append_nil]
  exact List.zip_of_prod rfl rfl

theorem Consistent.messages_nodup (h : Consistent s) :
    ((s.world.handed.filterMap fun p => p.2.message?).map Message.number).Nodup := by
  have hnodup : ((s.world.items.filterMap Item.message?).map Message.number).Nodup := by
    rw [h.numbered]
    exact List.nodup_range
  rw [h.sound.items, List.filterMap_append, List.map_append, List.filterMap_map] at hnodup
  exact hnodup.of_append_left

theorem Sound.answered_nodup {busy : List Receive} (h : Sound busy s) :
    (s.world.answered.map fun c => c.receive.id).Nodup := by
  have hnodup := h.receives.nodup
  rw [List.map_append, List.map_map] at hnodup
  exact hnodup.of_append_left

theorem Sound.completion_eq {busy : List Receive} (h : Sound busy s) {c : Completion}
    (hc : c ∈ s.world.answered) (hmem : (.receive c.receive, it) ∈ s.world.handed) :
    c = completion c.receive it := by
  have hc' := h.completed c.receive it hmem
  refine List.inj_on_of_nodup_map h.answered_nodup hc hc' ?_
  rw [completion_receive]

/-! ## One completion -/

theorem bufferCopy_all {buffer payload : List UInt8} (h : payload.length ≤ buffer.length) :
    (bufferCopy buffer payload).1 = payload.length ∧
      (bufferCopy buffer payload).2.take payload.length = payload := by
  simp [bufferCopy, h, List.take_of_length_le h]

theorem bufferCopy_prefix {buffer payload : List UInt8} (h : buffer.length < payload.length) :
    (bufferCopy buffer payload).1 = buffer.length ∧
      (bufferCopy buffer payload).2 = payload.take buffer.length := by
  simp [bufferCopy, Nat.le_of_lt h, List.drop_eq_nil_of_le]

/-- The results of a receive that was handed a message: the whole payload and its size, or
`message_size` and a prefix when the payload is longer than the buffer. -/
theorem completion_message (r : Receive) (m : Message) :
    (m.payload.length ≤ r.buffer.length ∧ (completion r (.message m)).ec = none ∧
      (completion r (.message m)).nCopied = m.payload.length ∧
      (completion r (.message m)).buffer.take m.payload.length = m.payload) ∨
    (r.buffer.length < m.payload.length ∧ (completion r (.message m)).ec = some .messageSize ∧
      (completion r (.message m)).buffer <+: m.payload) := by
  rcases Nat.lt_or_ge r.buffer.length m.payload.length with hlt | hle
  · obtain ⟨hn, hbuffer⟩ := bufferCopy_prefix hlt
    refine .inr ⟨hlt, ?_, ?_⟩
    · have hne : r.buffer.length ≠ m.payload.length := by omega
      simp [completion, hn, hne]
    · simp only [completion, hbuffer]
      exact List.take_prefix _ _
  · obtain ⟨hn, hbuffer⟩ := bufferCopy_all hle
    exact .inl ⟨hle, by simp [completion, hn], by simp [completion, hn], hbuffer⟩

theorem Accountable.success {handed : List (Consumer × Item)} {c : Completion}
    (h : Accountable handed c) (hec : c.ec = none) :
    ∃ m, (.receive c.receive, .message m) ∈ handed ∧ c = completion c.receive (.message m) := by
  rcases h with ⟨it, hmem, heq⟩ | ⟨e, heq⟩
  · cases it with
    | message m => exact ⟨m, hmem, heq⟩
    | closed con e =>
      rw [heq] at hec
      cases hec
    | aborted =>
      rw [heq] at hec
      cases hec
  · rw [heq] at hec
    cases hec

/-- Handlers are posted at most once, messages are handed out at most once, the `k`-th consumer gets
the `k`-th item, and the results of a receive are those of the message it got. -/
theorem receives_get_messages_in_order {as : List Action} (h : run step init as = some s) :
    (s.world.answered.map fun c => c.receive.id).Nodup ∧
    ((s.world.handed.filterMap fun p => p.2.message?).map Message.number).Nodup ∧
    s.world.handed = s.world.consumers.zip s.world.items ∧
    (∀ c ∈ s.world.answered, c.ec = none →
      ∃ m, (.receive c.receive, .message m) ∈ s.world.handed ∧ c.nCopied = m.payload.length ∧
        c.buffer.take m.payload.length = m.payload) ∧
    (∀ c ∈ s.world.answered, ∀ m, (.receive c.receive, .message m) ∈ s.world.handed →
      (c.ec = some .messageSize ↔ c.receive.buffer.length < m.payload.length) ∧
      (c.ec = some .messageSize → c.buffer <+: m.payload)) := by
  have hcons := consistent_run h
  refine ⟨hcons.sound.answered_nodup, hcons.messages_nodup, hcons.sound.handed_eq, ?_, ?_⟩
  · intro c hc hec
    obtain ⟨m, hmem, heq⟩ := (hcons.sound.accountable c hc).success hec
    refine ⟨m, hmem, ?_⟩
    rw [heq] at hec ⊢
    rcases completion_message c.receive m with ⟨-, -, hn, hbuffer⟩ | ⟨-, hsize, -⟩
    · exact ⟨hn, hbuffer⟩
    · rw [hsize] at hec
      cases hec
  · intro c hc m hmem
    rw [hcons.sound.completion_eq hc hmem, completion_receive]
    rcases completion_message c.receive m with ⟨hle, hec, -, -⟩ | ⟨hlt, hec, hprefix⟩
    · simp [hec, Nat.not_lt.mpr hle]
    · simp [hec, hlt, hprefix]

end

/-- Two receives, one message that is too long for the first of them, and a `close()`. -/
theorem receives_get_messages_in_order_close :
    ∃ s, run step init [.setConnectionPtr 7, .asyncReceive [0, 0], .asyncReceive [0, 0, 0],
        .message 7 [1, 2, 3], .next, .next, .close] = some s ∧
      s.world.answered = [⟨⟨0, [0, 0]⟩, some .messageSize, 2, [1, 2]⟩,
        ⟨⟨1, [0, 0, 0]⟩, some .operationAborted, 0, [0, 0, 0]⟩] ∧
      s.world.handed = s.world.consumers.zip s.world.items := by
  have hrun : run step init [.setConnectionPtr 7, .asyncReceive [0, 0], .asyncReceive [0, 0, 0],
      .message 7 [1, 2, 3], .next, .next, .close] = some _ := rfl
  exact ⟨_, hrun, by decide, (receives_get_messages_in_order hrun).2.2.1⟩

end CxxUtil.Ws.MessageQueueImpl
