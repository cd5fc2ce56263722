import CxxUtil.Ws.MessageQueuePairing

/-! # Messages and errors

An error reaches a receive in one of two ways: from `handleClose`, behind the messages that arrived
before, or from the posted function of the receive, which asks the connection before it looks at
`mReceiveQueue`. The second way takes nothing out of the queue (`TurnedAway`), and without a `close()`
whatever has been put in there has gone to a receive or is still there. -/
namespace CxxUtil.Ws.MessageQueueImpl
open Foundations Queue ProducerConsumerQueue Asio
set_option autoImplicit false

def Action.isClose : Action → Bool
  | .close => true
  | _ => false

/-- From `s` to `s'` the handler of one receive is posted. -/
def Completes (s s' : MqLoop) (c : Completion) : Prop :=
  s'.world.answered = s.world.answered ++ [c]

def TakesOldest (s s' : MqLoop) (c : Completion) : Prop :=
  ∃ it, s.world.mReceiveQueue.mData = it :: s'.world.mReceiveQueue.mData ∧
    s'.world.handed = s.world.handed ++ [(.receive c.receive, it)] ∧ c = completion c.receive it

/-- The posted function of the receive found a transport error. -/
def TurnedAway (s s' : MqLoop) (c : Completion) : Prop :=
  s.posted.head? = some (.receive c.receive) ∧
    s'.world.mReceiveQueue = s.world.mReceiveQueue ∧
    ∃ p e, s.world.mPtr = some p ∧ s.world.transportEc p = some e ∧
      c = ⟨c.receive, some e, 0, c.receive.buffer⟩

section
variable {s s' : MqLoop}

theorem not_completes_of_eq (h : s'.world.answered = s.world.answered) (c : Completion) :
    ¬ Completes s s' c := by
  intro hc
  have hlength := congrArg List.length (h.symm.trans hc)
  simp at hlength

/-! ## No consumer but the receives -/

def OnlyReceives (s : MqLoop) : Prop := ∀ c ∈ s.world.consumers, ∃ r, c = .receive r

theorem OnlyReceives.consume (h : OnlyReceives s) (hone : s.world.mReceiveQueue.OneSided)
    (r : Receive) : OnlyReceives (consume (.receive r) s) := by
  have hconsumers : (MessageQueueImpl.consume (.receive r) s).world.consumers =
      s.world.consumers ++ [.receive r] := by
    rcases consume_cases hone (.receive r) with ⟨cs, -, heq⟩ | ⟨it, its, -, heq⟩
    · rw [heq]
      rfl
    · rw [heq, setQueue, Loop.update_world, deliver_world]
      rfl
  intro c hc
  rw [hconsumers] at hc
  rcases List.mem_append.mp hc with hc | hc
  · exact h c hc
  · exact ⟨r, List.mem_singleton.mp hc⟩

theorem OnlyReceives.produce (h : OnlyReceives s) (hone : s.world.mReceiveQueue.OneSided)
    (it : Item) : OnlyReceives (produce it s) := by
  rcases produce_cases hone it with ⟨its, -, heq⟩ | ⟨c, cs, -, heq⟩
  · rw [heq]
    exact h
  · rw [heq, OnlyReceives, setQueue, Loop.update_world, deliver_world]
    exact h

theorem onlyReceives_step (s : MqLoop) (act : Action) (s' : MqLoop)
    (h : Consistent s ∧ OnlyReceives s) (hact : act.isClose = false)
    (hs : step s act = some s') : Consistent s' ∧ OnlyReceives s' := by
  obtain ⟨hcons, honly⟩ := h
  have hone := hcons.sound.oneSided
  refine ⟨consistent_step s act s' hcons hs, ?_⟩
  cases step_effect hs with
  | setConnectionPtr con => exact honly
  | asyncReceive buffer => exact honly
  | close => cases hact
  | message con payload =>
    refine OnlyReceives.produce ?_ ?_ _
    · exact honly
    · exact hone
  | closeEvent con e => exact honly.produce hone _
  | transport con ec => exact honly
  | handler hposted => exact honly
  | @receive r jobs p hposted hp hec =>
    refine OnlyReceives.consume ?_ ?_ r
    · exact honly
    · exact hone
  | turnedAway hposted hp hec => exact honly

/-! ## Completions while something is buffered -/

theorem produce_answered (h : s.world.mReceiveQueue.OneSided)
    (hdata : s.world.mReceiveQueue.mData ≠ []) (it : Item) :
    (produce it s).world.answered = s.world.answered := by
  rcases produce_cases h it with ⟨its, -, heq⟩ | ⟨c, cs, hq, -⟩
  · rw [heq]
    rfl
  · rw [hq] at hdata
    exact absurd rfl hdata

theorem consume_takesOldest (h : s.world.mReceiveQueue.OneSided)
    (hdata : s.world.mReceiveQueue.mData ≠ []) (r : Receive) {c : Completion}
    (hc : Completes s (consume (.receive r) s) c) : TakesOldest s (consume (.receive r) s) c := by
  rcases consume_cases h (.receive r) with ⟨cs, hq, -⟩ | ⟨it, its, hq, heq⟩
  · rw [hq] at hdata
    exact absurd rfl hdata
  · rw [heq] at hc ⊢
    obtain rfl : completion r it = c := by
      have hlast := List.append_cancel_left hc
      exact List.singleton_inj.mp hlast
    refine ⟨it, by rw [hq]; rfl, ?_, ?_⟩
    · rw [completion_receive]
      rfl
    · rw [completion_receive]

theorem completes_step (hone : s.world.mReceiveQueue.OneSided)
    (hdata : s.world.mReceiveQueue.mData ≠ []) {act : Action} (hact : act.isClose = false)
    (hs : step s act = some s') {c : Completion} (hc : Completes s s' c) :
    TakesOldest s s' c ∨ TurnedAway s s' c := by
  cases step_effect hs with
  | setConnectionPtr con => exact absurd hc (not_completes_of_eq rfl c)
  | asyncReceive buffer => exact absurd hc (not_completes_of_eq rfl c)
  | close => cases hact
  | message con payload =>
    refine absurd hc (not_completes_of_eq ?_ c)
    refine (produce_answered ?_ ?_ _).trans rfl
    · exact hone
    · exact hdata
  | closeEvent con e => exact absurd hc (not_completes_of_eq (produce_answered hone hdata _) c)
  | transport con ec => exact absurd hc (not_completes_of_eq rfl c)
  | handler hposted => exact absurd hc (not_completes_of_eq rfl c)
  | @receive r jobs p hposted hp hec =>
    exact .inl (consume_takesOldest (s := ⟨s.world, jobs⟩) hone hdata r hc)
  | @turnedAway r jobs p e hposted hp hec =>
    obtain rfl : ⟨r, some e, 0, r.buffer⟩ = c :=
      List.singleton_inj.mp (List.append_cancel_left hc)
    exact .inr ⟨by rw [hposted]; rfl, rfl, p, e, hp, hec, rfl⟩

/-- A receive does not wait while anything is buffered. -/
theorem receive_completes (hone : s.world.mReceiveQueue.OneSided)
    (hdata : s.world.mReceiveQueue.mData ≠ []) {r : Receive}
    (hhead : s.posted.head? = some (.receive r)) (hs : step s .next = some s') :
    ∃ c, c.receive = r ∧ Completes s s' c := by
  cases step_effect hs with
  | handler hposted =>
    rw [hposted] at hhead
    cases hhead
  | @receive r' jobs p hposted hp hec =>
    rw [hposted] at hhead
    obtain rfl : r' = r := Job.receive.inj (Option.some.inj hhead)
    rcases consume_cases (s := ⟨s.world, jobs⟩) hone (.receive r') with ⟨cs, hq, -⟩ | ⟨it, _, -, heq⟩
    · exact absurd (congrArg ProducerConsumerQueue.mData hq) hdata
    · refine ⟨completion r' it, completion_receive r' it, ?_⟩
      rw [Completes, heq]
      rfl
  | @turnedAway r' jobs p e hposted hp hec =>
    rw [hposted] at hhead
    obtain rfl : r' = r := Job.receive.inj (Option.some.inj hhead)
    exact ⟨_, rfl, rfl⟩

/-! ## Runs without a `close()` -/

theorem items_before {before after : List (Consumer × Item)} {r : Receive} {it : Item}
    (h : Consistent s) (hhanded : s.world.handed = before ++ (.receive r, it) :: after) :
    ∃ later, s.world.items = before.map Prod.snd ++ it :: later := by
  have hitems := h.sound.items
  rw [hhanded, List.map_append, List.map_cons, List.append_assoc, List.cons_append] at hitems
  exact ⟨_, hitems⟩

/-- **Messages go before errors that were queued behind them.** In every run without a `close()`
each item is with a receive or is buffered, in the order in which they were produced; what came
before an item that a receive has got went to receives before it. While anything is buffered, a
receive whose posted function runs completes; a receive that completes takes the oldest item, or its
posted function has found a transport error and leaves the queue as it is. -/
theorem buffered_messages_go_first {as : List Action} (hclose : ∀ act ∈ as, act.isClose = false)
    (h : run step init as = some s) :
    (s.world.items = s.world.handed.map Prod.snd ++ s.world.mReceiveQueue.mData ∧
      ∀ p ∈ s.world.handed, ∃ r, p.1 = .receive r) ∧
    (∀ before r it after, s.world.handed = before ++ (.receive r, it) :: after →
      ∃ later, s.world.items = before.map Prod.snd ++ it :: later) ∧
    (s.world.mReceiveQueue.mData ≠ [] →
      (∀ r s', s.posted.head? = some (.receive r) → step s .next = some s' →
        ∃ c, c.receive = r ∧ Completes s s' c) ∧
      ∀ act s' c, act.isClose = false → step s act = some s' → Completes s s' c →
        TakesOldest s s' c ∨ TurnedAway s s' c) := by
  have hinit : OnlyReceives init := fun _ hc => by cases hc
  obtain ⟨hcons, honly⟩ :=
    run_invariant_along onlyReceives_step ⟨consistent_init, hinit⟩ (Along.of_forall hclose _) h
  refine ⟨⟨hcons.sound.items, fun p hp => honly p.1 ?_⟩, fun _ _ _ _ => items_before hcons, ?_⟩
  · rw [hcons.sound.consumers]
    exact List.mem_append_left _ (List.mem_map_of_mem hp)
  · have hone := hcons.sound.oneSided
    refine fun hdata => ⟨fun r s' hposted hs => receive_completes hone hdata hposted hs, ?_⟩
    exact fun act s' c hact hs hc => completes_step hone hdata hact hs hc

end

/-- A message, a close event behind it, and a transport error before the first receive is posted. -/
theorem buffered_messages_go_first_close :
    ∃ s s' c, run step init [.setConnectionPtr 7, .message 7 [1], .closeEvent 7,
        .asyncReceive [0]] = some s ∧ step s .next = some s' ∧ Completes s s' c ∧
      (TakesOldest s s' c ∨ TurnedAway s s' c) ∧ c.ec = none ∧ c.buffer = [1] := by
  have hrun : run step init [.setConnectionPtr 7, .message 7 [1], .closeEvent 7,
      .asyncReceive [0]] = some _ := rfl
  have hfirst := (buffered_messages_go_first (by decide) hrun).2.2 (by decide)
  exact ⟨_, _, ⟨⟨0, [0]⟩, none, 1, [1]⟩, hrun, rfl, rfl, hfirst.2 .next _ _ rfl rfl rfl, rfl, rfl⟩

/-- A message is buffered when the transport fails; the receive issued after that is turned away. -/
theorem transport_error_before_message :
    (∃ s s', run step init [.setConnectionPtr 7, .message 7 [1], .transport 7 (some .networkDown),
        .asyncReceive [0]] = some s ∧ step s .next = some s' ∧
      Completes s s' ⟨⟨0, [0]⟩, some .networkDown, 0, [0]⟩ ∧
      s'.world.mReceiveQueue.mData = [.message ⟨7, 0, [1]⟩]) ∧
    ¬ ∀ (as : List Action) (s s' : MqLoop) (act : Action) (c : Completion) (p : ℕ) (e : Error),
      (∀ act ∈ as, act.isClose = false) → run step init as = some s → act.isClose = false →
      step s act = some s' → Completes s s' c → s.world.mPtr = some p →
      s.world.transportEc p = some e → c.ec = some e →
      ∀ m, .message m ∉ s.world.mReceiveQueue.mData := by
  have hrun : run step init [.setConnectionPtr 7, .message 7 [1],
      .transport 7 (some .networkDown), .asyncReceive [0]] = some _ := rfl
  refine ⟨⟨_, _, hrun, rfl, rfl, rfl⟩, fun hclaim => ?_⟩
  exact hclaim _ _ _ .next ⟨⟨0, [0]⟩, some .networkDown, 0, [0]⟩ 7 .networkDown (by decide) hrun rfl
    rfl rfl rfl rfl rfl ⟨7, 0, [1]⟩ List.mem_cons_self

end CxxUtil.Ws.MessageQueueImpl
