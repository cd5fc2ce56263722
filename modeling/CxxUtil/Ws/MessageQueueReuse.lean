import CxxUtil.Ws.MessageQueuePairing

/-! # One queue, several connections

A connection that has been replaced keeps its handlers, and what it produced stays in
`mReceiveQueue`. `Separate` is the order of events in which this does no harm: then a receive gets
nothing but what comes from the connection that its posted function found. -/
namespace CxxUtil.Ws.MessageQueueImpl
open Foundations Queue ProducerConsumerQueue Asio
set_option autoImplicit false

/-- Produced by an event of the connection, or by `close()`. -/
def Item.ProducedBy (con : ℕ) : Item → Prop
  | .message m => m.con = con
  | .closed con' _ => con' = con
  | .aborted => True

/-- The posted function of `r` runs, and finds the connection `con` with transport code `ec`. -/
def RunsUnder (r : Receive) (con : ℕ) (ec : ErrorCode) (s : MqLoop) : Action → Prop
  | .next => s.posted.head? = some (.receive r) ∧ s.world.mPtr = some con ∧
      s.world.transportEc con = ec
  | _ => False

/-- Another connection is set only when nothing is buffered and no receive waits, and events are
those of the connection that was set last. -/
def Separate (s : MqLoop) : Action → Prop
  | .setConnectionPtr con => s.world.mPtr = some con ∨
      s.world.mReceiveQueue.mHandlers = [] ∧ s.world.mReceiveQueue.mData = []
  | .message con _ => s.world.mPtr = some con
  | .closeEvent con => s.world.mPtr = some con
  | _ => True

/-- What is buffered is from the connection that was set last. -/
def Current (s : MqLoop) : Prop :=
  ∀ it ∈ s.world.mReceiveQueue.mData, ∀ p, s.world.mPtr = some p → it.ProducedBy p

/-- The posted function of `r` has run, and found `con` with `ec`. -/
structure Served (r : Receive) (con : ℕ) (ec : ErrorCode) (s : MqLoop) : Prop where
  unposted : .receive r ∉ s.posted
  issued : r.id < s.world.received
  waits : .receive r ∈ s.world.mReceiveQueue.mHandlers → s.world.mPtr = some con
  handed : ∀ it, (.receive r, it) ∈ s.world.handed → it.ProducedBy con
  answered : ∀ c ∈ s.world.answered, c.receive = r →
    (∃ it, (.receive r, it) ∈ s.world.handed ∧ c = completion r it) ∨
      ∃ e, ec = some e ∧ c = ⟨r, some e, 0, r.buffer⟩

section
variable {s s' : MqLoop} {r : Receive} {con : ℕ} {ec : ErrorCode}

/-! ## What is buffered -/

theorem Current.consume (h : Current s) (hone : s.world.mReceiveQueue.OneSided) (c : Consumer) :
    Current (consume c s) := by
  rcases consume_cases hone c with ⟨cs, hq, heq⟩ | ⟨it, its, hq, heq⟩
  · rw [heq]
    intro it' hmem
    cases hmem
  · rw [heq]
    intro it' hmem p hp
    simp only [setQueue, Loop.update_world, deliver_world] at hp
    exact h it' (by rw [hq]; exact List.mem_cons_of_mem _ hmem) p hp

theorem Current.produce (h : Current s) (hone : s.world.mReceiveQueue.OneSided) {it : Item}
    (hit : ∀ p, s.world.mPtr = some p → it.ProducedBy p) : Current (produce it s) := by
  rcases produce_cases hone it with ⟨its, hq, heq⟩ | ⟨c, cs, hq, heq⟩
  · rw [heq]
    intro it' hmem p hp
    rcases List.mem_append.mp hmem with hmem | hmem
    · exact h it' (by rw [hq]; exact hmem) p hp
    · obtain rfl := List.mem_singleton.mp hmem
      exact hit p hp
  · rw [heq]
    intro it' hmem
    cases hmem

/-! ## A receive that has been served -/

namespace Served

theorem setQueue (h : Served r con ec s) {q : ProducerConsumerQueue Consumer Item}
    (hq : .receive r ∈ q.mHandlers → s.world.mPtr = some con) : Served r con ec (setQueue q s) :=
  { h with waits := hq }

theorem deliver (h : Served r con ec s) {c : Consumer} {it : Item}
    (hit : c = .receive r → it.ProducedBy con) : Served r con ec (deliver c it s) := by
  cases c with
  | discard =>
    refine { h with handed := fun it' hmem => ?_, answered := fun c hc hr => ?_ }
    · rcases List.mem_append.mp hmem with hmem | hmem
      · exact h.handed it' hmem
      · cases List.mem_singleton.mp hmem
    · exact (h.answered c hc hr).imp_left fun ⟨it, hmem, heq⟩ =>
        ⟨it, List.mem_append_left _ hmem, heq⟩
  | receive r' =>
    refine ⟨?_, h.issued, h.waits, fun it' hmem => ?_, fun c hc hr => ?_⟩
    · intro hmem
      rcases List.mem_append.mp hmem with hmem | hmem
      · exact h.unposted hmem
      · cases List.mem_singleton.mp hmem
    · rcases List.mem_append.mp hmem with hmem | hmem
      · exact h.handed it' hmem
      · obtain ⟨hr, rfl⟩ := Prod.mk.inj (List.mem_singleton.mp hmem)
        exact hit hr.symm
    · rcases List.mem_append.mp hc with hc | hc
      · exact (h.answered c hc hr).imp_left fun ⟨it, hmem, heq⟩ =>
          ⟨it, List.mem_append_left _ hmem, heq⟩
      · obtain rfl := List.mem_singleton.mp hc
        rw [completion_receive] at hr
        subst hr
        exact .inl ⟨it, List.mem_append_right _ List.mem_cons_self, rfl⟩

theorem fail (h : Served r con ec s) {r' : Receive} {e : Error} (hr : r' = r → ec = some e) :
    Served r con ec (postHandler ⟨r', some e, 0, r'.buffer⟩ s) := by
  refine ⟨fun hmem => ?_, h.issued, h.waits, h.handed, fun c hc hcr => ?_⟩
  · rcases List.mem_append.mp hmem with hmem | hmem
    · exact h.unposted hmem
    · cases List.mem_singleton.mp hmem
  · rcases List.mem_append.mp hc with hc | hc
    · exact h.answered c hc hcr
    · obtain rfl := List.mem_singleton.mp hc
      obtain rfl : r' = r := hcr
      exact .inr ⟨e, hr rfl, rfl⟩

/-- `r` may itself be the consumer, when its posted function runs. -/
theorem consume (h : Served r con ec s) (hone : s.world.mReceiveQueue.OneSided)
    (hcur : Current s) {c : Consumer} (hc : c = .receive r → s.world.mPtr = some con) :
    Served r con ec (consume c s) := by
  have hcame : Served r con ec (s.update fun w => { w with consumers := w.consumers ++ [c] }) :=
    { h with }
  rcases consume_cases hone c with ⟨cs, hq, heq⟩ | ⟨it, its, hq, heq⟩
  · rw [heq]
    refine hcame.setQueue fun hmem => ?_
    rcases List.mem_append.mp hmem with hmem | hmem
    · exact h.waits (by rw [hq]; exact hmem)
    · exact hc (List.mem_singleton.mp hmem).symm
  · rw [heq]
    have hit (hr : c = .receive r) : it.ProducedBy con :=
      hcur it (by rw [hq]; exact List.mem_cons_self) con (hc hr)
    exact (hcame.deliver hit).setQueue fun hmem => by cases hmem

theorem produce (h : Served r con ec s) (hone : s.world.mReceiveQueue.OneSided) {it : Item}
    (hit : ∀ p, s.world.mPtr = some p → it.ProducedBy p) : Served r con ec (produce it s) := by
  have hcame : Served r con ec (s.update fun w => { w with items := w.items ++ [it] }) :=
    { h with }
  rcases produce_cases hone it with ⟨its, hq, heq⟩ | ⟨c, cs, hq, heq⟩
  · rw [heq]
    exact hcame.setQueue fun hmem => by cases hmem
  · rw [heq]
    have hwaits (hmem : .receive r ∈ c :: cs) : s.world.mPtr = some con :=
      h.waits (by rw [hq]; exact hmem)
    have hgot (hr : c = .receive r) : it.ProducedBy con :=
      hit con (hwaits (by rw [hr]; exact List.mem_cons_self))
    refine (hcame.deliver hgot).setQueue fun hmem => ?_
    rw [deliver_world]
    exact hwaits (List.mem_cons_of_mem _ hmem)

end Served

/-! ## `close()` -/

theorem close_keeps {Inv : MqLoop → Prop} (h : Consistent s ∧ Inv s)
    (hproduce : ∀ t, Consistent t ∧ Inv t → Inv (produce .aborted t))
    (hconsume : ∀ t, Consistent t ∧ Inv t → Inv (consume .discard t)) :
    Inv (close s) := by
  have hproduce' (t : MqLoop) (ht : Consistent t ∧ Inv t) (_ : decide (depth t < 0) = true) :
      Consistent (produce .aborted t) ∧ Inv (produce .aborted t) :=
    ⟨ht.1.produce rfl, hproduce t ht⟩
  have hconsume' (t : MqLoop) (ht : Consistent t ∧ Inv t) (_ : decide (0 < depth t) = true) :
      Consistent (consume .discard t) ∧ Inv (consume .discard t) :=
    ⟨ht.1.consume_discard, hconsume t ht⟩
  exact (whileLoop_invariant hconsume' imbalance
    (whileLoop_invariant hproduce' imbalance h)).2

theorem Current.close (hcur : Current s) (hcons : Consistent s) : Current (close s) := by
  refine close_keeps ⟨hcons, hcur⟩ (fun t ht => ?_) fun t ht => ?_
  · exact ht.2.produce ht.1.sound.oneSided fun _ _ => trivial
  · exact ht.2.consume ht.1.sound.oneSided .discard

theorem Served.close (h : Served r con ec s) (hcons : Consistent s) (hcur : Current s) :
    Served r con ec (close s) := by
  have hproduce (t : MqLoop) (ht : Consistent t ∧ Current t ∧ Served r con ec t) :
      Current (MessageQueueImpl.produce .aborted t) ∧
        Served r con ec (MessageQueueImpl.produce .aborted t) := by
    obtain ⟨hcons, hcur, h⟩ := ht
    have hone := hcons.sound.oneSided
    exact ⟨hcur.produce hone fun _ _ => trivial, h.produce hone fun _ _ => trivial⟩
  have hconsume (t : MqLoop) (ht : Consistent t ∧ Current t ∧ Served r con ec t) :
      Current (MessageQueueImpl.consume .discard t) ∧
        Served r con ec (MessageQueueImpl.consume .discard t) := by
    obtain ⟨hcons, hcur, h⟩ := ht
    have hone := hcons.sound.oneSided
    exact ⟨hcur.consume hone _, h.consume hone hcur fun hc => by cases hc⟩
  exact (close_keeps ⟨hcons, hcur, h⟩ hproduce hconsume).2

/-! ## Steps -/

theorem current_step (s : MqLoop) (act : Action) (s' : MqLoop) (h : Consistent s ∧ Current s)
    (hsep : Separate s act) (hs : step s act = some s') : Consistent s' ∧ Current s' := by
  obtain ⟨hcons, hcur⟩ := h
  refine ⟨consistent_step s act s' hcons hs, ?_⟩
  have hone := hcons.sound.oneSided
  cases step_effect hs with
  | setConnectionPtr con =>
    intro it hmem p hp
    obtain rfl : con = p := Option.some.inj hp
    rcases hsep with hsame | ⟨-, hempty⟩
    · exact hcur it hmem con hsame
    · have hnone : it ∈ ([] : List Item) := hempty ▸ hmem
      cases hnone
  | asyncReceive buffer => exact hcur
  | close => exact hcur.close hcons
  | message con payload =>
    refine Current.produce ?_ ?_ fun p hp => ?_
    · exact hcur
    · exact hone
    · exact Option.some.inj ((show s.world.mPtr = some con from hsep).symm.trans hp)
  | closeEvent con e =>
    refine hcur.produce hone fun p hp => ?_
    exact Option.some.inj ((show s.world.mPtr = some con from hsep).symm.trans hp)
  | transport con ec => exact hcur
  | handler hposted => exact hcur
  | @receive r jobs p hposted hp hec =>
    refine Current.consume ?_ ?_ _
    · exact hcur
    · exact hone
  | turnedAway hposted hp hec => exact hcur

theorem served_step (s : MqLoop) (act : Action) (s' : MqLoop)
    (h : (Consistent s ∧ Current s) ∧ Served r con ec s) (hsep : Separate s act)
    (hs : step s act = some s') : Served r con ec s' := by
  obtain ⟨⟨hcons, hcur⟩, h⟩ := h
  have hone := hcons.sound.oneSided
  have hrun {job : Job} {jobs : List Job} (hposted : s.posted = job :: jobs) :
      Served r con ec ⟨s.world, jobs⟩ ∧ job ≠ .receive r :=
    ⟨{ h with unposted := fun hmem => h.unposted (hposted ▸ List.mem_cons_of_mem _ hmem) },
      fun hjob => h.unposted (hposted ▸ hjob ▸ List.mem_cons_self)⟩
  cases step_effect hs with
  | setConnectionPtr p =>
    refine { h with waits := fun hmem => ?_ }
    rcases hsep with hsame | ⟨hempty, -⟩
    · exact hsame.symm.trans (h.waits hmem)
    · have hnone : .receive r ∈ ([] : List Consumer) := hempty ▸ hmem
      cases hnone
  | asyncReceive buffer =>
    refine { h with unposted := fun hmem => ?_, issued := Nat.lt_succ_of_lt h.issued }
    rcases List.mem_append.mp hmem with hmem | hmem
    · exact h.unposted hmem
    · obtain rfl := Job.receive.inj (List.mem_singleton.mp hmem)
      exact Nat.lt_irrefl _ h.issued
  | close => exact h.close hcons hcur
  | message p payload =>
    have harrived : Served r con ec (s.update fun w => { w with arrived := w.arrived + 1 }) :=
      { h with }
    refine harrived.produce hone fun p' hp' => ?_
    exact Option.some.inj ((show s.world.mPtr = some p from hsep).symm.trans hp')
  | closeEvent p e =>
    refine h.produce hone fun p' hp' => ?_
    exact Option.some.inj ((show s.world.mPtr = some p from hsep).symm.trans hp')
  | transport p ec' => exact { h with }
  | handler hposted => exact (hrun hposted).1
  | receive hposted hp hec =>
    obtain ⟨htaken, hne⟩ := hrun hposted
    exact htaken.consume hone hcur fun hr => absurd (congrArg _ (Consumer.receive.inj hr)) hne
  | turnedAway hposted hp hec =>
    obtain ⟨htaken, hne⟩ := hrun hposted
    exact htaken.fail fun hr => absurd (congrArg _ hr) hne

/-- Nothing has happened yet to a receive whose posted function is about to run. -/
theorem served_of_busy (h : Sound [r] s) : Served r con ec s := by
  have hnodup := h.receives.nodup
  rw [List.map_append, List.nodup_append] at hnodup
  obtain ⟨-, hrest, hdisjoint⟩ := hnodup
  have hanswered (c : Completion) (hc : c ∈ s.world.answered) : c.receive ≠ r := by
    intro hr
    exact hdisjoint c.receive.id (List.mem_map_of_mem (List.mem_map_of_mem hc)) r.id (by simp)
      (congrArg Receive.id hr)
  have hout : r ∉ outstanding s := by
    intro hmem
    rw [List.map_append, List.map_singleton, List.singleton_append, List.nodup_cons] at hrest
    exact hrest.1 (List.mem_map_of_mem hmem)
  rw [outstanding, List.mem_append, not_or] at hout
  refine ⟨fun hmem => ?_, ?_, fun hmem => ?_, fun it hmem => ?_, fun c hc hr => ?_⟩
  · exact hout.1 (List.mem_filterMap.mpr ⟨_, hmem, rfl⟩)
  · exact h.receives.mem_iff.mp (by simp)
  · exact (hout.2 (List.mem_filterMap.mpr ⟨_, hmem, rfl⟩)).elim
  · exact absurd (completion_receive r it) (hanswered _ (h.completed r it hmem))
  · exact absurd hr (hanswered c hc)

theorem served_start (s : MqLoop) (act : Action) (s' : MqLoop) (h : Consistent s ∧ Current s)
    (hruns : RunsUnder r con ec s act) (hs : step s act = some s') : Served r con ec s' := by
  obtain ⟨hcons, hcur⟩ := h
  cases step_effect hs with
  | handler hposted =>
    rw [RunsUnder, hposted] at hruns
    cases hruns.1
  | @receive r' jobs p hposted hp hec =>
    obtain ⟨hhead, hptr, -⟩ := hruns
    rw [hposted] at hhead
    obtain rfl : r' = r := Job.receive.inj (Option.some.inj hhead)
    have hbusy : Served r' con ec ⟨s.world, jobs⟩ := served_of_busy (hcons.sound.next hposted)
    exact hbusy.consume hcons.sound.oneSided hcur fun _ => hptr
  | @turnedAway r' jobs p e hposted hp hec =>
    obtain ⟨hhead, hptr, hfound⟩ := hruns
    rw [hposted] at hhead
    obtain rfl : r' = r := Job.receive.inj (Option.some.inj hhead)
    have hbusy : Served r' con ec ⟨s.world, jobs⟩ := served_of_busy (hcons.sound.next hposted)
    obtain rfl : con = p := Option.some.inj (hptr.symm.trans hp)
    exact hbusy.fail fun _ => hfound.symm.trans hec
  | setConnectionPtr | asyncReceive | close | message | closeEvent | transport => exact hruns.elim

/-- **A queue for one connection at a time.** In every run in which connections are separate, a
receive whose posted function found `con` is handed nothing but items of `con` and aborts of
`close()`, and completes with one of these or with the transport code that it found. -/
theorem reused_queue_keeps_apart {as : List Action} (hseparate : Along step Separate init as)
    (hruns : Sometime step (RunsUnder r con ec) init as) (h : run step init as = some s) :
    (∀ it, (.receive r, it) ∈ s.world.handed → it.ProducedBy con) ∧
      ∀ c ∈ s.world.answered, c.receive = r →
        (∃ it, (.receive r, it) ∈ s.world.handed ∧ c = completion r it) ∨
          ∃ e, ec = some e ∧ c = ⟨r, some e, 0, r.buffer⟩ := by
  have hinit : Consistent init ∧ Current init := ⟨consistent_init, fun _ hmem => by cases hmem⟩
  have hserved : Served r con ec s :=
    run_invariant_after current_step served_start served_step hinit hseparate hruns h
  exact ⟨hserved.handed, hserved.answered⟩

end

instance (s : MqLoop) : ∀ act, Decidable (Separate s act)
  | .setConnectionPtr con => inferInstanceAs (Decidable (s.world.mPtr = some con ∨ _ = [] ∧ _ = []))
  | .message con _ => inferInstanceAs (Decidable (s.world.mPtr = some con))
  | .closeEvent con => inferInstanceAs (Decidable (s.world.mPtr = some con))
  | .asyncReceive _ | .close | .transport _ _ | .next => .isTrue trivial

instance (r : Receive) (con : ℕ) (ec : ErrorCode) (s : MqLoop) :
    ∀ act, Decidable (RunsUnder r con ec s act)
  | .next => inferInstanceAs (Decidable (_ = _ ∧ _ = _ ∧ _ = _))
  | .setConnectionPtr _ | .asyncReceive _ | .close | .message _ _ | .closeEvent _
  | .transport _ _ => .isFalse not_false

/-- A queue is closed and given a second connection, whose message the next receive gets. -/
theorem reused_queue_keeps_apart_second :
    ∃ s, run step init [.setConnectionPtr 7, .message 7 [1], .close, .setConnectionPtr 8,
        .message 8 [2], .asyncReceive [0], .next] = some s ∧
      (.receive ⟨0, [0]⟩, .message ⟨8, 1, [2]⟩) ∈ s.world.handed ∧
      ∀ it, (.receive ⟨0, [0]⟩, it) ∈ s.world.handed → it.ProducedBy 8 := by
  have hrun : run step init [.setConnectionPtr 7, .message 7 [1], .close, .setConnectionPtr 8,
      .message 8 [2], .asyncReceive [0], .next] = some _ := rfl
  have hkept := reused_queue_keeps_apart (by decide)
    (show Sometime step (RunsUnder ⟨0, [0]⟩ 8 none) init _ by decide) hrun
  exact ⟨_, hrun, by decide, hkept.1⟩

/-- A queue is closed and given a second connection. The close event of the first one comes after
that, and the next receive gets its error. -/
theorem reused_queue_mixes_connections :
    (∃ s, run step init [.setConnectionPtr 7, .close, .setConnectionPtr 8, .closeEvent 7,
        .asyncReceive [0], .next] = some s ∧
      s.world.handed = [(.receive ⟨0, [0]⟩, .closed 7 .operationAborted)] ∧
      s.world.mPtr = some 8) ∧
    ¬ ∀ (as : List Action) (s : MqLoop) (r : Receive) (con : ℕ) (ec : ErrorCode),
      run step init as = some s → Sometime step (RunsUnder r con ec) init as →
      ∀ it, (.receive r, it) ∈ s.world.handed → it.ProducedBy con := by
  have hrun : run step init [.setConnectionPtr 7, .close, .setConnectionPtr 8, .closeEvent 7,
      .asyncReceive [0], .next] = some _ := rfl
  refine ⟨⟨_, hrun, rfl, rfl⟩, fun hclaim => ?_⟩
  have hproduced : 7 = 8 :=
    hclaim _ _ ⟨0, [0]⟩ 8 none hrun (by decide) (.closed 7 .operationAborted) (by decide)
  cases hproduced

end CxxUtil.Ws.MessageQueueImpl
