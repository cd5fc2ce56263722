import CxxUtil.Ws.Lifetime

/-! # The pointers after a step

What a step of `Lifetime` does (`step_effect`), that nothing goes in it that is kept (`gone_step`),
and that pointers are made to what is there (`held_step`): so no pointer dangles (`sound_step`). -/
namespace CxxUtil.Ws.Lifetime
open Foundations MessageQueueImpl Asio
set_option autoImplicit false

section
variable {s s' : World} {i c : ℕ}

/-! ## What keeps an object -/

theorem held_queue_iff : Held s (.queue i) ↔ Rooted s (.queue i) ∨
    (Live s (.queue i) ∧ waiting (s.queues i).loop ≠ []) ∨
      ∃ c, Live s (.connection c) ∧ (s.connections c).handlers = some i := by
  refine or_congr_right ⟨?_, ?_⟩
  · rintro ⟨m, hlive, howns⟩
    cases m with
    | queue j =>
      obtain ⟨rfl, hwaiting⟩ := howns
      exact .inl ⟨hlive, hwaiting⟩
    | connection c => exact .inr ⟨c, hlive, howns⟩
  · rintro (⟨hlive, hwaiting⟩ | ⟨c, hlive, hhandlers⟩)
    · exact ⟨.queue i, hlive, rfl, hwaiting⟩
    · exact ⟨.connection c, hlive, hhandlers⟩

theorem held_connection_iff : Held s (.connection c) ↔ 0 < (s.connections c).outside ∨
    ∃ i, Live s (.queue i) ∧ (s.queues i).loop.world.mPtr = some c := by
  refine or_congr_right ⟨?_, ?_⟩
  · rintro ⟨m, hlive, howns⟩
    cases m with
    | queue i => exact ⟨i, hlive, howns⟩
    | connection c => exact howns.elim
  · rintro ⟨i, hlive, hmPtr⟩
    exact ⟨.queue i, hlive, hmPtr⟩

/-! ## One implementation -/

theorem mPtr_step {act : MessageQueueImpl.Action} {loop loop' : MqLoop}
    (hact : ∀ con, act ≠ .setConnectionPtr con)
    (hs : MessageQueueImpl.step loop act = some loop') : loop'.world.mPtr = loop.world.mPtr := by
  have hmPtr : loop'.world.mPtr = (act.connect (connections loop)).1 :=
    congrArg Prod.fst (connections_step hs)
  rw [hmPtr]
  cases act with
  | setConnectionPtr con => exact absurd rfl (hact con)
  | asyncReceive | close | message | closeEvent | transport | next => rfl

theorem mPtr_close (loop : MqLoop) :
    (MessageQueueImpl.close loop).world.mPtr = loop.world.mPtr :=
  congrArg Prod.fst (connections_close loop)

theorem postedReceives_deliver (c : Consumer) (it : Item) (loop : MqLoop) :
    postedReceives (deliver c it loop) = postedReceives loop := by
  cases c with
  | receive r => simp [postedReceives, deliver, postHandler, Job.receive?]
  | discard => rfl

theorem postedReceives_post (cs : List Consumer) (its : List Item) (loop : MqLoop) :
    postedReceives (Queue.ProducerConsumerQueue.post deliver cs its loop).2 =
      postedReceives loop := by
  induction cs generalizing its loop with
  | nil => simp
  | cons c cs ih =>
    cases its with
    | nil => simp
    | cons it its => exact (ih its _).trans (postedReceives_deliver c it loop)

theorem postedReceives_close (loop : MqLoop) :
    postedReceives (MessageQueueImpl.close loop) = postedReceives loop := by
  have hproduce (t : MqLoop) (ht : postedReceives t = postedReceives loop)
      (_ : decide (depth t < 0) = true) :
      postedReceives (produce .aborted t) = postedReceives loop :=
    (postedReceives_post _ _ (t.update _)).trans ht
  have hconsume (t : MqLoop) (ht : postedReceives t = postedReceives loop)
      (_ : decide (0 < depth t) = true) :
      postedReceives (consume .discard t) = postedReceives loop :=
    (postedReceives_post _ _ (t.update _)).trans ht
  have habort : postedReceives (abortDemand loop) = postedReceives loop :=
    whileLoop_invariant hproduce imbalance rfl
  exact whileLoop_invariant hconsume imbalance habort

/-- Without posted receives there are only handlers to run. -/
theorem postedReceives_next {loop loop' : MqLoop} (hnil : postedReceives loop = [])
    (hs : MessageQueueImpl.step loop .next = some loop') : postedReceives loop' = [] := by
  have hhead {job : Job} {jobs : List Job} (hposted : loop.posted = job :: jobs) :
      job.receive? = none ∧ jobs.filterMap Job.receive? = [] := by
    rw [postedReceives, hposted, filterMap_cons_toList, List.append_eq_nil_iff] at hnil
    exact ⟨Option.toList_eq_nil_iff.mp hnil.1, hnil.2⟩
  cases step_effect hs with
  | handler hposted => exact (hhead hposted).2
  | receive hposted => cases (hhead hposted).1
  | turnedAway hposted => cases (hhead hposted).1

/-! ## Steps -/

/-- What a step does. -/
inductive Effect (s : World) : Action → World → Prop
  | makeQueue : Effect s .makeQueue (makeQueue s)
  | makeConnection : Effect s .makeConnection (makeConnection s)
  | setOutside {act : Action} {c : ℕ} (outside : ℕ) (houtside : 0 < (s.connections c).outside) :
      Effect s act (setOutside c outside s)
  | setConnectionPtr {i c : ℕ} (hobject : (s.queues i).object = true)
      (houtside : 0 < (s.connections c).outside) :
      Effect s (.setConnectionPtr i c) (setConnectionPtr i c s)
  | setHandlers {c : ℕ} (houtside : 0 < (s.connections c).outside) :
      Effect s (.setHandlers c) (setHandlers c none s)
  /-- The I/O object is asked, a connection calls a handler, or a posted function runs. -/
  | queue {act : Action} {i : ℕ} {qact : MessageQueueImpl.Action} {loop : MqLoop}
      (hcause : Held s (.queue i) ∨ qact = .next) (hact : ∀ con, qact ≠ .setConnectionPtr con)
      (hloop : MessageQueueImpl.step (s.queues i).loop qact = some loop) :
      Effect s act (setQueue i { s.queues i with loop } s)
  | transport (c : ℕ) (ec : ErrorCode) : Effect s (.transport c ec) (transport c ec s)
  | dropObject {i : ℕ} (hobject : (s.queues i).object = true) :
      Effect s (.dropObject i) (dropObject i s)
  | destroy {n : Node} (hlive : Live s n) (hfree : ¬ Held s n) :
      Effect s (.destroy n) (destroy n s)

theorem held_of_object (h : (s.queues i).object = true) : Held s (.queue i) :=
  held_queue_iff.mpr (.inl (.inl h))

theorem queueStep_effect {act : Action} {qact : MessageQueueImpl.Action}
    (hcause : Held s (.queue i) ∨ qact = .next) (hact : ∀ con, qact ≠ .setConnectionPtr con)
    (hs : queueStep i qact s = some s') : Effect s act s' := by
  obtain ⟨loop, hloop, rfl⟩ := Option.map_eq_some_iff.mp hs
  exact .queue hcause hact hloop

theorem held_of_handlers (hlive : Live s (.connection c))
    (h : (s.connections c).handlers = some i) : Held s (.queue i) :=
  held_queue_iff.mpr (.inr (.inr ⟨c, hlive, h⟩))

theorem step_effect {act : Action} (hs : step s act = some s') : Effect s act s' := by
  cases act with
  | makeQueue =>
    obtain rfl := Option.some.inj hs
    exact .makeQueue
  | makeConnection =>
    obtain rfl := Option.some.inj hs
    exact .makeConnection
  | retain c =>
    obtain ⟨houtside, hs⟩ := Option.ite_none_right_eq_some.mp hs
    obtain rfl := Option.some.inj hs
    exact .setOutside _ houtside
  | release c =>
    obtain ⟨houtside, hs⟩ := Option.ite_none_right_eq_some.mp hs
    obtain rfl := Option.some.inj hs
    exact .setOutside _ houtside
  | setConnectionPtr i c =>
    obtain ⟨⟨hobject, houtside⟩, hs⟩ := Option.ite_none_right_eq_some.mp hs
    obtain rfl := Option.some.inj hs
    exact .setConnectionPtr hobject houtside
  | setHandlers c =>
    obtain ⟨houtside, hs⟩ := Option.ite_none_right_eq_some.mp hs
    obtain rfl := Option.some.inj hs
    exact .setHandlers houtside
  | asyncReceive i buffer =>
    obtain ⟨hobject, hs⟩ := Option.ite_none_right_eq_some.mp hs
    exact queueStep_effect (.inl (held_of_object hobject)) (fun _ h => by cases h) hs
  | close i =>
    obtain ⟨hobject, hs⟩ := Option.ite_none_right_eq_some.mp hs
    exact queueStep_effect (.inl (held_of_object hobject)) (fun _ h => by cases h) hs
  | message c payload =>
    simp only [step] at hs
    split at hs
    case h_1 i hhandlers =>
      obtain ⟨hlive, hs⟩ := Option.ite_none_right_eq_some.mp hs
      exact queueStep_effect (.inl (held_of_handlers hlive hhandlers)) (fun _ h => by cases h) hs
    case h_2 => cases hs
  | closeEvent c =>
    simp only [step] at hs
    split at hs
    case h_1 i hhandlers =>
      obtain ⟨hlive, hs⟩ := Option.ite_none_right_eq_some.mp hs
      exact queueStep_effect (.inl (held_of_handlers hlive hhandlers)) (fun _ h => by cases h) hs
    case h_2 => cases hs
  | transport c ec =>
    obtain rfl := Option.some.inj hs
    exact .transport c ec
  | next i => exact queueStep_effect (.inr rfl) (fun _ h => by cases h) hs
  | dropObject i =>
    obtain ⟨hobject, hs⟩ := Option.ite_none_right_eq_some.mp hs
    obtain rfl := Option.some.inj hs
    exact .dropObject hobject
  | destroy n =>
    obtain ⟨⟨hlive, hfree⟩, hs⟩ := Option.ite_none_right_eq_some.mp hs
    obtain rfl := Option.some.inj hs
    exact .destroy hlive hfree

/-! ## Nothing goes that is kept -/

@[simp] theorem setQueue_self (i : ℕ) (q : Queue) (s : World) : (setQueue i q s).queues i = q :=
  Function.update_self _ _ _

theorem setQueue_of_ne {j : ℕ} (h : j ≠ i) (q : Queue) (s : World) :
    (setQueue i q s).queues j = s.queues j :=
  Function.update_of_ne h _ _

@[simp] theorem setConnection_self (c : ℕ) (con : Connection) (s : World) :
    (setConnection c con s).connections c = con :=
  Function.update_self _ _ _

theorem setConnection_of_ne {d : ℕ} (h : d ≠ c) (con : Connection) (s : World) :
    (setConnection c con s).connections d = s.connections d :=
  Function.update_of_ne h _ _

theorem live_setQueue {q : Queue} (h : q.destroyed = (s.queues i).destroyed) (n : Node) :
    Live (setQueue i q s) n ↔ Live s n := by
  cases n with
  | queue j =>
    by_cases hj : j = i
    · subst hj
      simp only [Live, setQueue_self, h]
      exact Iff.rfl
    · simp only [Live, setQueue_of_ne hj]
      exact Iff.rfl
  | connection c => exact Iff.rfl

theorem live_setConnection {con : Connection} (h : con.destroyed = (s.connections c).destroyed)
    (n : Node) : Live (setConnection c con s) n ↔ Live s n := by
  cases n with
  | queue j => exact Iff.rfl
  | connection d =>
    by_cases hd : d = c
    · subst hd
      simp only [Live, setConnection_self, h]
      exact Iff.rfl
    · simp only [Live, setConnection_of_ne hd]
      exact Iff.rfl

theorem live_makeQueue {n : Node} (h : Live s n) : Live (makeQueue s) n := by
  cases n with
  | queue j =>
    have hne : j ≠ s.queuesMade := Nat.ne_of_lt h.1
    refine ⟨Nat.lt_succ_of_lt h.1, ?_⟩
    exact (congrArg Queue.destroyed (setQueue_of_ne hne _ s)).trans h.2
  | connection c => exact h

theorem live_makeConnection {n : Node} (h : Live s n) : Live (makeConnection s) n := by
  cases n with
  | queue j => exact h
  | connection c =>
    have hne : c ≠ s.connectionsMade := Nat.ne_of_lt h.1
    refine ⟨Nat.lt_succ_of_lt h.1, ?_⟩
    exact (congrArg Connection.destroyed (setConnection_of_ne hne _ s)).trans h.2

theorem clearHandlers_queues (i : ℕ) (s : World) : (clearHandlers i s).queues = s.queues := by
  unfold clearHandlers
  split
  · rfl
  · rfl

theorem live_setOutside (c outside : ℕ) (n : Node) :
    Live (setOutside c outside s) n ↔ Live s n := by
  unfold setOutside
  exact live_setConnection (by rfl) n

theorem live_setHandlers (c : ℕ) (handlers : Option ℕ) (n : Node) :
    Live (setHandlers c handlers s) n ↔ Live s n := by
  unfold setHandlers
  exact live_setConnection (by rfl) n

theorem live_clearHandlers (i : ℕ) (n : Node) : Live (clearHandlers i s) n ↔ Live s n := by
  unfold clearHandlers
  split
  case h_1 => exact Iff.rfl
  case h_2 c hmPtr =>
    refine Iff.trans ?_ (live_setHandlers c none n)
    cases n <;> exact Iff.rfl

theorem live_setConnectionPtr (i c : ℕ) (n : Node) :
    Live (setConnectionPtr i c s) n ↔ Live s n := by
  let q : Queue :=
    { s.queues i with loop := MessageQueueImpl.setConnectionPtr c (s.queues i).loop }
  refine Iff.trans ?_
    ((live_setHandlers c (some i) n).trans (live_setQueue (by rfl : q.destroyed = _) n))
  cases n <;> exact Iff.rfl

theorem live_destroy {m n : Node} (hne : m ≠ n) (h : Live s m) : Live (destroy n s) m := by
  cases n with
  | queue i =>
    have hclear := (live_clearHandlers i m).mpr h
    cases m with
    | queue j =>
      have hj : j ≠ i := fun heq => hne (heq ▸ rfl)
      exact ⟨hclear.1, (congrArg Queue.destroyed (setQueue_of_ne hj _ _)).trans hclear.2⟩
    | connection c => exact hclear
  | connection c =>
    cases m with
    | queue j => exact h
    | connection d =>
      have hd : d ≠ c := fun heq => hne (heq ▸ rfl)
      exact ⟨h.1, (congrArg Connection.destroyed (setConnection_of_ne hd _ _)).trans h.2⟩

/-- What goes in a step is not kept by anything. -/
theorem gone_step {act : Action} (hs : step s act = some s') (n : Node) (hn : Live s n) :
    Live s' n ∨ ¬ Held s n := by
  cases step_effect hs with
  | makeQueue => exact .inl (live_makeQueue hn)
  | makeConnection => exact .inl (live_makeConnection hn)
  | setOutside => exact .inl ((live_setOutside _ _ n).mpr hn)
  | @setConnectionPtr i c hobject houtside => exact .inl ((live_setConnectionPtr i c n).mpr hn)
  | setHandlers => exact .inl ((live_setHandlers _ none n).mpr hn)
  | queue => exact .inl ((live_setQueue (by rfl) n).mpr hn)
  | transport c ec =>
    left
    cases n with
    | queue j => exact hn
    | connection d => exact hn
  | dropObject => exact .inl ((live_setQueue (by rfl) n).mpr hn)
  | @destroy m hlive hfree =>
    by_cases hne : n = m
    · subst hne
      exact .inr hfree
    · exact .inl (live_destroy hne hn)

/-! ## Pointers are made to what is there -/

theorem held_setQueue (q : Queue) {n : Node}
    (hlive : q.destroyed = false → (s.queues i).destroyed = false)
    (hrooted : q.object = true ∨ postedReceives q.loop ≠ [] → Held s (.queue i))
    (hmPtr : ∀ c, q.destroyed = false → Live s (.queue i) → q.loop.world.mPtr = some c →
      Held s (.connection c))
    (hn : Held (setQueue i q s) n) : Held s n ∨ Live (setQueue i q s) n := by
  cases n with
  | queue j =>
    rcases held_queue_iff.mp hn with hroot | ⟨hj, -⟩ | ⟨c, hc, hhandlers⟩
    · left
      by_cases hj : j = i
      · subst hj
        simp only [Rooted, setQueue_self] at hroot
        exact hrooted hroot
      · simp only [Rooted, setQueue_of_ne hj] at hroot
        exact held_queue_iff.mpr (.inl hroot)
    · exact .inr hj
    · exact .inl (held_of_handlers hc hhandlers)
  | connection c =>
    left
    rcases held_connection_iff.mp hn with houtside | ⟨k, hk, hptr⟩
    · exact held_connection_iff.mpr (.inl houtside)
    · by_cases hki : k = i
      · subst hki
        simp only [Live, setQueue_self] at hk
        rw [setQueue_self] at hptr
        exact hmPtr c hk.2 ⟨hk.1, hlive hk.2⟩ hptr
      · simp only [Live, setQueue_of_ne hki] at hk
        rw [setQueue_of_ne hki] at hptr
        exact held_connection_iff.mpr (.inr ⟨k, hk, hptr⟩)

theorem held_setConnection (con : Connection) {n : Node}
    (hlive : con.destroyed = false → (s.connections c).destroyed = false)
    (houtside : 0 < con.outside → Held s (.connection c))
    (hhandlers : ∀ j, con.destroyed = false → Live s (.connection c) → con.handlers = some j →
      Held s (.queue j))
    (hn : Held (setConnection c con s) n) : Held s n := by
  cases n with
  | queue j =>
    rcases held_queue_iff.mp hn with hroot | ⟨hj, hwaiting⟩ | ⟨d, hd, hbound⟩
    · exact held_queue_iff.mpr (.inl hroot)
    · exact held_queue_iff.mpr (.inr (.inl ⟨hj, hwaiting⟩))
    · by_cases hdc : d = c
      · subst hdc
        simp only [Live, setConnection_self] at hd
        rw [setConnection_self] at hbound
        exact hhandlers j hd.2 ⟨hd.1, hlive hd.2⟩ hbound
      · simp only [Live, setConnection_of_ne hdc] at hd
        rw [setConnection_of_ne hdc] at hbound
        exact held_of_handlers hd hbound
  | connection d =>
    rcases held_connection_iff.mp hn with hout | ⟨k, hk, hptr⟩
    · by_cases hdc : d = c
      · subst hdc
        rw [setConnection_self] at hout
        exact houtside hout
      · rw [setConnection_of_ne hdc] at hout
        exact held_connection_iff.mpr (.inl hout)
    · exact held_connection_iff.mpr (.inr ⟨k, hk, hptr⟩)

theorem held_of_outside (h : 0 < (s.connections c).outside) : Held s (.connection c) :=
  held_connection_iff.mpr (.inl h)

theorem held_of_mPtr (hlive : Live s (.queue i))
    (h : (s.queues i).loop.world.mPtr = some c) : Held s (.connection c) :=
  held_connection_iff.mpr (.inr ⟨i, hlive, h⟩)

theorem held_of_rooted (h : (s.queues i).object = true ∨ postedReceives (s.queues i).loop ≠ []) :
    Held s (.queue i) :=
  held_queue_iff.mpr (.inl h)

theorem held_setOutside {outside : ℕ} {n : Node} (houtside : 0 < (s.connections c).outside)
    (hn : Held (setOutside c outside s) n) : Held s n :=
  held_setConnection { s.connections c with outside } id (fun _ => held_of_outside houtside)
    (fun _ _ hlive hhandlers => held_of_handlers hlive hhandlers) hn

theorem held_setHandlers {handlers : Option ℕ} {n : Node}
    (hhandlers : ∀ j, handlers = some j → Held s (.queue j))
    (hn : Held (setHandlers c handlers s) n) : Held s n :=
  held_setConnection { s.connections c with handlers } id held_of_outside
    (fun j _ _ hj => hhandlers j hj) hn

theorem held_makeQueue {n : Node} (hn : Held (makeQueue s) n) :
    Held s n ∨ Live (makeQueue s) n := by
  have hqueue {k : ℕ} (hk : k ≠ s.queuesMade) : (makeQueue s).queues k = s.queues k :=
    setQueue_of_ne hk _ s
  have hmade : (makeQueue s).queues s.queuesMade = ⟨MessageQueueImpl.init, true, false⟩ :=
    setQueue_self _ _ s
  cases n with
  | queue j =>
    rcases held_queue_iff.mp hn with hroot | ⟨hj, -⟩ | ⟨c, hc, hhandlers⟩
    · by_cases hj : j = s.queuesMade
      · subst hj
        exact .inr ⟨Nat.lt_succ_self _, congrArg Queue.destroyed hmade⟩
      · simp only [Rooted, hqueue hj] at hroot
        exact .inl (held_of_rooted hroot)
    · exact .inr hj
    · exact .inl (held_of_handlers hc hhandlers)
  | connection c =>
    left
    rcases held_connection_iff.mp hn with houtside | ⟨k, hk, hptr⟩
    · exact held_of_outside houtside
    · by_cases hkm : k = s.queuesMade
      · subst hkm
        rw [hmade] at hptr
        cases hptr
      · simp only [Live, hqueue hkm] at hk
        rw [hqueue hkm] at hptr
        obtain ⟨hlt, hdestroyed⟩ := hk
        replace hlt : k < s.queuesMade + 1 := hlt
        exact held_of_mPtr ⟨by omega, hdestroyed⟩ hptr

theorem held_makeConnection {n : Node} (hn : Held (makeConnection s) n) :
    Held s n ∨ Live (makeConnection s) n := by
  have hconnection {d : ℕ} (hd : d ≠ s.connectionsMade) :
      (makeConnection s).connections d = s.connections d :=
    setConnection_of_ne hd _ s
  have hmade : (makeConnection s).connections s.connectionsMade = ⟨1, none, false⟩ :=
    setConnection_self _ _ s
  cases n with
  | queue j =>
    left
    rcases held_queue_iff.mp hn with hroot | ⟨hj, hwaiting⟩ | ⟨d, hd, hbound⟩
    · exact held_of_rooted hroot
    · exact held_queue_iff.mpr (.inr (.inl ⟨hj, hwaiting⟩))
    · by_cases hdm : d = s.connectionsMade
      · subst hdm
        rw [hmade] at hbound
        cases hbound
      · simp only [Live, hconnection hdm] at hd
        rw [hconnection hdm] at hbound
        obtain ⟨hlt, hdestroyed⟩ := hd
        replace hlt : d < s.connectionsMade + 1 := hlt
        exact held_of_handlers ⟨by omega, hdestroyed⟩ hbound
  | connection d =>
    rcases held_connection_iff.mp hn with houtside | ⟨k, hk, hptr⟩
    · by_cases hdm : d = s.connectionsMade
      · subst hdm
        exact .inr ⟨Nat.lt_succ_self _, congrArg Connection.destroyed hmade⟩
      · rw [hconnection hdm] at houtside
        exact .inl (held_of_outside houtside)
    · exact .inl (held_of_mPtr hk hptr)

theorem held_clearHandlers {n : Node} (hn : Held (clearHandlers i s) n) : Held s n := by
  unfold clearHandlers at hn
  split at hn
  case h_1 => exact hn
  case h_2 d hmPtr =>
    have hset : Held (setHandlers d none s) n := hn
    exact held_setHandlers (fun _ h => by cases h) hset

theorem held_destroy {m n : Node} (hfree : ¬ Held s m) (hn : Held (destroy m s) n) :
    Held s n ∨ Live (destroy m s) n := by
  cases m with
  | queue i =>
    let t := clearHandlers i s
    have hqueue : t.queues i = s.queues i := congrFun (clearHandlers_queues i s) i
    let q : Queue :=
      { t.queues i with loop := MessageQueueImpl.close (t.queues i).loop, destroyed := true }
    have hrooted (hroot : q.object = true ∨ postedReceives q.loop ≠ []) : Held t (.queue i) := by
      rw [postedReceives_close, hqueue] at hroot
      replace hroot : (t.queues i).object = true ∨ _ := hroot
      rw [hqueue] at hroot
      exact absurd (held_of_rooted hroot) hfree
    exact (held_setQueue q nofun hrooted (fun _ => nofun) hn).imp_left held_clearHandlers
  | connection c =>
    left
    exact held_setConnection { s.connections c with destroyed := true } nofun held_of_outside
      (fun _ => nofun) hn

theorem held_setConnectionPtr {n : Node} (hobject : (s.queues i).object = true)
    (houtside : 0 < (s.connections c).outside) (hn : Held (setConnectionPtr i c s) n) :
    Held s n ∨ Live (setConnectionPtr i c s) n := by
  let q : Queue :=
    { s.queues i with loop := MessageQueueImpl.setConnectionPtr c (s.queues i).loop }
  have hheld : Held (setHandlers c (some i) (setQueue i q s)) n := hn
  have hi : Held (setQueue i q s) (.queue i) := by
    refine held_of_object ?_
    rw [setQueue_self]
    exact hobject
  have hptr := held_setHandlers (fun j hj => Option.some.inj hj ▸ hi) hheld
  refine (held_setQueue q id held_of_rooted ?_ hptr).imp_right ?_
  · intro d _ _ hd
    obtain rfl := Option.some.inj hd
    exact held_of_outside houtside
  · intro hlive
    exact (live_setConnectionPtr i c n).mpr ((live_setQueue (by rfl) n).mp hlive)

/-- A queue that is gone runs nothing but handlers. -/
theorem held_queueLoop {qact : MessageQueueImpl.Action} {loop : MqLoop} {n : Node}
    (hcause : Held s (.queue i) ∨ qact = .next) (hact : ∀ con, qact ≠ .setConnectionPtr con)
    (hloop : MessageQueueImpl.step (s.queues i).loop qact = some loop)
    (hn : Held (setQueue i { s.queues i with loop } s) n) :
    Held s n ∨ Live (setQueue i { s.queues i with loop } s) n := by
  refine held_setQueue { s.queues i with loop } id ?_ ?_ hn
  · intro hroot
    rcases hcause with hheld | rfl
    · exact hheld
    · by_cases hnil : postedReceives (s.queues i).loop = []
      · refine held_of_rooted (hroot.imp_right fun hposted => ?_)
        exact absurd (postedReceives_next hnil hloop) hposted
      · exact held_of_rooted (.inr hnil)
  · intro d _ hlive hptr
    rw [mPtr_step hact hloop] at hptr
    exact held_of_mPtr hlive hptr

theorem held_step {act : Action} {n : Node} (hs : step s act = some s') (hn : Held s' n) :
    Held s n ∨ Live s' n := by
  cases step_effect hs with
  | makeQueue => exact held_makeQueue hn
  | makeConnection => exact held_makeConnection hn
  | setOutside outside houtside => exact .inl (held_setOutside houtside hn)
  | setConnectionPtr hobject houtside => exact held_setConnectionPtr hobject houtside hn
  | setHandlers houtside => exact .inl (held_setHandlers (fun _ hj => by cases hj) hn)
  | queue hcause hact hloop => exact held_queueLoop hcause hact hloop hn
  | transport c ec =>
    left
    cases n with
    | queue j => exact held_queue_iff.mpr (held_queue_iff.mp hn)
    | connection d => exact held_connection_iff.mpr (held_connection_iff.mp hn)
  | @dropObject i hobject =>
    let q : Queue :=
      { s.queues i with loop := MessageQueueImpl.close (s.queues i).loop, object := false }
    refine held_setQueue q id (fun _ => held_of_object hobject) ?_ hn
    intro d _ hlive hptr
    rw [mPtr_close] at hptr
    exact held_of_mPtr hlive hptr
  | destroy hlive hfree => exact held_destroy hfree hn

theorem sound_step (h : (ownership s).Sound) {act : Action} (hs : step s act = some s') :
    (ownership s').Sound :=
  h.step (fun _ hn => held_step hs hn) (gone_step hs)

/-! ## Pointers that others have -/

/-- The pointers to `c` outside after an action. -/
def outsideAfter (s : World) (c : ℕ) : Action → ℕ
  | .makeConnection => if c = s.connectionsMade then 1 else (s.connections c).outside
  | .retain d => if c = d then (s.connections d).outside + 1 else (s.connections c).outside
  | .release d => if c = d then (s.connections d).outside - 1 else (s.connections c).outside
  | _ => (s.connections c).outside

theorem outside_setConnection (d : ℕ) (con : Connection) (c : ℕ) :
    ((setConnection d con s).connections c).outside =
      if c = d then con.outside else (s.connections c).outside := by
  split
  case isTrue hc =>
    subst hc
    rw [setConnection_self]
  case isFalse hc => rw [setConnection_of_ne hc]

/-- Setting another member of the connection. -/
theorem outside_setConnection_same {d : ℕ} {con : Connection}
    (h : con.outside = (s.connections d).outside) (c : ℕ) :
    ((setConnection d con s).connections c).outside = (s.connections c).outside := by
  rw [outside_setConnection]
  split
  case isTrue hc =>
    subst hc
    exact h
  case isFalse => rfl

theorem outside_queueStep {qact : MessageQueueImpl.Action} (hs : queueStep i qact s = some s')
    (c : ℕ) : (s'.connections c).outside = (s.connections c).outside := by
  obtain ⟨loop, -, rfl⟩ := Option.map_eq_some_iff.mp hs
  rfl

theorem outside_setHandlers (d : ℕ) (handlers : Option ℕ) (c : ℕ) :
    ((setHandlers d handlers s).connections c).outside = (s.connections c).outside := by
  unfold setHandlers
  exact outside_setConnection_same (by rfl) c

theorem outside_clearHandlers (i c : ℕ) :
    ((clearHandlers i s).connections c).outside = (s.connections c).outside := by
  unfold clearHandlers
  split
  case h_1 => rfl
  case h_2 d hmPtr => exact outside_setHandlers d none c

theorem outside_step {act : Action} (hs : step s act = some s') (c : ℕ) :
    (s'.connections c).outside = outsideAfter s c act := by
  cases act with
  | makeQueue | transport =>
    obtain rfl := Option.some.inj hs
    rfl
  | makeConnection =>
    obtain rfl := Option.some.inj hs
    exact outside_setConnection _ _ c
  | retain d | release d =>
    obtain ⟨-, hs⟩ := Option.ite_none_right_eq_some.mp hs
    obtain rfl := Option.some.inj hs
    exact outside_setConnection d _ c
  | setConnectionPtr i d =>
    obtain ⟨-, hs⟩ := Option.ite_none_right_eq_some.mp hs
    obtain rfl := Option.some.inj hs
    exact outside_setHandlers d (some i) c
  | setHandlers d =>
    obtain ⟨-, hs⟩ := Option.ite_none_right_eq_some.mp hs
    obtain rfl := Option.some.inj hs
    exact outside_setHandlers d none c
  | asyncReceive i buffer | close i =>
    obtain ⟨-, hs⟩ := Option.ite_none_right_eq_some.mp hs
    exact outside_queueStep hs c
  | message d payload | closeEvent d =>
    simp only [step] at hs
    split at hs
    case h_1 =>
      obtain ⟨-, hs⟩ := Option.ite_none_right_eq_some.mp hs
      exact outside_queueStep hs c
    case h_2 => cases hs
  | next i => exact outside_queueStep hs c
  | dropObject i =>
    obtain ⟨-, hs⟩ := Option.ite_none_right_eq_some.mp hs
    obtain rfl := Option.some.inj hs
    rfl
  | destroy n =>
    obtain ⟨-, hs⟩ := Option.ite_none_right_eq_some.mp hs
    obtain rfl := Option.some.inj hs
    cases n with
    | queue i => exact outside_clearHandlers i c
    | connection d => exact outside_setConnection_same (by rfl) c

end
end CxxUtil.Ws.Lifetime
