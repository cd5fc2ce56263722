import CxxUtil.Ws.Duplex

/-! # One connection as a pipe

While a message queue has one connection that stays open without error, whose handlers were set
before the first message arrived, and every buffer is large enough, the `k`-th `asyncReceive` gets
the `k`-th message that the other end has sent. -/
namespace CxxUtil.Ws.Duplex
open Foundations Component MessageQueueImpl Asio
set_option autoImplicit false

section
variable {S W I : Type*} (E : Pair S)

/-- On side `y`, connection `con` is the only one, is ready when a message arrives, has no error and
is not closed; and `n` bytes are enough for what arrives. -/
def Steady (y : Side) (con n : ℕ) (m : Net S W) : NetAction I → Prop
  | .act x (.inl act) => x = y → Plain con n act
  | .act _ (.inr _) => True
  | .arrive x con' payload =>
    x = y → (con' = con → con ∈ (queue E y m).world.bound) ∧ payload.length ≤ n
  | .between _ => True

instance (y : Side) (con n : ℕ) (m : Net S W) :
    ∀ act : NetAction I, Decidable (Steady E y con n m act)
  | .act x (.inl act) => inferInstanceAs (Decidable (x = y → Plain con n act))
  | .act _ (.inr _) => .isTrue trivial
  | .arrive x con' _ => inferInstanceAs (Decidable (x = y → (con' = con → _) ∧ _))
  | .between _ => .isTrue trivial

structure Piping (y : Side) (con n : ℕ) (as : List (NetAction I)) (m : Net S W) : Prop where
  carried : Carried E as m
  piped : Piped n (queue E y m)
  alone : ∀ c ∈ (queue E y m).world.bound, c = con
  dropped : m.dropped y con = []

end

section
variable {S W I : Type*} {E : Pair S} {transport : Transport W I} {y : Side} {con n : ℕ}
  {m m' : Net S W} {as : List (NetAction I)}

/-- The step of an end, seen from side `y`. -/
theorem queue_end {x : Side} {act : EndAction} {ends : S} (y : Side)
    (h : E.step m.ends x act = some ends) :
    left (E.view y ends) = queue E y m ∨
      ∃ a, act = .inl a ∧ x = y ∧
        MessageQueueImpl.step (queue E y m) a = some (left (E.view y ends)) := by
  obtain ⟨hx, hother⟩ := E.step_view h
  rcases Side.eq_or_other x y with rfl | rfl
  · cases act with
    | inl act => exact .inr ⟨act, rfl, rfl, (endpoint_inl hx).1⟩
    | inr act => exact .inl (endpoint_inr hx).2
  · exact .inl (congrArg left hother)

/-- What a plain step of the queue keeps. -/
theorem plain_step {s s' : MqLoop} {act : Action} (hcons : Consistent s) (h : Piped n s)
    (halone : ∀ c ∈ s.world.bound, c = con) (hact : Plain con n act)
    (hs : MessageQueueImpl.step s act = some s') :
    Piped n s' ∧ ∀ c ∈ s'.world.bound, c = con := by
  refine ⟨(piped_step s act s' ⟨hcons, h⟩ hact hs).2, fun c hc => ?_⟩
  have hbound : s'.world.bound = (act.connect (connections s)).2.2 :=
    congrArg (fun cs => cs.2.2) (connections_step hs)
  rw [hbound] at hc
  cases act with
  | setConnectionPtr con' =>
    rcases List.mem_cons.mp hc with rfl | hc
    · exact hact
    · exact halone c hc
  | asyncReceive | close | message | closeEvent | transport | next => exact halone c hc

theorem piping_ends {act : NetAction I} (h : Piping E y con n as m)
    (hact : Steady E y con n m act) (hs : stepEnds E m act = some m') :
    Piped n (queue E y m') ∧ (∀ c ∈ (queue E y m').world.bound, c = con) ∧
      m'.dropped y con = [] := by
  have hcons := (h.carried.inStep y).consistent
  cases act with
  | act x act =>
    simp only [stepEnds] at hs
    obtain ⟨hbrought, hs⟩ := Option.ite_none_left_eq_some.mp hs
    obtain ⟨ends, hends, rfl⟩ := Option.map_eq_some_iff.mp hs
    change Piped n (left (E.view y ends)) ∧ (∀ c ∈ (left (E.view y ends)).world.bound, c = con) ∧ _
    rcases queue_end y hends with hsame | ⟨a, rfl, rfl, hstep⟩
    · rw [hsame]
      exact ⟨h.piped, h.alone, h.dropped⟩
    · obtain ⟨hpiped, halone⟩ := plain_step hcons h.piped h.alone (hact rfl) hstep
      exact ⟨hpiped, halone, h.dropped⟩
  | arrive x con' payload =>
    simp only [stepEnds] at hs
    split at hs
    case isTrue hbound =>
      obtain ⟨ends, hends, rfl⟩ := Option.map_eq_some_iff.mp hs
      change Piped n (left (E.view y ends)) ∧
        (∀ c ∈ (left (E.view y ends)).world.bound, c = con) ∧ _
      rcases queue_end y hends with hsame | ⟨a, ha, rfl, hstep⟩
      · rw [hsame]
        exact ⟨h.piped, h.alone, h.dropped⟩
      · obtain rfl := Sum.inl.inj ha
        have hplain : Plain con n (.message con' payload) := (hact rfl).2
        obtain ⟨hpiped, halone⟩ := plain_step hcons h.piped h.alone hplain hstep
        exact ⟨hpiped, halone, h.dropped⟩
    case isFalse hbound =>
      obtain rfl := Option.some.inj hs
      refine ⟨h.piped, h.alone, ?_⟩
      have hthere : ¬ (x = y ∧ con' = con) := by
        rintro ⟨rfl, rfl⟩
        exact hbound ((hact rfl).1 rfl)
      rw [dropped_drop, if_neg hthere, List.append_nil]
      exact h.dropped
  | between event =>
    obtain rfl := Option.some.inj hs
    exact ⟨h.piped, h.alone, h.dropped⟩

theorem piping_step (as : List (NetAction I)) (m : Net S W) (act : NetAction I) (m' : Net S W)
    (h : Piping E y con n as m) (hact : Steady E y con n m act)
    (hs : step E transport m act = some m') : Piping E y con n (as ++ [act]) m' := by
  have hcarried := carried_step as m act m' h.carried hs
  obtain ⟨wire, -, hs⟩ := Option.bind_eq_some_iff.mp hs
  have hm : Piping E y con n as { m with wire } :=
    ⟨⟨h.carried.inStep, h.carried.sent, h.carried.arrived⟩, h.piped, h.alone, h.dropped⟩
  have hact' : Steady E y con n { m with wire } act := by
    cases act with
    | act x act => cases act <;> exact hact
    | arrive x con' payload => exact hact
    | between event => exact hact
  obtain ⟨hpiped, halone, hdropped⟩ := piping_ends hm hact' hs
  exact ⟨hcarried, hpiped, halone, hdropped⟩

theorem piping_start (h : Starts E m) : Piping (I := I) E y con n [] m := by
  have hqueue : queue E y m = init := congrArg left (h.ends y)
  refine ⟨carried_start h, ?_, ?_, h.dropped y con⟩
  · rw [hqueue]
    exact piped_init n
  · rw [hqueue]
    intro c hc
    cases hc

theorem Piping.arrivedOn_eq (h : Piping E y con n as m) :
    arrivedOn con (queue E y m) = (messages (queue E y m)).map Message.payload :=
  payloadsOn_of_forall fun msg hmsg => h.alone _ ((h.carried.inStep y).known msg hmsg)

/-- **The `k`-th receive gets the `k`-th message.** In a steady run with an ordered transport, the
handlers of the receives are posted in the order of the calls, without error, the `k`-th with the
whole of what the other end has sent as its `k`-th message. Once everything sent has arrived and
every function of the queue has run, as many receives have completed as there have been receives and
messages for them. -/
theorem kth_receive_gets_kth_message {t : Net S W} (hordered : Ordered transport m.wire)
    (hm : Starts E m) (hsteady : Along (step E transport) (Steady E y con n) m as)
    (h : run (step E transport) m as = some t) :
    (∀ (k : ℕ) (c : Completion), (queue E y t).world.answered[k]? = some c →
      c.receive.id = k ∧ c.ec = none ∧ (sentOn con (sends E y.other t))[k]? = some c.content) ∧
    ((queue E y t).posted = [] →
      as.filterMap (NetAction.brings y con) = sentOn con (sends E y.other t) →
      (queue E y t).world.answered.length =
        min (queue E y t).world.received (sentOn con (sends E y.other t)).length) := by
  have ht : Piping E y con n ([] ++ as) t :=
    run_invariant_along_history piping_step (piping_start hm) hsteady h
  rw [List.nil_append] at ht
  have hsound : Sound [] (queue E y t) := (ht.carried.inStep y).consistent.sound
  have harrived : as.filterMap (NetAction.brings y con) =
      (messages (queue E y t)).map Message.payload := by
    rw [ht.carried.arrived, ht.dropped, List.nil_append, ht.arrivedOn_eq]
  have hbegin := arrived_prefix hordered hm h y con
  rw [ht.dropped, List.nil_append, ht.arrivedOn_eq] at hbegin
  obtain ⟨rest, hsent⟩ := hbegin
  constructor
  · intro k c hc
    obtain ⟨hid, hec, hcontent⟩ := ht.piped.getElem? hsound hc
    refine ⟨hid, hec, ?_⟩
    have hmsg : ((messages (queue E y t)).map Message.payload)[k]? = some c.content := by
      rw [List.getElem?_map]
      exact hcontent
    rw [← hsent, List.getElem?_append_left (List.getElem?_eq_some_iff.mp hmsg).1]
    exact hmsg
  · intro hidle hall
    rw [← hall, harrived, List.length_map]
    exact ht.piped.length_answered hsound hidle

end

def quietApart : Net (EndLoop × EndLoop) (List (NetAction Unit)) where
  ends := (⟨(init.world, ⟨[], []⟩), []⟩, ⟨(init.world, ⟨[], []⟩), []⟩)
  wire := []
  dropped _ _ := []

theorem starts_quietApart : Starts apart quietApart where
  ends x := by cases x <;> rfl
  dropped _ _ := rfl

/-- Ends with an `io_service` each. The second message arrives before there is a receive for it. -/
def lateReceive : List (NetAction Unit) :=
  [.act .client (.inl (.setConnectionPtr 7)), .act .server (.inl (.setConnectionPtr 7)),
    .act .server (.inr (.asyncSend 7 [1, 2] none)), .act .client (.inl (.asyncReceive [0, 0])),
    .act .client (.inl .next), .act .server (.inr (.asyncSend 7 [3] none)),
    .arrive .client 7 [1, 2], .arrive .client 7 [3], .act .client (.inl (.asyncReceive [0, 0])),
    .act .client (.inl .next), .act .client (.inl .next), .act .client (.inl .next)]

theorem kth_receive_gets_kth_message_two :
    ∃ t, run (step apart reliable) quietApart lateReceive = some t ∧
      (queue apart .client t).world.answered.map Completion.content = [[1, 2], [3]] ∧
      ∀ (k : ℕ) (c : Completion), (queue apart .client t).world.answered[k]? = some c →
        c.receive.id = k ∧ c.ec = none ∧
          (sentOn 7 (sends apart .server t))[k]? = some c.content := by
  have hrun : run (step apart reliable) quietApart lateReceive = some _ := rfl
  have hsteady : Along (step apart reliable) (Steady apart .client 7 2) quietApart lateReceive := by
    decide
  have hreceived := kth_receive_gets_kth_message (y := .client) (m := quietApart)
    ordered_reliable starts_quietApart hsteady hrun
  exact ⟨_, hrun, by decide, hreceived.1⟩

end CxxUtil.Ws.Duplex
