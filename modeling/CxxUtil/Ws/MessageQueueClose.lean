import CxxUtil.Ws.MessageQueuePairing

/-! # The remote end closes

`handleClose` produces one item, whatever the number of receives that wait. A receive whose posted
function runs later is turned away only by a transport error, which a clean close leaves clear.
`answers_all_iff` and `Answerable` say when this is enough. -/
namespace CxxUtil.Ws.MessageQueueImpl
open Foundations Queue ProducerConsumerQueue Asio
set_option autoImplicit false

def waiting (s : MqLoop) : List Receive :=
  s.world.mReceiveQueue.mHandlers.filterMap Consumer.receive?

/-- From `s` to `s'` every waiting receive has had its handler posted with an error. -/
def AnswersAll (s s' : MqLoop) : Prop :=
  ∀ r ∈ waiting s, r ∉ waiting s' ∧ ∃ c ∈ s'.world.answered, c.receive = r ∧ c.ec ≠ none

/-- No receive waits behind the first consumer. -/
def OneWaits (s : MqLoop) : Prop := ∀ c ∈ s.world.mReceiveQueue.mHandlers.tail, c = .discard

instance (s : MqLoop) : Decidable (OneWaits s) := inferInstanceAs (Decidable (∀ c ∈ _, c = _))

/-- A receive whose posted function runs finds a transport error or a buffered item. -/
def Answerable (s : MqLoop) : Action → Prop
  | .next =>
    match s.posted with
    | .receive _ :: _ =>
      (s.world.mPtr.bind s.world.transportEc).isSome ∨ s.world.mReceiveQueue.mData ≠ []
    | _ => True
  | _ => True

instance (s : MqLoop) (act : Action) : Decidable (Answerable s act) := by
  unfold Answerable
  split
  · split <;> infer_instance
  · exact .isTrue trivial

section
variable {s : MqLoop}

theorem mem_waiting {r : Receive} :
    r ∈ waiting s ↔ .receive r ∈ s.world.mReceiveQueue.mHandlers := by
  simp only [waiting, List.mem_filterMap]
  constructor
  · rintro ⟨c, hmem, hc⟩
    cases c with
    | receive r' =>
      obtain rfl := Option.some.inj hc
      exact hmem
    | discard => cases hc
  · exact fun hmem => ⟨_, hmem, rfl⟩

/-! ## The waiting receives -/

theorem waiting_produce (h : s.world.mReceiveQueue.OneSided) (it : Item) :
    waiting (produce it s) = s.world.mReceiveQueue.mHandlers.tail.filterMap Consumer.receive? := by
  rcases produce_cases h it with ⟨its, hq, heq⟩ | ⟨c, cs, hq, heq⟩ <;>
    simp [waiting, heq, hq, setQueue]

theorem waiting_produce_nil (h : s.world.mReceiveQueue.OneSided) (it : Item)
    (hnil : waiting s = []) : waiting (produce it s) = [] := by
  rw [waiting_produce h]
  rw [waiting, List.filterMap_eq_nil_iff] at hnil
  exact List.filterMap_eq_nil_iff.mpr fun c hc => hnil c (List.mem_of_mem_tail hc)

theorem waiting_discard (h : s.world.mReceiveQueue.OneSided) (hnil : waiting s = []) :
    waiting (consume .discard s) = [] := by
  rcases consume_cases h .discard with ⟨cs, hq, heq⟩ | ⟨it, its, hq, heq⟩
  · have hcs : cs.filterMap Consumer.receive? = [] := by simpa [waiting, hq] using hnil
    simp [waiting, heq, setQueue, hcs, Consumer.receive?]
  · simp [waiting, heq, setQueue]

theorem waiting_consume (h : s.world.mReceiveQueue.OneSided) (c : Consumer)
    (hdata : s.world.mReceiveQueue.mData ≠ []) : waiting (consume c s) = [] := by
  rcases consume_cases h c with ⟨cs, hq, -⟩ | ⟨it, its, hq, heq⟩
  · exact absurd (by rw [hq]) hdata
  · simp [waiting, heq, setQueue]

theorem waiting_close (h : Consistent s) (hnil : waiting s = []) : waiting (close s) = [] := by
  have hproduce (t : MqLoop) (ht : Consistent t ∧ waiting t = [])
      (_ : decide (depth t < 0) = true) :
      Consistent (produce .aborted t) ∧ waiting (produce .aborted t) = [] :=
    ⟨ht.1.produce rfl, waiting_produce_nil ht.1.sound.oneSided _ ht.2⟩
  have hconsume (t : MqLoop) (ht : Consistent t ∧ waiting t = [])
      (_ : decide (0 < depth t) = true) :
      Consistent (consume .discard t) ∧ waiting (consume .discard t) = [] :=
    ⟨ht.1.consume_discard, waiting_discard ht.1.sound.oneSided ht.2⟩
  have habort : Consistent (abortDemand s) ∧ waiting (abortDemand s) = [] :=
    whileLoop_invariant hproduce imbalance ⟨h, hnil⟩
  exact (whileLoop_invariant hconsume imbalance habort).2

/-! ## `handleClose` -/

theorem answers_all_iff (h : s.world.mReceiveQueue.OneSided) (con : ℕ) (e : Error) :
    AnswersAll s (produce (.closed con e) s) ↔ OneWaits s := by
  have hmem {r : Receive} : r ∈ waiting (produce (.closed con e) s) ↔
      .receive r ∈ s.world.mReceiveQueue.mHandlers.tail := by
    rw [mem_waiting]
    rcases produce_cases h (.closed con e) with ⟨its, hq, heq⟩ | ⟨c, cs, hq, heq⟩ <;>
      simp [heq, hq, setQueue]
  constructor
  · intro hall c hc
    cases c with
    | discard => rfl
    | receive r =>
      exact absurd (hmem.mpr hc) (hall r (mem_waiting.mpr (List.mem_of_mem_tail hc))).1
  · intro hone r hr
    rw [mem_waiting] at hr
    rcases produce_cases h (.closed con e) with ⟨its, hq, -⟩ | ⟨c, cs, hq, heq⟩
    · simp [hq] at hr
    · -- `r` is the consumer in front, which takes the item
      have hnot : .receive r ∉ cs := fun hmem => by
        have := hone _ (by rw [hq]; exact hmem)
        cases this
      obtain rfl : .receive r = c := by
        rw [hq] at hr
        exact (List.mem_cons.mp hr).resolve_right hnot
      have hgone : r ∉ waiting (produce (.closed con e) s) := fun hr' =>
        hnot (by simpa [hq] using hmem.mp hr')
      refine ⟨hgone, ⟨r, some e, 0, r.buffer⟩, ?_, rfl, by simp⟩
      simp [heq, deliver, postHandler, setQueue, completion]

theorem waiting_nil_of_oneWaits (h : s.world.mReceiveQueue.OneSided) (hone : OneWaits s)
    (it : Item) : waiting (produce it s) = [] := by
  rw [waiting_produce h]
  refine List.filterMap_eq_nil_iff.mpr fun c hc => ?_
  rw [hone c hc]
  rfl

/-! ## After `handleClose` -/

theorem waiting_nil_step (s : MqLoop) (act : Action) (s' : MqLoop)
    (h : Consistent s ∧ waiting s = []) (hact : Answerable s act) (hs : step s act = some s') :
    Consistent s' ∧ waiting s' = [] := by
  obtain ⟨hcons, hnil⟩ := h
  refine ⟨consistent_step s act s' hcons hs, ?_⟩
  have hone := hcons.sound.oneSided
  cases step_effect hs with
  | setConnectionPtr con => exact hnil
  | asyncReceive buffer => exact hnil
  | close => exact waiting_close hcons hnil
  | message con payload =>
    refine waiting_produce_nil ?_ _ ?_
    · exact hone
    · exact hnil
  | closeEvent con e => exact waiting_produce_nil hone _ hnil
  | transport con ec => exact hnil
  | handler hposted => exact hnil
  | @receive r jobs p hposted hp hec =>
    -- without a transport error, there is an item to take
    have hdata : s.world.mReceiveQueue.mData ≠ [] := by
      simpa [Answerable, hposted, hp, hec] using hact
    exact waiting_consume (s := ⟨s.world, jobs⟩) hone _ hdata
  | turnedAway hposted hp hec => exact hnil

/-- `handleClose` answers every waiting receive exactly when at most one waits. When it does, no
receive waits afterwards as long as each one that comes finds a transport error or an item. -/
theorem remote_close_answers_iff {as : List Action} {con : ℕ} {s' : MqLoop}
    (h : run step init as = some s) (hs : step s (.closeEvent con) = some s') :
    (AnswersAll s s' ↔ OneWaits s) ∧
    ∀ bs t, OneWaits s → Along step Answerable s' bs → run step s' bs = some t →
      waiting t = [] := by
  have hcons := consistent_run h
  have hcons' := consistent_step s _ s' hcons hs
  obtain ⟨e, rfl⟩ := closeEvent_cases hs
  refine ⟨answers_all_iff hcons.sound.oneSided con e, fun bs t hone halong hrun => ?_⟩
  have hnil := waiting_nil_of_oneWaits hcons.sound.oneSided hone (.closed con e)
  exact (run_invariant_along waiting_nil_step ⟨hcons', hnil⟩ halong hrun).2

end

theorem remote_close_answers_one :
    ∃ s s' t, run step init [.setConnectionPtr 7, .asyncReceive [0], .next] = some s ∧
      step s (.closeEvent 7) = some s' ∧ AnswersAll s s' ∧
      run step s' [.transport 7 (some .networkDown), .asyncReceive [0], .next, .next] = some t ∧
      waiting t = [] := by
  have hrun : run step init [.setConnectionPtr 7, .asyncReceive [0], .next] = some _ := rfl
  refine ⟨_, _, _, hrun, rfl, ?_, rfl, ?_⟩
  · exact (remote_close_answers_iff hrun (show step _ (.closeEvent 7) = some _ from rfl)).1.mpr
      (by decide)
  · exact (remote_close_answers_iff hrun (show step _ (.closeEvent 7) = some _ from rfl)).2
      [.transport 7 (some .networkDown), .asyncReceive [0], .next, .next] _ (by decide) (by decide)
      rfl

/-- Two receives wait when the remote end closes, and one of them goes on waiting when every posted
function has run. -/
theorem remote_close_leaves_receive :
    ∃ s s' t, run step init [.setConnectionPtr 7, .asyncReceive [0], .asyncReceive [0], .next,
        .next] = some s ∧
      step s (.closeEvent 7) = some s' ∧ ¬ AnswersAll s s' ∧
      run step s' [.next] = some t ∧ t.posted = [] ∧ waiting t = [⟨1, [0]⟩] := by
  refine ⟨_, _, _, rfl, rfl, fun hall => ?_, rfl, rfl, rfl⟩
  exact (hall ⟨1, [0]⟩ (by decide)).1 (by decide)

end CxxUtil.Ws.MessageQueueImpl
