import CxxUtil.Ws.MessageQueueClose

/-! # What `close()` drains

The two loops of `close()` go by `depth()`, which says how much demand or supply there is as long as
the difference of the two sizes fits in `int`. With `2 ^ 31 + 1` waiting receives, or `2 ^ 31`
buffered items, it has the other sign, and the wrong loop runs. -/
namespace CxxUtil.Ws.MessageQueueImpl
open Foundations Queue ProducerConsumerQueue Asio
set_option autoImplicit false

def aborted (r : Receive) : Completion := ⟨r, some .operationAborted, 0, r.buffer⟩

/-- What is to be said of `close()` in the state `s`. -/
structure Drained (s : MqLoop) : Prop where
  aborts : LoopsTo (fun s => decide (depth s < 0)) (produce .aborted) s (abortDemand s)
  discards : LoopsTo (fun s => decide (0 < depth s)) (consume .discard) (abortDemand s) (close s)
  balanced : depth (close s) = 0
  /-- The waiting receives are answered, in order. -/
  answered : (close s).world.answered = s.world.answered ++ (waiting s).map aborted
  posted : (close s).posted = s.posted ++ ((waiting s).map aborted).map .handler
  once : ((close s).world.answered.map fun c => c.receive.id).Nodup
  /-- The buffered items are discarded, each of them once. -/
  handed : ∃ n, (close s).world.handed = s.world.handed ++
    (s.world.mReceiveQueue.mHandlers.take n).map (·, .aborted) ++
    s.world.mReceiveQueue.mData.map (.discard, ·)
  again : close (close s) = close s

/-- No receive waits behind the first `-depth()` consumers, and the size of the supply is an `int`.
-/
def DepthFits (s : MqLoop) : Prop :=
  (∀ c ∈ s.world.mReceiveQueue.mHandlers.drop (-depth s).toNat, c = .discard) ∧
    s.world.mReceiveQueue.mData.length < 2 ^ 31

section
variable {s t u : MqLoop}

/-! ## A series of deliveries -/

def completions (pairs : List (Consumer × Item)) : List Completion :=
  pairs.filterMap fun p => p.1.receive?.map fun r => completion r p.2

/-- From `s` to `t` the pairs are handed out, and the handlers of their receives posted. -/
structure Delivers (s t : MqLoop) (pairs : List (Consumer × Item)) : Prop where
  handed : t.world.handed = s.world.handed ++ pairs
  answered : t.world.answered = s.world.answered ++ completions pairs
  posted : t.posted = s.posted ++ (completions pairs).map .handler

theorem Delivers.refl (s : MqLoop) : Delivers s s [] := ⟨by simp, by simp [completions],
  by simp [completions]⟩

theorem Delivers.trans {pairs pairs' : List (Consumer × Item)} (h : Delivers s t pairs)
    (h' : Delivers t u pairs') : Delivers s u (pairs ++ pairs') := by
  have hcomp : completions (pairs ++ pairs') = completions pairs ++ completions pairs' :=
    List.filterMap_append
  refine ⟨?_, ?_, ?_⟩
  · rw [h'.handed, h.handed, List.append_assoc]
  · rw [h'.answered, h.answered, hcomp, List.append_assoc]
  · rw [h'.posted, h.posted, hcomp, List.map_append, List.append_assoc]

theorem delivers_deliver (q : ProducerConsumerQueue Consumer Item) (c : Consumer) (it : Item)
    (s : MqLoop) : Delivers s (setQueue q (deliver c it s)) [(c, it)] := by
  cases c with
  | receive r => exact ⟨rfl, rfl, rfl⟩
  | discard => exact ⟨rfl, by simp [deliver, setQueue, completions, Consumer.receive?],
      by simp [deliver, setQueue, completions, Consumer.receive?]⟩

theorem completions_aborted (cs : List Consumer) :
    completions (cs.map (·, .aborted)) = (cs.filterMap Consumer.receive?).map aborted := by
  rw [completions, List.filterMap_map, List.map_filterMap]
  rfl

theorem completions_discard (its : List Item) : completions (its.map (.discard, ·)) = [] := by
  rw [completions, List.filterMap_map, List.filterMap_eq_nil_iff]
  exact fun _ _ => rfl

/-! ## The two loops -/

theorem abortDemand_demand {n : ℕ} {cs : List Consumer} (hq : s.world.mReceiveQueue = ⟨cs, []⟩)
    (hdepth : depth s = -n) (hn : n ≤ cs.length) :
    (abortDemand s).world.mReceiveQueue = ⟨cs.drop n, []⟩ ∧
      Delivers s (abortDemand s) ((cs.take n).map (·, .aborted)) := by
  induction n generalizing s cs with
  | zero =>
    rw [abortDemand_eq, if_neg (by omega)]
    exact ⟨hq, Delivers.refl s⟩
  | succ n ih =>
    have hneg : depth s < 0 := by omega
    cases cs with
    | nil => exact absurd hn (by simp)
    | cons c cs =>
      have hone : s.world.mReceiveQueue.OneSided := .inr (by rw [hq])
      rw [abortDemand_eq, if_pos hneg]
      rcases produce_cases hone .aborted with ⟨its, hq', -⟩ | ⟨c', cs', hq', heq⟩
      · rw [hq] at hq'
        cases hq'
      · obtain ⟨rfl, rfl⟩ : c = c' ∧ cs = cs' := by simpa [hq] using hq'
        have hdepth' := depth_produce_eq .aborted hneg
        have hqueue : (produce .aborted s).world.mReceiveQueue = ⟨cs, []⟩ := by rw [heq]; rfl
        have hfirst : Delivers s (produce .aborted s) [(c, .aborted)] := by
          rw [heq]
          exact { delivers_deliver ⟨cs, []⟩ c .aborted _ with }
        obtain ⟨hrest, hdelivers⟩ := ih hqueue (by omega) (by simpa using hn)
        exact ⟨hrest, hfirst.trans hdelivers⟩

theorem discardSupply_supply {its : List Item} (hq : s.world.mReceiveQueue = ⟨[], its⟩)
    (hdepth : depth s = its.length) :
    Delivers s (discardSupply s) (its.map (.discard, ·)) := by
  induction its generalizing s with
  | nil =>
    rw [discardSupply_eq, if_neg (by rw [hdepth]; simp)]
    exact Delivers.refl s
  | cons it its ih =>
    have hpos : 0 < depth s := by
      rw [hdepth, List.length_cons]
      omega
    have hone : s.world.mReceiveQueue.OneSided := .inl (by rw [hq])
    rw [discardSupply_eq, if_pos hpos]
    rcases consume_cases hone .discard with ⟨cs, hq', -⟩ | ⟨it', its', hq', heq⟩
    · rw [hq] at hq'
      cases hq'
    · obtain ⟨rfl, rfl⟩ : it = it' ∧ its = its' := by simpa [hq] using hq'
      have hdepth' := depth_consume_eq .discard hpos
      have hfirst : Delivers s (consume .discard s) [(.discard, it)] := by
        rw [heq]
        exact { delivers_deliver ⟨[], its⟩ .discard it _ with }
      refine hfirst.trans (ih (by rw [heq]; rfl) ?_)
      rw [hdepth', hdepth, List.length_cons]
      omega

/-- Where consumers wait, those of the second loop wait behind them. -/
theorem discardSupply_demand {cs : List Consumer} (hq : s.world.mReceiveQueue = ⟨cs, []⟩) :
    Delivers s (discardSupply s) [] := by
  have hbody (t : MqLoop) (ht : t.world.mReceiveQueue.mData = [] ∧ Delivers s t [])
      (_ : decide (0 < depth t) = true) :
      (consume .discard t).world.mReceiveQueue.mData = [] ∧
        Delivers s (consume .discard t) [] := by
    obtain ⟨hdata, hdelivers⟩ := ht
    rcases consume_cases (.inr hdata) .discard with ⟨cs, -, heq⟩ | ⟨it, its, hq, -⟩
    · rw [heq]
      exact ⟨rfl, { hdelivers with }⟩
    · rw [hq] at hdata
      cases hdata
  exact (whileLoop_invariant hbody imbalance ⟨by rw [hq], Delivers.refl s⟩).2

/-! ## The number of rounds -/

theorem produce_consumers (h : s.world.mReceiveQueue.OneSided) (it : Item) :
    (produce it s).world.consumers = s.world.consumers := by
  rcases produce_cases h it with ⟨its, -, heq⟩ | ⟨c, cs, -, heq⟩
  · rw [heq]
    rfl
  · rw [heq, setQueue, Loop.update_world, deliver_world]
    rfl

theorem consume_consumers (h : s.world.mReceiveQueue.OneSided) (c : Consumer) :
    (consume c s).world.consumers = s.world.consumers ++ [c] := by
  rcases consume_cases h c with ⟨cs, -, heq⟩ | ⟨it, its, -, heq⟩
  · rw [heq]
    rfl
  · rw [heq, setQueue, Loop.update_world, deliver_world]
    rfl

theorem abortDemand_counts (h : Consistent s) (hdepth : depth s ≤ 0) :
    depth (abortDemand s) = 0 ∧
      (abortDemand s).world.items.length = s.world.items.length - depth s ∧
      (abortDemand s).world.consumers.length = s.world.consumers.length := by
  let Inv (t : MqLoop) : Prop := Consistent t ∧ depth t ≤ 0 ∧
    (t.world.items.length : ℤ) - depth t = s.world.items.length - depth s ∧
    t.world.consumers.length = s.world.consumers.length
  have hbody (t : MqLoop) (ht : Inv t) (htest : decide (depth t < 0) = true) :
      Inv (produce .aborted t) := by
    obtain ⟨hcons, -, hitems, hconsumers⟩ := ht
    have hneg := of_decide_eq_true htest
    have hone := hcons.sound.oneSided
    have hdepth' := depth_produce_eq .aborted hneg
    have hlen : (produce .aborted t).world.items.length = t.world.items.length + 1 := by
      rw [(produce_items hone _).1, List.length_append, List.length_singleton]
    refine ⟨hcons.produce rfl, by omega, by omega, ?_⟩
    rw [produce_consumers hone]
    exact hconsumers
  have hend : Inv (abortDemand s) := whileLoop_invariant hbody imbalance ⟨h, hdepth, rfl, rfl⟩
  obtain ⟨-, hle, hitems, hconsumers⟩ := hend
  have hge := depth_abortDemand s
  exact ⟨by omega, by omega, hconsumers⟩

theorem discardSupply_counts (h : Consistent s) (hdepth : 0 ≤ depth s) :
    (discardSupply s).world.consumers.length = s.world.consumers.length + depth s ∧
      (discardSupply s).world.items.length = s.world.items.length := by
  let Inv (t : MqLoop) : Prop := Consistent t ∧
    (t.world.consumers.length : ℤ) + depth t = s.world.consumers.length + depth s ∧
    t.world.items.length = s.world.items.length
  have hbody (t : MqLoop) (ht : Inv t) (htest : decide (0 < depth t) = true) :
      Inv (consume .discard t) := by
    obtain ⟨hcons, hconsumers, hitems⟩ := ht
    have hone := hcons.sound.oneSided
    have hdepth' := depth_consume_eq .discard (of_decide_eq_true htest)
    have hlen : (consume .discard t).world.consumers.length = t.world.consumers.length + 1 := by
      rw [consume_consumers hone, List.length_append, List.length_singleton]
    refine ⟨hcons.consume_discard, by omega, ?_⟩
    rw [(consume_items hone _).1]
    exact hitems
  have hend : Inv (discardSupply s) := whileLoop_invariant hbody imbalance ⟨h, rfl, rfl⟩
  obtain ⟨-, hconsumers, hitems⟩ := hend
  have hzero := depth_discardSupply hdepth
  exact ⟨by omega, hitems⟩

/-- `close()` makes as many items as `depth()` asks for, and as many consumers. -/
theorem close_counts (h : Consistent s) :
    (close s).world.items.length = s.world.items.length + (-depth s).toNat ∧
      (close s).world.consumers.length = s.world.consumers.length + (depth s).toNat := by
  unfold close
  by_cases hpos : 0 < depth s
  · have hskip : abortDemand s = s := by rw [abortDemand_eq, if_neg (by omega)]
    obtain ⟨hconsumers, hitems⟩ := discardSupply_counts h (by omega)
    rw [hskip]
    omega
  · obtain ⟨hzero, hitems, hconsumers⟩ := abortDemand_counts h (by omega)
    have hskip : discardSupply (abortDemand s) = abortDemand s := by
      rw [discardSupply_eq, if_neg (by omega)]
    rw [hskip]
    omega

/-! ## When `close()` drains the queue -/

theorem close_close (s : MqLoop) : close (close s) = close s := by
  have hdepth := depth_close s
  have habort : abortDemand (close s) = close s := by rw [abortDemand_eq, if_neg (by omega)]
  rw [close, habort, discardSupply_eq, if_neg (by omega)]

theorem Drained.of_delivers (h : Consistent s) {n : ℕ}
    (hwait : (s.world.mReceiveQueue.mHandlers.take n).filterMap Consumer.receive? = waiting s)
    (hdelivers : Delivers s (close s)
      ((s.world.mReceiveQueue.mHandlers.take n).map (·, .aborted) ++
        s.world.mReceiveQueue.mData.map (.discard, ·))) : Drained s := by
  have hcomp : completions ((s.world.mReceiveQueue.mHandlers.take n).map (·, .aborted) ++
      s.world.mReceiveQueue.mData.map (.discard, ·)) = (waiting s).map aborted := by
    rw [completions, List.filterMap_append]
    change completions _ ++ completions _ = _
    rw [completions_aborted, completions_discard, hwait, List.append_nil]
  constructor
  case aborts => exact whileLoop_loopsTo imbalance_produce s
  case discards => exact whileLoop_loopsTo imbalance_consume (abortDemand s)
  case balanced => exact depth_close s
  case answered => rw [hdelivers.answered, hcomp]
  case posted => rw [hdelivers.posted, hcomp]
  case once => exact h.close.sound.answered_nodup
  case handed => exact ⟨n, by rw [hdelivers.handed, List.append_assoc]⟩
  case again => exact close_close s

theorem Drained.of_fits (h : Consistent s) (hfits : DepthFits s) : Drained s := by
  obtain ⟨hbehind, hsupply⟩ := hfits
  have hbmod := depth_eq_bmod s.world.mReceiveQueue
  rw [Int.bmod_def] at hbmod
  change depth s = _ at hbmod
  rcases h.sound.oneSided with hnil | hnil
  · -- the supply
    have hq : s.world.mReceiveQueue = ⟨[], s.world.mReceiveQueue.mData⟩ := by rw [← hnil]
    have hdepth : depth s = s.world.mReceiveQueue.mData.length := by
      rw [hnil, List.length_nil] at hbmod
      omega
    have hskip : abortDemand s = s := by rw [abortDemand_eq, if_neg (by omega)]
    refine .of_delivers h (n := 0) (by simp [waiting, hnil]) ?_
    rw [close, hskip]
    exact discardSupply_supply hq hdepth
  · -- the demand
    have hq : s.world.mReceiveQueue = ⟨s.world.mReceiveQueue.mHandlers, []⟩ := by rw [← hnil]
    have hwait : (s.world.mReceiveQueue.mHandlers.take (-depth s).toNat).filterMap
        Consumer.receive? = waiting s := by
      have hrest : (s.world.mReceiveQueue.mHandlers.drop (-depth s).toNat).filterMap
          Consumer.receive? = [] := List.filterMap_eq_nil_iff.mpr fun c hc => by
        rw [hbehind c hc]
        rfl
      rw [waiting, ← List.take_append_drop (-depth s).toNat s.world.mReceiveQueue.mHandlers,
        List.filterMap_append, List.take_append_drop, hrest, List.append_nil]
    have habort : ∃ cs, (abortDemand s).world.mReceiveQueue = ⟨cs, []⟩ ∧ Delivers s (abortDemand s)
        ((s.world.mReceiveQueue.mHandlers.take (-depth s).toNat).map (·, .aborted)) := by
      by_cases hneg : depth s ≤ 0
      · refine ⟨_, abortDemand_demand hq (by omega) ?_⟩
        rw [hnil, List.length_nil] at hbmod
        omega
      · have hzero : (-depth s).toNat = 0 := by omega
        rw [abortDemand_eq, if_neg (by omega), hzero]
        exact ⟨_, hq, Delivers.refl s⟩
    obtain ⟨cs, hcs, hdelivers⟩ := habort
    refine .of_delivers h hwait ?_
    rw [hnil]
    exact hdelivers.trans (discardSupply_demand hcs)

theorem delivers_close (h : Consistent s) : ∃ pairs, Delivers s (close s) pairs := by
  have hproduce (t : MqLoop) (ht : Consistent t ∧ ∃ pairs, Delivers s t pairs)
      (_ : decide (depth t < 0) = true) :
      Consistent (produce .aborted t) ∧ ∃ pairs, Delivers s (produce .aborted t) pairs := by
    obtain ⟨hcons, pairs, hdelivers⟩ := ht
    refine ⟨hcons.produce rfl, ?_⟩
    rcases produce_cases hcons.sound.oneSided .aborted with ⟨its, -, heq⟩ | ⟨c, cs, -, heq⟩
    · rw [heq]
      exact ⟨pairs, { hdelivers with }⟩
    · rw [heq]
      exact ⟨_, hdelivers.trans { delivers_deliver ⟨cs, []⟩ c .aborted _ with }⟩
  have hconsume (t : MqLoop) (ht : Consistent t ∧ ∃ pairs, Delivers s t pairs)
      (_ : decide (0 < depth t) = true) :
      Consistent (consume .discard t) ∧ ∃ pairs, Delivers s (consume .discard t) pairs := by
    obtain ⟨hcons, pairs, hdelivers⟩ := ht
    refine ⟨hcons.consume_discard, ?_⟩
    rcases consume_cases hcons.sound.oneSided .discard with ⟨cs, -, heq⟩ | ⟨it, its, -, heq⟩
    · rw [heq]
      exact ⟨pairs, { hdelivers with }⟩
    · rw [heq]
      exact ⟨_, hdelivers.trans { delivers_deliver ⟨[], its⟩ .discard it _ with }⟩
  have habort : Consistent (abortDemand s) ∧ ∃ pairs, Delivers s (abortDemand s) pairs :=
    whileLoop_invariant hproduce imbalance ⟨h, [], Delivers.refl s⟩
  exact (whileLoop_invariant hconsume imbalance habort).2

theorem Drained.fits (h : Consistent s) (hdrained : Drained s) : DepthFits s := by
  obtain ⟨n, hhanded⟩ := hdrained.handed
  obtain ⟨pairs, hdelivers⟩ := delivers_close h
  have hbmod := depth_eq_bmod s.world.mReceiveQueue
  rw [Int.bmod_def] at hbmod
  change depth s = _ at hbmod
  -- the loops run often enough to hand out these pairs
  obtain ⟨hitems, hconsumers⟩ := close_counts h
  have hsound := h.sound
  have hsound' := h.close.sound
  rw [hsound.items, hsound'.items, hhanded] at hitems
  rw [hsound.consumers, hsound'.consumers, hhanded] at hconsumers
  simp only [List.length_append, List.length_map, List.length_take] at hitems hconsumers
  have hpairs : pairs = (s.world.mReceiveQueue.mHandlers.take n).map (·, .aborted) ++
      s.world.mReceiveQueue.mData.map (.discard, ·) := by
    rw [hdelivers.handed, List.append_assoc] at hhanded
    exact List.append_cancel_left hhanded
  constructor
  · -- and the answers are those of the first `n` consumers
    have hcomp : completions pairs = (waiting s).map aborted :=
      List.append_cancel_left (hdelivers.answered.symm.trans hdrained.answered)
    rw [hpairs, completions, List.filterMap_append] at hcomp
    change completions _ ++ completions _ = _ at hcomp
    rw [completions_aborted, completions_discard, List.append_nil] at hcomp
    have hlen := congrArg List.length hcomp
    rw [List.length_map, List.length_map, waiting,
      ← List.take_append_drop n s.world.mReceiveQueue.mHandlers, List.filterMap_append,
      List.take_append_drop, List.length_append] at hlen
    have hrest : (s.world.mReceiveQueue.mHandlers.drop n).filterMap Consumer.receive? = [] :=
      List.length_eq_zero_iff.mp (by omega)
    intro c hc
    have hcn : c ∈ s.world.mReceiveQueue.mHandlers.drop n := by
      by_cases hle : n ≤ (-depth s).toNat
      · exact (List.drop_subset_drop_left _ hle) hc
      · have hempty : s.world.mReceiveQueue.mHandlers.drop (-depth s).toNat = [] :=
          List.drop_eq_nil_of_le (by omega)
        rw [hempty] at hc
        cases hc
    have hnone := List.filterMap_eq_nil_iff.mp hrest c hcn
    cases c with
    | receive r => cases hnone
    | discard => rfl
  · rcases hsound.oneSided with hnil | hnil
    · rw [hnil, List.length_nil] at hbmod hconsumers
      omega
    · rw [hnil]
      decide

/-- Without consumers left behind by a `close()`, the condition is about the two sizes. -/
theorem depthFits_iff (h : s.world.mReceiveQueue.OneSided)
    (hreceives : ∀ c ∈ s.world.mReceiveQueue.mHandlers, c ≠ .discard) :
    DepthFits s ↔ s.world.mReceiveQueue.mHandlers.length ≤ 2 ^ 31 ∧
      s.world.mReceiveQueue.mData.length < 2 ^ 31 := by
  have hbmod := depth_eq_bmod s.world.mReceiveQueue
  rw [Int.bmod_def] at hbmod
  change depth s = _ at hbmod
  refine and_congr_left fun hsupply => ?_
  have hempty : (∀ c ∈ s.world.mReceiveQueue.mHandlers.drop (-depth s).toNat, c = .discard) ↔
      s.world.mReceiveQueue.mHandlers.length ≤ (-depth s).toNat := by
    rw [← List.drop_eq_nil_iff, List.eq_nil_iff_forall_not_mem]
    constructor
    · exact fun hall c hc => hreceives c (List.mem_of_mem_drop hc) (hall c hc)
    · exact fun hnone c hc => absurd hc (hnone c)
  rw [hempty]
  rcases h with hnil | hnil
  · simp [hnil]
  · rw [hnil, List.length_nil] at hbmod
    omega

/-- `close()` drains the queue exactly when `depth()` tells it how much there is to drain. -/
theorem close_drains_iff {as : List Action} (h : run step init as = some s) :
    Drained s ↔ DepthFits s :=
  ⟨fun hdrained => hdrained.fits (consistent_run h), fun hfits => .of_fits (consistent_run h) hfits⟩

end

theorem close_drains_two :
    ∃ s, run step init [.setConnectionPtr 7, .asyncReceive [0], .asyncReceive [0, 0], .next,
      .next] = some s ∧ Drained s := by
  have hrun : run step init [.setConnectionPtr 7, .asyncReceive [0], .asyncReceive [0, 0], .next,
      .next] = some _ := rfl
  exact ⟨_, hrun, (close_drains_iff hrun).mpr ⟨by decide, by decide⟩⟩

/-! ## A queue that `close()` does not drain -/

/-- `n` receives, each of which waits. -/
def receives (n : ℕ) : List Action :=
  (List.replicate n [Action.asyncReceive [], .next]).flatten

theorem run_receives (n : ℕ) {s : MqLoop} {p : ℕ} {cs : List Consumer} (hp : s.world.mPtr = some p)
    (hec : s.world.transportEc p = none) (hposted : s.posted = [])
    (hq : s.world.mReceiveQueue = ⟨cs, []⟩) (hcs : ∀ c ∈ cs, c ≠ .discard) :
    ∃ t cs', run step s (receives n) = some t ∧ t.world.mReceiveQueue = ⟨cs', []⟩ ∧
      cs'.length = cs.length + n ∧ ∀ c ∈ cs', c ≠ .discard := by
  induction n generalizing s cs with
  | zero => exact ⟨s, cs, rfl, hq, rfl, hcs⟩
  | succ n ih =>
    obtain ⟨⟨mPtr, queue, transportEc, bound, received, arrived, consumers, items, handed,
      answered⟩, posted⟩ := s
    simp only at hp hec hposted hq
    subst hposted hq
    let r : Receive := ⟨received, []⟩
    have hcs' : ∀ c ∈ cs ++ [.receive r], c ≠ .discard := by
      intro c hc
      rcases List.mem_append.mp hc with hc | hc
      · exact hcs c hc
      · cases List.mem_singleton.mp hc
        simp
    obtain ⟨t, cs', hrun, hq, hlen, hall⟩ := ih (s := ⟨⟨mPtr, ⟨cs ++ [.receive r], []⟩, transportEc,
      bound, received + 1, arrived, consumers ++ [.receive r], items, handed, answered⟩, []⟩)
      hp hec rfl rfl hcs'
    refine ⟨t, cs', ?_, hq, ?_, hall⟩
    · have hreceive : step ⟨⟨mPtr, ⟨cs, []⟩, transportEc, bound, received + 1, arrived, consumers,
          items, handed, answered⟩, [.receive r]⟩ .next = some ⟨⟨mPtr, ⟨cs ++ [.receive r], []⟩,
            transportEc, bound, received + 1, arrived, consumers ++ [.receive r], items, handed,
            answered⟩, []⟩ := by
        simp [step, Loop.next, exec, receive, hp, hec, consume, consume_waits, setQueue,
          Loop.update]
      refine run_cons_iff.mpr ⟨_, rfl, run_cons_iff.mpr ⟨_, hreceive, hrun⟩⟩
    · rw [hlen, List.length_append, List.length_singleton]
      omega

theorem run_setConnectionPtr_receives (n : ℕ) :
    ∃ s, run step init (.setConnectionPtr 7 :: receives n) = some s ∧
      s.world.mReceiveQueue.mHandlers.length = n ∧ s.world.mReceiveQueue.mData = [] ∧
      ∀ c ∈ s.world.mReceiveQueue.mHandlers, c ≠ .discard := by
  obtain ⟨t, cs, hrun, hq, hlen, hall⟩ := @run_receives n (setConnectionPtr 7 init) 7 [] rfl rfl rfl
    rfl (by simp)
  refine ⟨t, run_cons_iff.mpr ⟨_, rfl, hrun⟩, ?_, ?_, ?_⟩
  · rw [hq]
    simpa using hlen
  · rw [hq]
  · rw [hq]
    exact hall

/-- With `2 ^ 31 + 1` waiting receives `depth()` is positive, and the loop that aborts does not run.
-/
theorem close_leaves_receives :
    ∃ s, run step init (.setConnectionPtr 7 :: receives (2 ^ 31 + 1)) = some s ∧ ¬ Drained s := by
  obtain ⟨s, hrun, hlen, hdata, hall⟩ := run_setConnectionPtr_receives (2 ^ 31 + 1)
  refine ⟨s, hrun, fun hdrained => ?_⟩
  have hfits := (depthFits_iff (.inr hdata) hall).mp (hdrained.fits (consistent_run hrun))
  rw [hlen] at hfits
  exact absurd hfits.1 (by decide)

end CxxUtil.Ws.MessageQueueImpl
