import Mathlib.Data.List.Chain
import CxxUtil.Queue.Reentrancy
import CxxUtil.Ws.Acceptor

/-! # `mConnectionQueue` and its client

To the queue, the loops of `close()` are client code like the accept handlers: every run of the
acceptor is matched by one of the machine of `CxxUtil.Queue.Reentrancy`, in which a consumer of
`close()` returns at once. -/
namespace CxxUtil.Ws.AcceptorImpl
open Foundations Queue ProducerConsumerQueue Asio
open Queue.Reentrancy (pairs pairs_eq_zero)
set_option autoImplicit false

/-- A call of `close()` is made by client code: next to it on the stack there are calls of `post()`
only. -/
def Nested (fs : List Frame) : Prop := fs.IsChain fun f g => f = .post ∨ g = .post

structure Matches (s : AcceptorLoop) (r : Reentrancy.State Consumer Datum) : Prop where
  nested : Nested s.world.frames
  client : s.world.control = .client → ∀ f ∈ s.world.frames.head?, f = .post
  handlers : r.queue.mHandlers.map Prod.fst = s.world.mConnectionQueue.mHandlers
  data : r.queue.mData.map Prod.fst = s.world.mConnectionQueue.mData
  calls : r.calls.length = s.world.frames.count .post
  control : r.control = .post ↔ s.world.control = .test ∧ s.world.frames.head? = some .post

section
variable {s s' : AcceptorLoop} {r : Reentrancy.State Consumer Datum}

theorem Nested.post {fs : List Frame} (h : Nested fs) : Nested (.post :: fs) :=
  List.isChain_cons.mpr ⟨fun _ _ => .inl rfl, h⟩

theorem Nested.close {fs : List Frame} (h : Nested fs) (hpost : ∀ f ∈ fs.head?, f = .post)
    (f : Frame) : Nested (f :: fs) :=
  List.isChain_cons.mpr ⟨fun g hg => .inr (hpost g hg), h⟩

theorem Nested.tail {f : Frame} {fs : List Frame} (h : Nested (f :: fs)) : Nested fs :=
  (List.isChain_cons.mp h).2

theorem Nested.below {f : Frame} {fs : List Frame} (h : Nested (f :: fs)) (hf : f ≠ .post) :
    ∀ g ∈ fs.head?, g = .post := fun g hg =>
  ((List.isChain_cons.mp h).1 g hg).resolve_left hf

/-- Where an exception is caught, or an ending call returns to, is client code. -/
theorem Nested.unwound {fs : List Frame} (h : Nested fs) :
    Nested (unwound fs) ∧ (∀ f ∈ (AcceptorImpl.unwound fs).head?, f = .post) ∧
      (AcceptorImpl.unwound fs).count .post = fs.count .post := by
  cases fs with
  | nil => exact ⟨h, fun f hf => (by cases hf), rfl⟩
  | cons f fs =>
    cases f with
    | post => exact ⟨h, fun f hf => (Option.some.inj hf).symm, rfl⟩
    | abortDemand => exact ⟨h.tail, h.below (by decide), rfl⟩
    | discardSupply => exact ⟨h.tail, h.below (by decide), rfl⟩

theorem head?_ne_post {fs outer : List Frame} {f : Frame} (h : fs = f :: outer) (hf : f ≠ .post) :
    fs.head? ≠ some .post := by
  rw [h, List.head?_cons]
  exact fun hpost => hf (Option.some.inj hpost)

theorem afterPost_eq_client {fs : List Frame} :
    afterPost fs = .client ↔ ∀ f ∈ fs.head?, f = .post := by
  cases fs with
  | nil => exact ⟨fun _ f hf => (by cases hf), fun _ => rfl⟩
  | cons f fs => cases f <;> simp [afterPost]

theorem Matches.control_client (h : Matches s r)
    (hs : s.world.control = .client ∨ s.world.frames.head? ≠ some .post) :
    r.control = .client := by
  cases hc : r.control with
  | client => rfl
  | post =>
    obtain ⟨htest, hhead⟩ := h.control.mp hc
    rcases hs with hs | hs
    · rw [htest] at hs
      cases hs
    · exact absurd hhead hs

/-! ## One lemma for each thing the acceptor does with its queue -/

theorem Matches.consume (h : Matches s r) (c : Consumer) :
    Matches (consume c s) (r.consume c) where
  nested := h.nested.post
  client := fun hclient => by cases hclient
  handlers := by
    change (r.queue.mHandlers ++ [_]).map Prod.fst = _ ++ [c]
    rw [List.map_append, h.handlers]
    rfl
  data := h.data
  calls := by
    change r.calls.length + 1 = (Frame.post :: s.world.frames).count .post
    rw [List.count_cons_self, h.calls]
  control := ⟨fun _ => ⟨rfl, rfl⟩, fun _ => rfl⟩

theorem Matches.produce (h : Matches s r) (d : Datum) :
    Matches (produce d s) (r.produce d) where
  nested := h.nested.post
  client := fun hclient => by cases hclient
  handlers := h.handlers
  data := by
    change (r.queue.mData ++ [_]).map Prod.fst = _ ++ [d]
    rw [List.map_append, h.data]
    rfl
  calls := by
    change r.calls.length + 1 = (Frame.post :: s.world.frames).count .post
    rw [List.count_cons_self, h.calls]
  control := ⟨fun _ => ⟨rfl, rfl⟩, fun _ => rfl⟩

theorem Matches.calls_cons (h : Matches s r) {outer : List Frame}
    (hframes : s.world.frames = .post :: outer) :
    ∃ n calls, r.calls = n :: calls ∧ calls.length = outer.count .post := by
  have hcalls := h.calls
  rw [hframes, List.count_cons_self] at hcalls
  obtain ⟨n, calls, hr⟩ := List.exists_cons_of_length_eq_add_one hcalls
  rw [hr, List.length_cons] at hcalls
  exact ⟨n, calls, hr, Nat.succ.inj hcalls⟩

theorem Matches.popPair (h : Matches s r) {c : Consumer} {d : Datum}
    {q : ProducerConsumerQueue Consumer Datum}
    (hpop : s.world.mConnectionQueue.popPair = some ((c, d), q)) :
    ∃ p q', r.queue.popPair = some (p, q') ∧ q'.mHandlers.map Prod.fst = q.mHandlers ∧
      q'.mData.map Prod.fst = q.mData := by
  obtain ⟨hhandlers, hdata⟩ := popPair_eq_some.mp hpop
  obtain ⟨c', cs, hr, -, hcs⟩ := List.map_eq_cons_iff.mp (h.handlers.trans hhandlers)
  obtain ⟨d', ds, hr', -, hds⟩ := List.map_eq_cons_iff.mp (h.data.trans hdata)
  exact ⟨(c', d'), ⟨cs, ds⟩, popPair_eq_some.mpr ⟨hr, hr'⟩, hcs, hds⟩

theorem Matches.popPair_none (h : Matches s r)
    (hpop : s.world.mConnectionQueue.popPair = none) : r.queue.popPair = none := by
  rw [popPair_eq_none] at hpop ⊢
  rcases hpop with hpop | hpop
  · exact .inl (List.map_eq_nil_iff.mp (h.handlers.trans hpop))
  · exact .inr (List.map_eq_nil_iff.mp (h.data.trans hpop))

/-- An accept handler is called, and runs; the consumer of `close()` returns. -/
theorem Matches.call (h : Matches s r) {outer : List Frame} {c : Consumer} {d : Datum}
    {q : ProducerConsumerQueue Consumer Datum} (hc : s.world.control = .test)
    (hframes : s.world.frames = .post :: outer)
    (hpop : s.world.mConnectionQueue.popPair = some ((c, d), q)) :
    ∃ as r', run Reentrancy.step r as = some r' ∧
      Matches (s.update fun w => callConsumer c d { w with mConnectionQueue := q }) r' := by
  obtain ⟨n, calls, hr, hlen⟩ := h.calls_cons hframes
  obtain ⟨p, q', hpop', hhandlers, hdata⟩ := h.popPair hpop
  have hpost : r.control = .post := h.control.mpr ⟨hc, by rw [hframes]; rfl⟩
  have hstarts : Reentrancy.step r .post = some
      { r with
        queue := q', started := r.started ++ [p], calls := (n + 1) :: calls
        control := .client } := by
    simp only [Reentrancy.step, hpost, hr, Reentrancy.State.post, hpop']
  have hcount : calls.length + 1 = s.world.frames.count .post := by
    rw [hframes, List.count_cons_self, hlen]
  cases c with
  | accept a =>
    refine ⟨[.post], _, run_cons_iff.mpr ⟨_, hstarts, rfl⟩, ?_⟩
    exact {
      nested := h.nested
      client := fun _ f hf => by
        change f ∈ s.world.frames.head? at hf
        rw [hframes] at hf
        exact (Option.some.inj hf).symm
      handlers := hhandlers
      data := hdata
      calls := hcount
      control := ⟨fun hpost => (by cases hpost), fun hcontrol => by cases hcontrol.1⟩ }
  | discard =>
    refine ⟨[.post, .ret], _, run_cons_iff.mpr ⟨_, hstarts, run_cons_iff.mpr ⟨_, rfl, rfl⟩⟩, ?_⟩
    have hdiscard : Matches (s.update fun w => { w with mConnectionQueue := q }) { r with
        queue := q', started := r.started ++ [p], calls := (n + 1) :: calls, control := .post } :=
      { nested := h.nested
        client := h.client
        handlers := hhandlers
        data := hdata
        calls := hcount
        control := ⟨fun _ => ⟨hc, by rw [Loop.update_world, hframes]; rfl⟩, fun _ => rfl⟩ }
    simp only [callConsumer_discard]
    exact { hdiscard with }

theorem Matches.posted (h : Matches s r) {outer : List Frame} (hc : s.world.control = .test)
    (hframes : s.world.frames = .post :: outer)
    (hpop : s.world.mConnectionQueue.popPair = none) :
    ∃ as r', run Reentrancy.step r as = some r' ∧
      Matches (s.update fun w => { w with frames := outer, control := afterPost outer }) r' := by
  obtain ⟨n, calls, hr, hlen⟩ := h.calls_cons hframes
  have hpost : r.control = .post := h.control.mpr ⟨hc, by rw [hframes]; rfl⟩
  have hends : Reentrancy.step r .post = some { r with calls := calls, control := .client } := by
    simp only [Reentrancy.step, hpost, hr, Reentrancy.State.post, h.popPair_none hpop]
  have hnested := h.nested
  rw [hframes] at hnested
  refine ⟨[.post], _, run_cons_iff.mpr ⟨_, hends, rfl⟩, ?_⟩
  exact {
    nested := hnested.tail
    client := afterPost_eq_client.mp
    handlers := h.handlers
    data := h.data
    calls := hlen
    control := by
      refine ⟨fun hpost => (by cases hpost), fun hcontrol => ?_⟩
      obtain ⟨htest, hhead⟩ := hcontrol
      change afterPost outer = .test at htest
      have hclient : afterPost outer = .client :=
        afterPost_eq_client.mpr fun f hf => (Option.some.inj (hhead.symm.trans hf)).symm
      rw [htest] at hclient
      cases hclient }

theorem Matches.connectionEvent (h : Matches s r) (con : ℕ) (opened : Bool) (got : ErrorCode) :
    Matches (connectionEvent con opened got s) r := by
  rw [connectionEvent_eq]
  exact { h with }

/-! ## One lemma for each change of the stack -/

theorem Matches.close (h : Matches s r) (hc : s.world.control = .client) :
    Matches (close s) r where
  nested := h.nested.close (h.client hc) .abortDemand
  client := fun hclient => by cases hclient
  handlers := h.handlers
  data := h.data
  calls := h.calls
  control := by
    rw [h.control_client (.inl hc)]
    exact ⟨fun hpost => (by cases hpost), fun hcontrol => by cases hcontrol.2⟩

theorem Matches.aborted (h : Matches s r) {outer : List Frame} (hc : s.world.control = .test)
    (hframes : s.world.frames = .abortDemand :: outer) :
    Matches (s.update fun w => { w with frames := .discardSupply :: outer }) r := by
  have hnested := h.nested
  rw [hframes] at hnested
  exact {
    nested := hnested.tail.close (hnested.below (by decide)) .discardSupply
    client := fun hclient => by
      rw [Loop.update_world, hc] at hclient
      cases hclient
    handlers := h.handlers
    data := h.data
    calls := by rw [h.calls, hframes]; rfl
    control := by
      rw [h.control_client (.inr (head?_ne_post hframes (by decide)))]
      exact ⟨fun hpost => (by cases hpost), fun hcontrol => by cases hcontrol.2⟩ }

theorem Matches.closed (h : Matches s r) {outer : List Frame}
    (hframes : s.world.frames = .discardSupply :: outer) :
    Matches (s.update fun w => { w with frames := outer, control := .client }) r := by
  have hnested := h.nested
  rw [hframes] at hnested
  exact {
    nested := hnested.tail
    client := fun _ => hnested.below (by decide)
    handlers := h.handlers
    data := h.data
    calls := by rw [h.calls, hframes]; rfl
    control := by
      rw [h.control_client (.inr (head?_ne_post hframes (by decide)))]
      exact ⟨fun hpost => (by cases hpost), fun hcontrol => by cases hcontrol.1⟩ }

theorem Matches.ret (h : Matches s r) (hc : s.world.control = .client) {f : Frame}
    {outer : List Frame} (hframes : s.world.frames = f :: outer) :
    ∃ as r', run Reentrancy.step r as = some r' ∧
      Matches (s.update fun w => { w with control := .test }) r' := by
  obtain rfl : f = .post := h.client hc f (by rw [hframes]; rfl)
  obtain ⟨n, calls, hr, -⟩ := h.calls_cons hframes
  have hret : Reentrancy.step r .ret = some { r with control := .post } := by
    simp only [Reentrancy.step, h.control_client (.inl hc), hr]
  refine ⟨[.ret], _, run_cons_iff.mpr ⟨_, hret, rfl⟩, ?_⟩
  exact { h with
    client := fun hclient => by cases hclient
    control := ⟨fun _ => ⟨rfl, by rw [Loop.update_world, hframes]; rfl⟩, fun _ => rfl⟩ }

theorem Matches.throw (h : Matches s r) (hc : s.world.control = .client) {f : Frame}
    {outer : List Frame} (hframes : s.world.frames = f :: outer) :
    ∃ as r', run Reentrancy.step r as = some r' ∧
      Matches (s.update fun w => { w with frames := unwound outer }) r' := by
  obtain rfl : f = .post := h.client hc f (by rw [hframes]; rfl)
  obtain ⟨n, calls, hr, hlen⟩ := h.calls_cons hframes
  have hclient := h.control_client (.inl hc)
  have hthrow : Reentrancy.step r .throw = some { r with calls := calls } := by
    simp only [Reentrancy.step, hclient, hr]
  have hnested := h.nested
  rw [hframes] at hnested
  obtain ⟨hnested', hpost, hcount⟩ := hnested.tail.unwound
  refine ⟨[.throw], _, run_cons_iff.mpr ⟨_, hthrow, rfl⟩, ?_⟩
  exact { h with
    nested := hnested'
    client := fun _ => hpost
    calls := by
      change calls.length = (unwound outer).count .post
      rw [hlen, hcount]
    control := by
      rw [hclient]
      refine ⟨fun hpost => (by cases hpost), fun hcontrol => ?_⟩
      rw [Loop.update_world, hc] at hcontrol
      cases hcontrol.1 }

/-! ## Every run -/

theorem matches_step (s : AcceptorLoop) (act : Action) (t : AcceptorLoop)
    (r : Reentrancy.State Consumer Datum) (h : Matches s r) (hs : step s act = some t) :
    ∃ as r', run Reentrancy.step r as = some r' ∧ Matches t r' := by
  have hconsume (c : Consumer)
      (hloop : s.world.control = .client ∨ s.world.frames.head? ≠ some .post) :
      run Reentrancy.step r [.consume c] = some (r.consume c) := by
    simp only [run, Reentrancy.step, h.control_client hloop, if_true, Option.bind_some]
  have hproduce (d : Datum)
      (hloop : s.world.control = .client ∨ s.world.frames.head? ≠ some .post) :
      run Reentrancy.step r [.produce d] = some (r.produce d) := by
    simp only [run, Reentrancy.step, h.control_client hloop, if_true, Option.bind_some]
  cases step_effect hs with
  | asyncAccept mq hc =>
    have hcounted : Matches (s.update fun w => { w with accepts := w.accepts + 1 }) r := { h with }
    exact ⟨_, _, hconsume _ (.inl hc), hcounted.consume _⟩
  | close hc => exact ⟨[], r, rfl, h.close hc⟩
  | openEvent con got hc hcon => exact ⟨[], r, rfl, h.connectionEvent con true got⟩
  | failEvent con got hc hcon => exact ⟨[], r, rfl, h.connectionEvent con false got⟩
  | transport con ec hc => exact ⟨[], r, rfl, { h with }⟩
  | next e es hc hposted =>
    have hcleared : Matches ⟨{ s.world with cleared := e.con :: s.world.cleared }, es⟩ r :=
      { h with }
    exact ⟨_, _, hproduce _ (.inl hc), hcleared.produce _⟩
  | call outer c d q hc hframes hpop => exact h.call hc hframes hpop
  | posted outer hc hframes hpop => exact h.posted hc hframes hpop
  | abort outer hc hframes hdepth =>
    exact ⟨_, _, hproduce .aborted (.inr (head?_ne_post hframes (by decide))), h.produce _⟩
  | aborted outer hc hframes hdepth => exact ⟨[], r, rfl, h.aborted hc hframes⟩
  | discard outer hc hframes hdepth =>
    exact ⟨_, _, hconsume .discard (.inr (head?_ne_post hframes (by decide))), h.consume _⟩
  | closed outer hc hframes hdepth => exact ⟨[], r, rfl, h.closed hframes⟩
  | ret f outer hc hframes => exact h.ret hc hframes
  | throw f outer hc hframes => exact h.throw hc hframes

theorem matches_init : Matches init .init where
  nested := List.isChain_nil
  client := fun _ f hf => by cases hf
  handlers := rfl
  data := rfl
  calls := rfl
  control := ⟨fun hpost => (by cases hpost), fun hcontrol => by cases hcontrol.1⟩

theorem matches_run {as : List Action} (h : run step init as = some s) :
    ∃ as' r, run Reentrancy.step .init as' = some r ∧ Matches s r :=
  run_simulates matches_step matches_init h

/-- Wherever client code runs or `close()` is at a loop test, demand and supply have met. -/
theorem oneSided_run {as : List Action} (h : run step init as = some s)
    (hloop : s.world.control = .client ∨ s.world.frames.head? ≠ some .post) :
    s.world.mConnectionQueue.OneSided := by
  obtain ⟨as', r, hr, hmatches⟩ := matches_run h
  have hpairs := ((Reentrancy.matched_run hr).client (hmatches.control_client hloop)).1
  rw [← popPair_eq_none]
  rcases pairs_eq_zero.mp hpairs with hnil | hnil
  · have hhandlers := hmatches.handlers
    rw [hnil] at hhandlers
    exact popPair_eq_none.mpr (.inl hhandlers.symm)
  · have hdata := hmatches.data
    rw [hnil] at hdata
    exact popPair_eq_none.mpr (.inr hdata.symm)

/-! ## The accepts -/

def Consumer.accept? : Consumer → Option Accept
  | accept a => some a
  | discard => none

def waiting (s : AcceptorLoop) : List Accept :=
  s.world.mConnectionQueue.mHandlers.filterMap Consumer.accept?

/-- The accepts made so far: those whose handler has been called, and those that wait. -/
def accepted (s : AcceptorLoop) : List Accept :=
  s.world.answered.map Answer.accept ++ waiting s

def made (s : AcceptorLoop) : Action → List Accept
  | .asyncAccept mq => [⟨s.world.accepts, mq⟩]
  | _ => []

theorem waiting_consume (c : Consumer) (s : AcceptorLoop) :
    waiting (consume c s) = waiting s ++ c.accept?.toList := by
  change (_ ++ [c]).filterMap Consumer.accept? = _
  rw [List.filterMap_append]
  cases c <;> rfl

theorem accepted_consume (c : Consumer) (s : AcceptorLoop) :
    accepted (consume c s) = accepted s ++ c.accept?.toList := by
  rw [accepted, waiting_consume, ← List.append_assoc]
  rfl

theorem accepted_call {c : Consumer} {d : Datum} {q : ProducerConsumerQueue Consumer Datum}
    (hpop : s.world.mConnectionQueue.popPair = some ((c, d), q)) :
    accepted (s.update fun w => callConsumer c d { w with mConnectionQueue := q }) =
      accepted s := by
  have hhandlers : s.world.mConnectionQueue.mHandlers = c :: q.mHandlers :=
    (popPair_eq_some.mp hpop).1
  unfold accepted waiting
  rw [hhandlers]
  cases c with
  | accept a =>
    change (s.world.answered ++ [_]).map Answer.accept ++ q.mHandlers.filterMap _ =
      _ ++ a :: q.mHandlers.filterMap _
    rw [List.map_append, List.append_assoc]
    rfl
  | discard =>
    simp only [callConsumer_discard]
    rfl

/-- The accepts stay in the order in which they were made. -/
theorem accepted_step {act : Action} (hs : step s act = some s') :
    accepted s' = accepted s ++ made s act ∧
      s'.world.accepts = s.world.accepts + (made s act).length := by
  have hsame : accepted s = accepted s ++ [] := (List.append_nil _).symm
  cases step_effect hs with
  | asyncAccept mq hc => exact ⟨accepted_consume _ _, rfl⟩
  | openEvent con got hc hcon =>
    rw [connectionEvent_eq]
    exact ⟨hsame, rfl⟩
  | failEvent con got hc hcon =>
    rw [connectionEvent_eq]
    exact ⟨hsame, rfl⟩
  | call outer c d q hc hframes hpop =>
    refine ⟨(accepted_call hpop).trans hsame, ?_⟩
    cases c with
    | accept a => rfl
    | discard =>
      simp only [callConsumer_discard]
      rfl
  | discard outer hc hframes hdepth => exact ⟨accepted_consume .discard s, rfl⟩
  | close | transport | next | posted | abort | aborted | closed | ret | throw =>
    exact ⟨hsame, rfl⟩

theorem accepted_ids {as : List Action} (h : run step init as = some s) :
    (accepted s).map Accept.id = List.range s.world.accepts := by
  have hstep (t : AcceptorLoop) (act : Action) (t' : AcceptorLoop)
      (hids : (accepted t).map Accept.id = List.range t.world.accepts)
      (hs : step t act = some t') :
      (accepted t').map Accept.id = List.range t'.world.accepts := by
    obtain ⟨haccepted, haccepts⟩ := accepted_step hs
    rw [haccepted, haccepts, List.map_append, hids]
    cases act with
    | asyncAccept mq => exact List.range_succ.symm
    | close | openEvent | failEvent | transport | next | resume | ret | throw =>
      exact List.append_nil _
  have hinit : (accepted init).map Accept.id = List.range init.world.accepts := rfl
  exact run_invariant hstep hinit h

theorem accepted_nodup {as : List Action} (h : run step init as = some s) : (accepted s).Nodup :=
  List.Nodup.of_map Accept.id (by rw [accepted_ids h]; exact List.nodup_range)

end
end CxxUtil.Ws.AcceptorImpl
