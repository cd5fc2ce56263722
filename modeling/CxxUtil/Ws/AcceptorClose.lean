import CxxUtil.Ws.AcceptorSteps

/-! # What `close()` ends

The handlers that `close()` runs may call `asyncAccept` again, which puts back what the loop has
just taken. A run inside `close()` is as long as the calls made in it allow, and with endless calls
it has no end. -/
namespace CxxUtil.Ws.AcceptorImpl
open Foundations Queue ProducerConsumerQueue Asio
set_option autoImplicit false

/-- The call of `close()` made in `s` has not returned in `u`. -/
def Inside (s u : AcceptorLoop) : Prop := s.world.frames.length < u.world.frames.length

/-- The `close()` called in `s` sees the sizes that it tests, and no exception leaves it. -/
def Contained (s u : AcceptorLoop) : Action → Prop
  | .resume => u.world.frames.head? ≠ some .post → SizesFit u.world.mConnectionQueue
  | .throw => s.world.frames.length + 2 < u.world.frames.length
  | _ => True

/-- And no function of `handleOpen` runs while an accept from before the call waits. -/
def Orderly (s u : AcceptorLoop) (act : Action) : Prop :=
  Contained s u act ∧ (act = .next → ∀ a ∈ waiting s, a ∉ waiting u)

instance (s u : AcceptorLoop) : Decidable (Inside s u) := inferInstanceAs (Decidable (_ < _))

instance (s u : AcceptorLoop) : ∀ act, Decidable (Contained s u act)
  | .resume => inferInstanceAs (Decidable (_ → _))
  | .throw => inferInstanceAs (Decidable (_ < _))
  | .asyncAccept _ | .close | .openEvent .. | .failEvent .. | .transport .. | .next | .ret =>
    .isTrue trivial

instance (s u : AcceptorLoop) (act : Action) : Decidable (Orderly s u act) :=
  inferInstanceAs (Decidable (_ ∧ (_ → ∀ a ∈ _, a ∉ _)))

/-- The queued connections. A datum with a code is an error message. -/
def connections (s : AcceptorLoop) : List ConEvent :=
  s.world.mConnectionQueue.mData.flatMap Datum.discarded

/-- What is to be said of the `close()` called in `s` when it has returned in `t`. -/
structure Emptied (s t : AcceptorLoop) : Prop where
  frames : t.world.frames = s.world.frames
  queue : t.world.mConnectionQueue = .empty
  balanced : depth t = 0
  /-- The handler of a waiting accept is called, and only once. -/
  aborted : ∀ a ∈ waiting s, ⟨a, .aborted, some .operationAborted, none⟩ ∈ t.world.answered ∧
    (t.world.answered.map Answer.accept).count a = 1
  closed : s.world.closed ++ connections s <+: t.world.closed

section
variable {s t u u' : AcceptorLoop}

/-! ## The waiting accepts -/

/-- While an accept from before the call waits, the queue holds aborts only. -/
structure Aborts (s u : AcceptorLoop) : Prop where
  data : (∃ a ∈ waiting s, a ∈ waiting u) → ∀ d ∈ u.world.mConnectionQueue.mData, d = .aborted
  answered : ∀ x ∈ u.world.answered, x.accept ∈ waiting s →
    x = ⟨x.accept, .aborted, some .operationAborted, none⟩

theorem Aborts.call (h : Aborts s u) {c : Consumer} {d : Datum}
    {q : ProducerConsumerQueue Consumer Datum}
    (hpop : u.world.mConnectionQueue.popPair = some ((c, d), q)) :
    Aborts s (u.update fun w => callConsumer c d { w with mConnectionQueue := q }) := by
  obtain ⟨hhandlers, hdata⟩ := popPair_eq_some.mp hpop
  have hwaiting : waiting u = c.accept?.toList ++ q.mHandlers.filterMap Consumer.accept? := by
    rw [waiting, hhandlers, List.filterMap_cons]
    cases c <;> rfl
  have hq (hold : ∃ a ∈ waiting s, a ∈ q.mHandlers.filterMap Consumer.accept?) :
      ∀ d ∈ q.mData, d = .aborted := by
    obtain ⟨a, hs, ha⟩ := hold
    intro d' hd'
    refine h.data ⟨a, hs, ?_⟩ d' (hdata ▸ List.mem_cons_of_mem _ hd')
    rw [hwaiting]
    exact List.mem_append_right _ ha
  cases c with
  | accept a =>
    refine ⟨hq, fun x hx hold => ?_⟩
    rcases List.mem_append.mp hx with hx | hx
    · exact h.answered x hx hold
    · -- the handler called now is given the oldest datum, an abort
      obtain rfl := List.mem_singleton.mp hx
      have hd : d = .aborted :=
        h.data ⟨a, hold, by rw [hwaiting]; exact List.mem_cons_self⟩ d
          (hdata ▸ List.mem_cons_self)
      rw [hd]
      rfl
  | discard =>
    simp only [callConsumer_discard]
    exact ⟨hq, h.answered⟩

theorem aborts_step {act : Action} (h : Aborts s u)
    (hfresh : ∀ a ∈ waiting s, a.id < u.world.accepts)
    (hnext : act = .next → ∀ a ∈ waiting s, a ∉ waiting u) (hs : step u act = some u') :
    Aborts s u' := by
  have hconsume (c : Consumer) (v : AcceptorLoop) (hv : Aborts s v)
      (hc : ∀ a ∈ c.accept?, a ∉ waiting s) : Aborts s (consume c v) := by
    refine ⟨fun ⟨a, hold, ha⟩ => hv.data ⟨a, hold, ?_⟩, hv.answered⟩
    rw [waiting_consume] at ha
    rcases List.mem_append.mp ha with ha | ha
    · exact ha
    · exact absurd hold (hc a (Option.mem_toList.mp ha))
  cases step_effect hs with
  | asyncAccept mq hc =>
    refine hconsume _ _ ⟨h.data, h.answered⟩ fun a ha hold => ?_
    obtain rfl := Option.some.inj ha
    exact Nat.lt_irrefl _ (hfresh _ hold)
  | openEvent con got hc hcon =>
    rw [connectionEvent_eq]
    exact ⟨h.data, h.answered⟩
  | failEvent con got hc hcon =>
    rw [connectionEvent_eq]
    exact ⟨h.data, h.answered⟩
  | next e es hc hposted =>
    exact ⟨fun ⟨a, hold, ha⟩ => absurd ha (hnext rfl a hold), h.answered⟩
  | call outer c d q hc hframes hpop => exact h.call hpop
  | abort outer hc hframes hdepth =>
    refine ⟨fun hold d hd => ?_, h.answered⟩
    rcases List.mem_append.mp hd with hd | hd
    · exact h.data hold d hd
    · exact List.mem_singleton.mp hd
  | discard outer hc hframes hdepth => exact hconsume .discard u h nofun
  | close | transport | posted | aborted | closed | ret | throw => exact ⟨h.data, h.answered⟩

/-! ## The stack -/

/-- How far the call of `close()` made in `s` has come. Only in the first loop is client code run,
and nested calls of `close()` are part of what it does. -/
inductive Phase (s u : AcceptorLoop) : Prop
  | called (h : u = close s)
  | demand (inner : List Frame) (hframes : u.world.frames = inner ++ .abortDemand :: s.world.frames)
      (hnone : connections s = []) (hclosed : s.world.closed <+: u.world.closed)
  | supply (hframes : u.world.frames = .discardSupply :: s.world.frames)
      (hc : u.world.control = .test) (hhandlers : u.world.mConnectionQueue.mHandlers = [])
      (hclosed : s.world.closed ++ connections s <+: u.world.closed ++ connections u)
  | discarding (hframes : u.world.frames = .post :: .discardSupply :: s.world.frames)
      (hc : u.world.control = .test)
      (hhandlers : u.world.mConnectionQueue.mHandlers = [] ∨
        u.world.mConnectionQueue.mHandlers = [.discard] ∧ u.world.mConnectionQueue.mData ≠ [])
      (hclosed : s.world.closed ++ connections s <+: u.world.closed ++ connections u)
  | returned (hframes : u.world.frames = s.world.frames)
      (hqueue : u.world.mConnectionQueue = .empty)
      (hclosed : s.world.closed ++ connections s <+: u.world.closed)

theorem closed_step {act : Action} (hs : step u act = some u') :
    u.world.closed <+: u'.world.closed := by
  cases step_effect hs with
  | openEvent con got hc hcon =>
    refine ⟨[], ?_⟩
    rw [connectionEvent_eq, List.append_nil]
  | failEvent con got hc hcon =>
    refine ⟨[], ?_⟩
    rw [connectionEvent_eq, List.append_nil]
  | call outer c d q hc hframes hpop =>
    cases c with
    | accept a => exact List.prefix_refl _
    | discard =>
      simp only [callConsumer_discard]
      exact List.prefix_append _ _
  | asyncAccept | close | transport | next | posted | abort | aborted | discard | closed | ret |
    throw => exact List.prefix_refl _

theorem resume_of_test {act : Action} (hc : u.world.control = .test) (hs : step u act = some u') :
    act = .resume ∧ resume u = some u' := by
  simpa only [step, hc, Option.ite_none_right_eq_some] using hs

theorem connections_of_nil (h : u.world.mConnectionQueue.mData = []) : connections u = [] := by
  rw [connections, h]
  rfl

/-- The first loop has ended: what is left is supply. -/
theorem Phase.aborted (hone : u.world.mConnectionQueue.OneSided)
    (hfits : SizesFit u.world.mConnectionQueue) (hdepth : ¬ depth u < 0)
    (hc : u.world.control = .test)
    (hclosed : s.world.closed ++ connections s <+: u.world.closed ++ connections u) :
    Phase s (u.update fun w => { w with frames := .discardSupply :: s.world.frames }) := by
  have hsub := depth_eq_of_fits hfits
  have hhandlers : u.world.mConnectionQueue.mHandlers = [] := by
    rcases hone with hnil | hnil
    · exact hnil
    · rw [hnil, List.length_nil] at hsub
      exact List.eq_nil_of_length_eq_zero (by omega)
  exact .supply rfl hc hhandlers hclosed

theorem Phase.of_called {act : Action} (hone : s.world.mConnectionQueue.OneSided)
    (hfits : SizesFit s.world.mConnectionQueue) (hs : step (close s) act = some u') :
    Phase s u' := by
  obtain ⟨-, hs⟩ := resume_of_test rfl hs
  obtain rfl := Option.some.inj hs
  unfold runAbortDemand
  by_cases hdepth : depth (close s) < 0
  · rw [if_pos hdepth]
    have hsub := depth_eq_of_fits (u := close s) hfits
    have hnil : s.world.mConnectionQueue.mData = [] := by
      rcases hone with hnil | hnil
      · have hnil' : (close s).world.mConnectionQueue.mHandlers = [] := hnil
        rw [hnil', List.length_nil] at hsub
        omega
      · exact hnil
    exact .demand [.post] rfl (connections_of_nil hnil) (List.prefix_refl _)
  · rw [if_neg hdepth]
    exact Phase.aborted (u := close s) hone hfits hdepth rfl (List.prefix_refl _)

/-- The stack above the first loop. -/
theorem demand_cons {f : Frame} {inner outer fs : List Frame}
    (h : f :: outer = inner ++ .abortDemand :: fs) :
    inner = [] ∧ f = .abortDemand ∧ outer = fs ∨
      ∃ inner', inner = f :: inner' ∧ outer = inner' ++ .abortDemand :: fs := by
  rcases List.append_eq_cons_iff.mp h.symm with ⟨hinner, hfs⟩ | ⟨inner', hinner, houter⟩
  · obtain ⟨rfl, rfl⟩ := List.cons.inj hfs
    exact .inl ⟨hinner, rfl, rfl⟩
  · exact .inr ⟨inner', hinner, houter⟩

theorem unwound_demand {inner fs : List Frame} (h : inner ≠ []) :
    ∃ inner', unwound (inner ++ .abortDemand :: fs) = inner' ++ .abortDemand :: fs := by
  cases inner with
  | nil => exact absurd rfl h
  | cons f inner =>
    cases f with
    | post => exact ⟨.post :: inner, rfl⟩
    | abortDemand => exact ⟨inner, rfl⟩
    | discardSupply => exact ⟨inner, rfl⟩

theorem Phase.of_demand {act : Action} {inner : List Frame}
    (hframes : u.world.frames = inner ++ .abortDemand :: s.world.frames)
    (hnone : connections s = []) (hclosed : s.world.closed <+: u.world.closed)
    (hclient : u.world.control = .client → ∀ f ∈ u.world.frames.head?, f = .post)
    (hone : u.world.frames.head? ≠ some .post → u.world.mConnectionQueue.OneSided)
    (hcontained : Contained s u act) (hs : step u act = some u') : Phase s u' := by
  have hclosed' := hclosed.trans (closed_step hs)
  cases step_effect hs with
  | asyncAccept mq hc =>
    exact .demand (.post :: inner) (congrArg (Frame.post :: ·) hframes) hnone hclosed'
  | close hc =>
    exact .demand (.abortDemand :: inner) (congrArg (Frame.abortDemand :: ·) hframes) hnone hclosed'
  | openEvent con got hc hcon =>
    rw [connectionEvent_eq] at hclosed' ⊢
    exact .demand inner hframes hnone hclosed'
  | failEvent con got hc hcon =>
    rw [connectionEvent_eq] at hclosed' ⊢
    exact .demand inner hframes hnone hclosed'
  | transport con ec hc => exact .demand inner hframes hnone hclosed'
  | next e es hc hposted =>
    exact .demand (.post :: inner) (congrArg (Frame.post :: ·) hframes) hnone hclosed'
  | call outer c d q hc hfs hpop =>
    cases c with
    | accept a => exact .demand inner hframes hnone hclosed'
    | discard =>
      simp only [callConsumer_discard] at hclosed' ⊢
      exact .demand inner hframes hnone hclosed'
  | posted outer hc hfs hpop =>
    rcases demand_cons (hfs.symm.trans hframes) with ⟨-, hf, -⟩ | ⟨inner', -, houter⟩
    · cases hf
    · exact .demand inner' houter hnone hclosed'
  | abort outer hc hfs hdepth =>
    exact .demand (.post :: inner) (congrArg (Frame.post :: ·) hframes) hnone hclosed'
  | aborted outer hc hfs hdepth =>
    rcases demand_cons (hfs.symm.trans hframes) with ⟨-, -, rfl⟩ | ⟨inner', -, houter⟩
    · have hloop : u.world.frames.head? ≠ some .post := head?_ne_post hfs (by decide)
      refine Phase.aborted (hone hloop) (hcontained hloop) hdepth hc ?_
      rw [hnone, List.append_nil]
      exact hclosed.trans (List.prefix_append _ _)
    · exact .demand (.discardSupply :: inner') (congrArg (Frame.discardSupply :: ·) houter) hnone
        hclosed'
  | discard outer hc hfs hdepth =>
    exact .demand (.post :: inner) (congrArg (Frame.post :: ·) hframes) hnone hclosed'
  | closed outer hc hfs hdepth =>
    rcases demand_cons (hfs.symm.trans hframes) with ⟨-, hf, -⟩ | ⟨inner', -, houter⟩
    · cases hf
    · exact .demand inner' houter hnone hclosed'
  | ret f outer hc hfs => exact .demand inner hframes hnone hclosed'
  | throw f outer hc hfs =>
    have hlen : s.world.frames.length + 2 < u.world.frames.length := hcontained
    rw [hframes, List.length_append, List.length_cons] at hlen
    obtain rfl : f = .post := hclient hc f (by rw [hfs]; rfl)
    rcases demand_cons (hfs.symm.trans hframes) with ⟨-, hf, -⟩ | ⟨inner', hinner, houter⟩
    · cases hf
    · have hne : inner' ≠ [] := by
        rintro rfl
        rw [hinner, List.length_singleton] at hlen
        omega
      obtain ⟨inner'', hunwound⟩ := @unwound_demand inner' s.world.frames hne
      exact .demand inner'' (by rw [← hunwound, ← houter]; rfl) hnone hclosed'

theorem Phase.of_supply {act : Action}
    (hframes : u.world.frames = .discardSupply :: s.world.frames) (hc : u.world.control = .test)
    (hhandlers : u.world.mConnectionQueue.mHandlers = [])
    (hclosed : s.world.closed ++ connections s <+: u.world.closed ++ connections u)
    (hfits : SizesFit u.world.mConnectionQueue) (hs : step u act = some u') : Phase s u' := by
  have hsub := depth_eq_of_fits hfits
  rw [hhandlers, List.length_nil] at hsub
  obtain ⟨-, hs⟩ := resume_of_test hc hs
  rw [resume, hframes] at hs
  obtain rfl := Option.some.inj hs
  unfold runDiscardSupply
  by_cases hdepth : 0 < depth u
  · rw [if_pos hdepth]
    have hdata : u.world.mConnectionQueue.mData ≠ [] := by
      intro hnil
      rw [hnil, List.length_nil] at hsub
      omega
    have hhandlers' : (consume .discard u).world.mConnectionQueue.mHandlers = [.discard] := by
      change u.world.mConnectionQueue.mHandlers ++ [.discard] = _
      rw [hhandlers]
      rfl
    exact .discarding (congrArg (Frame.post :: ·) hframes) rfl (.inr ⟨hhandlers', hdata⟩) hclosed
  · rw [if_neg hdepth]
    have hnil : u.world.mConnectionQueue.mData = [] := List.eq_nil_of_length_eq_zero (by omega)
    have hqueue : u.world.mConnectionQueue = ⟨[], []⟩ := by rw [← hhandlers, ← hnil]
    rw [connections_of_nil hnil, List.append_nil] at hclosed
    exact .returned rfl hqueue hclosed

/-- A discarded connection is closed. -/
theorem connections_discard {d : Datum} {q : ProducerConsumerQueue Consumer Datum}
    (hpop : u.world.mConnectionQueue.popPair = some ((.discard, d), q)) :
    u.world.closed ++ d.discarded ++ q.mData.flatMap Datum.discarded =
      u.world.closed ++ connections u := by
  have hdata : u.world.mConnectionQueue.mData = d :: q.mData := (popPair_eq_some.mp hpop).2
  rw [connections, hdata, List.flatMap_cons, List.append_assoc]

theorem Phase.of_discarding {act : Action}
    (hframes : u.world.frames = .post :: .discardSupply :: s.world.frames)
    (hc : u.world.control = .test)
    (hhandlers : u.world.mConnectionQueue.mHandlers = [] ∨
      u.world.mConnectionQueue.mHandlers = [.discard] ∧ u.world.mConnectionQueue.mData ≠ [])
    (hclosed : s.world.closed ++ connections s <+: u.world.closed ++ connections u)
    (hs : step u act = some u') : Phase s u' := by
  obtain ⟨-, hs⟩ := resume_of_test hc hs
  rw [resume, hframes] at hs
  obtain rfl := Option.some.inj hs
  unfold runPost
  cases hpop : u.world.mConnectionQueue.popPair with
  | none =>
    have hnil : u.world.mConnectionQueue.mHandlers = [] := by
      rcases hhandlers with hnil | ⟨hone, hdata⟩
      · exact hnil
      · rcases popPair_eq_none.mp hpop with hnil | hnil
        · exact hnil
        · exact absurd hnil hdata
    exact .supply rfl rfl hnil hclosed
  | some pq =>
    obtain ⟨⟨c, d⟩, q⟩ := pq
    have hpopped : u.world.mConnectionQueue.mHandlers = c :: q.mHandlers :=
      (popPair_eq_some.mp hpop).1
    rcases hhandlers with hnil | ⟨hone, -⟩
    · rw [hnil] at hpopped
      cases hpopped
    · obtain ⟨rfl, hnil⟩ := List.cons.inj (hpopped.symm.trans hone)
      rw [← connections_discard hpop] at hclosed
      simp only [callConsumer_discard]
      exact .discarding hframes hc (.inl hnil) hclosed

theorem Phase.step {act : Action} (h : Phase s u) {as : List Action}
    (hu : run AcceptorImpl.step init as = some u)
    (hone : s.world.mConnectionQueue.OneSided) (hin : Inside s u) (hcontained : Contained s u act)
    (hs : AcceptorImpl.step u act = some u') : Phase s u' := by
  cases h with
  | called hu =>
    subst hu
    obtain ⟨rfl, -⟩ := resume_of_test rfl hs
    exact .of_called hone (hcontained (by nofun)) hs
  | demand inner hframes hnone hclosed =>
    obtain ⟨-, r, -, hmatches⟩ := matches_run hu
    exact .of_demand hframes hnone hclosed hmatches.client
      (fun hloop => oneSided_run hu (.inr hloop)) hcontained hs
  | supply hframes hc hhandlers hclosed =>
    obtain ⟨rfl, -⟩ := resume_of_test hc hs
    have hloop : u.world.frames.head? ≠ some .post := head?_ne_post hframes (by decide)
    exact .of_supply hframes hc hhandlers hclosed (hcontained hloop) hs
  | discarding hframes hc hhandlers hclosed =>
    exact .of_discarding hframes hc hhandlers hclosed hs
  | returned hframes hqueue hclosed =>
    rw [Inside, hframes] at hin
    exact absurd hin (Nat.lt_irrefl _)

theorem Phase.returned_of_not_inside (h : Phase s t) (hout : ¬ Inside s t) :
    t.world.frames = s.world.frames ∧ t.world.mConnectionQueue = .empty ∧
      s.world.closed ++ connections s <+: t.world.closed := by
  unfold Inside at hout
  cases h with
  | called ht =>
    subst ht
    exact absurd (Nat.lt_succ_self _) hout
  | demand inner hframes hnone hclosed =>
    rw [hframes, List.length_append, List.length_cons] at hout
    omega
  | supply hframes hc hhandlers hclosed =>
    rw [hframes, List.length_cons] at hout
    omega
  | discarding hframes hc hhandlers hclosed =>
    rw [hframes, List.length_cons, List.length_cons] at hout
    omega
  | returned hframes hqueue hclosed => exact ⟨hframes, hqueue, hclosed⟩

/-! ## Runs inside `close()` -/

theorem step_close (hc : s.world.control = .client) : step s .close = some (close s) := by
  rw [step, hc]
  rfl

theorem phase_run {as mid : List Action} (h : run step init as = some s)
    (hc : s.world.control = .client)
    (hin : Along step (fun u act => Inside s u ∧ Contained s u act) (close s) mid)
    (hmid : run step (close s) mid = some t) : Phase s t := by
  have hone := oneSided_run h (.inl hc)
  have hstep (u : AcceptorLoop) (act : Action) (u' : AcceptorLoop)
      (hu : (∃ as, run step init as = some u) ∧ Phase s u) (hact : Inside s u ∧ Contained s u act)
      (hs : step u act = some u') : (∃ as, run step init as = some u') ∧ Phase s u' := by
    obtain ⟨⟨as, hu⟩, hphase⟩ := hu
    exact ⟨⟨_, run_snoc hu hs⟩, hphase.step hu hone hact.1 hact.2 hs⟩
  have hstart : (∃ as, run step init as = some (close s)) ∧ Phase s (close s) :=
    ⟨⟨_, run_snoc h (step_close hc)⟩, .called rfl⟩
  exact (run_invariant_along hstep hstart hin hmid).2

/-- What becomes of the accepts in a run inside the `close()` called in `s`. -/
structure Closing (s u : AcceptorLoop) : Prop where
  reached : ∃ as, run step init as = some u
  made : accepted s <+: accepted u
  aborts : Aborts s u

theorem Closing.step {act : Action} (h : Closing s u)
    (hnext : act = .next → ∀ a ∈ waiting s, a ∉ waiting u) (hs : step u act = some u') :
    Closing s u' := by
  obtain ⟨⟨as, hu⟩, hmade, haborts⟩ := h
  have hfresh (a : Accept) (ha : a ∈ waiting s) : a.id < u.world.accepts := by
    have hmem : a ∈ accepted u := hmade.subset (List.mem_append_right _ ha)
    rw [← List.mem_range, ← accepted_ids hu]
    exact List.mem_map_of_mem hmem
  have hmade' : accepted s <+: accepted u' := by
    rw [(accepted_step hs).1]
    exact hmade.trans (List.prefix_append _ _)
  exact ⟨⟨_, run_snoc hu hs⟩, hmade', aborts_step haborts hfresh hnext hs⟩

theorem Closing.close {as : List Action} (h : run AcceptorImpl.step init as = some s)
    (hc : s.world.control = .client) : Closing s (close s) := by
  refine ⟨⟨_, run_snoc h (step_close hc)⟩, List.prefix_refl _, ⟨fun ⟨a, hold, ha⟩ => ?_,
    fun x hx hold => ?_⟩⟩
  · have hnil : s.world.mConnectionQueue.mData = [] := by
      rcases oneSided_run h (.inl hc) with hnil | hnil
      · rw [waiting, hnil] at hold
        cases hold
      · exact hnil
    intro d hd
    change d ∈ s.world.mConnectionQueue.mData at hd
    rw [hnil] at hd
    cases hd
  · -- an accept that waits has not been answered
    have hdisjoint := List.disjoint_of_nodup_append (accepted_nodup h)
    exact absurd hold (hdisjoint (List.mem_map_of_mem hx))

theorem Emptied.of_closing (h : Closing s t) (hphase : Phase s t) (hout : ¬ Inside s t) :
    Emptied s t := by
  obtain ⟨⟨as, ht⟩, hmade, haborts⟩ := h
  obtain ⟨hframes, hqueue, hclosed⟩ := hphase.returned_of_not_inside hout
  have haccepted : accepted t = t.world.answered.map Answer.accept := by
    rw [accepted, waiting, hqueue]
    exact List.append_nil _
  refine ⟨hframes, hqueue, by rw [depth, hqueue]; rfl, fun a ha => ?_, hclosed⟩
  have hmem : a ∈ t.world.answered.map Answer.accept := by
    rw [← haccepted]
    exact hmade.subset (List.mem_append_right _ ha)
  have hnodup := accepted_nodup ht
  rw [haccepted] at hnodup
  refine ⟨?_, List.count_eq_one_of_mem hnodup hmem⟩
  obtain ⟨x, hx, rfl⟩ := List.mem_map.mp hmem
  rw [← haborts.answered x hx ha]
  exact hx

theorem exists_step (hin : Inside s t) :
    ∃ act t', (act = .resume ∨ act = .ret) ∧ step t act = some t' := by
  cases hframes : t.world.frames with
  | nil =>
    rw [Inside, hframes] at hin
    exact absurd hin (Nat.not_lt_zero _)
  | cons f outer =>
    cases hc : t.world.control with
    | client =>
      refine ⟨.ret, t.update fun w => { w with control := .test }, .inr rfl, ?_⟩
      simp only [AcceptorImpl.step, hc, clientStep, hframes]
    | test =>
      have hresume : ∃ t', resume t = some t' := by
        rw [resume, hframes]
        cases f with
        | post => exact ⟨_, rfl⟩
        | abortDemand => exact ⟨_, rfl⟩
        | discardSupply => exact ⟨_, rfl⟩
      obtain ⟨t', ht'⟩ := hresume
      exact ⟨.resume, t', .inl rfl, by simpa only [AcceptorImpl.step, hc, if_true] using ht'⟩

theorem emptied_run {as mid : List Action} (h : run step init as = some s)
    (hc : s.world.control = .client)
    (hin : Along step (fun u act => Inside s u ∧ Orderly s u act) (close s) mid)
    (hmid : run step (close s) mid = some t) (hout : ¬ Inside s t) : Emptied s t := by
  have hclosing : Closing s t := run_invariant_along
    (fun u act u' hu hact hs => hu.step hact.2.2 hs) (.close h hc) hin hmid
  have hphase : Phase s t := phase_run h hc (hin.imp fun _ _ hact => ⟨hact.1, hact.2.1⟩) hmid
  exact .of_closing hclosing hphase hout

/-- **What `close()` ends.** In every orderly run inside a `close()`, with handlers that may call
`asyncAccept` and `close()` again, the number of steps is bounded by the calls made in it, there is
always a next step, and when the call has returned, it has emptied the queue. Never to return takes
calls without end. -/
theorem close_empties {as : List Action} (h : run step init as = some s)
    (hc : s.world.control = .client) :
    (∀ mid t, Along step (fun u act => Inside s u ∧ Orderly s u act) (close s) mid →
      run step (close s) mid = some t →
      rank t + mid.length ≤ rank (close s) + (mid.map cost).sum ∧
        (Inside s t → ∃ act t', (act = .resume ∨ act = .ret) ∧ step t act = some t') ∧
        (¬ Inside s t → Emptied s t)) ∧
    ∀ acts : ℕ → Action, (∀ n, ∃ t, run step (close s) ((List.range n).map acts) = some t ∧
        Inside s t ∧ Orderly s t (acts n)) →
      ∀ N, ∃ n, N ≤ n ∧ acts n ≠ .resume ∧ acts n ≠ .ret ∧ acts n ≠ .throw := by
  have hrank (u : AcceptorLoop) (act : Action) (u' : AcceptorLoop)
      (hu : Inside s u ∧ Orderly s u act) (hs : step u act = some u') :
      rank u' + 1 ≤ rank u + cost act := by
    refine rank_step (fun hact => ?_) hs
    subst hact
    exact hu.2.1
  constructor
  · intro mid t hin hmid
    exact ⟨run_length_le hrank hin hmid, exists_step, emptied_run h hc hin hmid⟩
  · intro acts hruns N
    obtain ⟨n, hn, hcost⟩ := endless_costs hrank hruns N
    refine ⟨n, hn, ?_, ?_, ?_⟩
    · intro heq
      exact hcost (by rw [heq]; rfl)
    · intro heq
      exact hcost (by rw [heq]; rfl)
    · intro heq
      exact hcost (by rw [heq]; rfl)

end

/-- The handler of a waiting accept calls `asyncAccept` once more. -/
theorem close_empties_rearmed :
    ∃ s t, run step init [.asyncAccept 0, .resume] = some s ∧
      run step (close s) [.resume, .resume, .asyncAccept 0, .resume, .ret, .resume, .resume,
        .resume, .ret, .resume, .resume, .resume] = some t ∧ Emptied s t := by
  have hrun : run step init [.asyncAccept 0, .resume] =
      some (runPost [] (asyncAccept 0 init)) := rfl
  have hmid : run step (close (runPost [] (asyncAccept 0 init))) [.resume, .resume, .asyncAccept 0,
      .resume, .ret, .resume, .resume, .resume, .ret, .resume, .resume, .resume] = some _ := rfl
  obtain ⟨-, -, hemptied⟩ := (close_empties hrun rfl).1 _ _ (by decide) hmid
  exact ⟨_, _, hrun, hmid, hemptied (by decide)⟩

/-! ## A handler that accepts again and again -/

/-- The states inside `close()` when a handler calls `asyncAccept` once whenever it is called. -/
inductive Rearms (fs : List Frame) : List Frame → Control → List Consumer → List Datum → Prop
  | loop (a : Accept) : Rearms fs (.abortDemand :: fs) .test [.accept a] []
  | produced (a : Accept) : Rearms fs (.post :: .abortDemand :: fs) .test [.accept a] [.aborted]
  | called : Rearms fs (.post :: .abortDemand :: fs) .client [] []
  | consumed (a : Accept) : Rearms fs (.post :: .post :: .abortDemand :: fs) .test [.accept a] []
  | rearmed (a : Accept) : Rearms fs (.post :: .abortDemand :: fs) .client [.accept a] []
  | returned (a : Accept) : Rearms fs (.post :: .abortDemand :: fs) .test [.accept a] []

def Rearming (fs : List Frame) (u : AcceptorLoop) : Prop :=
  Rearms fs u.world.frames u.world.control u.world.mConnectionQueue.mHandlers
    u.world.mConnectionQueue.mData

theorem Rearms.length_lt {fs frames : List Frame} {c : Control} {hs : List Consumer}
    {ds : List Datum} (h : Rearms fs frames c hs ds) : fs.length < frames.length := by
  cases h <;> (simp only [List.length_cons]; omega)

theorem rearming_step {fs : List Frame} (u : AcceptorLoop) (h : Rearming fs u) :
    ∃ act u', act ∈ [Action.resume, .ret, .asyncAccept 0] ∧ step u act = some u' ∧
      Rearming fs u' := by
  obtain ⟨⟨⟨mHandlers, mData⟩, frames, control, transportEc, cleared, accepts, events, answered,
    closed⟩, posted⟩ := u
  change Rearms fs frames control mHandlers mData at h
  cases h with
  | loop a =>
    have hdepth : (⟨[.accept a], []⟩ : ProducerConsumerQueue Consumer Datum).depth = -1 :=
      depth_eq_sub (by simp) (by simp)
    refine ⟨.resume, _, by simp, congrArg some (if_pos ?_), .produced a⟩
    change ProducerConsumerQueue.depth _ < 0
    rw [hdepth]
    decide
  | produced a => exact ⟨.resume, _, by simp, rfl, .called⟩
  | called => exact ⟨.asyncAccept 0, _, by simp, rfl, .consumed ⟨accepts, 0⟩⟩
  | consumed a => exact ⟨.resume, _, by simp, rfl, .rearmed a⟩
  | rearmed a => exact ⟨.ret, _, by simp, rfl, .returned a⟩
  | returned a => exact ⟨.resume, _, by simp, rfl, .loop a⟩

/-- One accept waits, and its handler accepts again: a run inside `close()` that never ends. -/
theorem close_never_returns :
    ∃ s, run step init [.asyncAccept 0, .resume] = some s ∧ s.world.control = .client ∧
      ∃ acts : ℕ → Action, (∀ n, acts n ∈ [Action.resume, .ret, .asyncAccept 0]) ∧
        ∀ n, ∃ t, run step (close s) ((List.range n).map acts) = some t ∧ Inside s t := by
  refine ⟨runPost [] (asyncAccept 0 init), rfl, rfl, ?_⟩
  have hstart : Rearming [] (close (runPost [] (asyncAccept 0 init))) := .loop ⟨0, 0⟩
  obtain ⟨acts, hacts, hruns⟩ := exists_endless rearming_step hstart
  refine ⟨acts, hacts, fun n => ?_⟩
  obtain ⟨t, ht, hrearming⟩ := hruns n
  exact ⟨t, ht, hrearming.length_lt⟩

end CxxUtil.Ws.AcceptorImpl
