import CxxUtil.Ws.Acceptor

/-! # Accepts that succeed

`listen` binds the open and the fail handler to one function, and what that posts passes on the code
that `get_transport_ec()` returns when it runs. A fail event reaches an accept as an error as long
as that code is set (`FailureHasCode`). -/
namespace CxxUtil.Ws.AcceptorImpl
open Foundations Queue ProducerConsumerQueue Asio
set_option autoImplicit false

/-- What was produced for a fail event carries an error. -/
def Datum.Genuine (d : Datum) : Prop := ∀ e ∈ d.event?, e.opened = false → d.ec ≠ none

/-- Success, and a connection for the message queue, come from an open event, and a fail event comes
as an error. -/
structure Answer.Genuine (a : Answer) : Prop where
  success : a.ec = none →
    ∃ e, a.datum.event? = some e ∧ e.opened = true ∧ a.given = some e.con
  given : ∀ con, a.given = some con →
    ∃ e, a.datum.event? = some e ∧ e.opened = true ∧ e.con = con
  failure : ∀ e, a.datum.event? = some e → e.opened = false → a.ec ≠ none

/-- The function that a fail event has posted does not run while the transport code of its
connection is zero. -/
def FailureHasCode (s : AcceptorLoop) : Action → Prop
  | .next => ∀ e ∈ s.posted.head?, e.opened = false → s.world.transportEc e.con ≠ none
  | _ => True

instance (s : AcceptorLoop) : ∀ act, Decidable (FailureHasCode s act)
  | .next => inferInstanceAs (Decidable (∀ e ∈ s.posted.head?, e.opened = false → _ ≠ none))
  | .asyncAccept _ | .close | .openEvent .. | .failEvent .. | .transport .. | .resume | .ret
  | .throw => .isTrue trivial

structure Genuine (s : AcceptorLoop) : Prop where
  data : ∀ d ∈ s.world.mConnectionQueue.mData, d.Genuine
  answered : ∀ a ∈ s.world.answered, a.Genuine

section
variable {s s' : AcceptorLoop}

theorem Genuine.produce (h : Genuine s) {d : Datum} (hd : d.Genuine) : Genuine (produce d s) := by
  refine ⟨fun d' hmem => ?_, h.answered⟩
  rcases List.mem_append.mp hmem with hmem | hmem
  · exact h.data d' hmem
  · obtain rfl := List.mem_singleton.mp hmem
    exact hd

theorem Datum.Genuine.answer {d : Datum} (h : d.Genuine) (a : Accept) :
    Answer.Genuine
      ⟨a, d, d.ec, if d.ec.isSome then none else d.event?.map ConEvent.con⟩ := by
  have hopened {e : ConEvent} (he : d.event? = some e) (hec : d.ec = none) : e.opened = true := by
    by_contra hne
    exact h e he (by simpa using hne) hec
  cases d with
  | aborted => exact ⟨nofun, nofun, nofun⟩
  | established e ec =>
    refine ⟨fun hec => ?_, fun con hgiven => ?_, h⟩
    · have hec : ec = none := hec
      subst hec
      exact ⟨e, rfl, hopened rfl rfl, rfl⟩
    · cases ec with
      | some code => cases hgiven
      | none => exact ⟨e, rfl, hopened rfl rfl, Option.some.inj hgiven⟩

theorem Genuine.call (h : Genuine s) {c : Consumer} {d : Datum}
    {q : ProducerConsumerQueue Consumer Datum}
    (hpop : s.world.mConnectionQueue.popPair = some ((c, d), q)) :
    Genuine (s.update fun w => callConsumer c d { w with mConnectionQueue := q }) := by
  obtain ⟨-, hdata⟩ := popPair_eq_some.mp hpop
  have hd : d.Genuine := h.data d (hdata ▸ List.mem_cons_self)
  have hq : ∀ d ∈ q.mData, d.Genuine := fun d' hmem =>
    h.data d' (hdata ▸ List.mem_cons_of_mem _ hmem)
  cases c with
  | accept a =>
    refine ⟨hq, fun a' hmem => ?_⟩
    rcases List.mem_append.mp hmem with hmem | hmem
    · exact h.answered a' hmem
    · obtain rfl := List.mem_singleton.mp hmem
      exact hd.answer a
  | discard =>
    simp only [callConsumer_discard]
    exact ⟨hq, h.answered⟩

/-- The transport code matters when a posted function runs. -/
theorem genuine_step (s : AcceptorLoop) (act : Action) (s' : AcceptorLoop) (h : Genuine s)
    (hcode : FailureHasCode s act) (hs : step s act = some s') : Genuine s' := by
  cases step_effect hs with
  | openEvent con got hc hcon =>
    rw [connectionEvent_eq]
    exact ⟨h.data, h.answered⟩
  | failEvent con got hc hcon =>
    rw [connectionEvent_eq]
    exact ⟨h.data, h.answered⟩
  | next e es hc hposted =>
    have hcleared : Genuine ⟨{ s.world with cleared := e.con :: s.world.cleared }, es⟩ :=
      ⟨h.data, h.answered⟩
    refine hcleared.produce fun e' he' => ?_
    obtain rfl := Option.some.inj he'
    exact hcode e (by rw [hposted]; rfl)
  | call outer c d q hc hframes hpop => exact h.call hpop
  | abort outer hc hframes hdepth => exact h.produce nofun
  | asyncAccept | close | transport | posted | aborted | discard | closed | ret | throw =>
    exact ⟨h.data, h.answered⟩

/-- **Accepts succeed only for opened connections.** In every run in which no function posted by a
fail event runs while the transport code of its connection is zero, success and connections are
handed out for open events only, and fail events come as errors. -/
theorem accepts_only_opened {as : List Action} (hcodes : Along step FailureHasCode init as)
    (h : run step init as = some s) : ∀ a ∈ s.world.answered, a.Genuine :=
  have hinit : Genuine init := ⟨fun _ hmem => (by cases hmem), fun _ hmem => (by cases hmem)⟩
  (run_invariant_along genuine_step hinit hcodes h).answered

end

/-- Three accepts: one is given the connection that opened, one the code of the connection that
failed, and one, made from the handler of the second, the abort of `close()`. -/
theorem accepts_only_opened_three :
    ∃ s, run step init
        [.asyncAccept 0, .resume, .asyncAccept 1, .resume, .openEvent 5 none, .failEvent 6 none,
          .transport 6 (some (.other 1)), .next, .resume, .ret, .resume, .next, .resume,
          .asyncAccept 2, .resume, .ret, .resume, .close, .resume, .resume, .ret, .resume, .resume,
          .resume] = some s ∧
      s.world.answered.map Answer.ec = [none, some (.other 1), some .operationAborted] ∧
      ∀ a ∈ s.world.answered, a.Genuine := by
  have hrun : run step init
      [.asyncAccept 0, .resume, .asyncAccept 1, .resume, .openEvent 5 none, .failEvent 6 none,
        .transport 6 (some (.other 1)), .next, .resume, .ret, .resume, .next, .resume,
        .asyncAccept 2, .resume, .ret, .resume, .close, .resume, .resume, .ret, .resume, .resume,
        .resume] = some _ := rfl
  exact ⟨_, hrun, rfl, accepts_only_opened (by decide) hrun⟩

/-- An accept waits and a connection fails with a transport code of zero. -/
theorem failed_connection_accepted :
    (∃ s a e, run step init [.asyncAccept 0, .resume, .failEvent 7 none, .next, .resume] = some s ∧
      s.world.answered = [a] ∧ a.ec = none ∧ a.given = some 7 ∧ a.datum.event? = some e ∧
      e.opened = false) ∧
    ¬ ∀ (as : List Action) (s : AcceptorLoop), run step init as = some s →
      ∀ a ∈ s.world.answered, a.Genuine := by
  have hrun : run step init [.asyncAccept 0, .resume, .failEvent 7 none, .next, .resume] =
      some _ := rfl
  refine ⟨⟨_, _, ⟨0, 7, false⟩, hrun, rfl, rfl, rfl, rfl, rfl⟩, fun hclaim => ?_⟩
  have hgenuine := hclaim _ _ hrun _ List.mem_cons_self
  exact hgenuine.failure ⟨0, 7, false⟩ rfl rfl rfl

end CxxUtil.Ws.AcceptorImpl
