import CxxUtil.Ws.AcceptorClose

/-! # Where connections go

`close()` discards the connections that are in the queue. One for which `handleOpen` has only posted
its function is put there after that, by the function. -/
namespace CxxUtil.Ws.AcceptorImpl
open Foundations Queue ProducerConsumerQueue Asio
set_option autoImplicit false

def queued (s : AcceptorLoop) : List ConEvent :=
  s.world.mConnectionQueue.mData.filterMap Datum.event?

/-- The event whose connection was given to the message queue of the accept. -/
def Answer.connection? (x : Answer) : Option ConEvent :=
  if x.given.isSome then x.datum.event? else none

def given (s : AcceptorLoop) : List ConEvent := s.world.answered.filterMap Answer.connection?

def opens (s : AcceptorLoop) : Action → List ConEvent
  | .openEvent con _ => [⟨s.world.events, con, true⟩]
  | _ => []

/-- A connection that opens is found, and has no transport code when its function runs. -/
def Intact (s : AcceptorLoop) : Action → Prop
  | .openEvent _ got => got = none
  | .next => ∀ e ∈ s.posted.head?, e.opened = true → s.world.transportEc e.con = none
  | _ => True

instance (s : AcceptorLoop) : ∀ act, Decidable (Intact s act)
  | .openEvent _ got => inferInstanceAs (Decidable (got = none))
  | .next => inferInstanceAs (Decidable (∀ e ∈ s.posted.head?, e.opened = true → _ = none))
  | .asyncAccept _ | .close | .failEvent .. | .transport .. | .resume | .ret | .throw =>
    .isTrue trivial

/-- Each connection that has opened is in one place. -/
structure Ledger (cons : List ConEvent) (s : AcceptorLoop) : Prop where
  codes : ∀ d ∈ s.world.mConnectionQueue.mData, ∀ e ∈ d.event?, e.opened = true → d.ec = none
  count : ∀ e, e.opened = true →
    s.posted.count e + (queued s).count e + (given s).count e + s.world.closed.count e =
      cons.count e
  numbers : ∀ e ∈ cons, e.number < s.world.events
  opened : ∀ e ∈ cons, e.opened = true
  nodup : cons.Nodup

section
variable {s s' t u : AcceptorLoop} {cons : List ConEvent}

/-! ## One place for each connection -/

theorem Ledger.openEvent (h : Ledger cons s) (con : ℕ) :
    Ledger (cons ++ [⟨s.world.events, con, true⟩]) (connectionEvent con true none s) := by
  rw [connectionEvent_eq]
  refine ⟨h.codes, fun e he => ?_, fun e he => ?_, fun e he => ?_, ?_⟩
  · have hcount := h.count e he
    change (s.posted ++ [_]).count e + (queued s).count e + (given s).count e +
      s.world.closed.count e = _
    rw [List.count_append, List.count_append]
    omega
  · rcases List.mem_append.mp he with he | he
    · exact Nat.lt_succ_of_lt (h.numbers e he)
    · obtain rfl := List.mem_singleton.mp he
      exact Nat.lt_succ_self _
  · rcases List.mem_append.mp he with he | he
    · exact h.opened e he
    · obtain rfl := List.mem_singleton.mp he
      rfl
  · refine List.nodup_append'.mpr ⟨h.nodup, List.nodup_singleton _, fun e he he' => ?_⟩
    obtain rfl := List.mem_singleton.mp he'
    exact Nat.lt_irrefl _ (h.numbers _ he)

theorem Ledger.failEvent (h : Ledger cons s) (con : ℕ) (got : ErrorCode) :
    Ledger cons (connectionEvent con false got s) := by
  rw [connectionEvent_eq]
  refine ⟨h.codes, fun e he => ?_, fun e he => Nat.lt_succ_of_lt (h.numbers e he), h.opened,
    h.nodup⟩
  have hnone : List.count e (if got.isSome then [] else [⟨s.world.events, con, false⟩]) = 0 := by
    refine List.count_eq_zero.mpr fun hmem => ?_
    split at hmem
    · cases hmem
    · obtain rfl := List.mem_singleton.mp hmem
      cases he
  have hcount := h.count e he
  change (s.posted ++ _).count e + _ + _ + _ = _
  rw [List.count_append, hnone]
  exact hcount

theorem Ledger.next (h : Ledger cons s) {e : ConEvent} {es : List ConEvent}
    (hposted : s.posted = e :: es)
    (hcode : e.opened = true → s.world.transportEc e.con = none) :
    Ledger cons (establish e ⟨s.world, es⟩) := by
  refine ⟨fun d hd => ?_, fun e' he' => ?_, h.numbers, h.opened, h.nodup⟩
  · rcases List.mem_append.mp hd with hd | hd
    · exact h.codes d hd
    · obtain rfl := List.mem_singleton.mp hd
      intro e' he'
      obtain rfl := Option.some.inj he'
      exact hcode
  · have hcount := h.count e' he'
    rw [hposted, List.count_cons] at hcount
    have hqueued : queued (establish e ⟨s.world, es⟩) = queued s ++ [e] := by
      change (s.world.mConnectionQueue.mData ++ [_]).filterMap Datum.event? = _
      rw [List.filterMap_append]
      rfl
    rw [hqueued, List.count_append, List.count_singleton]
    change es.count e' + _ + (given s).count e' + s.world.closed.count e' = _
    omega

theorem Datum.discarded_count {d : Datum} {e : ConEvent}
    (hcode : ∀ e ∈ d.event?, e.opened = true → d.ec = none) (he : e.opened = true) :
    d.discarded.count e = d.event?.toList.count e := by
  unfold Datum.discarded
  split
  · rename_i hec
    refine (List.count_eq_zero.mpr fun hmem => ?_).symm
    rw [hcode e (Option.mem_toList.mp hmem) he] at hec
    cases hec
  · rfl

theorem connection?_answer (a : Accept) (d : Datum) :
    (Answer.connection? ⟨a, d, d.ec,
      if d.ec.isSome then none else d.event?.map ConEvent.con⟩).toList = d.discarded := by
  cases d with
  | aborted => rfl
  | established e ec => cases ec <;> rfl

/-- An accept handler is given the connection, or `close()` closes it. -/
theorem Ledger.call (h : Ledger cons s) {c : Consumer} {d : Datum}
    {q : ProducerConsumerQueue Consumer Datum}
    (hpop : s.world.mConnectionQueue.popPair = some ((c, d), q)) :
    Ledger cons (s.update fun w => callConsumer c d { w with mConnectionQueue := q }) := by
  have hdata : s.world.mConnectionQueue.mData = d :: q.mData := (popPair_eq_some.mp hpop).2
  have hcode : ∀ e ∈ d.event?, e.opened = true → d.ec = none :=
    h.codes d (hdata ▸ List.mem_cons_self)
  have hcodes : ∀ d ∈ q.mData, ∀ e ∈ d.event?, e.opened = true → d.ec = none := fun d' hd' =>
    h.codes d' (hdata ▸ List.mem_cons_of_mem _ hd')
  have hqueued : queued s = d.event?.toList ++ q.mData.filterMap Datum.event? := by
    rw [queued, hdata, filterMap_cons_toList]
  have hcount (e : ConEvent) (he : e.opened = true) : s.posted.count e +
      (q.mData.filterMap Datum.event?).count e + ((given s).count e + d.discarded.count e) +
        s.world.closed.count e = cons.count e := by
    have hbefore := h.count e he
    rw [hqueued, List.count_append] at hbefore
    rw [Datum.discarded_count hcode he]
    omega
  cases c with
  | accept a =>
    refine ⟨hcodes, fun e he => ?_, h.numbers, h.opened, h.nodup⟩
    change _ + _ + List.count e ((s.world.answered ++ [_]).filterMap Answer.connection?) + _ = _
    rw [List.filterMap_append, filterMap_cons_toList, connection?_answer, List.filterMap_nil,
      List.append_nil, List.count_append]
    exact hcount e he
  | discard =>
    simp only [callConsumer_discard]
    refine ⟨hcodes, fun e he => ?_, h.numbers, h.opened, h.nodup⟩
    have hafter := hcount e he
    change _ + _ + _ + (s.world.closed ++ d.discarded).count e = _
    rw [List.count_append]
    change s.posted.count e + (q.mData.filterMap Datum.event?).count e + (given s).count e + _ = _
    omega

theorem ledger_step (cons : List ConEvent) (s : AcceptorLoop) (act : Action) (s' : AcceptorLoop)
    (h : Ledger cons s) (hintact : Intact s act) (hs : step s act = some s') :
    Ledger (cons ++ opens s act) s' := by
  have hsame {s' : AcceptorLoop} (h' : Ledger cons s') : Ledger (cons ++ []) s' := by
    rw [List.append_nil]
    exact h'
  cases step_effect hs with
  | openEvent con got hc hcon =>
    obtain rfl : got = none := hintact
    exact h.openEvent con
  | failEvent con got hc hcon => exact hsame (h.failEvent con got)
  | next e es hc hposted => exact hsame (h.next hposted (hintact e (by rw [hposted]; rfl)))
  | call outer c d q hc hframes hpop => exact hsame (h.call hpop)
  | abort outer hc hframes hdepth =>
    refine hsame ⟨fun d hd => ?_, fun e he => ?_, h.numbers, h.opened, h.nodup⟩
    · rcases List.mem_append.mp hd with hd | hd
      · exact h.codes d hd
      · obtain rfl := List.mem_singleton.mp hd
        nofun
    · have hqueued : queued (produce .aborted s) = queued s := by
        change (_ ++ [_]).filterMap Datum.event? = _
        rw [List.filterMap_append]
        exact List.append_nil _
      rw [hqueued]
      exact h.count e he
  | asyncAccept | close | transport | posted | aborted | discard | closed | ret | throw =>
    exact hsame ⟨h.codes, h.count, h.numbers, h.opened, h.nodup⟩

theorem ledger_run {as : List Action} (hintact : Along step Intact init as)
    (h : run step init as = some s) : Ledger (emitted step opens init as) s := by
  have hinit : Ledger [] init := ⟨nofun, fun _ _ => rfl, nofun, nofun, List.nodup_nil⟩
  exact run_invariant_emitted ledger_step hinit hintact h

/-! ## After `close()` -/

/-- With nothing new, an empty queue stays empty. -/
theorem empty_step {act : Action} (h : s.world.mConnectionQueue = .empty)
    (haccept : ∀ mq, act ≠ .asyncAccept mq) (hnext : act ≠ .next) (hs : step s act = some s') :
    s'.world.mConnectionQueue = .empty := by
  have hdepth : depth s = 0 := by
    rw [depth, h]
    rfl
  cases step_effect hs with
  | asyncAccept mq hc => exact absurd rfl (haccept mq)
  | next e es hc hposted => exact absurd rfl hnext
  | openEvent con got hc hcon =>
    rw [connectionEvent_eq]
    exact h
  | failEvent con got hc hcon =>
    rw [connectionEvent_eq]
    exact h
  | call outer c d q hc hframes hpop =>
    rw [h] at hpop
    cases hpop
  | abort outer hc hframes hneg => omega
  | discard outer hc hframes hpos => omega
  | close | transport | posted | aborted | closed | ret | throw => exact h

/-- **Where connections go.** When `close()` has returned and no function of `handleOpen` runs after
that, the queue holds no connection, and each that has opened was given to one accept or closed. -/
theorem closed_keeps_none {as mid rest : List Action} (h : run step init as = some s)
    (hc : s.world.control = .client)
    (hin : Along step (fun u act => Inside s u ∧ Contained s u act) (close s) mid)
    (hmid : run step (close s) mid = some u) (hout : ¬ Inside s u)
    (hrest : run step u rest = some t) (haccepts : ∀ mq, .asyncAccept mq ∉ rest)
    (hnext : .next ∉ rest) (hposted : t.posted = [])
    (hintact : Along step Intact init (as ++ .close :: mid ++ rest)) :
    t.world.mConnectionQueue = .empty ∧
      ∀ e ∈ emitted step opens init (as ++ .close :: mid ++ rest),
        (given t ++ t.world.closed).count e = 1 := by
  have hall : run step init (as ++ .close :: mid ++ rest) = some t := by
    rw [run_append, run_append, h, Option.bind_some, run_cons_iff.mpr ⟨_, step_close hc, hmid⟩]
    exact hrest
  have hempty : u.world.mConnectionQueue = .empty :=
    ((phase_run h hc hin hmid).returned_of_not_inside hout).2.1
  have hqueue : t.world.mConnectionQueue = .empty := by
    have hquiet : ∀ act ∈ rest, (∀ mq, act ≠ .asyncAccept mq) ∧ act ≠ .next := fun act hact =>
      ⟨fun mq heq => haccepts mq (heq ▸ hact), fun heq => hnext (heq ▸ hact)⟩
    exact run_invariant_along (fun v act v' hv hact hs => empty_step hv hact.1 hact.2 hs) hempty
      (Along.of_forall hquiet u) hrest
  refine ⟨hqueue, fun e he => ?_⟩
  have hledger := ledger_run hintact hall
  have hcount := hledger.count e (hledger.opened e he)
  rw [List.count_eq_one_of_mem hledger.nodup he, hposted, queued, hqueue] at hcount
  rw [List.count_append]
  simpa [empty] using hcount

end

/-- Of two connections an accept is given one, and `close()` closes the other. -/
theorem closed_keeps_none_two :
    ∃ t, run step init [.asyncAccept 0, .resume, .openEvent 5 none, .openEvent 6 none, .next,
        .resume, .ret, .resume, .next, .resume, .close, .resume, .resume, .resume, .resume,
        .resume] = some t ∧
      t.world.mConnectionQueue = .empty ∧
      (given t ++ t.world.closed).count ⟨0, 5, true⟩ = 1 ∧
      (given t ++ t.world.closed).count ⟨1, 6, true⟩ = 1 := by
  have hrun : run step init [.asyncAccept 0, .resume, .openEvent 5 none, .openEvent 6 none, .next,
    .resume, .ret, .resume, .next, .resume] = some _ := rfl
  have hkeeps := @closed_keeps_none _ _ _ _ [.resume, .resume, .resume, .resume, .resume] []
    hrun rfl (by decide) rfl (by decide) rfl nofun nofun rfl (by decide)
  refine ⟨_, rfl, hkeeps.1, hkeeps.2 _ (by decide), hkeeps.2 _ (by decide)⟩

/-- The connection opens, `close()` finds the queue empty, and the posted function runs. -/
theorem closed_keeps_one :
    ∃ s u t, run step init [.openEvent 5 none] = some s ∧ s.world.control = .client ∧
      run step (close s) [.resume, .resume] = some u ∧ ¬ Inside s u ∧
      run step u [.next, .resume] = some t ∧ t.posted = [] ∧
      t.world.mConnectionQueue = ⟨[], [.established ⟨0, 5, true⟩ none]⟩ ∧
      ⟨0, 5, true⟩ ∈ emitted step opens init [.openEvent 5 none, .close, .resume, .resume, .next,
        .resume] ∧
      (given t ++ t.world.closed).count ⟨0, 5, true⟩ = 0 := by
  refine ⟨_, _, _, rfl, rfl, rfl, ?_, rfl, rfl, rfl, ?_, ?_⟩
  · decide
  · decide
  · decide

end CxxUtil.Ws.AcceptorImpl
