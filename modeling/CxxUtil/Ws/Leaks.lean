import CxxUtil.Ws.LifetimeSteps

/-! # Message queues that are never freed

Nothing refers to what has been destroyed (`destroyed_unreferenced`). But the handlers that a queue
sets on its connection keep the queue, and the queue keeps the connection. Closing the queue and
destroying the I/O object do not change that, and the destructor that would take the handlers off
does not run before they are. -/
namespace CxxUtil.Ws.Lifetime
open Foundations MessageQueueImpl Asio
set_option autoImplicit false

section
variable {s s' : World} {i c : ℕ}

/-! ## Every run -/

/-- The implementations are in order, no receive waits in one that is gone, and a destructor has not
found handlers of its own. -/
structure Orderly (s : World) : Prop where
  consistent : ∀ i, Consistent (s.queues i).loop
  unawaited : ∀ i, (s.queues i).destroyed = true → waiting (s.queues i).loop = []
  cleared : ∀ e ∈ s.cleared, e.2 ≠ some e.1

theorem not_destroyed (hn : Live s (.queue i)) : (s.queues i).destroyed ≠ true := by
  rw [hn.2]
  exact Bool.false_ne_true

theorem Orderly.setQueue (h : Orderly s) (q : Queue) (hcons : Consistent q.loop)
    (hwaiting : q.destroyed = true → waiting q.loop = []) : Orderly (setQueue i q s) where
  consistent j := by
    by_cases hj : j = i
    · subst hj
      rw [setQueue_self]
      exact hcons
    · rw [setQueue_of_ne hj]
      exact h.consistent j
  unawaited j := by
    by_cases hj : j = i
    · subst hj
      rw [setQueue_self]
      exact hwaiting
    · rw [setQueue_of_ne hj]
      exact h.unawaited j
  cleared := h.cleared

theorem waiting_nil_of_free (hlive : Live s (.queue i)) (hfree : ¬ Held s (.queue i)) :
    waiting (s.queues i).loop = [] := by
  by_contra hwaiting
  exact hfree (held_queue_iff.mpr (.inr (.inl ⟨hlive, hwaiting⟩)))

theorem postedReceives_of_destroyed (hsound : (ownership s).Sound)
    (hdestroyed : (s.queues i).destroyed = true) : postedReceives (s.queues i).loop = [] := by
  by_contra hposted
  exact not_destroyed (hsound _ (held_of_rooted (.inr hposted))) hdestroyed

/-- What a queue that is gone has posted is handlers. -/
theorem waiting_queueLoop (hsound : (ownership s).Sound) (h : Orderly s)
    {qact : MessageQueueImpl.Action} {loop : MqLoop}
    (hcause : Held s (.queue i) ∨ qact = .next)
    (hloop : MessageQueueImpl.step (s.queues i).loop qact = some loop)
    (hdestroyed : (s.queues i).destroyed = true) : waiting loop = [] := by
  have hnil := postedReceives_of_destroyed hsound hdestroyed
  obtain rfl := hcause.resolve_left fun hheld => not_destroyed (hsound _ hheld) hdestroyed
  have hhead {r : Receive} {jobs : List Job}
      (hposted : (s.queues i).loop.posted = .receive r :: jobs) : False := by
    rw [postedReceives, hposted] at hnil
    cases hnil
  cases MessageQueueImpl.step_effect hloop with
  | handler hposted => exact h.unawaited i hdestroyed
  | receive hposted => exact (hhead hposted).elim
  | turnedAway hposted => exact (hhead hposted).elim

/-- The connection of a queue that is live is there, so its handlers would keep the queue. -/
theorem not_own_handlers (h : (ownership s).Sound) (hlive : Live s (.queue i))
    (hfree : ¬ Held s (.queue i)) (hptr : (s.queues i).loop.world.mPtr = some c) :
    (s.connections c).handlers ≠ some i := fun hhandlers =>
  hfree (held_of_handlers (h _ (held_of_mPtr hlive hptr)) hhandlers)

theorem Orderly.clearHandlers (hsound : (ownership s).Sound) (h : Orderly s)
    (hlive : Live s (.queue i)) (hfree : ¬ Held s (.queue i)) : Orderly (clearHandlers i s) := by
  unfold Lifetime.clearHandlers
  split
  case h_1 => exact h
  case h_2 c hptr =>
    refine ⟨h.consistent, h.unawaited, fun e he => ?_⟩
    rcases List.mem_append.mp he with he | he
    · exact h.cleared e he
    · obtain rfl := List.mem_singleton.mp he
      exact not_own_handlers hsound hlive hfree hptr

theorem orderly_step {act : Action} (hsound : (ownership s).Sound) (h : Orderly s)
    (hs : step s act = some s') : Orderly s' := by
  cases step_effect hs with
  | makeQueue => exact { h.setQueue _ consistent_init (fun hd => by cases hd) with }
  | makeConnection => exact { h with }
  | setOutside => exact { h with }
  | @setConnectionPtr i c hobject houtside =>
    have hlive := hsound _ (held_of_object hobject)
    let loop := MessageQueueImpl.setConnectionPtr c (s.queues i).loop
    have hcons : Consistent loop := consistent_step _ (.setConnectionPtr c) _ (h.consistent i) rfl
    have hset : Orderly (setQueue i { s.queues i with loop } s) :=
      h.setQueue _ hcons fun hd => absurd hd (not_destroyed hlive)
    exact { hset with }
  | setHandlers => exact { h with }
  | @queue _ i qact loop hcause hact hloop =>
    exact h.setQueue _ (consistent_step _ qact _ (h.consistent i) hloop)
      (waiting_queueLoop hsound h hcause hloop)
  | transport c ec =>
    refine ⟨fun i => ?_, h.unawaited, h.cleared⟩
    exact consistent_step _ (.transport c ec) _ (h.consistent i) rfl
  | @dropObject i hobject =>
    have hlive := hsound _ (held_of_object hobject)
    exact h.setQueue _ (h.consistent i).close fun hd => absurd hd (not_destroyed hlive)
  | @destroy n hlive hfree =>
    cases n with
    | queue i =>
      have hclear := h.clearHandlers hsound hlive hfree
      have hqueue : (clearHandlers i s).queues i = s.queues i :=
        congrFun (clearHandlers_queues i s) i
      refine hclear.setQueue _ (hclear.consistent i).close fun _ => ?_
      refine waiting_close (hclear.consistent i) ?_
      rw [hqueue]
      exact waiting_nil_of_free hlive hfree
    | connection c => exact { h with }

theorem sound_init : (ownership init).Sound := by
  intro n hn
  cases n with
  | queue i =>
    rcases held_queue_iff.mp hn with (h | h) | ⟨h, -⟩ | ⟨c, h, -⟩
    · cases h
    · exact absurd rfl h
    · exact absurd h.1 (Nat.not_lt_zero _)
    · exact absurd h.1 (Nat.not_lt_zero _)
  | connection c =>
    rcases held_connection_iff.mp hn with h | ⟨i, h, -⟩
    · exact absurd h (Nat.not_lt_zero _)
    · exact absurd h.1 (Nat.not_lt_zero _)

theorem orderly_run {as : List Action} (h : run step init as = some s) :
    (ownership s).Sound ∧ Orderly s := by
  have hinit : Orderly init :=
    ⟨fun _ => consistent_init, (fun _ h => by cases h), fun _ h => by cases h⟩
  have hstep (s : World) (act : Action) (s' : World) (h : (ownership s).Sound ∧ Orderly s)
      (hs : step s act = some s') : (ownership s').Sound ∧ Orderly s' :=
    ⟨sound_step h.1 hs, orderly_step h.1 h.2 hs⟩
  exact run_invariant hstep ⟨sound_init, hinit⟩ h

theorem issuedOnce_of_destroyed (hsound : (ownership s).Sound) (h : Orderly s)
    (hdestroyed : (s.queues i).destroyed = true) :
    IssuedOnce (s.queues i).loop.world.received
      ((s.queues i).loop.world.answered.map fun c => c.receive.id) := by
  have hnone : outstanding (s.queues i).loop = [] := List.append_eq_nil_iff.mpr
    ⟨postedReceives_of_destroyed hsound hdestroyed, h.unawaited i hdestroyed⟩
  have hreceives := (h.consistent i).sound.receives
  rw [hnone, List.nil_append, List.append_nil, List.map_map] at hreceives
  exact hreceives

/-- **Nothing refers to what is gone.** In every run, a destroyed queue has no I/O object, no posted
function of a receive, and no connection whose handlers are bound to it; every receive that it has
been asked for has had its handler posted once. A live queue does not refer to a destroyed
connection. When the destructor of a queue takes handlers off a connection, they are not its own: if
there are any, another queue loses them. -/
theorem destroyed_unreferenced {as : List Action} (h : run step init as = some s) :
    (∀ i, (s.queues i).destroyed = true →
      (s.queues i).object = false ∧ postedReceives (s.queues i).loop = [] ∧
        (∀ c, Live s (.connection c) → (s.connections c).handlers ≠ some i) ∧
        IssuedOnce (s.queues i).loop.world.received
          ((s.queues i).loop.world.answered.map fun c => c.receive.id)) ∧
      (∀ i c, Live s (.queue i) → (s.queues i).loop.world.mPtr = some c →
        Live s (.connection c)) ∧
      ∀ e ∈ s.cleared, e.2 ≠ some e.1 := by
  obtain ⟨hsound, horderly⟩ := orderly_run h
  refine ⟨fun i hdestroyed => ?_, fun i c hlive hptr => hsound _ (held_of_mPtr hlive hptr),
    horderly.cleared⟩
  have hfree (hheld : Held s (.queue i)) : False := not_destroyed (hsound _ hheld) hdestroyed
  refine ⟨?_, postedReceives_of_destroyed hsound hdestroyed, ?_,
    issuedOnce_of_destroyed hsound horderly hdestroyed⟩
  · by_contra hobject
    exact hfree (held_of_object (by simpa using hobject))
  · exact fun c hc hhandlers => hfree (held_of_handlers hc hhandlers)

end

/-- A second queue has taken over the connection of the first when that is destroyed. -/
theorem destroyed_unreferenced_taken :
    ∃ s, run step init [.makeQueue, .makeQueue, .makeConnection, .setConnectionPtr 0 0,
        .asyncReceive 0 [0], .next 0, .setConnectionPtr 1 0, .dropObject 0, .destroy (.queue 0),
        .next 0] = some s ∧
      (s.queues 0).loop.world.answered = [⟨⟨0, [0]⟩, some .operationAborted, 0, [0]⟩] ∧
      s.cleared = [(0, some 1)] ∧ (s.connections 0).handlers = none ∧
      ∀ e ∈ s.cleared, e.2 ≠ some e.1 := by
  have hrun : run step init [.makeQueue, .makeQueue, .makeConnection, .setConnectionPtr 0 0,
      .asyncReceive 0 [0], .next 0, .setConnectionPtr 1 0, .dropObject 0, .destroy (.queue 0),
      .next 0] = some _ := rfl
  exact ⟨_, hrun, rfl, rfl, rfl, (destroyed_unreferenced hrun).2.2⟩

section
variable {s s' : World} {i c : ℕ}

/-! ## Connections that are given once -/

/-- No connection is given to a second queue, or a second time, and nobody else replaces the
handlers that a queue has set. -/
def GivenOnce (s : World) : Action → Prop
  | .setConnectionPtr _ c => c ∉ s.given.map Prod.snd
  | .setHandlers _ => False
  | _ => True

instance (s : World) : DecidablePred (GivenOnce s)
  | .setConnectionPtr _ _ => inferInstanceAs (Decidable (_ ∉ _))
  | .setHandlers _ => .isFalse not_false
  | .makeQueue | .makeConnection | .retain _ | .release _ | .asyncReceive _ _ | .close _
  | .message _ _ | .closeEvent _ | .transport _ _ | .next _ | .dropObject _ | .destroy _ =>
    .isTrue trivial

def pair (i c : ℕ) : Set Node := {.queue i, .connection c}

/-- A queue that has been given a connection and the connection that it was given last keep each
other. -/
structure Kept (s : World) : Prop where
  made : ∀ i c, (i, c) ∈ s.given → i < s.queuesMade ∧ c < s.connectionsMade
  mPtr : ∀ i c, (s.queues i).loop.world.mPtr = some c → (i, c) ∈ s.given
  connected : ∀ i c, (i, c) ∈ s.given → ∃ d, (s.queues i).loop.world.mPtr = some d
  handlers : ∀ i c, (s.connections c).handlers = some i ↔ (i, c) ∈ s.given
  knot : ∀ i c, (s.queues i).loop.world.mPtr = some c → (ownership s).Knot (pair i c)
  cleared : s.cleared = []

/-- The pointers between queues and connections are the same. -/
structure Same (s s' : World) : Prop where
  queuesMade : s.queuesMade ≤ s'.queuesMade
  connectionsMade : s.connectionsMade ≤ s'.connectionsMade
  mPtr : ∀ i, (s'.queues i).loop.world.mPtr = (s.queues i).loop.world.mPtr
  handlers : ∀ c, (s'.connections c).handlers = (s.connections c).handlers
  given : s'.given = s.given
  cleared : s'.cleared = s.cleared

theorem Same.refl (s : World) : Same s s :=
  ⟨Nat.le_refl _, Nat.le_refl _, fun _ => rfl, fun _ => rfl, rfl, rfl⟩

theorem same_setQueue {q : Queue} (h : q.loop.world.mPtr = (s.queues i).loop.world.mPtr) :
    Same s (setQueue i q s) := by
  refine { Same.refl s with mPtr := fun j => ?_ }
  by_cases hj : j = i
  · subst hj
    rw [setQueue_self]
    exact h
  · rw [setQueue_of_ne hj]

theorem same_setConnection {con : Connection} (h : con.handlers = (s.connections c).handlers) :
    Same s (setConnection c con s) := by
  refine { Same.refl s with handlers := fun d => ?_ }
  by_cases hd : d = c
  · subst hd
    rw [setConnection_self]
    exact h
  · rw [setConnection_of_ne hd]

theorem Kept.mPtr_none (h : Kept s) (hi : s.queuesMade ≤ i) :
    (s.queues i).loop.world.mPtr = none := by
  cases hptr : (s.queues i).loop.world.mPtr with
  | none => rfl
  | some c => exact absurd (h.made i c (h.mPtr i c hptr)).1 (Nat.not_lt.mpr hi)

theorem Kept.handlers_none (h : Kept s) (hc : s.connectionsMade ≤ c) :
    (s.connections c).handlers = none := by
  cases hhandlers : (s.connections c).handlers with
  | none => rfl
  | some i => exact absurd (h.made i c ((h.handlers i c).mp hhandlers)).2 (Nat.not_lt.mpr hc)

/-- A queue that nothing keeps has not been given a connection. -/
theorem Kept.mPtr_none_of_free (h : Kept s) (hfree : ¬ Held s (.queue i)) :
    (s.queues i).loop.world.mPtr = none := by
  cases hptr : (s.queues i).loop.world.mPtr with
  | none => rfl
  | some c => exact absurd ((h.knot i c hptr).held (.inl rfl)) hfree

theorem Kept.live_of_given (h : Kept s) (hc : (i, c) ∈ s.given) :
    Live s (.queue i) ∧ ∃ d, (s.queues i).loop.world.mPtr = some d ∧ Live s (.connection d) := by
  obtain ⟨d, hptr⟩ := h.connected i c hc
  have hknot := h.knot i d hptr
  exact ⟨hknot.live _ (.inl rfl), d, hptr, hknot.live _ (.inr rfl)⟩

theorem same_step {act : Action} (h : Kept s) (hact : GivenOnce s act)
    (hs : step s act = some s') : Same s s' ∨ ∃ i c, act = .setConnectionPtr i c := by
  cases step_effect hs with
  | makeQueue =>
    left
    have hset : Same s (setQueue s.queuesMade ⟨MessageQueueImpl.init, true, false⟩ s) :=
      same_setQueue (h.mPtr_none (Nat.le_refl _)).symm
    exact { hset with queuesMade := Nat.le_succ _ }
  | makeConnection =>
    left
    have hset : Same s (setConnection s.connectionsMade ⟨1, none, false⟩ s) :=
      same_setConnection (h.handlers_none (Nat.le_refl _)).symm
    exact { hset with connectionsMade := Nat.le_succ _ }
  | setOutside => exact .inl (same_setConnection rfl)
  | @setConnectionPtr i c => exact .inr ⟨i, c, rfl⟩
  | setHandlers => exact hact.elim
  | queue hcause hact hloop => exact .inl (same_setQueue (mPtr_step hact hloop))
  | transport c ec => exact .inl { Same.refl s with mPtr := fun _ => rfl }
  | dropObject => exact .inl (same_setQueue (mPtr_close _))
  | @destroy n hlive hfree =>
    left
    cases n with
    | queue i =>
      have hclear : clearHandlers i s = s := by
        rw [clearHandlers, h.mPtr_none_of_free hfree]
      rw [destroy, hclear]
      exact same_setQueue (mPtr_close _)
    | connection c => exact same_setConnection rfl

theorem owned_pair (hptr : (s.queues i).loop.world.mPtr = some c)
    (hhandlers : (s.connections c).handlers = some i) :
    ∀ n ∈ pair i c, ∃ m ∈ pair i c, Owns s m n := by
  rintro n (rfl | rfl)
  · exact ⟨.connection c, .inr rfl, hhandlers⟩
  · exact ⟨.queue i, .inl rfl, hptr⟩

/-- As long as the pointers are the same, what has been in a knot stays there. -/
theorem Kept.same (h : Kept s) (hsame : Same s s')
    (hgone : ∀ n, Live s n → Live s' n ∨ ¬ Held s n) : Kept s' where
  made i c hc := by
    rw [hsame.given] at hc
    obtain ⟨hi, hc⟩ := h.made i c hc
    exact ⟨Nat.lt_of_lt_of_le hi hsame.queuesMade, Nat.lt_of_lt_of_le hc hsame.connectionsMade⟩
  mPtr i c hptr := by
    rw [hsame.mPtr] at hptr
    rw [hsame.given]
    exact h.mPtr i c hptr
  connected i c hc := by
    rw [hsame.given] at hc
    rw [hsame.mPtr]
    exact h.connected i c hc
  handlers i c := by
    rw [hsame.handlers, hsame.given]
    exact h.handlers i c
  knot i c hptr := by
    have hbefore := (hsame.mPtr i).symm.trans hptr
    refine (h.knot i c hbefore).step hgone ?_
    have hhandlers : (s'.connections c).handlers = some i :=
      (hsame.handlers c).trans ((h.handlers i c).mpr (h.mPtr i c hbefore))
    exact owned_pair hptr hhandlers
  cleared := hsame.cleared.trans h.cleared

theorem mPtr_setConnectionPtr (i c j : ℕ) :
    ((setConnectionPtr i c s).queues j).loop.world.mPtr =
      if j = i then some c else (s.queues j).loop.world.mPtr := by
  unfold setConnectionPtr
  by_cases hj : j = i
  · subst hj
    rw [if_pos rfl]
    exact congrArg (fun q : Queue => q.loop.world.mPtr) (setQueue_self j _ s)
  · rw [if_neg hj]
    exact congrArg (fun q : Queue => q.loop.world.mPtr) (setQueue_of_ne hj _ s)

theorem handlers_setConnectionPtr (i c d : ℕ) :
    ((setConnectionPtr i c s).connections d).handlers =
      if d = c then some i else (s.connections d).handlers := by
  by_cases hd : d = c
  · subst hd
    rw [if_pos rfl]
    exact congrArg Connection.handlers (setConnection_self d _ _)
  · rw [if_neg hd]
    exact congrArg Connection.handlers (setConnection_of_ne hd _ _)

theorem mem_given_setConnectionPtr {i c j d : ℕ} :
    (j, d) ∈ (setConnectionPtr i c s).given ↔ (j, d) ∈ s.given ∨ j = i ∧ d = c := by
  change (j, d) ∈ s.given ++ [(i, c)] ↔ _
  simp

/-- The queue and the connection are a new knot, and no other knot had that connection. -/
theorem kept_setConnectionPtr (h : Kept s) (hsound : (ownership s).Sound)
    (hobject : (s.queues i).object = true) (houtside : 0 < (s.connections c).outside)
    (honce : c ∉ s.given.map Prod.snd) : Kept (setConnectionPtr i c s) := by
  have hqueue : Live s (.queue i) := hsound _ (held_of_object hobject)
  have hcon : Live s (.connection c) := hsound _ (held_of_outside houtside)
  have hother {j d : ℕ} (hd : (j, d) ∈ s.given) : d ≠ c := fun heq =>
    honce (List.mem_map.mpr ⟨(j, d), hd, heq⟩)
  have hhandlers (j d : ℕ) : ((setConnectionPtr i c s).connections d).handlers = some j ↔
      (j, d) ∈ (setConnectionPtr i c s).given := by
    rw [handlers_setConnectionPtr, mem_given_setConnectionPtr]
    split
    case isTrue hd =>
      subst hd
      refine ⟨fun hj => .inr ⟨(Option.some.inj hj).symm, rfl⟩, ?_⟩
      rintro (hmem | ⟨rfl, -⟩)
      · exact absurd rfl (hother hmem)
      · rfl
    case isFalse hd =>
      rw [h.handlers]
      exact ⟨.inl, fun hmem => hmem.resolve_right fun heq => hd heq.2⟩
  have hmPtr (j d : ℕ) (hptr : ((setConnectionPtr i c s).queues j).loop.world.mPtr = some d) :
      j = i ∧ d = c ∨ (s.queues j).loop.world.mPtr = some d := by
    rw [mPtr_setConnectionPtr] at hptr
    split at hptr
    case isTrue hj => exact .inl ⟨hj, (Option.some.inj hptr).symm⟩
    case isFalse => exact .inr hptr
  have hgiven (j d : ℕ) (hptr : ((setConnectionPtr i c s).queues j).loop.world.mPtr = some d) :
      (j, d) ∈ (setConnectionPtr i c s).given :=
    mem_given_setConnectionPtr.mpr ((hmPtr j d hptr).symm.imp_left (h.mPtr j d))
  refine ⟨?_, hgiven, ?_, hhandlers, ?_, h.cleared⟩
  · intro j d hd
    rcases mem_given_setConnectionPtr.mp hd with hd | ⟨rfl, rfl⟩
    · exact h.made j d hd
    · exact ⟨hqueue.1, hcon.1⟩
  · intro j d hd
    rw [mPtr_setConnectionPtr]
    split
    case isTrue => exact ⟨c, rfl⟩
    case isFalse hj =>
      exact h.connected j d ((mem_given_setConnectionPtr.mp hd).resolve_right fun heq => hj heq.1)
  · intro j d hptr
    refine ⟨fun n hn => (live_setConnectionPtr i c n).mpr ?_,
      owned_pair hptr ((hhandlers j d).mpr (hgiven j d hptr))⟩
    rcases hmPtr j d hptr with ⟨rfl, rfl⟩ | hbefore
    · rcases hn with rfl | rfl
      · exact hqueue
      · exact hcon
    · exact (h.knot j d hbefore).live n hn

theorem kept_step {act : Action} (hsound : (ownership s).Sound) (h : Kept s)
    (hact : GivenOnce s act) (hs : step s act = some s') : Kept s' := by
  rcases same_step h hact hs with hsame | ⟨i, c, rfl⟩
  · exact h.same hsame (gone_step hs)
  · obtain ⟨⟨hobject, houtside⟩, hs⟩ := Option.ite_none_right_eq_some.mp hs
    obtain rfl := Option.some.inj hs
    exact kept_setConnectionPtr h hsound hobject houtside hact

theorem kept_init : Kept init where
  made _ _ h := by cases h
  mPtr _ _ h := by cases h
  connected _ _ h := by cases h
  handlers _ _ := ⟨(fun h => by cases h), fun h => by cases h⟩
  knot _ _ h := by cases h
  cleared := rfl

theorem kept_along {as : List Action} (hsound : (ownership s).Sound) (hkept : Kept s)
    (honce : Along step GivenOnce s as) (h : run step s as = some s') :
    (ownership s').Sound ∧ Kept s' := by
  have hstep (s : World) (act : Action) (s' : World) (h : (ownership s).Sound ∧ Kept s)
      (hact : GivenOnce s act) (hs : step s act = some s') : (ownership s').Sound ∧ Kept s' :=
    ⟨sound_step h.1 hs, kept_step h.1 h.2 hact hs⟩
  exact run_invariant_along hstep ⟨hsound, hkept⟩ honce h

/-- Of the queues that have not been given a connection, one is left only as long as its I/O object
is there or a receive is outstanding. -/
theorem Kept.freed_iff (h : Kept s) (hsettled : (ownership s).Settled) (hi : i < s.queuesMade)
    (hobject : (s.queues i).object = false) (hnone : outstanding (s.queues i).loop = []) :
    (s.queues i).destroyed = true ↔ ∀ c, (i, c) ∉ s.given := by
  constructor
  · exact fun hdestroyed c hc => not_destroyed (h.live_of_given hc).1 hdestroyed
  · intro hnever
    by_contra hdestroyed
    obtain ⟨hposted, hwaiting⟩ := List.append_eq_nil_iff.mp hnone
    rcases held_queue_iff.mp (hsettled (.queue i) ⟨hi, by simpa using hdestroyed⟩) with
      (hroot | hroot) | ⟨-, hwait⟩ | ⟨c, -, hhandlers⟩
    · rw [hobject] at hroot
      cases hroot
    · exact hroot hposted
    · exact hwait hwaiting
    · exact hnever c ((h.handlers i c).mp hhandlers)

/-- **A message queue that has been given a connection is never freed.** In every run in which each
connection is given to one queue, once, and in which nobody else replaces the handlers set there: a
queue that has been given a connection is there for good, with the connection that it was given
last, whatever is closed and destroyed, and the destructor never finds handlers to take off. Of the
other queues, one is left only as long as its I/O object is there or a receive is outstanding. -/
theorem freed_iff_never_connected {as : List Action} (honce : Along step GivenOnce init as)
    (h : run step init as = some s) :
    s.cleared = [] ∧
      (∀ i c, (i, c) ∈ s.given → Live s (.queue i) ∧
        ∃ d, (s.queues i).loop.world.mPtr = some d ∧ Live s (.connection d)) ∧
      ((ownership s).Settled → ∀ i < s.queuesMade, (s.queues i).object = false →
        outstanding (s.queues i).loop = [] →
        ((s.queues i).destroyed = true ↔ ∀ c, (i, c) ∉ s.given)) := by
  have hkept := (kept_along sound_init kept_init honce h).2
  refine ⟨hkept.cleared, fun i c hc => ?_, fun hsettled i hi hobject hnone => ?_⟩
  · exact hkept.live_of_given hc
  · exact hkept.freed_iff hsettled hi hobject hnone

theorem settled_iff : (ownership s).Settled ↔
    (∀ i < s.queuesMade, Live s (.queue i) → Held s (.queue i)) ∧
      ∀ c < s.connectionsMade, Live s (.connection c) → Held s (.connection c) := by
  refine ⟨fun h => ⟨fun i _ => h (.queue i), fun c _ => h (.connection c)⟩, fun h n hn => ?_⟩
  cases n with
  | queue i => exact h.1 i hn.1 hn
  | connection c => exact h.2 c hn.1 hn

instance (s : World) : Decidable (ownership s).Settled := decidable_of_iff' _ settled_iff

end

/-- Two queues whose I/O objects are gone, one of which has had a connection. -/
theorem freed_iff_never_connected_two :
    ∃ s, run step init [.makeQueue, .makeQueue, .makeConnection, .setConnectionPtr 0 0, .close 0,
        .dropObject 0, .release 0, .dropObject 1, .destroy (.queue 1)] = some s ∧
      Live s (.queue 0) ∧ (s.queues 1).destroyed = true ∧ (ownership s).Settled := by
  have hrun : run step init [.makeQueue, .makeQueue, .makeConnection, .setConnectionPtr 0 0,
      .close 0, .dropObject 0, .release 0, .dropObject 1, .destroy (.queue 1)] = some _ := rfl
  have honce : Along step GivenOnce init [.makeQueue, .makeQueue, .makeConnection,
      .setConnectionPtr 0 0, .close 0, .dropObject 0, .release 0, .dropObject 1,
      .destroy (.queue 1)] := by decide
  obtain ⟨-, hlive, hfreed⟩ := freed_iff_never_connected honce hrun
  refine ⟨_, hrun, (hlive 0 0 (by decide)).1, ?_, by decide⟩
  refine (hfreed (by decide) 1 (by decide) rfl rfl).mpr fun c hc => ?_
  replace hc : (1, c) ∈ [(0, 0)] := hc
  simp at hc

end CxxUtil.Ws.Lifetime
