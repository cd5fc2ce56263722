import CxxUtil.Ws.Connecting
import CxxUtil.Ws.Leaks

/-! # Queues that have been connected

The connector gives each connection once (`Tied`), so that what is given in a run of the connector
and the queues is given as `Kept` asks for, and a queue that is given a connection is never freed. -/
namespace CxxUtil.Ws.Connecting
open Foundations Asio ConnectorImpl
set_option autoImplicit false

/-! ## Each connection is given once -/

/-- What ties a connector to the queues and connections. -/
structure Tied (v : View) (q : Lifetime.World) : Prop where
  live : ∀ con ∈ v.keys, con ∈ v.live
  made : ∀ con ∈ v.live, con < q.connectionsMade
  nodup : v.keys.Nodup
  given : q.given = v.given
  fresh : ∀ con ∈ v.keys, con ∉ q.given.map Prod.snd
  once : (q.given.map Prod.snd).Nodup
  pointers : ∀ con, v.keys.count con + v.clearing.count con ≤ (q.connections con).outside

section
variable {v v' : View} {q q' : Lifetime.World}

theorem outside_unmade (hsound : (Lifetime.ownership q).Sound) {con : ℕ}
    (hcon : q.connectionsMade ≤ con) : (q.connections con).outside = 0 := by
  by_contra hne
  have hlive := hsound _ (Lifetime.held_of_outside (Nat.pos_of_ne_zero hne))
  exact absurd hlive.1 (Nat.not_lt.mpr hcon)

theorem given_made (hkept : Lifetime.Kept q) {con : ℕ} (hcon : con ∈ q.given.map Prod.snd) :
    con < q.connectionsMade := by
  obtain ⟨entry, hentry, rfl⟩ := List.mem_map.mp hcon
  exact (hkept.made entry.1 entry.2 hentry).2

theorem Tied.makeConnection (h : Tied v q) (hsound : (Lifetime.ownership q).Sound)
    (hkept : Lifetime.Kept q) {data : NascentConnectionData}
    {map : List (ℕ × NascentConnectionData)}
    (hmap : map.Perm ((q.connectionsMade, data) :: v.map)) :
    Tied { v with map, live := q.connectionsMade :: v.live } (Lifetime.makeConnection q) := by
  have hkeys : (map.map Prod.fst).Perm (q.connectionsMade :: v.keys) := hmap.map Prod.fst
  have hnew : q.connectionsMade ∉ v.keys := fun hmem =>
    absurd (h.made _ (h.live _ hmem)) (Nat.lt_irrefl _)
  refine ⟨fun con hcon => ?_, fun con hcon => ?_, ?_, h.given, fun con hcon => ?_, h.once,
    fun con => ?_⟩
  · rcases List.mem_cons.mp (hkeys.mem_iff.mp hcon) with rfl | hcon
    · exact List.mem_cons_self
    · exact List.mem_cons_of_mem _ (h.live con hcon)
  · rcases List.mem_cons.mp hcon with rfl | hcon
    · exact Nat.lt_succ_self _
    · exact Nat.lt_succ_of_lt (h.made con hcon)
  · exact hkeys.nodup_iff.mpr (List.nodup_cons.mpr ⟨hnew, h.nodup⟩)
  · rcases List.mem_cons.mp (hkeys.mem_iff.mp hcon) with rfl | hcon
    · exact fun hgiven => absurd (given_made hkept hgiven) (Nat.lt_irrefl _)
    · exact h.fresh con hcon
  · have hcount : (map.map Prod.fst).count con = (q.connectionsMade :: v.keys).count con :=
      hkeys.count_eq con
    have hstep : Lifetime.step q .makeConnection = some (Lifetime.makeConnection q) := rfl
    have houtside := Lifetime.outside_step hstep con
    have hbefore := h.pointers con
    change (map.map Prod.fst).count con + v.clearing.count con ≤ _
    rw [houtside, hcount, Lifetime.outsideAfter]
    by_cases hcon : con = q.connectionsMade
    · subst hcon
      rw [outside_unmade hsound (Nat.le_refl _)] at hbefore
      rw [if_pos rfl, List.count_cons_self]
      omega
    · rw [if_neg hcon, List.count_cons_of_ne (Ne.symm hcon)]
      exact hbefore

theorem Tied.setConnectionPtr (h : Tied v q) {con : ℕ} {data : NascentConnectionData}
    {map : List (ℕ × NascentConnectionData)} (hmap : v.map.Perm ((con, data) :: map)) :
    Tied
      { v with map, clearing := v.clearing ++ [con], given := v.given ++ [(data.mq, con)] }
      (Lifetime.setConnectionPtr data.mq con q) := by
  have hkeys : v.keys.Perm (con :: map.map Prod.fst) := hmap.map Prod.fst
  obtain ⟨hcon, hnodup⟩ := List.nodup_cons.mp (hkeys.nodup_iff.mp h.nodup)
  have hrest {con' : ℕ} (hmem : con' ∈ map.map Prod.fst) : con' ∈ v.keys :=
    hkeys.mem_iff.mpr (List.mem_cons_of_mem _ hmem)
  have hsnd : (Lifetime.setConnectionPtr data.mq con q).given.map Prod.snd =
      q.given.map Prod.snd ++ [con] := List.map_append
  have hfresh := h.fresh con (hkeys.mem_iff.mpr List.mem_cons_self)
  refine ⟨fun con' hmem => h.live con' (hrest hmem), h.made, hnodup, ?_, fun con' hmem => ?_, ?_,
    fun con' => ?_⟩
  · exact congrArg (· ++ [(data.mq, con)]) h.given
  · rw [hsnd]
    intro hgiven
    rcases List.mem_append.mp hgiven with hgiven | hgiven
    · exact h.fresh con' (hrest hmem) hgiven
    · exact hcon (List.mem_singleton.mp hgiven ▸ hmem)
  · rw [hsnd, List.nodup_append_comm]
    exact List.nodup_cons.mpr ⟨hfresh, h.once⟩
  · have houtside := Lifetime.outside_setHandlers (s := q) con (some data.mq) con'
    have hcount : v.keys.count con' = (con :: map.map Prod.fst).count con' := hkeys.count_eq con'
    have hbefore := h.pointers con'
    rw [hcount, List.count_cons] at hbefore
    change (map.map Prod.fst).count con' + (v.clearing ++ [con]).count con' ≤
      ((Lifetime.setHandlers con (some data.mq) q).connections con').outside
    rw [houtside, List.count_append, List.count_singleton]
    omega

/-- The pointers of a list are dropped. -/
theorem releases_run {cons : List ℕ} (h : run Lifetime.step q (cons.map .release) = some q') :
    q'.given = q.given ∧ q'.connectionsMade = q.connectionsMade ∧
      ∀ con, (q'.connections con).outside = (q.connections con).outside - cons.count con := by
  induction cons generalizing q with
  | nil =>
    obtain rfl := Option.some.inj h
    exact ⟨rfl, rfl, fun con => (Nat.sub_zero _).symm⟩
  | cons c cons ih =>
    obtain ⟨t, hstep, hrun⟩ := run_cons_iff.mp h
    obtain ⟨hgiven, hmade, houtside⟩ := ih hrun
    have hbefore (con : ℕ) := Lifetime.outside_step hstep con
    obtain ⟨-, hstep⟩ := Option.ite_none_right_eq_some.mp hstep
    obtain rfl := Option.some.inj hstep
    refine ⟨hgiven, hmade, fun con => ?_⟩
    rw [houtside, hbefore, Lifetime.outsideAfter]
    by_cases hcon : con = c
    · subst hcon
      rw [if_pos rfl, List.count_cons_self]
      omega
    · rw [if_neg hcon, List.count_cons_of_ne (Ne.symm hcon)]

theorem releases_possible {cons : List ℕ}
    (h : ∀ con, cons.count con ≤ (q.connections con).outside) :
    ∃ q', run Lifetime.step q (cons.map .release) = some q' := by
  induction cons generalizing q with
  | nil => exact ⟨q, rfl⟩
  | cons c cons ih =>
    have hc := h c
    rw [List.count_cons_self] at hc
    have hstep : Lifetime.step q (.release c) =
        some (Lifetime.setOutside c ((q.connections c).outside - 1) q) := if_pos (by omega)
    obtain ⟨q', hrun⟩ := ih fun con => by
      rw [Lifetime.outside_step hstep con, Lifetime.outsideAfter]
      have hcon := h con
      split
      case isTrue heq =>
        subst heq
        omega
      case isFalse hne =>
        rw [List.count_cons_of_ne (Ne.symm hne)] at hcon
        exact hcon
    exact ⟨q', run_cons_iff.mpr ⟨_, hstep, hrun⟩⟩

/-- The connector drops pointers of its own. -/
theorem Tied.drop (h : Tied v q) {cons : List ℕ}
    (hrun : run Lifetime.step q (cons.map .release) = some q') (hkeys : v'.keys.Sublist v.keys)
    (hlive : v'.live = v.live) (hgiven : v'.given = v.given)
    (hcount : ∀ con, v'.keys.count con + v'.clearing.count con + cons.count con ≤
      v.keys.count con + v.clearing.count con) : Tied v' q' := by
  obtain ⟨hsame, hmade, houtside⟩ := releases_run hrun
  refine ⟨fun con hcon => ?_, fun con hcon => ?_, h.nodup.sublist hkeys, ?_, fun con hcon => ?_,
    ?_, fun con => ?_⟩
  · rw [hlive]
    exact h.live con (hkeys.subset hcon)
  · rw [hlive] at hcon
    rw [hmade]
    exact h.made con hcon
  · rw [hsame, hgiven]
    exact h.given
  · rw [hsame]
    exact h.fresh con (hkeys.subset hcon)
  · rw [hsame]
    exact h.once
  · have hbefore := h.pointers con
    have hdropped := hcount con
    rw [houtside]
    omega

theorem Tied.closed (h : Tied v q)
    (hrun : run Lifetime.step q (v.keys.map .release) = some q') :
    Tied { v with map := [] } q' := by
  refine h.drop hrun (List.nil_sublist _) rfl rfl fun con => ?_
  change 0 + v.clearing.count con + v.keys.count con ≤ _
  omega

theorem Tied.cleared (h : Tied v q) {con : ℕ} {rest : List ℕ}
    (hclearing : v.clearing = con :: rest)
    (hrun : run Lifetime.step q ([con].map .release) = some q') :
    Tied { v with clearing := rest } q' := by
  refine h.drop hrun (List.Sublist.refl _) rfl rfl fun con' => ?_
  change v.keys.count con' + rest.count con' + [con].count con' ≤ _
  rw [hclearing, List.count_singleton, List.count_cons]
  omega

/-- When given connections and the number of connections are the same, and no pointer is lost. -/
theorem Tied.others (h : Tied v q) (hgiven : q'.given = q.given)
    (hmade : q.connectionsMade ≤ q'.connectionsMade)
    (hpointers : ∀ con,
      v.keys.count con + v.clearing.count con ≤ (q'.connections con).outside) :
    Tied v q' := by
  refine ⟨h.live, fun con hcon => Nat.lt_of_lt_of_le (h.made con hcon) hmade, h.nodup,
    hgiven.trans h.given, fun con hcon => ?_, ?_, hpointers⟩
  · rw [hgiven]
    exact h.fresh con hcon
  · rw [hgiven]
    exact h.once

theorem Tied.released (h : Tied v q) {con : ℕ} (hfree : con ∉ v.keys) :
    Tied { v with live := v.live.filter (· ≠ con) } q := by
  refine { h with live := fun con' hcon => ?_, made := fun con' hcon => ?_ }
  · refine List.mem_filter.mpr ⟨h.live con' hcon, decide_eq_true fun heq => hfree ?_⟩
    exact heq ▸ hcon
  · exact h.made con' (List.mem_of_mem_filter hcon)

theorem releases_once (cons : List ℕ) :
    Along Lifetime.step Lifetime.GivenOnce q (cons.map .release) := by
  have hall : ∀ act ∈ cons.map Lifetime.Action.release, ∃ con, act = .release con := by
    intro act hact
    obtain ⟨con, -, rfl⟩ := List.mem_map.mp hact
    exact ⟨con, rfl⟩
  refine (Along.of_forall hall q).imp ?_
  rintro t act ⟨con, rfl⟩
  exact trivial

/-- A step of the connector gives a connection that has not been given. -/
theorem tied_effect {acts : List Lifetime.Action} (h : Tied v q)
    (hsound : (Lifetime.ownership q).Sound) (hkept : Lifetime.Kept q)
    (heffect : Effect q.connectionsMade v acts v') (hrun : run Lifetime.step q acts = some q') :
    Tied v' q' ∧ Along Lifetime.step Lifetime.GivenOnce q acts := by
  cases heffect with
  | same =>
    obtain rfl := Option.some.inj hrun
    exact ⟨h, trivial⟩
  | made hmap =>
    obtain rfl := Option.some.inj hrun
    exact ⟨h.makeConnection hsound hkept hmap, .singleton trivial⟩
  | @given con data map hmap =>
    obtain ⟨t, hstep, hrun⟩ := run_cons_iff.mp hrun
    obtain rfl := Option.some.inj hrun
    obtain ⟨-, hstep⟩ := Option.ite_none_right_eq_some.mp hstep
    obtain rfl := Option.some.inj hstep
    have hkey : con ∈ v.keys := (hmap.map Prod.fst).mem_iff.mpr List.mem_cons_self
    exact ⟨h.setConnectionPtr hmap, .singleton (h.fresh con hkey)⟩
  | closed => exact ⟨h.closed hrun, releases_once v.keys⟩
  | @cleared con rest hclearing => exact ⟨h.cleared hclearing hrun, releases_once [con]⟩
  | @released con hfree =>
    obtain ⟨t, hstep, hrun⟩ := run_cons_iff.mp hrun
    obtain rfl := Option.some.inj hrun
    have houtside (c : ℕ) := Lifetime.outside_step hstep c
    obtain ⟨-, hstep⟩ := Option.ite_none_right_eq_some.mp hstep
    obtain rfl := Option.some.inj hstep
    refine ⟨(h.released hfree).others rfl (Nat.le_refl _) fun c => ?_, .singleton trivial⟩
    rw [houtside]
    exact h.pointers c

/-- What is asked of queues and connections can be done, if the I/O objects of the queues that are
given connections are there, and a connection is destroyed when nothing keeps it. -/
theorem effect_possible {n : ℕ} {acts : List Lifetime.Action} (h : Tied v q)
    (heffect : Effect n v acts v')
    (hobject : ∀ mq con, .setConnectionPtr mq con ∈ acts → (q.queues mq).object = true)
    (hfree : ∀ con, .destroy (.connection con) ∈ acts →
      Lifetime.Live q (.connection con) ∧ ¬ Lifetime.Held q (.connection con)) :
    ∃ q', run Lifetime.step q acts = some q' := by
  have hsingle {act : Lifetime.Action} {t : Lifetime.World} (hs : Lifetime.step q act = some t) :
      ∃ q', run Lifetime.step q [act] = some q' := ⟨t, run_cons_iff.mpr ⟨t, hs, rfl⟩⟩
  cases heffect with
  | same => exact ⟨q, rfl⟩
  | made => exact hsingle rfl
  | @given con data map hmap =>
    have hpointers := h.pointers con
    rw [View.keys, (hmap.map Prod.fst).count_eq, List.map_cons, List.count_cons_self] at hpointers
    exact hsingle (if_pos ⟨hobject _ _ List.mem_cons_self, by omega⟩)
  | closed => exact releases_possible fun con => Nat.le_of_add_right_le (h.pointers con)
  | @cleared con rest hclearing =>
    have hone (c : ℕ) : [con].count c ≤ (q.connections c).outside := by
      have hpointers := h.pointers c
      rw [hclearing, List.count_cons] at hpointers
      rw [List.count_singleton]
      omega
    exact releases_possible hone
  | released => exact hsingle (if_pos (hfree _ List.mem_cons_self))

end

/-! ## Runs -/

structure Sound (s : World) : Prop where
  tied : Tied (view s.connector) s.queues
  sound : (Lifetime.ownership s.queues).Sound
  kept : Lifetime.Kept s.queues

section
variable {s s' : World}

theorem numbered_ok {act : ConnectorImpl.Action} {con : ℕ} {client : Client}
    (h : numbered s act = .next (.ok con) client) : con = s.queues.connectionsMade := by
  unfold numbered at h
  split at h
  case h_1 =>
    injection h with h
    exact (Except.ok.inj h).symm
  case h_2 hne => exact absurd h (hne con client)

theorem connector_effect (h : Sound s) {act : ConnectorImpl.Action} {connector : ConnectorLoop}
    (hs : ConnectorImpl.step s.connector (numbered s act) = some connector) :
    Effect s.queues.connectionsMade (view s.connector) (effects s.connector (numbered s act))
      (view connector) :=
  step_effect (fun _ _ => numbered_ok) h.tied.live hs

theorem others_once {act : Lifetime.Action} (h : Others s act) :
    Lifetime.GivenOnce s.queues act := by
  cases act with
  | setConnectionPtr i c => exact h.elim
  | setHandlers c => exact h.elim
  | makeQueue | makeConnection | retain | release | asyncReceive | close | message | closeEvent
  | transport | next | dropObject | destroy => exact trivial

/-- Others do not drop the connector's pointers. -/
theorem others_outside (h : Sound s) {act : Lifetime.Action} (hothers : Others s act) (con : ℕ) :
    (keys s.connector).count con + (clearing s.connector).count con ≤
      Lifetime.outsideAfter s.queues con act := by
  have hpointers := h.tied.pointers con
  change (keys s.connector).count con + (clearing s.connector).count con ≤ _ at hpointers
  unfold Lifetime.outsideAfter
  cases act with
  | makeConnection =>
    dsimp only
    split
    case isTrue hcon =>
      rw [outside_unmade h.sound (Nat.le_of_eq hcon.symm)] at hpointers
      omega
    case isFalse => exact hpointers
  | retain c =>
    dsimp only
    split
    case isTrue hcon =>
      subst hcon
      omega
    case isFalse => exact hpointers
  | release c =>
    dsimp only
    split
    case isTrue hcon =>
      subst hcon
      exact Nat.le_sub_one_of_lt hothers
    case isFalse => exact hpointers
  | setConnectionPtr i c => exact hothers.elim
  | setHandlers c => exact hothers.elim
  | makeQueue | asyncReceive | close | message | closeEvent | transport | next | dropObject
  | destroy => exact hpointers

theorem sound_step {act : Action} (h : Sound s) (hs : step s act = some s') : Sound s' := by
  cases act with
  | connector act =>
    obtain ⟨connector, hconnector, hs⟩ := Option.bind_eq_some_iff.mp hs
    obtain ⟨queues, hrun, rfl⟩ := Option.map_eq_some_iff.mp hs
    obtain ⟨htied, honce⟩ :=
      tied_effect h.tied h.sound h.kept (connector_effect h hconnector) hrun
    obtain ⟨hsound, hkept⟩ := Lifetime.kept_along h.sound h.kept honce hrun
    exact ⟨htied, hsound, hkept⟩
  | queues act =>
    obtain ⟨hothers, hs⟩ := Option.ite_none_right_eq_some.mp hs
    obtain ⟨queues, hqueues, rfl⟩ := Option.map_eq_some_iff.mp hs
    have honce := others_once hothers
    refine ⟨?_, Lifetime.sound_step h.sound hqueues,
      Lifetime.kept_step h.sound h.kept honce hqueues⟩
    rcases Lifetime.same_step h.kept honce hqueues with hsame | ⟨i, c, rfl⟩
    · refine h.tied.others hsame.given hsame.connectionsMade fun con => ?_
      rw [Lifetime.outside_step hqueues]
      exact others_outside h hothers con
    · exact hothers.elim

theorem sound_init : Sound init where
  tied := ⟨nofun, nofun, List.nodup_nil, rfl, nofun, List.nodup_nil, fun _ => Nat.le_refl 0⟩
  sound := Lifetime.sound_init
  kept := Lifetime.kept_init

theorem sound_run {as : List Action} (h : run step init as = some s) : Sound s :=
  run_invariant (fun _ _ _ hsound hs => sound_step hsound hs) sound_init h

/-- **A message queue that has been connected is never freed, nor is one whose connect has failed.**
In every run of a connector with any number of message queues, each connection is given once, and a
queue that has been given one, opened or failed, is there for good, with the connection that it was
given last. When nothing is left to go, a queue whose I/O object is gone and that owes no receive is
destroyed exactly if none of its connects was answered by an open or fail event. And whatever the
connector can do, the queues let it do, as long as the I/O objects of those that it gives
connections to are there. -/
theorem connected_never_freed {as : List Action} (h : run step init as = some s) :
    ((given s.connector).map Prod.snd).Nodup ∧
      (∀ mq con, (mq, con) ∈ given s.connector → Lifetime.Live s.queues (.queue mq) ∧
        ∃ d, (s.queues.queues mq).loop.world.mPtr = some d ∧ (mq, d) ∈ given s.connector ∧
          Lifetime.Live s.queues (.connection d)) ∧
      ((Lifetime.ownership s.queues).Settled → ∀ mq < s.queues.queuesMade,
        (s.queues.queues mq).object = false →
        MessageQueueImpl.outstanding (s.queues.queues mq).loop = [] →
        ((s.queues.queues mq).destroyed = true ↔ ∀ con, (mq, con) ∉ given s.connector)) ∧
      ∀ act connector, ConnectorImpl.step s.connector (numbered s act) = some connector →
        (∀ mq con, .setConnectionPtr mq con ∈ effects s.connector (numbered s act) →
          (s.queues.queues mq).object = true) →
        (∀ con, .destroy (.connection con) ∈ effects s.connector (numbered s act) →
          Lifetime.Live s.queues (.connection con) ∧
            ¬ Lifetime.Held s.queues (.connection con)) →
        ∃ s', step s (.connector act) = some s' := by
  have hsound := sound_run h
  have hgiven : s.queues.given = given s.connector := hsound.tied.given
  rw [← hgiven]
  refine ⟨hsound.tied.once, fun mq con hcon => ?_, fun hsettled mq hmq hobject hnone => ?_,
    fun act connector hconnector hobject hfree => ?_⟩
  · obtain ⟨hlive, d, hptr, hd⟩ := hsound.kept.live_of_given hcon
    exact ⟨hlive, d, hptr, hsound.kept.mPtr mq d hptr, hd⟩
  · exact hsound.kept.freed_iff hsettled hmq hobject hnone
  · obtain ⟨queues, hrun⟩ :=
      effect_possible hsound.tied (connector_effect hsound hconnector) hobject hfree
    refine ⟨⟨connector, queues⟩, Option.bind_eq_some_iff.mpr ⟨connector, hconnector, ?_⟩⟩
    exact Option.map_eq_some_iff.mpr ⟨queues, hrun, rfl⟩

end

/-- The connect of the first queue fails, and that of the second is aborted. Then the connector has
let both connections go, and the I/O objects go. -/
theorem connected_never_freed_failed :
    ∃ s, run step init [.queues .makeQueue, .queues .makeQueue, .connector (.asyncConnect 0),
        .connector (.asyncConnect 1), .connector (.next (.ok 0) fun _ _ => []),
        .connector (.next (.ok 0) fun _ _ => []),
        .connector (.failEvent 0 none none fun _ _ => []), .connector .close,
        .connector (.next (.ok 0) fun _ _ => []), .connector (.next (.ok 0) fun _ _ => []),
        .connector (.release 1), .queues (.dropObject 0), .queues (.dropObject 1),
        .queues (.destroy (.queue 1))] = some s ∧
      calledIds s.connector = [0, 1] ∧ given s.connector = [(0, 0)] ∧
      Lifetime.Live s.queues (.queue 0) ∧ (s.queues.queues 1).destroyed = true ∧
      (Lifetime.ownership s.queues).Settled := by
  have hrun : run step init [.queues .makeQueue, .queues .makeQueue,
      .connector (.asyncConnect 0), .connector (.asyncConnect 1),
      .connector (.next (.ok 0) fun _ _ => []), .connector (.next (.ok 0) fun _ _ => []),
      .connector (.failEvent 0 none none fun _ _ => []), .connector .close,
      .connector (.next (.ok 0) fun _ _ => []), .connector (.next (.ok 0) fun _ _ => []),
      .connector (.release 1), .queues (.dropObject 0), .queues (.dropObject 1),
      .queues (.destroy (.queue 1))] = some _ := rfl
  obtain ⟨-, hlive, hfreed, -⟩ := connected_never_freed hrun
  refine ⟨_, hrun, by decide, by decide, (hlive 0 0 (by decide)).1, ?_, by decide⟩
  refine (hfreed (by decide) 1 (by decide) rfl rfl).mpr fun con hcon => ?_
  replace hcon : (1, con) ∈ [(0, 0)] := hcon
  simp at hcon

end CxxUtil.Ws.Connecting
