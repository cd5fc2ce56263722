import CxxUtil.Ws.Connector

/-! # Every connect is answered once

A connect is posted, in the map, or has been answered. Handlers only post, so the loop in `close()`
runs over a map that stays as it is, and the functions posted before a `close()` run before it. -/
namespace CxxUtil.Ws.ConnectorImpl
open Foundations Asio
set_option autoImplicit false

def Event.called? : Event → Option ℕ
  | .called id _ => some id
  | _ => none

def Job.connect? : Job → Option ℕ
  | .connect id _ => some id
  | _ => none

def calledIds (s : ConnectorLoop) : List ℕ := s.world.log.filterMap Event.called?

def postedIds (s : ConnectorLoop) : List ℕ := s.posted.filterMap Job.connect?

def nascentIds (s : ConnectorLoop) : List ℕ :=
  s.world.mNascentConnections.map fun entry => entry.2.id

/-- The connects are those answered, those of `ids`, and those posted. -/
def Accounted (ids : List ℕ) (s : ConnectorLoop) : Prop :=
  IssuedOnce s.world.initiated (calledIds s ++ (ids ++ postedIds s))

def Event.insertion? (con : ℕ) : Event → Option (ℕ × ℕ)
  | .inserted con' id mq => if con' = con then some (id, mq) else none
  | _ => none

/-- The connect and the message queue that `con` was last inserted for. -/
def owner (con : ℕ) (log : List Event) : Option (ℕ × ℕ) :=
  (log.filterMap (Event.insertion? con)).getLast?

/-- In `log` success is reported only right after the message queue of the connect has been given
its connection, which comes right after an open event of that connection. -/
def SuccessAfterOpen (log : List Event) : Prop :=
  ∀ before id after, log = before ++ .called id none :: after →
    ∃ earlier con mq, before = earlier ++ [.opened con, .given mq con] ∧
      owner con earlier = some (id, mq)

/-- `j` is not a `close()` that a connect initiated before it would follow. -/
def Job.Precedes (j k : Job) : Prop :=
  ∀ before id mq, j = .close before → k = .connect id mq → before ≤ id

/-- What handlers and clients preserve apart from the account of the connects. -/
structure Orderly (s : ConnectorLoop) : Prop where
  ordered : s.posted.Pairwise Job.Precedes
  bounded : ∀ before, .close before ∈ s.posted → before ≤ s.world.initiated
  closed : ∀ before ∈ s.world.closesRun, ∀ id < before, id ∈ calledIds s
  success : SuccessAfterOpen s.world.log
  assertHolds : s.world.assertFailed = false

/-! ## The log -/

theorem successAfterOpen_append {log : List Event} {e : Event} (h : SuccessAfterOpen log)
    (he : ∀ id, e = .called id none → ∃ earlier con mq,
      log = earlier ++ [.opened con, .given mq con] ∧ owner con earlier = some (id, mq)) :
    SuccessAfterOpen (log ++ [e]) := by
  intro before id after heq
  rcases List.eq_nil_or_concat after with rfl | ⟨after, last, rfl⟩
  · obtain ⟨rfl, hlast⟩ := List.append_inj' heq rfl
    exact he id (List.singleton_inj.mp hlast)
  · rw [List.concat_eq_append, ← List.cons_append, ← List.append_assoc] at heq
    obtain ⟨rfl, -⟩ := List.append_inj' heq rfl
    exact h before id after rfl

theorem owner_append (con : ℕ) (log : List Event) (e : Event) :
    owner con (log ++ [e]) = (e.insertion? con).or (owner con log) := by
  cases h : e.insertion? con <;> simp [owner, h]

section
variable {s : ConnectorLoop}

theorem record_log (e : Event) (s : ConnectorLoop) :
    (record e s).world.log = s.world.log ++ [e] := rfl

theorem calledIds_record (e : Event) (s : ConnectorLoop) :
    calledIds (record e s) = calledIds s ++ e.called?.toList := by
  cases e <;> simp [calledIds, record, Event.called?]

theorem postedIds_post (job : Job) (s : ConnectorLoop) :
    postedIds (s.post job) = postedIds s ++ job.connect?.toList := by
  simp [postedIds, filterMap_cons_toList]

/-! ## The account -/

theorem Accounted.perm {ids ids' : List ℕ} (h : Accounted ids s) (hp : ids'.Perm ids) :
    Accounted ids' s :=
  IssuedOnce.perm h ((hp.append_right _).append_left _)

theorem Accounted.post {ids : List ℕ} (h : Accounted ids s) {job : Job}
    (hjob : job.connect? = none) : Accounted ids (s.post job) := by
  show IssuedOnce s.world.initiated (calledIds s ++ (ids ++ postedIds (s.post job)))
  rw [postedIds_post, hjob]
  simpa [Accounted] using h

theorem Accounted.record {ids : List ℕ} (h : Accounted ids s) {e : Event}
    (he : e.called? = none) : Accounted ids (record e s) := by
  show IssuedOnce s.world.initiated (calledIds (ConnectorImpl.record e s) ++ (ids ++ postedIds s))
  rw [calledIds_record, he]
  simpa [Accounted] using h

theorem Accounted.answer {ids : List ℕ} {id : ℕ} (h : Accounted (id :: ids) s) (ec : ErrorCode) :
    Accounted ids (ConnectorImpl.record (.called id ec) s) := by
  show IssuedOnce s.world.initiated (calledIds (ConnectorImpl.record _ s) ++ (ids ++ postedIds s))
  rw [calledIds_record]
  simpa [Accounted, Event.called?] using h

theorem Accounted.call {ids : List ℕ} (h : Accounted ids s) (call : Call) :
    Accounted ids (call.run s) := by
  cases call with
  | close => exact h.post rfl
  | asyncConnect mq =>
    refine IssuedOnce.perm (IssuedOnce.issue h) ?_
    rw [Call.run, asyncConnect, postedIds_post]
    simp [calledIds, postedIds, Job.connect?]

/-! ## The order of the posted functions and the log -/

theorem Orderly.post (h : Orderly s) {job : Job}
    (hclose : ∀ before, job = .close before → before ≤ s.world.initiated)
    (hconnect : ∀ before id mq, .close before ∈ s.posted → job = .connect id mq → before ≤ id) :
    Orderly (s.post job) := by
  refine ⟨?_, ?_, h.closed, h.success, h.assertHolds⟩
  · refine List.pairwise_append.mpr ⟨h.ordered, List.pairwise_singleton _ _, ?_⟩
    rintro j hj k hk before id mq rfl heq
    exact hconnect before id mq hj ((List.mem_singleton.mp hk).symm.trans heq)
  · intro before hmem
    rcases List.mem_append.mp hmem with hmem | hmem
    · exact h.bounded before hmem
    · exact hclose before (List.mem_singleton.mp hmem).symm

theorem Orderly.record (h : Orderly s) {e : Event}
    (he : ∀ id, e = .called id none → ∃ earlier con mq,
      s.world.log = earlier ++ [.opened con, .given mq con] ∧ owner con earlier = some (id, mq)) :
    Orderly (record e s) where
  ordered := h.ordered
  bounded := h.bounded
  closed before hmem id hid := by
    rw [calledIds_record]
    exact List.mem_append_left _ (h.closed before hmem id hid)
  success := successAfterOpen_append h.success he
  assertHolds := h.assertHolds

theorem Orderly.call (h : Orderly s) (call : Call) : Orderly (call.run s) := by
  cases call with
  | close =>
    refine h.post (fun before heq => ?_) (fun before id mq _ heq => by cases heq)
    exact Nat.le_of_eq (Job.close.inj heq).symm
  | asyncConnect mq =>
    have hmore : Orderly (s.update fun w => { w with initiated := w.initiated + 1 }) :=
      { h with bounded := fun before hmem => Nat.le_succ_of_le (h.bounded before hmem) }
    refine hmore.post (fun before heq => by cases heq) (fun before id mq' hmem heq => ?_)
    rw [← (Job.connect.inj heq).1]
    exact h.bounded before hmem

/-! ## Calling a handler -/

/-- Each entry of the map has a connection that exists and was last inserted for it. -/
def Registered (s : ConnectorLoop) : Prop :=
  ∀ entry ∈ s.world.mNascentConnections, entry.1 ∈ s.world.live ∧
    owner entry.1 s.world.log = some (entry.2.id, entry.2.mq)

theorem Registered.record (h : Registered s) {e : Event}
    (he : ∀ entry ∈ s.world.mNascentConnections, e.insertion? entry.1 = none) :
    Registered (record e s) := by
  intro entry hmem
  refine ⟨(h entry hmem).1, ?_⟩
  rw [record_log, owner_append, he entry hmem]
  exact (h entry hmem).2

/-- The handlers of `ids` are those still to be called that no posted function holds. -/
structure Owing (ids : List ℕ) (s : ConnectorLoop) : Prop where
  accounted : Accounted ids s
  orderly : Orderly s
  registered : Registered s

def Consistent (s : ConnectorLoop) : Prop := Owing (nascentIds s) s

/-- No connect initiated before the `close()` is posted, and none will be. -/
def Behind (before : ℕ) (s : ConnectorLoop) : Prop :=
  before ≤ s.world.initiated ∧ ∀ id ∈ postedIds s, before ≤ id

theorem foldl_calls {Inv : ConnectorLoop → Prop} (hcall : ∀ s call, Inv s → Inv (Call.run call s))
    (calls : List Call) (h : Inv s) : Inv (calls.foldl (fun s call => call.run s) s) := by
  induction calls generalizing s with
  | nil => exact h
  | cons call calls ih => exact ih (hcall s call h)

theorem callHandler_map (client : Client) (id : ℕ) (ec : ErrorCode) (s : ConnectorLoop) :
    (callHandler client id ec s).world.mNascentConnections = s.world.mNascentConnections := by
  have hcall (t : ConnectorLoop) (call : Call)
      (ht : t.world.mNascentConnections = s.world.mNascentConnections) :
      (call.run t).world.mNascentConnections = s.world.mNascentConnections := by
    cases call <;> exact ht
  exact foldl_calls hcall _ rfl

theorem Owing.callHandler {ids : List ℕ} {id : ℕ} (h : Owing (id :: ids) s) (client : Client)
    {ec : ErrorCode} (hec : ec = none → ∃ earlier con mq,
      s.world.log = earlier ++ [.opened con, .given mq con] ∧ owner con earlier = some (id, mq)) :
    Owing ids (callHandler client id ec s) := by
  have hanswered : Owing ids (ConnectorImpl.record (.called id ec) s) := by
    refine ⟨h.accounted.answer ec, h.orderly.record fun id' heq => ?_,
      h.registered.record fun _ _ => rfl⟩
    obtain ⟨rfl, rfl⟩ := Event.called.inj heq
    exact hec rfl
  refine foldl_calls (fun t call ht => ?_) _ hanswered
  refine ⟨ht.accounted.call call, ht.orderly.call call, ?_⟩
  cases call <;> exact ht.registered

theorem Behind.callHandler {before : ℕ} (h : Behind before s) (client : Client) (id : ℕ)
    (ec : ErrorCode) : Behind before (callHandler client id ec s) := by
  refine foldl_calls (fun t call ht => ?_) _ h
  cases call with
  | close =>
    refine ⟨ht.1, ?_⟩
    simpa [Call.run, close, postedIds_post, Job.connect?] using ht.2
  | asyncConnect mq =>
    refine ⟨Nat.le_succ_of_le ht.1, fun id' hmem => ?_⟩
    rw [Call.run, asyncConnect, postedIds_post] at hmem
    rcases List.mem_append.mp hmem with hmem | hmem
    · exact ht.2 id' hmem
    · obtain rfl : id' = t.world.initiated := by simpa [Job.connect?] using hmem
      exact ht.1

/-! ## The map -/

theorem insert_fresh {con : ℕ} {map : List (ℕ × NascentConnectionData)}
    (h : con ∉ map.map Prod.fst) (data : NascentConnectionData) :
    (insert con data map).2 = true ∧ (insert con data map).1.Perm ((con, data) :: map) := by
  induction map with
  | nil => exact ⟨rfl, List.Perm.refl _⟩
  | cons entry map ih =>
    obtain ⟨hne, hmap⟩ : con ≠ entry.1 ∧ con ∉ map.map Prod.fst := by simpa using h
    obtain ⟨hsuccess, hperm⟩ := ih hmap
    unfold insert
    split
    · exact ⟨rfl, List.Perm.refl _⟩
    · exact ⟨hsuccess, (hperm.cons _).trans (List.Perm.swap _ _ _)⟩

theorem extract_perm {con : ℕ} {data : NascentConnectionData}
    {map rest : List (ℕ × NascentConnectionData)} (h : extract con map = some (data, rest)) :
    map.Perm ((con, data) :: rest) := by
  induction map generalizing rest with
  | nil => cases h
  | cons entry map ih =>
    unfold extract at h
    split at h
    case isTrue heq =>
      obtain ⟨rfl, rfl⟩ := Prod.mk.inj (Option.some.inj h)
      obtain rfl := heq
      exact List.Perm.refl _
    case isFalse =>
      obtain ⟨⟨data', rest'⟩, hfound, heq⟩ := Option.map_eq_some_iff.mp h
      obtain ⟨rfl, rfl⟩ := Prod.mk.inj heq
      exact ((ih hfound).cons _).trans (List.Perm.swap _ _ _)

/-! ## The steps -/

theorem Owing.connect {id mq : ℕ} {got : Except Error ℕ} {client : Client} {s' : ConnectorLoop}
    (h : Owing (id :: nascentIds s) s) (hs : connect id mq got client s = some s') :
    Consistent s' := by
  cases got with
  | error e =>
    obtain rfl := Option.some.inj hs
    unfold Consistent nascentIds
    rw [callHandler_map]
    exact h.callHandler client (fun hnone => by cases hnone)
  | ok con =>
    -- the keys of the map are connections that exist, and `con` is new
    simp only [ConnectorImpl.connect, Option.ite_none_left_eq_some] at hs
    obtain ⟨hlive, hs⟩ := hs
    have hkey : con ∉ s.world.mNascentConnections.map Prod.fst := fun hmem => by
      obtain ⟨entry, hentry, rfl⟩ := List.mem_map.mp hmem
      exact hlive (h.registered entry hentry).1
    obtain ⟨hsuccess, hperm⟩ := insert_fresh hkey ⟨id, mq⟩
    rw [hsuccess, if_pos rfl] at hs
    obtain rfl := Option.some.inj hs
    refine ⟨?_, ?_, ?_⟩
    · apply Accounted.record _ rfl
      exact h.accounted.perm (hperm.map fun entry : ℕ × NascentConnectionData => entry.2.id)
    · apply Orderly.record _ (fun id' heq => by cases heq)
      exact { h.orderly with }
    · intro entry hmem
      rcases List.mem_cons.mp (hperm.mem_iff.mp hmem) with rfl | hmem
      · refine ⟨List.mem_cons_self, ?_⟩
        rw [record_log, owner_append, Event.insertion?, if_pos rfl]
        rfl
      · obtain ⟨hentry, howner⟩ := h.registered entry hmem
        have hne : con ≠ entry.1 := fun heq => hlive (heq ▸ hentry)
        refine ⟨List.mem_cons_of_mem _ hentry, ?_⟩
        rw [record_log, owner_append, Event.insertion?, if_neg hne]
        exact howner

theorem Consistent.openOrFail {con : ℕ} {ec : ErrorCode} (h : Consistent s) (client : Client)
    (hec : ec = none → ∃ earlier, s.world.log = earlier ++ [.opened con] ∧
      ∀ entry ∈ s.world.mNascentConnections,
        owner entry.1 earlier = some (entry.2.id, entry.2.mq)) :
    Consistent (handleOpenOrFail con ec client s) := by
  unfold handleOpenOrFail
  cases hfound : extract con s.world.mNascentConnections with
  | none => exact h
  | some found =>
    obtain ⟨data, map⟩ := found
    have hperm := extract_perm hfound
    unfold Consistent nascentIds
    rw [callHandler_map]
    refine Owing.callHandler ⟨?_, ?_, ?_⟩ client fun hnone => ?_
    · apply Accounted.record _ rfl
      apply Accounted.post _ rfl
      exact h.accounted.perm (hperm.map fun entry : ℕ × NascentConnectionData => entry.2.id).symm
    · apply Orderly.record _ (fun id heq => by cases heq)
      apply Orderly.post _ (fun before heq => by cases heq) (fun before id mq _ heq => by cases heq)
      exact { h.orderly with }
    · apply Registered.record _ fun _ _ => rfl
      exact fun entry hmem => h.registered entry (hperm.mem_iff.mpr (List.mem_cons_of_mem _ hmem))
    · obtain ⟨earlier, hlog, howner⟩ := hec hnone
      refine ⟨earlier, con, data.mq, ?_, howner (con, data) (hperm.mem_iff.mpr List.mem_cons_self)⟩
      simp [record, hlog]

/-- The loop in `close()`. -/
theorem Owing.closeAll {before : ℕ} {entries : List (ℕ × NascentConnectionData)}
    (h : Owing (entries.map fun entry => entry.2.id) s) (hb : Behind before s) (client : Client) :
    Owing [] (entries.foldl (closeNascent client) s) ∧
      Behind before (entries.foldl (closeNascent client) s) := by
  induction entries generalizing s with
  | nil => exact ⟨h, hb⟩
  | cons entry entries ih =>
    have hcleared : Owing (entry.2.id :: entries.map fun entry => entry.2.id)
        (clearHandlers entry.1 s) := ⟨h.accounted, { h.orderly with }, h.registered⟩
    have hbehind : Behind before (clearHandlers entry.1 s) := hb
    exact ih (hcleared.callHandler client (fun hnone => by cases hnone))
      (hbehind.callHandler client _ _)

theorem Consistent.runClose {before : ℕ} (h : Consistent s) (hb : Behind before s)
    (client : Client) : Consistent (runClose before client s) := by
  obtain ⟨hall, hbehind, hposted⟩ := Owing.closeAll h hb client
  refine ⟨hall.accounted, { hall.orderly with closed := ?_ }, fun entry hmem => by cases hmem⟩
  intro before' hmem id hid
  rcases List.mem_append.mp hmem with hmem | hmem
  · exact hall.orderly.closed before' hmem id hid
  · -- a connect from before is not posted any more, and the loop has emptied the map
    obtain rfl := List.mem_singleton.mp hmem
    have hknown := (IssuedOnce.mem_iff hall.accounted).mpr (Nat.lt_of_lt_of_le hid hbehind)
    rcases List.mem_append.mp hknown with hcalled | hwaiting
    · exact hcalled
    · exact absurd (hposted id hwaiting) (Nat.not_le_of_lt hid)

theorem Consistent.next {got : Except Error ℕ} {client : Client} {s' : ConnectorLoop}
    (h : Consistent s) (hs : s.next (exec got client) = some s') : Consistent s' := by
  obtain ⟨job, jobs, hposted, hs⟩ := Loop.next_eq_some.mp hs
  have hordered := h.orderly.ordered
  have hbounded := h.orderly.bounded
  have haccounted := h.accounted
  rw [hposted] at hordered hbounded
  obtain ⟨hfirst, htail⟩ := List.pairwise_cons.mp hordered
  have horderly : Orderly ⟨s.world, jobs⟩ :=
    { h.orderly with
      ordered := htail
      bounded := fun before hmem => hbounded before (List.mem_cons_of_mem _ hmem) }
  have hids : postedIds s = job.connect?.toList ++ jobs.filterMap Job.connect? := by
    rw [postedIds, hposted, filterMap_cons_toList]
  unfold Accounted at haccounted
  rw [hids] at haccounted
  cases job with
  | connect id mq =>
    refine Owing.connect ⟨?_, horderly, h.registered⟩ hs
    refine IssuedOnce.perm haccounted (List.Perm.append_left _ ?_)
    exact List.perm_middle.symm
  | close before =>
    obtain rfl := Option.some.inj hs
    have hpopped : Consistent ⟨s.world, jobs⟩ := ⟨haccounted, horderly, h.registered⟩
    refine hpopped.runClose ⟨hbounded before List.mem_cons_self, fun id hmem => ?_⟩ client
    obtain ⟨k, hk, hid⟩ := List.mem_filterMap.mp hmem
    cases k with
    | connect id' mq =>
      obtain rfl := Option.some.inj hid
      exact hfirst _ hk before id' mq rfl rfl
    | close => cases hid
    | clearHandlers => cases hid
  | clearHandlers con =>
    obtain rfl := Option.some.inj hs
    exact ⟨haccounted, { horderly with }, h.registered⟩

theorem Consistent.record (h : Consistent s) {e : Event} (he : e.called? = none)
    (hinsertion : ∀ con, e.insertion? con = none) : Consistent (record e s) := by
  refine ⟨h.accounted.record he, h.orderly.record fun id heq => ?_,
    h.registered.record fun entry _ => hinsertion entry.1⟩
  rw [heq] at he
  cases he

theorem consistent_step (s : ConnectorLoop) (a : Action) (s' : ConnectorLoop) (h : Consistent s)
    (hs : step s a = some s') : Consistent s' := by
  cases a with
  | asyncConnect mq =>
    obtain rfl := Option.some.inj hs
    exact ⟨h.accounted.call (.asyncConnect mq), h.orderly.call (.asyncConnect mq), h.registered⟩
  | close =>
    obtain rfl := Option.some.inj hs
    exact ⟨h.accounted.call .close, h.orderly.call .close, h.registered⟩
  | openEvent con got client =>
    obtain ⟨-, hs⟩ := Option.ite_none_right_eq_some.mp hs
    obtain rfl := Option.some.inj hs
    have hopened : Consistent (ConnectorImpl.record (.opened con) s) := h.record rfl fun _ => rfl
    unfold handleOpen
    split
    · exact hopened
    · exact hopened.openOrFail client fun _ =>
        ⟨s.world.log, rfl, fun entry hmem => (h.registered entry hmem).2⟩
  | failEvent con got transportEc client =>
    obtain ⟨-, hs⟩ := Option.ite_none_right_eq_some.mp hs
    obtain rfl := Option.some.inj hs
    have hfailed : Consistent (ConnectorImpl.record (.failed con) s) := h.record rfl fun _ => rfl
    unfold handleFail
    split
    · exact hfailed
    · refine hfailed.openOrFail client fun hnone => ?_
      cases transportEc <;> cases hnone
  | next got client => exact h.next hs
  | release con =>
    obtain ⟨hfree, hs⟩ := Option.ite_none_left_eq_some.mp hs
    obtain rfl := Option.some.inj hs
    refine ⟨h.accounted, { h.orderly with }, fun entry hmem => ⟨?_, (h.registered entry hmem).2⟩⟩
    refine List.mem_filter.mpr ⟨(h.registered entry hmem).1, decide_eq_true fun heq => hfree ?_⟩
    exact .inl (heq ▸ List.mem_map_of_mem hmem)

end

theorem consistent_init : Consistent init where
  accounted := IssuedOnce.nil
  orderly := {
    ordered := List.Pairwise.nil
    bounded := fun before hmem => by cases hmem
    closed := fun before hmem => by cases hmem
    success := fun before id after heq => by cases before <;> cases heq
    assertHolds := rfl }
  registered := fun entry hmem => by cases hmem

theorem consistent_run {s : ConnectorLoop} {as : List Action} (h : run step init as = some s) :
    Consistent s :=
  run_invariant consistent_step consistent_init h

/-- However connects, closes and the events of connections interleave: no handler is called twice;
those not yet called are held by posted functions and by the map, each once; success follows the
open event of the connect's own connection, which its message queue has been given; once a `close()`
has run, the connects initiated before it have been answered; and the assertion holds. -/
theorem connects_answered_once {s : ConnectorLoop} {as : List Action}
    (h : run step init as = some s) :
    (calledIds s).Nodup ∧
      (∀ id, (id < s.world.initiated ∧ id ∉ calledIds s) ↔
        id ∈ postedIds s ∨ id ∈ nascentIds s) ∧
      (postedIds s ++ nascentIds s).Nodup ∧
      SuccessAfterOpen s.world.log ∧
      (∀ before ∈ s.world.closesRun, ∀ id < before, id ∈ calledIds s ∧ id ∉ nascentIds s) ∧
      s.world.assertFailed = false := by
  obtain ⟨haccounted, horderly, -⟩ := consistent_run h
  obtain ⟨hcalled, hheld, hdisjoint⟩ := List.nodup_append.mp haccounted.nodup
  have hnot (id : ℕ) (hid : id ∈ calledIds s) : id ∉ nascentIds s ++ postedIds s :=
    fun hmem => hdisjoint id hid id hmem rfl
  refine ⟨hcalled, fun id => ?_, (List.perm_append_comm.nodup_iff).mpr hheld, horderly.success,
    fun before hbefore id hid => ?_, horderly.assertHolds⟩
  · rw [← haccounted.mem_iff, or_comm, ← List.mem_append, List.mem_append]
    constructor
    · rintro ⟨hmem | hmem, hid⟩
      · exact absurd hmem hid
      · exact hmem
    · exact fun hmem => ⟨.inr hmem, fun hid => hnot id hid hmem⟩
  · have hid := horderly.closed before hbefore id hid
    exact ⟨hid, fun hmem => hnot id hid (List.mem_append_left _ hmem)⟩

/-- The first of three connects opens and its handler connects and closes; the second waits until
then, and the third gets no connection. -/
theorem connects_answered_once_reentrant :
    ∃ s, run step init [.asyncConnect 7, .asyncConnect 8, .asyncConnect 9,
        .next (.ok 5) fun _ _ => [], .next (.ok 6) fun _ _ => [],
        .openEvent 5 none fun _ _ => [.asyncConnect 7, .close],
        .next (.error (.other 1)) fun _ _ => [], .next (.ok 4) fun _ _ => [],
        .next (.ok 4) fun _ _ => [], .next (.ok 3) fun _ _ => []] = some s ∧
      calledIds s = [0, 2, 3, 1] ∧
      ∀ id < 4, id ∈ calledIds s ∧ id ∉ nascentIds s := by
  have hrun : run step init [.asyncConnect 7, .asyncConnect 8, .asyncConnect 9,
      .next (.ok 5) fun _ _ => [], .next (.ok 6) fun _ _ => [],
      .openEvent 5 none fun _ _ => [.asyncConnect 7, .close],
      .next (.error (.other 1)) fun _ _ => [], .next (.ok 4) fun _ _ => [],
      .next (.ok 4) fun _ _ => [], .next (.ok 3) fun _ _ => []] = some _ := rfl
  exact ⟨_, hrun, by decide, (connects_answered_once hrun).2.2.2.2.1 4 (by decide)⟩

end CxxUtil.Ws.ConnectorImpl
