import CxxUtil.Ws.ConnectorAnswers
import CxxUtil.Ws.Lifetime

/-! # A connector and the message queues that it connects

`ConnectorImpl` makes a connection for each connect, has a pointer to it in its map and then in the
function that is to clear its handlers, and gives it to the message queue when it has opened, and
also when it has failed. Nobody else gives connections here, and so each is given once. -/
namespace CxxUtil.Ws.Connecting
open Foundations Asio ConnectorImpl
set_option autoImplicit false

structure World where
  connector : ConnectorLoop
  queues : Lifetime.World

def keys (s : ConnectorLoop) : List ℕ := s.world.mNascentConnections.map Prod.fst

def Job.clearing? : Job → Option ℕ
  | .clearHandlers con => some con
  | _ => none

def clearing (s : ConnectorLoop) : List ℕ := s.posted.filterMap Job.clearing?

/-! ## What the connector does to queues and connections -/

/-- `handleOpenOrFail`. -/
def gives (con : ℕ) (got : ErrorCode) (s : ConnectorLoop) : List Lifetime.Action :=
  if got.isSome then []
  else
    match extract con s.world.mNascentConnections with
    | some (data, _) => [.setConnectionPtr data.mq con]
    | none => []

/-- The posted functions. -/
def runs (got : Except Error ℕ) (s : ConnectorLoop) : Job → List Lifetime.Action
  | .connect _ _ =>
    match got with
    | .ok _ => [.makeConnection]
    | .error _ => []
  | .close _ => (keys s).map .release
  | .clearHandlers con => [.release con]

/-- A connection to which nobody refers is destroyed. -/
def effects (s : ConnectorLoop) : ConnectorImpl.Action → List Lifetime.Action
  | .asyncConnect _ | .close => []
  | .openEvent con got _ => gives con got s
  | .failEvent con got _ _ => gives con got s
  | .next got _ =>
    match s.posted with
    | job :: _ => runs got s job
    | [] => []
  | .release con => [.destroy (.connection con)]

/-- Connections are numbered as they are made. -/
def numbered (s : World) : ConnectorImpl.Action → ConnectorImpl.Action
  | .next (.ok _) client => .next (.ok s.queues.connectionsMade) client
  | act => act

/-- What others do. They drop pointers of their own. -/
def Others (s : World) : Lifetime.Action → Prop
  | .setConnectionPtr _ _ | .setHandlers _ | .destroy (.connection _) => False
  | .release con =>
    (keys s.connector).count con + (clearing s.connector).count con <
      (s.queues.connections con).outside
  | _ => True

instance (s : World) : DecidablePred (Others s)
  | .setConnectionPtr _ _ | .setHandlers _ | .destroy (.connection _) => .isFalse not_false
  | .release _ => inferInstanceAs (Decidable (_ < _))
  | .makeQueue | .makeConnection | .retain _ | .asyncReceive _ _ | .close _ | .message _ _
  | .closeEvent _ | .transport _ _ | .next _ | .dropObject _ | .destroy (.queue _) =>
    .isTrue trivial

inductive Action
  | connector (act : ConnectorImpl.Action)
  | queues (act : Lifetime.Action)

def step (s : World) : Action → Option World
  | .connector act =>
    (ConnectorImpl.step s.connector (numbered s act)).bind fun connector =>
      (run Lifetime.step s.queues (effects s.connector (numbered s act))).map fun queues =>
        ⟨connector, queues⟩
  | .queues act =>
    if Others s act then (Lifetime.step s.queues act).map fun queues => { s with queues } else none

def init : World := ⟨ConnectorImpl.init, Lifetime.init⟩

/-! ## A step of the connector -/

def Event.given? : Event → Option (ℕ × ℕ)
  | .given mq con => some (mq, con)
  | _ => none

/-- The connections that message queues have been given. -/
def given (s : ConnectorLoop) : List (ℕ × ℕ) := s.world.log.filterMap Event.given?

/-- What a client of the connector leaves as it is. -/
structure View where
  map : List (ℕ × NascentConnectionData)
  clearing : List ℕ
  live : List ℕ
  given : List (ℕ × ℕ)

def View.keys (v : View) : List ℕ := v.map.map Prod.fst

def view (s : ConnectorLoop) : View :=
  ⟨s.world.mNascentConnections, clearing s, s.world.live, given s⟩

/-- What a step does, and what happens to queues and connections. `n` is the number of a connection
that is made. -/
inductive Effect (n : ℕ) (v : View) : List Lifetime.Action → View → Prop
  | same : Effect n v [] v
  | made {data : NascentConnectionData} {map : List (ℕ × NascentConnectionData)}
      (hmap : map.Perm ((n, data) :: v.map)) :
      Effect n v [.makeConnection] { v with map, live := n :: v.live }
  | given {con : ℕ} {data : NascentConnectionData} {map : List (ℕ × NascentConnectionData)}
      (hmap : v.map.Perm ((con, data) :: map)) :
      Effect n v [.setConnectionPtr data.mq con]
        { v with
          map, clearing := v.clearing ++ [con], given := v.given ++ [(data.mq, con)] }
  | closed : Effect n v (v.keys.map .release) { v with map := [] }
  | cleared {con : ℕ} {rest : List ℕ} (hclearing : v.clearing = con :: rest) :
      Effect n v [.release con] { v with clearing := rest }
  | released {con : ℕ} (hfree : con ∉ v.keys) :
      Effect n v [.destroy (.connection con)] { v with live := v.live.filter (· ≠ con) }

section
variable {s s' : ConnectorLoop}

theorem view_post {job : Job} (h : Job.clearing? job = none) : view (s.post job) = view s := by
  have hclearing : clearing (s.post job) = clearing s := by
    rw [clearing, Loop.post_posted, List.filterMap_append, List.filterMap_cons_none h,
      List.filterMap_nil, List.append_nil]
    rfl
  unfold view
  rw [hclearing]
  rfl

theorem view_record {e : Event} (h : Event.given? e = none) :
    view (ConnectorImpl.record e s) = view s := by
  have hgiven : given (ConnectorImpl.record e s) = given s := by
    rw [given, record_log, List.filterMap_append, List.filterMap_cons_none h, List.filterMap_nil,
      List.append_nil]
    rfl
  unfold view
  rw [hgiven]
  rfl

theorem view_call (call : Call) : view (call.run s) = view s := by
  cases call with
  | asyncConnect mq => exact view_post rfl
  | close => exact view_post rfl

theorem view_callHandler (client : Client) (id : ℕ) (ec : ErrorCode) :
    view (callHandler client id ec s) = view s := by
  have hcall (t : ConnectorLoop) (call : Call) (ht : view t = view s) :
      view (call.run t) = view s := (view_call call).trans ht
  have hrecord : view (ConnectorImpl.record (.called id ec) s) = view s := view_record rfl
  exact foldl_calls hcall _ hrecord

theorem view_closeAll (client : Client) (entries : List (ℕ × NascentConnectionData)) :
    view (entries.foldl (closeNascent client) s) = view s := by
  induction entries generalizing s with
  | nil => rfl
  | cons entry entries ih => exact ih.trans (view_callHandler client _ _)

variable {n : ℕ}

theorem openOrFail_effect {con : ℕ} {ec : ErrorCode} {client : Client} :
    Effect n (view s) (gives con none s) (view (handleOpenOrFail con ec client s)) := by
  unfold gives handleOpenOrFail
  cases hfound : extract con s.world.mNascentConnections with
  | none => exact .same
  | some found =>
    obtain ⟨data, map⟩ := found
    have hmap : (view s).map.Perm ((con, data) :: map) := extract_perm hfound
    rw [view_callHandler]
    have hview : view (ConnectorImpl.record (.given data.mq con)
        ((s.update fun w => { w with mNascentConnections := map }).post (.clearHandlers con))) =
        { view s with
          map
          clearing := clearing s ++ [con]
          given := given s ++ [(data.mq, con)] } := by
      simp [view, clearing, given, ConnectorImpl.record, Job.clearing?, Event.given?]
    rw [hview]
    exact .given hmap

theorem connect_effect {id mq : ℕ} {got : Except Error ℕ} {client : Client}
    (hn : ∀ con, got = .ok con → con = n) (hlive : ∀ con ∈ keys s, con ∈ s.world.live)
    (hs : connect id mq got client s = some s') :
    Effect n (view s) (runs got s (.connect id mq)) (view s') := by
  cases got with
  | error e =>
    obtain rfl := Option.some.inj hs
    rw [view_callHandler]
    exact .same
  | ok con =>
    obtain rfl := hn con rfl
    simp only [connect, Option.ite_none_left_eq_some] at hs
    obtain ⟨hnew, hs⟩ := hs
    obtain ⟨hsuccess, hperm⟩ := insert_fresh (fun hkey => hnew (hlive con hkey)) ⟨id, mq⟩
    rw [hsuccess, if_pos rfl] at hs
    obtain rfl := Option.some.inj hs
    rw [view_record rfl]
    exact .made hperm

theorem exec_effect {got : Except Error ℕ} {client : Client} {job : Job} {jobs : List Job}
    (hn : ∀ con, got = .ok con → con = n) (hlive : ∀ con ∈ keys s, con ∈ s.world.live)
    (hposted : s.posted = job :: jobs) (hs : exec got client job ⟨s.world, jobs⟩ = some s') :
    Effect n (view s) (runs got s job) (view s') := by
  have hview (hjob : Job.clearing? job = none) : view ⟨s.world, jobs⟩ = view s := by
    unfold view clearing
    rw [hposted, List.filterMap_cons_none hjob]
    rfl
  cases job with
  | connect id mq =>
    rw [← hview rfl]
    exact connect_effect hn hlive hs
  | close before =>
    obtain rfl := Option.some.inj hs
    have hall : view (runClose before client ⟨s.world, jobs⟩) = { view s with map := [] } := by
      have hloop := view_closeAll (s := ⟨s.world, jobs⟩) client s.world.mNascentConnections
      rw [hview rfl] at hloop
      exact congrArg (fun v : View => { v with map := [] }) hloop
    rw [hall]
    exact .closed
  | clearHandlers con =>
    obtain rfl := Option.some.inj hs
    refine .cleared (v := view s) ?_
    change s.posted.filterMap Job.clearing? = con :: jobs.filterMap Job.clearing?
    rw [hposted]
    rfl

theorem step_effect {act : ConnectorImpl.Action}
    (hn : ∀ con client, act = .next (.ok con) client → con = n)
    (hlive : ∀ con ∈ keys s, con ∈ s.world.live) (hs : ConnectorImpl.step s act = some s') :
    Effect n (view s) (effects s act) (view s') := by
  cases act with
  | asyncConnect mq =>
    obtain rfl := Option.some.inj hs
    exact (view_call (.asyncConnect mq)).symm ▸ .same
  | close =>
    obtain rfl := Option.some.inj hs
    exact (view_call .close).symm ▸ .same
  | openEvent con got client =>
    obtain ⟨-, hs⟩ := Option.ite_none_right_eq_some.mp hs
    obtain rfl := Option.some.inj hs
    have hrecord : view (ConnectorImpl.record (.opened con) s) = view s := view_record rfl
    cases got with
    | some e => exact hrecord.symm ▸ .same
    | none => exact hrecord ▸ openOrFail_effect
  | failEvent con got transportEc client =>
    obtain ⟨-, hs⟩ := Option.ite_none_right_eq_some.mp hs
    obtain rfl := Option.some.inj hs
    have hrecord : view (ConnectorImpl.record (.failed con) s) = view s := view_record rfl
    cases got with
    | some e => exact hrecord.symm ▸ .same
    | none => exact hrecord ▸ openOrFail_effect
  | next got client =>
    obtain ⟨job, jobs, hposted, hs⟩ := Loop.next_eq_some.mp hs
    have heffects : effects s (.next got client) = runs got s job := by
      unfold effects
      rw [hposted]
    rw [heffects]
    exact exec_effect (fun con hcon => hn con client (hcon ▸ rfl)) hlive hposted hs
  | release con =>
    obtain ⟨hfree, hs⟩ := Option.ite_none_left_eq_some.mp hs
    obtain rfl := Option.some.inj hs
    exact .released (v := view s) fun hkey => hfree (.inl hkey)

end
end CxxUtil.Ws.Connecting
