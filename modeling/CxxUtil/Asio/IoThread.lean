import CxxUtil.Foundations.Runs

/-! # `IoThread`

`include/util/asio/iothread.hpp` and `src/iothread.cpp`: a thread in `io_service::run()`, and the
thread that owns the object, in any interleaving. The `io_service` is a parameter, and with it all
that happens on it: what `run()` does, the handlers, and client code that has it from `context()`.
`RunsWhileWork` is what `join()` relies on. -/
namespace CxxUtil.Asio.IoThread
open Foundations
set_option autoImplicit false

/-- `ended` has what the call of `run()` in the thread has returned or thrown, and `stops` says of a
step that it calls `stop()`. -/
structure IoService (C J E : Type*) where
  context : C
  makeWork : C → C
  destroyWork : C → C
  step : C → J → Option C
  stops : J → Bool
  ended : C → Option (Except E ℕ)

/-- `run()` does not return while there is a work object, unless `stop()` is called. -/
def IoService.RunsWhileWork {C J E : Type*} (io : IoService C J E) : Prop :=
  ∀ js c n, run io.step (io.makeWork io.context) js = some c → io.ended c = some (.ok n) →
    ∃ j ∈ js, io.stops j = true

inductive Owner
  | free
  /-- In `mJoin.get()`, perhaps from the destructor. -/
  | joining (destructor : Bool)
  | destroyed
  /-- An exception has reached the end of the destructor, which is `noexcept`. -/
  | terminated
  deriving DecidableEq, Repr

/-- `future` is what the thread has left for `mJoin`, and `mJoin` says whether that is `valid()`.
What is recorded besides: what `join()` has returned or thrown to its callers. -/
structure World (C E : Type*) where
  context : C
  mWork : Bool
  mJoin : Bool
  future : Option (Except E ℕ)
  owner : Owner
  joins : List (Except E ℕ)

inductive Action (J : Type*)
  /-- On the `io_service`: in `run()`, in a handler or in client code. -/
  | context (j : J)
  /-- The function given to `std::async` ends. -/
  | finish
  | join
  | destroy
  | get

def Action.context? {J : Type*} : Action J → Option J
  | .context j => some j
  | _ => none

section
variable {C J E : Type*} (io : IoService C J E)

/-- The constructor. -/
def start : World C E := ⟨io.makeWork io.context, true, true, none, .free, []⟩

/-- `mWork = boost::none`. -/
def resetWork (s : World C E) : World C E :=
  if s.mWork then { s with mWork := false, context := io.destroyWork s.context } else s

/-- What `join()` ends with. -/
def joined (destructor : Bool) (result : Except E ℕ) (s : World C E) : World C E :=
  if destructor then
    { s with owner := match result with | .ok _ => .destroyed | .error _ => .terminated }
  else { s with owner := .free, joins := s.joins ++ [result] }

/-- `join()` up to `mJoin.get()`, if it gets there. -/
def join (destructor : Bool) (s : World C E) : World C E :=
  let s := resetWork io s
  if s.mJoin then { s with owner := .joining destructor } else joined destructor (.ok 0) s

/-- `mJoin.get()`, which waits for the thread. -/
def get (s : World C E) : Option (World C E) :=
  match s.owner, s.future with
  | .joining destructor, some result => some (joined destructor result { s with mJoin := false })
  | _, _ => none

def finish (s : World C E) : Option (World C E) :=
  match s.future, io.ended s.context with
  | none, some result => some { s with future := some result }
  | _, _ => none

/-- Nothing happens on an `io_service` that has been destroyed. -/
def step (s : World C E) : Action J → Option (World C E)
  | .context j =>
    if s.owner = .destroyed ∨ s.owner = .terminated then none
    else (io.step s.context j).map fun context => { s with context }
  | .finish => finish io s
  | .join => if s.owner = .free then some (join io false s) else none
  | .destroy => if s.owner = .free then some (join io true s) else none
  | .get => get s

/-- What a step does. -/
inductive Effect (s : World C E) : Action J → World C E → Prop
  | context {j : J} {context : C} (hstep : io.step s.context j = some context) :
      Effect s (.context j) { s with context }
  | finish {result : Except E ℕ} (hfuture : s.future = none)
      (hended : io.ended s.context = some result) :
      Effect s .finish { s with future := some result }
  | join (howner : s.owner = .free) : Effect s .join (join io false s)
  | destroy (howner : s.owner = .free) : Effect s .destroy (join io true s)
  | get {destructor : Bool} {result : Except E ℕ} (howner : s.owner = .joining destructor)
      (hfuture : s.future = some result) :
      Effect s .get (joined destructor result { s with mJoin := false })

end

section
variable {C J E : Type*} {io : IoService C J E} {s s' : World C E}

theorem step_effect {act : Action J} (hs : step io s act = some s') : Effect io s act s' := by
  cases act with
  | context j =>
    obtain ⟨-, hs⟩ := Option.ite_none_left_eq_some.mp hs
    obtain ⟨context, hstep, rfl⟩ := Option.map_eq_some_iff.mp hs
    exact .context hstep
  | finish =>
    simp only [step, finish] at hs
    split at hs
    case h_1 result hfuture hended =>
      obtain rfl := Option.some.inj hs
      exact .finish hfuture hended
    case h_2 => cases hs
  | join =>
    obtain ⟨howner, hs⟩ := Option.ite_none_right_eq_some.mp hs
    obtain rfl := Option.some.inj hs
    exact .join howner
  | destroy =>
    obtain ⟨howner, hs⟩ := Option.ite_none_right_eq_some.mp hs
    obtain rfl := Option.some.inj hs
    exact .destroy howner
  | get =>
    simp only [step, get] at hs
    split at hs
    case h_1 destructor result howner hfuture =>
      obtain rfl := Option.some.inj hs
      exact .get howner hfuture
    case h_2 => cases hs

/-! ## How far the owner has got -/

/-- No join yet; in the first; past it, perhaps in the destructor's turn; or destroyed by it. -/
inductive Phase (s : World C E) : Prop
  | unjoined (mWork : s.mWork = true) (mJoin : s.mJoin = true) (owner : s.owner = .free)
      (joins : s.joins = [])
  | joining (destructor : Bool) (mWork : s.mWork = false) (mJoin : s.mJoin = true)
      (owner : s.owner = .joining destructor) (joins : s.joins = [])
  | joined (result : Except E ℕ) (k : ℕ) (mWork : s.mWork = false) (mJoin : s.mJoin = false)
      (owner : s.owner = .free ∨ s.owner = .destroyed) (future : s.future = some result)
      (joins : s.joins = result :: List.replicate k (.ok 0))
  | destroyed (result : Except E ℕ) (mWork : s.mWork = false) (mJoin : s.mJoin = false)
      (owner : s.owner = match result with | .ok _ => .destroyed | .error _ => .terminated)
      (future : s.future = some result) (joins : s.joins = [])

theorem phase_start : Phase (start io) := .unjoined rfl rfl rfl rfl

/-- Something else happens than a part of `join()`. -/
theorem Phase.frame (h : Phase s) (hwork : s'.mWork = s.mWork) (hjoin : s'.mJoin = s.mJoin)
    (howner : s'.owner = s.owner) (hjoins : s'.joins = s.joins)
    (hfuture : ∀ result, s.future = some result → s'.future = some result) : Phase s' := by
  cases h with
  | unjoined mWork mJoin owner joins =>
    exact .unjoined (hwork.trans mWork) (hjoin.trans mJoin) (howner.trans owner)
      (hjoins.trans joins)
  | joining destructor mWork mJoin owner joins =>
    exact .joining destructor (hwork.trans mWork) (hjoin.trans mJoin) (howner.trans owner)
      (hjoins.trans joins)
  | joined result k mWork mJoin owner future joins =>
    exact .joined result k (hwork.trans mWork) (hjoin.trans mJoin) (by rwa [howner])
      (hfuture result future) (hjoins.trans joins)
  | destroyed result mWork mJoin owner future joins =>
    exact .destroyed result (hwork.trans mWork) (hjoin.trans mJoin) (howner.trans owner)
      (hfuture result future) (hjoins.trans joins)

theorem Phase.join (h : Phase s) (howner : s.owner = .free) (destructor : Bool) :
    Phase (join io destructor s) := by
  cases h with
  | unjoined mWork mJoin owner joins =>
    rw [IoThread.join, resetWork, if_pos mWork]
    exact (if_pos mJoin).symm ▸ .joining destructor rfl mJoin rfl joins
  | joined result k mWork mJoin owner future joins =>
    have hsame : resetWork io s = s := by rw [resetWork, mWork]; rfl
    have hjoin : IoThread.join io destructor s = IoThread.joined destructor (.ok 0) s := by
      rw [IoThread.join, hsame, mJoin]
      rfl
    rw [hjoin]
    cases destructor with
    | true => exact .joined result k mWork mJoin (.inr rfl) future joins
    | false =>
      refine .joined result (k + 1) mWork mJoin (.inl rfl) future ?_
      change s.joins ++ [.ok 0] = _
      rw [joins, List.replicate_succ', List.cons_append]
  | joining destructor' mWork mJoin owner =>
    rw [howner] at owner
    cases owner
  | destroyed result mWork mJoin owner =>
    rw [howner] at owner
    cases result <;> cases owner

theorem phase_step (s : World C E) (act : Action J) (s' : World C E) (h : Phase s)
    (hs : step io s act = some s') : Phase s' := by
  cases step_effect hs with
  | context hstep => exact h.frame rfl rfl rfl rfl fun _ hr => hr
  | finish hfuture hended =>
    refine h.frame rfl rfl rfl rfl fun result hr => ?_
    rw [hfuture] at hr
    cases hr
  | join howner => exact h.join howner false
  | destroy howner => exact h.join howner true
  | @get destructor result howner hfuture =>
    cases h with
    | joining destructor' mWork mJoin owner joins =>
      cases destructor with
      | true => exact .destroyed result mWork rfl rfl hfuture joins
      | false => exact .joined result 0 mWork rfl (.inl rfl) hfuture (congrArg (· ++ [result]) joins)
    | unjoined mWork mJoin owner =>
      rw [howner] at owner
      cases owner
    | joined result' k mWork mJoin owner =>
      rw [howner] at owner
      rcases owner with owner | owner <;> cases owner
    | destroyed result' mWork mJoin owner =>
      rw [howner] at owner
      cases result' <;> cases owner

/-! ## What happens while there is work -/

/-- As long as `mWork` is set, the steps on the `io_service` are a run of its own with that work
object, and so were those before the thread ended. -/
structure Working (io : IoService C J E) (as : List (Action J)) (s : World C E) : Prop where
  context : s.mWork = true →
    run io.step (io.makeWork io.context) (as.filterMap Action.context?) = some s.context
  future : s.mWork = true → ∀ result, s.future = some result →
    ∃ js c, js <+: as.filterMap Action.context? ∧
      run io.step (io.makeWork io.context) js = some c ∧ io.ended c = some result

theorem mWork_join (destructor : Bool) (s : World C E) : (join io destructor s).mWork = false := by
  have hreset : (resetWork io s).mWork = false := by
    rw [resetWork]
    split
    case isTrue => rfl
    case isFalse hwork => exact Bool.eq_false_iff.mpr hwork
  rw [join]
  split
  case isTrue => exact hreset
  case isFalse =>
    cases destructor with
    | true => exact hreset
    | false => exact hreset

theorem Working.later {as : List (Action J)} (h : Working io as s) (act : Action J)
    (hwork : s.mWork = true) (result : Except E ℕ) (hfuture : s.future = some result) :
    ∃ js c, js <+: (as ++ [act]).filterMap Action.context? ∧
      run io.step (io.makeWork io.context) js = some c ∧ io.ended c = some result := by
  obtain ⟨js, c, hjs, hrun, hended⟩ := h.future hwork result hfuture
  refine ⟨js, c, hjs.trans ?_, hrun, hended⟩
  rw [filterMap_concat]
  exact List.prefix_append _ _

theorem working_of_not_mWork {as : List (Action J)} (hwork : s.mWork = false) :
    Working io as s := by
  refine ⟨fun htrue => ?_, fun htrue => ?_⟩
  all_goals
    rw [hwork] at htrue
    cases htrue

theorem working_step (as : List (Action J)) (s : World C E) (act : Action J) (s' : World C E)
    (h : Working io as s) (hs : step io s act = some s') : Working io (as ++ [act]) s' := by
  cases step_effect hs with
  | @context j context hstep =>
    refine ⟨fun hwork => ?_, h.later _⟩
    rw [filterMap_concat]
    exact run_trans (h.context hwork) (run_cons_iff.mpr ⟨context, hstep, rfl⟩)
  | @finish result hfuture hended =>
    have hsame : (as ++ [Action.finish]).filterMap Action.context? =
        as.filterMap Action.context? := by
      rw [filterMap_concat]
      exact List.append_nil _
    refine ⟨fun hwork => hsame.symm ▸ h.context hwork, fun hwork result' hresult => ?_⟩
    obtain rfl : result = result' := Option.some.inj hresult
    exact ⟨_, s.context, hsame ▸ List.prefix_rfl, h.context hwork, hended⟩
  | join howner => exact working_of_not_mWork (mWork_join false s)
  | destroy howner => exact working_of_not_mWork (mWork_join true s)
  | @get destructor result howner hfuture =>
    have hsame : (as ++ [Action.get]).filterMap Action.context? =
        as.filterMap Action.context? := by
      rw [filterMap_concat]
      exact List.append_nil _
    cases destructor <;> exact ⟨fun hwork => hsame.symm ▸ h.context hwork, h.later _⟩

end

/-! ## An `io_service` -/

/-- How many work objects and ready handlers there are, and how many handlers have been called. -/
structure Handlers where
  works : ℕ
  ready : ℕ
  called : ℕ
  stopped : Bool
  ended : Option (Except String ℕ)

inductive Event
  | post
  | call
  | throw
  | ret
  | stop
  deriving DecidableEq

def Handlers.step (c : Handlers) : Event → Option Handlers
  | .post => some { c with ready := c.ready + 1 }
  | .stop => some { c with stopped := true }
  | .call =>
    if c.ended = none ∧ c.stopped = false ∧ 0 < c.ready then
      some { c with ready := c.ready - 1, called := c.called + 1 }
    else none
  | .throw =>
    if c.ended = none ∧ c.stopped = false ∧ 0 < c.ready then
      some { c with ready := c.ready - 1, ended := some (.error "handler") }
    else none
  | .ret =>
    if c.ended = none ∧ (c.stopped = true ∨ c.works = 0 ∧ c.ready = 0) then
      some { c with ended := some (.ok c.called) }
    else none

def handlers : IoService Handlers Event String where
  context := ⟨0, 0, 0, false, none⟩
  makeWork c := { c with works := c.works + 1 }
  destroyWork c := { c with works := c.works - 1 }
  step := Handlers.step
  stops j := j == .stop
  ended := Handlers.ended

/-- It has been stopped, or is running. -/
def Kept (js : List Event) (c : Handlers) : Prop :=
  c.works = 1 ∧ ((c.stopped = true ∨ ∃ n, c.ended = some (.ok n)) → .stop ∈ js)

theorem kept_step (js : List Event) (c : Handlers) (j : Event) (c' : Handlers) (h : Kept js c)
    (hs : c.step j = some c') : Kept (js ++ [j]) c' := by
  obtain ⟨hworks, hstop⟩ := h
  have hlater (h : c.stopped = true ∨ ∃ n, c.ended = some (.ok n)) : Event.stop ∈ js ++ [j] :=
    List.mem_append_left _ (hstop h)
  cases j with
  | post =>
    obtain rfl := Option.some.inj hs
    exact ⟨hworks, hlater⟩
  | stop =>
    obtain rfl := Option.some.inj hs
    exact ⟨hworks, fun _ => List.mem_append_right _ List.mem_cons_self⟩
  | call =>
    obtain ⟨-, hs⟩ := Option.ite_none_right_eq_some.mp hs
    obtain rfl := Option.some.inj hs
    exact ⟨hworks, hlater⟩
  | throw =>
    obtain ⟨-, hs⟩ := Option.ite_none_right_eq_some.mp hs
    obtain rfl := Option.some.inj hs
    refine ⟨hworks, fun h => hlater (h.imp_right ?_)⟩
    rintro ⟨n, hn⟩
    cases hn
  | ret =>
    obtain ⟨⟨-, hdone⟩, hs⟩ := Option.ite_none_right_eq_some.mp hs
    obtain rfl := Option.some.inj hs
    refine ⟨hworks, fun _ => hlater ?_⟩
    rcases hdone with hstopped | ⟨hnone, -⟩
    · exact .inl hstopped
    · rw [hworks] at hnone
      cases hnone

theorem runsWhileWork_handlers : handlers.RunsWhileWork := by
  intro js c n hrun hended
  have hstart : Kept [] (handlers.makeWork handlers.context) := by
    refine ⟨rfl, ?_⟩
    rintro (hstopped | ⟨n, hended⟩)
    · cases hstopped
    · cases hended
  have hkept : Kept ([] ++ js) c := run_invariant_history kept_step hstart hrun
  exact ⟨.stop, hkept.2 (.inr ⟨n, hended⟩), rfl⟩

end CxxUtil.Asio.IoThread
