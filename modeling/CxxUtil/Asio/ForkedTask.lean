import CxxUtil.Asio.OperationCalls

/-! # Coroutines that fork once

What `serverTask` and `clientTask` of `tests/rpc-test.cpp` have in common, over version 2 of
`Operation`. The coroutine forks at once. The child waits for a signal, and ends when the wait does.
The parent goes from one asynchronous call to the next until it calls `complete` and ends, perhaps
after it has cancelled the wait of the child. The object that is invoked is the handler of the
asynchronous call, and is destroyed when its call returns. -/
namespace CxxUtil.Asio.ForkedTask
open Foundations Handles Operation
set_option autoImplicit false

/-! ## Tasks -/

/-- What the parent does when it is resumed. `cancel`: it cancels the wait of the child first. -/
inductive Next (W E : Type*)
  | await (wait : W)
  | complete (ec : Option E) (cancel : Bool)

/-- What is particular to a task: the first asynchronous call of its parent, what the parent does
when one has ended with `ec`, and the value of the coroutine that waits for one, or for the
signal. -/
structure Task (W E : Type*) where
  first : W
  resume : W → Option E → Next W E
  line : Option W → ℤ
  line_ne : ∀ w, line w ≠ -1

inductive Parent (W E : Type*)
  | queued
  | awaiting (object : ℕ) (wait : W)
  | ended (ec : Option E)

inductive Child
  | absent
  | awaiting (object : ℕ)
  | ended (signalled : Bool)

structure World (W E : Type*) where
  operation : Operation.World (Option E)
  parent : Parent W E
  child : Child
  cancelled : Bool

variable {W E : Type*}

/-- `asyncDispatch` has posted the first call. -/
def init (defaultResult : Option E) : World W E :=
  ⟨makeOperation defaultResult, .queued, .absent, false⟩

/-- A success of the wait for a signal is a signal, and an error is that it has been cancelled. -/
inductive Action (E : Type*)
  | start
  | resume (ec : Option E)
  | signal (ec : Option E)

section
variable (task : Task W E)

def start (s : World W E) : Option (World W E) :=
  (Foundations.run Operation.step s.operation
    [.invoke 0, .runChild 0, .move 1, .finish (task.line none), .move 0,
      .finish (task.line (some task.first)), .destroy 0]).map fun operation =>
    { s with
      operation
      parent := .awaiting 3 task.first
      child := .awaiting 2 }

def resume (object : ℕ) (s : World W E) : Next W E → Option (World W E)
  | .await wait =>
    (Foundations.run Operation.step s.operation
      [.invoke object, .move object, .finish (task.line (some wait)), .destroy object]).map
      fun operation => { s with operation, parent := .awaiting s.operation.made wait }
  | .complete ec cancel =>
    (Foundations.run Operation.step s.operation
      [.invoke object, .complete object ec, .finish (-1), .destroy object]).map
      fun operation =>
        { s with operation, parent := .ended ec, cancelled := s.cancelled || cancel }

def endChild (object : ℕ) (signalled : Bool) (s : World W E) : Option (World W E) :=
  (Foundations.run Operation.step s.operation
    [.invoke object, .finish (-1), .destroy object]).map fun operation =>
    { s with operation, child := .ended signalled }

def step (s : World W E) : Action E → Option (World W E)
  | .start =>
    match s.parent with
    | .queued => start task s
    | _ => none
  | .resume ec =>
    match s.parent with
    | .awaiting object wait => resume task object s (task.resume wait ec)
    | _ => none
  | .signal ec =>
    match s.child with
    | .awaiting object => if ec.isSome → s.cancelled then endChild object ec.isNone s else none
    | _ => none

end

/-! ## The invariant -/

def Parent.objects : Parent W E → List ℕ
  | .queued => [0]
  | .awaiting object _ => [object]
  | .ended _ => []

def Parent.results : Parent W E → List (Option E)
  | .ended ec => [ec]
  | _ => []

def Child.objects : Child → List ℕ
  | .awaiting object => [object]
  | _ => []

/-- The halves that are not over have one object each, and there are no others. -/
structure Sound (d : Option E) (s : World W E) : Prop where
  counted : Counted d s.operation
  calls : s.operation.calls = []
  holding : holding s.operation = s.child.objects ++ s.parent.objects
  completions : s.operation.completions = s.parent.results
  queued : s.parent = .queued → s = init d
  absent : s.child = .absent → s.parent = .queued

section
variable {task : Task W E} {d : Option E} {s s' : World W E}

theorem sound_init (d : Option E) : Sound d (init d : World W E) where
  counted := Counted.makeOperation d
  calls := rfl
  holding := rfl
  completions := rfl
  queued _ := rfl
  absent _ := rfl

theorem holding_nodup {R : Type*} {w : Operation.World R} (hn : Numbered w.made w.objects) :
    (Operation.holding w).Nodup := hn.nodup.sublist (List.filter_sublist.map _)

theorem Sound.start (h : Sound d s) (hparent : s.parent = .queued) :
    ∃ s', start task s = some s' ∧ Sound d s' ∧ s'.parent = .awaiting 3 task.first ∧
      s'.child = .awaiting 2 ∧ s'.cancelled = s.cancelled := by
  obtain rfl := h.queued hparent
  obtain ⟨w', hrun, hholding, hcalls, hcompletions⟩ :=
    run_fork d (task.line_ne none) (task.line_ne (some task.first))
  have hcounted : Counted d w' := run_invariant counted_step (Counted.makeOperation d) hrun
  refine ⟨_, congrArg (Option.map _) hrun, ⟨hcounted, hcalls, hholding, hcompletions, ?_, ?_⟩,
    rfl, rfl, rfl⟩
  · intro hqueued
    cases hqueued
  · intro habsent
    cases habsent

theorem filter_only {xs ys : List ℕ} {o : ℕ} (h : (xs ++ o :: ys).Nodup) :
    (xs ++ o :: ys).filter (· != o) = xs ++ ys := by
  have hnot := (List.nodup_cons.mp (List.perm_middle.nodup_iff.mp h)).1
  have hothers : (xs ++ ys).filter (· != o) = xs ++ ys := by
    apply List.filter_eq_self.mpr
    intro x hx
    have hne : x ≠ o := fun heq => hnot (heq ▸ hx)
    simpa using hne
  rw [List.filter_append, List.filter_cons_of_neg (by simp), ← List.filter_append, hothers]

/-- What a step of the parent does to the rest of the world. -/
def Next.After (s s' : World W E) : Next W E → Prop
  | .await wait => s'.parent = .awaiting s.operation.made wait ∧ s'.cancelled = s.cancelled
  | .complete ec cancel => s'.parent = .ended ec ∧ s'.cancelled = (s.cancelled || cancel)

theorem Sound.resume (h : Sound d s) {object : ℕ} {wait : W}
    (hparent : s.parent = .awaiting object wait) (next : Next W E) :
    ∃ s', resume task object s next = some s' ∧ Sound d s' ∧ s'.child = s.child ∧
      next.After s s' := by
  have hn := h.counted.numbered
  have hall : Operation.holding s.operation = s.child.objects ++ [object] := by
    rw [h.holding, hparent]
    rfl
  have hmem : object ∈ Operation.holding s.operation := by simp [hall]
  have hrest : (Operation.holding s.operation).filter (· != object) = s.child.objects := by
    have hnodup := holding_nodup hn
    rw [hall] at hnodup ⊢
    rw [filter_only hnodup, List.append_nil]
  have hchild : s.child ≠ .absent := by
    intro habsent
    rw [h.absent habsent] at hparent
    cases hparent
  have hresults : s.operation.completions = [] := by rw [h.completions, hparent]; rfl
  cases next with
  | await wait' =>
    obtain ⟨w', hrun, hholding, hcalls, hcompletions⟩ :=
      run_await hn hmem h.calls (task.line_ne (some wait'))
    have hcounted : Counted d w' := run_invariant counted_step h.counted hrun
    rw [hrest] at hholding
    rw [hresults] at hcompletions
    refine ⟨_, congrArg (Option.map _) hrun,
      ⟨hcounted, hcalls, hholding, hcompletions, ?_, fun habsent => absurd habsent hchild⟩,
      rfl, rfl, rfl⟩
    intro hqueued
    cases hqueued
  | complete ec cancel =>
    obtain ⟨w', hrun, hholding, hcalls, hcompletions⟩ := run_complete hn hmem h.calls ec
    have hcounted : Counted d w' := run_invariant counted_step h.counted hrun
    rw [hrest, ← List.append_nil s.child.objects] at hholding
    rw [hresults] at hcompletions
    refine ⟨_, congrArg (Option.map _) hrun,
      ⟨hcounted, hcalls, hholding, hcompletions, ?_, fun habsent => absurd habsent hchild⟩,
      rfl, rfl, rfl⟩
    intro hqueued
    cases hqueued

theorem Sound.endChild (h : Sound d s) {object : ℕ} (hchild : s.child = .awaiting object)
    (signalled : Bool) :
    ∃ s', endChild object signalled s = some s' ∧ Sound d s' ∧ s'.parent = s.parent ∧
      s'.child = .ended signalled ∧ s'.cancelled = s.cancelled := by
  have hn := h.counted.numbered
  have hall : Operation.holding s.operation = [] ++ object :: s.parent.objects := by
    rw [h.holding, hchild]
    rfl
  have hmem : object ∈ Operation.holding s.operation := by simp [hall]
  have hrest : (Operation.holding s.operation).filter (· != object) = s.parent.objects := by
    have hnodup := holding_nodup hn
    rw [hall] at hnodup ⊢
    rw [filter_only hnodup, List.nil_append]
  obtain ⟨w', hrun, hholding, hcalls, hcompletions⟩ := run_end hn hmem h.calls
  have hcounted : Counted d w' := run_invariant counted_step h.counted hrun
  rw [hrest] at hholding
  rw [h.completions] at hcompletions
  refine ⟨_, congrArg (Option.map _) hrun, ⟨hcounted, hcalls, hholding, hcompletions, ?_, ?_⟩,
    rfl, rfl, rfl⟩
  · intro hqueued
    rw [h.queued hqueued] at hchild
    cases hchild
  · intro habsent
    cases habsent

/-- What a step does, with the invariant. -/
inductive Effect (task : Task W E) (d : Option E) (s : World W E) : Action E → World W E → Prop
  | start {s' : World W E} (h : Sound d s') (before : s.parent = .queued)
      (parent : s'.parent = .awaiting 3 task.first) (child : s'.child = .awaiting 2)
      (cancelled : s'.cancelled = s.cancelled) : Effect task d s .start s'
  | resume {s' : World W E} {object : ℕ} {wait : W} {ec : Option E} (h : Sound d s')
      (before : s.parent = .awaiting object wait) (child : s'.child = s.child)
      (after : (task.resume wait ec).After s s') : Effect task d s (.resume ec) s'
  | signal {s' : World W E} {object : ℕ} {ec : Option E} (h : Sound d s')
      (before : s.child = .awaiting object) (allowed : ec.isSome → s.cancelled)
      (parent : s'.parent = s.parent) (child : s'.child = .ended ec.isNone)
      (cancelled : s'.cancelled = s.cancelled) : Effect task d s (.signal ec) s'

theorem step_effect {act : Action E} (h : Sound d s) (hs : step task s act = some s') :
    Effect task d s act s' := by
  cases act with
  | start =>
    simp only [step] at hs
    split at hs
    case h_1 hparent =>
      obtain ⟨t, ht, hsound, hp, hc, hx⟩ := h.start hparent
      obtain rfl := Option.some.inj (ht.symm.trans hs)
      exact .start hsound hparent hp hc hx
    case h_2 => cases hs
  | resume ec =>
    simp only [step] at hs
    split at hs
    case h_1 object wait hparent =>
      obtain ⟨t, ht, hsound, hc, hafter⟩ := h.resume hparent (task.resume wait ec)
      obtain rfl := Option.some.inj (ht.symm.trans hs)
      exact .resume hsound hparent hc hafter
    case h_2 => cases hs
  | signal ec =>
    simp only [step] at hs
    split at hs
    case h_1 object hchild =>
      obtain ⟨hallowed, hs⟩ := Option.ite_none_right_eq_some.mp hs
      obtain ⟨t, ht, hsound, hp, hc, hx⟩ := h.endChild hchild ec.isNone
      obtain rfl := Option.some.inj (ht.symm.trans hs)
      exact .signal hsound hchild hallowed hp hc hx
    case h_2 => cases hs

theorem sound_step (act : Action E) (s' : World W E) (h : Sound d s)
    (hs : step task s act = some s') : Sound d s' := by
  cases step_effect h hs with
  | start h => exact h
  | resume h => exact h
  | signal h => exact h

/-! ## When a task completes -/

theorem Sound.count (h : Sound d s) :
    holders () s.operation.objects = s.child.objects.length + s.parent.objects.length := by
  rw [holding_length, h.holding, List.length_append]

/-- What holds of a task in every state that it reaches. -/
structure Completes (task : Task W E) (s : World W E) : Prop where
  refs : ∀ st ∈ s.operation.state,
    st.mRefs = s.child.objects.length + s.parent.objects.length
  pending : s.child.objects ++ s.parent.objects ≠ [] → ∀ result, .called result ∉ s.operation.log
  ended : ∀ ec signalled, s.parent = .ended ec → s.child = .ended signalled →
    s.operation.log = [.allocated, .destroyed, .deallocated, .called ec] ∧ ec ≠ none ∧
      (signalled = true ∨ s.cancelled = true)
  resumes : ∀ object wait, s.parent = .awaiting object wait → ∀ ec,
    (step task s (.resume ec)).isSome = true
  signals : ∀ object, s.child = .awaiting object → (step task s (.signal none)).isSome = true

/-- The parent completes with an error, and the wait of the child ends with a signal or because it
has been cancelled. -/
structure Failing (s : World W E) : Prop where
  parent : ∀ ec, s.parent = .ended ec → ec ≠ none
  child : ∀ signalled, s.child = .ended signalled → signalled = true ∨ s.cancelled = true

theorem failing_init (d : Option E) : Failing (init d : World W E) where
  parent ec hover := by cases hover
  child signalled hover := by cases hover

theorem failing_step
    (hfails : ∀ wait ec result cancel,
      task.resume wait ec = .complete result cancel → result ≠ none)
    (act : Action E) (s' : World W E) (h : Sound d s) (hf : Failing s)
    (hs : step task s act = some s') : Failing s' := by
  cases step_effect h hs with
  | start _ before parent child cancelled =>
    constructor
    · intro ec hover
      rw [parent] at hover
      cases hover
    · intro signalled hover
      rw [child] at hover
      cases hover
  | @resume _ object wait ec _ before child after =>
    generalize hnext : task.resume wait ec = next at after
    cases next with
    | await wait' =>
      constructor
      · intro ec hover
        rw [after.1] at hover
        cases hover
      · intro signalled hover
        rw [child] at hover
        rw [after.2]
        exact hf.child signalled hover
    | complete result cancel =>
      constructor
      · intro ec' hover
        rw [after.1] at hover
        cases hover
        exact hfails wait ec result cancel hnext
      · intro signalled hover
        rw [child] at hover
        rw [after.2]
        refine (hf.child signalled hover).imp_right fun hcancelled => ?_
        rw [hcancelled, Bool.true_or]
  | @signal _ object ec _ before allowed parent child cancelled =>
    constructor
    · intro ec' hover
      rw [parent] at hover
      exact hf.parent ec' hover
    · intro signalled hover
      rw [child] at hover
      cases hover
      rw [cancelled]
      cases ec with
      | none => exact .inl rfl
      | some e => exact .inr (allowed rfl)

theorem Sound.completes (h : Sound d s) (hf : Failing s) : Completes task s where
  refs st hst := by
    cases hzero : holders () s.operation.objects with
    | zero =>
      rw [(h.counted.gone hzero).state] at hst
      cases hst
    | succ n =>
      have hheld := h.counted.held (Nat.lt_of_sub_eq_succ hzero)
      rw [hheld.state] at hst
      obtain rfl := Option.some.inj hst
      exact h.count
  pending hne result hmem := by
    have hpos : 0 < holders () s.operation.objects := by
      rw [h.count, ← List.length_append]
      exact List.length_pos_of_ne_nil hne
    rw [(h.counted.held hpos).log] at hmem
    cases List.mem_singleton.mp hmem
  ended ec signalled hparent hchild := by
    have hzero : holders () s.operation.objects = 0 := by rw [h.count, hparent, hchild]; rfl
    have hlast : lastResult d s.operation = ec := by
      rw [lastResult, h.completions, hparent]
      rfl
    have hlog := (h.counted.gone hzero).log
    rw [hlast] at hlog
    exact ⟨hlog, hf.parent ec hparent, hf.child signalled hchild⟩
  resumes object wait hparent ec := by
    obtain ⟨s', hs', -⟩ :
        ∃ s', ForkedTask.resume task object s (task.resume wait ec) = some s' ∧ _ :=
      h.resume hparent _
    simp only [step, hparent, hs', Option.isSome_some]
  signals object hchild := by
    obtain ⟨s', hs', -⟩ := h.endChild hchild true
    have hnone : (none : Option E).isSome = true → s.cancelled = true := fun hsome => by cases hsome
    simp only [step, hchild, if_pos hnone, Option.isNone_none, hs', Option.isSome_some]

theorem completes_run
    (hfails : ∀ wait ec result cancel,
      task.resume wait ec = .complete result cancel → result ≠ none)
    {as : List (Action E)} (h : Foundations.run (step task) (init d) as = some s) :
    Completes task s := by
  have hinit : Sound d (init d : World W E) ∧ Failing (init d : World W E) :=
    ⟨sound_init d, failing_init d⟩
  have hstep (t : World W E) (act : Action E) (t' : World W E) (ht : Sound d t ∧ Failing t)
      (hs : step task t act = some t') : Sound d t' ∧ Failing t' :=
    ⟨sound_step act t' ht.1 hs, failing_step hfails act t' ht.1 ht.2 hs⟩
  have hboth : Sound d s ∧ Failing s := run_invariant hstep hinit h
  exact hboth.1.completes hboth.2

end
end CxxUtil.Asio.ForkedTask
