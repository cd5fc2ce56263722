import CxxUtil.Composed.OneOwner

/-! # Invocations of a task that behaves

A task that is invoked and then either goes on with a suboperation or completes, once, before it
returns: it is invoked (`Invoked`) and suspended (`Suspended`) in turn, and each of its turns is a
run of `composed::op`. -/
namespace CxxUtil.Composed
open Foundations
set_option autoImplicit false

section
variable {P L V : Type*}

/-- The task is being invoked, and has not used its `op` object. -/
structure Invoked (ptr : HandlerPtr P) (cont : Bool) (s : State P L V) : Prop where
  disciplined : Disciplined ptr cont s
  op : ∃ o : Op P, s.ops = [o] ∧ o.actions = 0

/-- The last continuation made has the task, and stores what it is invoked with in `results`. -/
structure Suspended (ptr : HandlerPtr P) (cont : Bool) (results : List (Option L))
    (s : State P L V) : Prop where
  disciplined : Disciplined ptr cont s
  ops : s.ops = []
  waits : ∃ k : OpContinuation P L, s.continuations[s.continuations.length - 1]? = some k ∧
    k.invoked = false ∧ k.results = results

variable {ptr : HandlerPtr P} {inTask : L → Bool} {cont : Bool} {s : State P L V}
  {results : List (Option L)}

theorem invoked_startOp (hptr : ptr.Transfers) (cont : Bool) (memory : L → Option V) :
    Invoked ptr cont (startOp ptr cont memory) :=
  ⟨disciplined_startOp hptr cont memory, _, rfl, rfl⟩

theorem Invoked.nothing_completed (h : Invoked ptr cont s) :
    s.completions = [] ∧ s.alive = true := by
  obtain ⟨o, hops, hactions⟩ := h.op
  have hnil := (h.disciplined.sole_owner hops hactions).2.1
  exact ⟨hnil, h.disciplined.oneOwner.alive_of_nil hnil⟩

variable [DecidableEq L]

theorem Suspended.invoke (hptr : ptr.Transfers) (h : Suspended ptr cont results s) {args : List V}
    (hlen : args.length = results.length) :
    ∃ s', step ptr inTask s (.invoke (s.continuations.length - 1) args) = some s' ∧
      Invoked ptr cont s' ∧ s'.memory = assign results args s.memory := by
  obtain ⟨k, hk, hinvoked, rfl⟩ := h.waits
  obtain ⟨-, -, hinvokes⟩ := h.disciplined.invoke hptr hk hinvoked args
  refine ⟨_, ?_, ⟨hinvokes, ⟨ptr.moveTo k.task, true, s.invocations, 0⟩, ?_, rfl⟩, rfl⟩
  · simp [step, h.disciplined.failed, hk, hinvoked, hlen]
  · show _ :: s.ops = _
    rw [h.ops]

theorem Invoked.write (hptr : ptr.Transfers) (h : Invoked ptr cont s) (l : L) (v : V) :
    ∃ s', step ptr inTask s (.write l v) = some s' ∧ Invoked ptr cont s' ∧
      s'.memory = Function.update s.memory l (some v) := by
  have hstep : step ptr inTask s (.write l v) =
      some { s with memory := Function.update s.memory l (some v) } := by
    simp [step, h.disciplined.failed, h.nothing_completed.2]
  have hone : OneAction s (.write l v) := trivial
  obtain ⟨hdisciplined, -⟩ := disciplined_step hptr h.disciplined hone hstep
  exact ⟨_, hstep, ⟨hdisciplined, h.op⟩, rfl⟩

/-- An invocation that has used its `op` object returns. -/
theorem Disciplined.ret (h : Disciplined ptr cont s) {o : Op P} (hops : s.ops = [o])
    (hactions : o.actions = 1) :
    step ptr inTask s .ret = some { s with ops := [] } ∧
      Disciplined ptr cont { s with ops := [] } := by
  obtain ⟨howns, hpop⟩ := h.pop hops hactions
  refine ⟨?_, hpop⟩
  simp [step, h.failed, hops, opStep, Op.endConstruct, boostAssertMsg, howns]

/-- It makes a continuation, and returns. -/
theorem Invoked.suspend (hptr : ptr.Transfers) (h : Invoked ptr cont s)
    (results : List (Option L)) :
    ∃ s', run (step ptr inTask) s [.continue results, .ret] = some s' ∧
      Suspended ptr cont results s' ∧ s'.memory = s.memory := by
  obtain ⟨o, hops, hactions⟩ := h.op
  have howns := (h.disciplined.sole_owner hops hactions).1
  have hstep : step ptr inTask s (.continue results) =
      some (Op.callOperator ptr o [] results s) := by
    simp [step, h.disciplined.failed, hops, opStep]
  have hcontinued := h.disciplined.callOperator hptr hops hactions results
  rw [Op.callOperator, boostAssertMsg_pos howns] at hstep hcontinued
  obtain ⟨hret, hpop⟩ := hcontinued.ret rfl (congrArg Nat.succ hactions)
  refine ⟨_, run_cons_iff.mpr ⟨_, hstep, run_cons_iff.mpr ⟨_, hret, rfl⟩⟩,
    ⟨hpop, rfl, ⟨ptr.moveTo o.task, results, o.cont, o.number, false⟩, ?_, rfl, rfl⟩, rfl⟩
  simp

/-- It completes, and returns. -/
theorem Invoked.complete (hptr : ptr.Transfers) (h : Invoked ptr cont s) (args : List (Arg L V)) :
    ∃ s', run (step ptr inTask) s [.complete args, .ret] = some s' ∧ s'.failed = none ∧
      s'.completions = [args.map (decayCopy s.memory)] ∧ s'.alive = false := by
  obtain ⟨o, hops, hactions⟩ := h.op
  have hstep : step ptr inTask s (.complete args) =
      some (Op.complete ptr inTask o [] args s) := by
    simp [step, h.disciplined.failed, hops, opStep]
  obtain ⟨hcompleted, -, -, hcompletions, hdead⟩ :=
    h.disciplined.complete hptr hops hactions args
  have howns := (h.disciplined.sole_owner hops hactions).1
  rw [Op.complete, boostAssertMsg_pos howns] at hstep hcompleted hcompletions hdead
  obtain ⟨hret, hpop⟩ := hcompleted.ret rfl (congrArg Nat.succ hactions)
  exact ⟨_, run_cons_iff.mpr ⟨_, hstep, run_cons_iff.mpr ⟨_, hret, rfl⟩⟩, hpop.failed, hcompletions,
    hdead⟩

end
end CxxUtil.Composed
