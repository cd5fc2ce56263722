import Mathlib.Data.List.Basic
import CxxUtil.Foundations.Runs

/-! # `composed::op`

`include/composed/op.hpp`, for one composed operation. The task, the suboperations and the
completion handler are client code, and the actions of a run choose what it does: an `op` object is
used by the innermost invocation of the task, a continuation is invoked once at most, from wherever
client code runs, and an invocation returns or throws. A failed assertion ends the run. -/
namespace CxxUtil.Composed
open Foundations
set_option autoImplicit false

/-- What is used of `beast::handler_ptr`: what `make_handler_ptr` makes, the conversion to `bool`,
what a move makes of a pointer and leaves of it, and what `invoke` leaves of it. That `invoke`
destroys the task and then calls the handler is part of `Op.complete`. -/
structure HandlerPtr (P : Type*) where
  make : P
  owns : P → Bool
  moveTo : P → P
  moveFrom : P → P
  invoke : P → P

structure HandlerPtr.Transfers {P : Type*} (ptr : HandlerPtr P) : Prop where
  make : ptr.owns ptr.make = true
  moveTo : ∀ p, ptr.owns (ptr.moveTo p) = ptr.owns p
  moveFrom : ∀ p, ptr.owns (ptr.moveFrom p) = false
  invoke : ∀ p, ptr.owns (ptr.invoke p) = false

/-- `composed::handler_ptr`, which has the interface of `beast::handler_ptr`: whether there is data
in its `unique_ptr`, which `invoke` releases. -/
def handlerPtr : HandlerPtr Bool where
  make := true
  owns p := p
  moveTo p := p
  moveFrom _ := false
  invoke _ := false

theorem handlerPtr_transfers : handlerPtr.Transfers :=
  ⟨rfl, fun _ => rfl, fun _ => rfl, fun _ => rfl⟩

/-- An `op` object, in its constructor. The invocation of the task that it makes has a number, and
so far has used the object `actions` times. -/
structure Op (P : Type*) where
  task : P
  cont : Bool
  number : ℕ
  actions : ℕ

/-- `std::ignore` among the results is `none`. The continuation was made in invocation `number`. -/
structure OpContinuation (P L : Type*) where
  task : P
  results : List (Option L)
  cont : Bool
  number : ℕ
  invoked : Bool

/-- An argument of `complete`, perhaps an lvalue. -/
inductive Arg (L V : Type*)
  | lvalue (l : L)
  | value (v : V)

/-- The `op` objects, innermost first, and the continuations, in the order in which they were made;
the lvalues, whether the task has not been destroyed, and how often it has been invoked; the calls
of the completion handler; and the assertion that has fired. -/
structure State (P L V : Type*) where
  ops : List (Op P)
  continuations : List (OpContinuation P L)
  memory : L → Option V
  alive : Bool
  invocations : ℕ
  completions : List (List (Option V))
  failed : Option String

section
variable {P L V : Type*}

/-- `BOOST_ASSERT_MSG`, with what follows it. -/
def boostAssertMsg (expr : Bool) (msg : String) (s s' : State P L V) : State P L V :=
  if expr then s' else { s with failed := some msg }

def alreadyContinued : String :=
  "Attempt to continue task already continued/completed! " ++
    "Did you forget a yield macro, or already call op.complete()?"

def alreadyCompleted : String :=
  "Attempt to complete task already continued/completed! " ++
    "Did you forget a yield macro, or already call op.complete()?"

def notContinued : String :=
  "Task not continued or completed! " ++
    "Did you forget to schedule the next continuation or call op.complete()?"

/-- The assignment to `std::tie(results...)`, from the first to the last. -/
def assign [DecidableEq L] : List (Option L) → List V → (L → Option V) → L → Option V
  | some l :: ls, v :: vs, memory => assign ls vs (Function.update memory l (some v))
  | none :: ls, _ :: vs, memory => assign ls vs memory
  | _, _, memory => memory

/-- `decay_copy`. -/
def decayCopy (memory : L → Option V) : Arg L V → Option V
  | .lvalue l => memory l
  | .value v => some v

/-! ## `op` -/

variable (ptr : HandlerPtr P) (inTask : L → Bool)

/-- The constructor up to the invocation of the task. -/
def Op.construct (d : P) (c : Bool) (s : State P L V) : State P L V :=
  { s with
    ops := ⟨ptr.moveTo d, c, s.invocations, 0⟩ :: s.ops
    invocations := s.invocations + 1 }

/-- The constructor when the task has returned. -/
def Op.endConstruct (o : Op P) (outer : List (Op P)) (s : State P L V) : State P L V :=
  boostAssertMsg (!ptr.owns o.task) notContinued s { s with ops := outer }

/-- `op(results...)`. -/
def Op.callOperator (o : Op P) (outer : List (Op P)) (results : List (Option L))
    (s : State P L V) : State P L V :=
  boostAssertMsg (ptr.owns o.task) alreadyContinued s
    { s with
      ops := { o with task := ptr.moveFrom o.task, actions := o.actions + 1 } :: outer
      continuations := s.continuations ++ [⟨ptr.moveTo o.task, results, o.cont, o.number, false⟩] }

/-- The task is destroyed, and what is in it. -/
def destroy (s : State P L V) : State P L V :=
  { s with alive := false, memory := fun l => if inTask l then none else s.memory l }

def Op.complete (o : Op P) (outer : List (Op P)) (args : List (Arg L V)) (s : State P L V) :
    State P L V :=
  boostAssertMsg (ptr.owns o.task) alreadyCompleted s
    { destroy inTask s with
      ops := { o with task := ptr.invoke o.task, actions := o.actions + 1 } :: outer
      completions := s.completions ++ [args.map (decayCopy s.memory)] }

/-- An exception of the task leaves the constructor, and the member `task` is destroyed. -/
def Op.unwind (o : Op P) (outer : List (Op P)) (s : State P L V) : State P L V :=
  if ptr.owns o.task then { destroy inTask s with ops := outer } else { s with ops := outer }

/-! ## `op_continuation` and `start_op` -/

def OpContinuation.callOperator [DecidableEq L] (i : ℕ) (k : OpContinuation P L) (args : List V)
    (s : State P L V) : State P L V :=
  Op.construct ptr k.task true
    { s with
      memory := assign k.results args s.memory
      continuations :=
        s.continuations.set i { k with task := ptr.moveFrom k.task, invoked := true } }

def asioHandlerIsContinuation (k : OpContinuation P L) : Bool := k.cont

/-- `cont` is what `asio_handler_is_continuation` returns for the handler. -/
def startOp (cont : Bool) (memory : L → Option V) : State P L V :=
  Op.construct ptr ptr.make cont ⟨[], [], memory, true, 0, [], none⟩

/-! ## Runs -/

inductive Action (L V : Type*)
  | continue (results : List (Option L))
  | complete (args : List (Arg L V))
  | invoke (i : ℕ) (args : List V)
  | write (l : L) (v : V)
  | ret
  | throw

/-- What the innermost invocation of the task does. -/
def opStep (o : Op P) (outer : List (Op P)) (s : State P L V) : Action L V → State P L V
  | .continue results => Op.callOperator ptr o outer results s
  | .complete args => Op.complete ptr inTask o outer args s
  | .ret => Op.endConstruct ptr o outer s
  | .throw => Op.unwind ptr inTask o outer s
  | .invoke .. | .write .. => s

def step [DecidableEq L] (s : State P L V) (act : Action L V) : Option (State P L V) :=
  if s.failed.isSome then none
  else
    match act with
    | .invoke i args =>
      match s.continuations[i]? with
      | none => none
      | some k =>
        if k.invoked = false ∧ args.length = k.results.length then
          some (OpContinuation.callOperator ptr i k args s)
        else none
    | .write l v =>
      if inTask l → s.alive then
        some { s with memory := Function.update s.memory l (some v) }
      else none
    | act =>
      match s.ops with
      | [] => none
      | o :: outer => some (opStep ptr inTask o outer s act)

/-- The steps that can be taken in `s`, and where they lead. -/
inductive Effect [DecidableEq L] (s : State P L V) : Action L V → State P L V → Prop
  | continue (results : List (Option L)) (o : Op P) (outer : List (Op P))
      (hops : s.ops = o :: outer) :
      Effect s (.continue results) (Op.callOperator ptr o outer results s)
  | complete (args : List (Arg L V)) (o : Op P) (outer : List (Op P)) (hops : s.ops = o :: outer) :
      Effect s (.complete args) (Op.complete ptr inTask o outer args s)
  | invoke (i : ℕ) (args : List V) (k : OpContinuation P L) (hk : s.continuations[i]? = some k)
      (hinvoked : k.invoked = false) :
      Effect s (.invoke i args) (OpContinuation.callOperator ptr i k args s)
  | write (l : L) (v : V) (hl : inTask l → s.alive) :
      Effect s (.write l v) { s with memory := Function.update s.memory l (some v) }
  | ret (o : Op P) (outer : List (Op P)) (hops : s.ops = o :: outer) :
      Effect s .ret (Op.endConstruct ptr o outer s)
  | throw (o : Op P) (outer : List (Op P)) (hops : s.ops = o :: outer) :
      Effect s .throw (Op.unwind ptr inTask o outer s)

theorem step_effect [DecidableEq L] {s s' : State P L V} {act : Action L V}
    (hs : step ptr inTask s act = some s') : Effect ptr inTask s act s' := by
  obtain ⟨-, hs⟩ := Option.ite_none_left_eq_some.mp hs
  cases act with
  | invoke i args =>
    cases hk : s.continuations[i]? with
    | none =>
      simp only [hk] at hs
      cases hs
    | some k =>
      simp only [hk, Option.ite_none_right_eq_some] at hs
      obtain ⟨⟨hinvoked, -⟩, hs⟩ := hs
      obtain rfl := Option.some.inj hs
      exact .invoke i args k hk hinvoked
  | write l v =>
    obtain ⟨hl, hs⟩ := Option.ite_none_right_eq_some.mp hs
    obtain rfl := Option.some.inj hs
    exact .write l v hl
  | «continue» | complete | ret | throw =>
    cases hops : s.ops with
    | nil =>
      simp only [hops] at hs
      cases hs
    | cons o outer =>
      simp only [hops] at hs
      obtain rfl := Option.some.inj hs
      constructor
      exact hops

end
end CxxUtil.Composed
