import Mathlib.Data.Int.Notation
import CxxUtil.Foundations.Handles
import CxxUtil.Foundations.Runs

/-! # `Operation`

Version 2 of `include/util/asio/operation.hpp`, for one operation and any coroutine: the actions of a
run choose what the coroutine and its callers do with the `Operation` objects and with what value of
the coroutine a call of one ends. An object is a handle whose kind is the value of its
`boost::asio::coroutine` base and whose target is `m`. The arguments of the calls of `complete` are
recorded. -/
namespace CxxUtil.Asio.Operation
open Foundations Handles
set_option autoImplicit false

variable {R : Type*}

/-- The members that are not code. Objects take up memory, so `mRefs` stays below the maximum of `size_t`. -/
structure OperationState (R : Type*) where
  mResult : R
  mRefs : ℕ

inductive Event (R : Type*)
  | allocated
  | destroyed
  | deallocated
  | called (result : R)
  deriving DecidableEq

/-- What `operator()` has been called on; `runChild` makes its object for the call. -/
structure Call where
  object : ℕ
  isTemporary : Bool
  deriving DecidableEq

/-- The state until its memory is given back, the objects and how many there have been, the active
calls of `operator()`, innermost first, and what has happened. -/
structure World (R : Type*) where
  state : Option (OperationState R)
  objects : List (Handle ℤ Unit)
  made : ℕ
  calls : List Call
  log : List (Event R)
  completions : List R

/-! ## The reference count -/

def intrusivePtrAddRef (w : World R) : World R :=
  { w with state := w.state.map fun st => { st with mRefs := st.mRefs + 1 } }

def intrusivePtrRelease (w : World R) : World R :=
  match w.state with
  | none => w
  | some st =>
    if st.mRefs - 1 = 0 then
      { w with
        state := none
        log := w.log ++ [.destroyed, .deallocated, .called st.mResult] }
    else { w with state := some { st with mRefs := st.mRefs - 1 } }

/-! ## Operations -/

/-- A new object, which has taken over or been counted for its pointer. -/
def construct (value : ℤ) (m : Option Unit) (w : World R) : World R :=
  { w with objects := w.objects ++ [⟨w.made, value, m⟩], made := w.made + 1 }

/-- The `intrusive_ptr` that `makeOperation` returns is moved into the first object. -/
def makeOperation (defaultResult : R) : World R :=
  construct 0 (some ()) (intrusivePtrAddRef ⟨some ⟨defaultResult, 0⟩, [], 0, [], [.allocated], []⟩)

def copy (o : Handle ℤ Unit) (w : World R) : World R :=
  construct o.kind o.target (if o.target.isSome then intrusivePtrAddRef w else w)

def clearM (id : ℕ) (w : World R) : World R :=
  { w with objects := modify id (fun o => { o with target := none }) w.objects }

def move (o : Handle ℤ Unit) (w : World R) : World R := construct o.kind o.target (clearM o.id w)

/-- `m.reset()`. -/
def reset (o : Handle ℤ Unit) (w : World R) : World R :=
  if o.target.isSome then intrusivePtrRelease (clearM o.id w) else w

def destroy (o : Handle ℤ Unit) (w : World R) : World R :=
  let w := { w with objects := remove o.id w.objects }
  if o.target.isSome then intrusivePtrRelease w else w

def complete (result : R) (w : World R) : World R :=
  { w with
    state := w.state.map fun st => { st with mResult := result }
    completions := w.completions ++ [result] }

/-- `operator()` up to the body of the coroutine. -/
def enter (call : Call) (w : World R) : World R := { w with calls := call :: w.calls }

def runChild (o : Handle ℤ Unit) (w : World R) : World R := enter ⟨w.made, true⟩ (copy o w)

def setValue (id : ℕ) (value : ℤ) (w : World R) : World R :=
  { w with objects := modify id (fun o => { o with kind := value }) w.objects }

def withObject (id : ℕ) (f : Handle ℤ Unit → World R → World R) (w : World R) : World R :=
  match lookup w.objects id with
  | some o => f o w
  | none => w

/-- The end of `runChild`, where its object goes out of scope. -/
def leave (call : Call) (w : World R) : World R :=
  if call.isTemporary then withObject call.object destroy w else w

/-- `operator()` behind the body of the coroutine, which has left `value`. The value -1 is that of a
coroutine that is complete. -/
def finish (call : Call) (value : ℤ) (w : World R) : World R :=
  let w := setValue call.object value w
  leave call (if value = -1 then withObject call.object reset w else w)

/-! ## Runs -/

inductive Action (R : Type*)
  | copy (object : ℕ)
  | move (object : ℕ)
  | invoke (object : ℕ)
  | runChild (object : ℕ)
  /-- The innermost body returns. -/
  | finish (value : ℤ)
  /-- An exception leaves the innermost body, and `operator()` with it. -/
  | throw (value : ℤ)
  | destroy (object : ℕ)
  | complete (object : ℕ) (result : R)

/-- `m` is null only in an object that has been moved from or reset, and an object on which
`operator()` is active is not destroyed. -/
def step (w : World R) : Action R → Option (World R)
  | .copy id => (lookup w.objects id).map fun o => copy o w
  | .move id => (lookup w.objects id).map fun o => move o w
  | .invoke id =>
    (lookup w.objects id).bind fun o =>
      if o.target.isSome then some (enter ⟨id, false⟩ w) else none
  | .runChild id =>
    (lookup w.objects id).bind fun o => if o.target.isSome then some (runChild o w) else none
  | .finish value =>
    match w.calls with
    | [] => none
    | call :: calls => some (finish call value { w with calls })
  | .throw value =>
    match w.calls with
    | [] => none
    | call :: calls => some (leave call (setValue call.object value { w with calls }))
  | .destroy id =>
    (lookup w.objects id).bind fun o =>
      if id ∈ w.calls.map Call.object then none else some (destroy o w)
  | .complete id result =>
    (lookup w.objects id).bind fun o => if o.target.isSome then some (complete result w) else none

end CxxUtil.Asio.Operation
