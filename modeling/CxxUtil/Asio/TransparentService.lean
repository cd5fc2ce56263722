import Mathlib.Logic.Function.Basic
import CxxUtil.Foundations.Handles
import CxxUtil.Foundations.Runs

/-! # `TransparentService` and the handlers made for its I/O objects

Version 2 of `include/util/asio/transparentservice.hpp`, as far as it is about `shared_ptr`s to
implementations. Whatever holds such a pointer is a handle: an I/O object, the local `impl` of an
asynchronous method, a parameter on the way to the completion token, the token, a
`TransparentHandler`, and a `shared_from_this()` that the implementation's method has captured.
Implementations are numbered, and `refs` counts the references to each. A token and a handler carry
the number of the implementation that they were made for, which no step reads. -/
namespace CxxUtil.Asio.TransparentService
open Foundations Handles
set_option autoImplicit false

inductive Kind
  | object
  | call
  | parameter
  | token (call impl : ℕ)
  | handler (impl : ℕ)
  | capture
  deriving DecidableEq, Repr

structure World where
  handles : List (Handle Kind ℕ)
  made : ℕ
  refs : ℕ → ℕ
  implementations : ℕ

/-! ## `shared_ptr` -/

def acquire (t : Option ℕ) (w : World) : World :=
  match t with
  | none => w
  | some p => { w with refs := Function.update w.refs p (w.refs p + 1) }

def release (t : Option ℕ) (w : World) : World :=
  match t with
  | none => w
  | some p => { w with refs := Function.update w.refs p (w.refs p - 1) }

/-- A new handle with a pointer that has been counted for it. -/
def add (kind : Kind) (target : Option ℕ) (w : World) : World :=
  { w with handles := w.handles ++ [⟨w.made, kind, target⟩], made := w.made + 1 }

def copyTo (kind : Kind) (id : ℕ) (w : World) : World :=
  match lookup w.handles id with
  | none => w
  | some h => add kind h.target (acquire h.target w)

def clear (id : ℕ) (w : World) : World :=
  { w with handles := modify id (fun h => { h with target := none }) w.handles }

def moveTo (kind : Kind) (id : ℕ) (w : World) : World :=
  match lookup w.handles id with
  | none => w
  | some h => add kind h.target (clear id w)

def drop (id : ℕ) (w : World) : World :=
  match lookup w.handles id with
  | none => w
  | some h => release h.target { w with handles := remove id w.handles }

/-! ## Starting an asynchronous method -/

/-- `construct`: `make_shared`. -/
def construct (w : World) : World :=
  let impl := w.implementations
  add .object (some impl) (acquire (some impl) { w with implementations := impl + 1 })

/-- `impl` is passed by value and moved into the parameter of the token's constructor, which does not
initialise `mImpl` from it. -/
def transformCompletionToken (call impl : ℕ) (w : World) : World :=
  let passed := copyTo .parameter call w
  let moved := moveTo .parameter w.made passed
  let token := add (.token call impl) none moved
  drop w.made (drop passed.made token)

/-- `UTIL_ASIO_DECL_ASYNC_METHOD` up to the call of the implementation's method. -/
def startMethod (object impl : ℕ) (w : World) : World :=
  transformCompletionToken w.made impl (copyTo .call object w)

/-- The constructor of `TransparentHandler`: `mImpl(token.impl())`. -/
def makeHandler (token impl : ℕ) (w : World) : World := copyTo (.handler impl) token w

/-! ## Runs -/

inductive Action
  | construct
  | startMethod (object : ℕ)
  | makeHandler (token : ℕ)
  /-- The method captures `shared_from_this()`. -/
  | capture (call : ℕ)
  | copy (handle : ℕ)
  | move (handle : ℕ)
  | close (object : ℕ)
  | invoke (handler : ℕ)
  /-- A handle goes away: an I/O object, a token, the local of a method that returns, a handler or a
  captured pointer. -/
  | destroy (handle : ℕ)
  deriving DecidableEq, Repr

def Kind.copyable : Kind → Bool
  | handler _ => true
  | capture => true
  | _ => false

def Kind.movable : Kind → Bool
  | object => true
  | handler _ => true
  | capture => true
  | _ => false

def Kind.isTokenOf (call : ℕ) : Kind → Bool
  | token call' _ => call' = call
  | _ => false

/-- The token is a temporary of the expression that calls the method, and goes before the local. The
`close` of an implementation drops handlers and captured pointers, which are actions of their own. -/
def step (w : World) : Action → Option World
  | .construct => some (construct w)
  | .startMethod id =>
    match lookup w.handles id with
    | some ⟨_, .object, some impl⟩ => some (startMethod id impl w)
    | _ => none
  | .makeHandler id =>
    match lookup w.handles id with
    | some ⟨_, .token _ impl, _⟩ => some (makeHandler id impl w)
    | _ => none
  | .capture id =>
    match lookup w.handles id with
    | some ⟨_, .call, _⟩ => some (copyTo .capture id w)
    | _ => none
  | .copy id =>
    match lookup w.handles id with
    | some ⟨_, kind, _⟩ => if kind.copyable then some (copyTo kind id w) else none
    | _ => none
  | .move id =>
    match lookup w.handles id with
    | some ⟨_, kind, _⟩ => if kind.movable then some (moveTo kind id w) else none
    | _ => none
  | .close id =>
    match lookup w.handles id with
    | some ⟨_, .object, _⟩ => some w
    | _ => none
  | .invoke id =>
    match lookup w.handles id with
    | some ⟨_, .handler _, _⟩ => some w
    | _ => none
  | .destroy id =>
    match lookup w.handles id with
    | some _ =>
      if w.handles.any fun h => h.kind.isTokenOf id then none else some (drop id w)
    | none => none

def init : World := ⟨[], 0, fun _ => 0, 0⟩

end CxxUtil.Asio.TransparentService
