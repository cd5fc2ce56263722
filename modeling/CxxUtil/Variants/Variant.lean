import Mathlib.Data.Int.Notation
import Mathlib.Logic.Function.Basic
import CxxUtil.Foundations.Runs

/-! # `util::Variant`

`include/util/variant.hpp`. `mDtor` is the tag of a type, or `none` for `dtor<void>`; `mData` is the
object that was constructed last in the storage. Objects are numbered as they are constructed, and
the ledger holds the numbers of those whose destructor has been called. A Variant is known by a
name: those of a client are numbered, the others are the parameter of the assignment and the
temporary of `swap`. The assertion of the fallback `apply` is compiled out, but it is recorded that
it was reached. -/
namespace CxxUtil.Variants
open Foundations
set_option autoImplicit false

/-- The bounded types of a Variant. Their move constructors give the value of the new object and
what is left in the source. -/
structure Types (Ty Tag V : Type*) where
  bounded : List Ty
  dtor : Ty → Tag
  move : Ty → V → V × V

structure Object (Ty V : Type*) where
  number : ℕ
  type : Ty
  value : V
  deriving DecidableEq, Repr

structure Variant (Ty Tag V : Type*) where
  mDtor : Option Tag
  mData : Option (Object Ty V)
  deriving DecidableEq, Repr

inductive Name
  | var (n : ℕ)
  | other
  | tmp
  deriving DecidableEq, Repr

structure World (Ty Tag V : Type*) where
  variants : Name → Variant Ty Tag V
  live : Name → Bool
  constructed : ℕ
  destroyed : List ℕ
  /-- A storage has been constructed into while it held an object that was not destroyed. -/
  clobbered : Bool
  asserted : Bool

section
variable {Ty Tag V : Type*}

/-! ## Storage -/

namespace World

def setDtor (n : Name) (mDtor : Option Tag) (s : World Ty Tag V) : World Ty Tag V :=
  { s with variants := Function.update s.variants n { s.variants n with mDtor } }

def occupied (s : World Ty Tag V) (n : Name) : Bool :=
  (s.variants n).mData.any fun o => !s.destroyed.contains o.number

/-- Placement new. -/
def construct (n : Name) (U : Ty) (x : V) (s : World Ty Tag V) : World Ty Tag V :=
  { s with
    variants := Function.update s.variants n
      { s.variants n with mData := some ⟨s.constructed, U, x⟩ }
    constructed := s.constructed + 1
    clobbered := s.clobbered || s.occupied n }

def setValue (n : Name) (o : Object Ty V) (x : V) (s : World Ty Tag V) : World Ty Tag V :=
  { s with
    variants := Function.update s.variants n
      { s.variants n with mData := some { o with value := x } } }

/-- `mDtor(&mData)`. -/
def callDtor (n : Name) (s : World Ty Tag V) : World Ty Tag V :=
  match (s.variants n).mDtor, (s.variants n).mData with
  | some _, some o => { s with destroyed := s.destroyed ++ [o.number] }
  | _, _ => s

/-- A Variant comes to be, by its default constructor. -/
def make (n : Name) (s : World Ty Tag V) : World Ty Tag V :=
  { s with
    variants := Function.update s.variants n ⟨none, none⟩
    live := Function.update s.live n true }

def release (n : Name) (s : World Ty Tag V) : World Ty Tag V :=
  { s with
    variants := Function.update s.variants n ⟨none, none⟩
    live := Function.update s.live n false }

/-- `~Variant`, and the end of the Variant. -/
def destroy (n : Name) (s : World Ty Tag V) : World Ty Tag V := (s.callDtor n).release n

end World

/-! ## The functions of the header -/

section
variable [DecidableEq Tag] (ts : Types Ty Tag V)

/-- A pointer to the storage, or null. -/
def get (U : Ty) (v : Variant Ty Tag V) : Option (Option (Object Ty V)) :=
  if v.mDtor = some (ts.dtor U) then some v.mData else none

/-- `detail::apply` on the types that are left to try; `unbounded` is the assertion. -/
def applyTo {σ : Type*} (f : Ty → Option (Object Ty V) → σ → σ) (unbounded : σ → σ)
    (v : Variant Ty Tag V) : List Ty → σ → σ
  | [], s => unbounded s
  | T :: Ts, s =>
    match get ts T v with
    | some x => f T x s
    | none => applyTo f unbounded v Ts s

def apply {σ : Type*} (f : Ty → Option (Object Ty V) → σ → σ) (unbounded : σ → σ)
    (v : Variant Ty Tag V) (s : σ) : σ :=
  applyTo ts f unbounded v ts.bounded s

def assertFails (s : World Ty Tag V) : World Ty Tag V := { s with asserted := true }

/-- The visitor `MoveTo`, for an object that is in the storage of `source`. -/
def moveTo (destination source : Name) (T : Ty) (x : Option (Object Ty V)) (s : World Ty Tag V) :
    World Ty Tag V :=
  match x with
  | some o =>
    let (x, left) := ts.move T o.value
    (s.setValue source o left).construct destination T x
  | none => s

/-- `apply(detail::MoveTo(&destination.mData), source)`. -/
def applyMoveTo (destination source : Name) (s : World Ty Tag V) : World Ty Tag V :=
  apply ts (moveTo ts destination source) assertFails (s.variants source) s

/-- The statements come in pairs: a tag is copied, and `MoveTo` applied to the Variant that it is
copied from. -/
def transfer (destination source : Name) (s : World Ty Tag V) : World Ty Tag V :=
  applyMoveTo ts destination source (s.setDtor destination (s.variants source).mDtor)

def swap (lhs rhs : Name) (s : World Ty Tag V) : World Ty Tag V :=
  let s := s.make .tmp
  let s := transfer ts .tmp lhs s
  let s := transfer ts lhs rhs s
  let s := transfer ts rhs .tmp s
  s.destroy .tmp

/-- `Variant (U&& x)`. -/
def convert (n : Name) (U : Ty) (x : V) (s : World Ty Tag V) : World Ty Tag V :=
  (((s.make n).setDtor n (some (ts.dtor U))).construct n U x)

/-- `Variant (Variant&& other)`. -/
def moveConstruct (n source : Name) (s : World Ty Tag V) : World Ty Tag V :=
  swap ts n source (s.make n)

/-- `operator=`, with its parameter constructed. -/
def assign (n : Name) (s : World Ty Tag V) : World Ty Tag V :=
  (swap ts n .other s).destroy .other

/-! ## Runs -/

inductive Action (Ty V : Type*)
  | convert (n : ℕ) (U : Ty) (x : V)
  | moveConstruct (n source : ℕ)
  /-- `v = U{x}`: the parameter is the converted temporary. -/
  | assignValue (n : ℕ) (U : Ty) (x : V)
  /-- `v = std::move(u)`, which may be the same Variant. -/
  | assignVariant (n source : ℕ)
  | swap (lhs rhs : ℕ)
  | destroy (n : ℕ)

def step [DecidableEq Ty] (s : World Ty Tag V) : Action Ty V → Option (World Ty Tag V)
  | .convert n U x =>
    if s.live (.var n) = false ∧ U ∈ ts.bounded then some (convert ts (.var n) U x s) else none
  | .moveConstruct n source =>
    if s.live (.var n) = false ∧ s.live (.var source) then
      some (moveConstruct ts (.var n) (.var source) s)
    else none
  | .assignValue n U x =>
    if s.live (.var n) ∧ U ∈ ts.bounded then some (assign ts (.var n) (convert ts .other U x s))
    else none
  | .assignVariant n source =>
    if s.live (.var n) ∧ s.live (.var source) then
      some (assign ts (.var n) (moveConstruct ts .other (.var source) s))
    else none
  | .swap lhs rhs =>
    if s.live (.var lhs) ∧ s.live (.var rhs) then some (swap ts (.var lhs) (.var rhs) s) else none
  | .destroy n => if s.live (.var n) then some (s.destroy (.var n)) else none

/-- What a step does. -/
inductive Effect (s : World Ty Tag V) : Action Ty V → World Ty Tag V → Prop
  | convert {n : ℕ} {U : Ty} {x : V} (hn : s.live (.var n) = false) (hU : U ∈ ts.bounded) :
      Effect s (.convert n U x) (convert ts (.var n) U x s)
  | moveConstruct {n source : ℕ} (hn : s.live (.var n) = false)
      (hsource : s.live (.var source) = true) :
      Effect s (.moveConstruct n source) (moveConstruct ts (.var n) (.var source) s)
  | assignValue {n : ℕ} {U : Ty} {x : V} (hn : s.live (.var n) = true) (hU : U ∈ ts.bounded) :
      Effect s (.assignValue n U x) (assign ts (.var n) (convert ts .other U x s))
  | assignVariant {n source : ℕ} (hn : s.live (.var n) = true)
      (hsource : s.live (.var source) = true) :
      Effect s (.assignVariant n source)
        (assign ts (.var n) (moveConstruct ts .other (.var source) s))
  | swap {lhs rhs : ℕ} (hlhs : s.live (.var lhs) = true) (hrhs : s.live (.var rhs) = true) :
      Effect s (.swap lhs rhs) (swap ts (.var lhs) (.var rhs) s)
  | destroy {n : ℕ} (hn : s.live (.var n) = true) :
      Effect s (.destroy n) (s.destroy (.var n))

theorem step_effect [DecidableEq Ty] {s s' : World Ty Tag V} {act : Action Ty V}
    (hs : step ts s act = some s') : Effect ts s act s' := by
  cases act with
  | convert n U x =>
    obtain ⟨⟨hn, hU⟩, h⟩ := Option.ite_none_right_eq_some.mp hs
    exact Option.some.inj h ▸ .convert hn hU
  | moveConstruct n source =>
    obtain ⟨⟨hn, hsource⟩, h⟩ := Option.ite_none_right_eq_some.mp hs
    exact Option.some.inj h ▸ .moveConstruct hn hsource
  | assignValue n U x =>
    obtain ⟨⟨hn, hU⟩, h⟩ := Option.ite_none_right_eq_some.mp hs
    exact Option.some.inj h ▸ .assignValue hn hU
  | assignVariant n source =>
    obtain ⟨⟨hn, hsource⟩, h⟩ := Option.ite_none_right_eq_some.mp hs
    exact Option.some.inj h ▸ .assignVariant hn hsource
  | swap lhs rhs =>
    obtain ⟨⟨hlhs, hrhs⟩, h⟩ := Option.ite_none_right_eq_some.mp hs
    exact Option.some.inj h ▸ .swap hlhs hrhs
  | destroy n =>
    obtain ⟨hn, h⟩ := Option.ite_none_right_eq_some.mp hs
    exact Option.some.inj h ▸ .destroy hn

def init : World Ty Tag V where
  variants _ := ⟨none, none⟩
  live _ := false
  constructed := 0
  destroyed := []
  clobbered := false
  asserted := false

end
end

/-! ## Two types, as the tests have them -/

inductive TestType
  | A
  | B
  deriving DecidableEq, Repr

/-- Both have an `int`, which a move leaves as it is. -/
def testTypes : Types TestType TestType ℤ := ⟨[.A, .B], id, fun _ x => (x, x)⟩

end CxxUtil.Variants
