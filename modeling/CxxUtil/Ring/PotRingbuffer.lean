import Mathlib.Logic.Function.Basic
import CxxUtil.Foundations.BoundedDeque

/-! # `util::PotRingbuffer`

`size_t` is `BitVec w`, for any width. A reference to an element is the slot of `mData` that it
refers to, so that `front() = x` is a `store` to the slot `front`. -/
namespace CxxUtil.Ring
set_option autoImplicit false
open CxxUtil.Foundations

variable {w : ℕ} {T : Type*}

/-- A capacity that passes the two static assertions. -/
structure Capacity (w : ℕ) where
  N : BitVec w
  positive : N ≠ 0
  even : N % 2 = 0

namespace Capacity
variable (c : Capacity w)

theorem toNat_pos : 0 < c.N.toNat := by
  have h : c.N.toNat ≠ 0 := fun h => c.positive (BitVec.eq_of_toNat_eq (by simpa using h))
  omega

instance : NeZero c.N.toNat := ⟨c.toNat_pos.ne'⟩

theorem toNat_mask : (c.N - 1).toNat = c.N.toNat - 1 := by
  have hpos := c.toNat_pos
  have hone : (1 : BitVec w).toNat = 1 := by
    have hlt := c.N.isLt
    have : w ≠ 0 := by
      rintro rfl
      omega
    simpa [Nat.pos_iff_ne_zero] using this
  rw [BitVec.toNat_sub_of_le (by rw [BitVec.le_def, hone]; exact hpos), hone]

/-- `wrappedAccess`: the slot of `mData` that an index refers to. -/
def wrappedAccess (index : BitVec w) : Fin c.N.toNat :=
  ⟨(index &&& (c.N - 1)).toNat, by
    have hle : index.toNat &&& (c.N - 1).toNat ≤ (c.N - 1).toNat := Nat.and_le_right
    have hpos := c.toNat_pos
    rw [BitVec.toNat_and]
    rw [toNat_mask] at hle ⊢
    omega⟩

def add (beginOrEnd amount : BitVec w) : BitVec w := (beginOrEnd + amount) &&& (2 * c.N - 1)

def incr (beginOrEnd : BitVec w) : BitVec w := c.add beginOrEnd 1

def decr (beginOrEnd : BitVec w) : BitVec w := c.add beginOrEnd (-1)

end Capacity

structure PotRingbuffer (c : Capacity w) (T : Type*) where
  mBegin : BitVec w
  mEnd : BitVec w
  mData : Fin c.N.toNat → T

variable {c : Capacity w}

def PotRingbuffer.at (b : PotRingbuffer c T) (index : BitVec w) : Fin c.N.toNat :=
  c.wrappedAccess (b.mBegin + index)

namespace PotRingbuffer

/-- A constructed buffer: the elements of `mData` are whatever they are found to be. -/
def init (mData : Fin c.N.toNat → T) : PotRingbuffer c T := ⟨0, 0, mData⟩

def empty (b : PotRingbuffer c T) : Bool := b.mBegin == b.mEnd

def full (b : PotRingbuffer c T) : Bool := b.mBegin ^^^ c.N == b.mEnd

def size (b : PotRingbuffer c T) : BitVec w :=
  if b.full then c.N else (b.mEnd - b.mBegin) &&& (c.N - 1)

def reverseAt (b : PotRingbuffer c T) (index : BitVec w) : Fin c.N.toNat :=
  c.wrappedAccess (b.mEnd - index)

def front (b : PotRingbuffer c T) : Fin c.N.toNat := b.at 0

def back (b : PotRingbuffer c T) : Fin c.N.toNat := b.reverseAt 1

def store (b : PotRingbuffer c T) (slot : Fin c.N.toNat) (elem : T) : PotRingbuffer c T :=
  { b with mData := Function.update b.mData slot elem }

def incrBegin (b : PotRingbuffer c T) : PotRingbuffer c T := { b with mBegin := c.incr b.mBegin }

def incrEnd (b : PotRingbuffer c T) : PotRingbuffer c T := { b with mEnd := c.incr b.mEnd }

def decrBegin (b : PotRingbuffer c T) : PotRingbuffer c T := { b with mBegin := c.decr b.mBegin }

def decrEnd (b : PotRingbuffer c T) : PotRingbuffer c T := { b with mEnd := c.decr b.mEnd }

def pushBack (b : PotRingbuffer c T) (elem : T) : PotRingbuffer c T :=
  let b := if b.full then b.incrBegin else b
  let b := b.incrEnd
  b.store b.back elem

def pushFront (b : PotRingbuffer c T) (elem : T) : PotRingbuffer c T :=
  let b := if b.full then b.decrEnd else b
  let b := b.decrBegin
  b.store b.front elem

/-- `none` where `assert(!empty())` fails. -/
def popFront (b : PotRingbuffer c T) : Option (PotRingbuffer c T) :=
  if b.empty then none else some b.incrBegin

def popBack (b : PotRingbuffer c T) : Option (PotRingbuffer c T) :=
  if b.empty then none else some b.decrEnd

def step (b : PotRingbuffer c T) : DequeOp T → Option (PotRingbuffer c T)
  | .pushBack x => some (b.pushBack x)
  | .pushFront x => some (b.pushFront x)
  | .popFront => b.popFront
  | .popBack => b.popBack

end PotRingbuffer
end CxxUtil.Ring
