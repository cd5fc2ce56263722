import Mathlib.Data.Nat.ModEq
import Mathlib.Data.List.Basic
import Mathlib.Logic.Function.Basic
import CxxUtil.Foundations.Runs

/-! # Bounded double-ended queues, and rings of slots that hold one

`boundedDeque n` is a list of at most `n` elements with a push and a pop at either end: a push onto
a full list drops the element at the other end. `content` reads the elements that a ring of slots
holds from a position on, positions being taken modulo the number of slots; the lemmas below say
what each of the four operations on positions and slots does to it. -/
namespace CxxUtil.Foundations
set_option autoImplicit false

variable {α : Type*}

inductive DequeOp (α : Type*) where
  | pushBack (x : α)
  | pushFront (x : α)
  | popFront
  | popBack

/-- The list after one operation; a pop of the empty list is refused. -/
def boundedDeque (n : ℕ) (l : List α) : DequeOp α → Option (List α)
  | .pushBack x => some ((if l.length = n then l.tail else l) ++ [x])
  | .pushFront x => some (x :: if l.length = n then l.dropLast else l)
  | .popFront => if l.isEmpty then none else some l.tail
  | .popBack => if l.isEmpty then none else some l.dropLast

/-! ## What a ring holds -/

variable {N : ℕ} [NeZero N]

/-- The `n` elements that a ring of `N` slots holds from position `b` on. -/
def content (slot : Fin N → α) (b n : ℕ) : List α :=
  (List.range n).map fun i => slot (Fin.ofNat N (b + i))

theorem ofNat_eq_of_modEq {p q : ℕ} (h : p ≡ q [MOD N]) : Fin.ofNat N p = Fin.ofNat N q :=
  Fin.ext h

/-- Positions that are at most `N - 1` apart have slots of their own. -/
theorem ofNat_ne {b i j : ℕ} (hij : i < j) (hj : j < i + N) :
    Fin.ofNat N (b + i) ≠ Fin.ofNat N (b + j) := by
  intro h
  have hmod : b + i ≡ b + j [MOD N] := congrArg Fin.val h
  have hdvd : N ∣ j - i := (Nat.modEq_iff_dvd' (by omega)).mp (Nat.ModEq.add_left_cancel' b hmod)
  exact absurd (Nat.le_of_dvd (by omega) hdvd) (by omega)

section
variable (slot : Fin N → α)

@[simp] theorem content_length (b n : ℕ) : (content slot b n).length = n := by simp [content]

theorem content_getElem {b n i : ℕ} (hi : i < (content slot b n).length) :
    (content slot b n)[i] = slot (Fin.ofNat N (b + i)) := by
  simp [content]

theorem content_congr {b b' : ℕ} (h : b ≡ b' [MOD N]) (n : ℕ) :
    content slot b n = content slot b' n := by
  refine List.map_congr_left fun i _ => congrArg slot ?_
  exact ofNat_eq_of_modEq (Nat.ModEq.add_right i h)

theorem content_succ (b n : ℕ) :
    content slot b (n + 1) = content slot b n ++ [slot (Fin.ofNat N (b + n))] := by
  simp [content, List.range_succ]

theorem content_cons (b n : ℕ) :
    content slot b (n + 1) = slot (Fin.ofNat N b) :: content slot (b + 1) n := by
  simp only [content, List.range_succ_eq_map, List.map_cons, List.map_map, Nat.add_zero]
  congr 1
  refine List.map_congr_left fun i _ => ?_
  simp only [Function.comp_apply, Nat.succ_eq_add_one]
  congr 2
  omega

/-- A write outside the `n` positions from `b` on is not seen there. -/
theorem content_update {b n : ℕ} {k : Fin N} (x : α)
    (hk : ∀ i < n, Fin.ofNat N (b + i) ≠ k) :
    content (Function.update slot k x) b n = content slot b n := by
  refine List.map_congr_left fun i hi => ?_
  exact Function.update_of_ne (hk i (List.mem_range.mp hi)) x slot

/-- A write to the slot behind the last element appends, when that slot is free. -/
theorem content_append {b n : ℕ} (hn : n < N) (x : α) :
    content (Function.update slot (Fin.ofNat N (b + n)) x) b (n + 1) =
      content slot b n ++ [x] := by
  rw [content_succ, Function.update_self, content_update]
  intro i hi
  exact ofNat_ne hi (by omega)

/-- A write to the slot before the first element prepends, when that slot is free. -/
theorem content_prepend {b n : ℕ} (hn : n < N) (x : α) :
    content (Function.update slot (Fin.ofNat N b) x) b (n + 1) = x :: content slot (b + 1) n := by
  rw [content_cons, Function.update_self, content_update]
  intro i hi
  rw [Nat.add_assoc]
  exact (ofNat_ne (i := 0) (by omega) (by omega)).symm

end
end CxxUtil.Foundations
