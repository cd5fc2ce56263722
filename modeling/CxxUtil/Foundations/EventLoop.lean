import Mathlib.Data.List.Nodup
import Mathlib.Data.List.Perm.Basic

/-! # A single-threaded loop of posted functions

A `Loop` is a world and the functions posted to it, first in, first out. Running one may change the
world and post further ones. Whatever is to happen once is numbered when it is asked for, and
`IssuedOnce` says that a list holds each number given out so far exactly once. -/
namespace CxxUtil.Foundations
set_option autoImplicit false

structure Loop (W J : Type*) where
  world : W
  posted : List J

namespace Loop

variable {W J : Type*}

def post (l : Loop W J) (j : J) : Loop W J := { l with posted := l.posted ++ [j] }

def update (l : Loop W J) (f : W → W) : Loop W J := { l with world := f l.world }

/-- Runs the function that was posted first. -/
def next (exec : J → Loop W J → Option (Loop W J)) (l : Loop W J) : Option (Loop W J) :=
  match l.posted with
  | [] => none
  | j :: js => exec j { l with posted := js }

@[simp] theorem post_world (l : Loop W J) (j : J) : (l.post j).world = l.world := rfl
@[simp] theorem post_posted (l : Loop W J) (j : J) : (l.post j).posted = l.posted ++ [j] := rfl
@[simp] theorem update_world (l : Loop W J) (f : W → W) : (l.update f).world = f l.world := rfl
@[simp] theorem update_posted (l : Loop W J) (f : W → W) : (l.update f).posted = l.posted := rfl

theorem next_eq_some {exec : J → Loop W J → Option (Loop W J)} {l l' : Loop W J} :
    l.next exec = some l' ↔ ∃ j js, l.posted = j :: js ∧ exec j ⟨l.world, js⟩ = some l' := by
  unfold next
  cases l.posted with
  | nil => simp
  | cons j js => simp

end Loop

/-! ## Numbers given out -/

theorem filterMap_cons_toList {α β : Type*} (f : α → Option β) (a : α) (as : List α) :
    (a :: as).filterMap f = (f a).toList ++ as.filterMap f := by
  rw [List.filterMap_cons]
  cases f a <;> rfl

/-- `ids` holds each of the `n` numbers given out exactly once. -/
def IssuedOnce (n : ℕ) (ids : List ℕ) : Prop := ids.Perm (List.range n)

namespace IssuedOnce

variable {n : ℕ} {ids ids' : List ℕ}

theorem nil : IssuedOnce 0 [] := List.Perm.refl _

theorem perm (h : IssuedOnce n ids) (hp : ids'.Perm ids) : IssuedOnce n ids' :=
  List.Perm.trans hp h

theorem issue (h : IssuedOnce n ids) : IssuedOnce (n + 1) (ids ++ [n]) := by
  unfold IssuedOnce
  rw [List.range_succ]
  exact List.Perm.append_right [n] h

theorem nodup (h : IssuedOnce n ids) : ids.Nodup := (List.Perm.nodup_iff h).mpr List.nodup_range

theorem mem_iff (h : IssuedOnce n ids) {id : ℕ} : id ∈ ids ↔ id < n := by
  rw [List.Perm.mem_iff h, List.mem_range]

end IssuedOnce
end CxxUtil.Foundations
