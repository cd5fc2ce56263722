import Mathlib.Data.Set.Basic

/-! # Objects that shared pointers keep

An object goes when nothing keeps it: no pointer to it outside all objects (`rooted`), and none that
is a member of an object that is still there (`owns`). `Sound` says that no pointer dangles. A `Knot`
is a set of objects that keep each other: as long as its pointers stay, it does, whatever else goes.
-/
namespace CxxUtil.Foundations
set_option autoImplicit false

structure Ownership (N : Type*) where
  live : N → Prop
  rooted : N → Prop
  owns : N → N → Prop

namespace Ownership

variable {N : Type*}

def Held (o : Ownership N) (n : N) : Prop := o.rooted n ∨ ∃ m, o.live m ∧ o.owns m n

def Sound (o : Ownership N) : Prop := ∀ n, o.Held n → o.live n

/-- Nothing is left to go. -/
def Settled (o : Ownership N) : Prop := ∀ n, o.live n → o.Held n

structure Knot (o : Ownership N) (C : Set N) : Prop where
  live : ∀ n ∈ C, o.live n
  owned : ∀ n ∈ C, ∃ m ∈ C, o.owns m n

variable {o o' : Ownership N} {C : Set N} {m n : N}

theorem held_of_rooted (h : o.rooted n) : o.Held n := .inl h

theorem held_of_owns (hlive : o.live m) (howns : o.owns m n) : o.Held n := .inr ⟨m, hlive, howns⟩

/-- Pointers are made to objects that are there, and objects go when nothing keeps them. -/
theorem Sound.step (h : o.Sound) (hnew : ∀ n, o'.Held n → o.Held n ∨ o'.live n)
    (hgone : ∀ n, o.live n → o'.live n ∨ ¬ o.Held n) : o'.Sound := by
  intro n hn
  rcases hnew n hn with hheld | hlive
  · exact (hgone n (h n hheld)).resolve_right (not_not_intro hheld)
  · exact hlive

theorem Knot.held (h : o.Knot C) (hn : n ∈ C) : o.Held n := by
  obtain ⟨m, hm, howns⟩ := h.owned n hn
  exact held_of_owns (h.live m hm) howns

/-- What goes is not in a knot. -/
theorem Knot.step (h : o.Knot C) (hgone : ∀ n, o.live n → o'.live n ∨ ¬ o.Held n)
    (howned : ∀ n ∈ C, ∃ m ∈ C, o'.owns m n) : o'.Knot C where
  live n hn := (hgone n (h.live n hn)).resolve_right (not_not_intro (h.held hn))
  owned := howned

end Ownership
end CxxUtil.Foundations
