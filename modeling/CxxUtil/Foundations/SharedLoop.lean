import CxxUtil.Foundations.EventLoop

/-! # Components that share a loop

A `Component` is a step function over a loop of its own whose steps only post behind what is posted,
and whose `takes` actions run the function in front. `share` puts two components on one loop, whose
functions run in the order in which either of them posted. Each component then takes a step of its
own or none (`share_step_inl`, `share_step_inr`), so what its steps keep is kept on a shared
loop. -/
namespace CxxUtil.Foundations
set_option autoImplicit false

/-- What is left in front of what a step posts: everything, or all but the function it runs. -/
def remaining {J : Type*} (takes : Bool) (posted : List J) : List J :=
  if takes then posted.tail else posted

structure Component (W J A : Type*) where
  step : Loop W J → A → Option (Loop W J)
  /-- Whether an action runs the function posted first. -/
  takes : A → Bool
  posts_behind : ∀ {l l' : Loop W J} {a : A}, step l a = some l' →
    remaining (takes a) l.posted <+: l'.posted

namespace Component

variable {W J A : Type*} {W₁ W₂ J₁ J₂ A₁ A₂ : Type*}

/-- The component with some of its steps forbidden. -/
def guard (c : Component W J A) (P : Loop W J → A → Prop) [∀ l a, Decidable (P l a)] :
    Component W J A where
  step l a := if P l a then c.step l a else none
  takes := c.takes
  posts_behind h := c.posts_behind (Option.ite_none_right_eq_some.mp h).2

theorem guard_step {c : Component W J A} {P : Loop W J → A → Prop} [∀ l a, Decidable (P l a)]
    {l l' : Loop W J} {a : A} (h : (c.guard P).step l a = some l') :
    P l a ∧ c.step l a = some l' :=
  Option.ite_none_right_eq_some.mp h

/-! ## The view of one component -/

def left (l : Loop (W₁ × W₂) (J₁ ⊕ J₂)) : Loop W₁ J₁ :=
  ⟨l.world.1, l.posted.filterMap Sum.getLeft?⟩

def right (l : Loop (W₁ × W₂) (J₁ ⊕ J₂)) : Loop W₂ J₂ :=
  ⟨l.world.2, l.posted.filterMap Sum.getRight?⟩

/-- What a step has posted. -/
def posts (takes : Bool) (l l' : Loop W J) : List J :=
  l'.posted.drop (remaining takes l.posted).length

/-- The function posted first is of a kind. -/
def Heads (kind : J → Bool) (l : Loop W J) : Prop := ∃ j ∈ l.posted.head?, kind j = true

instance (kind : J → Bool) (l : Loop W J) : Decidable (Heads kind l) :=
  decidable_of_iff (l.posted.head?.any kind = true) (by
    unfold Heads
    cases l.posted.head? <;> simp)

def shareStep (c₁ : Component W₁ J₁ A₁) (c₂ : Component W₂ J₂ A₂)
    (l : Loop (W₁ × W₂) (J₁ ⊕ J₂)) : A₁ ⊕ A₂ → Option (Loop (W₁ × W₂) (J₁ ⊕ J₂))
  | .inl a =>
    if c₁.takes a = true → Heads Sum.isLeft l then
      (c₁.step (left l) a).map fun l' =>
        ⟨(l'.world, l.world.2),
          remaining (c₁.takes a) l.posted ++ (posts (c₁.takes a) (left l) l').map .inl⟩
    else none
  | .inr a =>
    if c₂.takes a = true → Heads Sum.isRight l then
      (c₂.step (right l) a).map fun l' =>
        ⟨(l.world.1, l'.world),
          remaining (c₂.takes a) l.posted ++ (posts (c₂.takes a) (right l) l').map .inr⟩
    else none

/-! ## Steps -/

section
variable {c₁ : Component W₁ J₁ A₁} {c₂ : Component W₂ J₂ A₂} {l l' : Loop (W₁ × W₂) (J₁ ⊕ J₂)}

theorem posted_eq {c : Component W J A} {l l' : Loop W J} {a : A} (h : c.step l a = some l') :
    remaining (c.takes a) l.posted ++ posts (c.takes a) l l' = l'.posted :=
  List.prefix_iff_eq_append.mp (c.posts_behind h)

theorem remaining_of_left {takes : Bool} (h : takes = true → Heads Sum.isLeft l) :
    (remaining takes l.posted).filterMap Sum.getLeft? = remaining takes (left l).posted ∧
      (remaining takes l.posted).filterMap Sum.getRight? = (right l).posted := by
  cases takes with
  | false => exact ⟨rfl, rfl⟩
  | true =>
    obtain ⟨j, hj, hkind⟩ := h rfl
    obtain ⟨js, hposted⟩ := List.head?_eq_some_iff.mp hj
    cases j with
    | inl j => simp [remaining, left, right, hposted, List.filterMap_cons]
    | inr j => cases hkind

theorem remaining_of_right {takes : Bool} (h : takes = true → Heads Sum.isRight l) :
    (remaining takes l.posted).filterMap Sum.getRight? = remaining takes (right l).posted ∧
      (remaining takes l.posted).filterMap Sum.getLeft? = (left l).posted := by
  cases takes with
  | false => exact ⟨rfl, rfl⟩
  | true =>
    obtain ⟨j, hj, hkind⟩ := h rfl
    obtain ⟨js, hposted⟩ := List.head?_eq_some_iff.mp hj
    cases j with
    | inl j => cases hkind
    | inr j => simp [remaining, left, right, hposted, List.filterMap_cons]

@[simp] theorem filterMap_getLeft?_inl (js : List J₁) :
    (js.map (.inl : J₁ → J₁ ⊕ J₂)).filterMap Sum.getLeft? = js := by
  rw [List.filterMap_map]
  exact List.filterMap_some

@[simp] theorem filterMap_getRight?_inr (js : List J₂) :
    (js.map (.inr : J₂ → J₁ ⊕ J₂)).filterMap Sum.getRight? = js := by
  rw [List.filterMap_map]
  exact List.filterMap_some

@[simp] theorem filterMap_getRight?_inl (js : List J₁) :
    (js.map (.inl : J₁ → J₁ ⊕ J₂)).filterMap Sum.getRight? = [] := by
  rw [List.filterMap_map]
  exact List.filterMap_eq_nil_iff.mpr fun _ _ => rfl

@[simp] theorem filterMap_getLeft?_inr (js : List J₂) :
    (js.map (.inr : J₂ → J₁ ⊕ J₂)).filterMap Sum.getLeft? = [] := by
  rw [List.filterMap_map]
  exact List.filterMap_eq_nil_iff.mpr fun _ _ => rfl

/-- Two components on one loop are a component again. -/
def share (c₁ : Component W₁ J₁ A₁) (c₂ : Component W₂ J₂ A₂) :
    Component (W₁ × W₂) (J₁ ⊕ J₂) (A₁ ⊕ A₂) where
  step := shareStep c₁ c₂
  takes := Sum.elim c₁.takes c₂.takes
  posts_behind := by
    rintro l l' (a | a) h
    · obtain ⟨m, -, rfl⟩ := Option.map_eq_some_iff.mp (Option.ite_none_right_eq_some.mp h).2
      exact List.prefix_append _ _
    · obtain ⟨m, -, rfl⟩ := Option.map_eq_some_iff.mp (Option.ite_none_right_eq_some.mp h).2
      exact List.prefix_append _ _

/-- A step of the one component is a step on its view, and leaves the view of the other alone. -/
theorem share_step_inl {a : A₁} (h : (share c₁ c₂).step l (.inl a) = some l') :
    c₁.step (left l) a = some (left l') ∧ right l' = right l := by
  obtain ⟨hhead, h⟩ := Option.ite_none_right_eq_some.mp h
  obtain ⟨m, hm, rfl⟩ := Option.map_eq_some_iff.mp h
  obtain ⟨hleft, hright⟩ := remaining_of_left hhead
  constructor
  · rw [hm]
    simp only [left, List.filterMap_append, hleft, filterMap_getLeft?_inl]
    exact congrArg some (congrArg (Loop.mk m.world) (posted_eq hm).symm)
  · simp only [right, List.filterMap_append, hright, filterMap_getRight?_inl, List.append_nil]

theorem share_step_inr {a : A₂} (h : (share c₁ c₂).step l (.inr a) = some l') :
    c₂.step (right l) a = some (right l') ∧ left l' = left l := by
  obtain ⟨hhead, h⟩ := Option.ite_none_right_eq_some.mp h
  obtain ⟨m, hm, rfl⟩ := Option.map_eq_some_iff.mp h
  obtain ⟨hright, hleft⟩ := remaining_of_right hhead
  constructor
  · rw [hm]
    simp only [right, List.filterMap_append, hright, filterMap_getRight?_inr]
    exact congrArg some (congrArg (Loop.mk m.world) (posted_eq hm).symm)
  · simp only [left, List.filterMap_append, hleft, filterMap_getLeft?_inr, List.append_nil]

end
end Component
end CxxUtil.Foundations
