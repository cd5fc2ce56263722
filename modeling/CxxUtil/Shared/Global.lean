import Mathlib.Logic.Function.Basic
import CxxUtil.Foundations.EventLoop
import CxxUtil.Foundations.Runs

/-! # `util::global`

`include/util/global.hpp`, called by any number of threads. One thread at a time is past the
`lock_guard`; the others copy and destroy the `shared_ptr`s that they have got before, between any
two of its steps. The last `shared_ptr` to an object runs its destructor, which takes time. -/
namespace CxxUtil.Shared.Global
open Foundations
set_option autoImplicit false

/-- Where the thread that holds the mutex is, with what is in `p`. -/
inductive Control
  | entered
  | locked (p : Option ℕ)
  | made (p : ℕ)
  | stored (p : ℕ)
  deriving DecidableEq, Repr

/-- Objects are numbered. What is recorded besides `wp`, the use counts and the thread that holds
the mutex: the objects made so far, the `shared_ptr`s that callers have, and the objects whose
destructor is running and has run. -/
structure World where
  wp : Option ℕ
  useCount : ℕ → ℕ
  critical : Option Control
  objects : ℕ
  handles : List ℕ
  dying : List ℕ
  destroyed : List ℕ

def init : World := ⟨none, fun _ => 0, none, 0, [], [], []⟩

def increment (p : ℕ) (s : World) : World :=
  { s with useCount := Function.update s.useCount p (s.useCount p + 1) }

/-- `wp.lock()`. -/
def lock (s : World) : World :=
  match s.wp with
  | none => { s with critical := some (.locked none) }
  | some p =>
    if s.useCount p = 0 then { s with critical := some (.locked none) }
    else { increment p s with critical := some (.locked (some p)) }

/-- `std::make_shared<T>()`. -/
def makeShared (s : World) : World :=
  { increment s.objects s with critical := some (.made s.objects), objects := s.objects + 1 }

/-- The `shared_ptr` is returned, and the mutex unlocked. -/
def ret (p : ℕ) (s : World) : World := { s with critical := none, handles := s.handles ++ [p] }

def copy (p : ℕ) (s : World) : World := { increment p s with handles := s.handles ++ [p] }

def release (p : ℕ) (s : World) : World :=
  { s with
    handles := s.handles.erase p
    useCount := Function.update s.useCount p (s.useCount p - 1)
    dying := if s.useCount p = 1 then p :: s.dying else s.dying }

def endDestructor (p : ℕ) (s : World) : World :=
  { s with dying := s.dying.erase p, destroyed := p :: s.destroyed }

inductive Action
  | enter
  | lock
  | makeShared
  /-- The constructor of `T` throws, or there is no memory. -/
  | throw
  | store
  | ret
  | copy (p : ℕ)
  | release (p : ℕ)
  | endDestructor (p : ℕ)
  deriving DecidableEq, Repr

def step (s : World) : Action → Option World
  | .enter => if s.critical = none then some { s with critical := some .entered } else none
  | .lock => if s.critical = some .entered then some (lock s) else none
  | .makeShared => if s.critical = some (.locked none) then some (makeShared s) else none
  | .throw => if s.critical = some (.locked none) then some { s with critical := none } else none
  | .store =>
    match s.critical with
    | some (.made p) => some { s with wp := some p, critical := some (.stored p) }
    | _ => none
  | .ret =>
    match s.critical with
    | some (.locked (some p)) => some (ret p s)
    | some (.stored p) => some (ret p s)
    | _ => none
  | .copy p => if p ∈ s.handles then some (copy p s) else none
  | .release p => if p ∈ s.handles then some (release p s) else none
  | .endDestructor p => if p ∈ s.dying then some (endDestructor p s) else none

/-- What a step does. -/
inductive Effect (s : World) : Action → World → Prop
  | enter (hcritical : s.critical = none) : Effect s .enter { s with critical := some .entered }
  | lock (hcritical : s.critical = some .entered) : Effect s .lock (lock s)
  | makeShared (hcritical : s.critical = some (.locked none)) : Effect s .makeShared (makeShared s)
  | throw (hcritical : s.critical = some (.locked none)) :
      Effect s .throw { s with critical := none }
  | store {p : ℕ} (hcritical : s.critical = some (.made p)) :
      Effect s .store { s with wp := some p, critical := some (.stored p) }
  | ret {p : ℕ} (hcritical : s.critical = some (.locked (some p)) ∨ s.critical = some (.stored p)) :
      Effect s .ret (ret p s)
  | copy {p : ℕ} (hp : p ∈ s.handles) : Effect s (.copy p) (copy p s)
  | release {p : ℕ} (hp : p ∈ s.handles) : Effect s (.release p) (release p s)
  | endDestructor {p : ℕ} (hp : p ∈ s.dying) : Effect s (.endDestructor p) (endDestructor p s)

theorem step_effect {s s' : World} {act : Action} (hs : step s act = some s') :
    Effect s act s' := by
  cases act with
  | enter =>
    obtain ⟨hcritical, hs⟩ := Option.ite_none_right_eq_some.mp hs
    obtain rfl := Option.some.inj hs
    exact .enter hcritical
  | lock =>
    obtain ⟨hcritical, hs⟩ := Option.ite_none_right_eq_some.mp hs
    obtain rfl := Option.some.inj hs
    exact .lock hcritical
  | makeShared =>
    obtain ⟨hcritical, hs⟩ := Option.ite_none_right_eq_some.mp hs
    obtain rfl := Option.some.inj hs
    exact .makeShared hcritical
  | throw =>
    obtain ⟨hcritical, hs⟩ := Option.ite_none_right_eq_some.mp hs
    obtain rfl := Option.some.inj hs
    exact .throw hcritical
  | store =>
    simp only [step] at hs
    split at hs
    case h_1 p hcritical =>
      obtain rfl := Option.some.inj hs
      exact .store hcritical
    case h_2 => cases hs
  | ret =>
    simp only [step] at hs
    split at hs
    case h_1 p hcritical =>
      obtain rfl := Option.some.inj hs
      exact .ret (.inl hcritical)
    case h_2 p hcritical =>
      obtain rfl := Option.some.inj hs
      exact .ret (.inr hcritical)
    case h_3 => cases hs
  | copy p =>
    obtain ⟨hp, hs⟩ := Option.ite_none_right_eq_some.mp hs
    obtain rfl := Option.some.inj hs
    exact .copy hp
  | release p =>
    obtain ⟨hp, hs⟩ := Option.ite_none_right_eq_some.mp hs
    obtain rfl := Option.some.inj hs
    exact .release hp
  | endDestructor p =>
    obtain ⟨hp, hs⟩ := Option.ite_none_right_eq_some.mp hs
    obtain rfl := Option.some.inj hs
    exact .endDestructor hp

/-! ## The owners of objects -/

/-- The `shared_ptr` in `p`. -/
def Control.held : Control → List ℕ
  | .locked (some p) => [p]
  | .made p => [p]
  | .stored p => [p]
  | _ => []

def owners (s : World) : List ℕ := (s.critical.map Control.held).getD [] ++ s.handles

/-- The object that `wp` refers to, or is about to. -/
def target (s : World) : Option ℕ :=
  match s.critical with
  | some (.made p) => some p
  | _ => s.wp

/-- The use counts are right, whatever has an owner is the one object that `global` hands out, and
every object made has an owner, or its destructor runs or has run, once. -/
structure Coherent (s : World) : Prop where
  counts : ∀ p, s.useCount p = (owners s).count p
  current : ∀ p ∈ owners s, target s = some p
  fresh : s.critical = some (.locked none) → s.handles = []
  objects : ∀ p, p < s.objects ↔ 0 < s.useCount p ∨ p ∈ s.dying ++ s.destroyed
  once : (s.dying ++ s.destroyed).Nodup
  unowned : ∀ p ∈ s.dying ++ s.destroyed, s.useCount p = 0

section
variable {s s' : World} {p : ℕ}

theorem mem_owners_of_mem_handles (hp : p ∈ s.handles) : p ∈ owners s :=
  List.mem_append_right _ hp

theorem Coherent.useCount_pos (h : Coherent s) (hp : p ∈ owners s) : 0 < s.useCount p := by
  rw [h.counts]
  exact List.count_pos_iff.mpr hp

theorem Coherent.lt_objects (h : Coherent s) (hp : p ∈ owners s) : p < s.objects :=
  (h.objects p).mpr (.inl (h.useCount_pos hp))

theorem Coherent.not_gone (h : Coherent s) (hp : p ∈ owners s) : p ∉ s.dying ++ s.destroyed := by
  intro hmem
  have hpos := h.useCount_pos hp
  rw [h.unowned p hmem] at hpos
  exact Nat.lt_irrefl 0 hpos

/-- Another owner of an object that has one. -/
theorem Coherent.increment (h : Coherent s) (hp : p ∈ owners s ∨ s.useCount p ≠ 0)
    {s' : World} (hcount : s'.useCount = Function.update s.useCount p (s.useCount p + 1))
    (howners : (owners s').Perm (p :: owners s)) (htarget : target s' = target s)
    (hcurrent : target s = some p) (hfresh : s'.critical ≠ some (.locked none))
    (hrest : s'.objects = s.objects ∧ s'.dying = s.dying ∧ s'.destroyed = s.destroyed) :
    Coherent s' := by
  obtain ⟨hobjects, hdying, hdestroyed⟩ := hrest
  have hpos : 0 < s.useCount p := by
    rcases hp with hp | hp
    · exact h.useCount_pos hp
    · exact Nat.pos_of_ne_zero hp
  constructor
  case counts =>
    intro q
    rw [hcount, howners.count_eq, List.count_cons, Function.update_apply]
    by_cases hq : q = p
    · subst hq
      simp [h.counts]
    · have hne : ¬ p = q := fun heq => hq heq.symm
      simp [hq, hne, h.counts]
  case current =>
    intro q hq
    rw [htarget]
    rcases List.mem_cons.mp (howners.subset hq) with rfl | hq
    · exact hcurrent
    · exact h.current q hq
  case fresh => exact fun hcritical => absurd hcritical hfresh
  case objects =>
    intro q
    rw [hobjects, hdying, hdestroyed, h.objects q, hcount, Function.update_apply]
    split
    case isTrue hq =>
      subst hq
      simp [hpos]
    case isFalse => rfl
  case once =>
    rw [hdying, hdestroyed]
    exact h.once
  case unowned =>
    intro q hq
    rw [hdying, hdestroyed] at hq
    have hzero := h.unowned q hq
    have hne : q ≠ p := by
      rintro rfl
      omega
    rw [hcount, Function.update_of_ne hne]
    exact hzero

/-- A step that leaves the owners and the objects alone. -/
theorem Coherent.same (h : Coherent s) (hcount : s'.useCount = s.useCount)
    (howners : (owners s').Perm (owners s)) (htarget : ∀ q ∈ owners s, target s' = target s)
    (hfresh : s'.critical = some (.locked none) → s'.handles = [])
    (hobjects : s'.objects = s.objects)
    (hgone : (s'.dying ++ s'.destroyed).Perm (s.dying ++ s.destroyed)) : Coherent s' where
  counts q := by rw [hcount, howners.count_eq, h.counts]
  current q hq := by
    have hq' := howners.subset hq
    rw [htarget q hq']
    exact h.current q hq'
  fresh := hfresh
  objects q := by rw [hobjects, hcount, hgone.mem_iff, h.objects]
  once := hgone.nodup_iff.mpr h.once
  unowned q hq := by
    rw [hcount]
    exact h.unowned q (hgone.mem_iff.mp hq)

theorem Coherent.lock (h : Coherent s) (hcritical : s.critical = some .entered) :
    Coherent (lock s) := by
  have howners : owners s = s.handles := by
    rw [owners, hcritical]
    rfl
  have htarget : target s = s.wp := by
    rw [target, hcritical]
  -- without an owner for what `wp` refers to, nobody has a `shared_ptr`
  have hnone (hzero : ∀ p, s.wp = some p → s.useCount p = 0) :
      Coherent { s with critical := some (.locked none) } := by
    have hhandles : s.handles = [] := by
      refine List.eq_nil_iff_forall_not_mem.mpr fun q hq => ?_
      have hq' := mem_owners_of_mem_handles hq
      have hwp := h.current q hq'
      rw [htarget] at hwp
      exact Nat.lt_irrefl 0 (hzero q hwp ▸ h.useCount_pos hq')
    refine h.same rfl ?_ (fun _ _ => htarget.symm) (fun _ => hhandles) rfl (List.Perm.refl _)
    rw [howners]
    exact List.Perm.refl _
  unfold Global.lock
  split
  case h_1 hwp => exact hnone fun p hp => by simp [hwp] at hp
  case h_2 p hwp =>
    split
    case isTrue hzero =>
      refine hnone fun q hq => ?_
      obtain rfl : p = q := Option.some.inj (hwp.symm.trans hq)
      exact hzero
    case isFalse hne =>
      refine h.increment (.inr hne) rfl ?_ ?_ (htarget.trans hwp) ?_ ⟨rfl, rfl, rfl⟩
      · rw [howners]
        exact List.Perm.refl _
      · rw [htarget]
        rfl
      · simp

theorem Coherent.makeShared (h : Coherent s) (hcritical : s.critical = some (.locked none)) :
    Coherent (makeShared s) := by
  have howners : owners s = [] := by
    rw [owners, hcritical, h.fresh hcritical]
    rfl
  have hzero (q : ℕ) : s.useCount q = 0 := by
    rw [h.counts, howners]
    rfl
  have howners' : owners (Global.makeShared s) = [s.objects] := by
    rw [owners, Global.makeShared]
    simp [Control.held, Global.increment, h.fresh hcritical]
  constructor
  case counts =>
    intro q
    rw [howners', List.count_singleton]
    simp only [Global.makeShared, Global.increment, Function.update_apply, hzero]
    by_cases hq : q = s.objects
    · simp [hq]
    · have hne : ¬ s.objects = q := fun heq => hq heq.symm
      simp [hq, hne]
  case current =>
    intro q hq
    rw [howners', List.mem_singleton] at hq
    rw [hq]
    rfl
  case fresh => exact fun hcritical => by cases hcritical
  case objects =>
    intro q
    simp only [Global.makeShared, Global.increment, Function.update_apply, hzero]
    rw [Nat.lt_succ_iff_lt_or_eq, h.objects q, hzero]
    by_cases hq : q = s.objects
    · simp [hq]
    · simp [hq]
  case once => exact h.once
  case unowned =>
    intro q hq
    have hlt := (h.objects q).mpr (.inr hq)
    exact (Function.update_of_ne (Nat.ne_of_lt hlt) _ _).trans (h.unowned q hq)

theorem Coherent.release (h : Coherent s) (hp : p ∈ s.handles) : Coherent (release p s) := by
  have howners := mem_owners_of_mem_handles hp
  have hpos := h.useCount_pos howners
  have hnot := h.not_gone howners
  have herase : (owners s).Perm (p :: owners (Global.release p s)) := by
    refine (List.Perm.append_left _ (List.perm_cons_erase hp)).trans ?_
    exact List.perm_middle
  have hcount (q : ℕ) : (owners s).count q =
      (owners (Global.release p s)).count q + if p = q then 1 else 0 := by
    rw [herase.count_eq, List.count_cons]
    simp
  constructor
  case counts =>
    intro q
    have hq := hcount q
    rw [← h.counts] at hq
    simp only [Global.release, Function.update_apply] at hq ⊢
    split
    case isTrue heq =>
      subst heq
      simp at hq
      omega
    case isFalse hne =>
      have hne' : ¬ p = q := fun heq => hne heq.symm
      simpa [hne'] using hq
  case current =>
    intro q hq
    exact h.current q (herase.symm.subset (List.mem_cons_of_mem _ hq))
  case fresh =>
    intro hcritical
    have hnil := h.fresh hcritical
    rw [hnil] at hp
    cases hp
  case objects =>
    intro q
    have hobjects := h.objects q
    simp only [Global.release, Function.update_apply]
    by_cases hq : q = p
    · subst hq
      simp only [if_true]
      have hlt := h.lt_objects howners
      split
      case isTrue => simp [hlt]
      case isFalse hne =>
        have hmore : 0 < s.useCount q - 1 := by omega
        simp [hlt, hmore]
    · rw [if_neg hq, hobjects]
      split
      case isTrue => simp [hq]
      case isFalse => rfl
  case once =>
    simp only [Global.release]
    split
    case isTrue => exact List.nodup_cons.mpr ⟨hnot, h.once⟩
    case isFalse => exact h.once
  case unowned =>
    intro q hq
    simp only [Global.release, Function.update_apply] at hq ⊢
    by_cases heq : q = p
    · subst heq
      rw [if_pos rfl]
      split at hq
      case isTrue hone => omega
      case isFalse => exact absurd hq hnot
    · rw [if_neg heq]
      refine h.unowned q ?_
      split at hq
      case isTrue => exact (List.mem_cons.mp hq).resolve_left heq
      case isFalse => exact hq

theorem coherent_step (s : World) (act : Action) (s' : World) (h : Coherent s)
    (hs : step s act = some s') : Coherent s' := by
  cases step_effect hs with
  | enter hcritical =>
    refine h.same rfl ?_ ?_ (fun hfresh => by cases hfresh) rfl (List.Perm.refl _)
    · rw [owners, owners, hcritical]
      exact List.Perm.refl _
    · intro q hq
      rw [target, target, hcritical]
  | lock hcritical => exact h.lock hcritical
  | makeShared hcritical => exact h.makeShared hcritical
  | throw hcritical =>
    refine h.same rfl ?_ ?_ (fun hfresh => by cases hfresh) rfl (List.Perm.refl _)
    · rw [owners, owners, hcritical]
      exact List.Perm.refl _
    · intro q hq
      rw [target, target, hcritical]
  | @store p hcritical =>
    refine h.same rfl ?_ ?_ (fun hfresh => by cases hfresh) rfl (List.Perm.refl _)
    · rw [owners, owners, hcritical]
      exact List.Perm.refl _
    · intro q hq
      rw [target, target, hcritical]
  | @ret p hcritical =>
    refine h.same rfl ?_ ?_ (fun hfresh => by cases hfresh) rfl (List.Perm.refl _)
    · have howners : owners s = p :: s.handles := by
        rcases hcritical with hcritical | hcritical <;> rw [owners, hcritical] <;> rfl
      rw [howners]
      exact List.perm_append_singleton p s.handles
    · intro q hq
      rcases hcritical with hcritical | hcritical <;> rw [target, target, hcritical] <;> rfl
  | @copy p hp =>
    have howners := mem_owners_of_mem_handles hp
    refine h.increment (.inl howners) rfl ?_ rfl (h.current p howners) ?_ ⟨rfl, rfl, rfl⟩
    · refine (List.Perm.append_left _ (List.perm_append_singleton p s.handles)).trans ?_
      exact List.perm_middle
    · intro hcritical
      have hnil := h.fresh hcritical
      rw [hnil] at hp
      cases hp
  | release hp => exact h.release hp
  | @endDestructor p hp =>
    refine h.same rfl (List.Perm.refl _) (fun _ _ => rfl) h.fresh rfl ?_
    refine List.perm_middle.trans ?_
    exact (List.perm_cons_erase hp).symm.append_right s.destroyed

theorem coherent_init : Coherent init where
  counts _ := rfl
  current p hp := by cases hp
  fresh _ := rfl
  objects p := by simp [init]
  once := List.nodup_nil
  unowned p hp := by cases hp

/-- **One object at a time.** Whatever the threads do, in any order, all `shared_ptr`s that
callers have are to one object, which is there and whose destructor does not run; a call returns
that object when there is one, and makes an object only when nobody has a `shared_ptr`; and every
object is destroyed at most once, and has been when nobody has a `shared_ptr`, no call is under way
and no destructor runs. -/
theorem one_object_at_a_time {as : List Action} (h : run step init as = some s) :
    (∀ p ∈ s.handles, ∀ q ∈ s.handles, p = q) ∧
    (∀ p ∈ s.handles, p < s.objects ∧ p ∉ s.dying ++ s.destroyed) ∧
    (∀ s', step s .ret = some s' →
      ∃ p, s'.handles = s.handles ++ [p] ∧ p < s.objects ∧ p ∉ s.dying ++ s.destroyed ∧
        ∀ q ∈ s.handles, p = q) ∧
    (∀ s', step s .makeShared = some s' → s.handles = []) ∧
    (s.dying ++ s.destroyed).Nodup ∧
    (s.handles = [] → s.critical = none → s.dying = [] → IssuedOnce s.objects s.destroyed) := by
  have hcoherent : Coherent s := run_invariant coherent_step coherent_init h
  have hsame (p q : ℕ) (hp : p ∈ owners s) (hq : q ∈ owners s) : p = q :=
    Option.some.inj ((hcoherent.current p hp).symm.trans (hcoherent.current q hq))
  refine ⟨fun p hp q hq => ?_, fun p hp => ?_, fun s' hs => ?_, fun s' hs => ?_, hcoherent.once, ?_⟩
  · exact hsame p q (mem_owners_of_mem_handles hp) (mem_owners_of_mem_handles hq)
  · have howners := mem_owners_of_mem_handles hp
    exact ⟨hcoherent.lt_objects howners, hcoherent.not_gone howners⟩
  · cases step_effect hs with
    | @ret p hcritical =>
      have howners : p ∈ owners s := by
        rcases hcritical with hcritical | hcritical <;> rw [owners, hcritical] <;>
          exact List.mem_cons_self
      exact ⟨p, rfl, hcoherent.lt_objects howners, hcoherent.not_gone howners, fun q hq =>
        hsame p q howners (mem_owners_of_mem_handles hq)⟩
  · cases step_effect hs with
    | makeShared hcritical => exact hcoherent.fresh hcritical
  · intro hhandles hcritical hdying
    have howners : owners s = [] := by
      rw [owners, hcritical, hhandles]
      rfl
    have hobjects (p : ℕ) : p ∈ s.destroyed ↔ p ∈ List.range s.objects := by
      rw [List.mem_range, hcoherent.objects p, hcoherent.counts p, howners, hdying]
      simp
    have honce := hcoherent.once
    rw [hdying, List.nil_append] at honce
    exact (List.perm_ext_iff_of_nodup honce List.nodup_range).mpr hobjects

end

/-- The first object's destructor runs while a call makes the second, for two threads. -/
theorem one_object_at_a_time_overlap :
    ∃ s, run step init [.enter, .lock, .makeShared, .store, .ret, .release 0, .enter, .lock,
        .makeShared, .store, .ret, .endDestructor 0, .enter, .lock, .ret] = some s ∧
      s.handles = [1, 1] ∧ s.destroyed = [0] ∧ ∀ p ∈ s.handles, ∀ q ∈ s.handles, p = q := by
  have hrun : run step init [.enter, .lock, .makeShared, .store, .ret, .release 0, .enter, .lock,
      .makeShared, .store, .ret, .endDestructor 0, .enter, .lock, .ret] = some _ := rfl
  exact ⟨_, hrun, rfl, rfl, (one_object_at_a_time hrun).1⟩

end CxxUtil.Shared.Global
