import CxxUtil.Asio.Operation

/-! # An operation completes once, when its last object lets go

`mRefs` counts the objects that hold the state (`Counted`): an object is made with a pointer that has
been counted for it or taken from another one, and gives it back before or when it goes away. -/
namespace CxxUtil.Asio.Operation
open Foundations Handles
set_option autoImplicit false

variable {R : Type*} {d : R} {w : World R}

/-- The arguments of the last call of `complete`, or the default. -/
def lastResult (d : R) (w : World R) : R := w.completions.getLastD d

/-- The state is there, its count is `n`, and nobody has been told anything. -/
structure Alive (d : R) (n : ℕ) (w : World R) : Prop where
  state : w.state = some ⟨lastResult d w, n⟩
  log : w.log = [.allocated]

/-- The state is gone and the handler has been called with the last result. -/
structure Over (d : R) (w : World R) : Prop where
  state : w.state = none
  log : w.log = [.allocated, .destroyed, .deallocated, .called (lastResult d w)]

/-- The state has a count of as many as hold it, and is gone when nobody does. -/
structure Counted (d : R) (w : World R) : Prop where
  numbered : Numbered w.made w.objects
  held : 0 < holders () w.objects → Alive d (holders () w.objects) w
  gone : holders () w.objects = 0 → Over d w

theorem points_of_isSome {t : Option Unit} (h : t.isSome = true) : points () t = 1 := by
  cases t with
  | none => cases h
  | some u => rfl

theorem points_of_not_isSome {t : Option Unit} (h : ¬ t.isSome = true) : points () t = 0 := by
  cases t with
  | none => rfl
  | some u => exact absurd rfl h

/-- Letting go of the state, once the object that held it has been taken out of the count. -/
theorem counted_release (hn : Numbered w.made w.objects)
    (h : Alive d (holders () w.objects + 1) w) : Counted d (intrusivePtrRelease w) := by
  unfold intrusivePtrRelease
  rw [h.state]
  dsimp only
  rw [Nat.add_sub_cancel]
  split
  case isTrue hzero =>
    refine ⟨hn, fun hpos => ?_, fun _ => ⟨rfl, ?_⟩⟩
    · exact absurd hzero (Nat.ne_of_gt hpos)
    · simp [h.log, lastResult]
  case isFalse hpos =>
    exact ⟨hn, fun _ => ⟨rfl, h.log⟩, fun hzero => absurd hzero hpos⟩

namespace Counted

theorem holders_pos {id : ℕ} {o : Handle ℤ Unit} (hl : lookup w.objects id = some o)
    (ho : o.target.isSome = true) : 0 < holders () w.objects := by
  obtain ⟨u, hu⟩ := Option.isSome_iff_exists.mp ho
  exact (holders_pos_iff ()).mpr ⟨o, (lookup_mem hl).1, hu⟩

/-- An object that points to the state keeps it there. -/
theorem alive (h : Counted d w) {id : ℕ} {o : Handle ℤ Unit} (hl : lookup w.objects id = some o)
    (ho : o.target.isSome = true) : Alive d (holders () w.objects) w :=
  h.held (holders_pos hl ho)

theorem numbered_clearM (h : Counted d w) (id : ℕ) : Numbered w.made (clearM id w).objects :=
  h.numbered.modify fun _ => rfl

theorem makeOperation (d : R) : Counted d (makeOperation d) where
  numbered := numbered_nil.add 0 (some ())
  held _ := ⟨rfl, rfl⟩
  gone hzero := by cases hzero

theorem enter (h : Counted d w) (call : Call) : Counted d (enter call w) :=
  ⟨h.numbered, fun hpos => ⟨(h.held hpos).state, (h.held hpos).log⟩,
    fun hzero => ⟨(h.gone hzero).state, (h.gone hzero).log⟩⟩

theorem calls (h : Counted d w) (calls : List Call) : Counted d { w with calls } :=
  ⟨h.numbered, fun hpos => ⟨(h.held hpos).state, (h.held hpos).log⟩,
    fun hzero => ⟨(h.gone hzero).state, (h.gone hzero).log⟩⟩

/-- Changing the objects but not how many of them hold the state. -/
theorem of_holders (h : Counted d w) {objects : List (Handle ℤ Unit)} {made : ℕ}
    (hn : Numbered made objects) (hcount : holders () objects = holders () w.objects) :
    Counted d { w with objects, made } := by
  refine ⟨hn, fun hpos => ?_, fun hzero => ?_⟩
  · have halive := h.held (hcount ▸ hpos)
    exact ⟨hcount.symm ▸ halive.state, halive.log⟩
  · have hover := h.gone (hcount ▸ hzero)
    exact ⟨hover.state, hover.log⟩

section
variable {id : ℕ} {o : Handle ℤ Unit} (hl : lookup w.objects id = some o)
include hl

theorem copy (h : Counted d w) : Counted d (copy o w) := by
  unfold Operation.copy
  split
  case isTrue ho =>
    have halive := h.alive hl ho
    have hcount : holders () (w.objects ++ [⟨w.made, o.kind, o.target⟩]) =
        holders () w.objects + 1 := by rw [holders_add, points_of_isSome ho]
    refine ⟨h.numbered.add o.kind o.target, fun _ => ⟨?_, halive.log⟩, fun hzero => ?_⟩
    · simp [construct, intrusivePtrAddRef, halive.state, hcount, lastResult]
    · have hzero : holders () (w.objects ++ [⟨w.made, o.kind, o.target⟩]) = 0 := hzero
      omega
  case isFalse ho =>
    refine h.of_holders (h.numbered.add o.kind o.target) ?_
    rw [holders_add, points_of_not_isSome ho, Nat.add_zero]

theorem holders_clearM (h : Counted d w) :
    holders () (clearM o.id w).objects + points () o.target = holders () w.objects := by
  have hid := (lookup_mem hl).2
  subst hid
  exact holders_modify () h.numbered hl

theorem move (h : Counted d w) : Counted d (move o w) := by
  refine h.of_holders ((h.numbered_clearM o.id).add o.kind o.target) ?_
  rw [holders_add]
  exact h.holders_clearM hl

theorem reset (h : Counted d w) : Counted d (reset o w) := by
  unfold Operation.reset
  split
  case isTrue ho =>
    have halive := h.alive hl ho
    have hcount := h.holders_clearM hl
    rw [points_of_isSome ho] at hcount
    refine counted_release (h.numbered_clearM o.id) ⟨?_, halive.log⟩
    rw [hcount]
    exact halive.state
  case isFalse => exact h

theorem destroy (h : Counted d w) : Counted d (destroy o w) := by
  have hid := (lookup_mem hl).2
  subst hid
  have hcount := holders_remove () h.numbered hl
  unfold Operation.destroy
  dsimp only
  split
  case isTrue ho =>
    have halive := h.alive hl ho
    rw [points_of_isSome ho] at hcount
    refine counted_release h.numbered.remove ⟨?_, halive.log⟩
    exact hcount ▸ halive.state
  case isFalse ho =>
    rw [points_of_not_isSome ho] at hcount
    exact h.of_holders h.numbered.remove hcount

theorem complete (h : Counted d w) (ho : o.target.isSome = true) (result : R) :
    Counted d (complete result w) := by
  have halive := h.alive hl ho
  refine ⟨h.numbered, fun _ => ⟨?_, halive.log⟩, fun hzero => ?_⟩
  · simp [Operation.complete, halive.state, lastResult]
  · exact absurd hzero (Nat.ne_of_gt (holders_pos hl ho))

end

theorem withObject (h : Counted d w) (id : ℕ) {f : Handle ℤ Unit → World R → World R}
    (hf : ∀ o, lookup w.objects id = some o → Counted d (f o w)) :
    Counted d (withObject id f w) := by
  unfold Operation.withObject
  split
  case h_1 o hl => exact hf o hl
  case h_2 => exact h

theorem setValue (h : Counted d w) (id : ℕ) (value : ℤ) : Counted d (setValue id value w) := by
  have hn : Numbered w.made (Operation.setValue id value w).objects :=
    h.numbered.modify fun _ => rfl
  refine h.of_holders hn ?_
  cases hl : lookup w.objects id with
  | none =>
    refine congrArg _ ((List.map_congr_left fun o ho => if_neg fun heq => ?_).trans (List.map_id' _))
    have hsome := lookup_of_mem h.numbered ho
    rw [heq, hl] at hsome
    cases hsome
  | some o =>
    exact Nat.add_right_cancel (holders_modify () h.numbered hl)

theorem leave (h : Counted d w) (call : Call) : Counted d (leave call w) := by
  unfold Operation.leave
  split
  · exact h.withObject _ fun o hl => h.destroy hl
  · exact h

theorem finish (h : Counted d w) (call : Call) (value : ℤ) : Counted d (finish call value w) := by
  have hset := h.setValue call.object value
  unfold Operation.finish
  dsimp only
  split
  · exact (hset.withObject _ fun o hl => hset.reset hl).leave call
  · exact hset.leave call

end Counted

theorem counted_step (w : World R) (act : Action R) (w' : World R) (h : Counted d w)
    (hs : step w act = some w') : Counted d w' := by
  cases act with
  | copy id =>
    obtain ⟨o, hl, rfl⟩ := Option.map_eq_some_iff.mp hs
    exact h.copy hl
  | move id =>
    obtain ⟨o, hl, rfl⟩ := Option.map_eq_some_iff.mp hs
    exact h.move hl
  | invoke id =>
    obtain ⟨o, hl, hs⟩ := Option.bind_eq_some_iff.mp hs
    obtain ⟨ho, hs⟩ := Option.ite_none_right_eq_some.mp hs
    obtain rfl := Option.some.inj hs
    exact h.enter _
  | runChild id =>
    obtain ⟨o, hl, hs⟩ := Option.bind_eq_some_iff.mp hs
    obtain ⟨ho, hs⟩ := Option.ite_none_right_eq_some.mp hs
    obtain rfl := Option.some.inj hs
    exact (h.copy hl).enter _
  | finish value =>
    simp only [step] at hs
    split at hs
    · cases hs
    · obtain rfl := Option.some.inj hs
      exact (h.calls _).finish _ value
  | throw value =>
    simp only [step] at hs
    split at hs
    · cases hs
    · obtain rfl := Option.some.inj hs
      exact ((h.calls _).setValue _ value).leave _
  | destroy id =>
    obtain ⟨o, hl, hs⟩ := Option.bind_eq_some_iff.mp hs
    obtain ⟨-, hs⟩ := Option.ite_none_left_eq_some.mp hs
    obtain rfl := Option.some.inj hs
    exact h.destroy hl
  | complete id result =>
    obtain ⟨o, hl, hs⟩ := Option.bind_eq_some_iff.mp hs
    obtain ⟨ho, hs⟩ := Option.ite_none_right_eq_some.mp hs
    obtain rfl := Option.some.inj hs
    exact h.complete hl ho result

/-- **An operation completes once.** Whatever is done with its objects: as long as some of them hold
the state, `mRefs` is their number and the handler has not been called; when none does, the state
has been destroyed, its memory given back and the handler then called, once, with the arguments of
the last `complete` or the default result. -/
theorem completes_once {as : List (Action R)} (h : run step (makeOperation d) as = some w) :
    (∀ st ∈ w.state, st.mRefs = holders () w.objects) ∧
      (0 < holders () w.objects → w.state.isSome = true ∧ ∀ result, .called result ∉ w.log) ∧
      (holders () w.objects = 0 → w.state.isNone = true ∧
        w.log = [.allocated, .destroyed, .deallocated, .called (w.completions.getLastD d)]) := by
  have hcounted : Counted d w := run_invariant counted_step (Counted.makeOperation d) h
  refine ⟨fun st hst => ?_, fun hpos => ?_, fun hzero => ?_⟩
  · rcases Nat.eq_zero_or_pos (holders () w.objects) with hzero | hpos
    · rw [(hcounted.gone hzero).state] at hst
      cases hst
    · rw [(hcounted.held hpos).state] at hst
      exact (congrArg OperationState.mRefs (Option.some.inj hst)).symm
  · have halive := hcounted.held hpos
    refine ⟨by rw [halive.state]; rfl, fun result hmem => ?_⟩
    rw [halive.log] at hmem
    cases List.mem_singleton.mp hmem
  · have hover := hcounted.gone hzero
    exact ⟨by rw [hover.state]; rfl, hover.log⟩

/-- The child of a fork completes with 1 and falls off its end; the parent is moved into an
asynchronous call, resumed there, and completes with 2. -/
theorem completes_once_fork :
    ∃ w : World ℕ, run step (makeOperation 0)
        [.invoke 0, .runChild 0, .complete 1 1, .finish (-1), .move 0, .finish 3, .destroy 0,
          .invoke 2, .complete 2 2, .finish (-1)] = some w ∧
      w.log = [.allocated, .destroyed, .deallocated, .called 2] := by
  have hrun : run step (makeOperation 0)
      [.invoke 0, .runChild 0, .complete 1 1, .finish (-1), .move 0, .finish 3, .destroy 0,
        .invoke 2, .complete 2 2, .finish (-1)] = some _ := rfl
  exact ⟨_, hrun, ((completes_once hrun).2.2 rfl).2⟩

end CxxUtil.Asio.Operation
