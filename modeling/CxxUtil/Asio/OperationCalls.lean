import CxxUtil.Asio.OperationCompletes

/-! # Whole calls of an operation's `operator()`

An `Operation` object that is the handler of an asynchronous call is invoked when the call has
ended, and destroyed when `operator()` returns. The lemmas say which objects hold the state
afterwards, for the ways in which the body of the coroutine may end. -/
namespace CxxUtil.Asio.Operation
open Foundations Handles
set_option autoImplicit false

/-! ## The objects that hold the state -/

section
variable {R : Type*} {w : World R} {id : ℕ} {o : Handle ℤ Unit}

def holding (w : World R) : List ℕ :=
  (w.objects.filter fun o => o.target.isSome).map Handle.id

theorem holding_length (w : World R) : holders () w.objects = (holding w).length := by
  have hsame (o : Handle ℤ Unit) : decide (o.target = some ()) = o.target.isSome := by
    cases o.target <;> rfl
  rw [holding, List.length_map, holders, List.countP_eq_length_filter]
  simp only [hsame]

theorem exists_lookup (hn : Numbered w.made w.objects) (hid : id ∈ holding w) :
    ∃ o, lookup w.objects id = some o ∧ o.id = id ∧ o.target.isSome = true := by
  obtain ⟨o, ho, rfl⟩ := List.mem_map.mp hid
  obtain ⟨hmem, hsome⟩ := List.mem_filter.mp ho
  exact ⟨o, lookup_of_mem hn hmem, rfl, hsome⟩

theorem holding_construct (value : ℤ) (w : World R) :
    holding (construct value (some ()) w) = holding w ++ [w.made] := by
  rw [holding, construct, List.filter_append, List.map_append]
  rfl

theorem holding_clearM (id : ℕ) (w : World R) :
    holding (clearM id w) = (holding w).filter (· != id) := by
  unfold holding clearM
  induction w.objects with
  | nil => rfl
  | cons k ks ih =>
    by_cases hk : k.id = id <;> by_cases ho : k.target.isSome = true <;>
      simp [hk, ho, ih]

theorem holding_move (ho : o.target.isSome = true) :
    holding (move o w) = (holding w).filter (· != o.id) ++ [w.made] := by
  obtain ⟨u, hu⟩ := Option.isSome_iff_exists.mp ho
  rw [move, hu, holding_construct, holding_clearM]
  rfl

theorem holding_setValue (id : ℕ) (value : ℤ) (w : World R) :
    holding (setValue id value w) = holding w := by
  unfold holding setValue
  induction w.objects with
  | nil => rfl
  | cons k ks ih =>
    by_cases hk : k.id = id <;> by_cases ho : k.target.isSome = true <;>
      simp [hk, ho, ih]

theorem release_eq (w : World R) :
    ∃ state log, intrusivePtrRelease w = { w with state, log } := by
  unfold intrusivePtrRelease
  split
  · exact ⟨w.state, w.log, rfl⟩
  · split
    · exact ⟨_, _, rfl⟩
    · exact ⟨_, w.log, rfl⟩

theorem holding_remove (id : ℕ) (w : World R) :
    holding { w with objects := remove id w.objects } = (holding w).filter (· != id) := by
  rw [holding, holding, List.filter_map, remove, List.filter_comm]
  rfl

/-! ## Calls of `operator()` -/

theorem step_invoke (hl : lookup w.objects id = some o) (ho : o.target.isSome = true) :
    step w (.invoke id) = some (enter ⟨id, false⟩ w) := by
  rw [step, hl, Option.bind_some, if_pos ho]

/-- The body returns, and the coroutine is not complete. -/
theorem step_finish {value : ℤ} (hvalue : value ≠ -1) (hcalls : w.calls = [⟨id, false⟩]) :
    step w (.finish value) = some { setValue id value w with calls := [] } := by
  simp only [step, hcalls, finish, leave, if_neg hvalue]
  rfl

theorem lookup_setValue (hl : lookup w.objects id = some o) (value : ℤ) :
    lookup (setValue id value w).objects id = some { o with kind := value } :=
  (lookup_modify (f := fun o => { o with kind := value }) fun _ => rfl).trans (congrArg _ hl)

theorem lookup_move (hl : lookup w.objects o.id = some o) :
    lookup (move o w).objects o.id = some { o with target := none } := by
  have hclear : lookup (clearM o.id w).objects o.id = some { o with target := none } :=
    (lookup_modify (f := fun o => { o with target := none }) fun _ => rfl).trans (congrArg _ hl)
  exact lookup_append_left hclear _

theorem step_finish_complete (hl : lookup w.objects id = some o)
    (hcalls : w.calls = [⟨id, false⟩]) :
    step w (.finish (-1)) =
      some (reset { o with kind := -1 } { setValue id (-1) w with calls := [] }) := by
  have hobject : withObject id reset { setValue id (-1) w with calls := [] } =
      reset { o with kind := -1 } { setValue id (-1) w with calls := [] } := by
    rw [withObject]
    simp only [lookup_setValue hl (-1)]
  simp only [step, hcalls, finish, leave]
  exact congrArg some hobject

/-- The destruction of an object that holds nothing. -/
theorem step_destroy (hl : lookup w.objects id = some o) (ho : o.target = none)
    (hcalls : w.calls = []) :
    step w (.destroy id) = some { w with objects := remove id w.objects } := by
  have hnot : id ∉ w.calls.map Call.object := by
    rw [hcalls]
    exact List.not_mem_nil
  have hnone : ¬ o.target.isSome = true := by simp [ho]
  obtain rfl := (lookup_mem hl).2
  rw [step, hl, Option.bind_some, if_neg hnot, destroy, if_neg hnone]

/-- The body moves its object into an asynchronous call. -/
theorem run_move (hn : Numbered w.made w.objects) (hl : lookup w.objects id = some o)
    (ho : o.target.isSome = true) (hcalls : w.calls = [⟨id, false⟩]) {value : ℤ}
    (hvalue : value ≠ -1) :
    ∃ w', run step w [.move id, .finish value, .destroy id] = some w' ∧
      holding w' = (holding w).filter (· != id) ++ [w.made] ∧ w'.calls = [] ∧
      w'.completions = w.completions := by
  obtain rfl := (lookup_mem hl).2
  have hmove : step w (.move o.id) = some (move o w) := congrArg (Option.map _) hl
  have hfinish := step_finish (w := move o w) hvalue hcalls
  let finished : World R := { setValue o.id value (move o w) with calls := [] }
  have hdestroy := step_destroy (w := finished) (lookup_setValue (lookup_move hl) value) rfl rfl
  refine ⟨_, run_cons_iff.mpr ⟨_, hmove, run_cons_iff.mpr ⟨_, hfinish,
    run_cons_iff.mpr ⟨_, hdestroy, rfl⟩⟩⟩, ?_, rfl, rfl⟩
  rw [holding_remove]
  show (holding (setValue o.id value (move o w))).filter _ = _
  rw [holding_setValue, holding_move ho, List.filter_append, List.filter_filter]
  have hnew : [w.made].filter (· != o.id) = [w.made] := by
    have hne := hn.ne (Nat.le_refl _) (lookup_mem hl).1
    simpa using hne.symm
  simp only [Bool.and_self, hnew]

/-- The coroutine is complete when its body returns. -/
theorem run_finish (hl : lookup w.objects id = some o) (ho : o.target.isSome = true)
    (hcalls : w.calls = [⟨id, false⟩]) :
    ∃ w', run step w [.finish (-1), .destroy id] = some w' ∧
      holding w' = (holding w).filter (· != id) ∧ w'.calls = [] ∧
      w'.completions = w.completions := by
  obtain rfl := (lookup_mem hl).2
  let cleared := clearM o.id { setValue o.id (-1) w with calls := [] }
  obtain ⟨state, log, hrelease⟩ := release_eq cleared
  have hfinish : step w (.finish (-1)) = some { cleared with state, log } := by
    rw [step_finish_complete hl hcalls, reset, if_pos ho, ← hrelease]
  have hcleared : lookup cleared.objects o.id = some ⟨o.id, -1, none⟩ :=
    (lookup_modify (f := fun o => { o with target := none }) fun _ => rfl).trans
      (congrArg _ (lookup_setValue hl (-1)))
  have hdestroy := step_destroy (w := { cleared with state, log }) hcleared rfl rfl
  refine ⟨_, run_cons_iff.mpr ⟨_, hfinish, run_cons_iff.mpr ⟨_, hdestroy, rfl⟩⟩, ?_, rfl, rfl⟩
  rw [holding_remove]
  show (holding (clearM o.id (setValue o.id (-1) w))).filter _ = _
  rw [holding_clearM, holding_setValue, List.filter_filter]
  simp only [Bool.and_self]

/-- The body returns where it was resumed, and the destructor lets go of the state. -/
theorem run_drop (hl : lookup w.objects id = some o) (ho : o.target.isSome = true)
    (hcalls : w.calls = [⟨id, false⟩]) {value : ℤ} (hvalue : value ≠ -1) :
    ∃ w', run step w [.finish value, .destroy id] = some w' ∧
      holding w' = (holding w).filter (· != id) ∧ w'.calls = [] ∧
      w'.completions = w.completions := by
  obtain rfl := (lookup_mem hl).2
  have hfinish := step_finish hvalue hcalls
  let finished : World R := { setValue o.id value w with calls := [] }
  obtain ⟨state, log, hrelease⟩ :=
    release_eq { finished with objects := remove o.id finished.objects }
  have hdestroy : step finished (.destroy o.id) =
      some { finished with objects := remove o.id finished.objects, state, log } := by
    have hobject : lookup finished.objects o.id = some { o with kind := value } :=
      lookup_setValue hl value
    have hnot : o.id ∉ finished.calls.map Call.object := List.not_mem_nil
    rw [step, hobject, Option.bind_some, if_neg hnot, destroy, if_pos ho, hrelease]
  refine ⟨_, run_cons_iff.mpr ⟨_, hfinish, run_cons_iff.mpr ⟨_, hdestroy, rfl⟩⟩, ?_, rfl, rfl⟩
  show holding { finished with objects := remove o.id finished.objects } = _
  rw [holding_remove]
  show (holding (setValue o.id value w)).filter _ = _
  rw [holding_setValue]

/-! ### From the invocation on -/

section
variable (hn : Numbered w.made w.objects) (hid : id ∈ holding w) (hcalls : w.calls = [])
include hn hid hcalls

theorem run_await {value : ℤ} (hvalue : value ≠ -1) :
    ∃ w', run step w [.invoke id, .move id, .finish value, .destroy id] = some w' ∧
      holding w' = (holding w).filter (· != id) ++ [w.made] ∧ w'.calls = [] ∧
      w'.completions = w.completions := by
  obtain ⟨o, hl, -, ho⟩ := exists_lookup hn hid
  have hcall : (enter ⟨id, false⟩ w).calls = [⟨id, false⟩] := congrArg (List.cons _) hcalls
  obtain ⟨w', hrun, heffect⟩ := run_move (w := enter ⟨id, false⟩ w) hn hl ho hcall hvalue
  exact ⟨w', run_cons_iff.mpr ⟨_, step_invoke hl ho, hrun⟩, heffect⟩

theorem run_end :
    ∃ w', run step w [.invoke id, .finish (-1), .destroy id] = some w' ∧
      holding w' = (holding w).filter (· != id) ∧ w'.calls = [] ∧
      w'.completions = w.completions := by
  obtain ⟨o, hl, -, ho⟩ := exists_lookup hn hid
  have hcall : (enter ⟨id, false⟩ w).calls = [⟨id, false⟩] := congrArg (List.cons _) hcalls
  obtain ⟨w', hrun, heffect⟩ := run_finish (w := enter ⟨id, false⟩ w) hl ho hcall
  exact ⟨w', run_cons_iff.mpr ⟨_, step_invoke hl ho, hrun⟩, heffect⟩

/-- The body begins with `complete`, or a change of the state that is recorded as one. -/
theorem run_begin (result : R) :
    ∃ o w', lookup w'.objects id = some o ∧ o.target.isSome = true ∧
      run step w [.invoke id, .complete id result] = some w' ∧ w'.objects = w.objects ∧
      w'.made = w.made ∧ w'.calls = [⟨id, false⟩] ∧ w'.completions = w.completions ++ [result] := by
  obtain ⟨o, hl, -, ho⟩ := exists_lookup hn hid
  have hcomplete : step (enter ⟨id, false⟩ w) (.complete id result) =
      some (complete result (enter ⟨id, false⟩ w)) :=
    (congrArg (Option.bind · _) hl).trans (if_pos ho)
  refine ⟨o, complete result (enter ⟨id, false⟩ w), hl, ho, run_cons_iff.mpr ⟨_,
    step_invoke hl ho, run_cons_iff.mpr ⟨_, hcomplete, rfl⟩⟩, rfl, rfl, ?_, rfl⟩
  exact congrArg (List.cons _) hcalls

theorem run_complete (result : R) :
    ∃ w', run step w [.invoke id, .complete id result, .finish (-1), .destroy id] = some w' ∧
      holding w' = (holding w).filter (· != id) ∧ w'.calls = [] ∧
      w'.completions = w.completions ++ [result] := by
  obtain ⟨o, v, hl, ho, hbegin, hobjects, -, hcall, hcompletions⟩ := run_begin hn hid hcalls result
  obtain ⟨w', hrun, hholding, hcalls', hcompletions'⟩ := run_finish hl ho hcall
  refine ⟨w', ?_, ?_, hcalls', hcompletions'.trans hcompletions⟩
  · exact run_trans hbegin hrun
  · rw [hholding, holding, hobjects, holding]

theorem run_complete_await (result : R) {value : ℤ} (hvalue : value ≠ -1) :
    ∃ w', run step w [.invoke id, .complete id result, .move id, .finish value, .destroy id] =
        some w' ∧
      holding w' = (holding w).filter (· != id) ++ [w.made] ∧ w'.calls = [] ∧
      w'.completions = w.completions ++ [result] := by
  obtain ⟨o, v, hl, ho, hbegin, hobjects, hmade, hcall, hcompletions⟩ :=
    run_begin hn hid hcalls result
  have hn' : Numbered v.made v.objects := by rwa [hobjects, hmade]
  obtain ⟨w', hrun, hholding, hcalls', hcompletions'⟩ := run_move hn' hl ho hcall hvalue
  refine ⟨w', ?_, ?_, hcalls', hcompletions'.trans hcompletions⟩
  · exact run_trans hbegin hrun
  · rw [hholding, holding, hobjects, hmade, holding]

theorem run_complete_drop (result : R) {value : ℤ} (hvalue : value ≠ -1) :
    ∃ w', run step w [.invoke id, .complete id result, .finish value, .destroy id] = some w' ∧
      holding w' = (holding w).filter (· != id) ∧ w'.calls = [] ∧
      w'.completions = w.completions ++ [result] := by
  obtain ⟨o, v, hl, ho, hbegin, hobjects, -, hcall, hcompletions⟩ := run_begin hn hid hcalls result
  obtain ⟨w', hrun, hholding, hcalls', hcompletions'⟩ := run_drop hl ho hcall hvalue
  refine ⟨w', ?_, ?_, hcalls', hcompletions'.trans hcompletions⟩
  · exact run_trans hbegin hrun
  · rw [hholding, holding, hobjects, holding]

end

/-- The first call, with the fork: the child, in the object 1, moves itself into an asynchronous
call, then the parent does. -/
theorem run_fork (d : R) {value value' : ℤ} (hvalue : value ≠ -1) (hvalue' : value' ≠ -1) :
    ∃ w', run step (makeOperation d)
        [.invoke 0, .runChild 0, .move 1, .finish value, .move 0, .finish value', .destroy 0] =
        some w' ∧
      holding w' = [2, 3] ∧ w'.calls = [] ∧ w'.completions = [] := by
  let forked : World R :=
    ⟨some ⟨d, 2⟩, [⟨2, 0, some ()⟩, ⟨3, 0, some ()⟩], 4, [], [.allocated], []⟩
  refine ⟨forked, ?_, rfl, rfl, rfl⟩
  simp only [run, step, finish, if_neg hvalue, if_neg hvalue']
  rfl

end
end CxxUtil.Asio.Operation
