import CxxUtil.Composed.Op

/-! # One owner and one completion

An invocation of the task that uses its `op` object once gives the task away, to a continuation or
to the completion handler. The assertions fire when an invocation uses it again, or returns without
having used it. -/
namespace CxxUtil.Composed
open Foundations
set_option autoImplicit false

section
variable {P L V : Type*}

/-- The `op` objects and the continuations that own the task. -/
def owners (ptr : HandlerPtr P) (s : State P L V) : ℕ :=
  s.ops.countP (fun o => ptr.owns o.task) + s.continuations.countP (fun k => ptr.owns k.task)

/-- Each invocation of the task uses its `op` object exactly once. -/
def OneAction (s : State P L V) : Action L V → Prop
  | .continue _ | .complete _ => ∀ o ∈ s.ops.head?, o.actions = 0
  | .ret | .throw => ∀ o ∈ s.ops.head?, o.actions = 1
  | .invoke .. | .write .. => True

instance (s : State P L V) : ∀ act, Decidable (OneAction s act)
  | .continue _ | .complete _ => inferInstanceAs (Decidable (∀ o ∈ s.ops.head?, o.actions = 0))
  | .ret | .throw => inferInstanceAs (Decidable (∀ o ∈ s.ops.head?, o.actions = 1))
  | .invoke .. | .write .. => .isTrue trivial

/-- Each of the results holds its argument, the last one if it is named more than once. -/
def Holds (results : List (Option L)) (args : List V) (memory : L → Option V) : Prop :=
  ∀ (j : ℕ) (l : L) (v : V), results[j]? = some (some l) → args[j]? = some v →
    some l ∉ results.drop (j + 1) → memory l = some v

/-- What is to be said of every state of a run, `cont` being what the handler reports. -/
structure OneOwner (ptr : HandlerPtr P) (cont : Bool) (s : State P L V) : Prop where
  owner : owners ptr s = if s.completions.isEmpty then 1 else 0
  alive : s.alive = s.completions.isEmpty
  once : s.completions.length ≤ 1
  reports : ∀ k ∈ s.continuations,
    asioHandlerIsContinuation k = if k.number = 0 then cont else true

/-- And of every step. -/
structure OneCompletion (ptr : HandlerPtr P) (s : State P L V) (act : Action L V)
    (s' : State P L V) : Prop where
  results : ∀ i args, act = .invoke i args → ∃ k, s.continuations[i]? = some k ∧
    ptr.owns k.task = true ∧ s.alive = true ∧ Holds k.results args s'.memory
  completes : s'.completions = s.completions ∨ ∃ args, act = .complete args ∧
    s.completions = [] ∧ s'.completions = [args.map (decayCopy s.memory)] ∧
    s.alive = true ∧ s'.alive = false
  invokes : s.completions ≠ [] → s'.invocations = s.invocations

/-! ## Assigning the results -/

section
variable [DecidableEq L]

theorem assign_of_not_mem {ls : List (Option L)} {l : L} (h : some l ∉ ls) (vs : List V)
    (memory : L → Option V) : assign ls vs memory l = memory l := by
  induction ls generalizing vs memory with
  | nil => simp [assign]
  | cons r ls ih =>
    have hls : some l ∉ ls := fun hmem => h (List.mem_cons_of_mem _ hmem)
    cases vs with
    | nil => cases r <;> rfl
    | cons v vs =>
      cases r with
      | none => exact ih hls vs memory
      | some r =>
        have hne : l ≠ r := by
          rintro rfl
          exact h List.mem_cons_self
        rw [assign, ih hls, Function.update_of_ne hne]

theorem assign_holds (ls : List (Option L)) (vs : List V) (memory : L → Option V) :
    Holds ls vs (assign ls vs memory) := by
  induction ls generalizing vs memory with
  | nil =>
    intro j l v hj
    cases hj
  | cons r ls ih =>
    intro j l v hj hv hlast
    cases vs with
    | nil => cases hv
    | cons w ws =>
      cases j with
      | zero =>
        obtain rfl : r = some l := Option.some.inj hj
        obtain rfl : w = v := Option.some.inj hv
        rw [assign, assign_of_not_mem (by simpa using hlast), Function.update_self]
      | succ j =>
        have hrest (memory : L → Option V) : assign ls ws memory l = some v :=
          ih ws memory j l v (by simpa using hj) (by simpa using hv) (by simpa using hlast)
        cases r with
        | none => exact hrest memory
        | some r => exact hrest _

end

/-! ## One lemma for each step -/

/-- The states of runs in which each invocation uses its `op` object once. An `op` object owns the
task until it is used, a continuation until it is invoked. -/
structure Disciplined (ptr : HandlerPtr P) (cont : Bool) (s : State P L V) : Prop where
  oneOwner : OneOwner ptr cont s
  failed : s.failed = none
  ops : ∀ o ∈ s.ops, o.actions ≤ 1 ∧ (ptr.owns o.task = true ↔ o.actions = 0)
  continuations : ∀ k ∈ s.continuations, ptr.owns k.task = true ↔ k.invoked = false
  flags : ∀ o ∈ s.ops, o.cont = if o.number = 0 then cont else true
  invocations : 0 < s.invocations

theorem boostAssertMsg_pos {expr : Bool} {msg : String} {s s' : State P L V} (h : expr = true) :
    boostAssertMsg expr msg s s' = s' := if_pos h

theorem boostAssertMsg_failed {expr : Bool} {msg : String} {s s' : State P L V}
    (hs' : s'.failed = none) : (boostAssertMsg expr msg s s').failed = none ↔ expr = true := by
  cases expr with
  | true => simp [boostAssertMsg, hs']
  | false => simp [boostAssertMsg]

variable {ptr : HandlerPtr P} {inTask : L → Bool} {cont : Bool} {s s' : State P L V}

theorem owners_pos_of_op {o : Op P} (ho : o ∈ s.ops) (howns : ptr.owns o.task = true) :
    0 < owners ptr s :=
  Nat.add_pos_left (List.countP_pos_iff.mpr ⟨o, ho, howns⟩) _

theorem owners_pos_of_continuation {k : OpContinuation P L} (hk : k ∈ s.continuations)
    (howns : ptr.owns k.task = true) : 0 < owners ptr s :=
  Nat.add_pos_right _ (List.countP_pos_iff.mpr ⟨k, hk, howns⟩)

/-- While something owns the task, the completion handler has not been called. -/
theorem OneOwner.completions_eq_nil (h : OneOwner ptr cont s) (hpos : 0 < owners ptr s) :
    s.completions = [] := by
  have howner := h.owner
  split at howner
  case isTrue hnil => exact List.isEmpty_iff.mp hnil
  case isFalse => omega

theorem OneOwner.owners_eq_one (h : OneOwner ptr cont s) (hnil : s.completions = []) :
    owners ptr s = 1 := by
  rw [h.owner, hnil]
  rfl

theorem OneOwner.alive_of_nil (h : OneOwner ptr cont s) (hnil : s.completions = []) :
    s.alive = true := by
  rw [h.alive, hnil]
  rfl

/-- An invocation that has not used its `op` object: this object owns the task, and nothing else
does. -/
theorem Disciplined.sole_owner (h : Disciplined ptr cont s) {o : Op P} {outer : List (Op P)}
    (hops : s.ops = o :: outer) (hactions : o.actions = 0) :
    ptr.owns o.task = true ∧ s.completions = [] ∧
      outer.countP (fun o => ptr.owns o.task) + s.continuations.countP (fun k => ptr.owns k.task) =
        0 := by
  have ho : o ∈ s.ops := hops ▸ List.mem_cons_self
  have howns : ptr.owns o.task = true := (h.ops o ho).2.mpr hactions
  have hnil := h.oneOwner.completions_eq_nil (owners_pos_of_op ho howns)
  have hone := h.oneOwner.owners_eq_one hnil
  rw [owners, hops, List.countP_cons, if_pos howns] at hone
  exact ⟨howns, hnil, by omega⟩

theorem Disciplined.callOperator (hptr : ptr.Transfers) (h : Disciplined ptr cont s) {o : Op P}
    {outer : List (Op P)} (hops : s.ops = o :: outer) (hactions : o.actions = 0)
    (results : List (Option L)) : Disciplined ptr cont (Op.callOperator ptr o outer results s) := by
  have ho : o ∈ s.ops := hops ▸ List.mem_cons_self
  obtain ⟨howns, hnil, hothers⟩ := h.sole_owner hops hactions
  unfold Op.callOperator
  rw [boostAssertMsg_pos howns]
  refine ⟨⟨?_, h.oneOwner.alive, h.oneOwner.once, fun k hk => ?_⟩, h.failed, fun o' ho' => ?_,
    fun k hk => ?_, fun o' ho' => ?_, h.invocations⟩
  · -- from the op object to the continuation
    change owners ptr _ = if s.completions.isEmpty then 1 else 0
    rw [hnil, owners, List.countP_cons, List.countP_append, List.countP_singleton, hptr.moveFrom,
      hptr.moveTo, howns]
    simp only [List.isEmpty_nil, if_true, Bool.false_eq_true, if_false]
    omega
  · rcases List.mem_append.mp hk with hk | hk
    · exact h.oneOwner.reports k hk
    · obtain rfl := List.mem_singleton.mp hk
      exact h.flags o ho
  · rcases List.mem_cons.mp ho' with rfl | ho'
    · simp [hptr.moveFrom, hactions]
    · exact h.ops o' (hops ▸ List.mem_cons_of_mem _ ho')
  · rcases List.mem_append.mp hk with hk | hk
    · exact h.continuations k hk
    · obtain rfl := List.mem_singleton.mp hk
      simp [hptr.moveTo, howns]
  · rcases List.mem_cons.mp ho' with rfl | ho'
    · exact h.flags o ho
    · exact h.flags o' (hops ▸ List.mem_cons_of_mem _ ho')

theorem Disciplined.complete (hptr : ptr.Transfers) (h : Disciplined ptr cont s) {o : Op P}
    {outer : List (Op P)} (hops : s.ops = o :: outer) (hactions : o.actions = 0)
    (args : List (Arg L V)) :
    Disciplined ptr cont (Op.complete ptr inTask o outer args s) ∧
      s.completions = [] ∧ s.alive = true ∧
      (Op.complete ptr inTask o outer args s).completions = [args.map (decayCopy s.memory)] ∧
      (Op.complete ptr inTask o outer args s).alive = false := by
  have ho : o ∈ s.ops := hops ▸ List.mem_cons_self
  obtain ⟨howns, hnil, hothers⟩ := h.sole_owner hops hactions
  unfold Op.complete
  rw [boostAssertMsg_pos howns, hnil]
  refine ⟨⟨⟨?_, rfl, Nat.le_refl 1, h.oneOwner.reports⟩, h.failed, fun o' ho' => ?_,
    h.continuations, fun o' ho' => ?_, h.invocations⟩, rfl,
    h.oneOwner.alive_of_nil hnil, rfl, rfl⟩
  · change owners ptr _ = 0
    rw [owners, List.countP_cons, hptr.invoke]
    change List.countP _ outer + 0 + List.countP _ s.continuations = 0
    omega
  · rcases List.mem_cons.mp ho' with rfl | ho'
    · simp [hptr.invoke, hactions]
    · exact h.ops o' (hops ▸ List.mem_cons_of_mem _ ho')
  · rcases List.mem_cons.mp ho' with rfl | ho'
    · exact h.flags o ho
    · exact h.flags o' (hops ▸ List.mem_cons_of_mem _ ho')

/-- An invocation that has used its `op` object ends. -/
theorem Disciplined.pop (h : Disciplined ptr cont s) {o : Op P} {outer : List (Op P)}
    (hops : s.ops = o :: outer) (hactions : o.actions = 1) :
    ptr.owns o.task = false ∧ Disciplined ptr cont { s with ops := outer } := by
  have howns : ptr.owns o.task = false := by
    rw [← Bool.not_eq_true, (h.ops o (hops ▸ List.mem_cons_self)).2, hactions]
    exact Nat.one_ne_zero
  refine ⟨howns, ⟨?_, h.oneOwner.alive, h.oneOwner.once, h.oneOwner.reports⟩, h.failed,
    fun o' ho' => h.ops o' (hops ▸ List.mem_cons_of_mem _ ho'), h.continuations,
    fun o' ho' => h.flags o' (hops ▸ List.mem_cons_of_mem _ ho'), h.invocations⟩
  have howner := h.oneOwner.owner
  rw [owners, hops, List.countP_cons, howns] at howner
  exact howner

theorem Disciplined.invoke [DecidableEq L] (hptr : ptr.Transfers) (h : Disciplined ptr cont s)
    {i : ℕ} {k : OpContinuation P L} (hk : s.continuations[i]? = some k)
    (hinvoked : k.invoked = false) (args : List V) :
    ptr.owns k.task = true ∧ s.completions = [] ∧
      Disciplined ptr cont (OpContinuation.callOperator ptr i k args s) := by
  have hmem : k ∈ s.continuations := List.mem_of_getElem? hk
  have howns : ptr.owns k.task = true := (h.continuations k hmem).mpr hinvoked
  have hnil := h.oneOwner.completions_eq_nil (owners_pos_of_continuation hmem howns)
  have hone := h.oneOwner.owners_eq_one hnil
  obtain ⟨hi, hget⟩ := List.getElem?_eq_some_iff.mp hk
  have hset {k' : OpContinuation P L} (hk' : k' ∈ s.continuations.set i
      { k with task := ptr.moveFrom k.task, invoked := true }) :
      k' ∈ s.continuations ∨ k' = { k with task := ptr.moveFrom k.task, invoked := true } :=
    List.mem_or_eq_of_mem_set hk'
  refine ⟨howns, hnil, ⟨?_, h.oneOwner.alive, h.oneOwner.once, fun k' hk' => ?_⟩, h.failed,
    fun o ho => ?_, fun k' hk' => ?_, fun o ho => ?_, Nat.succ_pos _⟩
  · -- from the continuation to the new op object
    change owners ptr _ = if s.completions.isEmpty then 1 else 0
    have hpos : 0 < s.continuations.countP fun k => ptr.owns k.task :=
      List.countP_pos_iff.mpr ⟨k, hmem, howns⟩
    unfold owners at hone ⊢
    simp only [OpContinuation.callOperator, Op.construct, List.countP_cons, List.countP_set hi,
      hget, hptr.moveTo, hptr.moveFrom, howns, hnil, List.isEmpty_nil, if_true,
      Bool.false_eq_true, if_false]
    omega
  · rcases hset hk' with hk' | rfl
    · exact h.oneOwner.reports k' hk'
    · exact h.oneOwner.reports k hmem
  · rcases List.mem_cons.mp ho with rfl | ho
    · simp [hptr.moveTo, howns]
    · exact h.ops o ho
  · rcases hset hk' with hk' | rfl
    · exact h.continuations k' hk'
    · simp [hptr.moveFrom]
  · rcases List.mem_cons.mp ho with rfl | ho
    · exact (if_neg (Nat.pos_iff_ne_zero.mp h.invocations)).symm
    · exact h.flags o ho

theorem disciplined_startOp (hptr : ptr.Transfers) (cont : Bool) (memory : L → Option V) :
    Disciplined ptr cont (startOp ptr cont memory) := by
  refine ⟨⟨?_, rfl, Nat.zero_le 1, fun k hk => (by cases hk)⟩, rfl, fun o ho => ?_,
    fun k hk => (by cases hk), fun o ho => ?_, Nat.succ_pos 0⟩
  · simp [owners, startOp, Op.construct, hptr.moveTo, hptr.make]
  · obtain rfl := List.mem_singleton.mp ho
    simp [hptr.moveTo, hptr.make]
  · obtain rfl := List.mem_singleton.mp ho
    rfl

/-! ## Runs -/

section
variable [DecidableEq L] {act : Action L V}

theorem disciplined_step (hptr : ptr.Transfers) (h : Disciplined ptr cont s)
    (hone : OneAction s act) (hs : step ptr inTask s act = some s') :
    Disciplined ptr cont s' ∧ OneCompletion ptr s act s' := by
  cases step_effect ptr inTask hs with
  | «continue» results o outer hops =>
    have hactions : o.actions = 0 := hone o (by rw [hops]; rfl)
    have howns : ptr.owns o.task = true := (h.ops o (hops ▸ List.mem_cons_self)).2.mpr hactions
    have hcontinued := h.callOperator hptr hops hactions results
    rw [Op.callOperator, boostAssertMsg_pos howns] at hcontinued ⊢
    exact ⟨hcontinued, nofun, .inl rfl, fun _ => rfl⟩
  | complete args o outer hops =>
    have hactions : o.actions = 0 := hone o (by rw [hops]; rfl)
    obtain ⟨hcompleted, hnil, halive, hcompletions, hdead⟩ := h.complete hptr hops hactions args
    refine ⟨hcompleted, nofun, .inr ⟨args, rfl, hnil, hcompletions, halive, hdead⟩, ?_⟩
    exact fun hne => absurd hnil hne
  | invoke i args k hk hinvoked =>
    obtain ⟨howns, hnil, hinvokes⟩ := h.invoke hptr hk hinvoked args
    refine ⟨hinvokes, fun j args' heq => ?_, .inl rfl, fun hne => absurd hnil hne⟩
    cases heq
    exact ⟨k, hk, howns, h.oneOwner.alive_of_nil hnil, assign_holds k.results args s.memory⟩
  | write l v hl =>
    refine ⟨⟨?_, h.failed, h.ops, h.continuations, h.flags, h.invocations⟩, nofun, .inl rfl,
      fun _ => rfl⟩
    exact ⟨h.oneOwner.owner, h.oneOwner.alive, h.oneOwner.once, h.oneOwner.reports⟩
  | ret o outer hops =>
    have hactions : o.actions = 1 := hone o (by rw [hops]; rfl)
    obtain ⟨howns, hpop⟩ := h.pop hops hactions
    rw [Op.endConstruct, boostAssertMsg_pos (by rw [howns]; rfl)]
    exact ⟨hpop, nofun, .inl rfl, fun _ => rfl⟩
  | throw o outer hops =>
    have hactions : o.actions = 1 := hone o (by rw [hops]; rfl)
    obtain ⟨howns, hpop⟩ := h.pop hops hactions
    rw [Op.unwind, if_neg (by rw [howns]; exact Bool.false_ne_true)]
    exact ⟨hpop, nofun, .inl rfl, fun _ => rfl⟩

theorem failed_iff (h : Disciplined ptr cont s) (hthrow : act ≠ .throw)
    (hs : step ptr inTask s act = some s') : s'.failed = none ↔ OneAction s act := by
  cases step_effect ptr inTask hs with
  | «continue» results o outer hops =>
    obtain ⟨-, howns⟩ := h.ops o (hops ▸ List.mem_cons_self)
    rw [Op.callOperator, boostAssertMsg_failed, howns, OneAction, hops]
    · simp
    · exact h.failed
  | complete args o outer hops =>
    obtain ⟨-, howns⟩ := h.ops o (hops ▸ List.mem_cons_self)
    rw [Op.complete, boostAssertMsg_failed, howns, OneAction, hops]
    · simp
    · exact h.failed
  | invoke i args k hk hinvoked => exact ⟨fun _ => trivial, fun _ => h.failed⟩
  | write l v hl => exact ⟨fun _ => trivial, fun _ => h.failed⟩
  | ret o outer hops =>
    obtain ⟨hle, howns⟩ := h.ops o (hops ▸ List.mem_cons_self)
    rw [Op.endConstruct, boostAssertMsg_failed, OneAction, hops, Bool.not_eq_true',
      ← Bool.not_eq_true, howns]
    · simp only [List.head?_cons, Option.mem_def, Option.some.injEq, forall_eq']
      omega
    · exact h.failed
  | throw o outer hops => exact absurd rfl hthrow

/-- **One owner and one completion.** In a run in which each invocation so far has used its `op`
object once, one object owns the task until it completes; the next step fires an assertion exactly
when it breaks that rule, and if it keeps it, the results are in place when the task is invoked, and
the completion handler is called once, by `complete`, with copies made before the task is destroyed.
-/
theorem one_owner_one_completion (hptr : ptr.Transfers) {cont : Bool} {memory : L → Option V}
    {as : List (Action L V)} (hone : Along (step ptr inTask) OneAction (startOp ptr cont memory) as)
    (h : run (step ptr inTask) (startOp ptr cont memory) as = some s) :
    s.failed = none ∧ OneOwner ptr cont s ∧
      ∀ act s', step ptr inTask s act = some s' →
        (act ≠ .throw → (s'.failed = none ↔ OneAction s act)) ∧
        (OneAction s act → OneOwner ptr cont s' ∧ OneCompletion ptr s act s') := by
  have hdisciplined : Disciplined ptr cont s := run_invariant_along
    (fun _ _ _ hs hact hstep => (disciplined_step hptr hs hact hstep).1)
    (disciplined_startOp hptr cont memory) hone h
  refine ⟨hdisciplined.failed, hdisciplined.oneOwner, fun act s' hs => ⟨fun hthrow => ?_,
    fun hact => ?_⟩⟩
  · exact failed_iff hdisciplined hthrow hs
  · obtain ⟨hnext, hcompletion⟩ := disciplined_step hptr hdisciplined hact hs
    exact ⟨hnext.oneOwner, hcompletion⟩

end
end

/-- A handler that is no continuation. Each continuation is invoked inline, and the third invocation
completes with the two results of the second, which lie in the task. -/
theorem one_owner_one_completion_inline :
    ∃ s, run (step handlerPtr fun l => l < 2) (startOp handlerPtr false fun _ => some 0)
        [.continue [some 0], .invoke 0 [7], .continue [some 1, none], .invoke 1 [8, 9]] = some s ∧
      s.continuations.map asioHandlerIsContinuation = [false, true] ∧
      ∃ s', step handlerPtr (fun l => l < 2) s (.complete [.lvalue 0, .lvalue 1, .value 5]) =
          some s' ∧
        s'.completions = [[some 7, some 8, some 5]] ∧ s'.memory 0 = none ∧
        owners handlerPtr s' = 0 ∧ s'.failed = none ∧ OneOwner handlerPtr false s' := by
  have hrun : run (step handlerPtr fun l => l < 2) (startOp handlerPtr false fun _ => some 0)
      [.continue [some 0], .invoke 0 [7], .continue [some 1, none], .invoke 1 [8, 9]] =
        some _ := rfl
  obtain ⟨-, -, hnext⟩ := one_owner_one_completion handlerPtr_transfers (by decide) hrun
  obtain ⟨hfailed, howner⟩ := hnext (.complete [.lvalue 0, .lvalue 1, .value 5]) _ rfl
  exact ⟨_, hrun, rfl, _, rfl, rfl, rfl, rfl, (hfailed (by simp)).mpr (by decide),
    (howner (by decide)).1⟩

end CxxUtil.Composed
