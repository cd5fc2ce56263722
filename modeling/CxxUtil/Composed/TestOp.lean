import CxxUtil.Composed.Invocations
import CxxUtil.Composed.TestHandler

/-! # `test_op`

The composed operation of `tests/op.cpp`, run with a `test_handler`. The `handler_ptr` takes one
block for the task through the hooks of the handler, which it gives back when it has destroyed the
task and before it calls the handler; a wait takes one until its own handler is called; and `v`
takes one for its elements. How large the blocks are, and how `v` grows, is left open. -/
namespace CxxUtil.Composed.TestOp
open Foundations Test
set_option autoImplicit false

inductive Member
  | ec
  | count
  deriving DecidableEq, Repr

inductive Value (E : Type*)
  | errorCode (ec : Option E)
  | int (n : ℤ)

/-- `std::vector<int, allocator_type>`: the block of its elements, and for how many it is. -/
structure Vector where
  contents : List ℤ
  storage : Option (ℕ × ℕ)

def Vector.capacity (v : Vector) : ℕ := v.storage.elim 0 Prod.snd

/-- The sizes of a task, of a wait and of an `int`, and the capacity that a vector takes when it
needs one and has another. -/
structure Platform where
  taskSize : ℕ
  waitSize : ℕ
  intSize : ℕ
  grow : ℕ → ℕ → ℕ

/-- The block of the task, and that of the wait that has not ended. `called` has the handler as it
is at each call. -/
structure World (P E : Type*) where
  op : State P Member (Value E)
  coro : ℤ
  v : Vector
  task : ℕ
  wait : Option ℕ
  test : TestCase
  invokedOnMyContext : Bool
  called : List TestHandler

def kMaxCount : ℤ := 10

section
variable {P E : Type*} (platform : Platform) (ptr : HandlerPtr P)

/-- Gives back the elements' block. -/
def Vector.release (v : Vector) (t : TestCase) : TestCase :=
  match v.storage with
  | some (block, capacity) => deallocate block (capacity * platform.intSize) t
  | none => t

/-- `v.insert(v.end(), n, x)`. -/
def Vector.insert (n : ℕ) (x : ℤ) (v : Vector) (t : TestCase) : Vector × TestCase :=
  let contents := v.contents ++ List.replicate n x
  if contents.length ≤ v.capacity then ({ v with contents }, t)
  else
    let capacity := platform.grow contents.length v.capacity
    let (block, t) := allocate (capacity * platform.intSize) t
    (⟨contents, some (block, capacity)⟩, v.release platform t)

/-- Both members are in the task. -/
def opStep : State P Member (Value E) → Composed.Action Member (Value E) →
    Option (State P Member (Value E)) :=
  Composed.step ptr fun _ => true

/-- `op.complete(ec, count)`, when `acts` have been done, and `return`. -/
def complete (acts : List (Composed.Action Member (Value E))) (s : World P E) :
    Option (World P E) :=
  (run (opStep ptr) s.op (acts ++ [.complete [.lvalue .ec, .lvalue .count], .ret])).map fun op =>
    let test := deallocate s.task platform.taskSize (s.v.release platform s.test)
    { s with op, test := call test, called := s.called ++ [test.handler] }

/-- `while (++count < k_max_count)`, up to the wait or to the end. -/
def loop (count : ℤ) (s : World P E) : Option (World P E) :=
  if count + 1 < kMaxCount then
    (run (opStep ptr) s.op
      [.write .count (.int (count + 1)), .continue [some .ec], .ret]).map fun op =>
      let (block, test) := allocate platform.waitSize s.test
      { s with op, coro := 145, wait := some block, test }
  else complete platform ptr [.write .count (.int (count + 1))] { s with coro := -1 }

/-- What follows the wait in the loop. -/
def afterWait (count : ℤ) (s : World P E) : World P E :=
  let test := check s.invokedOnMyContext "test_handler::invoked_on_my_context" s.test
  let (v, test) := s.v.insert platform 1024 count test
  { s with v, test }

/-- `if (!ec) reenter (coro)`, and what follows it. -/
def reenter (s : World P E) : Option (World P E) :=
  match s.op.memory .ec, s.op.memory .count with
  | some (.errorCode none), some (.int count) =>
    if s.coro = 0 then loop platform ptr count s
    else if s.coro = 145 then loop platform ptr count (afterWait platform count s)
    else complete platform ptr [] s
  | some (.errorCode (some _)), some (.int _) => complete platform ptr [] s
  | _, _ => none

/-- `CHECK(role.get() == "struct")`. The logger of the operation is the handler's. -/
def checkRole (s : World P E) : World P E :=
  { s with test := check (s.test.handler.role == "struct") "role.get() == \"struct\"" s.test }

/-- `test_op::operator()`. -/
def callOperator (s : World P E) : Option (World P E) := reenter platform ptr (checkRole s)

def members : Member → Option (Value E)
  | .ec => some (.errorCode none)
  | .count => some (.int 0)

/-- `start_op` with a handler that has done nothing. -/
def start (cont : Bool) (role : String) : Option (World P E) :=
  let (task, test) := allocate platform.taskSize (testHandler cont role)
  callOperator platform ptr
    ⟨startOp ptr cont members, 0, ⟨[], none⟩, task, none, test, false, []⟩

/-- The wait ends with `ec`: its memory is given back, and its handler is called by
`asio_handler_invoke`. -/
def step (s : World P E) (ec : Option E) : Option (World P E) :=
  match s.wait with
  | none => none
  | some block =>
    ((opStep ptr s.op (.invoke (s.op.continuations.length - 1) [.errorCode ec])).bind fun op =>
      let test := deallocate block platform.waitSize s.test
      callOperator platform ptr
        { s with op, wait := none, test, invokedOnMyContext := true }).map
    fun s => { s with invokedOnMyContext := false }

/-! ## The blocks that are held -/

def Vector.blocks (v : Vector) : List (ℕ × ℕ) :=
  v.storage.toList.map fun (block, capacity) => (block, capacity * platform.intSize)

variable {platform} {ptr}

variable {cont : Bool} {role : String} {failures : List String}

theorem ledger_release {v : Vector} {rest : List (ℕ × ℕ)} {t : TestCase}
    (h : Ledger role failures (v.blocks platform ++ rest) t) :
    Ledger role failures rest (v.release platform t) := by
  unfold Vector.release
  cases hstorage : v.storage with
  | none =>
    rw [Vector.blocks, hstorage] at h
    exact h
  | some storage =>
    rw [Vector.blocks, hstorage] at h
    exact h.deallocate

/-- The new block is there before the old one is given back. -/
theorem ledger_insert {v : Vector} {rest : List (ℕ × ℕ)} {t : TestCase}
    (h : Ledger role failures (v.blocks platform ++ rest) t) (n : ℕ) (x : ℤ) :
    Ledger role failures ((v.insert platform n x t).1.blocks platform ++ rest)
        (v.insert platform n x t).2 ∧
      (v.insert platform n x t).1.contents = v.contents ++ List.replicate n x := by
  by_cases hfits : (v.contents ++ List.replicate n x).length ≤ v.capacity
  case pos =>
    rw [Vector.insert, if_pos hfits]
    exact ⟨h, rfl⟩
  case neg =>
    rw [Vector.insert, if_neg hfits]
    have hallocated := h.allocate
      (platform.grow (v.contents ++ List.replicate n x).length v.capacity * platform.intSize)
    exact ⟨ledger_release (hallocated.perm List.perm_middle.symm), rfl⟩

/-! ## The turns of the task -/

/-- What has been inserted after `k` waits. -/
def written (k : ℕ) : List ℤ := (List.range k).flatMap fun j : ℕ => List.replicate 1024 (j + 1 : ℤ)

theorem written_succ (k : ℕ) : written k ++ List.replicate 1024 (k + 1 : ℤ) = written (k + 1) := by
  rw [written, written, List.range_succ, List.flatMap_append, List.flatMap_singleton]

/-- What has failed after `n` invocations. -/
def roleFailures (role : String) (n : ℕ) : List String :=
  if role = "struct" then [] else List.replicate n "role.get() == \"struct\""

variable {s : World P E} {ec : Option E} {count : ℤ} {k n : ℕ}

theorem ledger_checkRole {held : List (ℕ × ℕ)}
    (h : Ledger role (roleFailures role n) held s.test) :
    Ledger role (roleFailures role (n + 1)) held (checkRole s).test := by
  have hcheck := h.check (s.test.handler.role == "struct") "role.get() == \"struct\""
  have hfailures : (if s.test.handler.role == "struct" then roleFailures role n
      else roleFailures role n ++ ["role.get() == \"struct\""]) = roleFailures role (n + 1) := by
    rw [h.role]
    by_cases hrole : role = "struct"
    · simp [roleFailures, hrole]
    · simp [roleFailures, hrole, List.replicate_succ']
  rw [hfailures] at hcheck
  exact hcheck

variable (platform ptr cont role) in
/-- The task is being invoked, and no wait is under way. -/
structure Running (n : ℕ) (s : World P E) : Prop where
  invoked : Invoked ptr cont s.op
  ledger : Ledger role (roleFailures role n)
    (s.v.blocks platform ++ [(s.task, platform.taskSize)]) s.test
  wait : s.wait = none
  called : s.called = []

variable (platform ptr cont role) in
/-- `k` waits have ended, and one is under way. -/
structure Waiting (k : ℕ) (s : World P E) : Prop where
  suspended : Suspended ptr cont [some .ec] s.op
  ec : s.op.memory .ec = some (.errorCode none)
  count : s.op.memory .count = some (.int (k + 1))
  coro : s.coro = 145
  wait : ∃ block, s.wait = some block ∧
    Ledger role (roleFailures role (k + 1))
      ((block, platform.waitSize) :: (s.v.blocks platform ++ [(s.task, platform.taskSize)])) s.test
  contents : s.v.contents = written k
  called : s.called = []

variable (role) in
/-- The handler has been called, with everything given back, in the `n`-th invocation. -/
structure Done (n : ℕ) (ec : Option E) (count : ℤ) (s : World P E) : Prop where
  wait : s.wait = none
  called : ∃ handler, s.called = [handler] ∧ Returned handler
  failures : s.test.failures = roleFailures role n
  failed : s.op.failed = none
  completions : s.op.completions = [[some (.errorCode ec), some (.int count)]]

/-- `op.complete`, when the task has done `acts`. -/
theorem done_complete (hptr : ptr.Transfers) (h : Running platform ptr cont role n s)
    {acts : List (Composed.Action Member (Value E))} {op : State P Member (Value E)}
    (hacts : run (opStep ptr) s.op acts = some op) (hop : Invoked ptr cont op)
    (hec : op.memory .ec = some (.errorCode ec)) (hcount : op.memory .count = some (.int count)) :
    ∃ s', complete platform ptr acts s = some s' ∧ Done role n ec count s' := by
  obtain ⟨op', hrun, hfailed, hcompletions, -⟩ := hop.complete hptr [.lvalue .ec, .lvalue .count]
  have hall : run (opStep ptr) s.op (acts ++ [.complete [.lvalue .ec, .lvalue .count], .ret]) =
      some op' := run_trans hacts hrun
  have hreleased := ledger_release h.ledger
  have hreturned := hreleased.returned
  have hcomplete : complete platform ptr acts s =
      some { s with
        op := op'
        test := call (deallocate s.task platform.taskSize (s.v.release platform s.test))
        called := s.called ++
          [(deallocate s.task platform.taskSize (s.v.release platform s.test)).handler] } := by
    rw [complete, hall]
    rfl
  refine ⟨_, hcomplete, h.wait, ⟨_, ?_, hreturned⟩, ?_, hfailed, ?_⟩
  · rw [h.called, List.nil_append]
  · rw [hreturned.call]
    exact hreleased.deallocate.failures
  · rw [hcompletions, List.map_cons, List.map_cons, decayCopy, decayCopy, hec, hcount]
    rfl

/-- The loop's condition, when `k` waits have ended. -/
theorem loop_spec (hptr : ptr.Transfers) (h : Running platform ptr cont role (k + 1) s)
    (hec : s.op.memory .ec = some (.errorCode none)) (hcontents : s.v.contents = written k) :
    ∃ s', loop platform ptr k s = some s' ∧
      if k < 9 then Waiting platform ptr cont role k s'
      else Done role (k + 1) none (k + 1) s' := by
  obtain ⟨op, hwrite, hop, hmemory⟩ := h.invoked.write hptr .count (.int (k + 1))
  have hopec : op.memory .ec = some (.errorCode none) := by
    rw [hmemory, Function.update_of_ne (by decide), hec]
  have hopcount : op.memory .count = some (.int (k + 1)) := by
    rw [hmemory, Function.update_self]
  by_cases hk : k < 9
  case pos =>
    obtain ⟨op', hsuspend, hsuspended, hmemory'⟩ := hop.suspend hptr [some .ec]
    have hrun : run (opStep ptr) s.op
        [.write .count (.int (k + 1)), .continue [some .ec], .ret] = some op' :=
      run_cons_iff.mpr ⟨op, hwrite, hsuspend⟩
    have hlt : (k : ℤ) + 1 < kMaxCount := by
      rw [kMaxCount]
      omega
    have hloop : loop platform ptr k s =
        some { s with
          op := op'
          coro := 145
          wait := some s.test.handler.allocations
          test := (allocate platform.waitSize s.test).2 } := by
      rw [loop, if_pos hlt, hrun]
      rfl
    refine ⟨_, hloop, ?_⟩
    rw [if_pos hk]
    exact ⟨hsuspended, hmemory' ▸ hopec, hmemory' ▸ hopcount, rfl, ⟨_, rfl, h.ledger.allocate _⟩,
      hcontents, h.called⟩
  case neg =>
    have hge : ¬ (k : ℤ) + 1 < kMaxCount := by
      rw [kMaxCount]
      omega
    have hrunning : Running platform ptr cont role (k + 1) { s with coro := -1 } :=
      ⟨h.invoked, h.ledger, h.wait, h.called⟩
    have hacts : run (opStep ptr) s.op [.write .count (.int (k + 1))] = some op :=
      run_cons_iff.mpr ⟨op, hwrite, rfl⟩
    obtain ⟨s', hcomplete, hdone⟩ := done_complete hptr hrunning hacts hop hopec hopcount
    refine ⟨s', by rw [loop, if_neg hge, hcomplete], ?_⟩
    rw [if_neg hk]
    exact hdone

/-- When `k` waits have ended, the last with `ec`. -/
def After (platform : Platform) (ptr : HandlerPtr P) (cont : Bool) (role : String) (k : ℕ)
    (ec : Option E) (s : World P E) : Prop :=
  match ec with
  | none =>
    if k < 9 then Waiting platform ptr cont role k s else Done role (k + 1) none (k + 1) s
  | some e => Done role (k + 1) (some e) k s

theorem After.leave (h : After platform ptr cont role k ec s) :
    After platform ptr cont role k ec { s with invokedOnMyContext := false } := by
  have hdone {ec : Option E} {count : ℤ} (h : Done role (k + 1) ec count s) :
      Done role (k + 1) ec count { s with invokedOnMyContext := false } :=
    ⟨h.wait, h.called, h.failures, h.failed, h.completions⟩
  cases ec with
  | none =>
    by_cases hk : k < 9
    case pos =>
      simp only [After, if_pos hk] at h ⊢
      exact ⟨h.suspended, h.ec, h.count, h.coro, h.wait, h.contents, h.called⟩
    case neg =>
      simp only [After, if_neg hk] at h ⊢
      exact hdone h
  | some e => exact hdone h

theorem Running.checkRole (h : Running platform ptr cont role n s) :
    Running platform ptr cont role (n + 1) (checkRole s) :=
  ⟨h.invoked, ledger_checkRole h.ledger, h.wait, h.called⟩

theorem after_start (hptr : ptr.Transfers) (cont : Bool) (role : String) :
    ∃ s : World P E, start platform ptr cont role = some s ∧
      After platform ptr cont role 0 none s := by
  have hledger := (ledger_testHandler cont role).allocate platform.taskSize
  have hnone : roleFailures role 0 = [] := by simp [roleFailures]
  rw [← hnone] at hledger
  have hrunning : Running platform ptr cont role 0
      (⟨startOp ptr cont members, 0, ⟨[], none⟩, 0, none,
        (allocate platform.taskSize (testHandler cont role)).2, false, []⟩ : World P E) :=
    ⟨invoked_startOp hptr cont members, hledger, rfl, rfl⟩
  exact loop_spec (k := 0) hptr hrunning.checkRole rfl rfl

/-- The invocation after a wait that has ended with `ec`. -/
theorem after_reenter (hptr : ptr.Transfers) (h : Running platform ptr cont role (k + 2) s)
    (hec : s.op.memory .ec = some (.errorCode ec))
    (hcount : s.op.memory .count = some (.int ((k + 1 : ℕ) : ℤ))) (hcoro : s.coro = 145)
    (hcontext : s.invokedOnMyContext = true) (hcontents : s.v.contents = written k) :
    ∃ s', reenter platform ptr s = some s' ∧ After platform ptr cont role (k + 1) ec s' := by
  cases ec with
  | none =>
    obtain ⟨hledger, hwritten⟩ := ledger_insert h.ledger 1024 ((k + 1 : ℕ) : ℤ)
    rw [hcontents, Int.natCast_succ, written_succ] at hwritten
    have hafter : afterWait platform ((k + 1 : ℕ) : ℤ) s =
        { s with
          v := (s.v.insert platform 1024 ((k + 1 : ℕ) : ℤ) s.test).1
          test := (s.v.insert platform 1024 ((k + 1 : ℕ) : ℤ) s.test).2 } := by
      rw [afterWait, hcontext]
      rfl
    have hrunning : Running platform ptr cont role (k + 2)
        (afterWait platform ((k + 1 : ℕ) : ℤ) s) := by
      rw [hafter]
      exact ⟨h.invoked, hledger, h.wait, h.called⟩
    have hloop := loop_spec hptr hrunning (by rw [hafter]; exact hec)
      (by rw [hafter]; exact hwritten)
    have hcall : reenter platform ptr s =
        loop platform ptr ((k + 1 : ℕ) : ℤ) (afterWait platform ((k + 1 : ℕ) : ℤ) s) := by
      simp only [reenter, hec, hcount, hcoro]
      rfl
    rw [hcall]
    exact hloop
  | some e =>
    have hcall : reenter platform ptr s = complete platform ptr [] s := by
      simp only [reenter, hec, hcount]
    rw [hcall]
    exact done_complete hptr h rfl h.invoked hec hcount

/-- A wait ends. -/
theorem after_step (hptr : ptr.Transfers) (h : Waiting platform ptr cont role k s)
    (ec : Option E) :
    ∃ s', step platform ptr s ec = some s' ∧ After platform ptr cont role (k + 1) ec s' := by
  obtain ⟨block, hwait, hledger⟩ := h.wait
  obtain ⟨op, hinvoke, hop, hmemory⟩ : ∃ op,
      opStep ptr s.op (.invoke (s.op.continuations.length - 1) [.errorCode ec]) = some op ∧
        Invoked ptr cont op ∧
        op.memory = Function.update s.op.memory .ec (some (.errorCode ec)) :=
    h.suspended.invoke hptr rfl
  have hec : op.memory .ec = some (.errorCode ec) := by rw [hmemory, Function.update_self]
  have hcount : op.memory .count = some (.int ((k + 1 : ℕ) : ℤ)) := by
    rw [hmemory, Function.update_of_ne (by decide), h.count, Int.natCast_succ]
  have hrunning : Running platform ptr cont role (k + 1)
      { s with
        op := op
        wait := none
        test := deallocate block platform.waitSize s.test
        invokedOnMyContext := true } :=
    ⟨hop, hledger.deallocate, rfl, h.called⟩
  obtain ⟨s', hreenter, hafter⟩ :=
    after_reenter hptr hrunning.checkRole hec hcount h.coro rfl h.contents
  refine ⟨{ s' with invokedOnMyContext := false }, ?_, hafter.leave⟩
  simp only [step, hwait, hinvoke, Option.bind_some, callOperator, hreenter, Option.map_some]

/-! ## Runs -/

variable (platform ptr cont role) in
/-- What the outcomes of the waits so far have led to. -/
inductive Outcome : List (Option E) → World P E → Prop
  | waiting {k : ℕ} {s : World P E} (hk : k < 9) (h : Waiting platform ptr cont role k s) :
      Outcome (List.replicate k none) s
  | completed {s : World P E} (h : Done role 10 none 10 s) : Outcome (List.replicate 9 none) s
  | failed {k : ℕ} {e : E} {s : World P E} (hk : k < 9) (h : Done role (k + 2) (some e) (k + 1) s) :
      Outcome (List.replicate k none ++ [some e]) s

theorem Done.step (h : Done role n ec count s) (ec' : Option E) :
    step platform ptr s ec' = none := by
  rw [TestOp.step, h.wait]

theorem outcome_step (hptr : ptr.Transfers) (es : List (Option E)) (s : World P E) (ec : Option E)
    (s' : World P E) (h : Outcome platform ptr cont role es s)
    (hs : step platform ptr s ec = some s') : Outcome platform ptr cont role (es ++ [ec]) s' := by
  cases h with
  | @waiting k _ hk h =>
    obtain ⟨s'', hstep, hafter⟩ := after_step hptr h ec
    obtain rfl : s'' = s' := Option.some.inj (hstep.symm.trans hs)
    cases ec with
    | none =>
      rw [← List.replicate_succ']
      by_cases hk' : k + 1 < 9
      case pos =>
        simp only [After, if_pos hk'] at hafter
        exact .waiting hk' hafter
      case neg =>
        obtain rfl : k = 8 := by omega
        exact .completed hafter
    | some e => exact .failed hk hafter
  | completed h | failed hk h =>
    rw [h.step] at hs
    cases hs

end

/-- **The checks of the test pass.** Whatever the waits end with, however `v` grows and however
large the blocks are: with the role "struct" no check of the handler or of the operation fails, and
with another only the one of the role, at each invocation; and no assertion of `composed::op` fails.
While the handler has not been called a wait is under way; after `k` waits without error, `v` has
1024 times each number up to `k`. The handler is called once, when a wait has failed, with its error
and the number of waits, or after nine, with 10 and no error; by then it has been used for an
allocation, and everything allocated through it has been given back. -/
theorem checks_pass {P E : Type*} (platform : Platform) {ptr : HandlerPtr P} (hptr : ptr.Transfers)
    (cont : Bool) (role : String) :
    ∃ s₀ : World P E, start platform ptr cont role = some s₀ ∧
      ∀ es s, run (step platform ptr) s₀ es = some s →
        s.test.failures = (if role = "struct" then []
          else List.replicate (es.length + 1) "role.get() == \"struct\"") ∧
        s.op.failed = none ∧
        ((s.called = [] ∧ (∀ ec, (step platform ptr s ec).isSome) ∧
            ∃ k < 9, es = List.replicate k none ∧ s.v.contents = written k) ∨
          ((∃ handler, s.called = [handler] ∧ Returned handler) ∧
            (∀ ec, step platform ptr s ec = none) ∧
            ((es = List.replicate 9 none ∧
                s.op.completions = [[some (.errorCode none), some (.int 10)]]) ∨
              ∃ k e, k < 9 ∧ es = List.replicate k none ++ [some e] ∧
                s.op.completions = [[some (.errorCode (some e)), some (.int (k + 1))]]))) := by
  obtain ⟨s₀, hstart, hafter⟩ : ∃ s₀ : World P E, start platform ptr cont role = some s₀ ∧
      After platform ptr cont role 0 none s₀ := after_start hptr cont role
  have hwaiting : Outcome platform ptr cont role [] s₀ := .waiting (k := 0) (by decide) hafter
  refine ⟨s₀, hstart, fun es s hrun => ?_⟩
  cases run_invariant_history (outcome_step hptr) hwaiting hrun with
  | @waiting k _ hk h =>
    obtain ⟨block, -, hledger⟩ := h.wait
    refine ⟨?_, h.suspended.disciplined.failed, .inl ⟨h.called, fun ec => ?_, ?_⟩⟩
    · rw [List.length_replicate]
      exact hledger.failures
    · obtain ⟨s', hstep, -⟩ := after_step hptr h ec
      rw [hstep]
      rfl
    · exact ⟨k, hk, rfl, h.contents⟩
  | completed h =>
    exact ⟨h.failures, h.failed, .inr ⟨h.called, h.step, .inl ⟨rfl, h.completions⟩⟩⟩
  | @failed k e _ hk h =>
    refine ⟨?_, h.failed, .inr ⟨h.called, h.step, .inr ⟨k, e, hk, rfl, h.completions⟩⟩⟩
    rw [List.append_eq, List.length_append, List.length_replicate, List.length_singleton]
    exact h.failures

/-- A vector that takes what it needs, of four bytes an element. -/
def exact : Platform := ⟨64, 32, 4, fun needed _ => needed⟩

theorem checks_pass_canceled :
    ∃ s₀ s : World Bool String, start exact handlerPtr false "union" = some s₀ ∧
      run (step exact handlerPtr) s₀ [some "canceled"] = some s ∧
      s.test.failures = ["role.get() == \"struct\"", "role.get() == \"struct\""] ∧
      s.op.completions = [[some (.errorCode (some "canceled")), some (.int 1)]] := by
  obtain ⟨s₀, hstart, hruns⟩ := checks_pass (E := String) exact handlerPtr_transfers false "union"
  have hrun : (start (E := String) exact handlerPtr false "union").bind
      (fun s => run (step exact handlerPtr) s [some "canceled"]) = some _ := rfl
  rw [hstart, Option.bind_some] at hrun
  exact ⟨s₀, _, hstart, hrun, (hruns _ _ hrun).1, rfl⟩

end CxxUtil.Composed.TestOp
