import Mathlib.Data.List.Nodup

/-! # `test_handler`

The handler of `tests/op.cpp`, which keeps a table of what is allocated through its hooks. The
pointers that the default implementation returns are numbered. A `CHECK` that fails is noted, and so
is a `REQUIRE`, of which the exception is left out. -/
namespace CxxUtil.Composed.Test
set_option autoImplicit false

/-- `role` is the attribute "Role" that the constructor gives to the logger. -/
structure TestHandler where
  cont : Bool
  role : String
  allocations : ℕ
  deallocations : ℕ
  allocationTable : List (ℕ × ℕ)

/-- The handler, and the checks that have failed. -/
structure TestCase where
  handler : TestHandler
  failures : List String

def testHandler (cont : Bool) (role : String) : TestCase := ⟨⟨cont, role, 0, 0, []⟩, []⟩

def check (expr : Bool) (text : String) (t : TestCase) : TestCase :=
  if expr then t else { t with failures := t.failures ++ [text] }

def find (pointer : ℕ) (h : TestHandler) : Option (ℕ × ℕ) :=
  h.allocationTable.find? fun entry => entry.1 == pointer

/-- `asio_handler_allocate`, with the pointer that it returns. -/
def allocate (size : ℕ) (t : TestCase) : ℕ × TestCase :=
  let p := t.handler.allocations
  let inserted := (find p t.handler).isNone
  let table := t.handler.allocationTable
  let table := if inserted then table ++ [(p, size)] else table
  let t := check inserted "inserted" t
  (p, { t with handler := { t.handler with
    allocationTable := table
    allocations := t.handler.allocations + 1 } })

/-- `asio_handler_deallocate`. -/
def deallocate (pointer size : ℕ) (t : TestCase) : TestCase :=
  match find pointer t.handler with
  | none => check false "it != self->allocation_table.end()" t
  | some it =>
    let t := check (size == it.2) "size == it->second" t
    { t with handler := { t.handler with
      allocationTable := t.handler.allocationTable.filter fun entry => entry.1 != it.1
      deallocations := t.handler.deallocations + 1 } }

/-- `operator()`, which has no effect but its checks. -/
def call (t : TestCase) : TestCase :=
  let h := t.handler
  check (h.deallocations == h.allocations) "deallocations == allocations"
    (check h.allocationTable.isEmpty "allocation_table.empty()"
      (check (decide (0 < h.allocations)) "allocations > 0" t))

/-! ## What is held -/

/-- The blocks that are allocated are `held`, and no check has failed but those in `failures`. -/
structure Ledger (role : String) (failures : List String) (held : List (ℕ × ℕ)) (t : TestCase) :
    Prop where
  role : t.handler.role = role
  table : t.handler.allocationTable.Perm held
  keys : (held.map Prod.fst).Nodup
  fresh : ∀ b ∈ held, b.1 < t.handler.allocations
  balance : t.handler.deallocations + held.length = t.handler.allocations
  failures : t.failures = failures

section
variable {role : String} {failures : List String}
variable {held rest : List (ℕ × ℕ)} {t : TestCase} {b size : ℕ}

theorem ledger_testHandler (cont : Bool) (role : String) :
    Ledger role [] [] (testHandler cont role) :=
  ⟨rfl, .refl [], List.nodup_nil, nofun, rfl, rfl⟩

theorem Ledger.perm (h : Ledger role failures held t) (hperm : held.Perm rest) :
    Ledger role failures rest t where
  role := h.role
  table := h.table.trans hperm
  keys := (hperm.map Prod.fst).nodup_iff.mp h.keys
  fresh b hb := h.fresh b (hperm.mem_iff.mpr hb)
  balance := hperm.length_eq ▸ h.balance
  failures := h.failures

theorem Ledger.find_fresh (h : Ledger role failures held t) :
    find t.handler.allocations t.handler = none := by
  refine List.find?_eq_none.mpr fun entry hentry => ?_
  have hlt := h.fresh entry (h.table.mem_iff.mp hentry)
  simpa using Nat.ne_of_lt hlt

theorem Ledger.find_held (h : Ledger role failures ((b, size) :: rest) t) :
    find b t.handler = some (b, size) := by
  have hmem : (b, size) ∈ t.handler.allocationTable := h.table.mem_iff.mpr List.mem_cons_self
  have hsome : (find b t.handler).isSome :=
    List.find?_isSome.mpr ⟨(b, size), hmem, beq_self_eq_true b⟩
  obtain ⟨entry, hfind⟩ := Option.isSome_iff_exists.mp hsome
  have hkey : entry.1 = b := by simpa using List.find?_some hfind
  have hentry := h.table.mem_iff.mp (List.mem_of_find?_eq_some hfind)
  rw [hfind, List.inj_on_of_nodup_map h.keys hentry List.mem_cons_self hkey]

theorem Ledger.allocate (h : Ledger role failures held t) (size : ℕ) :
    Ledger role failures ((t.handler.allocations, size) :: held) (allocate size t).2 := by
  unfold Test.allocate
  simp only [h.find_fresh, Option.isNone_none, check, if_true]
  refine ⟨h.role, ?_, List.nodup_cons.mpr ⟨fun hmem => ?_, h.keys⟩, fun b hb => ?_, ?_, h.failures⟩
  · exact (List.perm_append_singleton _ _).trans (h.table.cons _)
  · obtain ⟨b, hb, hkey⟩ := List.mem_map.mp hmem
    exact absurd hkey (Nat.ne_of_lt (h.fresh b hb))
  · cases List.mem_cons.mp hb with
    | inl heq =>
      rw [heq]
      exact Nat.lt_succ_self _
    | inr hmem => exact Nat.lt_succ_of_lt (h.fresh b hmem)
  · rw [List.length_cons, ← Nat.add_assoc, h.balance]

theorem Ledger.deallocate (h : Ledger role failures ((b, size) :: rest) t) :
    Ledger role failures rest (deallocate b size t) := by
  have hkeys : b ∉ rest.map Prod.fst ∧ (rest.map Prod.fst).Nodup := List.nodup_cons.mp h.keys
  have hrest : rest.filter (fun entry => entry.1 != b) = rest := by
    refine List.filter_eq_self.mpr fun entry hentry => ?_
    have hne : entry.1 ≠ b := fun heq => hkeys.1 (List.mem_map.mpr ⟨entry, hentry, heq⟩)
    simpa using hne
  have htable := h.table.filter fun entry => entry.1 != b
  rw [List.filter_cons_of_neg (by simp), hrest] at htable
  have hbalance := h.balance
  rw [List.length_cons] at hbalance
  unfold Test.deallocate
  simp only [h.find_held, check, beq_self_eq_true, if_true]
  refine ⟨h.role, htable, hkeys.2, fun b hb => h.fresh b (List.mem_cons_of_mem _ hb), ?_,
    h.failures⟩
  show t.handler.deallocations + 1 + rest.length = t.handler.allocations
  omega

/-- There was an allocation, and everything has been given back. -/
structure Returned (h : TestHandler) : Prop where
  table : h.allocationTable = []
  allocations : 0 < h.allocations
  deallocations : h.deallocations = h.allocations

/-- The last block is deallocated. -/
theorem Ledger.returned (h : Ledger role failures [(b, size)] t) :
    Returned (Test.deallocate b size t).handler := by
  have hrest := h.deallocate
  have hpos : 0 < (Test.deallocate b size t).handler.allocations := by
    have hlt := h.fresh _ List.mem_cons_self
    simp only [Test.deallocate, h.find_held, check, beq_self_eq_true, if_true]
    omega
  exact ⟨hrest.table.eq_nil, hpos, hrest.balance⟩

/-- A check of the test fails or passes. -/
theorem Ledger.check (h : Ledger role failures held t) (expr : Bool) (text : String) :
    Ledger role (if expr then failures else failures ++ [text]) held (check expr text t) := by
  cases expr with
  | true => exact h
  | false => exact ⟨h.role, h.table, h.keys, h.fresh, h.balance, congrArg (· ++ [text]) h.failures⟩

/-- The checks of the handler hold. -/
theorem Returned.call (h : Returned t.handler) : call t = t := by
  simp [Test.call, check, h.table, h.allocations, h.deallocations]

end
end CxxUtil.Composed.Test
