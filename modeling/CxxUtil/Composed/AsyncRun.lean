import Mathlib.Data.Finset.Card
import Mathlib.Data.Nat.Log
import Mathlib.Order.Interval.Finset.Nat

/-! # `async_run` and index sequences

`include/util/index_sequence.hpp`, its copy in `include/composed/stdlib.hpp`, and what is made of
it: `applyTuple`, `apply` and the initiating function `async_run` of `include/composed/op.hpp`. A
tuple is a list of its elements, whatever their types are, and a type argument of a task is a
signature or any other type. -/
namespace CxxUtil.Composed.AsyncRun
set_option autoImplicit false

/-! ## Index sequences -/

def mergeAndRenumber (i1 i2 : List ℕ) : List ℕ := i1 ++ i2.map fun i => i1.length + i

def makeIndexSequence (n : ℕ) : List ℕ :=
  if n = 0 then []
  else if n = 1 then [0]
  else mergeAndRenumber (makeIndexSequence (n / 2)) (makeIndexSequence (n - n / 2))

theorem mergeAndRenumber_range (m n : ℕ) :
    mergeAndRenumber (List.range m) (List.range n) = List.range (m + n) := by
  rw [mergeAndRenumber, List.length_range, List.range_add]

theorem makeIndexSequence_eq (n : ℕ) : makeIndexSequence n = List.range n := by
  induction n using makeIndexSequence.induct with
  | case1 => rw [makeIndexSequence]; rfl
  | case2 => rw [makeIndexSequence]; rfl
  | case3 n hzero hone ihleft ihright =>
    have hsum : n / 2 + (n - n / 2) = n := by omega
    rw [makeIndexSequence, if_neg hzero, if_neg hone, ihleft, ihright, mergeAndRenumber_range, hsum]

/-- The arguments with which an instantiation instantiates the template again. -/
def instantiates (n : ℕ) : List ℕ := if n < 2 then [] else [n / 2, n - n / 2]

/-- The arguments of the instantiations that are `k` deep. -/
def level (n : ℕ) : ℕ → List ℕ
  | 0 => [n]
  | k + 1 => (level n k).flatMap instantiates

theorem mem_instantiates {m n : ℕ} (h : m ∈ instantiates n) :
    2 ≤ n ∧ (m = n / 2 ∨ m = (n + 1) / 2) := by
  unfold instantiates at h
  split at h
  case isTrue => cases h
  case isFalse hn =>
    simp only [List.mem_cons, List.not_mem_nil, or_false] at h
    omega

/-- At each depth the argument is halved, and rounded down or up. -/
theorem mem_level {n k m : ℕ} (h : m ∈ level n k) :
    n / 2 ^ k ≤ m ∧ m ≤ (n + (2 ^ k - 1)) / 2 ^ k := by
  induction k generalizing m with
  | zero =>
    obtain rfl := List.mem_singleton.mp h
    simp
  | succ k ih =>
    obtain ⟨p, hp, hm⟩ := List.mem_flatMap.mp h
    obtain ⟨hlow, hhigh⟩ := ih hp
    obtain ⟨-, hm⟩ := mem_instantiates hm
    have hpos : 0 < 2 ^ k := Nat.two_pow_pos k
    have hdown : n / 2 ^ (k + 1) = n / 2 ^ k / 2 := by rw [Nat.pow_succ, Nat.div_div_eq_div_mul]
    have hup : (n + (2 ^ (k + 1) - 1)) / 2 ^ (k + 1) = ((n + (2 ^ k - 1)) / 2 ^ k + 1) / 2 := by
      have hsum : n + (2 ^ (k + 1) - 1) = n + (2 ^ k - 1) + 1 * 2 ^ k := by
        rw [Nat.pow_succ]
        omega
      rw [hsum, Nat.pow_succ, ← Nat.div_div_eq_div_mul, Nat.add_mul_div_right _ _ hpos]
    rw [hdown, hup]
    omega

theorem level_eq_nil {n k : ℕ} (hk : Nat.clog 2 n < k) : level n k = [] := by
  cases k with
  | zero => cases hk
  | succ k =>
    apply List.eq_nil_iff_forall_not_mem.mpr
    intro m hm
    obtain ⟨p, hp, hm⟩ := List.mem_flatMap.mp hm
    have hbig := (mem_instantiates hm).1
    have hle := (mem_level hp).2
    have hn : n ≤ 2 ^ k := (Nat.clog_le_iff_le_pow (by decide)).mp (Nat.le_of_lt_succ hk)
    have hpos : 0 < 2 ^ k := Nat.two_pow_pos k
    have hone : (n + (2 ^ k - 1)) / 2 ^ k < 2 := by
      rw [Nat.div_lt_iff_lt_mul hpos]
      omega
    omega

/-- **Index sequences count, at a logarithmic cost.** The sequence of `n` indices is 0, 1, …, n - 1.
At each depth the recursion instantiates the template with two arguments at most, and no deeper than
the logarithm of `n`. -/
theorem index_sequence_counts (n k : ℕ) :
    makeIndexSequence n = List.range n ∧ (level n k).toFinset.card ≤ 2 ∧
      (Nat.clog 2 n < k → level n k = []) := by
  refine ⟨makeIndexSequence_eq n, ?_, level_eq_nil⟩
  have hsub : (level n k).toFinset ⊆ Finset.Icc (n / 2 ^ k) (n / 2 ^ k + 1) := by
    intro m hm
    obtain ⟨hlow, hhigh⟩ := mem_level (List.mem_toFinset.mp hm)
    have hpos : 0 < 2 ^ k := Nat.two_pow_pos k
    have hup : (n + (2 ^ k - 1)) / 2 ^ k ≤ (n + 1 * 2 ^ k) / 2 ^ k :=
      Nat.div_le_div_right (by omega)
    rw [Nat.add_mul_div_right _ _ hpos] at hup
    exact Finset.mem_Icc.mpr ⟨hlow, hhigh.trans hup⟩
  have hcard := Finset.card_le_card hsub
  rw [Nat.card_Icc] at hcard
  omega

/-! ## Tuples -/

variable {A B : Type*}

/-- `std::get<Indices>(t)...`. An index is below the size of the tuple, or the program is
ill-formed. -/
def elements (t : List A) (indices : List ℕ) : List A := indices.filterMap fun i => t[i]?

def applyTuple (f : List A → B) (t : List A) : B := f (elements t (makeIndexSequence t.length))

theorem elements_range (t : List A) {n : ℕ} (hn : n ≤ t.length) :
    elements t (List.range n) = t.take n := by
  induction n with
  | zero => simp [elements]
  | succ n ih =>
    have hlt : n < t.length := hn
    have hlast : elements t [n] = [t[n]] := by
      rw [elements, List.filterMap_cons_some (List.getElem?_eq_getElem hlt), List.filterMap_nil]
    rw [List.range_succ, elements, List.filterMap_append, ← elements, ← elements,
      ih (Nat.le_of_succ_le hn), hlast, List.take_append_getElem hlt]

theorem applyTuple_eq (f : List A → B) (t : List A) : applyTuple f t = f t := by
  rw [applyTuple, makeIndexSequence_eq, elements_range t (Nat.le_refl _), List.take_length]

/-! ## `async_run` -/

inductive TypeArg (Ty : Type*)
  | signature (params : List Ty)
  | other (t : Ty)

section
variable {Ty H : Type*}

/-- `handlerType` is `boost::asio::handler_type` for the token. -/
def rewriteType (handlerType : List Ty → Ty) : TypeArg Ty → TypeArg Ty
  | .signature params => .other (handlerType params)
  | .other t => .other t

def transformTaskImpl (handlerType : List Ty → Ty) :
    List (TypeArg Ty) → List (TypeArg Ty) → List (TypeArg Ty)
  | [], rewritten => rewritten
  | t :: ts, rewritten =>
    transformTaskImpl handlerType ts (rewritten ++ [rewriteType handlerType t])

def transformTask (handlerType : List Ty → Ty) (task : List (TypeArg Ty)) : List (TypeArg Ty) :=
  transformTaskImpl handlerType task []

/-- There is an argument at least, and the last one is the token. -/
def asyncRun (handlerType : A → List Ty → Ty) (makeHandler : A → H)
    (startOp : List (TypeArg Ty) → H → List A → B) (task : List (TypeArg Ty)) (args : List A) :
    Option B :=
  args[args.length - 1]?.map fun token =>
    startOp (transformTask (handlerType token) task) (makeHandler token)
      (elements args (makeIndexSequence (args.length - 1)))

theorem transformTaskImpl_eq (handlerType : List Ty → Ty) (task rewritten : List (TypeArg Ty)) :
    transformTaskImpl handlerType task rewritten =
      rewritten ++ task.map (rewriteType handlerType) := by
  induction task generalizing rewritten with
  | nil => rw [transformTaskImpl, List.map_nil, List.append_nil]
  | cons t ts ih =>
    rw [transformTaskImpl, ih, List.map_cons, List.append_assoc, List.singleton_append]

/-- The task is started with the arguments before the token, and with every signature among its type
arguments replaced by the type of the token's handler. -/
theorem asyncRun_starts (handlerType : A → List Ty → Ty) (makeHandler : A → H)
    (startOp : List (TypeArg Ty) → H → List A → B) (task : List (TypeArg Ty)) (args : List A)
    (token : A) :
    asyncRun handlerType makeHandler startOp task (args ++ [token]) =
      some (startOp (task.map (rewriteType (handlerType token))) (makeHandler token) args) := by
  have hlen : (args ++ [token]).length - 1 = args.length := by simp
  have hle : args.length ≤ (args ++ [token]).length := by simp
  rw [asyncRun, hlen, List.getElem?_concat_length, makeIndexSequence_eq, elements_range _ hle,
    List.take_left, Option.map_some, transformTask, transformTaskImpl_eq, List.nil_append]

end
end CxxUtil.Composed.AsyncRun
