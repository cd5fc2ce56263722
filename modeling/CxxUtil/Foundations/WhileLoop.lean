import Mathlib.Data.Nat.Init
import Mathlib.Logic.Function.Iterate
import Mathlib.Tactic.ByContra

/-! # `while` loops with a measure

`whileLoop` runs a loop for as many rounds as its measure allows. When every round that runs makes
the measure smaller, that is enough: the loop has ended by its test (`whileLoop_test`), and it is
the solution of the loop equation (`whileLoop_eq`). `LoopsTo` says without a measure that a loop ends,
and where. -/
namespace CxxUtil.Foundations
set_option autoImplicit false

variable {S : Type*}

def iterWhile (test : S → Bool) (body : S → S) : ℕ → S → S
  | 0, s => s
  | n + 1, s => if test s then iterWhile test body n (body s) else s

def whileLoop (test : S → Bool) (body : S → S) (measure : S → ℕ) (s : S) : S :=
  iterWhile test body (measure s) s

/-- From `s` the loop runs some number of rounds, each because its test holds, and ends in `t`. -/
def LoopsTo (test : S → Bool) (body : S → S) (s t : S) : Prop :=
  ∃ n, (∀ m < n, test (body^[m] s) = true) ∧ test (body^[n] s) = false ∧ t = body^[n] s

section
variable {test : S → Bool} {body : S → S} {measure : S → ℕ}
  (hdec : ∀ s, test s = true → measure (body s) < measure s)
include hdec

theorem iterWhile_test {n : ℕ} {s : S} (hn : measure s ≤ n) :
    test (iterWhile test body n s) = false := by
  induction n generalizing s with
  | zero =>
    by_contra htest
    have := hdec s (by simpa [iterWhile] using htest)
    omega
  | succ n ih =>
    rw [iterWhile]
    split
    case isTrue htest =>
      have := hdec s htest
      exact ih (by omega)
    case isFalse htest => simpa using htest

theorem whileLoop_test (s : S) : test (whileLoop test body measure s) = false :=
  iterWhile_test hdec (Nat.le_refl _)

theorem iterWhile_loopsTo {n : ℕ} {s : S} (hn : measure s ≤ n) :
    LoopsTo test body s (iterWhile test body n s) := by
  induction n generalizing s with
  | zero => exact ⟨0, by simp, iterWhile_test hdec hn, rfl⟩
  | succ n ih =>
    rw [iterWhile]
    split
    case isTrue htest =>
      have hlt := hdec s htest
      obtain ⟨k, hrounds, hexit, heq⟩ := ih (s := body s) (by omega)
      refine ⟨k + 1, ?_, hexit, heq⟩
      intro m hm
      cases m with
      | zero => exact htest
      | succ m => exact hrounds m (by omega)
    case isFalse htest => exact ⟨0, by simp, by simpa using htest, rfl⟩

theorem whileLoop_loopsTo (s : S) : LoopsTo test body s (whileLoop test body measure s) :=
  iterWhile_loopsTo hdec (Nat.le_refl _)

/-- More rounds than the measure asks for change nothing. -/
theorem iterWhile_enough {n m : ℕ} {s : S} (hn : measure s ≤ n) (hm : measure s ≤ m) :
    iterWhile test body n s = iterWhile test body m s := by
  induction n generalizing s m with
  | zero =>
    have htest : test s = false := by
      by_contra h
      have := hdec s (by simpa using h)
      omega
    cases m <;> simp [iterWhile, htest]
  | succ n ih =>
    cases htest : test s with
    | false => cases m <;> simp [iterWhile, htest]
    | true =>
      have hlt := hdec s htest
      obtain ⟨m, rfl⟩ : ∃ k, m = k + 1 := ⟨m - 1, by omega⟩
      simp only [iterWhile, htest, if_true]
      exact ih (by omega) (by omega)

theorem whileLoop_eq (s : S) : whileLoop test body measure s =
    if test s then whileLoop test body measure (body s) else s := by
  split
  case isTrue htest =>
    have hlt := hdec s htest
    calc whileLoop test body measure s
        = iterWhile test body (measure s + 1) s :=
          iterWhile_enough hdec (Nat.le_refl _) (Nat.le_succ _)
      _ = iterWhile test body (measure s) (body s) := by simp [iterWhile, htest]
      _ = whileLoop test body measure (body s) :=
          iterWhile_enough hdec (Nat.le_of_lt hlt) (Nat.le_refl _)
  case isFalse htest =>
    unfold whileLoop
    cases measure s <;> simp [iterWhile, htest]

end

/-- What every round preserves, the loop preserves. -/
theorem whileLoop_invariant {test : S → Bool} {body : S → S} {Inv : S → Prop}
    (hbody : ∀ s, Inv s → test s = true → Inv (body s)) (measure : S → ℕ) {s : S} (hs : Inv s) :
    Inv (whileLoop test body measure s) := by
  unfold whileLoop
  generalize measure s = n
  induction n generalizing s with
  | zero => exact hs
  | succ n ih =>
    rw [iterWhile]
    split
    case isTrue htest => exact ih (hbody s hs htest)
    case isFalse => exact hs

end CxxUtil.Foundations
