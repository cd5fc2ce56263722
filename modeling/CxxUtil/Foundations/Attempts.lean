import Mathlib.Data.Nat.Notation
import Mathlib.Data.List.Basic

/-! # Attempts up to a limit

The outcomes of attempts are a sequence, `none` for success. Who stops at the first success, and
after `m` attempts at the latest, makes `firstSuccess` of them (`StopsAfter.eq_firstSuccess`), and
the last outcome tells whether all `m` have failed (`StopsAfter.allFail_iff`). -/
namespace CxxUtil.Foundations
set_option autoImplicit false

variable {E : Type*}

def AllFail (outcome : ℕ → Option E) (m : ℕ) : Prop := ∀ i < m, outcome i ≠ none

instance (outcome : ℕ → Option E) (m : ℕ) : Decidable (AllFail outcome m) :=
  inferInstanceAs (Decidable (∀ i < m, ¬ outcome i = none))

/-- The first attempt that succeeds, counted from 1; `m` when the first `m` all fail. -/
def firstSuccess (outcome : ℕ → Option E) (m : ℕ) : ℕ :=
  match (List.range m).find? fun i => (outcome i).isNone with
  | some i => i + 1
  | none => m

/-- `n` is where attempts that are repeated until one succeeds, `m` times at most, stop. -/
structure StopsAfter (outcome : ℕ → Option E) (m n : ℕ) : Prop where
  pos : 0 < n
  le : n ≤ m
  failed : AllFail outcome (n - 1)
  last : n = m ∨ outcome (n - 1) = none

section
variable {outcome : ℕ → Option E} {m n : ℕ}

theorem allFail_zero : AllFail outcome 0 := fun _ hi => absurd hi (Nat.not_lt_zero _)

theorem AllFail.snoc (h : AllFail outcome n) (hn : outcome n ≠ none) : AllFail outcome (n + 1) := by
  intro i hi
  rcases Nat.lt_succ_iff_lt_or_eq.mp hi with hlt | rfl
  · exact h i hlt
  · exact hn

theorem firstSuccess_of_allFail (h : AllFail outcome m) : firstSuccess outcome m = m := by
  have hnone : (List.range m).find? (fun i => (outcome i).isNone) = none := by
    rw [List.find?_range_eq_none]
    intro i hi
    simpa [Option.isSome_iff_ne_none] using h i hi
  rw [firstSuccess, hnone]

theorem firstSuccess_of_success (h : AllFail outcome n) (hn : outcome n = none) (hlt : n < m) :
    firstSuccess outcome m = n + 1 := by
  have hsome : (List.range m).find? (fun i => (outcome i).isNone) = some n := by
    rw [List.find?_range_eq_some]
    refine ⟨by simp [hn], List.mem_range.mpr hlt, ?_⟩
    intro i hi
    simpa [Option.isSome_iff_ne_none] using h i hi
  rw [firstSuccess, hsome]

theorem StopsAfter.eq_firstSuccess (h : StopsAfter outcome m n) :
    n = firstSuccess outcome m := by
  have hpos := h.pos
  have hle := h.le
  by_cases hlast : outcome (n - 1) = none
  · rw [firstSuccess_of_success h.failed hlast (by omega)]
    omega
  · have hall := h.failed.snoc hlast
    obtain rfl : n = m := h.last.resolve_right hlast
    rw [Nat.sub_add_cancel hpos] at hall
    exact (firstSuccess_of_allFail hall).symm

/-- The last attempt made fails only when all that are allowed have failed. -/
theorem StopsAfter.allFail_iff (h : StopsAfter outcome m n) :
    AllFail outcome m ↔ outcome (n - 1) ≠ none := by
  have hpos := h.pos
  have hle := h.le
  constructor
  · exact fun hall => hall (n - 1) (by omega)
  · intro hlast
    obtain rfl : n = m := h.last.resolve_right hlast
    have hall := h.failed.snoc hlast
    rwa [Nat.sub_add_cancel hpos] at hall

theorem StopsAfter.eq_limit (h : StopsAfter outcome m n) (hall : AllFail outcome m) : n = m :=
  h.last.resolve_right (h.allFail_iff.mp hall)

end

/-- In a list that has an element with a property there is a first one. -/
theorem exists_first {α : Type*} {p : α → Prop} [DecidablePred p] {l : List α}
    (h : ∃ a ∈ l, p a) :
    ∃ before a after, l = before ++ a :: after ∧ p a ∧ ∀ b ∈ before, ¬ p b := by
  obtain ⟨a, hmem, ha⟩ := h
  obtain ⟨b, before, after, hbefore, hb, heq, -⟩ :=
    List.exists_of_eraseP (p := fun a => decide (p a)) hmem (by simpa using ha)
  exact ⟨before, b, after, heq, by simpa using hb, fun c hc => by simpa using hbefore c hc⟩

end CxxUtil.Foundations
