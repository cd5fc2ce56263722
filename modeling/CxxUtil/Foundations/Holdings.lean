import Mathlib.Logic.Function.Basic
import CxxUtil.Foundations.EventLoop

/-! # Numbers held under names

Numbers are given out in order, each to a name that holds none, and taken back. As long as nothing
else is done, a number given out is held under one name or has been taken back once (`Holdings`);
when no name holds one any more, all have been taken back (`Holdings.issuedOnce`). -/
namespace CxxUtil.Foundations
set_option autoImplicit false

variable {N : Type*}

structure Holdings (held : N → Option ℕ) (given : ℕ) (taken : List ℕ) : Prop where
  once : taken.Nodup
  lt_iff : ∀ k, k < given ↔ k ∈ taken ∨ ∃ n, held n = some k
  not_taken : ∀ n k, held n = some k → k ∉ taken
  injective : ∀ m n k, held m = some k → held n = some k → m = n

namespace Holdings

theorem empty : Holdings (fun _ : N => none) 0 [] where
  once := List.nodup_nil
  lt_iff k := by simp
  not_taken n k hn := by cases hn
  injective m n k hm := by cases hm

variable {held : N → Option ℕ} {given : ℕ} {taken : List ℕ}

theorem issuedOnce (h : Holdings held given taken) (hnone : ∀ n, held n = none) :
    IssuedOnce given taken := by
  have hmem (k : ℕ) : k ∈ taken ↔ k ∈ List.range given := by
    rw [List.mem_range, h.lt_iff k]
    refine ⟨.inl, fun hk => hk.resolve_right ?_⟩
    rintro ⟨n, hn⟩
    rw [hnone n] at hn
    cases hn
  exact (List.perm_ext_iff_of_nodup h.once List.nodup_range).mpr hmem

section
variable [DecidableEq N] {n : N}

theorem give (h : Holdings held given taken) (hn : held n = none) :
    Holdings (Function.update held n (some given)) (given + 1) taken := by
  have hlt (m : N) (k : ℕ) (hm : held m = some k) : k < given := (h.lt_iff k).mpr (.inr ⟨m, hm⟩)
  constructor
  case once => exact h.once
  case lt_iff =>
    intro k
    rw [Nat.lt_succ_iff_lt_or_eq, h.lt_iff k, or_assoc]
    refine or_congr_right ⟨?_, ?_⟩
    · rintro (⟨m, hm⟩ | rfl)
      · have hne : m ≠ n := by
          rintro rfl
          rw [hn] at hm
          cases hm
        exact ⟨m, by rwa [Function.update_of_ne hne]⟩
      · exact ⟨n, Function.update_self n _ held⟩
    · rintro ⟨m, hm⟩
      rw [Function.update_apply] at hm
      split at hm
      case isTrue => exact .inr (Option.some.inj hm).symm
      case isFalse => exact .inl ⟨m, hm⟩
  case not_taken =>
    intro m k hm
    rw [Function.update_apply] at hm
    split at hm
    case isTrue =>
      obtain rfl := Option.some.inj hm
      exact fun hmem => Nat.lt_irrefl given ((h.lt_iff given).mpr (.inl hmem))
    case isFalse => exact h.not_taken m k hm
  case injective =>
    intro l m k hl hm
    rw [Function.update_apply] at hl hm
    split at hl <;> split at hm
    case isTrue.isTrue hln hmn => rw [hln, hmn]
    case isTrue.isFalse =>
      obtain rfl := Option.some.inj hl
      exact absurd (hlt m given hm) (Nat.lt_irrefl given)
    case isFalse.isTrue =>
      obtain rfl := Option.some.inj hm
      exact absurd (hlt l given hl) (Nat.lt_irrefl given)
    case isFalse.isFalse => exact h.injective l m k hl hm

theorem take (h : Holdings held given taken) {j : ℕ} (hj : held n = some j) :
    Holdings (Function.update held n none) given (taken ++ [j]) := by
  have hheld (m : N) (k : ℕ) (hm : Function.update held n none m = some k) :
      m ≠ n ∧ held m = some k := by
    rw [Function.update_apply] at hm
    split at hm
    case isTrue => cases hm
    case isFalse hne => exact ⟨hne, hm⟩
  constructor
  case once =>
    rw [List.nodup_append]
    refine ⟨h.once, List.nodup_singleton j, ?_⟩
    intro a ha b hb hab
    rw [hab, List.mem_singleton.mp hb] at ha
    exact h.not_taken n j hj ha
  case lt_iff =>
    intro k
    rw [h.lt_iff k, List.mem_append, List.mem_singleton, or_assoc]
    refine or_congr_right ⟨?_, ?_⟩
    · rintro ⟨m, hm⟩
      by_cases hne : m = n
      · subst hne
        exact .inl (Option.some.inj (hm.symm.trans hj))
      · exact .inr ⟨m, by rwa [Function.update_of_ne hne]⟩
    · rintro (rfl | ⟨m, hm⟩)
      · exact ⟨n, hj⟩
      · exact ⟨m, (hheld m k hm).2⟩
  case not_taken =>
    intro m k hm
    obtain ⟨hne, hm⟩ := hheld m k hm
    rw [List.mem_append, List.mem_singleton]
    rintro (hmem | rfl)
    · exact h.not_taken m k hm hmem
    · exact hne (h.injective m n k hm hj)
  case injective =>
    exact fun l m k hl hm => h.injective l m k (hheld l k hl).2 (hheld m k hm).2

end
end Holdings
end CxxUtil.Foundations
