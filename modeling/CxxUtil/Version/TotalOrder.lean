import CxxUtil.Foundations.StrictOrders
import CxxUtil.Version.Core

/-! # The comparison operators are a strict total order

`operator<` compares the numbers first and, when these are equal, the pre-releases with an absent
one last: the ternary of the source turns `boost::optional`'s order around for absent values and
leaves it as it is for present ones. -/
namespace CxxUtil.Version
open Foundations
set_option autoImplicit false

theorem uint_linearLess : LinearLess fun m n : UInt32 => decide (m < n) where
  toTrichotomous := uint_trichotomous
  trans a b c hab hbc := by
    simp only [decide_eq_true_eq] at hab hbc ⊢
    exact UInt32.lt_trans hab hbc

theorem stringLess_linearLess : LinearLess stringLess :=
  lexicographicalCompare_linearLess
    { char_trichotomous with
      trans := fun a b c hab hbc => by
        simp only [decide_eq_true_eq] at hab hbc ⊢
        exact Char.lt_trans hab hbc }

theorem identifierLess_linearLess : LinearLess identifierLess where
  toTrichotomous := identifierLess_trichotomous
  trans a b c hab hbc := by
    cases a with
    | unsigned m =>
      cases c with
      | unsigned k =>
        cases b with
        | unsigned n => exact uint_linearLess.trans m n k hab hbc
        | text t => cases hbc
      | text u => rfl
    | text s =>
      cases b with
      | unsigned n => cases hab
      | text t =>
        cases c with
        | unsigned k => cases hbc
        | text u => exact stringLess_linearLess.trans s t u hab hbc

/-- What is compared of a version. -/
def key (v : Version) : List UInt32 × Option (List PreReleaseIdentifier) := (v.numbers, v.preRelease)

def keyLess : (a b : List UInt32 × Option (List PreReleaseIdentifier)) → Bool :=
  productLess (lexicographicalCompare fun m n => decide (m < n))
    (absentLast (lexicographicalCompare identifierLess))

theorem keyLess_linearLess : LinearLess keyLess :=
  productLess_linearLess (lexicographicalCompare_linearLess uint_linearLess)
    (absentLast_linearLess (lexicographicalCompare_linearLess identifierLess_linearLess))

theorem operatorLt_eq_keyLess : operatorLt = fun a b => keyLess (key a) (key b) := by
  funext a b
  by_cases hnum : (key a).1 = (key b).1
  · have heq : a.numbers = b.numbers := hnum
    rw [operatorLt, if_pos (by simpa using heq), keyLess, productLess, if_pos hnum]
    show _ = absentLast _ a.preRelease b.preRelease
    cases a.preRelease with
    | none => cases b.preRelease <;> rfl
    | some us =>
      cases b.preRelease with
      | none => rfl
      | some ws =>
        show (if lexicographicalCompare identifierLess us ws then true else false) = _
        cases h : lexicographicalCompare identifierLess us ws <;> simp [absentLast, h]
  · have hne : a.numbers ≠ b.numbers := hnum
    rw [operatorLt, if_neg (by simpa using hne), keyLess, productLess, if_neg hnum]
    rfl

theorem operatorEq_eq_key : operatorEq = fun a b => decide (key a = key b) := by
  funext a b
  simp [operatorEq, key, Bool.decide_and, Bool.beq_eq_decide_eq]

theorem operators_strictTotalOrder : StrictTotalOrder operatorLt operatorEq := by
  rw [operatorLt_eq_keyLess, operatorEq_eq_key]
  exact strictTotalOrder_of_key keyLess_linearLess key

/-- **Comparison of versions.** `<` and `==` are a strict total order and its equality, and the
other operators are the combinations of the two that they are read as. -/
theorem comparison_is_strict_total_order :
    StrictTotalOrder operatorLt operatorEq ∧
      ∀ a b, operatorLe a b = (operatorLt a b || operatorEq a b) ∧
        operatorLe a b = !operatorLt b a ∧
        operatorGe a b = (operatorLt b a || operatorEq a b) ∧
        operatorGe a b = !operatorLt a b ∧
        operatorGt a b = operatorLt b a ∧
        operatorNe a b = !operatorEq a b := by
  have horder := operators_strictTotalOrder
  refine ⟨horder, fun a b => ⟨rfl, horder.lt_or_eq a b, rfl, ?_, rfl, rfl⟩⟩
  have heq : operatorEq a b = operatorEq b a := by
    have hsymm := horder.eq_equivalence.symm (x := a) (y := b)
    have hsymm' := horder.eq_equivalence.symm (x := b) (y := a)
    exact Bool.eq_iff_iff.mpr ⟨hsymm, hsymm'⟩
  calc operatorGe a b
      = (operatorLt b a || operatorEq b a) := by rw [operatorGe, operatorGt, heq]
    _ = !operatorLt a b := horder.lt_or_eq b a

end CxxUtil.Version
