import CxxUtil.Foundations.Lexicographic

/-! # Building strict total orders

`LinearLess` is a trichotomous and transitive `<`. It is kept by the lexicographic order on
sequences, by the product that compares first components first, and by the order on optionals that
puts an absent value last. What compares keys of a linear order, and calls equal what has equal
keys, is a strict total order that respects its equality (`strictTotalOrder_of_key`). -/
namespace CxxUtil.Foundations
set_option autoImplicit false

variable {α β : Type*}

structure LinearLess (lt : α → α → Bool) : Prop extends Trichotomous lt where
  trans : ∀ a b c, lt a b = true → lt b c = true → lt a c = true

theorem lexicographicalCompare_linearLess {lt : α → α → Bool} (h : LinearLess lt) :
    LinearLess (lexicographicalCompare lt) where
  toTrichotomous := lexicographicalCompare_trichotomous h.toTrichotomous
  trans as bs cs := by
    simp only [lexicographicalCompare_iff h.toTrichotomous]
    exact List.lex_trans fun {a b c} => h.trans a b c

/-- The first components decide unless they are equal. -/
def productLess [DecidableEq α] (lt : α → α → Bool) (lt' : β → β → Bool) (a b : α × β) : Bool :=
  if a.1 = b.1 then lt' a.2 b.2 else lt a.1 b.1

/-- A value that is absent is greater than any that is present. -/
def absentLast (lt : α → α → Bool) : Option α → Option α → Bool
  | some a, some b => lt a b
  | some _, none => true
  | none, _ => false

theorem productLess_linearLess [DecidableEq α] {lt : α → α → Bool} {lt' : β → β → Bool}
    (h : LinearLess lt) (h' : LinearLess lt') : LinearLess (productLess lt lt') where
  irrefl a := by simpa [productLess] using h'.irrefl a.2
  eq_of_not a b hab hba := by
    by_cases heq : a.1 = b.1
    · simp only [productLess, heq, if_true] at hab hba
      exact Prod.ext heq (h'.eq_of_not _ _ hab hba)
    · simp only [productLess, heq, Ne.symm heq, if_false] at hab hba
      exact absurd (h.eq_of_not _ _ hab hba) heq
  asymm a b hab := by
    by_cases heq : a.1 = b.1
    · simp only [productLess, heq, if_true] at hab ⊢
      exact h'.asymm _ _ hab
    · simp only [productLess, heq, Ne.symm heq, if_false] at hab ⊢
      exact h.asymm _ _ hab
  trans a b c hab hbc := by
    unfold productLess at hab hbc ⊢
    by_cases h₁ : a.1 = b.1
    · by_cases h₂ : b.1 = c.1
      · rw [if_pos h₁] at hab
        rw [if_pos h₂] at hbc
        rw [if_pos (h₁.trans h₂)]
        exact h'.trans _ _ _ hab hbc
      · rw [h₁]
        rwa [if_neg h₂] at hbc ⊢
    · rw [if_neg h₁] at hab
      by_cases h₂ : b.1 = c.1
      · rwa [← h₂, if_neg h₁]
      · rw [if_neg h₂] at hbc
        have hac : a.1 ≠ c.1 := by
          -- else the first components would be below one another
          intro heq
          rw [heq, h.asymm _ _ hbc] at hab
          cases hab
        rw [if_neg hac]
        exact h.trans _ _ _ hab hbc

theorem absentLast_linearLess {lt : α → α → Bool} (h : LinearLess lt) :
    LinearLess (absentLast lt) where
  irrefl a := by
    cases a with
    | none => rfl
    | some a => exact h.irrefl a
  eq_of_not a b hab hba := by
    cases a with
    | none =>
      cases b with
      | none => rfl
      | some b => cases hba
    | some a =>
      cases b with
      | none => cases hab
      | some b => rw [h.eq_of_not a b hab hba]
  asymm a b hab := by
    cases a with
    | none => cases hab
    | some a =>
      cases b with
      | none => rfl
      | some b => exact h.asymm a b hab
  trans a b c hab hbc := by
    cases a with
    | none => cases hab
    | some a =>
      cases b with
      | none => cases hbc
      | some b =>
        cases c with
        | none => rfl
        | some c => exact h.trans a b c hab hbc

/-! ## Strict total orders with an equality of their own -/

/-- `lt` is a strict total order of the classes of `eq`. -/
structure StrictTotalOrder (lt eq : α → α → Bool) : Prop where
  exactly_one : ∀ a b, [lt a b, eq a b, lt b a].count true = 1
  trans : ∀ a b c, lt a b = true → lt b c = true → lt a c = true
  eq_equivalence : Equivalence fun a b => eq a b = true
  lt_respects : ∀ a b c, eq a b = true → lt a c = lt b c ∧ lt c a = lt c b

theorem strictTotalOrder_of_key [DecidableEq β] {less : β → β → Bool} (h : LinearLess less)
    (key : α → β) :
    StrictTotalOrder (fun a b => less (key a) (key b)) fun a b => decide (key a = key b) where
  exactly_one a b := by
    cases hab : less (key a) (key b) with
    | true =>
      have hne : key a ≠ key b := by
        intro heq
        rw [heq, h.irrefl] at hab
        cases hab
      simp [h.asymm _ _ hab, hne]
    | false =>
      cases hba : less (key b) (key a) with
      | true =>
        have hne : key a ≠ key b := by
          intro heq
          rw [heq, h.irrefl] at hba
          cases hba
        simp [hne]
      | false => simp [h.eq_of_not _ _ hab hba]
  trans a b c := h.trans _ _ _
  eq_equivalence :=
    ⟨fun a => by simp, fun hab => by simpa using (of_decide_eq_true hab).symm,
      fun hab hbc => by simpa using (of_decide_eq_true hab).trans (of_decide_eq_true hbc)⟩
  lt_respects a b c hab := by
    have heq : key a = key b := by simpa using hab
    simp [heq]

/-- In a strict total order, not to be above is to be below or equal. -/
theorem StrictTotalOrder.lt_or_eq {lt eq : α → α → Bool} (h : StrictTotalOrder lt eq) (a b : α) :
    (lt a b || eq a b) = !lt b a := by
  have hone := h.exactly_one a b
  cases hab : lt a b <;> cases heq : eq a b <;> cases hba : lt b a <;> simp_all

end CxxUtil.Foundations
