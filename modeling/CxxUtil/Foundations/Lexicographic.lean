import Mathlib.Data.List.Lex

/-! # Lexicographic comparison

`lexicographicalCompare` walks two sequences and asks of each pair of elements first whether the
left one is less and then whether the right one is; when the order of the elements is trichotomous
this is `List.Lex`. For an irreflexive relation the outcome is decided at the first position at
which the two sequences differ (`lex_iff_firstDifference`). -/
namespace CxxUtil.Foundations
set_option autoImplicit false

variable {α : Type*}

def lexicographicalCompare (lt : α → α → Bool) : List α → List α → Bool
  | _, [] => false
  | [], _ :: _ => true
  | a :: as, b :: bs =>
    if lt a b then true else if lt b a then false else lexicographicalCompare lt as bs

/-- `lt` never holds between equals, and holds one way or the other between any two others. -/
structure Trichotomous (lt : α → α → Bool) : Prop where
  irrefl : ∀ a, lt a a = false
  eq_of_not : ∀ a b, lt a b = false → lt b a = false → a = b
  asymm : ∀ a b, lt a b = true → lt b a = false

theorem lexicographicalCompare_iff {lt : α → α → Bool} (h : Trichotomous lt) (as bs : List α) :
    lexicographicalCompare lt as bs = true ↔ List.Lex (fun a b => lt a b = true) as bs := by
  induction as generalizing bs with
  | nil =>
    cases bs with
    | nil => simp [lexicographicalCompare]
    | cons b bs => simp [lexicographicalCompare]
  | cons a as ih =>
    cases bs with
    | nil => simp [lexicographicalCompare]
    | cons b bs =>
      rw [List.cons_lex_cons_iff]
      cases hab : lt a b with
      | true => simp [lexicographicalCompare, hab]
      | false =>
        cases hba : lt b a with
        | true =>
          have hne : a ≠ b := by
            rintro rfl
            rw [hab] at hba
            cases hba
          simp [lexicographicalCompare, hab, hba, hne]
        | false =>
          obtain rfl := h.eq_of_not a b hab hba
          simp [lexicographicalCompare, hab, ih]

theorem lexicographicalCompare_trichotomous {lt : α → α → Bool} (h : Trichotomous lt) :
    Trichotomous (lexicographicalCompare lt) where
  irrefl as := by
    induction as with
    | nil => rfl
    | cons a as ih => simp [lexicographicalCompare, h.irrefl, ih]
  eq_of_not as := by
    induction as with
    | nil =>
      intro bs h₁ _
      cases bs with
      | nil => rfl
      | cons b bs => simp [lexicographicalCompare] at h₁
    | cons a as ih =>
      intro bs h₁ h₂
      cases bs with
      | nil => simp [lexicographicalCompare] at h₂
      | cons b bs =>
        cases hab : lt a b with
        | true => simp [lexicographicalCompare, hab] at h₁
        | false =>
          cases hba : lt b a with
          | true => simp [lexicographicalCompare, hba] at h₂
          | false =>
            simp only [lexicographicalCompare, hab, hba, Bool.false_eq_true, if_false] at h₁ h₂
            rw [h.eq_of_not a b hab hba, ih bs h₁ h₂]
  asymm as := by
    induction as with
    | nil =>
      intro bs _
      cases bs <;> rfl
    | cons a as ih =>
      intro bs h₁
      cases bs with
      | nil => simp [lexicographicalCompare] at h₁
      | cons b bs =>
        cases hab : lt a b with
        | true => simp [lexicographicalCompare, hab, h.asymm a b hab]
        | false =>
          cases hba : lt b a with
          | true => simp [lexicographicalCompare, hab, hba] at h₁
          | false =>
            simp only [lexicographicalCompare, hab, hba, Bool.false_eq_true, if_false] at h₁ ⊢
            exact ih bs h₁

theorem lex_congr {r r' : α → α → Prop} {as bs : List α}
    (h : ∀ a ∈ as, ∀ b ∈ bs, r a b ↔ r' a b) : List.Lex r as bs ↔ List.Lex r' as bs := by
  induction as generalizing bs with
  | nil => cases bs <;> simp
  | cons a as ih =>
    cases bs with
    | nil => simp
    | cons b bs =>
      rw [List.cons_lex_cons_iff, List.cons_lex_cons_iff,
        h a List.mem_cons_self b List.mem_cons_self,
        ih fun x hx y hy => h x (List.mem_cons_of_mem _ hx) y (List.mem_cons_of_mem _ hy)]

/-- A map that keeps the elements of the two sequences apart carries the order over. -/
theorem lex_map_iff {β : Type*} {r : β → β → Prop} {f : α → β} {as bs : List α}
    (hf : ∀ a ∈ as, ∀ b ∈ bs, f a = f b → a = b) :
    List.Lex r (as.map f) (bs.map f) ↔ List.Lex (fun a b => r (f a) (f b)) as bs := by
  induction as generalizing bs with
  | nil => cases bs <;> simp
  | cons a as ih =>
    cases bs with
    | nil => simp
    | cons b bs =>
      have hab : f a = f b ↔ a = b :=
        ⟨hf a List.mem_cons_self b List.mem_cons_self, congrArg f⟩
      have ih := ih fun x hx y hy => hf x (List.mem_cons_of_mem _ hx) y (List.mem_cons_of_mem _ hy)
      rw [List.map_cons, List.map_cons, List.cons_lex_cons_iff, List.cons_lex_cons_iff, hab, ih]

theorem map_inj_on {β : Type*} {f : α → β} {as bs : List α}
    (hf : ∀ a ∈ as, ∀ b ∈ bs, f a = f b → a = b) : as.map f = bs.map f ↔ as = bs := by
  refine ⟨fun h => ?_, congrArg _⟩
  induction as generalizing bs with
  | nil => exact (List.map_eq_nil_iff.mp h.symm).symm
  | cons a as ih =>
    cases bs with
    | nil => cases h
    | cons b bs =>
      rw [List.map_cons, List.map_cons, List.cons.injEq] at h
      rw [hf a List.mem_cons_self b List.mem_cons_self h.1,
        ih (fun x hx y hy => hf x (List.mem_cons_of_mem _ hx) y (List.mem_cons_of_mem _ hy)) h.2]

/-- An order that relates any two different elements relates any two different sequences. -/
theorem lex_connected {r : α → α → Prop} {as bs : List α}
    (hr : ∀ a ∈ as, ∀ b ∈ bs, a ≠ b → r a b ∨ r b a) (hne : as ≠ bs) :
    List.Lex r as bs ∨ List.Lex r bs as := by
  induction as generalizing bs with
  | nil =>
    cases bs with
    | nil => exact absurd rfl hne
    | cons b bs => exact .inl .nil
  | cons a as ih =>
    cases bs with
    | nil => exact .inr .nil
    | cons b bs =>
      by_cases hab : a = b
      · subst hab
        have hrest : as ≠ bs := fun h => hne (by rw [h])
        exact (ih (fun x hx y hy => hr x (List.mem_cons_of_mem _ hx) y (List.mem_cons_of_mem _ hy))
          hrest).imp .cons .cons
      · exact (hr a List.mem_cons_self b List.mem_cons_self hab).imp .rel .rel

/-! ## The first difference -/

/-- The elements at the first position at which both sequences have one and the two differ. -/
def firstDifference [DecidableEq α] : List α → List α → Option (α × α)
  | a :: as, b :: bs => if a = b then firstDifference as bs else some (a, b)
  | _, _ => none

theorem lex_iff_firstDifference [DecidableEq α] {r : α → α → Prop} (hr : ∀ a, ¬ r a a)
    (as bs : List α) :
    List.Lex r as bs ↔
      match firstDifference as bs with
      | some (a, b) => r a b
      | none => as.length < bs.length := by
  induction as generalizing bs with
  | nil => cases bs <;> simp [firstDifference]
  | cons a as ih =>
    cases bs with
    | nil => simp [firstDifference]
    | cons b bs =>
      rw [List.cons_lex_cons_iff]
      by_cases hab : a = b
      · subst hab
        simp [firstDifference, hr, ih]
      · simp [firstDifference, hab]

theorem firstDifference_ne [DecidableEq α] {as bs : List α} {a b : α}
    (h : firstDifference as bs = some (a, b)) : a ≠ b ∧ a ∈ as ∧ b ∈ bs := by
  induction as generalizing bs with
  | nil => simp [firstDifference] at h
  | cons x as ih =>
    cases bs with
    | nil => simp [firstDifference] at h
    | cons y bs =>
      by_cases hxy : x = y
      · obtain ⟨hne, ha, hb⟩ := ih (by simpa [firstDifference, hxy] using h)
        exact ⟨hne, List.mem_cons_of_mem _ ha, List.mem_cons_of_mem _ hb⟩
      · obtain ⟨rfl, rfl⟩ : x = a ∧ y = b := by simpa [firstDifference, hxy] using h
        exact ⟨hxy, List.mem_cons_self, List.mem_cons_self⟩

end CxxUtil.Foundations
