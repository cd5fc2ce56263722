import CxxUtil.Variants.Swap

/-! # Visitors for unbounded types

`swap` applies `MoveTo` to both its operands, and a Variant under construction has no type yet:
every move construction runs into the assertion of the fallback `apply`, and nothing else does as
long as there are none. -/
namespace CxxUtil.Variants
open Foundations
set_option autoImplicit false

variable {Ty Tag V : Type*}

/-- A move construction: of a client's Variant, or of the parameter of an assignment. -/
def Action.MoveConstructs : Action Ty V → Prop
  | .moveConstruct _ _ => True
  | .assignVariant _ _ => True
  | _ => False

/-- No assertion has failed, and every Variant holds a value. -/
structure NeverVoid (ts : Types Ty Tag V) (s : World Ty Tag V) : Prop where
  tagged : AllTagged ts s
  asserted : s.asserted = false
  full : ∀ n, s.live n = true → (s.variants n).mDtor.isSome = true

section
variable {ts : Types Ty Tag V} {s : World Ty Tag V}

theorem NeverVoid.convert (h : NeverVoid ts s) (n : Name) {U : Ty} (hU : U ∈ ts.bounded) (x : V) :
    NeverVoid ts (convert ts n U x s) := by
  refine ⟨h.tagged.convert n hU x, ?_, ?_⟩
  · rw [convert_asserted]
    exact h.asserted
  · intro m hm
    rw [convert_live] at hm
    rw [convert_variants]
    by_cases hn : m = n
    · simp [hn]
    · rw [Function.update_of_ne hn] at hm ⊢
      exact h.full m hm

theorem NeverVoid.destroy (h : NeverVoid ts s) (n : Name) : NeverVoid ts (s.destroy n) := by
  refine ⟨h.tagged.destroy n, ?_, ?_⟩
  · rw [destroy_asserted]
    exact h.asserted
  · intro m hm
    rw [destroy_live] at hm
    rw [destroy_variants]
    by_cases hn : m = n
    · simp [hn] at hm
    · rw [Function.update_of_ne hn] at hm ⊢
      exact h.full m hm

theorem neverVoid_init (ts : Types Ty Tag V) : NeverVoid ts init :=
  ⟨fun _ => tagged_void, rfl, fun _ h => by cases h⟩

section
variable [DecidableEq Tag]

theorem NeverVoid.swap (h : NeverVoid ts s) {lhs rhs : Name} (hl : lhs ≠ .tmp) (hr : rhs ≠ .tmp)
    (hlhs : s.live lhs = true) (hrhs : s.live rhs = true) : NeverVoid ts (swap ts lhs rhs s) := by
  have hswapped := h.tagged.swapped hl hr
  have hfull := h.full lhs hlhs
  have hfull' := h.full rhs hrhs
  refine ⟨h.tagged.swap hl hr, ?_, ?_⟩
  · rw [hswapped.asserted, h.asserted, ← Option.not_isSome, ← Option.not_isSome, hfull, hfull']
    rfl
  · intro n hn
    rw [hswapped.live] at hn
    by_cases htmp : n = .tmp
    · simp [htmp] at hn
    · rw [Function.update_of_ne htmp] at hn
      by_cases hnl : n = lhs
      · rw [hnl, hswapped.left.1]
        exact hfull'
      · by_cases hnr : n = rhs
        · rw [hnr, hswapped.right.1]
          exact hfull
        · rw [hswapped.others n hnl hnr htmp]
          exact h.full n hn

theorem neverVoid_step [DecidableEq Ty] (s : World Ty Tag V) (act : Action Ty V)
    (s' : World Ty Tag V) (h : NeverVoid ts s) (hact : ¬ act.MoveConstructs) (hs : step ts s act = some s') :
    NeverVoid ts s' := by
  cases step_effect ts hs with
  | convert hn hU => exact h.convert _ hU _
  | moveConstruct hn hsource => exact absurd trivial hact
  | assignValue hn hU =>
    refine ((h.convert .other hU _).swap (by simp) (by simp) ?_ ?_).destroy _
    · simpa using hn
    · simp
  | assignVariant hn hsource => exact absurd trivial hact
  | swap hlhs hrhs => exact h.swap (by simp) (by simp) hlhs hrhs
  | destroy hn => exact h.destroy _

/-! ## Once the assertion has been reached -/

theorem asserted_swap (h : AllTagged ts s ∧ s.asserted = true) {lhs rhs : Name} (hl : lhs ≠ .tmp)
    (hr : rhs ≠ .tmp) : AllTagged ts (swap ts lhs rhs s) ∧ (swap ts lhs rhs s).asserted = true := by
  refine ⟨h.1.swap hl hr, ?_⟩
  rw [(h.1.swapped hl hr).asserted, h.2]
  rfl

theorem asserted_step [DecidableEq Ty] (s : World Ty Tag V) (act : Action Ty V)
    (s' : World Ty Tag V) (h : AllTagged ts s ∧ s.asserted = true) (hs : step ts s act = some s') :
    AllTagged ts s' ∧ s'.asserted = true := by
  refine step_preserves ts (P := fun s => AllTagged ts s ∧ s.asserted = true) ?_ ?_ ?_ ?_
    s act s' h hs
  · exact fun s n h => ⟨h.1.make n, h.2⟩
  · exact fun s n U x hU h => ⟨h.1.convert n hU x, by simpa using h.2⟩
  · exact fun s lhs rhs hl hr h => asserted_swap h hl hr
  · exact fun s n h => ⟨h.1.destroy n, by simpa using h.2⟩

/-- A Variant under construction has no type to apply `MoveTo` to. -/
theorem asserted_moveConstruct (h : AllTagged ts s) {n source : Name} (hn : n ≠ .tmp)
    (hsource : source ≠ .tmp) :
    AllTagged ts (moveConstruct ts n source s) ∧ (moveConstruct ts n source s).asserted = true := by
  have hmake := h.make n
  refine ⟨hmake.swap hn hsource, ?_⟩
  rw [moveConstruct, (hmake.swapped hn hsource).asserted]
  simp [World.make]

theorem asserted_start [DecidableEq Ty] (s : World Ty Tag V) (act : Action Ty V)
    (s' : World Ty Tag V) (h : AllTagged ts s) (hact : act.MoveConstructs)
    (hs : step ts s act = some s') : AllTagged ts s' ∧ s'.asserted = true := by
  cases step_effect ts hs with
  | convert hn hU => exact hact.elim
  | moveConstruct hn hsource => exact asserted_moveConstruct h (by simp) (by simp)
  | assignValue hn hU => exact hact.elim
  | @assignVariant n source hn hsource =>
    have hmove := asserted_moveConstruct h (show Name.other ≠ .tmp by simp)
      (show Name.var source ≠ .tmp by simp)
    have hswap := asserted_swap hmove (show Name.var n ≠ .tmp by simp)
      (show Name.other ≠ .tmp by simp)
    exact ⟨hswap.1.destroy _, by simpa [assign] using hswap.2⟩
  | swap hlhs hrhs => exact hact.elim
  | destroy hn => exact hact.elim

/-- The assertion is reached exactly in the histories with a move construction. -/
theorem unbounded_apply_iff [DecidableEq Ty] {as : List (Action Ty V)}
    (h : run (step ts) init as = some s) :
    s.asserted = true ↔ ∃ act ∈ as, act.MoveConstructs := by
  constructor
  · intro hasserted
    by_contra hnone
    have hall : ∀ act ∈ as, ¬ act.MoveConstructs := fun act hmem hact => hnone ⟨act, hmem, hact⟩
    have hvoid := run_invariant_along neverVoid_step (neverVoid_init ts)
      (Along.of_forall hall _) h
    rw [hvoid.asserted] at hasserted
    cases hasserted
  · rintro ⟨act, hmem, hact⟩
    have htagged (s : World Ty Tag V) (act : Action Ty V) (s' : World Ty Tag V)
        (h : AllTagged ts s) (_ : True) (hs : step ts s act = some s') : AllTagged ts s' :=
      allTagged_step s act s' h hs
    have hinit : AllTagged ts (init : World Ty Tag V) := fun _ => tagged_void
    have hafter := run_invariant_after htagged asserted_start
      (fun s act s' h _ hs => asserted_step s act s' h.2 hs) hinit
      (Along.of_forall (fun _ _ => trivial) _) (Sometime.of_mem hmem hact h) h
    exact hafter.2

end
end

theorem unbounded_apply_test :
    ∃ s, run (step testTypes) init [.convert 0 .A 0, .assignValue 0 .B 2, .convert 1 .B 1,
        .swap 0 1, .destroy 0, .destroy 1] = some s ∧
      ¬ s.asserted = true := by
  have hrun : run (step testTypes) init [.convert 0 .A 0, .assignValue 0 .B 2, .convert 1 .B 1,
      .swap 0 1, .destroy 0, .destroy 1] = some _ := rfl
  refine ⟨_, hrun, fun hasserted => ?_⟩
  obtain ⟨act, hmem, hact⟩ := (unbounded_apply_iff hrun).mp hasserted
  revert hact
  simp only [List.mem_cons, List.not_mem_nil, or_false] at hmem
  rcases hmem with rfl | rfl | rfl | rfl | rfl | rfl <;> exact id

/-- `Var u = std::move(v);` -/
theorem moveConstruct_reaches_unbounded :
    (∃ s, run (step testTypes) init [.convert 0 .A 0, .moveConstruct 1 0] = some s ∧
      s.asserted = true) ∧
    ¬ ∀ (as : List (Action TestType ℤ)) (s : World TestType TestType ℤ),
      run (step testTypes) init as = some s → s.asserted = false := by
  have hrun : run (step testTypes) init [.convert 0 .A 0, .moveConstruct 1 0] = some _ := rfl
  refine ⟨⟨_, hrun, rfl⟩, fun hall => ?_⟩
  exact absurd (hall _ _ hrun) (by decide)

end CxxUtil.Variants
