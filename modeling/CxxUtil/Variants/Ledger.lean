import CxxUtil.Foundations.Holdings
import CxxUtil.Variants.Swap

/-! # The ledger of the objects

`MoveTo` constructs into a storage whatever there is, and `swap` re-tags a Variant without
destroying the object that was moved from. In a history without moves and swaps every object is
destroyed once, with its Variant. With one, a storage is clobbered, or an object is lost: no Variant
holds it any more, so that nothing will destroy it. -/
namespace CxxUtil.Variants
open Foundations
set_option autoImplicit false

variable {Ty Tag V : Type*}

/-- An object is moved from one storage to another. -/
def Action.Relocates : Action Ty V → Prop
  | .convert _ _ _ => False
  | .destroy _ => False
  | _ => True

/-- What is to be said of the ledger. -/
structure Accounted (s : World Ty Tag V) : Prop where
  clobbered : s.clobbered = false
  once : s.destroyed.Nodup
  /-- When all Variants have been destroyed, so has every object. -/
  all : (∀ n, s.live n = false) → IssuedOnce s.constructed s.destroyed

/-! ## Without moves -/

/-- An object is destroyed, or it is held by one Variant; every Variant holds one. -/
structure Sound (s : World Ty Tag V) : Prop where
  clobbered : s.clobbered = false
  once : s.destroyed.Nodup
  issued : ∀ k, k < s.constructed ↔ k ∈ s.destroyed ∨ ∃ n, (s.variants n).held = some k
  undestroyed : ∀ n k, (s.variants n).held = some k → k ∉ s.destroyed
  injective : ∀ m n k, (s.variants m).held = some k → (s.variants n).held = some k → m = n
  live : ∀ n, s.live n = (s.variants n).held.isSome

section
variable {ts : Types Ty Tag V} {s : World Ty Tag V}

theorem Sound.holdings (h : Sound s) :
    Holdings (fun n => (s.variants n).held) s.constructed s.destroyed :=
  ⟨h.once, h.issued, h.undestroyed, h.injective⟩

theorem Sound.of_holdings (hclobbered : s.clobbered = false)
    (hheld : Holdings (fun n => (s.variants n).held) s.constructed s.destroyed)
    (hlive : ∀ n, s.live n = (s.variants n).held.isSome) : Sound s where
  clobbered := hclobbered
  once := hheld.once
  issued := hheld.lt_iff
  undestroyed := hheld.not_taken
  injective := hheld.injective
  live := hlive

theorem Sound.accounted (h : Sound s) : Accounted s where
  clobbered := h.clobbered
  once := h.once
  all hdead := by
    refine h.holdings.issuedOnce fun n => ?_
    have hlive := h.live n
    rw [hdead n] at hlive
    simpa using hlive.symm

theorem sound_init : Sound (init : World Ty Tag V) :=
  .of_holdings rfl .empty fun _ => rfl

theorem held_convert (n : Name) (U : Ty) (x : V) (s : World Ty Tag V) :
    (fun m => ((convert ts n U x s).variants m).held) =
      Function.update (fun m => (s.variants m).held) n (some s.constructed) := by
  funext m
  rw [convert_variants, Function.update_apply, Function.update_apply]
  split
  case isTrue => simp [Variant.held]
  case isFalse => rfl

theorem held_destroy (n : Name) (s : World Ty Tag V) :
    (fun m => ((s.destroy n).variants m).held) =
      Function.update (fun m => (s.variants m).held) n none := by
  funext m
  rw [destroy_variants, Function.update_apply, Function.update_apply]
  split
  case isTrue => rfl
  case isFalse => rfl

theorem sound_convert (h : Sound s) {n : Name} (hn : s.live n = false) (U : Ty) (x : V) :
    Sound (convert ts n U x s) := by
  have hempty : (s.variants n).held = none := by
    have hlive := h.live n
    rw [hn] at hlive
    simpa using hlive.symm
  refine .of_holdings (by simpa using h.clobbered) ?_ fun m => ?_
  · rw [held_convert, convert_constructed, convert_destroyed]
    exact h.holdings.give hempty
  · rw [convert_live, congrFun (held_convert n U x s) m, Function.update_apply,
      Function.update_apply]
    split
    case isTrue => rfl
    case isFalse => exact h.live m

theorem sound_destroy (h : Sound s) {n : Name} (hn : s.live n = true) : Sound (s.destroy n) := by
  obtain ⟨j, hj⟩ : ∃ j, (s.variants n).held = some j := by
    have hlive := h.live n
    rw [hn] at hlive
    exact Option.isSome_iff_exists.mp hlive.symm
  refine .of_holdings (by simpa using h.clobbered) ?_ fun m => ?_
  · rw [held_destroy, destroy_constructed, destroy_destroyed, hj]
    exact h.holdings.take hj
  · rw [destroy_live, congrFun (held_destroy n s) m, Function.update_apply, Function.update_apply]
    split
    case isTrue => rfl
    case isFalse => exact h.live m

end

theorem sound_step [DecidableEq Tag] [DecidableEq Ty] {ts : Types Ty Tag V} (s : World Ty Tag V)
    (act : Action Ty V) (s' : World Ty Tag V) (h : Sound s) (hact : ¬ act.Relocates)
    (hs : step ts s act = some s') : Sound s' := by
  cases step_effect ts hs with
  | convert hn hU => exact sound_convert h hn _ _
  | destroy hn => exact sound_destroy h hn
  | moveConstruct _ _ => exact absurd trivial hact
  | assignValue _ _ => exact absurd trivial hact
  | assignVariant _ _ => exact absurd trivial hact
  | swap _ _ => exact absurd trivial hact

/-! ## After a move -/

/-- An object that is not destroyed is held by no Variant. -/
def Lost (s : World Ty Tag V) : Prop :=
  ∃ k, k < s.constructed ∧ k ∉ s.destroyed ∧ ∀ n, (s.variants n).held ≠ some k

/-- What is wrong stays wrong. -/
structure Wrong (ts : Types Ty Tag V) (s : World Ty Tag V) : Prop where
  tagged : AllTagged ts s
  wrong : s.clobbered = true ∨ Lost s

section
variable {ts : Types Ty Tag V} {s : World Ty Tag V}

theorem Wrong.not_accounted (h : Wrong ts s) (hdead : ∀ n, s.live n = false) : ¬ Accounted s := by
  intro haccounted
  rcases h.wrong with hclobbered | ⟨k, hlt, hk, -⟩
  · rw [haccounted.clobbered] at hclobbered
    cases hclobbered
  · exact hk ((haccounted.all hdead).mem_iff.mpr hlt)

theorem wrong_make (h : Wrong ts s) (n : Name) : Wrong ts (s.make n) := by
  refine ⟨h.tagged.make n, h.wrong.imp_right ?_⟩
  rintro ⟨k, hlt, hk, hheld⟩
  refine ⟨k, hlt, hk, ?_⟩
  intro m
  by_cases hm : m = n
  · simp [World.make, hm, Variant.held]
  · simpa [World.make, hm] using hheld m

theorem wrong_convert (h : Wrong ts s) (n : Name) {U : Ty} (hU : U ∈ ts.bounded) (x : V) :
    Wrong ts (convert ts n U x s) := by
  refine ⟨h.tagged.convert n hU x, ?_⟩
  refine h.wrong.imp (fun hclobbered => by simpa using hclobbered) ?_
  rintro ⟨k, hlt, hk, hheld⟩
  refine ⟨k, ?_, by simpa using hk, ?_⟩
  · rw [convert_constructed]
    omega
  · intro m
    by_cases hm : m = n
    · simp only [convert_variants, hm, Function.update_self, Variant.held, Option.bind_some,
        Option.map_some, ne_eq, Option.some.injEq]
      omega
    · simpa [hm] using hheld m

theorem wrong_destroy (h : Wrong ts s) (n : Name) : Wrong ts (s.destroy n) := by
  refine ⟨h.tagged.destroy n, ?_⟩
  refine h.wrong.imp (fun hclobbered => by simpa using hclobbered) ?_
  rintro ⟨k, hlt, hk, hheld⟩
  refine ⟨k, by simpa using hlt, ?_, ?_⟩
  · rw [destroy_destroyed, List.mem_append, Option.mem_toList]
    rintro (hmem | hmem)
    · exact hk hmem
    · exact hheld n hmem
  · intro m
    by_cases hm : m = n
    · simp [hm, Variant.held]
    · simpa [hm] using hheld m

variable {lhs rhs : Name}

/-- An object that is held after `swap` and was constructed before belongs to neither operand. -/
theorem held_of_swapped (htagged : AllTagged ts s) {s' : World Ty Tag V}
    (h : Swapped ts lhs rhs s s') {n : Name} {k : ℕ} (hk : k < s.constructed)
    (hheld : (s'.variants n).held = some k) :
    n ≠ lhs ∧ n ≠ rhs ∧ (s.variants n).held = some k := by
  have hnl : n ≠ lhs := by
    rintro rfl
    have := h.left.held_ge (htagged rhs) hheld
    omega
  have hnr : n ≠ rhs := by
    rintro rfl
    have := h.right.held_ge (htagged lhs) hheld
    omega
  have hnt : n ≠ .tmp := by
    rintro rfl
    rw [h.tmp] at hheld
    cases hheld
  rw [h.others n hnl hnr hnt] at hheld
  exact ⟨hnl, hnr, hheld⟩

theorem undestroyed_of_swapped {s' : World Ty Tag V} (h : Swapped ts lhs rhs s s') {k : ℕ}
    (hk : k < s.constructed) (hmem : k ∉ s.destroyed) : k ∉ s'.destroyed := by
  obtain ⟨j, hdestroyed, hj⟩ := h.destroyed
  rw [hdestroyed, List.mem_append, Option.mem_toList]
  rintro (h | h)
  · exact hmem h
  · have := hj k h
    omega

variable [DecidableEq Tag]

theorem wrong_swap (h : Wrong ts s) (hl : lhs ≠ .tmp) (hr : rhs ≠ .tmp) :
    Wrong ts (swap ts lhs rhs s) := by
  have hswapped := h.tagged.swapped hl hr
  refine ⟨h.tagged.swap hl hr, h.wrong.imp hswapped.clobbered_of ?_⟩
  rintro ⟨k, hlt, hk, hheld⟩
  refine ⟨k, Nat.lt_of_lt_of_le hlt hswapped.constructed_le,
    undestroyed_of_swapped hswapped hlt hk, ?_⟩
  intro n hn
  exact hheld n (held_of_swapped h.tagged hswapped hlt hn).2.2

/-! ## The first move -/

/-- The object of the source is left in a storage whose tag no longer tells of it. -/
theorem wrong_moveConstruct (htagged : AllTagged ts s) (h : Sound s) {n source : Name}
    (hn : n ≠ .tmp) (hsource : source ≠ .tmp) (hlive : s.live source = true) :
    Wrong ts (moveConstruct ts n source s) := by
  obtain ⟨k, hk⟩ : ∃ k, (s.variants source).held = some k := by
    rw [h.live source] at hlive
    exact Option.isSome_iff_exists.mp hlive
  have hlt : k < s.constructed := (h.issued k).mpr (.inr ⟨source, hk⟩)
  have hmake := htagged.make n
  have hswapped := hmake.swapped hn hsource
  refine ⟨hmake.swap hn hsource, .inr ⟨k, Nat.lt_of_lt_of_le hlt hswapped.constructed_le,
    undestroyed_of_swapped hswapped hlt (h.undestroyed source k hk), ?_⟩⟩
  intro m hm
  obtain ⟨hmn, hms, hheld⟩ := held_of_swapped hmake hswapped hlt hm
  have hheld' : (s.variants m).held = some k := by simpa [World.make, hmn] using hheld
  exact hms (h.injective m source k hheld' hk)

/-- The left operand still has its object when that of the right one is moved there. -/
theorem wrong_swap_occupied (htagged : AllTagged ts s) (hl : lhs ≠ .tmp) (hr : rhs ≠ .tmp)
    (hlhs : s.occupied lhs = true) (hrhs : (s.variants rhs).mDtor.isSome = true) :
    Wrong ts (swap ts lhs rhs s) :=
  ⟨htagged.swap hl hr, .inl ((htagged.swapped hl hr).clobbers hrhs hlhs)⟩

omit [DecidableEq Tag] in
theorem Sound.full (h : Sound s) {n : Name} (hlive : s.live n = true) :
    (s.variants n).mDtor.isSome = true ∧ s.occupied n = true := by
  rw [h.live n] at hlive
  obtain ⟨k, hk⟩ := Option.isSome_iff_exists.mp hlive
  have hk' := h.undestroyed n k hk
  unfold Variant.held at hk
  obtain ⟨t, htag, hdata⟩ := Option.bind_eq_some_iff.mp hk
  obtain ⟨o, ho, rfl⟩ := Option.map_eq_some_iff.mp hdata
  refine ⟨by rw [htag]; rfl, ?_⟩
  rw [World.occupied, ho]
  simpa using hk'

theorem wrong_start [DecidableEq Ty] (s : World Ty Tag V) (act : Action Ty V)
    (s' : World Ty Tag V) (htagged : AllTagged ts s) (h : Sound s) (hact : act.Relocates)
    (hs : step ts s act = some s') : Wrong ts s' := by
  cases step_effect ts hs with
  | convert _ _ => exact hact.elim
  | destroy _ => exact hact.elim
  | moveConstruct hn hsource => exact wrong_moveConstruct htagged h (by simp) (by simp) hsource
  | @assignValue n U x hn hU =>
    refine wrong_destroy (wrong_swap_occupied (htagged.convert _ hU x) (by simp) (by simp) ?_ ?_) _
    · have hsame : SameObject (s.variants (.var n))
          ((convert ts .other U x s).variants (.var n)) := by
        simp [SameObject]
      rw [hsame.occupied_eq (convert_destroyed ts .other U x s)]
      exact (h.full hn).2
    · simp
  | assignVariant hn hsource =>
    have hmove := wrong_moveConstruct htagged h (n := .other) (by simp) (by simp) hsource
    exact wrong_destroy (wrong_swap hmove (by simp) (by simp)) _
  | swap hlhs hrhs =>
    exact wrong_swap_occupied htagged (by simp) (by simp) (h.full hlhs).2 (h.full hrhs).1

theorem wrong_step [DecidableEq Ty] (s : World Ty Tag V) (act : Action Ty V)
    (s' : World Ty Tag V) (h : Wrong ts s) (hs : step ts s act = some s') : Wrong ts s' :=
  step_preserves ts (P := Wrong ts) (fun _ n h => wrong_make h n)
    (fun _ n _ x hU h => wrong_convert h n hU x) (fun _ _ _ hl hr h => wrong_swap h hl hr)
    (fun _ n h => wrong_destroy h n) s act s' h hs

/-! ## Runs -/

theorem wrong_of_relocates [DecidableEq Ty] {as : List (Action Ty V)} {t : World Ty Tag V}
    {act : Action Ty V} (htagged : AllTagged ts s) (h : Sound s) (hmem : act ∈ as)
    (hact : act.Relocates) (hrun : run (step ts) s as = some t) : Wrong ts t := by
  induction as generalizing s with
  | nil => cases hmem
  | cons a as ih =>
    obtain ⟨s', hs, ht⟩ := run_cons_iff.mp hrun
    by_cases ha : a.Relocates
    · exact run_invariant wrong_step (wrong_start s a s' htagged h ha hs) ht
    · refine ih (allTagged_step s a s' htagged hs) (sound_step s a s' h ha hs) ?_ ht
      exact (List.mem_cons.mp hmem).resolve_left fun heq => ha (heq ▸ hact)

/-- **The ledger.** Without moves and swaps everything is accounted for; when all Variants have been
destroyed, it is only without them. -/
theorem ledger_accounted_iff [DecidableEq Ty] {as : List (Action Ty V)}
    (h : run (step ts) init as = some s) :
    ((∀ act ∈ as, ¬ act.Relocates) → Accounted s) ∧
      ((∀ n, s.live n = false) → (Accounted s ↔ ∀ act ∈ as, ¬ act.Relocates)) := by
  have hsound (hall : ∀ act ∈ as, ¬ act.Relocates) : Accounted s :=
    (run_invariant_along sound_step sound_init (Along.of_forall hall _) h).accounted
  refine ⟨hsound, fun hdead => ⟨fun haccounted act hmem hact => ?_, hsound⟩⟩
  have hwrong := wrong_of_relocates (fun _ => tagged_void) sound_init hmem hact h
  exact hwrong.not_accounted hdead haccounted

end

theorem ledger_accounted_test :
    ∃ s, run (step testTypes) init [.convert 0 .A 0, .convert 1 .B 1, .destroy 0, .destroy 1] =
      some s ∧ Accounted s := by
  have hrun : run (step testTypes) init [.convert 0 .A 0, .convert 1 .B 1, .destroy 0,
      .destroy 1] = some _ := rfl
  refine ⟨_, hrun, (ledger_accounted_iff hrun).1 ?_⟩
  intro act hmem hact
  simp only [List.mem_cons, List.not_mem_nil, or_false] at hmem
  rcases hmem with rfl | rfl | rfl | rfl <;> exact hact

/-- A value is assigned, and the second object constructed in the storage of the first; the first
one is never destroyed. -/
theorem assignment_clobbers :
    (∃ s, run (step testTypes) init [.convert 0 .A 0, .assignValue 0 .B 2, .destroy 0] = some s ∧
      s.clobbered = true ∧ s.constructed = 5 ∧ 0 ∉ s.destroyed) ∧
    ¬ ∀ (as : List (Action TestType ℤ)) (s : World TestType TestType ℤ),
      run (step testTypes) init as = some s → Accounted s := by
  have hrun : run (step testTypes) init [.convert 0 .A 0, .assignValue 0 .B 2, .destroy 0] =
      some _ := rfl
  refine ⟨⟨_, hrun, rfl, rfl, by decide⟩, fun hall => ?_⟩
  exact absurd (hall _ _ hrun).clobbered (by decide)

end CxxUtil.Variants
