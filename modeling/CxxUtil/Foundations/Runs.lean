import Mathlib.Algebra.GroupWithZero.Nat
import Mathlib.Logic.Basic
import Mathlib.Data.List.Basic

/-! # Finite runs of a labelled partial step function

A system is a function `step : S → A → Option S`: `none` means that the action cannot be taken in
that state. `run` takes a list of actions, so a statement about every list of actions is a statement
about every finite run and, prefixes being runs, about every state on the way. `Along` says that
every step of a run meets a condition on the state before it and the action taken, `Sometime` that
one does. -/
namespace CxxUtil.Foundations
set_option autoImplicit false

variable {S A : Type*} {step : S → A → Option S}

/-- The state reached from `s` by the actions `as`, when each of them can be taken. -/
def run (step : S → A → Option S) : S → List A → Option S
  | s, [] => some s
  | s, a :: as => (step s a).bind fun s' => run step s' as

@[simp] theorem run_nil (s : S) : run step s [] = some s := rfl

theorem run_cons_iff {s t : S} {a : A} {as : List A} :
    run step s (a :: as) = some t ↔ ∃ s', step s a = some s' ∧ run step s' as = some t := by
  simp [run, Option.bind_eq_some_iff]

theorem run_append (s : S) (as bs : List A) :
    run step s (as ++ bs) = (run step s as).bind fun t => run step t bs := by
  induction as generalizing s with
  | nil => rfl
  | cons a as ih =>
    rw [List.cons_append, run, run]
    cases step s a with
    | none => rfl
    | some s' => exact ih s'

theorem run_trans {s t u : S} {as bs : List A} (h : run step s as = some t)
    (h' : run step t bs = some u) : run step s (as ++ bs) = some u := by
  rw [run_append, h]
  exact h'

theorem run_snoc {s t t' : S} {as : List A} {a : A} (h : run step s as = some t)
    (ha : step t a = some t') : run step s (as ++ [a]) = some t' := by
  rw [run_append, h]
  exact run_cons_iff.mpr ⟨t', ha, rfl⟩

/-- Every step of the run from `s` by `as` meets `P`. -/
def Along (step : S → A → Option S) (P : S → A → Prop) : S → List A → Prop
  | _, [] => True
  | s, a :: as => P s a ∧
      match step s a with
      | some s' => Along step P s' as
      | none => True

instance Along.decidable {P : S → A → Prop} [∀ s a, Decidable (P s a)] :
    ∀ (s : S) (as : List A), Decidable (Along step P s as)
  | _, [] => .isTrue trivial
  | s, a :: as => by
      unfold Along
      cases step s a with
      | none => infer_instance
      | some s' => exact @instDecidableAnd _ _ _ (Along.decidable s' as)

theorem Along.step_cons {P : S → A → Prop} {s s' : S} {a : A} {as : List A}
    (h : Along step P s (a :: as)) (hs : step s a = some s') : P s a ∧ Along step P s' as := by
  simpa only [Along, hs] using h

theorem Along.imp {P Q : S → A → Prop} (hPQ : ∀ s a, P s a → Q s a) {s : S} {as : List A}
    (h : Along step P s as) : Along step Q s as := by
  induction as generalizing s with
  | nil => exact trivial
  | cons a as ih =>
    obtain ⟨hPa, hPas⟩ := h
    refine ⟨hPQ s a hPa, ?_⟩
    split at hPas
    · exact ih hPas
    · exact trivial

/-- A condition on the actions alone. -/
theorem Along.of_forall {Q : A → Prop} {as : List A} (h : ∀ a ∈ as, Q a) (s : S) :
    Along step (fun _ a => Q a) s as := by
  induction as generalizing s with
  | nil => exact trivial
  | cons a as ih =>
    obtain ⟨ha, has⟩ := List.forall_mem_cons.mp h
    refine ⟨ha, ?_⟩
    split
    · exact ih has _
    · exact trivial

/-- What every step meeting `P` preserves, every run along `P` preserves. -/
theorem run_invariant_along {P : S → A → Prop} {Inv : S → Prop}
    (hstep : ∀ s a s', Inv s → P s a → step s a = some s' → Inv s') {s t : S} {as : List A}
    (hs : Inv s) (hP : Along step P s as) (h : run step s as = some t) : Inv t := by
  induction as generalizing s with
  | nil =>
    obtain rfl : s = t := by simpa using h
    exact hs
  | cons a as ih =>
    obtain ⟨s', ha, ht⟩ := run_cons_iff.mp h
    obtain ⟨hPa, hPas⟩ := hP.step_cons ha
    exact ih (hstep s a s' hs hPa ha) hPas ht

/-- What every step preserves, every run preserves. -/
theorem run_invariant {Inv : S → Prop} (hstep : ∀ s a s', Inv s → step s a = some s' → Inv s')
    {s t : S} {as : List A} (hs : Inv s) (h : run step s as = some t) : Inv t := by
  induction as generalizing s with
  | nil =>
    obtain rfl : s = t := by simpa using h
    exact hs
  | cons a as ih =>
    obtain ⟨s', ha, ht⟩ := run_cons_iff.mp h
    exact ih (hstep s a s' hs ha) ht

/-- What one more action adds to what is read off a history. -/
theorem filterMap_concat {B : Type*} (f : A → Option B) (as : List A) (a : A) :
    (as ++ [a]).filterMap f = as.filterMap f ++ (f a).toList := by
  cases h : f a <;> simp [h]

/-- `run_invariant_along`, about the actions taken so far too. -/
theorem run_invariant_along_history {P : S → A → Prop} {Inv : List A → S → Prop}
    (hstep : ∀ as s a s', Inv as s → P s a → step s a = some s' → Inv (as ++ [a]) s')
    {before : List A} {s t : S} {as : List A} (hs : Inv before s) (hP : Along step P s as)
    (h : run step s as = some t) : Inv (before ++ as) t := by
  induction as generalizing s before with
  | nil =>
    obtain rfl : s = t := by simpa using h
    rwa [List.append_nil]
  | cons a as ih =>
    obtain ⟨s', ha, ht⟩ := run_cons_iff.mp h
    obtain ⟨hPa, hPas⟩ := hP.step_cons ha
    have hnext := ih (hstep before s a s' hs hPa ha) hPas ht
    rwa [List.append_assoc] at hnext

theorem run_invariant_history {Inv : List A → S → Prop}
    (hstep : ∀ as s a s', Inv as s → step s a = some s' → Inv (as ++ [a]) s') {before : List A}
    {s t : S} {as : List A} (hs : Inv before s) (h : run step s as = some t) :
    Inv (before ++ as) t :=
  run_invariant_along_history (P := fun _ _ => True) (fun as s a s' h _ => hstep as s a s' h) hs
    (Along.of_forall (fun _ _ => trivial) s) h

/-- What the steps of the run from `s` by `as` emit. -/
def emitted {B : Type*} (step : S → A → Option S) (emit : S → A → List B) : S → List A → List B
  | _, [] => []
  | s, a :: as => emit s a ++
      match step s a with
      | some s' => emitted step emit s' as
      | none => []

/-- `run_invariant_along` with a history: what is emitted joins what has been. -/
theorem run_invariant_emitted {B : Type*} {emit : S → A → List B} {P : S → A → Prop}
    {Inv : List B → S → Prop}
    (hstep : ∀ bs s a s', Inv bs s → P s a → step s a = some s' → Inv (bs ++ emit s a) s')
    {bs : List B} {s t : S} {as : List A} (hs : Inv bs s) (hP : Along step P s as)
    (h : run step s as = some t) : Inv (bs ++ emitted step emit s as) t := by
  induction as generalizing s bs with
  | nil =>
    obtain rfl : s = t := by simpa using h
    rw [emitted, List.append_nil]
    exact hs
  | cons a as ih =>
    obtain ⟨s', ha, ht⟩ := run_cons_iff.mp h
    obtain ⟨hPa, hPas⟩ := hP.step_cons ha
    simp only [emitted, ha]
    rw [← List.append_assoc]
    exact ih (hstep bs s a s' hs hPa ha) hPas ht

/-- Some step of the run from `s` by `as` meets `P`. -/
def Sometime (step : S → A → Option S) (P : S → A → Prop) : S → List A → Prop
  | _, [] => False
  | s, a :: as => P s a ∨
      match step s a with
      | some s' => Sometime step P s' as
      | none => False

instance Sometime.decidable {P : S → A → Prop} [∀ s a, Decidable (P s a)] :
    ∀ (s : S) (as : List A), Decidable (Sometime step P s as)
  | _, [] => .isFalse not_false
  | s, a :: as => by
      unfold Sometime
      cases step s a with
      | none => infer_instance
      | some s' => exact @instDecidableOr _ _ _ (Sometime.decidable s' as)

/-- A condition on the actions alone. -/
theorem Sometime.of_mem {Q : A → Prop} {s t : S} {a : A} {as : List A} (hmem : a ∈ as) (ha : Q a)
    (h : run step s as = some t) : Sometime step (fun _ a => Q a) s as := by
  induction as generalizing s with
  | nil => cases hmem
  | cons b as ih =>
    obtain ⟨s', hb, ht⟩ := run_cons_iff.mp h
    simp only [Sometime, hb]
    rcases List.mem_cons.mp hmem with rfl | hmem
    · exact .inl ha
    · exact .inr (ih hmem ht)

/-- What a step meeting `Q` establishes and every step preserves holds at the end of a run in which
such a step occurs. -/
theorem run_invariant_after {P Q : S → A → Prop} {Inv Inv' : S → Prop}
    (hstep : ∀ s a s', Inv s → P s a → step s a = some s' → Inv s')
    (hstart : ∀ s a s', Inv s → Q s a → step s a = some s' → Inv' s')
    (hstep' : ∀ s a s', Inv s ∧ Inv' s → P s a → step s a = some s' → Inv' s')
    {s t : S} {as : List A} (hs : Inv s) (hP : Along step P s as) (hQ : Sometime step Q s as)
    (h : run step s as = some t) : Inv' t := by
  induction as generalizing s with
  | nil => exact hQ.elim
  | cons a as ih =>
    obtain ⟨s', ha, ht⟩ := run_cons_iff.mp h
    obtain ⟨hPa, hPas⟩ := hP.step_cons ha
    have hs' := hstep s a s' hs hPa ha
    simp only [Sometime, ha] at hQ
    rcases hQ with hQ | hQ
    · have hboth (s : S) (a : A) (s' : S) (h : Inv s ∧ Inv' s) (hP : P s a)
          (ha : step s a = some s') : Inv s' ∧ Inv' s' :=
        ⟨hstep s a s' h.1 hP ha, hstep' s a s' h hP ha⟩
      exact (run_invariant_along hboth ⟨hs', hstart s a s' hs hQ ha⟩ hPas ht).2
    · exact ih hs' hPas hQ ht

/-- A rank that every step meeting `P` lowers, up to what its action costs, bounds the runs along
`P`. -/
theorem run_length_le {P : S → A → Prop} {rank : S → ℕ} {cost : A → ℕ}
    (hstep : ∀ s a s', P s a → step s a = some s' → rank s' + 1 ≤ rank s + cost a) {s t : S}
    {as : List A} (hP : Along step P s as) (h : run step s as = some t) :
    rank t + as.length ≤ rank s + (as.map cost).sum := by
  induction as generalizing s with
  | nil =>
    obtain rfl : s = t := by simpa using h
    simp
  | cons a as ih =>
    obtain ⟨s', ha, ht⟩ := run_cons_iff.mp h
    obtain ⟨hPa, hPas⟩ := hP.step_cons ha
    have hfirst := hstep s a s' hPa ha
    have hrest := ih hPas ht
    rw [List.length_cons, List.map_cons, List.sum_cons]
    omega

theorem Along.singleton {P : S → A → Prop} {s : S} {a : A} (ha : P s a) : Along step P s [a] := by
  refine ⟨ha, ?_⟩
  split
  · exact trivial
  · exact trivial

theorem Along.snoc {P : S → A → Prop} {s t : S} {as : List A} {a : A} (h : Along step P s as)
    (hrun : run step s as = some t) (ha : P t a) : Along step P s (as ++ [a]) := by
  induction as generalizing s with
  | nil =>
    obtain rfl : s = t := by simpa using hrun
    exact .singleton ha
  | cons b bs ih =>
    obtain ⟨s', hb, ht⟩ := run_cons_iff.mp hrun
    obtain ⟨hPb, hPbs⟩ := h.step_cons hb
    refine ⟨hPb, ?_⟩
    simp only [hb]
    exact ih hPbs ht

/-- A run along `P` that never ends has costs that never end. -/
theorem endless_costs {P : S → A → Prop} {rank : S → ℕ} {cost : A → ℕ}
    (hstep : ∀ s a s', P s a → step s a = some s' → rank s' + 1 ≤ rank s + cost a) {s : S}
    {acts : ℕ → A}
    (hruns : ∀ n, ∃ t, run step s ((List.range n).map acts) = some t ∧ P t (acts n)) (N : ℕ) :
    ∃ n, N ≤ n ∧ cost (acts n) ≠ 0 := by
  have halong (n : ℕ) : Along step P s ((List.range n).map acts) := by
    induction n with
    | zero => exact trivial
    | succ n ih =>
      obtain ⟨t, ht, hP⟩ := hruns n
      rw [List.range_succ, List.map_append]
      exact ih.snoc ht hP
  by_contra hnone
  have hfree (n : ℕ) (hn : N ≤ n) : cost (acts n) = 0 := by
    by_contra hcost
    exact hnone ⟨n, hn, hcost⟩
  -- after `N` steps there is only the rank to pay from
  have htotal (n : ℕ) : (((List.range (N + n)).map acts).map cost).sum =
      (((List.range N).map acts).map cost).sum := by
    induction n with
    | zero => rfl
    | succ n ih =>
      rw [← Nat.add_assoc, List.range_succ, List.map_append, List.map_append, List.sum_append, ih]
      simp [hfree (N + n) (Nat.le_add_right N n)]
  let budget := rank s + (((List.range N).map acts).map cost).sum
  obtain ⟨t, ht, -⟩ := hruns (N + (budget + 1))
  have hle := run_length_le hstep (halong _) ht
  rw [htotal, List.length_map, List.length_range] at hle
  change rank t + (N + (budget + 1)) ≤ budget at hle
  omega

/-- Where states that meet `Inv` always have a step to another, there is a run that never ends. -/
theorem exists_endless {Q : A → Prop} {Inv : S → Prop}
    (hstep : ∀ s, Inv s → ∃ a s', Q a ∧ step s a = some s' ∧ Inv s') {s : S} (hs : Inv s) :
    ∃ acts : ℕ → A, (∀ n, Q (acts n)) ∧
      ∀ n, ∃ t, run step s ((List.range n).map acts) = some t ∧ Inv t := by
  choose act after hQ hact hinv using hstep
  let states (n : ℕ) : { s // Inv s } :=
    n.rec ⟨s, hs⟩ fun _ u => ⟨after u.1 u.2, hinv u.1 u.2⟩
  refine ⟨fun n => act (states n).1 (states n).2, fun n => hQ _ _, fun n => ?_⟩
  refine ⟨(states n).1, ?_, (states n).2⟩
  induction n with
  | zero => rfl
  | succ n ih =>
    rw [List.range_succ, List.map_append, run_append, ih, Option.bind_some]
    exact run_cons_iff.mpr ⟨_, hact (states n).1 (states n).2, rfl⟩

/-- A system each step of which is matched by a run of another has its runs matched too. -/
theorem run_simulates {S' A' : Type*} {step' : S' → A' → Option S'} {R : S → S' → Prop}
    (hstep : ∀ s a t s', R s s' → step s a = some t → ∃ as t', run step' s' as = some t' ∧ R t t')
    {s t : S} {s' : S'} {as : List A} (hR : R s s') (h : run step s as = some t) :
    ∃ as' t', run step' s' as' = some t' ∧ R t t' := by
  induction as generalizing s s' with
  | nil =>
    obtain rfl : s = t := by simpa using h
    exact ⟨[], s', rfl, hR⟩
  | cons a as ih =>
    obtain ⟨s₁, ha, ht⟩ := run_cons_iff.mp h
    obtain ⟨first, s₁', hfirst, hR₁⟩ := hstep s a s₁ s' hR ha
    obtain ⟨rest, t', hrest, hRt⟩ := ih hR₁ ht
    exact ⟨first ++ rest, t', by rw [run_append, hfirst]; exact hrest, hRt⟩

/-- Two systems whose steps by one action are both refused, or lead from related states to related
states, have the same runs, and these end in related states. -/
theorem run_rel {S' : Type*} {step' : S' → A → Option S'} {R : S → S' → Prop}
    (hstep : ∀ s s' a, R s s' → Option.Rel R (step s a) (step' s' a)) {s : S} {s' : S'}
    (h : R s s') (as : List A) : Option.Rel R (run step s as) (run step' s' as) := by
  induction as generalizing s s' with
  | nil => exact .some h
  | cons a as ih =>
    have ha := hstep s s' a h
    unfold run
    generalize step s a = t, step' s' a = t' at ha
    cases ha with
    | none => exact .none
    | some hnext => exact ih hnext

end CxxUtil.Foundations
