import Mathlib.Data.List.Basic

/-! # Traces of calls

A program over functions that are given from outside is followed by the trace of its calls: those
that have returned, with what they have returned. What is said of a program (`Traces`) holds
whatever the functions do, and whichever of them throws. `JustifiedAfter` says of a trace that each
call has what it needs before it. -/
namespace CxxUtil.Foundations
set_option autoImplicit false

structure Traced (W K : Type) where
  world : W
  calls : List K

/-- A program over the states `W`, with calls `K` and exceptions `X`. -/
abbrev Program (W K X : Type) := ExceptT X (StateM (Traced W K))

variable {W K X E A B : Type}

/-- Calls `f`. An exception of `f` is let through. -/
def Program.call (f : W → Except E A × W) (wrap : E → X) (note : A → K) : Program W K X A :=
  ExceptT.mk fun s =>
    match f s.world with
    | (.ok a, world) => (.ok a, ⟨world, s.calls ++ [note a]⟩)
    | (.error e, world) => (.error (wrap e), ⟨world, s.calls⟩)

/-- What a program ends with, and the state that it leaves. -/
def Program.run (m : Program W K X A) (s : Traced W K) : Except X A × Traced W K := ExceptT.run m s

theorem Program.run_call (f : W → Except E A × W) (wrap : E → X) (note : A → K) (s : Traced W K) :
    (Program.call f wrap note).run s = match f s.world with
      | (.ok a, world) => (.ok a, ⟨world, s.calls ++ [note a]⟩)
      | (.error e, world) => (.error (wrap e), ⟨world, s.calls⟩) := rfl

theorem Program.run_bind (m : Program W K X A) (k : A → Program W K X B) (s : Traced W K) :
    (m >>= k).run s = match m.run s with
      | (.ok a, t) => (k a).run t
      | (.error x, t) => (.error x, t) := by
  change ExceptT.run (m >>= k) s = _
  rw [ExceptT.run_bind]
  change (match (m.run s).1 with
    | .ok a => ExceptT.run (k a)
    | .error x => pure (.error x)) (m.run s).2 = _
  rcases m.run s with ⟨result, t⟩
  cases result with
  | ok a => rfl
  | error x => rfl

/-- The program ends with a result and makes calls that are in `P`. -/
def Traces (m : Program W K X A) (P : Except X A → List K → Prop) : Prop :=
  ∀ s, ∃ calls, (m.run s).2.calls = s.calls ++ calls ∧ P (m.run s).1 calls

section
variable {P : Except X A → List K → Prop} {Q : Except X B → List K → Prop}

theorem traces_pure {a : A} (h : P (.ok a) []) : Traces (pure a : Program W K X A) P :=
  fun s => ⟨[], (List.append_nil s.calls).symm, h⟩

theorem traces_throw {x : X} (h : P (.error x) []) : Traces (throw x : Program W K X A) P :=
  fun s => ⟨[], (List.append_nil s.calls).symm, h⟩

theorem traces_call {f : W → Except E A × W} {wrap : E → X} {note : A → K}
    (herror : ∀ e, P (.error (wrap e)) []) (hok : ∀ a, P (.ok a) [note a]) :
    Traces (Program.call f wrap note) P := by
  intro s
  rw [Program.run_call]
  cases hf : f s.world with
  | mk result world =>
    cases result with
    | ok a => exact ⟨[note a], rfl, hok a⟩
    | error e => exact ⟨[], (List.append_nil s.calls).symm, herror e⟩

theorem Traces.bind {m : Program W K X A} {k : A → Program W K X B} (hm : Traces m P)
    (herror : ∀ x calls, P (.error x) calls → Q (.error x) calls)
    (hok : ∀ a calls, P (.ok a) calls → Traces (k a) fun r later => Q r (calls ++ later)) :
    Traces (m >>= k) Q := by
  intro s
  obtain ⟨calls, hcalls, hP⟩ := hm s
  rw [Program.run_bind]
  cases hmid : m.run s with
  | mk result t =>
    rw [hmid] at hcalls hP
    cases result with
    | error x => exact ⟨calls, hcalls, herror x calls hP⟩
    | ok a =>
      obtain ⟨later, hlater, hQ⟩ := hok a calls hP t
      refine ⟨calls ++ later, ?_, hQ⟩
      rw [← List.append_assoc, ← hcalls]
      exact hlater

/-- A call, and what follows it. -/
theorem traces_call_bind {f : W → Except E A × W} {wrap : E → X} {note : A → K}
    {k : A → Program W K X B} (herror : ∀ e, Q (.error (wrap e)) [])
    (hok : ∀ a, Traces (k a) fun r later => Q r (note a :: later)) :
    Traces (Program.call f wrap note >>= k) Q := by
  have hcall : Traces (Program.call f wrap note) fun r calls =>
      (∃ e, r = .error (wrap e) ∧ calls = []) ∨ ∃ a, r = .ok a ∧ calls = [note a] :=
    traces_call (fun e => .inl ⟨e, rfl, rfl⟩) fun a => .inr ⟨a, rfl, rfl⟩
  refine hcall.bind (fun x calls h => ?_) fun a calls h => ?_
  · rcases h with ⟨e, heq, rfl⟩ | ⟨a, heq, -⟩
    · obtain rfl := Except.error.inj heq
      exact herror e
    · cases heq
  · rcases h with ⟨e, heq, -⟩ | ⟨a', heq, rfl⟩
    · cases heq
    · obtain rfl := Except.ok.inj heq
      exact hok a

end

/-! ## Calls that need others before them -/

section
variable {needs : List K → K → Prop} {before calls later : List K}

def JustifiedAfter (needs : List K → K → Prop) : List K → List K → Prop
  | _, [] => True
  | before, c :: calls => needs before c ∧ JustifiedAfter needs (before ++ [c]) calls

theorem JustifiedAfter.of_forall (h : ∀ c ∈ calls, ∀ before, needs before c) :
    JustifiedAfter needs before calls := by
  induction calls generalizing before with
  | nil => exact trivial
  | cons c calls ih =>
    have hc : needs before c := h c (List.mem_cons_self ..) before
    exact ⟨hc, ih fun d hd => h d (List.mem_cons_of_mem c hd)⟩

theorem JustifiedAfter.append (h : JustifiedAfter needs before calls)
    (h' : JustifiedAfter needs (before ++ calls) later) :
    JustifiedAfter needs before (calls ++ later) := by
  induction calls generalizing before with
  | nil => simpa using h'
  | cons c calls ih =>
    obtain ⟨hc, hcalls⟩ := h
    refine ⟨hc, ih hcalls ?_⟩
    rwa [List.append_assoc]

/-- What is needed may have come earlier. -/
theorem JustifiedAfter.weaken (hmono : ∀ earlier before c, needs before c →
      needs (earlier ++ before) c) (earlier : List K) (h : JustifiedAfter needs before calls) :
    JustifiedAfter needs (earlier ++ before) calls := by
  induction calls generalizing before with
  | nil => exact trivial
  | cons c calls ih =>
    obtain ⟨hc, hcalls⟩ := h
    refine ⟨hmono earlier before c hc, ?_⟩
    rw [List.append_assoc]
    exact ih hcalls

theorem JustifiedAfter.needed {first rest : List K} {c : K}
    (h : JustifiedAfter needs before (first ++ c :: rest)) : needs (before ++ first) c := by
  induction first generalizing before with
  | nil =>
    rw [List.append_nil]
    exact h.1
  | cons d first ih =>
    have hlater := ih h.2
    rwa [List.append_assoc] at hlater

end
end CxxUtil.Foundations
