import CxxUtil.Foundations.Runs
import CxxUtil.Queue.ProducerConsumerQueue

/-! # Calls of `consume` and `produce` with arbitrary handlers

Handlers are arbitrary client code: each may call `consume` and `produce` again, to any depth, and
return or throw. The machine below keeps the stack of active `post()` calls explicit and lets the
actions of a run choose what the client code does, so the runs are those of every client. Handlers
and data are numbered in the order they are enqueued; the numbers, like the three histories, are
never read by a step. -/
namespace CxxUtil.Queue.Reentrancy
open Foundations ProducerConsumerQueue
set_option autoImplicit false

variable {H D : Type*}

/-- Where execution stands: in client code (the caller of the outermost call, or the handler that
the innermost `post()` has called), or at the loop test of the innermost `post()`. -/
inductive Control
  | client
  | post
  deriving DecidableEq, Repr

structure State (H D : Type*) where
  queue : ProducerConsumerQueue (H × ℕ) (D × ℕ)
  /-- The active `post()` calls, innermost first: how many handlers each has started itself. -/
  calls : List ℕ
  control : Control
  /-- Every handler passed to `consume` so far, in order; `data` likewise for `produce`. -/
  handlers : List H
  data : List D
  /-- The handler invocations so far, in the order they started. -/
  started : List ((H × ℕ) × (D × ℕ))
  deriving DecidableEq, Repr

def State.init : State H D := ⟨.empty, [], .client, [], [], []⟩

inductive Action (H D : Type*)
  | consume (h : H)
  | produce (d : D)
  /-- `post()` runs from its loop test to its next call into a handler, or to its end. -/
  | post
  | ret
  /-- The running handler throws: the exception leaves `post()` and the `consume` or `produce`
  around it, and reaches the code that called that. -/
  | throw
  deriving DecidableEq, Repr

def State.consume (s : State H D) (h : H) : State H D :=
  { s with
    queue := s.queue.emplaceHandler (h, s.handlers.length)
    handlers := s.handlers ++ [h]
    calls := 0 :: s.calls
    control := .post }

def State.produce (s : State H D) (d : D) : State H D :=
  { s with
    queue := s.queue.emplaceData (d, s.data.length)
    data := s.data ++ [d]
    calls := 0 :: s.calls
    control := .post }

/-- `post()` from its loop test, `n` being the handlers this call has started already. -/
def State.post (s : State H D) (n : ℕ) (outer : List ℕ) : State H D :=
  match s.queue.popPair with
  | some (p, queue) =>
    { s with queue, started := s.started ++ [p], calls := (n + 1) :: outer, control := .client }
  | none => { s with calls := outer, control := .client }

def step (s : State H D) : Action H D → Option (State H D)
  | .consume h => if s.control = .client then some (s.consume h) else none
  | .produce d => if s.control = .client then some (s.produce d) else none
  | .post =>
    match s.control, s.calls with
    | .post, n :: outer => some (s.post n outer)
    | _, _ => none
  | .ret =>
    match s.control, s.calls with
    | .client, _ :: _ => some { s with control := .post }
    | _, _ => none
  | .throw =>
    match s.control, s.calls with
    | .client, _ :: outer => some { s with calls := outer }
    | _, _ => none

/-- What a step can do, one case for each action. -/
theorem step_cases {s s' : State H D} {a : Action H D} (h : step s a = some s') :
    (∃ k, a = .consume k ∧ s.control = .client ∧ s' = s.consume k) ∨
    (∃ d, a = .produce d ∧ s.control = .client ∧ s' = s.produce d) ∨
    (∃ n outer, a = .post ∧ s.control = .post ∧ s.calls = n :: outer ∧ s' = s.post n outer) ∨
    (∃ n outer, a = .ret ∧ s.control = .client ∧ s.calls = n :: outer ∧
      s' = { s with control := .post }) ∨
    (∃ n outer, a = .throw ∧ s.control = .client ∧ s.calls = n :: outer ∧
      s' = { s with calls := outer }) := by
  cases a with
  | consume k =>
    obtain ⟨hc, h⟩ := Option.ite_none_right_eq_some.mp h
    exact .inl ⟨k, rfl, hc, (Option.some.inj h).symm⟩
  | produce d =>
    obtain ⟨hc, h⟩ := Option.ite_none_right_eq_some.mp h
    exact .inr (.inl ⟨d, rfl, hc, (Option.some.inj h).symm⟩)
  | post =>
    simp only [step] at h
    split at h
    · rename_i n outer hc hcalls
      exact .inr (.inr (.inl ⟨n, outer, rfl, hc, hcalls, (Option.some.inj h).symm⟩))
    · cases h
  | ret =>
    simp only [step] at h
    split at h
    · rename_i n outer hc hcalls
      exact .inr (.inr (.inr (.inl ⟨n, outer, rfl, hc, hcalls, (Option.some.inj h).symm⟩)))
    · cases h
  | throw =>
    simp only [step] at h
    split at h
    · rename_i n outer hc hcalls
      exact .inr (.inr (.inr (.inr ⟨n, outer, rfl, hc, hcalls, (Option.some.inj h).symm⟩)))
    · cases h

/-! ## What is enqueued is started or still queued -/

/-- Each queue holds, in order, what has been enqueued and not yet handed to a handler call. -/
structure Accounted (s : State H D) : Prop where
  handlers : s.handlers.zipIdx = s.started.map Prod.fst ++ s.queue.mHandlers
  data : s.data.zipIdx = s.started.map Prod.snd ++ s.queue.mData

theorem accounted_init : Accounted (State.init : State H D) := ⟨rfl, rfl⟩

theorem accounted_consume {s : State H D} (hs : Accounted s) (h : H) : Accounted (s.consume h) := by
  refine ⟨?_, hs.data⟩
  have hz := hs.handlers
  simp only [State.consume, emplaceHandler, List.zipIdx_append, List.zipIdx_singleton, Nat.zero_add,
    hz, List.append_assoc]

theorem accounted_produce {s : State H D} (hs : Accounted s) (d : D) : Accounted (s.produce d) := by
  refine ⟨hs.handlers, ?_⟩
  have hz := hs.data
  simp only [State.produce, emplaceData, List.zipIdx_append, List.zipIdx_singleton, Nat.zero_add,
    hz, List.append_assoc]

theorem accounted_post {s : State H D} (hs : Accounted s) (n : ℕ) (outer : List ℕ) :
    Accounted (s.post n outer) := by
  cases hp : s.queue.popPair with
  | none => simpa only [State.post, hp] using ⟨hs.handlers, hs.data⟩
  | some pq =>
    obtain ⟨p, q⟩ := pq
    obtain ⟨hh, hd⟩ := popPair_eq_some.mp hp
    simp only [State.post, hp]
    refine ⟨?_, ?_⟩
    · simpa [hh] using hs.handlers
    · simpa [hd] using hs.data

theorem accounted_step {s s' : State H D} {a : Action H D} (hs : Accounted s)
    (h : step s a = some s') : Accounted s' := by
  obtain ⟨k, -, -, rfl⟩ | ⟨d, -, -, rfl⟩ | ⟨n, outer, -, -, -, rfl⟩ | ⟨n, outer, -, -, -, rfl⟩ |
    ⟨n, outer, -, -, -, rfl⟩ := step_cases h
  · exact accounted_consume hs k
  · exact accounted_produce hs d
  · exact accounted_post hs n outer
  · exact ⟨hs.handlers, hs.data⟩
  · exact ⟨hs.handlers, hs.data⟩

theorem accounted_run {as : List (Action H D)} {s : State H D} (h : run step .init as = some s) :
    Accounted s :=
  run_invariant (fun _ _ _ hs hstep => accounted_step hs hstep) accounted_init h

/-! ## Demand and supply never meet in client code -/

def pairs (q : ProducerConsumerQueue H D) : ℕ := min q.mHandlers.length q.mData.length

theorem pairs_eq_zero {q : ProducerConsumerQueue H D} : pairs q = 0 ↔ q.OneSided := by
  rw [pairs, Nat.min_eq_zero_iff, List.length_eq_zero_iff, List.length_eq_zero_iff, OneSided]

/-- In client code no pair is left in the queue, and every active `post()` has started the one
handler it is waiting for. At the loop test the innermost `post()` and the queue have at most one
pair between them. -/
structure Matched (s : State H D) : Prop where
  client : s.control = .client → pairs s.queue = 0 ∧ ∀ n ∈ s.calls, n = 1
  post : s.control = .post → ∃ n outer, s.calls = n :: outer ∧ n + pairs s.queue ≤ 1 ∧
    ∀ m ∈ outer, m = 1

theorem matched_init : Matched (State.init : State H D) :=
  ⟨fun _ => ⟨rfl, fun _ hn => absurd hn (List.not_mem_nil)⟩, fun hc => by cases hc⟩

theorem matched_consume {s : State H D} (hs : Matched s) (hc : s.control = .client) (h : H) :
    Matched (s.consume h) := by
  obtain ⟨hp, hn⟩ := hs.client hc
  refine ⟨fun hc' => (by cases hc'), fun _ => ⟨0, s.calls, rfl, ?_, hn⟩⟩
  simp only [pairs, State.consume, emplaceHandler, List.length_append,
    List.length_singleton] at hp ⊢
  omega

theorem matched_produce {s : State H D} (hs : Matched s) (hc : s.control = .client) (d : D) :
    Matched (s.produce d) := by
  obtain ⟨hp, hn⟩ := hs.client hc
  refine ⟨fun hc' => (by cases hc'), fun _ => ⟨0, s.calls, rfl, ?_, hn⟩⟩
  simp only [pairs, State.produce, emplaceData, List.length_append, List.length_singleton] at hp ⊢
  omega

/-- The pair is popped before the handler is called, so the handler finds none. -/
theorem matched_post {s : State H D} (hs : Matched s) (hc : s.control = .post) {n : ℕ}
    {outer : List ℕ} (hcalls : s.calls = n :: outer) : Matched (s.post n outer) := by
  obtain ⟨n', outer', hcalls', hle, hout⟩ := hs.post hc
  obtain ⟨rfl, rfl⟩ := List.cons.inj (hcalls.symm.trans hcalls')
  cases hp : s.queue.popPair with
  | none =>
    have hz := pairs_eq_zero.mpr (popPair_eq_none.mp hp)
    -- the innermost call ends, in the client code around it
    simp only [State.post, hp]
    exact ⟨fun _ => ⟨hz, hout⟩, fun hc' => by cases hc'⟩
  | some pq =>
    obtain ⟨p, q⟩ := pq
    obtain ⟨hh, hd⟩ := popPair_eq_some.mp hp
    -- so this was the one pair, and the call has started no handler before
    have hpairs : pairs s.queue = pairs q + 1 := by
      simp only [pairs, hh, hd, List.length_cons]
      omega
    simp only [State.post, hp]
    refine ⟨fun _ => ⟨?_, ?_⟩, fun hc' => by cases hc'⟩
    · change pairs q = 0
      omega
    · intro m hm
      rcases List.mem_cons.mp hm with rfl | hm
      · omega
      · exact hout m hm

theorem matched_step {s s' : State H D} {a : Action H D} (hs : Matched s)
    (h : step s a = some s') : Matched s' := by
  obtain ⟨k, -, hc, rfl⟩ | ⟨d, -, hc, rfl⟩ | ⟨n, outer, -, hc, hcalls, rfl⟩ |
    ⟨n, outer, -, hc, hcalls, rfl⟩ | ⟨n, outer, -, hc, hcalls, rfl⟩ := step_cases h
  · exact matched_consume hs hc k
  · exact matched_produce hs hc d
  · exact matched_post hs hc hcalls
  · -- back at its loop test the call finds no pair left
    obtain ⟨hp, hn⟩ := hs.client hc
    rw [hcalls, List.forall_mem_cons] at hn
    exact ⟨fun hc' => (by cases hc'), fun _ => ⟨n, outer, hcalls, by simp only; omega, hn.2⟩⟩
  · obtain ⟨hp, hn⟩ := hs.client hc
    rw [hcalls, List.forall_mem_cons] at hn
    exact ⟨fun _ => ⟨hp, hn.2⟩, fun hc' => by rw [hc] at hc'; cases hc'⟩

theorem matched_run {as : List (Action H D)} {s : State H D} (h : run step .init as = some s) :
    Matched s :=
  run_invariant (fun _ _ _ hs hstep => matched_step hs hstep) matched_init h

/-- Between two calls from outside, execution is in client code. -/
theorem control_of_calls_nil {s : State H D} (hs : Matched s) (h : s.calls = []) :
    s.control = .client := by
  cases hc : s.control with
  | client => rfl
  | post =>
    obtain ⟨n, outer, hcalls, -, -⟩ := hs.post hc
    rw [h] at hcalls
    cases hcalls

end CxxUtil.Queue.Reentrancy
