import CxxUtil.Queue.Reentrancy

/-! # What the queue delivers

Every finite run of calls, nested and throwing ones included: the pairs handed to handlers, what
stays queued, and what `depth()` reads at every moment client code can look. The last section
shows that the loop run to its end for handlers that leave the queue alone
(`ProducerConsumerQueue.consume`, `produce`) is a run of this machine. -/
namespace CxxUtil.Queue.Reentrancy
open Foundations ProducerConsumerQueue
set_option autoImplicit false

variable {H D : Type*}

/-! ## Exactly once and in order -/

theorem Accounted.started_get {s : State H D} (hs : Accounted s) {k : ℕ}
    {p : (H × ℕ) × (D × ℕ)} (hk : s.started[k]? = some p) :
    ∃ (h : H) (d : D), s.handlers[k]? = some h ∧ s.data[k]? = some d ∧ p = ((h, k), (d, k)) := by
  have hlt : k < s.started.length := (List.getElem?_eq_some_iff.mp hk).1
  have hh : s.handlers.zipIdx[k]? = some p.1 := by
    rw [hs.handlers, List.getElem?_append_left (by simpa using hlt)]
    simp [hk]
  have hd : s.data.zipIdx[k]? = some p.2 := by
    rw [hs.data, List.getElem?_append_left (by simpa using hlt)]
    simp [hk]
  simp only [List.getElem?_zipIdx, Option.map_eq_some_iff, Nat.zero_add] at hh hd
  obtain ⟨h, hh, hp1⟩ := hh
  obtain ⟨d, hd, hp2⟩ := hd
  exact ⟨h, d, hh, hd, by rw [hp1, hp2]⟩

theorem Accounted.started_numbers {s : State H D} (hs : Accounted s) :
    s.started.map (fun p => p.1.2) = List.range s.started.length ∧
      s.started.map (fun p => p.2.2) = List.range s.started.length := by
  constructor
  all_goals
    refine List.ext_getElem? fun k => ?_
    by_cases hk : k < s.started.length
    · obtain ⟨h, d, -, -, hp⟩ := hs.started_get (List.getElem?_eq_getElem hk)
      simp [List.getElem?_range hk, List.getElem?_eq_getElem hk, hp]
    · simp [hk]

theorem Accounted.queued {s : State H D} (hs : Accounted s) :
    s.queue.mHandlers = s.handlers.zipIdx.drop s.started.length ∧
      s.queue.mData = s.data.zipIdx.drop s.started.length := by
  constructor
  · rw [hs.handlers, List.drop_left' (by simp)]
  · rw [hs.data, List.drop_left' (by simp)]

theorem Accounted.lengths {s : State H D} (hs : Accounted s) :
    s.handlers.length = s.started.length + s.queue.mHandlers.length ∧
      s.data.length = s.started.length + s.queue.mData.length := by
  have hh := congrArg List.length hs.handlers
  have hd := congrArg List.length hs.data
  simp only [List.length_zipIdx, List.length_append, List.length_map] at hh hd
  exact ⟨hh, hd⟩

/-- The `k`-th invocation to start is the `k`-th handler enqueued on the `k`-th datum enqueued, no
number is used twice, and whenever no call is active exactly the first pairs have been started, all
else being queued in its original order. -/
theorem delivers_exactly_once_in_order {as : List (Action H D)} {s : State H D}
    (hrun : run step .init as = some s) :
    (∀ (k : ℕ) p, s.started[k]? = some p →
      ∃ (h : H) (d : D), s.handlers[k]? = some h ∧ s.data[k]? = some d ∧ p = ((h, k), (d, k))) ∧
    (s.started.map fun p => p.1.2).Nodup ∧ (s.started.map fun p => p.2.2).Nodup ∧
    (s.calls = [] →
      s.started.length = min s.handlers.length s.data.length ∧
      s.queue.mHandlers = s.handlers.zipIdx.drop s.started.length ∧
      s.queue.mData = s.data.zipIdx.drop s.started.length) := by
  have hacc := accounted_run hrun
  have hmat := matched_run hrun
  obtain ⟨hnum, dnum⟩ := hacc.started_numbers
  refine ⟨fun k p hk => hacc.started_get hk, ?_, ?_, fun hcalls => ⟨?_, hacc.queued⟩⟩
  · rw [hnum]; exact List.nodup_range
  · rw [dnum]; exact List.nodup_range
  · -- outside of all calls no pair is left, so one of the two queues is exhausted
    have hpairs := (hmat.client (control_of_calls_nil hmat hcalls)).1
    obtain ⟨hl, dl⟩ := hacc.lengths
    rw [pairs] at hpairs
    omega

/-- A handler that, called by `produce`, calls `consume` and `produce` itself; the handler started
inside throws, and so does the outer one. -/
def throwingRun : List (Action Char ℕ) :=
  [.consume 'a', .post, .produce 1, .post, .consume 'b', .post, .produce 2, .post, .throw,
    .produce 3, .post, .throw]

theorem delivers_exactly_once_in_order_throwing :
    ∃ s : State Char ℕ, run step .init throwingRun = some s ∧ s.calls = [] ∧
      s.started.length = min s.handlers.length s.data.length := by
  obtain ⟨s, hs⟩ : ∃ s, run step .init throwingRun = some s := Option.isSome_iff_exists.mp rfl
  have hcalls : s.calls = [] := by
    obtain rfl := Option.some.inj hs
    rfl
  exact ⟨s, hs, hcalls, ((delivers_exactly_once_in_order hs).2.2.2 hcalls).1⟩

/-! ## Never demand and supply at once -/

/-- Wherever client code runs, one of the two queues is empty and `depth()` is the number of data
enqueued minus the number of handlers enqueued, if that fits in `int`; and no call of `post()` has
started more than one handler itself. -/
theorem one_sided_with_exact_depth {as : List (Action H D)} {s : State H D}
    (h : run step .init as = some s) :
    (s.control = .client →
      s.queue.OneSided ∧
      (-2 ^ 31 ≤ (s.data.length : ℤ) - s.handlers.length →
        (s.data.length : ℤ) - s.handlers.length < 2 ^ 31 →
        s.queue.depth = (s.data.length : ℤ) - s.handlers.length)) ∧
    ∀ n ∈ s.calls, n ≤ 1 := by
  have hmat := matched_run h
  obtain ⟨hl, dl⟩ := (accounted_run h).lengths
  have hsub : (s.queue.mData.length : ℤ) - s.queue.mHandlers.length =
      (s.data.length : ℤ) - s.handlers.length := by omega
  constructor
  · intro hc
    refine ⟨pairs_eq_zero.mp (hmat.client hc).1, fun hlo hhi => ?_⟩
    rw [← hsub] at hlo hhi ⊢
    exact depth_eq_sub hlo hhi
  · intro n hn
    cases hc : s.control with
    | client => exact Nat.le_of_eq ((hmat.client hc).2 n hn)
    | post =>
      obtain ⟨m, outer, hcalls, hle, hout⟩ := hmat.post hc
      rw [hcalls] at hn
      rcases List.mem_cons.mp hn with rfl | hn
      · omega
      · exact Nat.le_of_eq (hout n hn)

theorem one_sided_with_exact_depth_throwing :
    ∃ s : State Char ℕ, run step .init throwingRun = some s ∧ s.queue.depth = 1 := by
  obtain ⟨s, hs⟩ : ∃ s, run step .init throwingRun = some s := Option.isSome_iff_exists.mp rfl
  obtain ⟨hc, hd, hh⟩ : s.control = .client ∧ s.data.length = 3 ∧ s.handlers.length = 2 := by
    obtain rfl := Option.some.inj hs
    exact ⟨rfl, rfl, rfl⟩
  have hdepth := ((one_sided_with_exact_depth hs).1 hc).2
  rw [hd, hh] at hdepth
  exact ⟨s, hs, hdepth (by decide) (by decide)⟩

/-! ## Handlers that leave the queue alone -/

section Quiet
variable {σ : Type*} (call : H × ℕ → D × ℕ → σ → σ)

/-- `ProducerConsumerQueue.post` is a run of the machine in which every handler returns at once. -/
theorem post_run (hs : List (H × ℕ)) (ds : List (D × ℕ)) (s : State H D) (n : ℕ) (outer : List ℕ)
    (x : σ) (hc : s.control = .post) (hcalls : s.calls = n :: outer) (hq : s.queue = ⟨hs, ds⟩) :
    ∃ as ps, (∀ a ∈ as, a = .post ∨ a = .ret) ∧
      (post call hs ds x).2 = ps.foldl (fun x p => call p.1 p.2 x) x ∧
      run step s as = some { s with
        queue := (post call hs ds x).1, calls := outer, control := .client,
        started := s.started ++ ps } := by
  induction hs generalizing s n ds x with
  | nil =>
    refine ⟨[.post], [], by simp, by simp, ?_⟩
    simp [run, step, hc, hcalls, State.post, hq, popPair]
  | cons h hs ih =>
    cases ds with
    | nil =>
      refine ⟨[.post], [], by simp, by simp, ?_⟩
      simp [run, step, hc, hcalls, State.post, hq, popPair]
    | cons d ds =>
      -- the handler is called, leaves the queue alone and returns
      obtain ⟨as, ps, has, hx, hrun⟩ := ih ds
        { s with
          queue := ⟨hs, ds⟩, started := s.started ++ [(h, d)], calls := (n + 1) :: outer,
          control := .post } (n + 1) (call h d x) rfl rfl rfl
      refine ⟨.post :: .ret :: as, (h, d) :: ps, ?_, ?_, ?_⟩
      · simpa using has
      · simpa [post] using hx
      · simpa [run, step, hc, hcalls, State.post, hq, popPair, post] using hrun

theorem consume_run (s : State H D) (h : H) (x : σ) (hc : s.control = .client) :
    ∃ as ps, (∀ a ∈ as, a = .post ∨ a = .ret) ∧
      (consume call s.queue (h, s.handlers.length) x).2 = ps.foldl (fun x p => call p.1 p.2 x) x ∧
      run step s (.consume h :: as) = some { s with
        queue := (consume call s.queue (h, s.handlers.length) x).1,
        handlers := s.handlers ++ [h], started := s.started ++ ps } := by
  obtain ⟨as, ps, has, hx, hrun⟩ := post_run call _ _ (s.consume h) 0 s.calls x rfl rfl rfl
  refine ⟨as, ps, has, hx, run_cons_iff.mpr ⟨s.consume h, by simp [step, hc], ?_⟩⟩
  rw [hrun]
  simp [State.consume, consume, emplaceHandler, hc]

theorem produce_run (s : State H D) (d : D) (x : σ) (hc : s.control = .client) :
    ∃ as ps, (∀ a ∈ as, a = .post ∨ a = .ret) ∧
      (produce call s.queue (d, s.data.length) x).2 = ps.foldl (fun x p => call p.1 p.2 x) x ∧
      run step s (.produce d :: as) = some { s with
        queue := (produce call s.queue (d, s.data.length) x).1,
        data := s.data ++ [d], started := s.started ++ ps } := by
  obtain ⟨as, ps, has, hx, hrun⟩ := post_run call _ _ (s.produce d) 0 s.calls x rfl rfl rfl
  refine ⟨as, ps, has, hx, run_cons_iff.mpr ⟨s.produce d, by simp [step, hc], ?_⟩⟩
  rw [hrun]
  simp [State.produce, produce, emplaceData, hc]

end Quiet
end CxxUtil.Queue.Reentrancy
