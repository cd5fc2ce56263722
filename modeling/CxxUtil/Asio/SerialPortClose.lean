import CxxUtil.Asio.SerialPortAccounting

/-! # Closing the opener

`close` marks the timer and ends the wait on it, so every operation that is still open is posted
(`Closed`). A posted coroutine that sees the mark completes its operation. One that calls
`asyncOpen` first does not see it: `asyncOpen` sets the timer. -/
namespace CxxUtil.Asio.SerialPortOpener
open Foundations
set_option autoImplicit false

/-- The coroutine goes on to call `asyncOpen` without looking at the timer. -/
def Job.reopens : Job → Bool
  | .retryStart _ _ => true
  | .resume (.retry _ _) none => true
  | _ => false

/-- The timer is not armed again, and every open operation completes in the function already posted
for it. -/
structure Cancelled (s : OpenerLoop) : Prop where
  posted : ∀ op < s.world.initiated,
    op ∈ completedOps s ∨ op ∈ s.posted.map fun job => job.request.op
  final : ∀ as t, (∀ act ∈ as, act.initiates = false) → run step s as = some t →
    t.world.arms = s.world.arms ∧
      completedOps t = completedOps s ++
        (s.posted.take (as.countP Action.isNext)).map fun job => job.request.op

/-! ## A coroutine that sees the mark -/

/-- The step has completed `op` and left the timer and the queue alone. -/
structure Ended (op : ℕ) (s s' : OpenerLoop) : Prop where
  posted : s'.posted = s.posted
  waiting : s'.world.waiting = s.world.waiting
  expiry : s'.world.expiry = s.world.expiry
  arms : s'.world.arms = s.world.arms
  completed : completedOps s' = completedOps s ++ [op]

section
variable {s : OpenerLoop}

theorem ended_complete (op : ℕ) (ec : ErrorCode) (s : OpenerLoop) :
    Ended op s (complete op ec s) where
  posted := rfl
  waiting := rfl
  expiry := rfl
  arms := rfl
  completed := by simp [completedOps, complete]

theorem ended_openFinished (h : s.world.expiry = .min) (r : Request) (d : ℤ) (ec : ErrorCode) :
    Ended r.op s (openFinished r d ec s) := by
  unfold openFinished
  simp only [h, if_true]
  split <;> exact ended_complete _ _ s

theorem Ended.of_logAttempt {op : ℕ} {s' : OpenerLoop} {a : Attempt} {ec : ErrorCode}
    (h : Ended op (logAttempt a ec s) s') : Ended op s s' :=
  ⟨h.posted, h.waiting, h.expiry, h.arms, h.completed⟩

theorem Ended.of_markOpen {op p : ℕ} {s' : OpenerLoop} (h : Ended op (markOpen p s) s') :
    Ended op s s' :=
  ⟨h.posted, h.waiting, h.expiry, h.arms, h.completed⟩

theorem ended_finishOpen (h : s.world.expiry = .min) {a : Attempt} {op : ℕ}
    (ha : a.request.op = op) (ec : ErrorCode) : Ended op s (finishOpen a ec s) := by
  subst ha
  unfold finishOpen
  cases a.caller with
  | user => exact (ended_complete _ _ _).of_logAttempt
  | untilSuccess d =>
    exact (ended_openFinished (s := logAttempt a ec s) h a.request d ec).of_logAttempt

theorem ended_openStart (h : s.world.expiry = .min) (r : Request) (c : Caller) (dev : Device) :
    Ended r.op s (openStart r c dev s) := by
  unfold openStart openPort
  cases s.world.isOpen r.serialPort with
  | true => exact ended_finishOpen h (by rfl) _
  | false =>
    cases dev.open_ with
    | some e => exact ended_finishOpen h (by rfl) _
    | none =>
      have hmin : (markOpen r.serialPort s).world.expiry = .min := h
      simp only [Bool.false_eq_true, if_false, Option.isSome_none, hmin, if_true]
      exact (ended_finishOpen hmin (by rfl) _).of_markOpen

theorem ended_openSettled (h : s.world.expiry = .min) (a : Attempt) (ec : ErrorCode)
    (dev : Device) : Ended a.request.op s (openSettled a ec dev s) := by
  unfold openSettled
  simp only [h, if_true]
  split <;> exact ended_finishOpen h (by rfl) _

theorem ended_exec (h : s.world.expiry = .min) {job : Job} (hjob : job.reopens = false)
    (dev : Device) : Ended job.request.op s (exec dev job s) := by
  cases job with
  | openStart r c => exact ended_openStart h r c dev
  | retryStart r d => cases hjob
  | resume wait ec =>
    cases wait with
    | settle a => exact ended_openSettled h a ec dev
    | write a => exact ended_finishOpen h (by rfl) ec
    | retry r d =>
      cases ec with
      | none => cases hjob
      | some e => exact ended_complete _ _ s

/-! ## A coroutine that reopens -/

theorem arms_openFinished (r : Request) (d : ℤ) (ec : ErrorCode) (s : OpenerLoop) :
    s.world.arms ≤ (openFinished r d ec s).world.arms := by
  unfold openFinished
  split
  · split
    · exact Nat.le_refl _
    · exact Nat.le_succ _
  · exact Nat.le_refl _

theorem arms_finishOpen (a : Attempt) (ec : ErrorCode) (s : OpenerLoop) :
    s.world.arms ≤ (finishOpen a ec s).world.arms := by
  unfold finishOpen
  cases a.caller with
  | user => exact Nat.le_refl _
  | untilSuccess d => exact arms_openFinished a.request d ec (logAttempt a ec s)

theorem arms_openPort (p : ℕ) (outcome : ErrorCode) (s : OpenerLoop) :
    (openPort p outcome s).1.world.arms = s.world.arms := by
  unfold openPort
  split
  · rfl
  · cases outcome <;> rfl

theorem arms_openStart (r : Request) (c : Caller) (dev : Device) (s : OpenerLoop) :
    s.world.arms ≤ (openStart r c dev s).world.arms := by
  unfold openStart
  dsimp only
  rw [← arms_openPort r.serialPort dev.open_ s]
  split
  · exact arms_finishOpen _ _ _
  · split
    · exact arms_finishOpen _ _ _
    · exact Nat.le_succ _

theorem arms_asyncOpen (r : Request) (c : Caller) (dev : Device) (s : OpenerLoop) :
    s.world.arms < (asyncOpen r c dev s).world.arms := by
  unfold asyncOpen
  dsimp only
  split
  · exact Nat.lt_of_lt_of_le (Nat.lt_succ_self _) (arms_openStart r c dev (expiresFromNow 0 s))
  · exact Nat.lt_succ_self _

theorem arms_exec {job : Job} (hjob : job.reopens = true) (dev : Device) (s : OpenerLoop) :
    s.world.arms < (exec dev job s).world.arms := by
  cases job with
  | openStart r c => cases hjob
  | retryStart r d => exact arms_asyncOpen r _ dev s
  | resume wait ec =>
    cases wait with
    | settle a => cases hjob
    | write a => cases hjob
    | retry r d =>
      cases ec with
      | none => exact arms_asyncOpen r _ dev s
      | some e => cases hjob

/-! ## After `close` -/

/-- The timer is marked and nothing waits on it. -/
structure Closed (s : OpenerLoop) : Prop where
  expiry : s.world.expiry = .min
  waiting : s.world.waiting = none

theorem closed_close (s : OpenerLoop) : Closed (close s) := ⟨rfl, rfl⟩

theorem Closed.close_eq (h : Closed s) : close s = s := by
  obtain ⟨⟨expiry, waiting, isOpen, initiated, arms, attempts, completed⟩, posted⟩ := s
  obtain ⟨hexp, hwait⟩ := h
  dsimp only at hexp hwait
  subst hexp hwait
  simp [close, cancelWait, Loop.update]

theorem Ended.closed {op : ℕ} {s' : OpenerLoop} (h : Ended op s s') (hs : Closed s) : Closed s' :=
  ⟨h.expiry.trans hs.expiry, h.waiting.trans hs.waiting⟩

/-- Once the opener is closed and no posted coroutine reopens, each function that runs completes the
operation it was posted for, and the timer stays as it is. -/
theorem run_closed {as : List Action} {t : OpenerLoop} (h : Closed s)
    (hjobs : ∀ job ∈ s.posted, job.reopens = false) (has : ∀ act ∈ as, act.initiates = false)
    (hrun : run step s as = some t) :
    t.world.arms = s.world.arms ∧
      completedOps t = completedOps s ++
        (s.posted.take (as.countP Action.isNext)).map fun job => job.request.op := by
  induction as generalizing s with
  | nil =>
    obtain rfl : s = t := by simpa using hrun
    simp
  | cons act as ih =>
    obtain ⟨s', hs', hrun⟩ := run_cons_iff.mp hrun
    have hact := has act List.mem_cons_self
    have hrest := fun b hb => has b (List.mem_cons_of_mem _ hb)
    cases act with
    | asyncOpen p baud settle write dev => cases hact
    | asyncOpenUntilSuccess p baud retry settle write dev => cases hact
    | close =>
      obtain rfl : s = s' := by simpa [step, h.close_eq] using hs'
      rw [List.countP_cons_of_neg (by simp [Action.isNext])]
      exact ih h hjobs hrest hrun
    | expire =>
      -- nothing waits on the timer
      obtain ⟨wait, hw, -⟩ := step_expire.mp hs'
      rw [h.waiting] at hw
      cases hw
    | next dev =>
      obtain ⟨job, jobs, hposted, rfl⟩ := step_next.mp hs'
      rw [hposted] at hjobs
      have hended := ended_exec (s := ⟨s.world, jobs⟩) h.expiry (hjobs job List.mem_cons_self) dev
      -- the function that runs posts nothing, so `jobs` is left
      have htail : ∀ j ∈ (exec dev job ⟨s.world, jobs⟩).posted, j.reopens = false := by
        rw [hended.posted]
        exact fun j hj => hjobs j (List.mem_cons_of_mem _ hj)
      obtain ⟨harms, hcomp⟩ := ih (hended.closed ⟨h.expiry, h.waiting⟩) htail hrest hrun
      refine ⟨harms.trans hended.arms, ?_⟩
      rw [hcomp, hended.completed, hended.posted, hposted, List.countP_cons_of_pos rfl]
      simp [completedOps]

theorem exists_run_arms {jobs : List Job} (h : Closed s) (hposted : s.posted = jobs)
    (hjobs : ∃ job ∈ jobs, job.reopens = true) (dev : Device) :
    ∃ as t, (∀ act ∈ as, act.initiates = false) ∧ run step s as = some t ∧
      s.world.arms < t.world.arms := by
  induction jobs generalizing s with
  | nil => simp at hjobs
  | cons job jobs ih =>
    have hstep : step s (.next dev) = some (exec dev job ⟨s.world, jobs⟩) :=
      step_next.mpr ⟨job, jobs, hposted, rfl⟩
    cases hjob : job.reopens with
    | true =>
      exact ⟨[.next dev], _, by simp [Action.initiates], run_cons_iff.mpr ⟨_, hstep, rfl⟩,
        arms_exec hjob dev ⟨s.world, jobs⟩⟩
    | false =>
      -- the mark survives the function in front
      have hended := ended_exec (s := ⟨s.world, jobs⟩) h.expiry hjob dev
      obtain ⟨as, t, has, hrun, harms⟩ := ih (hended.closed ⟨h.expiry, h.waiting⟩) hended.posted
        (by simpa [hjob] using hjobs)
      refine ⟨.next dev :: as, t, ?_, run_cons_iff.mpr ⟨_, hstep, hrun⟩, hended.arms ▸ harms⟩
      simpa [Action.initiates] using has

end

theorem reopens_close (s : OpenerLoop) :
    (∃ job ∈ (close s).posted, job.reopens = true) ↔ ∃ job ∈ s.posted, job.reopens = true := by
  have hposted : (close s).posted =
      s.posted ++ s.world.waiting.toList.map fun w => .resume w (some .operationAborted) := rfl
  have haborted (w : Wait) : (Job.resume w (some .operationAborted)).reopens = false := by
    cases w <;> rfl
  -- what `close` itself posts has been cancelled and does not reopen
  simp only [hposted, List.mem_append, or_and_right, exists_or, List.mem_map]
  refine or_iff_left ?_
  rintro ⟨job, ⟨w, -, rfl⟩, hre⟩
  rw [haborted] at hre
  cases hre

/-- A call of `close` cancels the operations open at that time exactly when no posted coroutine is
about to call `asyncOpen`. -/
theorem close_cancels_iff {isOpen : ℕ → Bool} {as : List Action} {s s' : OpenerLoop}
    (hrun : run step (init isOpen) as = some s) (hclose : step s .close = some s') :
    Cancelled s' ↔ ∀ job ∈ s.posted, job.reopens = false := by
  obtain rfl : close s = s' := by simpa [step] using hclose
  have haccounted : Accounted (close s) := accounted_step s .close _ (accounted_run hrun) hclose
  have hclosed := closed_close s
  have hjobs := reopens_close s
  constructor
  · intro h job hjob
    by_contra hre
    obtain ⟨bs, t, hbs, ht, harms⟩ := exists_run_arms hclosed rfl
      (hjobs.mpr ⟨job, hjob, by simpa using hre⟩) (.atOnce none none)
    have := (h.final bs t hbs ht).1
    omega
  · intro h
    have hno : ∀ job ∈ (close s).posted, job.reopens = false := by
      by_contra hex
      push Not at hex
      obtain ⟨job, hjob, hre⟩ := hjobs.mp (by simpa using hex)
      rw [h job hjob] at hre
      cases hre
    refine ⟨fun op hop => ?_, fun bs t hbs ht => run_closed hclosed hno hbs ht⟩
    simpa [requests, hclosed.waiting] using (IssuedOnce.mem_iff haccounted).mpr hop

theorem close_cancels_settling :
    ∃ s s', run step (init fun _ => false)
        [.asyncOpen 0 9600 500 100 (.atOnce none none)] = some s ∧
      step s .close = some s' ∧ s'.posted ≠ [] ∧ Cancelled s' := by
  have hrun : run step (init fun _ => false) [.asyncOpen 0 9600 500 100 (.atOnce none none)] =
    some _ := rfl
  exact ⟨_, _, hrun, rfl, by decide, (close_cancels_iff hrun rfl).mpr (by decide)⟩

/-- `close` between the end of the retry delay and the resumption of the coroutine is lost: the
coroutine opens again and arms the timer. -/
theorem close_lost_after_retry_delay :
    ∃ s s', run step (init fun _ => false)
        [.asyncOpenUntilSuccess 0 9600 1000 500 100 (.atOnce (some (.other 2)) none),
          .expire] = some s ∧
      step s .close = some s' ∧ ¬ Cancelled s' := by
  refine ⟨_, _, rfl, rfl, fun h => ?_⟩
  have harms := (h.final [.next (.atOnce none none)] _ (by simp [Action.initiates]) rfl).1
  revert harms
  decide

end CxxUtil.Asio.SerialPortOpener
