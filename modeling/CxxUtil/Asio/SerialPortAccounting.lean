import CxxUtil.Asio.SerialPortOpener

/-! # Every open goes on or has completed

`requests` lists the operations whose coroutine is posted or waits on the timer. Each operation the
user has initiated is there once, or has completed once (`accounted_run`). While a coroutine runs it
is in neither place, which is what `Running` says. -/
namespace CxxUtil.Asio.SerialPortOpener
open Foundations
set_option autoImplicit false

/-- The operations whose coroutine is to go on, in the order in which it will when the wait ends
last. -/
def requests (s : OpenerLoop) : List Request :=
  s.posted.map Job.request ++ s.world.waiting.toList.map Wait.request

def completedOps (s : OpenerLoop) : List ℕ := s.world.completed.map Prod.fst

def Accounted (s : OpenerLoop) : Prop :=
  IssuedOnce s.world.initiated (completedOps s ++ (requests s).map Request.op)

/-- As `Accounted`, with the coroutine of `r` in the middle of a step. -/
def Running (r : Request) (s : OpenerLoop) : Prop :=
  IssuedOnce s.world.initiated (completedOps s ++ r.op :: (requests s).map Request.op)

/-! ## The timer -/

@[simp] theorem requests_cancelWait (s : OpenerLoop) : requests (cancelWait s) = requests s := by
  simp [requests, cancelWait, Function.comp_def, Job.request]

@[simp] theorem requests_expiresFromNow (d : ℤ) (s : OpenerLoop) :
    requests (expiresFromNow d s) = requests s :=
  requests_cancelWait s

@[simp] theorem requests_close (s : OpenerLoop) : requests (close s) = requests s :=
  requests_cancelWait s

theorem mem_posted_expiresFromNow {d : ℤ} {s : OpenerLoop} {job : Job} :
    job ∈ (expiresFromNow d s).posted ↔
      job ∈ s.posted ∨ ∃ wait ∈ s.world.waiting, .resume wait (some .operationAborted) = job := by
  simp [expiresFromNow, cancelWait]

theorem requests_wait (wait : Wait) (d : ℤ) (s : OpenerLoop) :
    requests (asyncWait wait (expiresFromNow d s)) = requests s ++ [wait.request] := by
  rw [← requests_expiresFromNow d s]
  simp [requests, asyncWait, expiresFromNow, cancelWait]

section
variable {r : Request} {s : OpenerLoop}

theorem Running.completed (h : Running r s) (ec : ErrorCode) : Accounted (complete r.op ec s) := by
  refine IssuedOnce.perm h ?_
  simp [completedOps, complete, requests]

theorem Running.waits (h : Running r s) {wait : Wait} (hw : wait.request = r) (d : ℤ) :
    Accounted (asyncWait wait (expiresFromNow d s)) := by
  refine IssuedOnce.perm h ?_
  rw [requests_wait, hw, List.map_append]
  exact List.Perm.append_left _ List.perm_append_comm

theorem Running.posted (h : Running r s) {job : Job} (hj : job.request = r) :
    Accounted (s.post job) := by
  refine IssuedOnce.perm h (List.Perm.append_left _ ?_)
  simp [requests, hj]

/-! ## The coroutines -/

theorem Running.openFinished (h : Running r s) (d : ℤ) (ec : ErrorCode) :
    Accounted (openFinished r d ec s) := by
  unfold SerialPortOpener.openFinished
  split
  · split
    · exact h.completed _
    · exact h.waits rfl d
  · exact h.completed ec

theorem Running.finishOpen {a : Attempt} (h : Running r s) (ha : a.request = r) (ec : ErrorCode) :
    Accounted (finishOpen a ec s) := by
  subst ha
  unfold SerialPortOpener.finishOpen
  cases a.caller with
  | user => exact Running.completed (s := logAttempt a ec s) h ec
  | untilSuccess d => exact Running.openFinished (s := logAttempt a ec s) h d ec

theorem Running.openPort (h : Running r s) (p : ℕ) (outcome : ErrorCode) :
    Running r (openPort p outcome s).1 := by
  unfold SerialPortOpener.openPort
  split
  · exact h
  · cases outcome <;> exact h

theorem Running.openStart (h : Running r s) (c : Caller) (dev : Device) :
    Accounted (openStart r c dev s) := by
  have hport := h.openPort r.serialPort dev.open_
  unfold SerialPortOpener.openStart
  dsimp only
  split
  · exact hport.finishOpen (by rfl) _
  · split
    · exact hport.finishOpen (by rfl) _
    · exact hport.waits rfl _

theorem Running.openSettled {a : Attempt} (h : Running a.request s) (ec : ErrorCode)
    (dev : Device) : Accounted (openSettled a ec dev s) := by
  unfold SerialPortOpener.openSettled
  dsimp only
  split
  · exact h.finishOpen (by rfl) _
  · split
    · exact h.finishOpen (by rfl) _
    · exact h.waits rfl _

theorem Running.asyncOpen (h : Running r s) (c : Caller) (dev : Device) :
    Accounted (asyncOpen r c dev s) := by
  have harmed : Running r (expiresFromNow 0 s) := by
    unfold Running
    rwa [requests_expiresFromNow]
  unfold SerialPortOpener.asyncOpen
  dsimp only
  split
  · exact harmed.openStart c dev
  · exact harmed.posted rfl

theorem Running.retryWaited (h : Running r s) (d : ℤ) (ec : ErrorCode) (dev : Device) :
    Accounted (retryWaited r d ec dev s) := by
  unfold SerialPortOpener.retryWaited
  split
  · exact h.completed ec
  · exact h.asyncOpen _ dev

theorem Running.asyncOpenUntilSuccess (h : Running r s) (d : ℤ) (dev : Device) :
    Accounted (asyncOpenUntilSuccess r d dev s) := by
  unfold SerialPortOpener.asyncOpenUntilSuccess
  split
  · exact h.asyncOpen _ dev
  · exact h.posted rfl

theorem Running.exec {job : Job} (h : Running job.request s) (dev : Device) :
    Accounted (exec dev job s) := by
  cases job with
  | openStart r c => exact Running.openStart h c dev
  | retryStart r d => exact Running.asyncOpen h _ dev
  | resume wait ec =>
    cases wait with
    | settle a => exact Running.openSettled h ec dev
    | write a => exact h.finishOpen (by rfl) ec
    | retry r d => exact Running.retryWaited h d ec dev

end

/-! ## Runs -/

theorem accounted_init (isOpen : ℕ → Bool) : Accounted (init isOpen) := IssuedOnce.nil

theorem running_initiate {s : OpenerLoop} (h : Accounted s) {r : Request}
    (hr : r.op = s.world.initiated) : Running r (initiate s) := by
  have hissue := IssuedOnce.issue h
  rw [List.append_assoc] at hissue
  unfold Running
  rw [hr]
  exact hissue.perm (List.Perm.append_left _ (List.perm_append_singleton _ _).symm)

theorem running_next {s : OpenerLoop} (h : Accounted s) {job : Job} {jobs : List Job}
    (hjobs : s.posted = job :: jobs) : Running job.request ⟨s.world, jobs⟩ := by
  simpa [Accounted, Running, requests, completedOps, hjobs] using h

theorem accounted_step (s : OpenerLoop) (act : Action) (s' : OpenerLoop) (h : Accounted s)
    (hs : step s act = some s') : Accounted s' := by
  cases act with
  | asyncOpen p baud settle write dev =>
    obtain rfl := Option.some.inj hs
    exact (running_initiate h rfl).asyncOpen _ dev
  | asyncOpenUntilSuccess p baud retry settle write dev =>
    obtain rfl := Option.some.inj hs
    exact (running_initiate h rfl).asyncOpenUntilSuccess _ dev
  | close =>
    obtain rfl := Option.some.inj hs
    unfold Accounted
    rw [requests_close]
    exact h
  | expire =>
    obtain ⟨wait, hw, rfl⟩ := step_expire.mp hs
    simpa [Accounted, requests, completedOps, hw, Job.request] using h
  | next dev =>
    obtain ⟨job, jobs, hjobs, rfl⟩ := step_next.mp hs
    exact (running_next h hjobs).exec dev

theorem accounted_run {isOpen : ℕ → Bool} {as : List Action} {s : OpenerLoop}
    (h : run step (init isOpen) as = some s) : Accounted s :=
  run_invariant accounted_step (accounted_init isOpen) h

end CxxUtil.Asio.SerialPortOpener
