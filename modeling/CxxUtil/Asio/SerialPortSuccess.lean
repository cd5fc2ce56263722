import CxxUtil.Asio.SerialPortHistories

/-! # What a successful open has been through

The code of the settle wait reaches the end of the attempt because `setSerialPortOptions` writes to
`ec` only when an option throws. An `asyncOpenUntilSuccess` that reports success reports that of the
attempt it logged last, and no attempt of it comes after that. -/
namespace CxxUtil.Asio.SerialPortOpener
open Foundations
set_option autoImplicit false

def settledHistory (baudRate : UInt32) : List Event :=
  [.opened none, .settled none, .set (.baudRate baudRate) none, .set (.characterSize 8) none,
    .set (.parity .none) none, .set (.stopBits .one) none, .set (.flowControl .none) none]

/-- Opened, settled, all five options set in their order, written. -/
def setUpHistory (baudRate : UInt32) : List Event := settledHistory baudRate ++ [.written none]

def Wait.OnCourse (_ : ℕ → Bool) : Wait → Prop
  | settle a => a.history = [.opened none]
  | write a => a.history = settledHistory a.request.baudRate
  | retry _ _ => True

def Finished.SetUpIfSuccess (f : Finished) : Prop :=
  f.ec = none → f.history = setUpHistory f.request.baudRate

theorem onCourseRules : HistoryRules Wait.OnCourse Finished.SetUpIfSuccess where
  retry _ _ _ := trivial
  mark isOpen wait p hw := by cases wait <;> exact hw
  openFailed r c e leftOpen := nofun
  openCancelled r c e := nofun
  opened isOpen r c _ := rfl
  settleFailed isOpen a ec dev e _ := nofun
  settled isOpen a ec dev ha hnone := by
    obtain ⟨rfl, htried⟩ :=
      (setSerialPortOptions_eq_none_iff dev.setOption a.request.baudRate ec).mp hnone
    have ha : a.history = [.opened none] := ha
    show (a.afterSettle none dev).history = _
    simp [Attempt.afterSettle, settledHistory, serialOptions, htried, ha]
  written isOpen a ec ha := by
    rintro rfl
    exact congrArg (· ++ [Event.written none]) ha

/-! ## The last attempt of an operation -/

/-- The code that the last attempt made for an operation has ended with. -/
def lastEc (s : OpenerLoop) (op : ℕ) : Option ErrorCode :=
  (s.world.attempts.filter fun f => f.request.op == op).getLast?.map (·.ec)

/-- A success that was reported is that of the last attempt. -/
def LastSucceeded (s : OpenerLoop) : Prop :=
  ∀ op, (op, none) ∈ s.world.completed → lastEc s op = some none

theorem lastEc_logAttempt (a : Attempt) (ec : ErrorCode) (s : OpenerLoop) (op : ℕ) :
    lastEc (logAttempt a ec s) op = if a.request.op = op then some ec else lastEc s op := by
  by_cases hop : a.request.op = op <;> simp [lastEc, logAttempt, List.filter_append, hop]

section
variable {s : OpenerLoop} {r : Request}

theorem Running.not_completed (h : Running r s) (ec : ErrorCode) :
    (r.op, ec) ∉ s.world.completed := by
  intro hmem
  have hnodup := h.nodup
  rw [List.nodup_append] at hnodup
  exact hnodup.2.2 r.op (List.mem_map.mpr ⟨_, hmem, rfl⟩) r.op List.mem_cons_self rfl

theorem LastSucceeded.completed (h : LastSucceeded s) {op : ℕ} {ec : ErrorCode}
    (hec : ec = none → lastEc s op = some none) : LastSucceeded (complete op ec s) := by
  intro op' hmem
  rcases List.mem_append.mp hmem with hmem | hmem
  · exact h op' hmem
  · obtain ⟨rfl, rfl⟩ := Prod.mk.inj (List.mem_singleton.mp hmem)
    exact hec rfl

theorem LastSucceeded.logAttempt (h : LastSucceeded s) {a : Attempt} (hrun : Running a.request s)
    (ec : ErrorCode) : LastSucceeded (logAttempt a ec s) := by
  intro op hmem
  have hne : a.request.op ≠ op := by
    rintro rfl
    exact hrun.not_completed none hmem
  rw [lastEc_logAttempt, if_neg hne]
  exact h op hmem

theorem LastSucceeded.openFinished (h : LastSucceeded s) (d : ℤ) {ec : ErrorCode}
    (hec : lastEc s r.op = some ec) : LastSucceeded (openFinished r d ec s) := by
  unfold SerialPortOpener.openFinished
  split
  · split
    · exact h.completed nofun
    · exact h
  · exact h.completed fun hnone => hnone ▸ hec

theorem LastSucceeded.finishOpen (h : LastSucceeded s) {a : Attempt}
    (hrun : Running a.request s) (ec : ErrorCode) : LastSucceeded (finishOpen a ec s) := by
  have hlogged := h.logAttempt hrun ec
  have hlast : lastEc (SerialPortOpener.logAttempt a ec s) a.request.op = some ec := by
    rw [lastEc_logAttempt, if_pos rfl]
  unfold SerialPortOpener.finishOpen
  cases a.caller with
  | user => exact hlogged.completed fun hnone => hnone ▸ hlast
  | untilSuccess d => exact hlogged.openFinished d hlast

theorem LastSucceeded.openStart (h : LastSucceeded s) (hrun : Running r s) (c : Caller)
    (dev : Device) : LastSucceeded (openStart r c dev s) := by
  have hport : LastSucceeded (openPort r.serialPort dev.open_ s).1 := by
    unfold openPort
    split
    · exact h
    · cases dev.open_ <;> exact h
  have hrun := hrun.openPort r.serialPort dev.open_
  unfold SerialPortOpener.openStart
  dsimp only
  split
  · exact hport.finishOpen hrun _
  · split
    · exact hport.finishOpen hrun _
    · exact hport

theorem LastSucceeded.openSettled (h : LastSucceeded s) {a : Attempt} (hrun : Running a.request s)
    (ec : ErrorCode) (dev : Device) : LastSucceeded (openSettled a ec dev s) := by
  unfold SerialPortOpener.openSettled
  dsimp only
  split
  · exact h.finishOpen (a := a.afterSettle ec dev) hrun _
  · split
    · exact h.finishOpen (a := a.afterSettle ec dev) hrun _
    · exact h

theorem LastSucceeded.asyncOpen (h : LastSucceeded s) (hrun : Running r s) (c : Caller)
    (dev : Device) : LastSucceeded (asyncOpen r c dev s) := by
  have harmed : Running r (expiresFromNow 0 s) := by
    unfold Running
    rwa [requests_expiresFromNow]
  unfold SerialPortOpener.asyncOpen
  dsimp only
  split
  · exact LastSucceeded.openStart (s := expiresFromNow 0 s) h harmed c dev
  · exact h

theorem LastSucceeded.exec (h : LastSucceeded s) {job : Job} (hrun : Running job.request s)
    (dev : Device) : LastSucceeded (exec dev job s) := by
  cases job with
  | openStart r c => exact h.openStart hrun c dev
  | retryStart r d => exact h.asyncOpen hrun _ dev
  | resume wait ec =>
    cases wait with
    | settle a => exact h.openSettled hrun ec dev
    | write a => exact h.finishOpen (a := { a with history := a.history ++ [.written ec] }) hrun ec
    | retry r d =>
      show LastSucceeded (retryWaited r d ec dev s)
      unfold retryWaited
      split
      case isTrue hec => exact h.completed fun hnone => by simp [hnone] at hec
      case isFalse => exact h.asyncOpen hrun _ dev

end

theorem lastSucceeded_step (s : OpenerLoop) (act : Action) (s' : OpenerLoop)
    (h : Accounted s ∧ LastSucceeded s) (hs : step s act = some s') :
    Accounted s' ∧ LastSucceeded s' := by
  refine ⟨accounted_step s act s' h.1 hs, ?_⟩
  obtain ⟨hacc, hlast⟩ := h
  cases act with
  | asyncOpen p baud settle write dev =>
    obtain rfl := Option.some.inj hs
    exact LastSucceeded.asyncOpen (s := initiate s) hlast (running_initiate hacc rfl) _ dev
  | asyncOpenUntilSuccess p baud retry settle write dev =>
    obtain rfl := Option.some.inj hs
    unfold asyncOpenUntilSuccess
    split
    · exact LastSucceeded.asyncOpen (s := initiate s) hlast (running_initiate hacc rfl) _ dev
    · exact hlast
  | close =>
    obtain rfl := Option.some.inj hs
    exact hlast
  | expire =>
    obtain ⟨wait, hw, rfl⟩ := step_expire.mp hs
    exact hlast
  | next dev =>
    obtain ⟨job, jobs, hjobs, rfl⟩ := step_next.mp hs
    exact LastSucceeded.exec (s := ⟨s.world, jobs⟩) hlast (running_next hacc hjobs) dev

theorem lastSucceeded_run {isOpen : ℕ → Bool} {as : List Action} {s : OpenerLoop}
    (h : run step (init isOpen) as = some s) : LastSucceeded s :=
  (run_invariant lastSucceeded_step ⟨accounted_init isOpen, nofun⟩ h).2

/-- An operation that has completed has no coroutine left. -/
theorem Accounted.not_requested {s : OpenerLoop} (h : Accounted s) {op : ℕ} {ec : ErrorCode}
    (hmem : (op, ec) ∈ s.world.completed) : ∀ r ∈ requests s, r.op ≠ op := by
  intro r hr heq
  have hnodup := h.nodup
  rw [List.nodup_append] at hnodup
  exact hnodup.2.2 op (List.mem_map.mpr ⟨_, hmem, rfl⟩) r.op (List.mem_map.mpr ⟨r, hr, rfl⟩)
    heq.symm

end CxxUtil.Asio.SerialPortOpener
