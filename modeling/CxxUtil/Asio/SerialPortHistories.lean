import CxxUtil.Asio.SerialPortAccounting

/-! # Properties of every attempt

A property `W` of the coroutines that wait and a property `F` of the attempts that have ended are
kept by all steps when the coroutines establish one from the other between two yields
(`HistoryRules`): the timer and the loop only move the waits around. -/
namespace CxxUtil.Asio.SerialPortOpener
open Foundations
set_option autoImplicit false

/-- `W` holds of every wait, given the ports that are open, and `F` of every finished attempt. -/
structure Kept (W : (ℕ → Bool) → Wait → Prop) (F : Finished → Prop) (s : OpenerLoop) : Prop where
  posted : ∀ wait ec, .resume wait ec ∈ s.posted → W s.world.isOpen wait
  waiting : ∀ wait ∈ s.world.waiting, W s.world.isOpen wait
  attempts : ∀ f ∈ s.world.attempts, F f

/-- The attempt after the settle wait ended with `ec` and the options were set. -/
def Attempt.afterSettle (a : Attempt) (ec : ErrorCode) (dev : Device) : Attempt :=
  { a with history := a.history ++ .settled ec ::
      (setSerialPortOptions dev.setOption a.request.baudRate ec).1.map fun t => .set t.1 t.2 }

structure HistoryRules (W : (ℕ → Bool) → Wait → Prop) (F : Finished → Prop) : Prop where
  retry : ∀ isOpen r d, W isOpen (.retry r d)
  mark : ∀ isOpen wait p, W isOpen wait → W (Function.update isOpen p true) wait
  openFailed : ∀ r c e leftOpen, F ⟨⟨r, c, !leftOpen, [.opened (some e)]⟩, some e, leftOpen⟩
  openCancelled : ∀ r c e, F ⟨⟨r, c, true, [.opened none]⟩, some e, true⟩
  opened : ∀ isOpen r c, isOpen r.serialPort = true →
    W isOpen (.settle ⟨r, c, true, [.opened none]⟩)
  settleFailed : ∀ isOpen a ec dev e, W isOpen (.settle a) →
    F ⟨a.afterSettle ec dev, some e, isOpen a.request.serialPort⟩
  settled : ∀ isOpen a ec dev, W isOpen (.settle a) →
    (setSerialPortOptions dev.setOption a.request.baudRate ec).2 = none →
    W isOpen (.write (a.afterSettle ec dev))
  written : ∀ isOpen a ec, W isOpen (.write a) →
    F ⟨{ a with history := a.history ++ [.written ec] }, ec, isOpen a.request.serialPort⟩

namespace Kept
variable {W : (ℕ → Bool) → Wait → Prop} {F : Finished → Prop} {s : OpenerLoop}

theorem init (isOpen : ℕ → Bool) : Kept W F (init isOpen) := ⟨nofun, nofun, nofun⟩

theorem expiresFromNow (h : Kept W F s) (d : ℤ) : Kept W F (expiresFromNow d s) where
  posted wait ec hmem := by
    rcases mem_posted_expiresFromNow.mp hmem with hmem | ⟨wait', hwait, heq⟩
    · exact h.posted wait ec hmem
    · obtain ⟨rfl, -⟩ := Job.resume.inj heq
      exact h.waiting _ hwait
  waiting wait hmem := by simp [SerialPortOpener.expiresFromNow, cancelWait] at hmem
  attempts := h.attempts

theorem waits (h : Kept W F s) {wait : Wait} (hw : W s.world.isOpen wait) (d : ℤ) :
    Kept W F (asyncWait wait (SerialPortOpener.expiresFromNow d s)) where
  posted := (h.expiresFromNow d).posted
  waiting wait' hmem := by
    obtain rfl : wait = wait' := by simpa [asyncWait] using hmem
    exact hw
  attempts := h.attempts

theorem post (h : Kept W F s) {job : Job}
    (hjob : ∀ wait ec, job = .resume wait ec → W s.world.isOpen wait) : Kept W F (s.post job) := by
  refine ⟨fun wait ec hmem => ?_, h.waiting, h.attempts⟩
  rcases List.mem_append.mp hmem with hmem | hmem
  · exact h.posted wait ec hmem
  · exact hjob wait ec (List.mem_singleton.mp hmem).symm

theorem complete (h : Kept W F s) (op : ℕ) (ec : ErrorCode) : Kept W F (complete op ec s) :=
  ⟨h.posted, h.waiting, h.attempts⟩

theorem logAttempt (h : Kept W F s) {a : Attempt} {ec : ErrorCode}
    (ha : F ⟨a, ec, s.world.isOpen a.request.serialPort⟩) : Kept W F (logAttempt a ec s) := by
  refine ⟨h.posted, h.waiting, fun f hf => ?_⟩
  rcases List.mem_append.mp hf with hf | hf
  · exact h.attempts f hf
  · obtain rfl := List.mem_singleton.mp hf
    exact ha

section
variable (rules : HistoryRules W F)
include rules

theorem markOpen (h : Kept W F s) (p : ℕ) : Kept W F (markOpen p s) :=
  ⟨fun wait ec hmem => rules.mark _ _ p (h.posted wait ec hmem),
    fun wait hmem => rules.mark _ _ p (h.waiting wait hmem), h.attempts⟩

theorem openFinished (h : Kept W F s) (r : Request) (d : ℤ) (ec : ErrorCode) :
    Kept W F (openFinished r d ec s) := by
  unfold SerialPortOpener.openFinished
  split
  · split
    · exact h.complete _ _
    · exact h.waits (rules.retry _ r d) d
  · exact h.complete _ _

theorem finishOpen (h : Kept W F s) {a : Attempt} {ec : ErrorCode}
    (ha : F ⟨a, ec, s.world.isOpen a.request.serialPort⟩) : Kept W F (finishOpen a ec s) := by
  have hlogged := h.logAttempt ha
  unfold SerialPortOpener.finishOpen
  cases a.caller with
  | user => exact hlogged.complete _ _
  | untilSuccess d => exact hlogged.openFinished rules _ d ec

theorem openStart (h : Kept W F s) (r : Request) (c : Caller) (dev : Device) :
    Kept W F (openStart r c dev s) := by
  unfold SerialPortOpener.openStart openPort
  cases hp : s.world.isOpen r.serialPort with
  | true =>
    refine h.finishOpen rules ?_
    simpa [hp] using rules.openFailed r c .alreadyOpen true
  | false =>
    cases dev.open_ with
    | some e =>
      refine h.finishOpen rules ?_
      simpa [hp] using rules.openFailed r c e false
    | none =>
      have hmark := h.markOpen rules r.serialPort
      have hopen : (SerialPortOpener.markOpen r.serialPort s).world.isOpen r.serialPort = true := by
        simp [SerialPortOpener.markOpen]
      simp only [Bool.false_eq_true, if_false, Option.isSome_none]
      split
      · refine hmark.finishOpen rules ?_
        rw [hopen]
        exact rules.openCancelled r c _
      · exact hmark.waits (rules.opened _ r c hopen) _

theorem openSettled (h : Kept W F s) {a : Attempt} (ha : W s.world.isOpen (.settle a))
    (ec : ErrorCode) (dev : Device) : Kept W F (openSettled a ec dev s) := by
  unfold SerialPortOpener.openSettled
  dsimp only
  split
  case isTrue hec =>
    obtain ⟨e, he⟩ := Option.isSome_iff_exists.mp hec
    rw [he]
    exact h.finishOpen rules (rules.settleFailed _ a ec dev e ha)
  case isFalse hec =>
    split
    · exact h.finishOpen rules (rules.settleFailed _ a ec dev _ ha)
    · exact h.waits (rules.settled _ a ec dev ha (by simpa using hec)) _

theorem asyncOpen (h : Kept W F s) (r : Request) (c : Caller) (dev : Device) :
    Kept W F (asyncOpen r c dev s) := by
  unfold SerialPortOpener.asyncOpen
  dsimp only
  split
  · exact (h.expiresFromNow 0).openStart rules r c dev
  · exact (h.expiresFromNow 0).post nofun

theorem retryWaited (h : Kept W F s) (r : Request) (d : ℤ) (ec : ErrorCode) (dev : Device) :
    Kept W F (retryWaited r d ec dev s) := by
  unfold SerialPortOpener.retryWaited
  split
  · exact h.complete _ _
  · exact h.asyncOpen rules r _ dev

theorem exec (h : Kept W F s) {job : Job}
    (hjob : ∀ wait ec, job = .resume wait ec → W s.world.isOpen wait) (dev : Device) :
    Kept W F (exec dev job s) := by
  cases job with
  | openStart r c => exact h.openStart rules r c dev
  | retryStart r d => exact h.asyncOpen rules r _ dev
  | resume wait ec =>
    have hw := hjob wait ec rfl
    cases wait with
    | settle a => exact h.openSettled rules hw ec dev
    | write a => exact h.finishOpen rules (rules.written _ a ec hw)
    | retry r d => exact h.retryWaited rules r d ec dev

theorem step (s : OpenerLoop) (act : Action) (s' : OpenerLoop) (h : Kept W F s)
    (hs : step s act = some s') : Kept W F s' := by
  have hinit : Kept W F (initiate s) := ⟨h.posted, h.waiting, h.attempts⟩
  cases act with
  | asyncOpen p baud settle write dev =>
    obtain rfl := Option.some.inj hs
    exact hinit.asyncOpen rules _ _ dev
  | asyncOpenUntilSuccess p baud retry settle write dev =>
    obtain rfl := Option.some.inj hs
    unfold asyncOpenUntilSuccess
    split
    · exact hinit.asyncOpen rules _ _ dev
    · exact hinit.post nofun
  | close =>
    obtain rfl := Option.some.inj hs
    have harmed := h.expiresFromNow 0
    exact ⟨harmed.posted, harmed.waiting, h.attempts⟩
  | expire =>
    obtain ⟨wait, hw, rfl⟩ := step_expire.mp hs
    have hnone : Kept W F (s.update fun w => { w with waiting := none }) :=
      ⟨h.posted, nofun, h.attempts⟩
    refine hnone.post fun wait' ec heq => ?_
    obtain ⟨rfl, -⟩ := Job.resume.inj heq
    exact h.waiting _ hw
  | next dev =>
    obtain ⟨job, jobs, hposted, rfl⟩ := step_next.mp hs
    have hrest : Kept W F ⟨s.world, jobs⟩ :=
      ⟨fun wait ec hmem => h.posted wait ec (hposted ▸ List.mem_cons_of_mem _ hmem), h.waiting,
        h.attempts⟩
    refine hrest.exec rules (fun wait ec hjob => ?_) dev
    exact h.posted wait ec (by rw [hposted, hjob]; exact List.mem_cons_self)

theorem run {isOpen : ℕ → Bool} {as : List Action}
    (h : Foundations.run SerialPortOpener.step (SerialPortOpener.init isOpen) as = some s) :
    Kept W F s :=
  run_invariant (step rules) (Kept.init isOpen) h

end
end Kept
end CxxUtil.Asio.SerialPortOpener
