import CxxUtil.Asio.SerialPortHistories

/-! # Ports after a failed open

The coroutine of `asyncOpen` never closes its port. An attempt that fails in `serialPort.open`
leaves the port as it was; one that fails later leaves it open (`left_closed_iff`). -/
namespace CxxUtil.Asio.SerialPortOpener
open Foundations
set_option autoImplicit false

def Wait.Opened (isOpen : ℕ → Bool) : Wait → Prop
  | .settle a => .opened none ∈ a.history ∧ isOpen a.request.serialPort = true
  | .write a => .opened none ∈ a.history ∧ isOpen a.request.serialPort = true
  | .retry _ _ => True

/-- An attempt that has failed on a port it found closed leaves it closed exactly when it has not
opened it. -/
def Finished.LeavesClosedIff (f : Finished) : Prop :=
  f.foundClosed = true → f.ec ≠ none → (f.leftOpen = false ↔ .opened none ∉ f.history)

structure Traced (s : OpenerLoop) : Prop where
  posted : ∀ wait ec, .resume wait ec ∈ s.posted → wait.Opened s.world.isOpen
  waiting : ∀ wait ∈ s.world.waiting, wait.Opened s.world.isOpen
  attempts : ∀ f ∈ s.world.attempts, f.LeavesClosedIff

theorem leavesClosedIff_of_open {f : Finished} (hmem : .opened none ∈ f.history)
    (hopen : f.leftOpen = true) : f.LeavesClosedIff := fun _ _ => by simp [hmem, hopen]

/-- Behind a successful `open` every exit leaves the port open, and the histories only grow. -/
theorem openedRules : HistoryRules Wait.Opened Finished.LeavesClosedIff where
  retry _ _ _ := trivial
  mark isOpen wait p hw := by
    cases wait with
    | settle a => exact ⟨hw.1, by by_cases hp : a.request.serialPort = p <;> simp [hp, hw.2]⟩
    | write a => exact ⟨hw.1, by by_cases hp : a.request.serialPort = p <;> simp [hp, hw.2]⟩
    | retry r d => trivial
  openFailed r c e leftOpen := by
    intro hfound _
    have hclosed : leftOpen = false := by simpa using hfound
    simp [hclosed]
  openCancelled r c e := leavesClosedIff_of_open (by simp) rfl
  opened isOpen r c hopen := ⟨by simp, hopen⟩
  settleFailed isOpen a ec dev e ha :=
    leavesClosedIff_of_open (List.mem_append_left _ ha.1) ha.2
  settled isOpen a ec dev ha _ := ⟨List.mem_append_left _ ha.1, ha.2⟩
  written isOpen a ec ha := leavesClosedIff_of_open (List.mem_append_left _ ha.1) ha.2

section
variable {s : OpenerLoop}

theorem traced_run {isOpen : ℕ → Bool} {as : List Action}
    (h : run step (init isOpen) as = some s) : Traced s :=
  have hkept := Kept.run openedRules h
  ⟨hkept.posted, hkept.waiting, hkept.attempts⟩

theorem left_closed_iff {isOpen : ℕ → Bool} {as : List Action}
    (h : run step (init isOpen) as = some s) : ∀ f ∈ s.world.attempts, f.LeavesClosedIff :=
  (traced_run h).attempts

end
end CxxUtil.Asio.SerialPortOpener
