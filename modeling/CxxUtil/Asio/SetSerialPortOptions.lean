import Mathlib.Data.List.Basic
import Mathlib.Data.Int.Notation
import CxxUtil.Asio.ErrorCode

/-! # Setting the options of a serial port

`include/util/asio/setserialportoptions.hpp`. What `set_option` does to the device is an outcome for
each option and each call. The `termios` settings made afterwards only log their failures. -/
namespace CxxUtil.Asio
set_option autoImplicit false

inductive Parity
  | none
  | odd
  | even
  deriving DecidableEq, Repr

inductive StopBits
  | one
  | onepointfive
  | two
  deriving DecidableEq, Repr

inductive FlowControl
  | none
  | software
  | hardware
  deriving DecidableEq, Repr

inductive SerialOption
  | baudRate (rate : UInt32)
  | characterSize (bits : ℕ)
  | parity (p : Parity)
  | stopBits (b : StopBits)
  | flowControl (f : FlowControl)
  deriving DecidableEq, Repr

def kMaxSerialSetOptionAttempts : ℤ := 100

/-! ## One option -/

/-- What a run of `tenaciousSetOption` has done: the calls of `set_option`, the counter, and the
code of the last call. It throws this code unless it is success. -/
structure Tried where
  calls : ℕ
  attempts : ℤ
  ec : ErrorCode
  deriving DecidableEq, Repr

/-- The `do`-`while` loop, entered after `calls` rounds. -/
def tenaciousLoop (setOption : ℕ → ErrorCode) (maxAttempts : ℤ) : ℕ → ℕ → ℤ → Option Tried
  | 0, _, _ => none
  | fuel + 1, calls, attempts =>
    let ec := setOption calls
    if 0 < maxAttempts then
      if attempts + 1 ≠ maxAttempts ∧ ec.isSome then
        tenaciousLoop setOption maxAttempts fuel (calls + 1) (attempts + 1)
      else some ⟨calls + 1, attempts + 1, ec⟩
    -- without a maximum the counter is not touched and the loop ends
    else some ⟨calls + 1, attempts, ec⟩

/-- The loop ends within the rounds that are left, and within one when there is no maximum. -/
theorem tenaciousLoop_isSome (setOption : ℕ → ErrorCode) (maxAttempts : ℤ) {fuel : ℕ}
    (calls : ℕ) {attempts : ℤ} (hfuel : 0 < fuel) (hleft : maxAttempts ≤ attempts + fuel)
    (hlt : 0 < maxAttempts → attempts < maxAttempts) :
    (tenaciousLoop setOption maxAttempts fuel calls attempts).isSome := by
  induction fuel generalizing calls attempts with
  | zero => omega
  | succ fuel ih =>
    rw [tenaciousLoop]
    split
    case isTrue hpos =>
      have hlt := hlt hpos
      split
      case isTrue hgo =>
        obtain ⟨hne, -⟩ := hgo
        exact ih _ (by omega) (by omega) (by omega)
      case isFalse => rfl
    case isFalse => rfl

def tenaciousSetOption (setOption : ℕ → ErrorCode) (maxAttempts : ℤ) : Tried :=
  (tenaciousLoop setOption maxAttempts (maxAttempts.toNat + 1) 0 0).get
    (tenaciousLoop_isSome setOption maxAttempts 0 (by omega) (by omega) id)

/-! ## All options -/

def serialOptions (baud : UInt32) : List SerialOption :=
  [.baudRate baud, .characterSize 8, .parity .none, .stopBits .one, .flowControl .none]

/-- Sets options one after the other. The first that throws ends it; the code thrown is returned,
with the options tried and what came of them. -/
def setOptions (setOption : SerialOption → ℕ → ErrorCode) :
    List SerialOption → List (SerialOption × ErrorCode) × ErrorCode
  | [] => ([], none)
  | o :: os =>
    match (tenaciousSetOption (setOption o) kMaxSerialSetOptionAttempts).ec with
    | some e => ([(o, some e)], some e)
    | none =>
      let (tried, thrown) := setOptions setOption os
      ((o, none) :: tried, thrown)

/-- The overload that catches: `ec` is written only when an option has thrown. -/
def setSerialPortOptions (setOption : SerialOption → ℕ → ErrorCode) (baud : UInt32)
    (ec : ErrorCode) : List (SerialOption × ErrorCode) × ErrorCode :=
  let (tried, thrown) := setOptions setOption (serialOptions baud)
  (tried, thrown.or ec)

theorem setOptions_eq_none_iff (setOption : SerialOption → ℕ → ErrorCode)
    (os : List SerialOption) :
    (setOptions setOption os).2 = none ↔
      (setOptions setOption os).1 = os.map fun o => (o, none) := by
  induction os with
  | nil => simp [setOptions]
  | cons o os ih =>
    unfold setOptions
    cases (tenaciousSetOption (setOption o) kMaxSerialSetOptionAttempts).ec with
    | none => simp [ih]
    | some e => simp

/-- The code that comes back is success exactly when the one that went in was and every option was
set. -/
theorem setSerialPortOptions_eq_none_iff (setOption : SerialOption → ℕ → ErrorCode) (baud : UInt32)
    (ec : ErrorCode) :
    (setSerialPortOptions setOption baud ec).2 = none ↔
      ec = none ∧
        (setSerialPortOptions setOption baud ec).1 =
          (serialOptions baud).map fun o => (o, none) := by
  have := setOptions_eq_none_iff setOption (serialOptions baud)
  simp [setSerialPortOptions, Option.or_eq_none_iff, this, and_comm]

end CxxUtil.Asio
