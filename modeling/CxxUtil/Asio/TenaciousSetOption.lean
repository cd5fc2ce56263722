import Mathlib.Data.Int.Notation
import CxxUtil.Foundations.Attempts
import CxxUtil.Asio.SetSerialPortOptions

/-! # How often an option is tried

The loop of `tenaciousSetOption` stops where attempts up to a limit stop, and a limit of zero or
below is the same as one. Its counter is an `int`: `intLoop` is the loop in which overflow is
undefined, and `intLoop_eq` says that it never happens. -/
namespace CxxUtil.Asio
open Foundations
set_option autoImplicit false

def attemptLimit (maxAttempts : ℤ) : ℕ := (max 1 maxAttempts).toNat

/-- What the caller sees: nothing, or a `system_error` with the code of the last call. -/
def Tried.exit (t : Tried) : Except Error Unit :=
  match t.ec with
  | some e => .error e
  | none => .ok ()

/-! ## The loop over `int` -/

/-- `++` of an `int`. Overflow is undefined. -/
def preIncrement (n : Int32) : Option Int32 :=
  if n = Int32.maxValue then none else some (n + 1)

inductive LoopEnd
  | exits (t : Tried)
  | overflows
  | unfinished
  deriving DecidableEq, Repr

/-- `tenaciousLoop` with the counter and the maximum that the source has. -/
def intLoop (setOption : ℕ → ErrorCode) (maxAttempts : Int32) : ℕ → ℕ → Int32 → LoopEnd
  | 0, _, _ => .unfinished
  | fuel + 1, calls, attempts =>
    let ec := setOption calls
    if 0 < maxAttempts then
      match preIncrement attempts with
      | none => .overflows
      | some attempts =>
        if attempts ≠ maxAttempts ∧ ec.isSome then
          intLoop setOption maxAttempts fuel (calls + 1) attempts
        else .exits ⟨calls + 1, attempts.toInt, ec⟩
    -- the test ends before it comes to the counter
    else .exits ⟨calls + 1, attempts.toInt, ec⟩

theorem pos_iff_toInt_pos {n : Int32} : 0 < n ↔ 0 < n.toInt := by
  rw [Int32.lt_iff_toInt_lt, Int32.toInt_zero]

theorem preIncrement_of_lt {n bound : Int32} (h : n < bound) :
    ∃ k, preIncrement n = some k ∧ k.toInt = n.toInt + 1 := by
  have hlt := Int32.lt_iff_toInt_lt.mp h
  have hbound := bound.toInt_lt
  have hlow := n.le_toInt
  have hne : n ≠ Int32.maxValue := by
    rintro rfl
    rw [Int32.toInt_maxValue] at hlt
    omega
  refine ⟨n + 1, if_neg hne, ?_⟩
  rw [Int32.toInt_add, Int32.toInt_one]
  exact Int.bmod_eq_of_le (by omega) (by omega)

section
variable (setOption : ℕ → ErrorCode)

theorem intLoop_eq {maxAttempts attempts : Int32} (fuel calls : ℕ)
    (hlt : 0 < maxAttempts → attempts < maxAttempts) :
    intLoop setOption maxAttempts fuel calls attempts =
      (tenaciousLoop setOption maxAttempts.toInt fuel calls attempts.toInt).elim .unfinished
        .exits := by
  induction fuel generalizing calls attempts with
  | zero => rfl
  | succ fuel ih =>
    rw [intLoop, tenaciousLoop]
    by_cases h : 0 < maxAttempts
    · obtain ⟨k, hk, hint⟩ := preIncrement_of_lt (hlt h)
      have hne : k ≠ maxAttempts ↔ attempts.toInt + 1 ≠ maxAttempts.toInt := by
        rw [← hint, Ne, Ne, Int32.toInt_inj]
      simp only [if_pos h, if_pos (pos_iff_toInt_pos.mp h), hk, hne, ← hint]
      split
      case isTrue hgo =>
        apply ih
        intro _
        have hle := Int32.lt_iff_toInt_lt.mp (hlt h)
        rw [Int32.lt_iff_toInt_lt]
        omega
      case isFalse => rfl
    · rw [if_neg h, if_neg (fun hpos => h (pos_iff_toInt_pos.mpr hpos))]
      rfl

/-! ## Where the loop stops -/

/-- What a run of the loop has done is what attempts up to `m` do. -/
structure Tried.Follows (m : ℕ) (t : Tried) : Prop where
  stops : StopsAfter setOption m t.calls
  ec : t.ec = setOption (t.calls - 1)

variable {setOption} {maxAttempts : ℤ} {fuel calls : ℕ} {attempts : ℤ} {t : Tried}

theorem tenaciousLoop_more {more : ℕ} (hle : fuel ≤ more)
    (h : tenaciousLoop setOption maxAttempts fuel calls attempts = some t) :
    tenaciousLoop setOption maxAttempts more calls attempts = some t := by
  induction fuel generalizing more calls attempts with
  | zero => cases h
  | succ fuel ih =>
    obtain ⟨more, rfl⟩ : ∃ k, more = k + 1 := ⟨more - 1, by omega⟩
    rw [tenaciousLoop] at h ⊢
    split
    case isTrue hpos =>
      rw [if_pos hpos] at h
      split
      case isTrue hgo =>
        rw [if_pos hgo] at h
        exact ih (by omega) h
      case isFalse hstop => rwa [if_neg hstop] at h
    case isFalse hpos => rwa [if_neg hpos] at h

/-- With a maximum the counter is the number of calls, and every call but the last has failed. -/
theorem tenaciousLoop_follows (hlt : (calls : ℤ) < maxAttempts) (hfail : AllFail setOption calls)
    (h : tenaciousLoop setOption maxAttempts fuel calls calls = some t) :
    t.Follows setOption maxAttempts.toNat ∧ t.attempts = t.calls := by
  induction fuel generalizing calls with
  | zero => cases h
  | succ fuel ih =>
    rw [tenaciousLoop, if_pos (by omega)] at h
    split at h
    case isTrue hgo =>
      obtain ⟨hne, hsome⟩ := hgo
      have hfail' := hfail.snoc (Option.isSome_iff_ne_none.mp hsome)
      have h' : tenaciousLoop setOption maxAttempts fuel (calls + 1) ((calls + 1 : ℕ) : ℤ) =
          some t := by exact_mod_cast h
      exact ih (by push_cast; omega) hfail' h'
    case isFalse hstop =>
      obtain rfl := Option.some.inj h
      refine ⟨⟨⟨Nat.succ_pos _, by simp only; omega, hfail, ?_⟩, rfl⟩, by simp⟩
      by_cases hlast : (calls : ℤ) + 1 = maxAttempts
      · left
        simp only
        omega
      · right
        simpa [hlast] using hstop

theorem attemptLimit_pos (maxAttempts : ℤ) : 0 < attemptLimit maxAttempts := by
  unfold attemptLimit
  omega

theorem attemptLimit_of_pos (hpos : 0 < maxAttempts) :
    attemptLimit maxAttempts = maxAttempts.toNat := by
  unfold attemptLimit
  omega

theorem attemptLimit_of_nonpos (hpos : ¬ 0 < maxAttempts) : attemptLimit maxAttempts = 1 := by
  unfold attemptLimit
  omega

theorem tenaciousLoop_limit (setOption : ℕ → ErrorCode) (maxAttempts : ℤ) :
    tenaciousLoop setOption maxAttempts (attemptLimit maxAttempts) 0 0 =
      some (tenaciousSetOption setOption maxAttempts) := by
  have hends : (tenaciousLoop setOption maxAttempts (attemptLimit maxAttempts) 0 0).isSome :=
    tenaciousLoop_isSome setOption maxAttempts 0 (attemptLimit_pos maxAttempts)
      (by unfold attemptLimit; omega) id
  obtain ⟨t, ht⟩ := Option.isSome_iff_exists.mp hends
  have hmore : tenaciousLoop setOption maxAttempts (maxAttempts.toNat + 1) 0 0 = some t :=
    tenaciousLoop_more (by unfold attemptLimit; omega) ht
  simp only [tenaciousSetOption, hmore, ht, Option.get_some]

theorem tenaciousSetOption_of_pos (hpos : 0 < maxAttempts) :
    (tenaciousSetOption setOption maxAttempts).Follows setOption (attemptLimit maxAttempts) ∧
      (tenaciousSetOption setOption maxAttempts).attempts =
        (tenaciousSetOption setOption maxAttempts).calls := by
  have hloop := tenaciousLoop_limit setOption maxAttempts
  rw [attemptLimit_of_pos hpos] at hloop ⊢
  exact tenaciousLoop_follows (by exact_mod_cast hpos) allFail_zero (by exact_mod_cast hloop)

/-- Without a maximum there is one call, as with a maximum of one. -/
theorem tenaciousSetOption_of_nonpos (hpos : ¬ 0 < maxAttempts) :
    tenaciousSetOption setOption maxAttempts = ⟨1, 0, setOption 0⟩ := by
  have hloop := tenaciousLoop_limit setOption maxAttempts
  rw [attemptLimit_of_nonpos hpos, tenaciousLoop, if_neg hpos] at hloop
  exact (Option.some.inj hloop).symm

theorem tenaciousSetOption_follows (setOption : ℕ → ErrorCode) (maxAttempts : ℤ) :
    (tenaciousSetOption setOption maxAttempts).Follows setOption (attemptLimit maxAttempts) := by
  by_cases hpos : 0 < maxAttempts
  · exact (tenaciousSetOption_of_pos hpos).1
  · rw [tenaciousSetOption_of_nonpos hpos, attemptLimit_of_nonpos hpos]
    exact ⟨⟨Nat.one_pos, Nat.le_refl 1, allFail_zero, .inl rfl⟩, rfl⟩

theorem tenaciousSetOption_attempts (setOption : ℕ → ErrorCode) (maxAttempts : ℤ) :
    (tenaciousSetOption setOption maxAttempts).attempts =
      if 0 < maxAttempts then ((tenaciousSetOption setOption maxAttempts).calls : ℤ) else 0 := by
  split
  case isTrue hpos => exact (tenaciousSetOption_of_pos hpos).2
  case isFalse hpos => rw [tenaciousSetOption_of_nonpos hpos]

theorem Tried.exit_eq_error_iff {e : Error} : t.exit = .error e ↔ t.ec = some e := by
  unfold Tried.exit
  cases t.ec <;> simp

theorem Tried.Follows.ec_eq_none_iff {m : ℕ} (h : t.Follows setOption m) :
    t.ec = none ↔ ¬ AllFail setOption m := by
  rw [h.ec, h.stops.allFail_iff, not_not]

theorem Tried.Follows.ec_of_allFail {m : ℕ} (h : t.Follows setOption m)
    (hall : AllFail setOption m) : t.ec = setOption (m - 1) := by
  rw [h.ec, h.stops.eq_limit hall]

theorem Tried.Follows.throws_iff {m : ℕ} (h : t.Follows setOption m) {e : Error} :
    t.exit = .error e ↔ AllFail setOption m ∧ setOption (m - 1) = some e := by
  rw [Tried.exit_eq_error_iff]
  constructor
  · intro he
    have hall : AllFail setOption m := by
      by_contra hnot
      rw [h.ec_eq_none_iff.mpr hnot] at he
      cases he
    exact ⟨hall, by rw [← h.ec_of_allFail hall, he]⟩
  · rintro ⟨hall, he⟩
    rw [h.ec_of_allFail hall, he]

end

/-! ## One option after the other -/

section
variable {setOption : SerialOption → ℕ → ErrorCode}

/-- The option fails as often as it is tried. -/
def Fails (setOption : SerialOption → ℕ → ErrorCode) (o : SerialOption) : Prop :=
  AllFail (setOption o) (attemptLimit kMaxSerialSetOptionAttempts)

instance (setOption : SerialOption → ℕ → ErrorCode) : DecidablePred (Fails setOption) :=
  fun _ => inferInstanceAs (Decidable (AllFail _ _))

def lastError (setOption : SerialOption → ℕ → ErrorCode) (o : SerialOption) : ErrorCode :=
  setOption o (attemptLimit kMaxSerialSetOptionAttempts - 1)

theorem Fails.lastError_ne_none {o : SerialOption} (h : Fails setOption o) :
    lastError setOption o ≠ none :=
  h _ (Nat.sub_lt (attemptLimit_pos _) Nat.one_pos)

theorem setOptions_of_not_fails {o : SerialOption} {os : List SerialOption}
    (h : ¬ Fails setOption o) : setOptions setOption (o :: os) =
      ((o, none) :: (setOptions setOption os).1, (setOptions setOption os).2) := by
  have hec := (tenaciousSetOption_follows (setOption o) kMaxSerialSetOptionAttempts).ec_eq_none_iff
  rw [setOptions, hec.mpr h]

theorem setOptions_of_fails {o : SerialOption} {os : List SerialOption} (h : Fails setOption o) :
    setOptions setOption (o :: os) = ([(o, lastError setOption o)], lastError setOption o) := by
  have hec := (tenaciousSetOption_follows (setOption o) kMaxSerialSetOptionAttempts).ec_of_allFail h
  obtain ⟨e, he⟩ := Option.ne_none_iff_exists'.mp h.lastError_ne_none
  rw [setOptions, hec.trans he, he]

theorem setOptions_all_set {os : List SerialOption} (h : ∀ o ∈ os, ¬ Fails setOption o) :
    setOptions setOption os = (os.map fun o => (o, none), none) := by
  induction os with
  | nil => rfl
  | cons o os ih =>
    obtain ⟨ho, hos⟩ := List.forall_mem_cons.mp h
    rw [setOptions_of_not_fails ho, ih hos, List.map_cons]

theorem setOptions_first_fails {before after : List SerialOption} {o : SerialOption}
    (hbefore : ∀ b ∈ before, ¬ Fails setOption b) (ho : Fails setOption o) :
    setOptions setOption (before ++ o :: after) =
      (before.map (fun b => (b, none)) ++ [(o, lastError setOption o)], lastError setOption o) := by
  induction before with
  | nil => exact setOptions_of_fails ho
  | cons b before ih =>
    obtain ⟨hb, hbefore⟩ := List.forall_mem_cons.mp hbefore
    rw [List.cons_append, setOptions_of_not_fails hb, ih hbefore, List.map_cons, List.cons_append]

theorem setSerialPortOptions_first_fails {baud : UInt32} {before after : List SerialOption}
    {o : SerialOption} (heq : serialOptions baud = before ++ o :: after)
    (hbefore : ∀ b ∈ before, ¬ Fails setOption b) (ho : Fails setOption o) (ec : ErrorCode) :
    setSerialPortOptions setOption baud ec =
      (before.map (fun b => (b, none)) ++ [(o, lastError setOption o)], lastError setOption o) := by
  obtain ⟨e, he⟩ := Option.ne_none_iff_exists'.mp ho.lastError_ne_none
  rw [setSerialPortOptions, heq, setOptions_first_fails hbefore ho, he]
  rfl

theorem setSerialPortOptions_all_set {baud : UInt32}
    (h : ∀ o ∈ serialOptions baud, ¬ Fails setOption o) (ec : ErrorCode) :
    setSerialPortOptions setOption baud ec =
      ((serialOptions baud).map fun o => (o, none), ec) := by
  rw [setSerialPortOptions, setOptions_all_set h]
  rfl

theorem exists_writes {baud : UInt32} (h : ∃ o ∈ serialOptions baud, Fails setOption o) :
    ∃ e, ∀ ec, (setSerialPortOptions setOption baud ec).2 = some e := by
  obtain ⟨before, o, after, heq, ho, hbefore⟩ := exists_first h
  obtain ⟨e, he⟩ := Option.ne_none_iff_exists'.mp ho.lastError_ne_none
  exact ⟨e, fun ec => by rw [setSerialPortOptions_first_fails heq hbefore ho, he]⟩

/-- A run of `tenaciousSetOption` makes the calls it should and throws what the last one reports. -/
structure Tenacious (setOption : ℕ → ErrorCode) (maxAttempts : Int32) (m : ℕ) (t : Tried) :
    Prop where
  ends : ∀ fuel, m ≤ fuel → intLoop setOption maxAttempts fuel 0 0 = .exits t
  calls : t.calls = min m (firstSuccess setOption m)
  attempts : t.attempts = if 0 < maxAttempts then (t.calls : ℤ) else 0
  throws : (∃ e, t.exit = .error e) ↔ AllFail setOption m
  thrown : ∀ e, t.exit = .error e → setOption (m - 1) = some e

/-- The overload with `ec` writes the last error of the first option that fails, with which it ends,
and otherwise leaves `ec` as it was. -/
structure WritesFirstFailure (setOption : SerialOption → ℕ → ErrorCode) (baud : UInt32) :
    Prop where
  options : serialOptions baud =
    [.baudRate baud, .characterSize 8, .parity .none, .stopBits .one, .flowControl .none]
  writes : (∃ e, ∀ ec, (setSerialPortOptions setOption baud ec).2 = some e) ↔
    ∃ o ∈ serialOptions baud, Fails setOption o
  first : (∃ o ∈ serialOptions baud, Fails setOption o) →
    ∃ before o after, serialOptions baud = before ++ o :: after ∧
      (∀ b ∈ before, ¬ Fails setOption b) ∧ Fails setOption o ∧
      ∀ ec, setSerialPortOptions setOption baud ec =
        (before.map (fun b => (b, none)) ++ [(o, lastError setOption o)], lastError setOption o)
  leaves : (∀ o ∈ serialOptions baud, ¬ Fails setOption o) →
    ∀ ec, setSerialPortOptions setOption baud ec =
      ((serialOptions baud).map fun o => (o, none), ec)

theorem intLoop_exits (setOption : ℕ → ErrorCode) (maxAttempts : Int32) {fuel : ℕ}
    (hfuel : attemptLimit maxAttempts.toInt ≤ fuel) :
    intLoop setOption maxAttempts fuel 0 0 =
      .exits (tenaciousSetOption setOption maxAttempts.toInt) := by
  have hloop := tenaciousLoop_more hfuel (tenaciousLoop_limit setOption maxAttempts.toInt)
  rw [intLoop_eq setOption fuel 0 id, Int32.toInt_zero, hloop]
  rfl

theorem tenacious (setOption : ℕ → ErrorCode) (maxAttempts : Int32) :
    Tenacious setOption maxAttempts (attemptLimit maxAttempts.toInt)
      (tenaciousSetOption setOption maxAttempts.toInt) := by
  have hfollows := tenaciousSetOption_follows setOption maxAttempts.toInt
  constructor
  case ends => exact fun fuel hfuel => intLoop_exits setOption maxAttempts hfuel
  case calls =>
    rw [← hfollows.stops.eq_firstSuccess]
    exact (Nat.min_eq_right hfollows.stops.le).symm
  case attempts =>
    rw [tenaciousSetOption_attempts]
    simp only [pos_iff_toInt_pos]
  case throws =>
    constructor
    · rintro ⟨e, he⟩
      exact (hfollows.throws_iff.mp he).1
    · intro hall
      obtain ⟨e, he⟩ := Option.ne_none_iff_exists'.mp
        (hall _ (Nat.sub_lt (attemptLimit_pos _) Nat.one_pos))
      exact ⟨e, hfollows.throws_iff.mpr ⟨hall, he⟩⟩
  case thrown => exact fun e he => (hfollows.throws_iff.mp he).2

theorem writesFirstFailure (setOption : SerialOption → ℕ → ErrorCode) (baud : UInt32) :
    WritesFirstFailure setOption baud := by
  constructor
  case options => rfl
  case writes =>
    refine ⟨fun hwrites => ?_, exists_writes⟩
    obtain ⟨e, he⟩ := hwrites
    by_contra hnot
    push Not at hnot
    have hwritten := he none
    rw [setSerialPortOptions_all_set hnot] at hwritten
    cases hwritten
  case first =>
    intro h
    obtain ⟨before, o, after, heq, ho, hbefore⟩ := exists_first h
    exact ⟨before, o, after, heq, hbefore, ho, setSerialPortOptions_first_fails heq hbefore ho⟩
  case leaves => exact setSerialPortOptions_all_set

/-- **Every option is tried as often as it should be, and `ec` tells the truth.** For every `int`
and all outcomes the loop ends at the first success or at the limit, without overflow, and throws
the last error exactly when all calls up to the limit have failed. -/
theorem tries_and_reports :
    (∀ (setOption : ℕ → ErrorCode) (maxAttempts : Int32),
      Tenacious setOption maxAttempts (attemptLimit maxAttempts.toInt)
        (tenaciousSetOption setOption maxAttempts.toInt)) ∧
      ∀ (setOption : SerialOption → ℕ → ErrorCode) (baud : UInt32),
        WritesFirstFailure setOption baud :=
  ⟨tenacious, writesFirstFailure⟩

/-- The third of three attempts succeeds; a port that never takes its parity is reported. -/
theorem tries_and_reports_parity :
    (∀ fuel, 3 ≤ fuel →
      intLoop (fun i => if i < 2 then some .networkDown else none) 3 fuel 0 0 =
        .exits ⟨3, 3, none⟩) ∧
      ∃ e, ∀ ec, (setSerialPortOptions
        (fun o _ => if o = .parity .none then some .networkDown else none) 9600 ec).2 = some e := by
  obtain ⟨htries, hwrites⟩ := tries_and_reports
  refine ⟨fun fuel hfuel => ?_, (hwrites _ _).writes.mpr ⟨.parity .none, by decide, by decide⟩⟩
  exact (htries (fun i => if i < 2 then some .networkDown else none) 3).ends fuel hfuel

end
end CxxUtil.Asio
