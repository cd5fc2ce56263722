import Mathlib.Algebra.Group.Nat.Defs
import CxxUtil.Foundations.WhileLoop

/-! # `programPath`

`src/programpath.cpp`, for Windows. The buffer is doubled for as long as `GetModuleFileName` fills
it, and what is then found is made canonical by the file system. -/
namespace CxxUtil.Text.ProgramPath
open Foundations
set_option autoImplicit false

def kMaxBufSize : ℕ := 65536

/-- What a call with a buffer of some size returns, and leaves in the buffer. -/
abbrev GetModuleFileName := ℕ → ℕ × List UInt8

/-- What `fs::canonical` returns or throws for a path. -/
abbrev Canonical (Path E : Type*) := List UInt8 → Except E Path

/-- The exceptions that leave `programPath()`. -/
inductive Thrown (E : Type*)
  | runtimeError (what : String)
  /-- That of `fs::canonical`. -/
  | filesystemError (e : E)

/-- The return value is the length of the path, or the size of the buffer when the path and the null
character behind it do not fit. -/
structure Documented (getModuleFileName : GetModuleFileName) (path : List UInt8) : Prop where
  fits : ∀ size, path.length < size → (getModuleFileName size).1 = path.length
  copies : ∀ size, path.length < size → (getModuleFileName size).2.take path.length = path
  truncates : ∀ size, size ≤ path.length → (getModuleFileName size).1 = size

/-- The buffer and `n`, and whether the exception has been thrown. -/
structure Search where
  size : ℕ
  n : ℕ
  buf : List UInt8
  exceeded : Bool
  pos : 0 < size
  le : size ≤ kMaxBufSize

section
variable {Path E : Type*} (getModuleFileName : GetModuleFileName) (canonical : Canonical Path E)

def call (size : ℕ) (pos : 0 < size) (le : size ≤ kMaxBufSize) : Search :=
  ⟨size, (getModuleFileName size).1, (getModuleFileName size).2, false, pos, le⟩

def full (s : Search) : Bool := !s.exceeded && s.size == s.n

def retry (s : Search) : Search :=
  if h : kMaxBufSize < 2 * s.size then { s with exceeded := true }
  else call getModuleFileName (2 * s.size) (by have := s.pos; omega) (Nat.not_lt.mp h)

/-- How much larger the buffer may become. -/
def room (s : Search) : ℕ := if s.exceeded then 0 else kMaxBufSize + 1 - s.size

def first : Search := call getModuleFileName 1 (by decide) (by decide)

def programPath : Except (Thrown E) Path :=
  let s := whileLoop full (retry getModuleFileName) room (first getModuleFileName)
  if s.exceeded then
    .error (.runtimeError "Exceeded buffer size limit while getting program path")
  else (canonical (s.buf.take s.n)).mapError .filesystemError

end

section
variable {Path E : Type*} {getModuleFileName : GetModuleFileName} {canonical : Canonical Path E}

theorem room_retry (s : Search) (hfull : full s = true) :
    room (retry getModuleFileName s) < room s := by
  have hexceeded : s.exceeded = false := by
    cases hs : s.exceeded with
    | false => rfl
    | true => simp [full, hs] at hfull
  have hpos := s.pos
  have hle := s.le
  rw [room, room, hexceeded]
  unfold retry
  split
  case isTrue =>
    show 0 < kMaxBufSize + 1 - s.size
    omega
  case isFalse =>
    show kMaxBufSize + 1 - 2 * s.size < kMaxBufSize + 1 - s.size
    omega

/-- What the `k`-th retry leaves. -/
structure Tried (getModuleFileName : GetModuleFileName) (k : ℕ) (s : Search) : Prop where
  size : s.size = 2 ^ k
  n : s.n = (getModuleFileName (2 ^ k)).1
  buf : s.buf = (getModuleFileName (2 ^ k)).2
  exceeded : s.exceeded = false

theorem Tried.full_iff {k : ℕ} {s : Search} (h : Tried getModuleFileName k s) :
    full s = true ↔ (getModuleFileName (2 ^ k)).1 = 2 ^ k := by
  rw [full, h.exceeded, h.size, h.n]
  exact beq_iff_eq.trans eq_comm

theorem Tried.retry {k : ℕ} {s : Search} (h : Tried getModuleFileName k s) (hk : k < 16) :
    Tried getModuleFileName (k + 1) (retry getModuleFileName s) := by
  have hpow : 2 ^ (k + 1) ≤ kMaxBufSize := Nat.pow_le_pow_right (by decide) hk
  have hsize : 2 * s.size = 2 ^ (k + 1) := by rw [h.size, Nat.pow_succ, Nat.mul_comm]
  have hnot : ¬ kMaxBufSize < 2 * s.size := by omega
  rw [ProgramPath.retry, dif_neg hnot]
  have hn := congrArg (fun size => (getModuleFileName size).1) hsize
  have hbuf := congrArg (fun size => (getModuleFileName size).2) hsize
  exact ⟨hsize, hn, hbuf, rfl⟩

theorem tried_iterate (k : ℕ) (hk : k ≤ 16) :
    Tried getModuleFileName k ((retry getModuleFileName)^[k] (first getModuleFileName)) := by
  induction k with
  | zero => exact ⟨rfl, rfl, rfl, rfl⟩
  | succ k ih =>
    rw [Function.iterate_succ_apply']
    exact (ih (Nat.le_of_succ_le hk)).retry hk

theorem exceeded_iterate :
    ((retry getModuleFileName)^[17] (first getModuleFileName)).exceeded = true := by
  have hlast : Tried getModuleFileName 16 _ := tried_iterate 16 (Nat.le_refl 16)
  have hover : kMaxBufSize < 2 * ((retry getModuleFileName)^[16]
      (first getModuleFileName)).size := by
    rw [hlast.size]
    decide
  rw [Function.iterate_succ_apply', retry, dif_pos hover]

/-- The first call that does not fill the buffer decides; when all do, the exception is thrown. -/
theorem programPath_cases :
    (∃ k ≤ 16, (∀ j < k, (getModuleFileName (2 ^ j)).1 = 2 ^ j) ∧
      (getModuleFileName (2 ^ k)).1 ≠ 2 ^ k ∧
      programPath getModuleFileName canonical =
        (canonical ((getModuleFileName (2 ^ k)).2.take (getModuleFileName (2 ^ k)).1)).mapError
          .filesystemError) ∨
    ((∀ j ≤ 16, (getModuleFileName (2 ^ j)).1 = 2 ^ j) ∧
      programPath getModuleFileName canonical =
        .error (.runtimeError "Exceeded buffer size limit while getting program path")) := by
  obtain ⟨k, hfull, hlast, hend⟩ : LoopsTo full (retry getModuleFileName)
    (first getModuleFileName) _ := whileLoop_loopsTo room_retry _
  rw [programPath, hend]
  have hfilled (j : ℕ) (hj : j < k) (hle : j ≤ 16) : (getModuleFileName (2 ^ j)).1 = 2 ^ j :=
    (tried_iterate j hle).full_iff.mp (hfull j hj)
  by_cases hk : k ≤ 16
  · left
    have hdone : Tried getModuleFileName k _ := tried_iterate k hk
    refine ⟨k, hk, fun j hj => hfilled j hj (by omega), fun heq => ?_, ?_⟩
    · rw [hdone.full_iff.mpr heq] at hlast
      cases hlast
    · rw [hdone.exceeded, hdone.buf, hdone.n]
      rfl
  · right
    -- the 17th retry is the last, so that there is no 18th
    have hseventeen : k = 17 := by
      by_contra hne
      have hnext := hfull 17 (by omega)
      rw [full, exceeded_iterate] at hnext
      cases hnext
    subst hseventeen
    refine ⟨fun j hj => hfilled j (by omega) hj, ?_⟩
    rw [exceeded_iterate]
    rfl

end

/-- **The path is found whole, below the limit.** Whatever `GetModuleFileName` and `fs::canonical`
do, the first of the calls with 1, 2, 4, … characters that does not fill its buffer decides, also
one that fails and returns 0: what it has found is made canonical, and an exception of
`fs::canonical` let through. When the call with `kMaxBufSize` characters fills the buffer too, the
exception is thrown. As documented, a path with fewer characters is made canonical whole, and any
other is given up. -/
theorem finds_program_path {Path E : Type*} (getModuleFileName : GetModuleFileName)
    (canonical : Canonical Path E) :
    (∀ k ≤ 16, (∀ j < k, (getModuleFileName (2 ^ j)).1 = 2 ^ j) →
      (getModuleFileName (2 ^ k)).1 ≠ 2 ^ k →
      programPath getModuleFileName canonical =
        (canonical ((getModuleFileName (2 ^ k)).2.take (getModuleFileName (2 ^ k)).1)).mapError
          .filesystemError) ∧
    ((∀ j ≤ 16, (getModuleFileName (2 ^ j)).1 = 2 ^ j) →
      programPath getModuleFileName canonical =
        .error (.runtimeError "Exceeded buffer size limit while getting program path")) ∧
    ∀ path, Documented getModuleFileName path →
      programPath getModuleFileName canonical =
        if path.length < kMaxBufSize then (canonical path).mapError .filesystemError
        else .error (.runtimeError "Exceeded buffer size limit while getting program path") := by
  obtain ⟨k, hk, hfilled, hnot, heq⟩ | ⟨hfilled, heq⟩ :=
    @programPath_cases _ _ getModuleFileName canonical
  · refine ⟨fun i hi hfilled' hnot' => ?_, fun hall => absurd (hall k hk) hnot, fun path hdoc => ?_⟩
    · have hsame : i = k := by
        have hge : ¬ i < k := fun hlt => hnot' (hfilled i hlt)
        have hle : ¬ k < i := fun hlt => hnot (hfilled' k hlt)
        omega
      rw [hsame, heq]
    · have hfits : path.length < 2 ^ k := by
        by_contra hnotlt
        exact hnot (hdoc.truncates _ (Nat.not_lt.mp hnotlt))
      have hmax : 2 ^ k ≤ kMaxBufSize := Nat.pow_le_pow_right (by decide) hk
      rw [heq, hdoc.fits _ hfits, hdoc.copies _ hfits, if_pos (Nat.lt_of_lt_of_le hfits hmax)]
  · refine ⟨fun i hi _ hnot => absurd (hfilled i hi) hnot, fun _ => heq, fun path hdoc => ?_⟩
    have hlong : ¬ path.length < kMaxBufSize := by
      intro hlt
      have hlast : (getModuleFileName kMaxBufSize).1 = kMaxBufSize :=
        hfilled 16 (Nat.le_refl 16)
      rw [hdoc.fits _ hlt] at hlast
      exact Nat.ne_of_lt hlt hlast
    rw [heq, if_neg hlong]

/-- The path `C:\a`, by a version that ends what it copies with a null character, where there is no
such file any more. -/
theorem finds_program_path_short :
    let path : List UInt8 := [67, 58, 92, 97]
    programPath (fun size =>
      if path.length < size then (path.length, path ++ [0])
      else (size, path.take (size - 1) ++ [0]))
      (fun path => if path = [46] then .ok path else .error ("no such file", path)) =
      .error (.filesystemError ("no such file", path)) := by
  intro path
  refine ((finds_program_path _ _).2.2 path ⟨fun size hsize => ?_, fun size hsize => ?_,
    fun size hsize => ?_⟩).trans (if_pos (by decide))
  · rw [if_pos hsize]
  · rw [if_pos hsize]
    rfl
  · rw [if_neg (Nat.not_lt.mpr hsize)]

end CxxUtil.Text.ProgramPath
