import Mathlib.Data.Nat.Factorization.Basic
import Mathlib.Tactic.Ring
import CxxUtil.Ring.RingRefinement

/-! # The capacities that `PotRingbuffer` admits

`static_assert(!(N % 2))` is announced as "capacity must be a power of two" and lets every even
number pass. With `N = 2 ^ k * m`, `m` odd and above 1, the mask `2 * N - 1` has no bit `k + 1`, so
`mEnd` wraps around below `2 ^ (k + 1)` and never gets to `mBegin ^ N`. -/
namespace CxxUtil.Ring
set_option autoImplicit false
open CxxUtil.Foundations

variable {w k : ℕ} {T : Type*} {c : Capacity w}

/-- What `at` reads at the positions `0 .. size() - 1`. -/
def PotRingbuffer.shown (b : PotRingbuffer c T) : List T :=
  (List.range b.size.toNat).map fun i => b.mData (b.at (BitVec.ofNat w i))

/-- The buffer is safe to use while it holds `l`. -/
structure Safe (b : PotRingbuffer c T) (l : List T) : Prop where
  /-- Different positions have different slots. -/
  slots : ∀ i j : ℕ, i < j → j < b.size.toNat →
    b.at (BitVec.ofNat w i) ≠ b.at (BitVec.ofNat w j)
  /-- A push overwrites no element but the one that it drops from a full buffer. -/
  pushBack : ∀ x, (b.pushBack x).shown = (if b.full then b.shown.tail else b.shown) ++ [x]
  pushFront : ∀ x, (b.pushFront x).shown = x :: if b.full then b.shown.dropLast else b.shown
  full : b.full = true ↔ l.length = c.N.toNat

/-! ## Powers of two -/

section
variable (hN : c.N.toNat = 2 ^ k) {b : PotRingbuffer c T} {l : List T}
include hN

theorem Holds.shown (h : Holds b l) : b.shown = l := (h.agrees hN).elements

theorem at_ofNat {i : ℕ} (hi : i < c.N.toNat) :
    b.at (BitVec.ofNat w i) = Fin.ofNat c.N.toNat (b.mBegin.toNat + i) := by
  have hlt := c.N.isLt
  have htoNat : (BitVec.ofNat w i).toNat = i := by
    rw [BitVec.toNat_ofNat, Nat.mod_eq_of_lt (by omega)]
  have hadd := toNat_add_modEq (dvd_width hN) b.mBegin (BitVec.ofNat w i)
  rw [htoNat] at hadd
  rw [PotRingbuffer.at, wrappedAccess_eq hN, ofNat_eq_of_modEq hadd]

theorem Holds.safe (h : Holds b l) : Safe b l where
  slots := by
    intro i j hij hj
    have hle := h.length_le
    rw [h.size_eq hN] at hj
    rw [at_ofNat hN (by omega), at_ofNat hN (by omega)]
    exact ofNat_ne hij (by omega)
  pushBack := by
    intro x
    rw [(h.pushBack hN x).shown hN, h.shown hN]
    simp only [h.full_iff hN]
  pushFront := by
    intro x
    rw [(h.pushFront hN x).shown hN, h.shown hN]
    simp only [h.full_iff hN]
  full := h.full_iff hN

end

/-! ## Other even numbers -/

section
variable {m : ℕ} (hN : c.N.toNat = 2 ^ k * m) (hm : Odd m) (hone : m ≠ 1)
include hN hm hone

theorem three_le : 3 * 2 ^ k ≤ c.N.toNat := by
  obtain ⟨n, rfl⟩ := hm
  have hn : 3 ≤ 2 * n + 1 := by omega
  rw [hN, Nat.mul_comm]
  exact Nat.mul_le_mul_left _ hn

theorem succ_lt_width : k + 1 < w := by
  have hthree := three_le hN hm hone
  have hlt := c.N.isLt
  have hpos := Nat.two_pow_pos k
  refine (Nat.pow_lt_pow_iff_right (by decide : 1 < 2)).mp ?_
  rw [Nat.pow_succ]
  omega

theorem one_toNat_of_odd : (1 : BitVec w).toNat = 1 := by
  have := succ_lt_width hN hm hone
  simp only [BitVec.toNat_ofNat, BitVec.ofNat_eq_ofNat]
  exact Nat.mod_eq_of_lt (Nat.one_lt_two_pow (by omega))

/-- Bit `k + 1` of the mask is clear, the bits below it are set. -/
theorem mask_mod : (2 * c.N - 1).toNat % 2 ^ (k + 2) = 2 ^ (k + 1) - 1 := by
  have hdvd : 2 ^ (k + 2) ∣ 2 ^ w := Nat.pow_dvd_pow 2 (succ_lt_width hN hm hone)
  have hpos := Nat.two_pow_pos (k + 1)
  have hdouble : (2 * c.N).toNat ≡ 2 ^ (k + 1) - 1 + 1 [MOD 2 ^ (k + 2)] := by
    obtain ⟨n, hn⟩ := hm
    have htwo : 2 * c.N = c.N + c.N := BitVec.two_mul
    have hsum : c.N.toNat + c.N.toNat = 2 ^ (k + 1) + 2 ^ (k + 2) * n := by
      rw [hN, hn, ← Nat.two_mul]
      ring
    rw [Nat.sub_add_cancel hpos, htwo]
    refine (toNat_add_modEq hdvd c.N c.N).trans ?_
    rw [hsum]
    exact Nat.add_mul_mod_self_left _ _ _
  have hmask : (2 * c.N - 1).toNat ≡ 2 ^ (k + 1) - 1 [MOD 2 ^ (k + 2)] := by
    refine toNat_sub_modEq hdvd _ 1 ?_
    rw [one_toNat_of_odd hN hm hone]
    exact hdouble
  refine Eq.trans hmask (Nat.mod_eq_of_lt ?_)
  rw [Nat.pow_succ 2 (k + 1)]
  omega

theorem incr_lt {x : BitVec w} (hx : x.toNat < 2 ^ (k + 1)) :
    (c.incr x).toNat < 2 ^ (k + 1) := by
  have hwidth : 2 ^ (k + 2) ≤ 2 ^ w :=
    Nat.pow_le_pow_right (by decide) (succ_lt_width hN hm hone)
  have hpow : 2 ^ (k + 2) = 2 * 2 ^ (k + 1) := by rw [Nat.pow_succ, Nat.mul_comm]
  have hsucc : (x + 1).toNat = x.toNat + 1 := by
    rw [BitVec.toNat_add, one_toNat_of_odd hN hm hone, Nat.mod_eq_of_lt (by omega)]
  have hle : (c.incr x).toNat ≤ x.toNat + 1 := by
    rw [Capacity.incr, Capacity.add, BitVec.toNat_and, hsucc]
    exact Nat.and_le_left
  calc (c.incr x).toNat
      = (c.incr x).toNat % 2 ^ (k + 2) := (Nat.mod_eq_of_lt (by omega)).symm
    _ = (x.toNat + 1) % 2 ^ (k + 2) &&& (2 ^ (k + 1) - 1) := by
        rw [Capacity.incr, Capacity.add, BitVec.toNat_and, hsucc, Nat.and_mod_two_pow,
          mask_mod hN hm hone]
    _ = (x.toNat + 1) % 2 ^ (k + 2) % 2 ^ (k + 1) := Nat.and_two_pow_sub_one_eq_mod _ _
    _ < 2 ^ (k + 1) := Nat.mod_lt _ (Nat.two_pow_pos _)

theorem not_full {b : PotRingbuffer c T} (hbegin : b.mBegin = 0)
    (hend : b.mEnd.toNat < 2 ^ (k + 1)) : b.full = false := by
  have hthree := three_le hN hm hone
  have hpow : 2 ^ (k + 1) = 2 * 2 ^ k := by rw [Nat.pow_succ, Nat.mul_comm]
  have hpos := Nat.two_pow_pos k
  rw [PotRingbuffer.full, hbegin, beq_eq_false_iff_ne]
  intro heq
  have hN' : c.N = b.mEnd := by rwa [BitVec.ofNat_eq_ofNat, BitVec.zero_xor] at heq
  rw [← hN'] at hend
  omega

/-- However many elements are pushed, the buffer is not full. -/
theorem run_pushBack (x : T) (n : ℕ) {b : PotRingbuffer c T} (hbegin : b.mBegin = 0)
    (hend : b.mEnd.toNat < 2 ^ (k + 1)) :
    ∃ b', run PotRingbuffer.step b (List.replicate n (.pushBack x)) = some b' ∧
      b'.full = false := by
  induction n generalizing b with
  | zero => exact ⟨b, rfl, not_full hN hm hone hbegin hend⟩
  | succ n ih =>
    have hfull := not_full hN hm hone hbegin hend
    have hpush : b.pushBack x = b.incrEnd.store b.incrEnd.back x := by
      simp [PotRingbuffer.pushBack, hfull]
    obtain ⟨b', hrun, hfull'⟩ := ih (b := b.pushBack x)
      (by rw [hpush]; exact hbegin) (by rw [hpush]; exact incr_lt hN hm hone hend)
    exact ⟨b', hrun, hfull'⟩

end

theorem run_boundedDeque_pushBack (x : T) {N n : ℕ} {l : List T} (hle : l.length + n ≤ N) :
    run (boundedDeque N) l (List.replicate n (.pushBack x)) = some (l ++ List.replicate n x) := by
  induction n generalizing l with
  | zero => simp
  | succ n ih =>
    have hne : l.length ≠ N := by omega
    have hstep : boundedDeque N l (.pushBack x) = some (l ++ [x]) := by
      simp [boundedDeque, hne]
    have hlen : (l ++ [x]).length + n ≤ N := by
      rw [List.length_append, List.length_singleton]
      omega
    refine run_cons_iff.mpr ⟨_, hstep, ?_⟩
    rw [ih hlen, List.append_assoc]
    rfl

/-- **The safe capacities.** Of the capacities that pass the two assertions, the powers of two are
those with which every state that operations lead to is safe for the elements that it holds. -/
theorem safe_iff_two_pow (mData : Fin c.N.toNat → T) :
    (∀ ops b, run PotRingbuffer.step (PotRingbuffer.init mData) ops = some b →
      ∃ l, run (boundedDeque c.N.toNat) [] ops = some l ∧ Safe b l) ↔
    ∃ k, c.N.toNat = 2 ^ k := by
  constructor
  · intro hsafe
    obtain ⟨k, m, hm, hN⟩ := Nat.exists_eq_two_pow_mul_odd c.toNat_pos.ne'
    by_cases hone : m = 1
    · exact ⟨k, by rw [hN, hone, Nat.mul_one]⟩
    · -- after `N` pushes the buffer is not full
      let x := mData ⟨0, c.toNat_pos⟩
      obtain ⟨b, hrun, hfull⟩ := run_pushBack hN hm hone x c.N.toNat
        (b := PotRingbuffer.init mData) rfl (by simp [PotRingbuffer.init])
      obtain ⟨l, hl, h⟩ := hsafe _ b hrun
      rw [run_boundedDeque_pushBack x (by simp), Option.some.injEq] at hl
      have hlen : l.length = c.N.toNat := by simp [← hl]
      rw [h.full.mpr hlen] at hfull
      cases hfull
  · rintro ⟨k, hN⟩ ops b hb
    have hrun := holds_run hN mData ops
    rw [hb] at hrun
    generalize run (boundedDeque _) [] ops = l at hrun
    cases hrun with
    | some h => exact ⟨_, rfl, h.safe hN⟩

/-- Six slots pass the assertions. -/
def sixSlots : Capacity 64 := ⟨6, by decide, by decide⟩

/-- With six slots the third `pushBack` overwrites the first element, and the sixth leaves a buffer
that is not full. -/
theorem sixSlots_not_safe :
    ¬ ∀ ops b, run PotRingbuffer.step (PotRingbuffer.init fun _ : Fin sixSlots.N.toNat => 0) ops =
      some b → ∃ l, run (boundedDeque sixSlots.N.toNat) [] ops = some l ∧ Safe b l := by
  intro hsafe
  obtain ⟨l, hl, h⟩ := hsafe [.pushBack 1, .pushBack 2, .pushBack 3, .pushBack 4, .pushBack 5,
    .pushBack 6] _ rfl
  obtain rfl : [1, 2, 3, 4, 5, 6] = l := Option.some.inj hl
  exact absurd (h.full.mpr rfl) (by decide)

end CxxUtil.Ring
