import Mathlib.Algebra.Group.Nat.Defs
import CxxUtil.Ring.PotRingbuffer

/-! # `PotRingbuffer` as a bounded double-ended queue

With a capacity `N` that is a power of two, `& (N - 1)` takes an index modulo `N`, `add` works
modulo `2N` and `^ N` adds `N` modulo `2N`. Positions therefore run modulo `2N` and slots modulo
`N`, and a buffer `Holds` the list that its slots spell from `mBegin` on. -/
namespace CxxUtil.Ring
set_option autoImplicit false
open CxxUtil.Foundations

variable {w k : ℕ} {T : Type*} {c : Capacity w}

/-! ## Arithmetic modulo powers of two -/

/-- Flipping the top bit of a number of `k + 1` bits adds `2 ^ k` to it. -/
theorem xor_two_pow {x : ℕ} (hx : x < 2 ^ (k + 1)) : x ^^^ 2 ^ k = (x + 2 ^ k) % 2 ^ (k + 1) := by
  apply Nat.eq_of_testBit_eq
  intro i
  rw [Nat.testBit_xor, Nat.testBit_two_pow, Nat.testBit_mod_two_pow, Nat.add_comm x]
  rcases Nat.lt_trichotomy i k with hlt | rfl | hgt
  · simp [Nat.testBit_two_pow_add_gt hlt, Nat.lt_succ_of_lt hlt, (Nat.ne_of_lt hlt).symm]
  · simp [Nat.testBit_two_pow_add_eq]
  · have hzero : x.testBit i = false :=
      Nat.testBit_lt_two_pow (Nat.lt_of_lt_of_le hx (Nat.pow_le_pow_right (by decide) hgt))
    have hout : ¬ i < k + 1 := by omega
    simp [hzero, hout, Nat.ne_of_lt hgt]

section
variable {m : ℕ} (hm : m ∣ 2 ^ w) (x y : BitVec w)
include hm

theorem toNat_add_modEq : (x + y).toNat ≡ x.toNat + y.toNat [MOD m] := by
  rw [BitVec.toNat_add]
  exact Nat.mod_mod_of_dvd _ hm

theorem toNat_sub_modEq {p : ℕ} (h : x.toNat ≡ p + y.toNat [MOD m]) : (x - y).toNat ≡ p [MOD m] := by
  have hsum : (x - y + y).toNat ≡ (x - y).toNat + y.toNat [MOD m] := toNat_add_modEq hm _ _
  rw [BitVec.sub_add_cancel] at hsum
  exact Nat.ModEq.add_right_cancel' y.toNat (hsum.symm.trans h)

end

/-! ## The masks of a capacity that is a power of two -/

section
variable (hN : c.N.toNat = 2 ^ k)
include hN

theorem lt_width : k < w := (Nat.pow_lt_pow_iff_right (by decide)).mp (hN ▸ c.N.isLt)

theorem one_toNat : (1 : BitVec w).toNat = 1 := by
  have := lt_width hN
  simp only [BitVec.toNat_ofNat, BitVec.ofNat_eq_ofNat]
  exact Nat.mod_eq_of_lt (Nat.one_lt_two_pow (by omega))

theorem twice_dvd : 2 * c.N.toNat ∣ 2 ^ w := by
  rw [hN, Nat.mul_comm, ← Nat.pow_succ]
  exact Nat.pow_dvd_pow 2 (lt_width hN)

theorem dvd_width : c.N.toNat ∣ 2 ^ w := hN ▸ Nat.pow_dvd_pow 2 (Nat.le_of_lt (lt_width hN))

theorem wrappedAccess_eq (index : BitVec w) :
    c.wrappedAccess index = Fin.ofNat c.N.toNat index.toNat := by
  refine Fin.ext ?_
  show (index &&& (c.N - 1)).toNat = index.toNat % c.N.toNat
  rw [BitVec.toNat_and, c.toNat_mask, hN, Nat.and_two_pow_sub_one_eq_mod]

/-- The mask is right also where `2 * N` is out of range of `size_t`. -/
theorem twice_mask : (2 * c.N - 1).toNat = 2 * c.N.toNat - 1 := by
  have hpos := c.toNat_pos
  have hle : 2 * c.N.toNat ≤ 2 ^ w := Nat.le_of_dvd (Nat.two_pow_pos w) (twice_dvd hN)
  have htwo : 2 * c.N = c.N + c.N := BitVec.two_mul
  rw [htwo, BitVec.toNat_sub, BitVec.toNat_add, one_toNat hN, ← Nat.two_mul]
  rcases Nat.eq_or_lt_of_le hle with heq | hlt
  · rw [heq, Nat.mod_self, Nat.add_zero]
    exact Nat.mod_eq_of_lt (by omega)
  · rw [Nat.mod_eq_of_lt hlt]
    have hsum : 2 ^ w - 1 + 2 * c.N.toNat = 2 * c.N.toNat - 1 + 2 ^ w := by omega
    rw [hsum, Nat.add_mod_right]
    exact Nat.mod_eq_of_lt (by omega)

theorem toNat_add (x amount : BitVec w) :
    (c.add x amount).toNat = (x + amount).toNat % (2 * c.N.toNat) := by
  rw [Capacity.add, BitVec.toNat_and, twice_mask hN, hN, Nat.mul_comm, ← Nat.pow_succ,
    Nat.and_two_pow_sub_one_eq_mod]

theorem toNat_incr (x : BitVec w) : (c.incr x).toNat ≡ x.toNat + 1 [MOD 2 * c.N.toNat] := by
  unfold Capacity.incr
  rw [toNat_add hN]
  calc (x + 1).toNat % (2 * c.N.toNat)
      ≡ (x + 1).toNat [MOD 2 * c.N.toNat] := Nat.mod_modEq _ _
    _ ≡ x.toNat + 1 [MOD 2 * c.N.toNat] := by
        simpa only [one_toNat hN] using toNat_add_modEq (twice_dvd hN) x 1

theorem toNat_decr (x : BitVec w) : (c.decr x).toNat + 1 ≡ x.toNat [MOD 2 * c.N.toNat] := by
  unfold Capacity.decr
  rw [toNat_add hN]
  calc (x + -1).toNat % (2 * c.N.toNat) + 1
      ≡ (x + -1).toNat + 1 [MOD 2 * c.N.toNat] := Nat.ModEq.add_right 1 (Nat.mod_modEq _ _)
    _ ≡ (x + -1 + 1).toNat [MOD 2 * c.N.toNat] := by
        simpa only [one_toNat hN] using (toNat_add_modEq (twice_dvd hN) (x + -1) 1).symm
    _ = x.toNat := by rw [BitVec.add_assoc, BitVec.add_left_neg, BitVec.add_zero]

theorem add_lt (x amount : BitVec w) : (c.add x amount).toNat < 2 * c.N.toNat := by
  rw [toNat_add hN]
  exact Nat.mod_lt _ (by have := c.toNat_pos; omega)

theorem xor_toNat {x : BitVec w} (hx : x.toNat < 2 * c.N.toNat) :
    (x ^^^ c.N).toNat = (x.toNat + c.N.toNat) % (2 * c.N.toNat) := by
  rw [hN, Nat.mul_comm, ← Nat.pow_succ] at hx ⊢
  rw [BitVec.toNat_xor, hN, xor_two_pow hx]

end

/-! ## The list that a buffer holds -/

/-- The buffer holds `l`: its elements are in the slots from `mBegin` on, and `mEnd` is as many
positions further. -/
structure Holds (b : PotRingbuffer c T) (l : List T) : Prop where
  begin_lt : b.mBegin.toNat < 2 * c.N.toNat
  end_lt : b.mEnd.toNat < 2 * c.N.toNat
  end_modEq : b.mEnd.toNat ≡ b.mBegin.toNat + l.length [MOD 2 * c.N.toNat]
  length_le : l.length ≤ c.N.toNat
  content_eq : content b.mData b.mBegin.toNat l.length = l

theorem holds_init (mData : Fin c.N.toNat → T) : Holds (PotRingbuffer.init mData) [] where
  begin_lt := by simpa [PotRingbuffer.init] using c.toNat_pos
  end_lt := by simpa [PotRingbuffer.init] using c.toNat_pos
  end_modEq := by simp [PotRingbuffer.init, Nat.ModEq.refl]
  length_le := Nat.zero_le _
  content_eq := rfl

namespace Holds
variable {b : PotRingbuffer c T} {l : List T}

theorem empty_iff (h : Holds b l) : b.empty = true ↔ l = [] := by
  have hpos := c.toNat_pos
  have hle := h.length_le
  rw [PotRingbuffer.empty, beq_iff_eq]
  constructor
  · intro heq
    have hmod : b.mBegin.toNat + 0 ≡ b.mBegin.toNat + l.length [MOD 2 * c.N.toNat] := by
      simpa only [heq, Nat.add_zero] using h.end_modEq
    have hlen := (Nat.ModEq.add_left_cancel' _ hmod).eq_of_lt_of_lt (by omega) (by omega)
    exact List.length_eq_zero_iff.mp hlen.symm
  · rintro rfl
    exact BitVec.eq_of_toNat_eq (h.end_modEq.eq_of_lt_of_lt h.end_lt h.begin_lt).symm

theorem end_modEq_slots (h : Holds b l) :
    b.mEnd.toNat ≡ b.mBegin.toNat + l.length [MOD c.N.toNat] :=
  h.end_modEq.of_mul_left 2

theorem slot_eq (h : Holds b l) {i : ℕ} (hi : i < l.length) :
    b.mData (Fin.ofNat c.N.toNat (b.mBegin.toNat + i)) = l[i] :=
  (content_getElem b.mData (by simpa using hi)).symm.trans (List.getElem_of_eq h.content_eq _)

theorem ne_nil_of_full (hlen : l.length = c.N.toNat) : l ≠ [] := by
  have := c.toNat_pos
  rintro rfl
  simp at hlen
  omega

theorem length_tail_lt (hlen : l.length = c.N.toNat) : l.tail.length < c.N.toNat := by
  have := c.toNat_pos
  rw [List.length_tail, hlen]
  omega

theorem length_dropLast_lt (hlen : l.length = c.N.toNat) : l.dropLast.length < c.N.toNat := by
  have := c.toNat_pos
  rw [List.length_dropLast, hlen]
  omega

section
variable (hN : c.N.toNat = 2 ^ k)
include hN

theorem full_iff (h : Holds b l) : b.full = true ↔ l.length = c.N.toNat := by
  have hpos := c.toNat_pos
  have hle := h.length_le
  have hxor : (b.mBegin ^^^ c.N).toNat ≡ b.mBegin.toNat + c.N.toNat [MOD 2 * c.N.toNat] := by
    rw [xor_toNat hN h.begin_lt]
    exact Nat.mod_modEq _ _
  rw [PotRingbuffer.full, beq_iff_eq]
  constructor
  · intro heq
    rw [heq] at hxor
    have hmod := Nat.ModEq.add_left_cancel' _ (h.end_modEq.symm.trans hxor)
    exact hmod.eq_of_lt_of_lt (by omega) (by omega)
  · intro hlen
    refine BitVec.eq_of_toNat_eq (Nat.ModEq.eq_of_lt_of_lt (m := 2 * c.N.toNat) ?_ ?_ h.end_lt)
    · exact hxor.trans (hlen ▸ h.end_modEq.symm)
    · rw [xor_toNat hN h.begin_lt]
      exact Nat.mod_lt _ (by omega)

theorem size_eq (h : Holds b l) : b.size.toNat = l.length := by
  unfold PotRingbuffer.size
  split
  case isTrue hfull => exact ((h.full_iff hN).mp hfull).symm
  case isFalse hfull =>
    have hne : l.length ≠ c.N.toNat := fun hlen => hfull ((h.full_iff hN).mpr hlen)
    have hle := h.length_le
    have hend := h.end_modEq_slots
    rw [Nat.add_comm] at hend
    have hsub := toNat_sub_modEq (dvd_width hN) b.mEnd b.mBegin hend
    rw [BitVec.toNat_and, c.toNat_mask, hN, Nat.and_two_pow_sub_one_eq_mod, ← hN]
    exact Eq.trans hsub (Nat.mod_eq_of_lt (by omega))

theorem at_eq (h : Holds b l) {i : BitVec w} (hi : i.toNat < l.length) :
    b.mData (b.at i) = l[i.toNat] := by
  rw [PotRingbuffer.at, wrappedAccess_eq hN,
    ofNat_eq_of_modEq (toNat_add_modEq (dvd_width hN) b.mBegin i)]
  exact h.slot_eq hi

theorem reverseAt_slot (h : Holds b l) {i : BitVec w} (hi : i.toNat ≤ l.length) :
    b.reverseAt i = Fin.ofNat c.N.toNat (b.mBegin.toNat + (l.length - i.toNat)) := by
  have hend : b.mEnd.toNat ≡ b.mBegin.toNat + (l.length - i.toNat) + i.toNat [MOD c.N.toNat] := by
    have hsum : b.mBegin.toNat + (l.length - i.toNat) + i.toNat = b.mBegin.toNat + l.length := by
      omega
    exact hsum ▸ h.end_modEq_slots
  rw [PotRingbuffer.reverseAt, wrappedAccess_eq hN,
    ofNat_eq_of_modEq (toNat_sub_modEq (dvd_width hN) b.mEnd i hend)]

theorem reverseAt_eq (h : Holds b l) {i : BitVec w} (hpos : 0 < i.toNat)
    (hi : i.toNat ≤ l.length) : b.mData (b.reverseAt i) = l[l.length - i.toNat] := by
  rw [h.reverseAt_slot hN hi]
  exact h.slot_eq _

theorem back_slot (h : Holds b l) (hne : l ≠ []) :
    b.back = Fin.ofNat c.N.toNat (b.mBegin.toNat + (l.length - 1)) := by
  have hpos := List.length_pos_iff.mpr hne
  have hslot := h.reverseAt_slot hN (i := 1) (by rw [one_toNat hN]; exact hpos)
  rwa [one_toNat hN] at hslot

theorem front_eq (h : Holds b l) (hne : l ≠ []) : b.mData b.front = l.head hne := by
  rw [List.head_eq_getElem]
  exact h.at_eq hN (i := 0) (by simpa using List.length_pos_iff.mpr hne)

theorem back_eq (h : Holds b l) (hne : l ≠ []) : b.mData b.back = l.getLast hne := by
  have hpos := List.length_pos_iff.mpr hne
  rw [List.getLast_eq_getElem]
  show b.mData (b.reverseAt 1) = _
  simpa only [one_toNat hN] using
    h.reverseAt_eq hN (i := 1) (by rw [one_toNat hN]; decide) (by rw [one_toNat hN]; exact hpos)

/-! ### What each store does -/

theorem incrBegin (h : Holds b l) (hne : l ≠ []) : Holds b.incrBegin l.tail := by
  obtain ⟨x, l, rfl⟩ := List.exists_cons_of_ne_nil hne
  have hincr := toNat_incr hN b.mBegin
  have hcontent := h.content_eq
  rw [List.length_cons, content_cons, List.cons.injEq] at hcontent
  constructor
  case begin_lt => exact add_lt hN _ _
  case end_lt => exact h.end_lt
  case end_modEq =>
    refine h.end_modEq.trans ?_
    rw [List.length_cons, List.tail_cons, Nat.add_comm l.length, ← Nat.add_assoc]
    exact (Nat.ModEq.add_right _ hincr).symm
  case length_le => exact Nat.le_of_succ_le h.length_le
  case content_eq => exact (content_congr _ (hincr.of_mul_left 2) _).trans hcontent.2

theorem decrEnd (h : Holds b l) (hne : l ≠ []) : Holds b.decrEnd l.dropLast := by
  have hpos := List.length_pos_iff.mpr hne
  have hlen : l.length - 1 + 1 = l.length := by omega
  have hcontent := h.content_eq
  rw [← hlen, content_succ] at hcontent
  constructor
  case begin_lt => exact h.begin_lt
  case end_lt => exact add_lt hN _ _
  case end_modEq =>
    rw [List.length_dropLast]
    refine Nat.ModEq.add_right_cancel' 1 ((toNat_decr hN b.mEnd).trans ?_)
    rw [Nat.add_assoc, hlen]
    exact h.end_modEq
  case length_le =>
    have := h.length_le
    rw [List.length_dropLast]
    omega
  case content_eq =>
    have hdrop := congrArg List.dropLast hcontent
    rw [List.length_dropLast]
    rwa [List.dropLast_concat] at hdrop

theorem append (h : Holds b l) (hlt : l.length < c.N.toNat) (x : T) :
    Holds (b.incrEnd.store b.incrEnd.back x) (l ++ [x]) := by
  have hend : (c.incr b.mEnd).toNat ≡ b.mBegin.toNat + l.length + 1 [MOD 2 * c.N.toNat] :=
    (toNat_incr hN b.mEnd).trans (Nat.ModEq.add_right 1 h.end_modEq)
  have hback : b.incrEnd.back = Fin.ofNat c.N.toNat (b.mBegin.toNat + l.length) := by
    refine (wrappedAccess_eq hN _).trans (ofNat_eq_of_modEq ?_)
    refine toNat_sub_modEq (dvd_width hN) (c.incr b.mEnd) 1 ?_
    rw [one_toNat hN]
    exact hend.of_mul_left 2
  have hlen : (l ++ [x]).length = l.length + 1 := by simp
  constructor
  case begin_lt => exact h.begin_lt
  case end_lt => exact add_lt hN _ _
  case end_modEq =>
    rw [hlen]
    exact hend
  case length_le => omega
  case content_eq =>
    rw [hlen, hback]
    exact (content_append b.mData hlt x).trans (by rw [h.content_eq])

theorem prepend (h : Holds b l) (hlt : l.length < c.N.toNat) (x : T) :
    Holds (b.decrBegin.store b.decrBegin.front x) (x :: l) := by
  have hbegin : (c.decr b.mBegin).toNat + 1 ≡ b.mBegin.toNat [MOD 2 * c.N.toNat] :=
    toNat_decr hN b.mBegin
  have hfront : b.decrBegin.front = Fin.ofNat c.N.toNat (c.decr b.mBegin).toNat := by
    have hzero : c.decr b.mBegin + 0 = c.decr b.mBegin := BitVec.add_zero _
    refine (wrappedAccess_eq hN _).trans ?_
    exact congrArg (fun x : BitVec w => Fin.ofNat c.N.toNat x.toNat) hzero
  constructor
  case begin_lt => exact add_lt hN _ _
  case end_lt => exact h.end_lt
  case end_modEq =>
    refine h.end_modEq.trans ?_
    rw [List.length_cons, Nat.add_comm l.length, ← Nat.add_assoc]
    exact (Nat.ModEq.add_right _ hbegin).symm
  case length_le => exact hlt
  case content_eq =>
    rw [hfront]
    refine (content_prepend b.mData hlt x).trans ?_
    rw [content_congr _ (hbegin.of_mul_left 2), h.content_eq]

/-! ### What each operation does -/

theorem pushBack (h : Holds b l) (x : T) :
    Holds (b.pushBack x) ((if l.length = c.N.toNat then l.tail else l) ++ [x]) := by
  have hle := h.length_le
  have hfull := h.full_iff hN
  unfold PotRingbuffer.pushBack
  by_cases hlen : l.length = c.N.toNat
  · have hne : l ≠ [] := ne_nil_of_full hlen
    rw [if_pos (hfull.mpr hlen), if_pos hlen]
    exact (h.incrBegin hN hne).append hN (length_tail_lt hlen) x
  · rw [if_neg (fun hf => hlen (hfull.mp hf)), if_neg hlen]
    exact h.append hN (by omega) x

theorem pushFront (h : Holds b l) (x : T) :
    Holds (b.pushFront x) (x :: if l.length = c.N.toNat then l.dropLast else l) := by
  have hle := h.length_le
  have hfull := h.full_iff hN
  unfold PotRingbuffer.pushFront
  by_cases hlen : l.length = c.N.toNat
  · have hne : l ≠ [] := ne_nil_of_full hlen
    rw [if_pos (hfull.mpr hlen), if_pos hlen]
    exact (h.decrEnd hN hne).prepend hN (length_dropLast_lt hlen) x
  · rw [if_neg (fun hf => hlen (hfull.mp hf)), if_neg hlen]
    exact h.prepend hN (by omega) x

/-- One operation on the buffer is the operation on the list that it holds. -/
theorem step (h : Holds b l) (op : DequeOp T) :
    Option.Rel Holds (b.step op) (boundedDeque c.N.toNat l op) := by
  cases op with
  | pushBack x => exact .some (h.pushBack hN x)
  | pushFront x => exact .some (h.pushFront hN x)
  | popFront =>
    simp only [PotRingbuffer.step, PotRingbuffer.popFront, boundedDeque, h.empty_iff,
      List.isEmpty_iff]
    split
    case isTrue => exact .none
    case isFalse hne => exact .some (h.incrBegin hN hne)
  | popBack =>
    simp only [PotRingbuffer.step, PotRingbuffer.popBack, boundedDeque, h.empty_iff,
      List.isEmpty_iff]
    split
    case isTrue => exact .none
    case isFalse hne => exact .some (h.decrEnd hN hne)

end
end Holds

theorem holds_run (hN : c.N.toNat = 2 ^ k) (mData : Fin c.N.toNat → T) (ops : List (DequeOp T)) :
    Option.Rel Holds (run PotRingbuffer.step (PotRingbuffer.init mData) ops)
      (run (boundedDeque c.N.toNat) [] ops) :=
  run_rel (fun _ _ op h => Holds.step hN h op) (holds_init mData) ops

/-! ## What a user of the buffer sees -/

/-- What the functions of the buffer return is what they return of the list `l`. -/
structure Agrees (b : PotRingbuffer c T) (l : List T) : Prop where
  elements : (List.range b.size.toNat).map (fun i => b.mData (b.at (BitVec.ofNat w i))) = l
  size : b.size.toNat = l.length
  empty : b.empty = true ↔ l.length = 0
  full : b.full = true ↔ l.length = c.N.toNat
  front : ∀ hne : l ≠ [], b.mData b.front = l.head hne
  back : ∀ hne : l ≠ [], b.mData b.back = l.getLast hne
  reverseAt : ∀ i : BitVec w, 1 ≤ i.toNat → i.toNat ≤ b.size.toNat →
    some (b.mData (b.reverseAt i)) = l[l.length - i.toNat]?
  begin_lt : b.mBegin.toNat < 2 * c.N.toNat
  end_lt : b.mEnd.toNat < 2 * c.N.toNat

theorem Holds.agrees (hN : c.N.toNat = 2 ^ k) {b : PotRingbuffer c T} {l : List T}
    (h : Holds b l) : Agrees b l where
  elements := by
    have hle := h.length_le
    have hlt := c.N.isLt
    apply List.ext_getElem
    · simp [h.size_eq hN]
    · intro i hi hl
      have htoNat : (BitVec.ofNat w i).toNat = i := by
        rw [BitVec.toNat_ofNat, Nat.mod_eq_of_lt (by omega)]
      have hat := h.at_eq hN (i := BitVec.ofNat w i) (by omega)
      simpa only [List.getElem_map, List.getElem_range, htoNat] using hat
  size := h.size_eq hN
  empty := h.empty_iff.trans List.length_eq_zero_iff.symm
  full := h.full_iff hN
  front := h.front_eq hN
  back := h.back_eq hN
  reverseAt i hpos hi := by
    rw [h.size_eq hN] at hi
    rw [h.reverseAt_eq hN hpos hi, List.getElem?_eq_getElem]
  begin_lt := h.begin_lt
  end_lt := h.end_lt

/-- **Refinement of a bounded deque.** From the constructed buffer and the empty list, whatever
`mData` is found to hold, the same sequences of operations can be performed, and after each of them
the buffer agrees with the list. -/
theorem refines_boundedDeque (hN : ∃ k, c.N.toNat = 2 ^ k) (mData : Fin c.N.toNat → T)
    (ops : List (DequeOp T)) :
    Option.Rel Agrees (run PotRingbuffer.step (PotRingbuffer.init mData) ops)
      (run (boundedDeque c.N.toNat) [] ops) := by
  obtain ⟨k, hN⟩ := hN
  have hrun := holds_run hN mData ops
  generalize run PotRingbuffer.step _ ops = b, run (boundedDeque _) [] ops = l at hrun
  cases hrun with
  | none => exact .none
  | some h => exact .some (h.agrees hN)

/-- A `size_t` of 64 bits and four slots. -/
def fourSlots : Capacity 64 := ⟨4, by decide, by decide⟩

/-- The fifth `pushBack` drops the front, the `pushFront` behind it drops the back. -/
theorem refines_boundedDeque_fourSlots :
    Option.Rel Agrees
      (run PotRingbuffer.step (PotRingbuffer.init fun _ : Fin fourSlots.N.toNat => 0)
        [.pushBack 1, .pushBack 2, .pushBack 3, .pushBack 4, .pushBack 5, .pushFront 6, .popBack])
      (some [6, 2, 3]) :=
  refines_boundedDeque (c := fourSlots) ⟨2, by decide⟩ (fun _ => 0)
    [.pushBack 1, .pushBack 2, .pushBack 3, .pushBack 4, .pushBack 5, .pushFront 6, .popBack]

end CxxUtil.Ring
