import CxxUtil.Ring.PotQueue

/-! # Interrupts that show

What the functions of a `PotQueue` return when more is pushed between their accesses than `Calm`
allows. -/
namespace CxxUtil.Ring.PotQueue
open Foundations PotRingbuffer
set_option autoImplicit false

variable {w k : ℕ} {T : Type*} {c : Capacity w}

/-! ## What is seen -/

theorem two_le_of_even (c : Capacity w) : 2 ≤ c.N.toNat := by
  have hpos := c.toNat_pos
  have hne : c.N.toNat ≠ 1 := by
    intro hone
    have heven : c.N.toNat % (2 % 2 ^ w) = 0 := by
      simpa [BitVec.toNat_umod] using congrArg BitVec.toNat c.even
    rw [hone] at heven
    cases w with
    | zero => simp at heven
    | succ w =>
      have htwice : 2 % 2 ^ (w + 1) = 2 * (1 % 2 ^ w) := by
        rw [Nat.pow_succ, Nat.mul_comm (2 ^ w) 2]
        exact Nat.mul_mod_mul_left 2 1 (2 ^ w)
      have hdvd : 2 % 2 ^ (w + 1) ∣ 1 := Nat.dvd_of_mod_eq_zero heven
      rw [htwice] at hdvd
      have hunit := Nat.dvd_one.mp hdvd
      omega
  omega

section
variable (hN : c.N.toNat = 2 ^ k) {b : PotRingbuffer c T} {l : List T}
include hN

/-- A push onto a full buffer writes to the slot that was the front. -/
theorem front_eq_back_of_full (h : Holds b l) (hlen : l.length = c.N.toNat) (elem : T) :
    b.front = (b.pushBack elem).back := by
  have hpush := h.pushBack hN elem
  have hbegin := mBegin_pushBack_of_full ((h.full_iff hN).mpr hlen) elem
  have hincr : (c.incr b.mBegin).toNat ≡ b.mBegin.toNat + 1 [MOD c.N.toNat] :=
    (toNat_incr hN b.mBegin).of_mul_left 2
  have hpos := c.toNat_pos
  have hfront : b.front = Fin.ofNat c.N.toNat (b.mBegin.toNat + 0) := by
    refine (wrappedAccess_eq hN _).trans (ofNat_eq_of_modEq ?_)
    exact toNat_add_modEq (dvd_width hN) b.mBegin 0
  rw [hpush.back_slot hN (by simp), hbegin, hfront]
  refine ofNat_eq_of_modEq ?_
  rw [if_pos hlen, List.length_append, List.length_tail, hlen, List.length_singleton]
  have hround : b.mBegin.toNat + 1 + (c.N.toNat - 1 + 1 - 1) = b.mBegin.toNat + c.N.toNat := by
    omega
  have hback := Nat.ModEq.add_right (c.N.toNat - 1 + 1 - 1) hincr
  rw [hround] at hback
  exact (hback.trans (Nat.add_mod_right _ _)).symm

theorem mData_front_of_full (h : Holds b l) (hlen : l.length = c.N.toNat) (elem : T) :
    (b.pushBack elem).mData b.front = elem := by
  rw [front_eq_back_of_full hN h hlen, (h.pushBack hN elem).back_eq hN (by simp)]
  simp

/-- The difference that `size()` takes is zero when the buffer has just been filled. -/
theorem difference_of_full (h : Holds b l) (hlen : l.length = c.N.toNat) :
    difference b = 0 := by
  have hend := h.end_modEq_slots
  rw [hlen, Nat.add_comm] at hend
  have hsub := toNat_sub_modEq (dvd_width hN) b.mEnd b.mBegin hend
  refine BitVec.eq_of_toNat_eq ?_
  rw [difference, BitVec.toNat_and, c.toNat_mask, hN, Nat.and_two_pow_sub_one_eq_mod, ← hN]
  exact Eq.trans hsub (by simp)

/-- Two pushes onto a full buffer, one of them taken back, leave more than `N` positions in use. -/
theorem not_holds_of_two_drops (h : Holds b l) (hlen : l.length = c.N.toNat) (x y : T) :
    ¬ ∃ held, Holds { (b.pushBack x).pushBack y with mBegin := c.incr b.mBegin } held := by
  rintro ⟨held, hheld⟩
  have hone := h.pushBack hN x
  rw [if_pos hlen] at hone
  have hlen' : (l.tail ++ [x]).length = c.N.toNat := by
    have hpos := c.toNat_pos
    rw [List.length_append, List.length_tail, hlen, List.length_singleton]
    omega
  have htwo := hone.pushBack hN y
  rw [if_pos hlen'] at htwo
  have hbegin : ((b.pushBack x).pushBack y).mBegin = c.incr (c.incr b.mBegin) := by
    rw [mBegin_pushBack_of_full ((hone.full_iff hN).mpr hlen'),
      mBegin_pushBack_of_full ((h.full_iff hN).mpr hlen)]
  have hend := htwo.end_modEq
  have hcount : ((l.tail ++ [x]).tail ++ [y]).length = c.N.toNat := by
    have hpos := c.toNat_pos
    rw [List.length_append, List.length_tail, hlen', List.length_singleton]
    omega
  rw [hcount, hbegin] at hend
  have hposition : (c.incr b.mBegin).toNat + held.length ≡
      (c.incr b.mBegin).toNat + (1 + c.N.toNat) [MOD 2 * c.N.toNat] := by
    refine hheld.end_modEq.symm.trans (hend.trans ?_)
    rw [← Nat.add_assoc]
    exact Nat.ModEq.add_right _ (toNat_incr hN (c.incr b.mBegin))
  have hlength := Nat.ModEq.add_left_cancel' _ hposition
  have hle := hheld.length_le
  have htwoSlots := two_le_of_even c
  have hsame := hlength.eq_of_lt_of_lt (by omega) (by omega)
  omega

/-- Pushes onto a full buffer take `mBegin` along. -/
theorem pushes_onto_full (h : Holds b l) (hlen : l.length = c.N.toNat) (xs : List T) :
    ∃ l', Holds (xs.foldl PotRingbuffer.pushBack b) l' ∧ l'.length = c.N.toNat ∧
      (xs.foldl PotRingbuffer.pushBack b).mBegin.toNat ≡
        b.mBegin.toNat + xs.length [MOD 2 * c.N.toNat] := by
  induction xs generalizing b l with
  | nil => exact ⟨l, h, hlen, Nat.ModEq.refl _⟩
  | cons x xs ih =>
    obtain ⟨l', hl', hlen', hbegin⟩ := ih (h.pushBack hN x) ((length_pushed l x).1 hlen)
    refine ⟨l', hl', hlen', hbegin.trans ?_⟩
    have hround : b.mBegin.toNat + (x :: xs).length = b.mBegin.toNat + 1 + xs.length := by
      rw [List.length_cons]
      omega
    rw [hround, mBegin_pushBack_of_full ((h.full_iff hN).mpr hlen)]
    exact (toNat_incr hN b.mBegin).add_right xs.length

/-- After `N` pushes onto a full buffer, what was loaded first is found equal. -/
theorem seen_empty_of_round (h : Holds b l) (hlen : l.length = c.N.toNat) (first : Operand)
    {xs : List T} (hxs : xs.length = c.N.toNat) :
    (seen first (load first b) (xs.foldl PotRingbuffer.pushBack b)).empty = true := by
  obtain ⟨l', hl', hlen', hbegin⟩ := pushes_onto_full hN h hlen xs
  have hpos := c.toNat_pos
  rw [hxs] at hbegin
  cases first with
  | mBegin =>
    have hend : (xs.foldl PotRingbuffer.pushBack b).mEnd.toNat ≡
        b.mBegin.toNat [MOD 2 * c.N.toNat] := by
      refine hl'.end_modEq.trans ?_
      rw [hlen']
      refine (hbegin.add_right c.N.toNat).trans ?_
      have hround : b.mBegin.toNat + c.N.toNat + c.N.toNat = b.mBegin.toNat + 2 * c.N.toNat := by
        omega
      rw [hround]
      exact Nat.add_mod_right _ _
    exact (eq_iff_of_modEq h.begin_lt hl'.end_lt hend (by omega)).mpr rfl
  | mEnd =>
    have hend := h.end_modEq
    rw [hlen] at hend
    exact (eq_iff_of_modEq hl'.begin_lt h.end_lt (hend.trans hbegin.symm) (by omega)).mpr rfl

/-- A push onto a full buffer between the loads of `full()` hides that it is full. -/
theorem seen_full_of_full (h : Holds b l) (hlen : l.length = c.N.toNat) (first : Operand)
    (elem : T) : (seen first (load first b) (b.pushBack elem)).full = false := by
  have hfull := (h.full_iff hN).mpr hlen
  have hafter := full_pushBack hN h hfull elem
  cases first with
  | mBegin =>
    have hbegin : b.mBegin ^^^ c.N = b.mEnd := beq_iff_eq.mp hfull
    show (b.mBegin ^^^ c.N == (b.pushBack elem).mEnd) = false
    rw [hbegin, mEnd_pushBack]
    exact beq_false_of_ne (incr_ne hN b.mEnd).symm
  | mEnd =>
    have hbegin : (b.pushBack elem).mBegin ^^^ c.N = (b.pushBack elem).mEnd := beq_iff_eq.mp hafter
    show ((b.pushBack elem).mBegin ^^^ c.N == b.mEnd) = false
    rw [hbegin, mEnd_pushBack]
    exact beq_false_of_ne (incr_ne hN b.mEnd)

/-- With the end loaded, a push that drops an element makes the difference one too small. -/
theorem difference_of_dropped (h : Holds b l) (hlen : l.length + 1 = c.N.toNat) (x y : T) :
    difference (seen .mEnd b.mEnd ((b.pushBack x).pushBack y)) =
      BitVec.ofNat w (c.N.toNat - 2) := by
  have htwo := two_le_of_even c
  have hne : l.length ≠ c.N.toNat := by omega
  have hnot : b.full = false := Bool.eq_false_iff.mpr fun htrue => hne ((h.full_iff hN).mp htrue)
  have hfilled := h.pushBack hN x
  have hfull : (b.pushBack x).full = true := by
    refine (hfilled.full_iff hN).mpr ?_
    rw [(length_pushed l x).2 hne, hlen]
  have hbegin : ((b.pushBack x).pushBack y).mBegin = c.incr b.mBegin := by
    rw [mBegin_pushBack_of_full hfull, mBegin_pushBack_of_not_full hnot]
  have hincr : (c.incr b.mBegin).toNat ≡ b.mBegin.toNat + 1 [MOD c.N.toNat] :=
    (toNat_incr hN b.mBegin).of_mul_left 2
  have hend : b.mEnd.toNat ≡ c.N.toNat - 2 + (c.incr b.mBegin).toNat [MOD c.N.toNat] := by
    refine h.end_modEq_slots.trans ?_
    have hsum : b.mBegin.toNat + l.length = c.N.toNat - 2 + (b.mBegin.toNat + 1) := by omega
    rw [hsum]
    exact (hincr.add_left _).symm
  have hsub := toNat_sub_modEq (dvd_width hN) b.mEnd (c.incr b.mBegin) hend
  refine BitVec.eq_of_toNat_eq ?_
  show ((b.mEnd - ((b.pushBack x).pushBack y).mBegin) &&& (c.N - 1)).toNat = _
  rw [hbegin, BitVec.toNat_and, c.toNat_mask, hN, Nat.and_two_pow_sub_one_eq_mod, ← hN,
    BitVec.toNat_ofNat]
  have hwidth := c.N.isLt
  rw [Nat.mod_eq_of_lt (show c.N.toNat - 2 < 2 ^ w by omega)]
  exact Eq.trans hsub (Nat.mod_eq_of_lt (by omega))

end

/-! ## What is returned -/

section
variable {order : Order} {m : Machine c T}

theorem run_pushes (m : Machine c T) (xs : List T) :
    run (step order) m (xs.map .push) = some { m with
      mRingbuffer := xs.foldl PotRingbuffer.pushBack m.mRingbuffer
      pushes := m.pushes + xs.length
      pushed := m.pushed ++ xs } := by
  induction xs generalizing m with
  | nil => simp
  | cons x xs ih =>
    refine run_cons_iff.mpr ⟨_, rfl, (ih _).trans ?_⟩
    simp only [List.foldl_cons, List.length_cons, List.append_assoc, List.singleton_append,
      Nat.add_assoc, Nat.add_comm 1]

theorem step_call (hidle : m.control = .idle) (op : Op) :
    step order m (.call op) = some (call order m op) := by
  simp only [step, hidle]

variable (hN : c.N.toNat = 2 ^ k) {l : List T} (h : Holds m.mRingbuffer l)
  (hidle : m.control = .idle)
include hN h hidle

theorem empty_of_round (hlen : l.length = c.N.toNat) {xs : List T} (hxs : xs.length = c.N.toNat) :
    (run (step order) m (.call .empty :: (xs.map .push ++ [.access]))).map Machine.results =
      some (m.results ++ [.empty true]) := by
  have hrun : run (step order) m (.call .empty :: (xs.map .push ++ [.access])) = some _ :=
    run_cons_iff.mpr ⟨_, step_call hidle .empty, run_trans (run_pushes _ xs) rfl⟩
  rw [hrun, Option.map_some]
  exact congrArg (fun value => some (m.results ++ [.empty value]))
    (seen_empty_of_round hN h hlen order.empty hxs)

theorem popAssert_of_round (hlen : l.length = c.N.toNat) {xs : List T}
    (hxs : xs.length = c.N.toNat) :
    ∃ t, run (step order) m (.call .pop :: xs.map .push) = some t ∧
      step order t .access = none := by
  have hrun : run (step order) m (.call .pop :: xs.map .push) = some _ :=
    run_cons_iff.mpr ⟨_, step_call hidle .pop, run_pushes _ xs⟩
  exact ⟨_, hrun, if_pos (seen_empty_of_round hN h hlen order.popAssert hxs)⟩

theorem full_of_dropped (hlen : l.length = c.N.toNat) (x : T) :
    (run (step order) m [.call .full, .push x, .access]).map Machine.results =
      some (m.results ++ [.full false]) := by
  have hrun : run (step order) m [.call .full, .push x, .access] = some _ :=
    run_cons_iff.mpr ⟨_, step_call hidle .full, rfl⟩
  rw [hrun, Option.map_some]
  exact congrArg (fun value => some (m.results ++ [.full value]))
    (seen_full_of_full hN h hlen order.full x)

theorem front_of_dropped (hlen : l.length = c.N.toNat) (x : T) :
    (run (step order) m [.call .front, .push x, .access]).map Machine.results =
      some (m.results ++ [.front x]) := by
  have hrun : run (step order) m [.call .front, .push x, .access] = some _ :=
    run_cons_iff.mpr ⟨_, step_call hidle .front, rfl⟩
  rw [hrun, Option.map_some]
  exact congrArg (fun elem => some (m.results ++ [.front elem]))
    (mData_front_of_full hN h hlen x)

omit hidle h in
/-- The queue is full when `size()` takes the difference. -/
theorem size_of_full {as : List (Action T)} {t : Machine c T} {l : List T}
    (hrun : run (step order) m as = some t) (hcontrol : t.control = .sizeLoad)
    (hresults : t.results = m.results) (h : Holds t.mRingbuffer l)
    (hlen : l.length = c.N.toNat) :
    (run (step order) m (as ++ [.access, .access])).map Machine.results =
      some (m.results ++ [.size 0]) := by
  obtain ⟨b, control, pushes, results, pushed⟩ := t
  obtain rfl : control = .sizeLoad := hcontrol
  obtain rfl : results = m.results := hresults
  have hall : run (step order) m (as ++ [.access, .access]) = some _ := run_trans hrun rfl
  rw [hall, Option.map_some]
  refine congrArg (fun value => some (m.results ++ [.size value])) ?_
  show difference (seen order.difference (load order.difference b) b) = 0
  rw [seen_load]
  exact difference_of_full hN h hlen

omit hN h in
/-- `size()` up to the difference, when `full()` returns false to it. -/
theorem run_sizeFull (order : Order) (xs : List T)
    (hsees : (seen order.sizeFull (load order.sizeFull m.mRingbuffer)
      (xs.foldl PotRingbuffer.pushBack m.mRingbuffer)).full = false) :
    run (step order) m (.call .size :: (xs.map .push ++ [.access])) =
      some { m with
        mRingbuffer := xs.foldl PotRingbuffer.pushBack m.mRingbuffer
        control := .sizeLoad
        pushes := 0
        pushed := m.pushed ++ xs } := by
  refine run_cons_iff.mpr ⟨_, step_call hidle .size, run_trans (run_pushes _ xs) ?_⟩
  refine run_cons_iff.mpr ⟨_, if_neg (Bool.eq_false_iff.mp hsees), rfl⟩

theorem size_of_dropped (hlen : l.length = c.N.toNat) (x : T) :
    (run (step order) m [.call .size, .push x, .access, .access, .access]).map Machine.results =
      some (m.results ++ [.size 0]) :=
  size_of_full hN (run_sizeFull hidle order [x] (seen_full_of_full hN h hlen order.sizeFull x))
    rfl rfl (h.pushBack hN x) ((length_pushed l x).1 hlen)

omit hidle in
theorem not_full_of_room (hlen : l.length + 1 = c.N.toNat) : m.mRingbuffer.full = false := by
  refine Bool.eq_false_iff.mpr fun hfull => ?_
  have hlen' := (h.full_iff hN).mp hfull
  omega

/-- `full()` returns false to `size()`, and nothing has been pushed meanwhile. -/
theorem run_sizeRoom (order : Order) (hlen : l.length + 1 = c.N.toNat) :
    run (step order) m [.call .size, .access] =
      some { m with control := .sizeLoad, pushes := 0, pushed := m.pushed ++ [] } := by
  refine run_sizeFull hidle order [] ?_
  rw [List.foldl_nil, seen_load]
  exact not_full_of_room hN h hlen

omit hidle in
theorem holds_filled (hlen : l.length + 1 = c.N.toNat) (x : T) :
    ∃ l', Holds (m.mRingbuffer.pushBack x) l' ∧ l'.length = c.N.toNat :=
  ⟨_, h.pushBack hN x, ((length_pushed l x).2 (by omega)).trans hlen⟩

theorem size_of_filled_in_full (hlen : l.length + 1 = c.N.toNat)
    (hfirst : order.sizeFull = .mEnd) (x : T) :
    (run (step order) m [.call .size, .push x, .access, .access, .access]).map Machine.results =
      some (m.results ++ [.size 0]) := by
  obtain ⟨l', hl', hlen'⟩ := holds_filled hN h hlen x
  have hnot : m.mRingbuffer.full = false := not_full_of_room hN h hlen
  refine size_of_full hN (run_sizeFull hidle order [x] ?_) rfl rfl hl' hlen'
  rw [hfirst]
  exact (full_seen_pushBack hnot m.mRingbuffer.mEnd x).trans hnot

theorem size_of_filled (hlen : l.length + 1 = c.N.toNat) (x : T) :
    (run (step order) m [.call .size, .access, .push x, .access, .access]).map Machine.results =
      some (m.results ++ [.size 0]) := by
  obtain ⟨l', hl', hlen'⟩ := holds_filled hN h hlen x
  have hrun : run (step order) m [.call .size, .access, .push x] = some _ :=
    run_trans (run_sizeRoom hN h hidle order hlen) rfl
  exact size_of_full hN hrun rfl rfl hl' hlen'

theorem size_of_filled_in_difference (hlen : l.length + 1 = c.N.toNat)
    (hfirst : order.difference = .mBegin) (x : T) :
    (run (step order) m [.call .size, .access, .access, .push x, .access]).map Machine.results =
      some (m.results ++ [.size 0]) := by
  obtain ⟨l', hl', hlen'⟩ := holds_filled hN h hlen x
  have hnot : m.mRingbuffer.full = false := not_full_of_room hN h hlen
  have hrun : run (step order) m [.call .size, .access, .access, .push x, .access] = some _ :=
    run_trans (run_sizeRoom hN h hidle order hlen) rfl
  rw [hrun, Option.map_some]
  refine congrArg (fun value => some (m.results ++ [.size value])) ?_
  rw [hfirst]
  have hbegin := mBegin_pushBack_of_not_full hnot x
  have hseen : seen .mBegin (load .mBegin m.mRingbuffer) (m.mRingbuffer.pushBack x) =
      m.mRingbuffer.pushBack x := by
    show { m.mRingbuffer.pushBack x with mBegin := m.mRingbuffer.mBegin } = _
    rw [← hbegin]
  exact (congrArg difference hseen).trans (difference_of_full hN hl' hlen')

theorem size_of_dropped_in_difference (hlen : l.length + 1 = c.N.toNat)
    (hfirst : order.difference = .mEnd) (x y : T) :
    (run (step order) m [.call .size, .access, .access, .push x, .push y, .access]).map
      Machine.results = some (m.results ++ [.size (BitVec.ofNat w (c.N.toNat - 2))]) := by
  have hrun : run (step order) m [.call .size, .access, .access, .push x, .push y, .access] =
      some _ := run_trans (run_sizeRoom hN h hidle order hlen) rfl
  rw [hrun, Option.map_some]
  refine congrArg (fun value => some (m.results ++ [.size value])) ?_
  rw [hfirst]
  exact difference_of_dropped hN h hlen x y

theorem pop_of_two_drops (hlen : l.length = c.N.toNat) (x y : T) :
    ∃ t, run (step order) m [.call .pop, .access, .access, .push x, .push y, .access] = some t ∧
      ¬ ∃ held, Holds t.mRingbuffer held := by
  have hnot : m.mRingbuffer.empty = false :=
    Bool.eq_false_iff.mpr fun hempty => Holds.ne_nil_of_full hlen (h.empty_iff.mp hempty)
  have hassert : access order (call order m .pop) = some (goTo (call order m .pop) .popLoad) := by
    refine if_neg (Bool.eq_false_iff.mp ?_)
    rw [call_mRingbuffer, seen_load]
    exact hnot
  have hrun : run (step order) m [.call .pop, .access, .access, .push x, .push y, .access] =
      some _ :=
    run_cons_iff.mpr ⟨_, step_call hidle .pop, run_cons_iff.mpr ⟨_, hassert, rfl⟩⟩
  exact ⟨_, hrun, not_holds_of_two_drops hN h hlen x y⟩

end

/-- **No bound of a calm run can be dropped.** Whatever the order of the loads, from every state
between two functions in which the queue is full: `N` pushes between the two loads of `empty()` make
it return true, and between those of the assertion make that fail; one push between the loads of
`full()` makes it return false, between those of the `full()` of `size()` makes `size()` return
zero, and before `front()` has loaded the element makes that the element just pushed; two while
`pop()` is about to store `mBegin` leave a ring buffer that does not hold any list. From every one
with one slot free: a push that fills the queue makes `size()` return zero, after its `full()`,
between the loads of that if `mEnd` is the first, and between those of the difference if `mBegin` is
the first; if `mEnd` is, that push and another make it return `N - 2`. -/
theorem calm_is_needed (order : Order) (hN : ∃ k, c.N.toNat = 2 ^ k) {m : Machine c T}
    {l : List T} (h : Holds m.mRingbuffer l) (hidle : m.control = .idle) (x y : T) :
    (l.length = c.N.toNat →
      (∀ xs : List T, xs.length = c.N.toNat →
        (run (step order) m (.call .empty :: (xs.map .push ++ [.access]))).map Machine.results =
            some (m.results ++ [.empty true]) ∧
          ∃ t, run (step order) m (.call .pop :: xs.map .push) = some t ∧
            step order t .access = none) ∧
      (run (step order) m [.call .full, .push x, .access]).map Machine.results =
        some (m.results ++ [.full false]) ∧
      (run (step order) m [.call .size, .push x, .access, .access, .access]).map Machine.results =
        some (m.results ++ [.size 0]) ∧
      (run (step order) m [.call .front, .push x, .access]).map Machine.results =
        some (m.results ++ [.front x]) ∧
      ∃ t, run (step order) m [.call .pop, .access, .access, .push x, .push y, .access] = some t ∧
        ¬ ∃ held, Holds t.mRingbuffer held) ∧
    (l.length + 1 = c.N.toNat →
      (run (step order) m [.call .size, .access, .push x, .access, .access]).map Machine.results =
        some (m.results ++ [.size 0]) ∧
      (order.sizeFull = .mEnd →
        (run (step order) m [.call .size, .push x, .access, .access, .access]).map
          Machine.results = some (m.results ++ [.size 0])) ∧
      (order.difference = .mBegin →
        (run (step order) m [.call .size, .access, .access, .push x, .access]).map
          Machine.results = some (m.results ++ [.size 0])) ∧
      (order.difference = .mEnd →
        (run (step order) m [.call .size, .access, .access, .push x, .push y, .access]).map
          Machine.results = some (m.results ++ [.size (BitVec.ofNat w (c.N.toNat - 2))]))) := by
  obtain ⟨k, hN⟩ := hN
  refine ⟨fun hlen => ⟨fun xs hxs => ⟨?_, ?_⟩, ?_, ?_, ?_, ?_⟩, fun hlen => ⟨?_, ?_, ?_, ?_⟩⟩
  · exact empty_of_round hN h hidle hlen hxs
  · exact popAssert_of_round hN h hidle hlen hxs
  · exact full_of_dropped hN h hidle hlen x
  · exact size_of_dropped hN h hidle hlen x
  · exact front_of_dropped hN h hidle hlen x
  · exact pop_of_two_drops hN h hidle hlen x y
  · exact size_of_filled hN h hidle hlen x
  · exact fun hfirst => size_of_filled_in_full hN h hidle hlen hfirst x
  · exact fun hfirst => size_of_filled_in_difference hN h hidle hlen hfirst x
  · exact fun hfirst => size_of_dropped_in_difference hN h hidle hlen hfirst x y

/-- A full queue of four slots, where a `front()` that is interrupted returns the fifth element. -/
theorem calm_is_needed_fourSlots :
    (run (step endFirst) (start fun _ : Fin fourSlots.N.toNat => 0) [.push 1, .push 2, .push 3,
      .push 4, .call .front, .push 5, .access]).map Machine.results = some [.front 5] := by
  have hN : fourSlots.N.toNat = 2 ^ 2 := by decide
  have hempty : Holds (PotRingbuffer.init fun _ : Fin fourSlots.N.toNat => 0) [] := holds_init _
  have hholds : Holds _ [1, 2, 3, 4] :=
    (((hempty.pushBack hN 1).pushBack hN 2).pushBack hN 3).pushBack hN 4
  exact ((calm_is_needed (m := ⟨_, .idle, 4, [], [1, 2, 3, 4]⟩) endFirst ⟨2, hN⟩ hholds rfl 5
    6).1 (by decide)).2.2.2.1

end CxxUtil.Ring.PotQueue
