import CxxUtil.Ring.Capacities

/-! # What an interrupt handler sees of a volatile push

A volatile push is a sequence of single stores: to the index at the other end when the buffer is
full, to the index at its own end, and then to the slot. A handler that runs after `n` of them reads
the buffer that these have made. -/
namespace CxxUtil.Ring
set_option autoImplicit false
open CxxUtil.Foundations

variable {w k : ℕ} {T : Type*} {c : Capacity w}

inductive Store (c : Capacity w) (T : Type*) where
  | mBegin (value : BitVec w)
  | mEnd (value : BitVec w)
  | mData (slot : Fin c.N.toNat) (elem : T)

namespace PotRingbuffer

def write (b : PotRingbuffer c T) : Store c T → PotRingbuffer c T
  | .mBegin value => { b with mBegin := value }
  | .mEnd value => { b with mEnd := value }
  | .mData slot elem => b.store slot elem

/-- The stores of `pushBack`, in program order. -/
def pushBackStores (b : PotRingbuffer c T) (elem : T) : List (Store c T) :=
  (if b.full then [.mBegin (c.incr b.mBegin)] else []) ++
    [.mEnd (c.incr b.mEnd), .mData b.incrEnd.back elem]

/-- The stores of `pushFront`, in program order. -/
def pushFrontStores (b : PotRingbuffer c T) (elem : T) : List (Store c T) :=
  (if b.full then [.mEnd (c.decr b.mEnd)] else []) ++
    [.mBegin (c.decr b.mBegin), .mData b.decrBegin.front elem]

/-- The buffer after the first `n` stores. -/
def after (b : PotRingbuffer c T) (stores : List (Store c T)) (n : ℕ) : PotRingbuffer c T :=
  (stores.take n).foldl write b

theorem after_pushBackStores (b : PotRingbuffer c T) (elem : T) :
    b.after (b.pushBackStores elem) (b.pushBackStores elem).length = b.pushBack elem := by
  unfold after pushBackStores pushBack
  rw [List.take_length]
  split
  case isTrue => rfl
  case isFalse => rfl

theorem after_pushFrontStores (b : PotRingbuffer c T) (elem : T) :
    b.after (b.pushFrontStores elem) (b.pushFrontStores elem).length = b.pushFront elem := by
  unfold after pushFrontStores pushFront
  rw [List.take_length]
  split
  case isTrue => rfl
  case isFalse => rfl

/-- Between the first store and the last there is a point only when the buffer is full. -/
theorem inner_point {α : Type*} {full : Prop} [Decidable full] {first index elem : α} {n : ℕ}
    (hpos : 0 < n) (hn : n + 1 < ((if full then [first] else []) ++ [index, elem]).length) :
    full ∧ n = 1 := by
  split at hn
  case isTrue hfull =>
    simp at hn
    exact ⟨hfull, by omega⟩
  case isFalse =>
    simp at hn
    omega

/-- What a handler sees is a part of `held`, in order, and no slot of it is yet to be stored. -/
structure Published (b : PotRingbuffer c T) (held : List T) (pending : List (Store c T)) :
    Prop where
  elements : b.shown <:+: held
  stored : ∀ slot elem, .mData slot elem ∈ pending →
    ∀ i < b.size.toNat, b.at (BitVec.ofNat w i) ≠ slot

/-- The buffer is published at every point between two of the stores. -/
def PublishesOnlyWritten (b : PotRingbuffer c T) (stores : List (Store c T)) (held : List T) :
    Prop :=
  ∀ n, 0 < n → n < stores.length → Published (b.after stores n) held (stores.drop n)

end PotRingbuffer
open PotRingbuffer

theorem store_self (b : PotRingbuffer c T) (slot : Fin c.N.toNat) :
    b.store slot (b.mData slot) = b := by
  simp [store]

section
variable (hN : c.N.toNat = 2 ^ k) {b : PotRingbuffer c T} {l : List T}
include hN

/-! ## Before the index of the new element is stored -/

theorem Holds.incrEnd (h : Holds b l) (hlt : l.length < c.N.toNat) :
    Holds b.incrEnd (l ++ [b.mData b.incrEnd.back]) := by
  have happend := h.append hN hlt (b.incrEnd.mData b.incrEnd.back)
  rwa [store_self] at happend

theorem Holds.decrBegin (h : Holds b l) (hlt : l.length < c.N.toNat) :
    Holds b.decrBegin (b.mData b.decrBegin.front :: l) := by
  have hprepend := h.prepend hN hlt (b.decrBegin.mData b.decrBegin.front)
  rwa [store_self] at hprepend

theorem Holds.at_ne_back (h : Holds b l) (hlt : l.length < c.N.toNat) {i : ℕ}
    (hi : i < b.size.toNat) : b.at (BitVec.ofNat w i) ≠ b.incrEnd.back := by
  rw [h.size_eq hN] at hi
  rw [at_ofNat hN (by omega), (h.incrEnd hN hlt).back_slot hN (by simp), List.length_append,
    List.length_singleton, Nat.add_sub_cancel]
  exact ofNat_ne hi (by omega)

theorem Holds.at_ne_front (h : Holds b l) (hlt : l.length < c.N.toNat) {i : ℕ}
    (hi : i < b.size.toNat) : b.at (BitVec.ofNat w i) ≠ b.decrBegin.front := by
  have hbegin : b.decrBegin.mBegin.toNat + 1 ≡ b.mBegin.toNat [MOD c.N.toNat] :=
    (toNat_decr hN b.mBegin).of_mul_left 2
  have hat : b.mBegin.toNat + i ≡ b.decrBegin.mBegin.toNat + (1 + i) [MOD c.N.toNat] := by
    rw [← Nat.add_assoc]
    exact Nat.ModEq.add_right i hbegin.symm
  have hfront : b.decrBegin.front = Fin.ofNat c.N.toNat (b.decrBegin.mBegin.toNat + 0) :=
    at_ofNat hN c.toNat_pos
  rw [h.size_eq hN] at hi
  rw [at_ofNat hN (by omega), ofNat_eq_of_modEq hat, hfront]
  exact (ofNat_ne (by omega) (by omega)).symm

theorem Holds.published (h : Holds b l) {held : List T} (hheld : l <:+: held)
    {pending : List (Store c T)} {slot : Fin c.N.toNat}
    (hpending : ∀ slot' x, .mData slot' x ∈ pending → slot' = slot)
    (hslot : ∀ i < b.size.toNat, b.at (BitVec.ofNat w i) ≠ slot) : Published b held pending where
  elements := by
    rw [h.shown hN]
    exact hheld
  stored := by
    intro slot' x hmem i hi
    rw [hpending slot' x hmem]
    exact hslot i hi

/-! ## The window between the index and the element -/

omit hN in
theorem PotRingbuffer.PublishesOnlyWritten.last {stores : List (Store c T)} {held : List T}
    (h : PublishesOnlyWritten b stores held) (hlen : 2 ≤ stores.length) {slot : Fin c.N.toNat}
    {x : T} (hdrop : stores.drop (stores.length - 1) = [.mData slot x]) {i : ℕ}
    (hi : i < (b.after stores (stores.length - 1)).size.toNat) :
    (b.after stores (stores.length - 1)).at (BitVec.ofNat w i) ≠ slot := by
  have hlast := h (stores.length - 1) (by omega) (by omega)
  rw [hdrop] at hlast
  exact hlast.stored slot x List.mem_cons_self i hi

theorem Holds.back_shown (h : Holds b l) (hne : l ≠ []) :
    ∃ i < b.size.toNat, b.at (BitVec.ofNat w i) = b.back := by
  have hpos := List.length_pos_iff.mpr hne
  have hle := h.length_le
  have hsize := h.size_eq hN
  refine ⟨l.length - 1, by omega, ?_⟩
  rw [at_ofNat hN (by omega), h.back_slot hN hne]

theorem Holds.front_shown (h : Holds b l) (hne : l ≠ []) :
    ∃ i < b.size.toNat, b.at (BitVec.ofNat w i) = b.front := by
  have hpos := List.length_pos_iff.mpr hne
  have hsize := h.size_eq hN
  exact ⟨0, by omega, rfl⟩

/-! ## Each push -/

/-- In the window of `pushBack` the last position shows what its slot held before the push. -/
theorem Holds.pushBack_window (h : Holds b l) (x : T) :
    Holds (b.after (b.pushBackStores x) ((b.pushBackStores x).length - 1))
      ((if b.full then l.tail else l) ++ [b.mData b.incrEnd.back]) := by
  have hfull := h.full_iff hN
  unfold pushBackStores after
  by_cases hlen : b.full = true
  · have hne : l ≠ [] := ne_nil_of_full (hfull.mp hlen)
    rw [if_pos hlen, if_pos hlen]
    exact (h.incrBegin hN hne).incrEnd hN (length_tail_lt (hfull.mp hlen))
  · have hlt := Nat.lt_of_le_of_ne h.length_le fun heq => hlen (hfull.mpr heq)
    rw [if_neg hlen, if_neg hlen]
    exact h.incrEnd hN hlt

theorem Holds.pushFront_window (h : Holds b l) (x : T) :
    Holds (b.after (b.pushFrontStores x) ((b.pushFrontStores x).length - 1))
      (b.mData b.decrBegin.front :: if b.full then l.dropLast else l) := by
  have hfull := h.full_iff hN
  unfold pushFrontStores after
  by_cases hlen : b.full = true
  · have hne : l ≠ [] := ne_nil_of_full (hfull.mp hlen)
    rw [if_pos hlen, if_pos hlen]
    exact (h.decrEnd hN hne).decrBegin hN (length_dropLast_lt (hfull.mp hlen))
  · have hlt := Nat.lt_of_le_of_ne h.length_le fun heq => hlen (hfull.mpr heq)
    rw [if_neg hlen, if_neg hlen]
    exact h.decrBegin hN hlt

theorem Holds.pushBack_not_published (h : Holds b l) (x : T) :
    ¬ PublishesOnlyWritten b (b.pushBackStores x) (l ++ [x]) := by
  intro hpub
  have hwindow := h.pushBack_window hN x
  have hlen : 2 ≤ (b.pushBackStores x).length := by simp [pushBackStores]
  have hdrop : (b.pushBackStores x).drop ((b.pushBackStores x).length - 1) =
      [.mData (b.after (b.pushBackStores x) ((b.pushBackStores x).length - 1)).back x] := by
    unfold pushBackStores after
    split
    case isTrue => rfl
    case isFalse => rfl
  obtain ⟨i, hi, hat⟩ := hwindow.back_shown hN (by simp)
  exact hpub.last hlen hdrop hi hat

theorem Holds.pushFront_not_published (h : Holds b l) (x : T) :
    ¬ PublishesOnlyWritten b (b.pushFrontStores x) (x :: l) := by
  intro hpub
  have hwindow := h.pushFront_window hN x
  have hlen : 2 ≤ (b.pushFrontStores x).length := by simp [pushFrontStores]
  have hdrop : (b.pushFrontStores x).drop ((b.pushFrontStores x).length - 1) =
      [.mData (b.after (b.pushFrontStores x) ((b.pushFrontStores x).length - 1)).front x] := by
    unfold pushFrontStores after
    split
    case isTrue => rfl
    case isFalse => rfl
  obtain ⟨i, hi, hat⟩ := hwindow.front_shown hN (by simp)
  exact hpub.last hlen hdrop hi hat

theorem Holds.pushBack_published (h : Holds b l) (x : T) {n : ℕ} (hpos : 0 < n)
    (hn : n + 1 < (b.pushBackStores x).length) :
    Published (b.after (b.pushBackStores x) n) (l ++ [x]) ((b.pushBackStores x).drop n) := by
  unfold pushBackStores after at *
  obtain ⟨hfull, rfl⟩ := inner_point hpos hn
  have hlen := (h.full_iff hN).mp hfull
  have hne : l ≠ [] := ne_nil_of_full hlen
  rw [if_pos hfull]
  have htail := h.incrBegin hN hne
  have hpending (slot : Fin c.N.toNat) (y : T)
      (hmem : .mData slot y ∈ [Store.mEnd (c.incr b.mEnd), .mData b.incrEnd.back x]) :
      slot = b.incrEnd.back := by
    simp at hmem
    exact hmem.1
  refine htail.published hN ?_ hpending
    fun i hi => htail.at_ne_back hN (length_tail_lt hlen) hi
  exact (List.tail_suffix l).isInfix.trans (List.prefix_append l [x]).isInfix

theorem Holds.pushFront_published (h : Holds b l) (x : T) {n : ℕ} (hpos : 0 < n)
    (hn : n + 1 < (b.pushFrontStores x).length) :
    Published (b.after (b.pushFrontStores x) n) (x :: l) ((b.pushFrontStores x).drop n) := by
  unfold pushFrontStores after at *
  obtain ⟨hfull, rfl⟩ := inner_point hpos hn
  have hlen := (h.full_iff hN).mp hfull
  have hne : l ≠ [] := ne_nil_of_full hlen
  rw [if_pos hfull]
  have hinit := h.decrEnd hN hne
  have hpending (slot : Fin c.N.toNat) (y : T)
      (hmem : .mData slot y ∈ [Store.mBegin (c.decr b.mBegin), .mData b.decrBegin.front x]) :
      slot = b.decrBegin.front := by
    simp at hmem
    exact hmem.1
  refine hinit.published hN ?_ hpending
    fun i hi => hinit.at_ne_front hN (length_dropLast_lt hlen) hi
  exact (List.dropLast_prefix l).isInfix.trans (List.suffix_cons x l).isInfix

end

/-- **A push publishes its slot before it writes it.** Whatever the state and the element, the last
point between two stores of a push counts the slot of the new element, which is still to be stored.
It is the only such point: those before it are published. -/
theorem volatile_push_window (hN : ∃ k, c.N.toNat = 2 ^ k) (mData : Fin c.N.toNat → T)
    (ops : List (DequeOp T)) {b : PotRingbuffer c T}
    (hb : run step (init mData) ops = some b) (x : T) :
    ∃ l, run (boundedDeque c.N.toNat) [] ops = some l ∧
      ¬ PublishesOnlyWritten b (b.pushBackStores x) (l ++ [x]) ∧
      ¬ PublishesOnlyWritten b (b.pushFrontStores x) (x :: l) ∧
      (∀ n, 0 < n → n + 1 < (b.pushBackStores x).length →
        Published (b.after (b.pushBackStores x) n) (l ++ [x]) ((b.pushBackStores x).drop n)) ∧
      ∀ n, 0 < n → n + 1 < (b.pushFrontStores x).length →
        Published (b.after (b.pushFrontStores x) n) (x :: l) ((b.pushFrontStores x).drop n) := by
  obtain ⟨k, hN⟩ := hN
  have hrun := holds_run hN mData ops
  rw [hb] at hrun
  generalize run (boundedDeque _) [] ops = l at hrun
  cases hrun with
  | some h =>
    refine ⟨_, rfl, h.pushBack_not_published hN x, h.pushFront_not_published hN x, ?_, ?_⟩
    · intro n hpos hn
      exact h.pushBack_published hN x hpos hn
    · intro n hpos hn
      exact h.pushFront_published hN x hpos hn

/-- With a full buffer of four slots, where a push has a published point before its window. -/
theorem volatile_push_window_fourSlots :
    ∃ b l, run step (init fun _ : Fin fourSlots.N.toNat => 0)
        [.pushBack 1, .pushBack 2, .pushBack 3, .pushBack 4] = some b ∧
      ¬ PublishesOnlyWritten b (b.pushBackStores 5) (l ++ [5]) ∧
      ¬ PublishesOnlyWritten b (b.pushFrontStores 5) (5 :: l) := by
  have hrun : run step (init fun _ : Fin fourSlots.N.toNat => 0)
      [.pushBack 1, .pushBack 2, .pushBack 3, .pushBack 4] = some _ := rfl
  obtain ⟨l, -, hback, hfront, -⟩ :=
    volatile_push_window (c := fourSlots) ⟨2, by decide⟩ (fun _ => 0) _ hrun 5
  exact ⟨_, l, hrun, hback, hfront⟩

/-- A handler between the stores of the first push finds an element that nobody pushed. -/
theorem volatile_push_unwritten :
    ∃ b, run step (init fun _ : Fin fourSlots.N.toNat => 0) [] = some b ∧
      (b.after (b.pushBackStores 7) 1).shown = [0] ∧
      ¬ PublishesOnlyWritten b (b.pushBackStores 7) ([] ++ [7]) := by
  refine ⟨_, rfl, by decide, ?_⟩
  intro hpub
  have hshown := (hpub 1 (by decide) (by decide)).elements
  have hmem : 0 ∈ [7] := hshown.subset (by decide)
  exact absurd hmem (by decide)

end CxxUtil.Ring
