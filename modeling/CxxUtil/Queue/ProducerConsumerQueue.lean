import Mathlib.Data.List.Basic
import Mathlib.Data.Int.Init
import Mathlib.Algebra.Group.Nat.Defs
import Mathlib.Algebra.Group.Int.Defs

/-! # `ProducerConsumerQueue`

The two `std::queue`s of `include/util/producerconsumerqueue.hpp`, front first. `popPair` is the
loop of `post()` up to the point where it calls into user code; what the handler does there is left
to `CxxUtil.Queue.Reentrancy`. `post`, `consume` and `produce` run the loop to its end for handlers
that never touch the queue they are called from. -/
namespace CxxUtil.Queue
set_option autoImplicit false

structure ProducerConsumerQueue (H D : Type*) where
  mHandlers : List H
  mData : List D
  deriving DecidableEq, Repr

namespace ProducerConsumerQueue
variable {H D σ : Type*}

def empty : ProducerConsumerQueue H D := ⟨[], []⟩

def emplaceHandler (q : ProducerConsumerQueue H D) (h : H) : ProducerConsumerQueue H D :=
  { q with mHandlers := q.mHandlers ++ [h] }

def emplaceData (q : ProducerConsumerQueue H D) (d : D) : ProducerConsumerQueue H D :=
  { q with mData := q.mData ++ [d] }

/-- The loop test of `post()` and, when it holds, the two `front`s and the two `pop`s. -/
def popPair (q : ProducerConsumerQueue H D) : Option ((H × D) × ProducerConsumerQueue H D) :=
  match q.mHandlers, q.mData with
  | h :: hs, d :: ds => some ((h, d), ⟨hs, ds⟩)
  | _, _ => none

/-- `mData.size() - mHandlers.size()`: a subtraction of `size_t`, narrowed to `int`. -/
def depth (q : ProducerConsumerQueue H D) : ℤ :=
  ((BitVec.ofNat 64 q.mData.length - BitVec.ofNat 64 q.mHandlers.length).setWidth 32).toInt

def OneSided (q : ProducerConsumerQueue H D) : Prop := q.mHandlers = [] ∨ q.mData = []

/-! ## The loop test -/

theorem popPair_eq_some {q q' : ProducerConsumerQueue H D} {p : H × D} :
    q.popPair = some (p, q') ↔
      q.mHandlers = p.1 :: q'.mHandlers ∧ q.mData = p.2 :: q'.mData := by
  obtain ⟨hs, ds⟩ := q
  obtain ⟨hs', ds'⟩ := q'
  obtain ⟨h, d⟩ := p
  cases hs <;> cases ds <;> simp [popPair, and_assoc, and_left_comm]

theorem popPair_eq_none {q : ProducerConsumerQueue H D} : q.popPair = none ↔ q.OneSided := by
  obtain ⟨hs, ds⟩ := q
  cases hs <;> cases ds <;> simp [popPair, OneSided]

/-! ## What `depth` returns -/

theorem depth_eq_bmod (q : ProducerConsumerQueue H D) :
    q.depth = Int.bmod ((q.mData.length : ℤ) - q.mHandlers.length) (2 ^ 32) := by
  unfold depth
  rw [BitVec.toInt_setWidth, BitVec.toNat_sub, BitVec.toNat_ofNat, BitVec.toNat_ofNat]
  generalize q.mData.length = a
  generalize q.mHandlers.length = b
  simp only [Int.bmod_def]
  omega

/-- `depth` is exact as long as the difference of the two sizes fits in `int`. -/
theorem depth_eq_sub {q : ProducerConsumerQueue H D}
    (hlo : -2 ^ 31 ≤ (q.mData.length : ℤ) - q.mHandlers.length)
    (hhi : (q.mData.length : ℤ) - q.mHandlers.length < 2 ^ 31) :
    q.depth = (q.mData.length : ℤ) - q.mHandlers.length := by
  rw [depth_eq_bmod]
  exact Int.bmod_eq_of_le (by omega) (by omega)

/-! ## Handlers that leave the queue alone -/

/-- `post()` on handlers and data, `call` being what a handler does to the rest of the program. -/
def post (call : H → D → σ → σ) : List H → List D → σ → ProducerConsumerQueue H D × σ
  | h :: hs, d :: ds, s => post call hs ds (call h d s)
  | hs, ds, s => (⟨hs, ds⟩, s)

def consume (call : H → D → σ → σ) (q : ProducerConsumerQueue H D) (h : H) (s : σ) :
    ProducerConsumerQueue H D × σ :=
  post call (q.emplaceHandler h).mHandlers (q.emplaceHandler h).mData s

def produce (call : H → D → σ → σ) (q : ProducerConsumerQueue H D) (d : D) (s : σ) :
    ProducerConsumerQueue H D × σ :=
  post call (q.emplaceData d).mHandlers (q.emplaceData d).mData s

@[simp] theorem post_nil_left (call : H → D → σ → σ) (ds : List D) (s : σ) :
    post call [] ds s = (⟨[], ds⟩, s) := by
  unfold post; rfl

@[simp] theorem post_nil_right (call : H → D → σ → σ) (hs : List H) (s : σ) :
    post call hs [] s = (⟨hs, []⟩, s) := by
  cases hs <;> rfl

/-- A handler that finds no datum waits behind the others. -/
theorem consume_waits (call : H → D → σ → σ) (hs : List H) (h : H) (s : σ) :
    consume call ⟨hs, []⟩ h s = (⟨hs ++ [h], []⟩, s) := by
  simp [consume, emplaceHandler]

/-- A handler that finds data takes the oldest. -/
theorem consume_takes (call : H → D → σ → σ) (d : D) (ds : List D) (h : H) (s : σ) :
    consume call ⟨[], d :: ds⟩ h s = (⟨[], ds⟩, call h d s) := by
  simp [consume, emplaceHandler, post]

theorem produce_waits (call : H → D → σ → σ) (ds : List D) (d : D) (s : σ) :
    produce call ⟨[], ds⟩ d s = (⟨[], ds ++ [d]⟩, s) := by
  simp [produce, emplaceData]

theorem produce_takes (call : H → D → σ → σ) (h : H) (hs : List H) (d : D) (s : σ) :
    produce call ⟨h :: hs, []⟩ d s = (⟨hs, []⟩, call h d s) := by
  simp [produce, emplaceData, post]

theorem post_size (call : H → D → σ → σ) (hs : List H) (ds : List D) (s : σ) :
    ((post call hs ds s).1.mData.length : ℤ) - (post call hs ds s).1.mHandlers.length =
      ds.length - hs.length := by
  induction hs generalizing ds s with
  | nil => simp
  | cons h hs ih =>
    cases ds with
    | nil => simp
    | cons d ds =>
      rw [post, ih, List.length_cons, List.length_cons]
      omega

theorem depth_consume (call : H → D → σ → σ) {q : ProducerConsumerQueue H D} (h : H) (s : σ)
    (hpos : 0 < q.depth) : (consume call q h s).1.depth = q.depth - 1 := by
  have hsize := post_size call (q.emplaceHandler h).mHandlers (q.emplaceHandler h).mData s
  rw [depth_eq_bmod] at hpos ⊢
  rw [depth_eq_bmod, consume, hsize]
  simp only [emplaceHandler, List.length_append, List.length_singleton, Int.bmod_def] at hpos ⊢
  omega

theorem depth_produce (call : H → D → σ → σ) {q : ProducerConsumerQueue H D} (d : D) (s : σ)
    (hneg : q.depth < 0) : (produce call q d s).1.depth = q.depth + 1 := by
  have hsize := post_size call (q.emplaceData d).mHandlers (q.emplaceData d).mData s
  rw [depth_eq_bmod] at hneg ⊢
  rw [depth_eq_bmod, produce, hsize]
  simp only [emplaceData, List.length_append, List.length_singleton, Int.bmod_def] at hneg ⊢
  omega

end ProducerConsumerQueue
end CxxUtil.Queue
