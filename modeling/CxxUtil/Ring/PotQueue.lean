import CxxUtil.Ring.RingRefinement

/-! # `util::PotQueue` and interrupts

A volatile `PotQueue` that the main program empties while interrupt handlers push to it. A push runs
to its end; the other functions are sequences of single loads and stores, and a handler may run
before each of these. Where a function loads both `mBegin` and `mEnd`, C++ leaves open which comes
first: an `Order` says it for each of them. `Calm` bounds the pushes between two accesses. Under it,
each function takes effect at one of its accesses. -/
namespace CxxUtil.Ring.PotQueue
open Foundations PotRingbuffer
set_option autoImplicit false

variable {w k : ℕ} {T : Type*} {c : Capacity w}

/-- What the main program calls. `front` includes the load of the element. -/
inductive Op
  | empty
  | full
  | size
  | front
  | pop
  deriving DecidableEq, Repr

inductive Result (w : ℕ) (T : Type*)
  | empty (value : Bool)
  | full (value : Bool)
  | size (value : BitVec w)
  | front (elem : T)
  | pop
  deriving DecidableEq, Repr

inductive Operand
  | mBegin
  | mEnd
  deriving DecidableEq, Repr

/-- The operand that is loaded first: in `empty()`, in `full()`, in the call of `full()` in
`size()`, in the difference in `size()`, and in `assert(!empty())` in `popFront()`. -/
structure Order where
  empty : Operand
  full : Operand
  sizeFull : Operand
  difference : Operand
  popAssert : Operand

/-- Where the main program is, with what it has loaded. -/
inductive Control (c : Capacity w)
  | idle
  | empty (loaded : BitVec w)
  | full (loaded : BitVec w)
  | sizeFull (loaded : BitVec w)
  /-- `full()` has returned false to `size()`. -/
  | sizeLoad
  | sizeDifference (loaded : BitVec w)
  | front (slot : Fin c.N.toNat)
  | popAssert (loaded : BitVec w)
  | popLoad
  | popStore (mBegin : BitVec w)

/-- `pushes` counts them since the main program's last access. -/
structure Machine (c : Capacity w) (T : Type*) where
  mRingbuffer : PotRingbuffer c T
  control : Control c
  pushes : ℕ
  results : List (Result w T)
  pushed : List T

inductive Action (T : Type*)
  | call (op : Op)
  /-- The next load or store of the function that has been called. -/
  | access
  /-- An interrupt handler calls `push`. -/
  | push (elem : T)

def load (first : Operand) (b : PotRingbuffer c T) : BitVec w :=
  match first with
  | .mBegin => b.mBegin
  | .mEnd => b.mEnd

/-- The ring buffer as it is seen by a function that loaded one operand earlier and loads the other
now. -/
def seen (first : Operand) (loaded : BitVec w) (b : PotRingbuffer c T) : PotRingbuffer c T :=
  match first with
  | .mBegin => { b with mBegin := loaded }
  | .mEnd => { b with mEnd := loaded }

def difference (b : PotRingbuffer c T) : BitVec w := (b.mEnd - b.mBegin) &&& (c.N - 1)

section
variable (order : Order)

/-- With the first load of the function. -/
def call (m : Machine c T) (op : Op) : Machine c T :=
  { m with
    pushes := 0
    control := match op with
      | .empty => .empty (load order.empty m.mRingbuffer)
      | .full => .full (load order.full m.mRingbuffer)
      | .size => .sizeFull (load order.sizeFull m.mRingbuffer)
      | .front => .front m.mRingbuffer.front
      | .pop => .popAssert (load order.popAssert m.mRingbuffer) }

def goTo (m : Machine c T) (control : Control c) : Machine c T := { m with pushes := 0, control }

def ret (m : Machine c T) (r : Result w T) : Machine c T :=
  { m with pushes := 0, control := .idle, results := m.results ++ [r] }

/-- `none` where `assert(!empty())` fails. -/
def access (m : Machine c T) : Option (Machine c T) :=
  match m.control with
  | .idle => none
  | .empty loaded => some (ret m (.empty (seen order.empty loaded m.mRingbuffer).empty))
  | .full loaded => some (ret m (.full (seen order.full loaded m.mRingbuffer).full))
  | .sizeFull loaded =>
    if (seen order.sizeFull loaded m.mRingbuffer).full then some (ret m (.size c.N))
    else some (goTo m .sizeLoad)
  | .sizeLoad => some (goTo m (.sizeDifference (load order.difference m.mRingbuffer)))
  | .sizeDifference loaded =>
    some (ret m (.size (difference (seen order.difference loaded m.mRingbuffer))))
  | .front slot => some (ret m (.front (m.mRingbuffer.mData slot)))
  | .popAssert loaded =>
    if (seen order.popAssert loaded m.mRingbuffer).empty then none else some (goTo m .popLoad)
  | .popLoad => some (goTo m (.popStore m.mRingbuffer.mBegin))
  | .popStore mBegin =>
    some (ret { m with mRingbuffer := { m.mRingbuffer with mBegin := c.incr mBegin } } .pop)

def step (m : Machine c T) : Action T → Option (Machine c T)
  | .call op =>
    match m.control with
    | .idle => some (call order m op)
    | _ => none
  | .access => access order m
  | .push elem =>
    some { m with
      mRingbuffer := m.mRingbuffer.pushBack elem
      pushes := m.pushes + 1
      pushed := m.pushed ++ [elem] }

end

def start (mData : Fin c.N.toNat → T) : Machine c T := ⟨PotRingbuffer.init mData, .idle, 0, [], []⟩

/-! ## A queue whose functions are atomic -/

structure Atomic (w : ℕ) (T : Type*) where
  held : List T
  results : List (Result w T)
  pushed : List T

inductive AtomicAction (T : Type*)
  | op (op : Op)
  | push (elem : T)

def perform (N : ℕ) (l : List T) : Op → Option (List T × Result w T)
  | .empty => some (l, .empty l.isEmpty)
  | .full => some (l, .full (l.length == N))
  | .size => some (l, .size (BitVec.ofNat w l.length))
  | .front => l.head?.map fun elem => (l, .front elem)
  | .pop => (boundedDeque N l .popFront).map fun l => (l, .pop)

def atomicStep (N : ℕ) (a : Atomic w T) : AtomicAction T → Option (Atomic w T)
  | .op op =>
    (perform N a.held op).map fun (held, r) => { a with held, results := a.results ++ [r] }
  | .push elem => (boundedDeque N a.held (.pushBack elem)).map fun held =>
      { a with held, pushed := a.pushed ++ [elem] }

/-- Between the loads of `empty()` and of the assertion there may be fewer than `N` pushes. Between
those of `full()`, and before `front()` has loaded the element, none may find the queue full. In
`size()` none may find it full either, nor leave it full while that would be taken for an empty one.
While `pop()` is about to store `mBegin`, at most one may find it full. And `front()` is only called
when there is an element. -/
def Calm (order : Order) (m : Machine c T) : Action T → Prop
  | .call .front => m.mRingbuffer.empty = false
  | .call _ => True
  | .access => True
  | .push elem =>
    match m.control with
    | .idle | .popLoad => True
    | .empty _ | .popAssert _ => m.pushes + 1 < c.N.toNat
    | .full _ | .front _ => m.mRingbuffer.full = false
    | .sizeFull _ =>
      match order.sizeFull with
      | .mBegin => m.mRingbuffer.full = false
      | .mEnd => (m.mRingbuffer.pushBack elem).full = false
    | .sizeLoad => (m.mRingbuffer.pushBack elem).full = false
    | .sizeDifference _ =>
      match order.difference with
      | .mBegin => (m.mRingbuffer.pushBack elem).full = false
      | .mEnd => m.mRingbuffer.full = false
    | .popStore mBegin => m.mRingbuffer.full = true → m.mRingbuffer.mBegin = mBegin

/-! ## One push -/

section
variable {b : PotRingbuffer c T} {l : List T}

@[simp] theorem call_mRingbuffer (order : Order) (m : Machine c T) (op : Op) :
    (call order m op).mRingbuffer = m.mRingbuffer := rfl

@[simp] theorem call_results (order : Order) (m : Machine c T) (op : Op) :
    (call order m op).results = m.results := rfl

@[simp] theorem seen_load (first : Operand) (b : PotRingbuffer c T) :
    seen first (load first b) b = b := by
  cases first <;> rfl

theorem mBegin_pushBack_of_not_full (hfull : b.full = false) (elem : T) :
    (b.pushBack elem).mBegin = b.mBegin := by
  rw [PotRingbuffer.pushBack, hfull]
  rfl

theorem front_pushBack_of_not_full (hfull : b.full = false) (elem : T) :
    (b.pushBack elem).front = b.front := by
  rw [PotRingbuffer.front, PotRingbuffer.at, mBegin_pushBack_of_not_full hfull]
  rfl

theorem mBegin_pushBack_of_full (hfull : b.full = true) (elem : T) :
    (b.pushBack elem).mBegin = c.incr b.mBegin := by
  rw [PotRingbuffer.pushBack, hfull]
  rfl

theorem mEnd_pushBack (b : PotRingbuffer c T) (elem : T) :
    (b.pushBack elem).mEnd = c.incr b.mEnd := by
  unfold PotRingbuffer.pushBack
  dsimp only
  split
  case isTrue => rfl
  case isFalse => rfl

/-- What a function sees that loaded `mEnd` first is not changed by a push that finds room. -/
theorem full_seen_pushBack (hfull : b.full = false) (loaded : BitVec w) (elem : T) :
    (seen .mEnd loaded (b.pushBack elem)).full = (seen .mEnd loaded b).full := by
  show ((b.pushBack elem).mBegin ^^^ c.N == loaded) = (b.mBegin ^^^ c.N == loaded)
  rw [mBegin_pushBack_of_not_full hfull]

theorem difference_seen_pushBack (hfull : b.full = false) (loaded : BitVec w) (elem : T) :
    difference (seen .mEnd loaded (b.pushBack elem)) = difference (seen .mEnd loaded b) := by
  show (loaded - (b.pushBack elem).mBegin) &&& (c.N - 1) = (loaded - b.mBegin) &&& (c.N - 1)
  rw [mBegin_pushBack_of_not_full hfull]

variable (hN : c.N.toNat = 2 ^ k)
include hN

theorem incr_ne (x : BitVec w) : c.incr x ≠ x := by
  intro heq
  have hpos := c.toNat_pos
  have hincr := toNat_incr hN x
  rw [heq] at hincr
  have hmod : 0 ≡ 1 [MOD 2 * c.N.toNat] := Nat.ModEq.add_left_cancel' x.toNat hincr
  exact absurd (hmod.eq_of_lt_of_lt (by omega) (by omega)) (by decide)

omit hN in
theorem length_pushed (l : List T) (elem : T) :
    (l.length = c.N.toNat →
      ((if l.length = c.N.toNat then l.tail else l) ++ [elem]).length = c.N.toNat) ∧
    (l.length ≠ c.N.toNat →
      ((if l.length = c.N.toNat then l.tail else l) ++ [elem]).length = l.length + 1) := by
  have hpos := c.toNat_pos
  refine ⟨fun hlen => ?_, fun hlen => ?_⟩
  · rw [if_pos hlen, List.length_append, List.length_tail, List.length_singleton, hlen]
    omega
  · rw [if_neg hlen, List.length_append, List.length_singleton]

/-- A push onto a full buffer leaves it full. -/
theorem full_pushBack (h : Holds b l) (hfull : b.full = true) (elem : T) :
    (b.pushBack elem).full = true := by
  have hlen := (h.full_iff hN).mp hfull
  exact ((h.pushBack hN elem).full_iff hN).mpr ((length_pushed l elem).1 hlen)

theorem not_full_of_pushBack (h : Holds b l) {elem : T}
    (hnot : (b.pushBack elem).full = false) : b.full = false := by
  refine Bool.eq_false_iff.mpr fun hfull => ?_
  rw [full_pushBack hN h hfull] at hnot
  cases hnot

end

/-! ## The loads of `empty()` -/

/-- How far `mEnd` is from the `mBegin` that was loaded, or how far the `mEnd` that was loaded is
from `mBegin`, after `pushes` pushes. The distance stays short of a whole round. -/
def Apart (b : PotRingbuffer c T) (l : List T) (pushes : ℕ) (loaded : BitVec w) : Operand → Prop
  | .mBegin => ∃ n ≤ c.N.toNat + pushes,
      b.mEnd.toNat ≡ loaded.toNat + n [MOD 2 * c.N.toNat] ∧ (n = 0 ↔ l = [])
  | .mEnd => ∃ n ≤ l.length,
      loaded.toNat ≡ b.mBegin.toNat + n [MOD 2 * c.N.toNat] ∧ l.length ≤ n + pushes

structure Window (first : Operand) (b : PotRingbuffer c T) (l : List T) (pushes : ℕ)
    (loaded : BitVec w) : Prop where
  loaded_lt : loaded.toNat < 2 * c.N.toNat
  pushes_lt : pushes < c.N.toNat
  apart : Apart b l pushes loaded first

section
variable {b : PotRingbuffer c T} {l : List T} {pushes : ℕ} {loaded : BitVec w} {first : Operand}

theorem Window.load (first : Operand) (h : Holds b l) : Window first b l 0 (load first b) := by
  cases first with
  | mBegin =>
    refine ⟨h.begin_lt, c.toNat_pos, l.length, h.length_le, h.end_modEq, ?_⟩
    exact List.length_eq_zero_iff
  | mEnd => exact ⟨h.end_lt, c.toNat_pos, l.length, Nat.le_refl _, h.end_modEq, Nat.le_refl _⟩

theorem eq_iff_of_modEq {x y : BitVec w} {n : ℕ} (hx : x.toNat < 2 * c.N.toNat)
    (hy : y.toNat < 2 * c.N.toNat) (h : y.toNat ≡ x.toNat + n [MOD 2 * c.N.toNat])
    (hn : n < 2 * c.N.toNat) : (x == y) = true ↔ n = 0 := by
  rw [beq_iff_eq]
  constructor
  · rintro rfl
    have hzero : x.toNat + 0 ≡ x.toNat + n [MOD 2 * c.N.toNat] := h
    have hpos := c.toNat_pos
    exact ((Nat.ModEq.add_left_cancel' _ hzero).eq_of_lt_of_lt (by omega) hn).symm
  · rintro rfl
    exact BitVec.eq_of_toNat_eq (h.eq_of_lt_of_lt hy hx).symm

/-- When `mEnd` is loaded now, the outcome is what it should be. -/
theorem Window.empty_begin (h : Window .mBegin b l pushes loaded) (held : Holds b l) :
    (seen .mBegin loaded b).empty = true ↔ l = [] := by
  obtain ⟨hloaded, hpushes, n, hn, hend, hzero⟩ := h
  exact (eq_iff_of_modEq hloaded held.end_lt hend (by omega)).trans hzero

/-- An `mEnd` that was loaded first is not found equal unless the queue was empty then. -/
theorem Window.ne_nil (h : Window first b l pushes loaded) (held : Holds b l)
    (hnot : (seen first loaded b).empty = false) : l ≠ [] := by
  rintro rfl
  cases first with
  | mBegin => exact Bool.eq_false_iff.mp hnot ((h.empty_begin held).mpr rfl)
  | mEnd =>
    obtain ⟨hloaded, hpushes, n, hn, hend, hle⟩ := h
    obtain rfl : n = 0 := Nat.le_zero.mp hn
    have hpos := c.toNat_pos
    exact Bool.eq_false_iff.mp hnot
      ((eq_iff_of_modEq held.begin_lt hloaded hend (by omega)).mpr rfl)

variable (hN : c.N.toNat = 2 ^ k)
include hN

theorem Window.push (h : Window first b l pushes loaded) (held : Holds b l)
    (hpushes : pushes + 1 < c.N.toNat) (elem : T) :
    Window first (b.pushBack elem) ((if l.length = c.N.toNat then l.tail else l) ++ [elem])
      (pushes + 1) loaded ∧
    (first = .mEnd →
      (seen first loaded (b.pushBack elem)).empty = (seen first loaded b).empty) := by
  have hlength := length_pushed (c := c) l elem
  have hheld := held.pushBack hN elem
  have hle := held.length_le
  obtain ⟨hloaded, -, hapart⟩ := h
  cases first with
  | mBegin =>
    obtain ⟨n, hn, hend, hzero⟩ := hapart
    refine ⟨⟨hloaded, hpushes, n + 1, by omega, ?_, by simp⟩, nofun⟩
    rw [mEnd_pushBack]
    exact (toNat_incr hN b.mEnd).trans (hend.add_right 1)
  | mEnd =>
    obtain ⟨n, hn, hend, hle'⟩ := hapart
    by_cases hfull : l.length = c.N.toNat
    · -- the push takes `mBegin` one position nearer, not all the way
      have hlength := hlength.1 hfull
      have hbegin := mBegin_pushBack_of_full ((held.full_iff hN).mpr hfull) elem
      have hnearer : loaded.toNat ≡
          (b.pushBack elem).mBegin.toNat + (n - 1) [MOD 2 * c.N.toNat] := by
        rw [hbegin]
        refine hend.trans ?_
        have hn' : b.mBegin.toNat + n = b.mBegin.toNat + 1 + (n - 1) := by omega
        rw [hn']
        exact ((toNat_incr hN b.mBegin).add_right (n - 1)).symm
      refine ⟨⟨hloaded, hpushes, n - 1, by omega, hnearer, by omega⟩, fun _ => ?_⟩
      rw [Bool.eq_iff_iff]
      refine (eq_iff_of_modEq hheld.begin_lt hloaded hnearer (by omega)).trans ?_
      refine Iff.trans ?_ (eq_iff_of_modEq held.begin_lt hloaded hend (by omega)).symm
      omega
    · have hlength := hlength.2 hfull
      have hnot : b.full = false :=
        Bool.eq_false_iff.mpr fun htrue => hfull ((held.full_iff hN).mp htrue)
      have hbegin := mBegin_pushBack_of_not_full hnot elem
      refine ⟨⟨hloaded, hpushes, n, by omega, ?_, by omega⟩, fun _ => ?_⟩
      · rw [hbegin]
        exact hend
      · show ((b.pushBack elem).mBegin == loaded) = (b.mBegin == loaded)
        rw [hbegin]

end

/-! ## Between two accesses -/

/-- What has taken effect already with a first load of `mEnd`. -/
def early (first : Operand) (r : Result w T) : List (Result w T) :=
  match first with
  | .mBegin => []
  | .mEnd => [r]

/-- What the atomic queue has done when the machine is between two accesses. A function takes effect
with its load of `mEnd` or of the element, and `pop()` with the load of `mBegin` that it increments:
a push that finds the queue full after that drops the element being popped. -/
inductive Matches (order : Order) (m : Machine c T) (a : Atomic w T) : Control c → Prop
  | idle (held : Holds m.mRingbuffer a.held) (results : a.results = m.results) :
      Matches order m a .idle
  | empty {loaded : BitVec w} (held : Holds m.mRingbuffer a.held)
      (window : Window order.empty m.mRingbuffer a.held m.pushes loaded)
      (results : a.results = m.results ++
        early order.empty (.empty (seen order.empty loaded m.mRingbuffer).empty)) :
      Matches order m a (.empty loaded)
  | full {loaded : BitVec w} (held : Holds m.mRingbuffer a.held)
      (begins : order.full = .mBegin → loaded = m.mRingbuffer.mBegin)
      (results : a.results = m.results ++
        early order.full (.full (seen order.full loaded m.mRingbuffer).full)) :
      Matches order m a (.full loaded)
  | sizeFull {loaded : BitVec w} (held : Holds m.mRingbuffer a.held)
      (begins : order.sizeFull = .mBegin → loaded = m.mRingbuffer.mBegin)
      (sees : (seen order.sizeFull loaded m.mRingbuffer).full = m.mRingbuffer.full)
      (results : a.results = m.results) : Matches order m a (.sizeFull loaded)
  | sizeLoad (held : Holds m.mRingbuffer a.held) (room : m.mRingbuffer.full = false)
      (results : a.results = m.results) : Matches order m a .sizeLoad
  | sizeDifference {loaded : BitVec w} (held : Holds m.mRingbuffer a.held)
      (begins : order.difference = .mBegin →
        loaded = m.mRingbuffer.mBegin ∧ m.mRingbuffer.full = false)
      (results : a.results = m.results ++
        early order.difference (.size (difference (seen order.difference loaded m.mRingbuffer)))) :
      Matches order m a (.sizeDifference loaded)
  | front (held : Holds m.mRingbuffer a.held) (nonempty : a.held ≠ [])
      (results : a.results = m.results) : Matches order m a (.front m.mRingbuffer.front)
  | popAssert {loaded : BitVec w} (held : Holds m.mRingbuffer a.held)
      (window : Window order.popAssert m.mRingbuffer a.held m.pushes loaded)
      (results : a.results = m.results) : Matches order m a (.popAssert loaded)
  | popLoad (held : Holds m.mRingbuffer a.held) (nonempty : a.held ≠ [])
      (results : a.results = m.results) : Matches order m a .popLoad
  | popStore {elem : T} (held : Holds m.mRingbuffer (elem :: a.held))
      (results : a.results = m.results ++ [.pop]) :
      Matches order m a (.popStore m.mRingbuffer.mBegin)
  | dropped {mBegin : BitVec w} (held : Holds m.mRingbuffer a.held)
      (begins : m.mRingbuffer.mBegin = c.incr mBegin)
      (results : a.results = m.results ++ [.pop]) : Matches order m a (.popStore mBegin)

def Linearized (order : Order) (m : Machine c T) (a : Atomic w T) : Prop :=
  a.pushed = m.pushed ∧ Matches order m a m.control

/-- The atomic queue takes some steps. -/
def Catches (order : Order) (m' : Machine c T) (a : Atomic w T) : Prop :=
  ∃ ops a', run (atomicStep c.N.toNat) a ops = some a' ∧ Linearized order m' a'

section
variable {b : PotRingbuffer c T} {m m' : Machine c T} {a : Atomic w T} {order : Order}

theorem Catches.none (h : Linearized order m' a) : Catches order m' a := ⟨[], a, rfl, h⟩

theorem Catches.one (act : AtomicAction T) {t : Atomic w T}
    (hstep : atomicStep c.N.toNat a act = some t) (h : Linearized order m' t) :
    Catches order m' a :=
  ⟨[act], t, run_cons_iff.mpr ⟨t, hstep, rfl⟩, h⟩

/-- What a function takes effect with at its first load, if that is the load of `mEnd`. -/
theorem Catches.loads (first : Operand) (op : Op) {r : Result w T}
    (hperform : perform c.N.toNat a.held op = some (a.held, r))
    (h : ∀ results, results = a.results ++ early first r →
      Linearized order m' { a with results }) : Catches order m' a := by
  cases first with
  | mBegin => exact Catches.none (h a.results (List.append_nil _).symm)
  | mEnd => exact Catches.one (.op op) (congrArg (Option.map _) hperform) (h _ rfl)

/-- A function returns what it has taken effect with, now or at its first load. -/
theorem Catches.returns (first : Operand) (op : Op) {r : Result w T}
    (hperform : first = .mBegin → perform c.N.toNat a.held op = some (a.held, r))
    (hpushed : a.pushed = m.pushed) (held : Holds m.mRingbuffer a.held)
    (results : a.results = m.results ++ early first r) : Catches order (ret m r) a := by
  cases first with
  | mBegin =>
    rw [early, List.append_nil] at results
    refine Catches.one (.op op) (congrArg (Option.map _) (hperform rfl)) ⟨hpushed, ?_⟩
    exact .idle held (congrArg (· ++ [r]) results)
  | mEnd => exact Catches.none ⟨hpushed, .idle held results⟩

section
variable (hN : c.N.toNat = 2 ^ k)
include hN

/-! ## Pushes -/

theorem matches_push {elem : T} (h : Linearized order m a)
    (hcalm : Calm order m (.push elem)) :
    Catches order { m with
      mRingbuffer := m.mRingbuffer.pushBack elem
      pushes := m.pushes + 1
      pushed := m.pushed ++ [elem] } a := by
  obtain ⟨hpushed, hmatches⟩ := h
  refine Catches.one (.push elem) rfl ⟨congrArg (· ++ [elem]) hpushed, ?_⟩
  change Matches order _ _ m.control
  unfold Calm at hcalm
  generalize m.control = control at hmatches hcalm
  cases hmatches with
  | idle held results => exact .idle (held.pushBack hN elem) results
  | empty held window results =>
    obtain ⟨hwindow, hsame⟩ := window.push hN held hcalm elem
    refine .empty (held.pushBack hN elem) hwindow ?_
    generalize order.empty = first at hsame results ⊢
    cases first with
    | mBegin => exact results
    | mEnd =>
      rw [hsame rfl]
      exact results
  | full held begins results =>
    refine .full (held.pushBack hN elem) (fun hfirst => ?_) ?_
    · rw [mBegin_pushBack_of_not_full hcalm elem]
      exact begins hfirst
    · generalize order.full = first at results ⊢
      cases first with
      | mBegin => exact results
      | mEnd =>
        rw [full_seen_pushBack hcalm]
        exact results
  | @sizeFull loaded held begins sees results =>
    have hnot : m.mRingbuffer.full = false := by
      revert hcalm
      cases order.sizeFull with
      | mBegin => exact id
      | mEnd => exact not_full_of_pushBack hN held
    have hbegins (hfirst : order.sizeFull = .mBegin) :
        loaded = (m.mRingbuffer.pushBack elem).mBegin := by
      rw [mBegin_pushBack_of_not_full hnot]
      exact begins hfirst
    refine .sizeFull (held.pushBack hN elem) hbegins ?_ results
    generalize order.sizeFull = first at hcalm hbegins sees ⊢
    cases first with
    | mBegin =>
      rw [hbegins rfl]
      rfl
    | mEnd =>
      rw [full_seen_pushBack hnot, sees, hnot]
      exact hcalm.symm
  | sizeLoad held room results => exact .sizeLoad (held.pushBack hN elem) hcalm results
  | sizeDifference held begins results =>
    generalize hfirst : order.difference = first at hcalm begins results
    cases first with
    | mBegin =>
      refine .sizeDifference (held.pushBack hN elem) (fun _ => ⟨?_, hcalm⟩) ?_
      · rw [mBegin_pushBack_of_not_full (begins rfl).2]
        exact (begins rfl).1
      · rw [hfirst]
        exact results
    | mEnd =>
      refine .sizeDifference (held.pushBack hN elem) (fun h => ?_) ?_
      · rw [hfirst] at h
        cases h
      · rw [hfirst, difference_seen_pushBack hcalm]
        exact results
  | front held nonempty results =>
    rw [← front_pushBack_of_not_full hcalm elem]
    exact .front (held.pushBack hN elem) (by simp) results
  | popAssert held window results =>
    exact .popAssert (held.pushBack hN elem) (window.push hN held hcalm elem).1 results
  | popLoad held nonempty results => exact .popLoad (held.pushBack hN elem) (by simp) results
  | @popStore popped held results =>
    have hroom : a.held.length ≠ c.N.toNat := by
      have hle := held.length_le
      rw [List.length_cons] at hle
      omega
    have hafter := held.pushBack hN elem
    rw [if_neg hroom]
    by_cases hfull : (popped :: a.held).length = c.N.toNat
    · -- the push drops the element that is being popped
      rw [if_pos hfull] at hafter
      exact .dropped hafter (mBegin_pushBack_of_full ((held.full_iff hN).mpr hfull) elem) results
    · have hnot : m.mRingbuffer.full = false :=
        Bool.eq_false_iff.mpr fun htrue => hfull ((held.full_iff hN).mp htrue)
      rw [if_neg hfull] at hafter
      rw [← mBegin_pushBack_of_not_full hnot elem]
      exact .popStore hafter results
  | dropped held begins results =>
    have hnot : m.mRingbuffer.full = false := by
      rw [Bool.eq_false_iff]
      intro hfull
      exact incr_ne hN _ (begins.symm.trans (hcalm hfull))
    refine .dropped (held.pushBack hN elem) ?_ results
    rw [mBegin_pushBack_of_not_full hnot]
    exact begins

/-! ## Calls and accesses -/

omit hN in
theorem perform_empty {l : List T} (h : Holds b l) :
    perform (w := w) c.N.toNat l .empty = some (l, .empty b.empty) := by
  have hempty : b.empty = l.isEmpty := by rw [Bool.eq_iff_iff, h.empty_iff, List.isEmpty_iff]
  rw [perform, hempty]

theorem perform_full {l : List T} (h : Holds b l) :
    perform (w := w) c.N.toNat l .full = some (l, .full b.full) := by
  have hfull : b.full = (l.length == c.N.toNat) := by
    rw [Bool.eq_iff_iff, h.full_iff hN, beq_iff_eq]
  rw [perform, hfull]

theorem perform_size {l : List T} (h : Holds b l) :
    perform c.N.toNat l .size = some (l, .size b.size) := by
  have hsize : BitVec.ofNat w l.length = b.size := by
    rw [← h.size_eq hN, BitVec.ofNat_toNat, BitVec.setWidth_eq]
  rw [perform, hsize]

theorem matches_call {op : Op} (h : Linearized order m a) (hidle : m.control = .idle)
    (hcalm : Calm order m (.call op)) : Catches order (call order m op) a := by
  obtain ⟨hpushed, hmatches⟩ := h
  rw [hidle] at hmatches
  obtain ⟨held, results⟩ : Holds m.mRingbuffer a.held ∧ a.results = m.results := by
    cases hmatches with
    | idle held results => exact ⟨held, results⟩
  cases op with
  | empty =>
    refine Catches.loads order.empty .empty (perform_empty held) fun results' hresults =>
      ⟨hpushed, .empty held (.load _ held) ?_⟩
    rw [call_mRingbuffer, seen_load, call_results, ← results]
    exact hresults
  | full =>
    refine Catches.loads order.full .full (perform_full hN held) fun results' hresults =>
      ⟨hpushed, .full held (fun hfirst => by rw [hfirst]; rfl) ?_⟩
    rw [call_mRingbuffer, seen_load, call_results, ← results]
    exact hresults
  | size =>
    refine Catches.none ⟨hpushed, .sizeFull held (fun hfirst => by rw [hfirst]; rfl) ?_ results⟩
    rw [call_mRingbuffer, seen_load]
  | front =>
    have hnonempty : a.held ≠ [] := by
      intro hnil
      exact absurd (held.empty_iff.mpr hnil) (Bool.eq_false_iff.mp hcalm)
    exact Catches.none ⟨hpushed, .front held hnonempty results⟩
  | pop => exact Catches.none ⟨hpushed, .popAssert held (.load _ held) results⟩

theorem matches_access (h : Linearized order m a) (hs : access order m = some m') :
    Catches order m' a := by
  obtain ⟨hpushed, hmatches⟩ := h
  unfold access at hs
  generalize m.control = control at hmatches hs
  cases hmatches with
  | idle held results => cases hs
  | @empty loaded held window results =>
    obtain rfl := Option.some.inj hs
    refine Catches.returns order.empty .empty (fun hfirst => ?_) hpushed held results
    rw [hfirst] at window ⊢
    have hempty : (seen .mBegin loaded m.mRingbuffer).empty = m.mRingbuffer.empty := by
      rw [Bool.eq_iff_iff, window.empty_begin held, held.empty_iff]
    rw [hempty]
    exact perform_empty held
  | full held begins results =>
    obtain rfl := Option.some.inj hs
    refine Catches.returns order.full .full (fun hfirst => ?_) hpushed held results
    rw [hfirst, begins hfirst]
    exact perform_full hN held
  | sizeFull held begins sees results =>
    dsimp only at hs
    rw [sees] at hs
    split at hs
    case isTrue hfull =>
      obtain rfl := Option.some.inj hs
      have hsize : m.mRingbuffer.size = c.N := by rw [PotRingbuffer.size, if_pos hfull]
      rw [← hsize]
      exact Catches.returns .mBegin .size (fun _ => perform_size hN held) hpushed held
        (results.trans (List.append_nil _).symm)
    case isFalse hfull =>
      obtain rfl := Option.some.inj hs
      exact Catches.none ⟨hpushed, .sizeLoad held (Bool.eq_false_iff.mpr hfull) results⟩
  | sizeLoad held room results =>
    obtain rfl := Option.some.inj hs
    have hsize : m.mRingbuffer.size = difference m.mRingbuffer := by
      rw [PotRingbuffer.size, room]
      rfl
    refine Catches.loads order.difference .size (perform_size hN held) fun results' hresults =>
      ⟨hpushed, .sizeDifference held (fun hfirst => ?_) ?_⟩
    · rw [hfirst]
      exact ⟨rfl, room⟩
    · change results' = m.results ++ early order.difference
        (.size (difference (seen order.difference (load order.difference _) m.mRingbuffer)))
      rw [seen_load, ← results, ← hsize]
      exact hresults
  | sizeDifference held begins results =>
    obtain rfl := Option.some.inj hs
    refine Catches.returns order.difference .size (fun hfirst => ?_) hpushed held results
    obtain ⟨hloaded, room⟩ := begins hfirst
    have hsize : m.mRingbuffer.size = difference m.mRingbuffer := by
      rw [PotRingbuffer.size, room]
      rfl
    rw [hfirst, hloaded]
    change perform _ _ _ = some (a.held, .size (difference m.mRingbuffer))
    rw [← hsize]
    exact perform_size hN held
  | front held nonempty results =>
    obtain rfl := Option.some.inj hs
    refine Catches.returns .mBegin .front (fun _ => ?_) hpushed held
      (results.trans (List.append_nil _).symm)
    rw [perform, held.front_eq hN nonempty, List.head?_eq_some_head nonempty]
    rfl
  | popAssert held window results =>
    dsimp only at hs
    split at hs
    case isTrue => cases hs
    case isFalse hempty =>
      obtain rfl := Option.some.inj hs
      have hnonempty := window.ne_nil held (Bool.eq_false_iff.mpr hempty)
      exact Catches.none ⟨hpushed, .popLoad held hnonempty results⟩
  | popLoad held nonempty results =>
    obtain rfl := Option.some.inj hs
    obtain ⟨elem, rest, hheld⟩ := List.exists_cons_of_ne_nil nonempty
    refine Catches.one (.op .pop) (t := ⟨rest, a.results ++ [.pop], a.pushed⟩) ?_
      ⟨hpushed, ?_⟩
    · rw [atomicStep, hheld]
      rfl
    · rw [hheld] at held
      exact .popStore held (congrArg (· ++ _) results)
  | popStore held results =>
    obtain rfl := Option.some.inj hs
    exact Catches.none ⟨hpushed, .idle (held.incrBegin hN (by simp)) results⟩
  | dropped held begins results =>
    obtain rfl := Option.some.inj hs
    refine Catches.none ⟨hpushed, .idle ?_ results⟩
    change Holds { m.mRingbuffer with mBegin := c.incr _ } a.held
    rw [← begins]
    exact held

theorem linearized_step {act : Action T} (h : Linearized order m a)
    (hcalm : Calm order m act) (hs : step order m act = some m') : Catches order m' a := by
  cases act with
  | push elem =>
    obtain rfl := Option.some.inj hs
    exact matches_push hN h hcalm
  | access => exact matches_access hN h hs
  | call op =>
    cases hcontrol : m.control with
    | idle =>
      obtain rfl : call order m op = m' := by simpa [step, hcontrol] using hs
      exact matches_call hN h hcontrol hcalm
    | empty | full | sizeFull | sizeLoad | sizeDifference | front | popAssert | popLoad
    | popStore =>
      simp [step, hcontrol] at hs

end
end

/-! ## Runs -/

/-- What is held is what was pushed last. -/
theorem held_suffix_step (N : ℕ) (a : Atomic w T) (act : AtomicAction T) (a' : Atomic w T)
    (h : a.held <:+ a.pushed) (hs : atomicStep N a act = some a') : a'.held <:+ a'.pushed := by
  cases act with
  | push elem =>
    obtain rfl := Option.some.inj hs
    obtain ⟨gone, hgone⟩ := h
    have hshort : (if a.held.length = N then a.held.tail else a.held) <:+ a.pushed := by
      rw [← hgone]
      split
      case isTrue => exact (List.tail_suffix _).trans (List.suffix_append _ _)
      case isFalse => exact List.suffix_append _ _
    obtain ⟨front, hfront⟩ := hshort
    exact ⟨front, by simp only [← hfront, List.append_assoc]⟩
  | op op =>
    obtain ⟨⟨held, r⟩, hperform, rfl⟩ := Option.map_eq_some_iff.mp hs
    cases op with
    | empty | full | size =>
      obtain ⟨rfl, -⟩ := Prod.mk.inj (Option.some.inj hperform)
      exact h
    | front =>
      obtain ⟨elem, -, heq⟩ := Option.map_eq_some_iff.mp hperform
      obtain ⟨rfl, -⟩ := Prod.mk.inj heq
      exact h
    | pop =>
      obtain ⟨l, hl, heq⟩ := Option.map_eq_some_iff.mp hperform
      obtain ⟨rfl, -⟩ := Prod.mk.inj heq
      obtain ⟨-, hl⟩ := Option.ite_none_left_eq_some.mp hl
      obtain rfl := Option.some.inj hl
      exact (List.tail_suffix _).trans h

/-- Steps of the machine caught up by steps of the atomic queue. -/
theorem linearized_run (hN : c.N.toNat = 2 ^ k) {order : Order} {m t : Machine c T}
    {a : Atomic w T} {as : List (Action T)} (h : Linearized order m a)
    (hcalm : Along (step order) (Calm order) m as) (hrun : run (step order) m as = some t) :
    Catches order t a := by
  induction as generalizing m a with
  | nil =>
    obtain rfl : m = t := by simpa using hrun
    exact Catches.none h
  | cons act as ih =>
    obtain ⟨m', hm', hrest⟩ := run_cons_iff.mp hrun
    obtain ⟨hact, hacts⟩ := hcalm.step_cons hm'
    obtain ⟨first, a', hfirst, hlin⟩ := linearized_step hN h hact hm'
    obtain ⟨rest, a'', hrest, hlast⟩ := ih hlin hacts hrest
    exact ⟨first ++ rest, a'', by rw [run_append, hfirst]; exact hrest, hlast⟩

theorem Matches.results {order : Order} {m : Machine c T} {a : Atomic w T} {control : Control c}
    (h : Matches order m a control) : m.results <+: a.results := by
  cases h with
  | idle _ results | sizeFull _ _ _ results | sizeLoad _ _ results | front _ _ results
  | popAssert _ _ results | popLoad _ _ results => exact results ▸ List.prefix_rfl
  | empty _ _ results | full _ _ results | sizeDifference _ _ results | popStore _ results
  | dropped _ _ results => exact results ▸ List.prefix_append _ _

instance (order : Order) (m : Machine c T) : ∀ act, Decidable (Calm order m act)
  | .call .front => inferInstanceAs (Decidable (_ = false))
  | .call .empty | .call .full | .call .size | .call .pop | .access => .isTrue trivial
  | .push elem => by
      unfold Calm
      dsimp only
      split <;> (try split) <;> infer_instance

def endFirst : Order := ⟨.mEnd, .mEnd, .mEnd, .mEnd, .mEnd⟩

end CxxUtil.Ring.PotQueue
