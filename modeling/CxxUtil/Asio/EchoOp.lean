import CxxUtil.Asio.OperationCalls

/-! # `EchoOp`

`EchoOp` of `tests/composed.cpp`, over version 1 of `include/util/asio/operation.hpp`. The state of
an operation of version 1 is made from the `EchoOp`, whose result the handler gets. Its objects and
its use count are those of version 2: it is one of version 2 that has the `EchoOp` in place of the
result, and what its coroutine leaves in the members is recorded as a call of `complete`. The stream
delivers what has arrived in pieces, and takes what is written. -/
namespace CxxUtil.Asio.Echo
open Foundations Operation
set_option autoImplicit false

variable {E : Type*}

structure EchoOp (E : Type*) where
  echoes : ℤ
  buf : List UInt8
  rc : Option E

def bufSize : ℕ := 1024

/-- The asynchronous call that the operation waits for, with the object that is its handler. A write
is of the first `nTransferred` bytes of `buf`. `ended` is with the error that has ended it. -/
inductive Pending (E : Type*)
  | queued
  | read (object : ℕ)
  | write (object nTransferred : ℕ)
  | ended (ec : Option E)

/-- What has arrived, the part of it that has not been read, what each read has read, and what has
been written. -/
structure World (E : Type*) where
  operation : Operation.World (EchoOp E)
  pending : Pending E
  arrived : List UInt8
  unread : List UInt8
  reads : List (List UInt8)
  written : List UInt8

inductive Action (E : Type*)
  | start
  | arrive (bytes : List UInt8)
  | readSome (nTransferred : ℕ)
  | failRead (ec : E)
  | write
  /-- The write ends with an error when `k` bytes have been written. -/
  | failWrite (k : ℕ) (ec : E)

def init (e : EchoOp E) : World E := ⟨makeOperation e, .queued, [], [], [], []⟩

/-- The `EchoOp`, while its memory is there. -/
def state (s : World E) : Option (EchoOp E) := s.operation.state.map OperationState.mResult

/-- `while (--echoes >= 0)`, up to the read or to the end. -/
def loop (object : ℕ) (e : EchoOp E) (s : World E) : Option (World E) :=
  if 0 ≤ e.echoes - 1 then
    (run Operation.step s.operation
      [.invoke object, .complete object { e with echoes := e.echoes - 1 }, .move object,
        .finish 52, .destroy object]).map fun operation =>
      { s with operation, pending := .read s.operation.made }
  else
    (run Operation.step s.operation
      [.invoke object, .complete object { e with echoes := e.echoes - 1 }, .finish (-1),
        .destroy object]).map fun operation => { s with operation, pending := .ended none }

/-- A read of `piece`, up to the write. -/
def echo (object : ℕ) (e : EchoOp E) (piece : List UInt8) (s : World E) : Option (World E) :=
  (run Operation.step s.operation
    [.invoke object, .complete object { e with buf := piece ++ e.buf.drop piece.length },
      .move object, .finish 53, .destroy object]).map fun operation =>
    { s with
      operation
      pending := .write s.operation.made piece.length
      unread := s.unread.drop piece.length
      reads := s.reads ++ [piece] }

/-- The coroutine is not resumed, and `value` stays. -/
def fail (object : ℕ) (value : ℤ) (e : EchoOp E) (ec : E) (s : World E) : Option (World E) :=
  (run Operation.step s.operation
    [.invoke object, .complete object { e with rc := some ec }, .finish value,
      .destroy object]).map fun operation => { s with operation, pending := .ended (some ec) }

def step (s : World E) : Action E → Option (World E)
  | .start =>
    match s.pending, state s with
    | .queued, some e => loop 0 e s
    | _, _ => none
  | .arrive bytes => some { s with arrived := s.arrived ++ bytes, unread := s.unread ++ bytes }
  | .readSome nTransferred =>
    match s.pending, state s with
    | .read object, some e =>
      if 0 < nTransferred ∧ nTransferred ≤ min bufSize s.unread.length then
        echo object e (s.unread.take nTransferred) s
      else none
    | _, _ => none
  | .failRead ec =>
    match s.pending, state s with
    | .read object, some e => fail object 52 e ec s
    | _, _ => none
  | .write =>
    match s.pending, state s with
    | .write object nTransferred, some e =>
      loop object e { s with written := s.written ++ e.buf.take nTransferred }
    | _, _ => none
  | .failWrite k ec =>
    match s.pending, state s with
    | .write object nTransferred, some e =>
      fail object 53 e ec { s with written := s.written ++ (e.buf.take nTransferred).take k }
    | _, _ => none

/-! ## An operation with one object -/

/-- The objects that hold the state are `objects`, and nothing is being called. -/
structure Kept (d : EchoOp E) (objects : List ℕ) (w : Operation.World (EchoOp E)) : Prop where
  counted : Counted d w
  calls : w.calls = []
  holding : holding w = objects

section
variable {d e : EchoOp E} {w : Operation.World (EchoOp E)} {o : ℕ}

theorem kept_makeOperation (d : EchoOp E) : Kept d [0] (makeOperation d) :=
  ⟨Counted.makeOperation d, rfl, rfl⟩

theorem Kept.alive (h : Kept d [o] w) : Alive d 1 w := by
  have hone : Handles.holders () w.objects = 1 := by rw [holding_length, h.holding]; rfl
  have halive := h.counted.held (by rw [hone]; decide)
  rwa [hone] at halive

theorem Kept.ended (h : Kept d [] w) : Over d w :=
  h.counted.gone (by rw [holding_length, h.holding]; rfl)

theorem Kept.filter (h : Kept d [o] w) : (Operation.holding w).filter (· != o) = [] := by
  rw [h.holding]
  simp

theorem Kept.mem_holding (h : Kept d [o] w) : o ∈ Operation.holding w := by
  rw [h.holding]
  exact List.mem_singleton_self o

/-- What a call leaves. -/
theorem Kept.after {w' : Operation.World (EchoOp E)} {acts : List (Operation.Action (EchoOp E))}
    {objects : List ℕ} (h : Kept d [o] w) (hrun : run Operation.step w acts = some w')
    (hholding : Operation.holding w' = objects) (hcalls : w'.calls = [])
    (hcompletions : w'.completions = w.completions ++ [e]) :
    Kept d objects w' ∧ lastResult d w' = e := by
  refine ⟨⟨run_invariant counted_step h.counted hrun, hcalls, hholding⟩, ?_⟩
  rw [lastResult, hcompletions, List.getLastD_concat]

theorem Kept.await (h : Kept d [o] w) (e : EchoOp E) {value : ℤ} (hvalue : value ≠ -1) :
    ∃ w', run Operation.step w
        [.invoke o, .complete o e, .move o, .finish value, .destroy o] = some w' ∧
      Kept d [w.made] w' ∧ lastResult d w' = e := by
  obtain ⟨w', hrun, hholding, hcalls, hcompletions⟩ :=
    run_complete_await h.counted.numbered h.mem_holding h.calls e hvalue
  rw [h.filter] at hholding
  exact ⟨w', hrun, h.after hrun hholding hcalls hcompletions⟩

theorem Kept.finish (h : Kept d [o] w) (e : EchoOp E) :
    ∃ w', run Operation.step w [.invoke o, .complete o e, .finish (-1), .destroy o] = some w' ∧
      Kept d [] w' ∧ lastResult d w' = e := by
  obtain ⟨w', hrun, hholding, hcalls, hcompletions⟩ :=
    run_complete h.counted.numbered h.mem_holding h.calls e
  rw [h.filter] at hholding
  exact ⟨w', hrun, h.after hrun hholding hcalls hcompletions⟩

theorem Kept.drop (h : Kept d [o] w) (e : EchoOp E) {value : ℤ} (hvalue : value ≠ -1) :
    ∃ w', run Operation.step w [.invoke o, .complete o e, .finish value, .destroy o] = some w' ∧
      Kept d [] w' ∧ lastResult d w' = e := by
  obtain ⟨w', hrun, hholding, hcalls, hcompletions⟩ :=
    run_complete_drop h.counted.numbered h.mem_holding h.calls e hvalue
  rw [h.filter] at hholding
  exact ⟨w', hrun, h.after hrun hholding hcalls hcompletions⟩

end

/-! ## The invariant -/

def Pending.objects : Pending E → List ℕ
  | .queued => [0]
  | .read object => [object]
  | .write object _ => [object]
  | .ended _ => []

/-- Where the operation is, by what the `EchoOp` has in its members. -/
inductive Phase (d : EchoOp E) (s : World E) (e : EchoOp E) : Prop
  | queued (pending : s.pending = .queued) (state : e = d) (reads : s.reads = [])
      (written : s.written = [])
  | read {object : ℕ} (pending : s.pending = .read object) (rc : e.rc = none)
      (more : 0 ≤ e.echoes) (echoes : e.echoes + 1 + s.reads.length = d.echoes)
      (written : s.written = s.reads.flatten)
  | write {object nTransferred : ℕ} (pending : s.pending = .write object nTransferred)
      (rc : e.rc = none) (more : 0 ≤ e.echoes) (echoes : e.echoes + s.reads.length = d.echoes)
      (written : s.written ++ e.buf.take nTransferred = s.reads.flatten)
  | done (pending : s.pending = .ended none) (rc : e.rc = none)
      (rounds : (s.reads.length : ℤ) = max d.echoes 0) (written : s.written = s.reads.flatten)
  | failed {ec : E} (pending : s.pending = .ended (some ec)) (rc : e.rc = some ec)
      (written : s.written <+: s.reads.flatten)

structure Sound (d : EchoOp E) (s : World E) : Prop where
  kept : Kept d s.pending.objects s.operation
  arrived : s.arrived = s.reads.flatten ++ s.unread
  phase : Phase d s (lastResult d s.operation)

section
variable {d e : EchoOp E} {s s' : World E} {object : ℕ}

theorem sound_init (d : EchoOp E) : Sound d (init d) where
  kept := kept_makeOperation d
  arrived := rfl
  phase := .queued rfl rfl rfl rfl

/-- While the read goes on, everything that has been read has been written. -/
theorem Phase.of_read (h : Phase d s e) (hpending : s.pending = .read object) :
    e.rc = none ∧ 0 ≤ e.echoes ∧ e.echoes + 1 + s.reads.length = d.echoes ∧
      s.written = s.reads.flatten := by
  cases h with
  | read _ rc more echoes written => exact ⟨rc, more, echoes, written⟩
  | queued pending | write pending | done pending | failed pending =>
    rw [hpending] at pending
    cases pending

theorem Phase.of_write (h : Phase d s e) {n : ℕ} (hpending : s.pending = .write object n) :
    e.rc = none ∧ 0 ≤ e.echoes ∧ e.echoes + s.reads.length = d.echoes ∧
      s.written ++ e.buf.take n = s.reads.flatten := by
  cases h with
  | write pending rc more echoes written =>
    rw [hpending] at pending
    cases pending
    exact ⟨rc, more, echoes, written⟩
  | queued pending | read pending | done pending | failed pending =>
    rw [hpending] at pending
    cases pending

/-- As long as an object waits, the members are there. -/
theorem Sound.state_eq (h : Sound d s) (hobject : s.pending.objects = [object])
    (hstate : state s = some e) : Kept d [object] s.operation ∧ lastResult d s.operation = e := by
  have hkept : Kept d [object] s.operation := hobject ▸ h.kept
  rw [state, hkept.alive.state] at hstate
  exact ⟨hkept, Option.some.inj hstate⟩

/-- The loop is entered, or goes round, with `rounds` reads behind it. -/
theorem sound_loop (hkept : Kept d [object] s.operation)
    (harrived : s.arrived = s.reads.flatten ++ s.unread) (hrc : e.rc = none)
    (hechoes : e.echoes + s.reads.length = d.echoes) (hmore : 0 ≤ e.echoes ∨ s.reads = [])
    (hwritten : s.written = s.reads.flatten) (hs : loop object e s = some s') : Sound d s' := by
  unfold loop at hs
  split at hs
  case isTrue htest =>
    obtain ⟨w', hrun, hkept', hlast⟩ :=
      hkept.await { e with echoes := e.echoes - 1 } (show (52 : ℤ) ≠ -1 by decide)
    rw [hrun] at hs
    obtain rfl := Option.some.inj hs
    refine ⟨hkept', harrived, ?_⟩
    rw [hlast]
    have hnext : e.echoes - 1 + 1 + (s.reads.length : ℤ) = d.echoes := by omega
    exact .read rfl hrc htest hnext hwritten
  case isFalse htest =>
    obtain ⟨w', hrun, hkept', hlast⟩ := hkept.finish { e with echoes := e.echoes - 1 }
    rw [hrun] at hs
    obtain rfl := Option.some.inj hs
    refine ⟨hkept', harrived, ?_⟩
    rw [hlast]
    have hrounds : (s.reads.length : ℤ) = max d.echoes 0 := by
      cases hmore with
      | inl hmore => omega
      | inr hnil =>
        rw [hnil, List.length_nil] at hechoes ⊢
        omega
    exact .done rfl hrc hrounds hwritten

theorem sound_fail (hkept : Kept d [object] s.operation)
    (harrived : s.arrived = s.reads.flatten ++ s.unread)
    (hwritten : s.written <+: s.reads.flatten) {value : ℤ} (hvalue : value ≠ -1) {ec : E}
    (hs : fail object value e ec s = some s') : Sound d s' := by
  obtain ⟨w', hrun, hkept', hlast⟩ := hkept.drop { e with rc := some ec } hvalue
  rw [fail, hrun] at hs
  obtain rfl := Option.some.inj hs
  refine ⟨hkept', harrived, ?_⟩
  rw [hlast]
  exact .failed rfl rfl hwritten

theorem sound_echo (hkept : Kept d [object] s.operation)
    (harrived : s.arrived = s.reads.flatten ++ s.unread) (hrc : e.rc = none)
    (hmore : 0 ≤ e.echoes) (hechoes : e.echoes + 1 + s.reads.length = d.echoes)
    (hwritten : s.written = s.reads.flatten) {n : ℕ} (hn : n ≤ s.unread.length)
    (hs : echo object e (s.unread.take n) s = some s') : Sound d s' := by
  have hlen : (s.unread.take n).length = n := List.length_take_of_le hn
  let e' : EchoOp E :=
    { e with buf := s.unread.take n ++ e.buf.drop (s.unread.take n).length }
  obtain ⟨w', hrun, hkept', hlast⟩ := hkept.await e' (show (53 : ℤ) ≠ -1 by decide)
  rw [echo, hrun] at hs
  obtain rfl := Option.some.inj hs
  refine ⟨hkept', ?_, ?_⟩
  · show s.arrived = (s.reads ++ [s.unread.take n]).flatten ++ s.unread.drop _
    rw [hlen, List.flatten_append, List.flatten_singleton, List.append_assoc, List.take_append_drop,
      harrived]
  · rw [hlast]
    refine .write rfl hrc hmore ?_ ?_
    · show e.echoes + ((s.reads ++ [s.unread.take n]).length : ℤ) = d.echoes
      rw [List.length_append, List.length_singleton]
      omega
    · show s.written ++ (s.unread.take n ++ e.buf.drop _).take (s.unread.take n).length =
        (s.reads ++ [s.unread.take n]).flatten
      rw [List.take_left, List.flatten_append, List.flatten_singleton, hwritten]

theorem sound_step (hd : d.rc = none) (s : World E) (act : Action E) (s' : World E)
    (h : Sound d s) (hs : step s act = some s') : Sound d s' := by
  cases act with
  | start =>
    simp only [step] at hs
    split at hs
    case h_1 e hpending hstate =>
      obtain ⟨hkept, hlast⟩ := h.state_eq (by rw [hpending]; rfl) hstate
      have hphase := h.phase
      rw [hlast] at hphase
      cases hphase with
      | queued _ state reads written =>
        subst state
        refine sound_loop hkept h.arrived hd ?_ (.inr reads) (by rw [reads, written]; rfl) hs
        rw [reads]
        exact Int.add_zero _
      | read pending | write pending | done pending | failed pending =>
        rw [hpending] at pending
        cases pending
    case h_2 => cases hs
  | arrive bytes =>
    obtain rfl := Option.some.inj hs
    refine ⟨h.kept, ?_, ?_⟩
    · show s.arrived ++ bytes = _ ++ (s.unread ++ bytes)
      rw [h.arrived, List.append_assoc]
    · cases h.phase with
      | queued pending state reads written => exact .queued pending state reads written
      | read pending rc more echoes written => exact .read pending rc more echoes written
      | write pending rc more echoes written => exact .write pending rc more echoes written
      | done pending rc rounds written => exact .done pending rc rounds written
      | failed pending rc written => exact .failed pending rc written
  | readSome n =>
    simp only [step] at hs
    split at hs
    case h_1 object e hpending hstate =>
      obtain ⟨⟨-, hn⟩, hs⟩ := Option.ite_none_right_eq_some.mp hs
      obtain ⟨hkept, hlast⟩ := h.state_eq (by rw [hpending]; rfl) hstate
      obtain ⟨hrc, hmore, hechoes, hwritten⟩ := (hlast ▸ h.phase).of_read hpending
      exact sound_echo hkept h.arrived hrc hmore hechoes hwritten
        (Nat.le_trans hn (Nat.min_le_right _ _)) hs
    case h_2 => cases hs
  | failRead ec =>
    simp only [step] at hs
    split at hs
    case h_1 object e hpending hstate =>
      obtain ⟨hkept, hlast⟩ := h.state_eq (by rw [hpending]; rfl) hstate
      obtain ⟨-, -, -, hwritten⟩ := (hlast ▸ h.phase).of_read hpending
      exact sound_fail hkept h.arrived (hwritten ▸ List.prefix_rfl) (by decide) hs
    case h_2 => cases hs
  | write =>
    simp only [step] at hs
    split at hs
    case h_1 object n e hpending hstate =>
      obtain ⟨hkept, hlast⟩ := h.state_eq (by rw [hpending]; rfl) hstate
      obtain ⟨hrc, hmore, hechoes, hwritten⟩ := (hlast ▸ h.phase).of_write hpending
      exact sound_loop (s := { s with written := s.written ++ e.buf.take n }) hkept h.arrived hrc
        hechoes (.inl hmore) hwritten hs
    case h_2 => cases hs
  | failWrite k ec =>
    simp only [step] at hs
    split at hs
    case h_1 object n e hpending hstate =>
      obtain ⟨hkept, hlast⟩ := h.state_eq (by rw [hpending]; rfl) hstate
      obtain ⟨-, -, -, hwritten⟩ := (hlast ▸ h.phase).of_write hpending
      have hpart : s.written ++ (e.buf.take n).take k <+: s.reads.flatten := by
        rw [← hwritten]
        exact (List.prefix_append_right_inj _).mpr (List.take_prefix _ _)
      exact sound_fail (s := { s with written := s.written ++ (e.buf.take n).take k }) hkept
        h.arrived hpart (by decide) hs
    case h_2 => cases hs

theorem Sound.written_prefix (h : Sound d s) : s.written <+: s.reads.flatten := by
  cases h.phase with
  | queued _ _ reads written =>
    rw [written]
    exact List.nil_prefix
  | read _ _ _ _ written => exact written ▸ List.prefix_rfl
  | write _ _ _ _ written => exact written ▸ List.prefix_append _ _
  | done _ _ _ written => exact written ▸ List.prefix_rfl
  | failed _ _ written => exact written

/-- A call that has ended can be answered. -/
theorem Sound.alive (h : Sound d s) (hobject : s.pending.objects = [object]) :
    state s = some (lastResult d s.operation) ∧ s.operation.log = [.allocated] := by
  have hkept : Kept d [object] s.operation := hobject ▸ h.kept
  exact ⟨by rw [state, hkept.alive.state]; rfl, hkept.alive.log⟩

theorem loop_isSome (hkept : Kept d [object] s.operation) (e : EchoOp E) :
    (loop object e s).isSome = true := by
  unfold loop
  split
  case isTrue =>
    obtain ⟨w', hrun, -⟩ :=
      hkept.await { e with echoes := e.echoes - 1 } (show (52 : ℤ) ≠ -1 by decide)
    rw [hrun]
    rfl
  case isFalse =>
    obtain ⟨w', hrun, -⟩ := hkept.finish { e with echoes := e.echoes - 1 }
    rw [hrun]
    rfl

theorem echo_isSome (hkept : Kept d [object] s.operation) (e : EchoOp E) (piece : List UInt8) :
    (echo object e piece s).isSome = true := by
  obtain ⟨w', hrun, -⟩ := hkept.await { e with buf := piece ++ e.buf.drop piece.length }
    (show (53 : ℤ) ≠ -1 by decide)
  rw [echo, hrun]
  rfl

/-- **The operation echoes what it reads.** Whatever arrives, in whatever pieces it is read and
wherever the stream fails: what has arrived has been read, in order, or waits; what has been written
is a prefix of what has been read. As long as a call is under way, `buf` and the other members are
there and the handler has not been called. When the operation is over, the memory has been given
back and the handler called, once, with the error that has ended it; without one, there have been as
many rounds as asked for, and all that was read has been written. -/
theorem echoes_what_it_reads (hd : d.rc = none) {as : List (Action E)}
    (h : run step (init d) as = some s) :
    s.arrived = s.reads.flatten ++ s.unread ∧ s.written <+: s.reads.flatten ∧
    (∀ ec, s.pending = .ended ec →
      ∃ result : EchoOp E,
        s.operation.log = [.allocated, .destroyed, .deallocated, .called result] ∧
          result.rc = ec ∧
          (ec = none → s.written = s.reads.flatten ∧ (s.reads.length : ℤ) = max d.echoes 0)) ∧
    (∀ object, s.pending.objects = [object] →
      (state s).isSome = true ∧ ∀ result, .called result ∉ s.operation.log) ∧
    (∀ object n, s.pending = .read object → 0 < n → n ≤ min bufSize s.unread.length →
      (step s (.readSome n)).isSome = true) ∧
    ∀ object n, s.pending = .write object n → (step s .write).isSome = true := by
  have hsound : Sound d s := run_invariant (sound_step hd) (sound_init d) h
  refine ⟨hsound.arrived, hsound.written_prefix, fun ec hover => ?_, fun object hobject => ?_, ?_,
    ?_⟩
  · have hkept : Kept d [] s.operation := by
      have hkept := hsound.kept
      rwa [hover] at hkept
    refine ⟨lastResult d s.operation, hkept.ended.log, ?_⟩
    cases hsound.phase with
    | done pending rc rounds written =>
      rw [hover] at pending
      cases pending
      exact ⟨rc, fun _ => ⟨written, rounds⟩⟩
    | failed pending rc written =>
      rw [hover] at pending
      cases pending
      exact ⟨rc, fun hnone => by cases hnone⟩
    | queued pending | read pending | write pending =>
      rw [hover] at pending
      cases pending
  · obtain ⟨hstate, hlog⟩ := hsound.alive hobject
    rw [hstate, hlog]
    exact ⟨rfl, fun result hmem => by cases List.mem_singleton.mp hmem⟩
  · intro object n hpending hpos hle
    have hobject : s.pending.objects = [object] := by rw [hpending]; rfl
    have hkept : Kept d [object] s.operation := hobject ▸ hsound.kept
    simp only [step, hpending, (hsound.alive hobject).1, if_pos (And.intro hpos hle)]
    exact echo_isSome hkept _ _
  · intro object n hpending
    have hobject : s.pending.objects = [object] := by rw [hpending]; rfl
    have hkept : Kept d [object] s.operation := hobject ▸ hsound.kept
    simp only [step, hpending, (hsound.alive hobject).1]
    let afterWrite : World E :=
      { s with written := s.written ++ (lastResult d s.operation).buf.take n }
    exact hpending ▸ loop_isSome (s := afterWrite) hkept _

end

/-- Three bytes in two pieces, and an error instead of the third read. -/
theorem echoes_what_it_reads_eof :
    ∃ s : World String, run step (init ⟨100, [], none⟩) [.start, .arrive [1, 2, 3], .readSome 2,
        .write, .readSome 1, .write, .failRead "eof"] = some s ∧
      s.written = [1, 2, 3] ∧ s.written <+: s.reads.flatten := by
  have hrun : run (step (E := String)) (init ⟨100, [], none⟩) [.start, .arrive [1, 2, 3],
      .readSome 2, .write, .readSome 1, .write, .failRead "eof"] = some _ := rfl
  exact ⟨_, hrun, rfl, (echoes_what_it_reads rfl hrun).2.1⟩

end CxxUtil.Asio.Echo
