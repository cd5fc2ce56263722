import CxxUtil.Asio.ForkedTask

/-! # The tasks of `tests/rpc-test.cpp`

`serverTask` and `clientTask`, by what their parents wait for: what they read and write is left out,
and so is what the child closes when the signal comes, of which the parent learns by an error. The
value of a coroutine that waits is the line of the `yield`. -/
namespace CxxUtil.Asio.RpcTest
open Foundations ForkedTask
set_option autoImplicit false

variable {E : Type*}

/-- The asynchronous calls of the parent of `serverTask`. -/
inductive ServerWait
  | acceptTcp
  | acceptWs
  | read
  | close
  | drain
  deriving DecidableEq, Repr

def serverResume : ServerWait → Option E → Next ServerWait E
  | .acceptTcp, none => .await .acceptWs
  | .acceptTcp, some e => .complete (some e) false
  | .acceptWs, none => .await .read
  | .acceptWs, some e => .complete (some e) false
  | .read, none => .await .read
  | .read, some _ => .await .close
  | .close, none => .await .drain
  | .close, some e => .complete (some e) false
  | .drain, none => .await .drain
  | .drain, some e => .complete (some e) true

def serverLine : Option ServerWait → ℤ
  | none => 75
  | some .acceptTcp => 87
  | some .acceptWs => 92
  | some .read => 112
  | some .close => 120
  | some .drain => 126

def serverTask : Task ServerWait E where
  first := .acceptTcp
  resume := serverResume
  line := serverLine
  line_ne w := by
    cases w with
    | none => decide
    | some w => cases w <;> decide

/-- The asynchronous calls of the parent of `clientTask`. -/
inductive ClientWait
  | connect
  | handshake
  | write
  | close
  | drain
  deriving DecidableEq, Repr

/-- The error of the write is not looked at. -/
def clientResume : ClientWait → Option E → Next ClientWait E
  | .connect, none => .await .handshake
  | .connect, some e => .complete (some e) false
  | .handshake, none => .await .write
  | .handshake, some e => .complete (some e) false
  | .write, _ => .await .close
  | .close, none => .await .drain
  | .close, some e => .complete (some e) false
  | .drain, none => .await .drain
  | .drain, some e => .complete (some e) true

def clientLine : Option ClientWait → ℤ
  | none => 153
  | some .connect => 163
  | some .handshake => 168
  | some .write => 175
  | some .close => 194
  | some .drain => 200

def clientTask : Task ClientWait E where
  first := .connect
  resume := clientResume
  line := clientLine
  line_ne w := by
    cases w with
    | none => decide
    | some w => cases w <;> decide

theorem server_fails (wait : ServerWait) (ec result : Option E) (cancel : Bool)
    (h : serverTask.resume wait ec = .complete result cancel) : result ≠ none := by
  cases wait <;> cases ec <;> cases h <;> exact Option.some_ne_none _

theorem client_fails (wait : ClientWait) (ec result : Option E) (cancel : Bool)
    (h : clientTask.resume wait ec = .complete result cancel) : result ≠ none := by
  cases wait <;> cases ec <;> cases h <;> exact Option.some_ne_none _

/-- **Both tasks complete once, and only with an error.** In every interleaving of the two halves of
a task, `m` is not null when a half is resumed, and the use count is the number of halves that are
not over. The handler is not called before both are, and then once, after the memory of the state
has been given back, with the error on which the parent has ended, never with the default result and
never with success. When the parent has ended early, without cancelling the wait of the child, that
takes a signal. -/
theorem tasks_complete_once (aborted : Option E) :
    (∀ as s, run (step serverTask) (init aborted) as = some s → Completes serverTask s) ∧
      ∀ as s, run (step clientTask) (init aborted) as = some s → Completes clientTask s :=
  ⟨fun _ _ h => completes_run server_fails h, fun _ _ h => completes_run client_fails h⟩

/-- The peer closes, and what is left to read is drained, which cancels the wait of the child. -/
example : (Foundations.run (step (E := String) serverTask) (init (some "aborted"))
    [.start, .resume none, .resume none, .resume none, .resume (some "closed"), .resume none,
      .resume none, .resume (some "end of file"), .signal (some "cancelled")]).map
        (fun s => s.operation.log) =
    some [.allocated, .destroyed, .deallocated, .called (some "end of file")] := rfl

end CxxUtil.Asio.RpcTest
