import CxxUtil.Asio.SerialPortFailure

/-! # Retrying an open

`asyncOpenUntilSuccess` opens the same port again and again. An attempt that has failed after
opening it leaves it open, and the next one is answered with `already_open`. `Undisturbed` says of a
step that no attempt fails that way; along such steps every attempt finds its port closed, and
succeeds when the device does its part. -/
namespace CxxUtil.Asio.SerialPortOpener
open Foundations
set_option autoImplicit false

/-- The port was opened, and each of the five options was set. -/
def Finished.WouldSucceed (f : Finished) : Prop :=
  .opened none ∈ f.history ∧ .set (.baudRate f.request.baudRate) none ∈ f.history ∧
    .set (.characterSize 8) none ∈ f.history ∧ .set (.parity .none) none ∈ f.history ∧
    .set (.stopBits .one) none ∈ f.history ∧ .set (.flowControl .none) none ∈ f.history

/-- Running the job ends an attempt in an error although its port has been opened: `close` has been
called, the settle delay or the write delay was cut short, or an option could not be set. -/
def Job.FailsOpened (w : Opener) (dev : Device) : Job → Prop
  | .openStart r _ => w.isOpen r.serialPort = false ∧ dev.open_ = none ∧ w.expiry = .min
  | .resume (.settle a) ec => ec ≠ none ∨ w.expiry = .min ∨
      (setOptions dev.setOption (serialOptions a.request.baudRate)).2 ≠ none
  | .resume (.write _) ec => ec ≠ none
  | _ => False

instance (w : Opener) (dev : Device) : ∀ job : Job, Decidable (job.FailsOpened w dev)
  | .openStart _ _ => inferInstanceAs (Decidable (_ ∧ _ ∧ _))
  | .retryStart _ _ => .isFalse id
  | .resume (.settle _) _ => inferInstanceAs (Decidable (_ ∨ _ ∨ _))
  | .resume (.write _) _ => inferInstanceAs (Decidable (_ ≠ _))
  | .resume (.retry _ _) _ => .isFalse id

/-- A new operation has a closed port to itself, and no attempt fails after it has opened its
port. -/
def Undisturbed (s : OpenerLoop) : Action → Prop
  | .asyncOpen p .. => s.world.isOpen p = false ∧ ∀ r ∈ requests s, r.serialPort ≠ p
  | .asyncOpenUntilSuccess p .. => s.world.isOpen p = false ∧ ∀ r ∈ requests s, r.serialPort ≠ p
  | .next dev => ∀ job ∈ s.posted.head?, ¬ job.FailsOpened s.world dev
  | _ => True

instance (s : OpenerLoop) : ∀ act : Action, Decidable (Undisturbed s act)
  | .asyncOpen .. => inferInstanceAs (Decidable (_ ∧ _))
  | .asyncOpenUntilSuccess .. => inferInstanceAs (Decidable (_ ∧ _))
  | .close => .isTrue trivial
  | .expire => .isTrue trivial
  | .next dev => inferInstanceAs (Decidable (∀ job ∈ s.posted.head?, ¬ job.FailsOpened s.world dev))

def Wait.attempt : Wait → Option Attempt
  | .settle a => some a
  | .write a => some a
  | .retry _ _ => none

def Job.attempt : Job → Option Attempt
  | .resume wait _ => wait.attempt
  | _ => none

def underWay (s : OpenerLoop) : List Attempt :=
  s.posted.filterMap Job.attempt ++ s.world.waiting.toList.filterMap Wait.attempt

/-! ## The invariant -/

/-- A coroutine that waits has its port open and every step so far has gone well, or is to open a
port that is closed. -/
def Wait.Ready (isOpen : ℕ → Bool) : Wait → Prop
  | .settle a => a.foundClosed = true ∧ a.history = [.opened none]
  | .write a => a.foundClosed = true ∧ a.history = .opened none :: .settled none ::
      (serialOptions a.request.baudRate).map fun o => .set o none
  | .retry r _ => isOpen r.serialPort = false

def Job.Ready (isOpen : ℕ → Bool) : Job → Prop
  | .openStart r _ => isOpen r.serialPort = false
  | .retryStart r _ => isOpen r.serialPort = false
  | .resume wait _ => wait.Ready isOpen

def Finished.Proper (f : Finished) : Prop :=
  f.foundClosed = true ∧ (f.ec ≠ none → f.leftOpen = false) ∧ (f.WouldSucceed ↔ f.ec = none)

/-- The operations, those of `busy` included, have a port each, and no attempt has failed on an open
port. -/
structure Clean (busy : List Request) (s : OpenerLoop) : Prop where
  ports : ((busy ++ requests s).map Request.serialPort).Nodup
  posted : ∀ job ∈ s.posted, job.Ready s.world.isOpen
  waiting : ∀ wait ∈ s.world.waiting, wait.Ready s.world.isOpen
  attempts : ∀ f ∈ s.world.attempts, f.Proper
  order : s.world.attempts.Pairwise fun f g => f.request.op = g.request.op → f.ec ≠ none
  successes : ∀ f ∈ s.world.attempts, f.ec = none → (f.request.op, none) ∈ s.world.completed

section
variable {s : OpenerLoop} {r : Request} {a : Attempt}

theorem Clean.free {busy : List Request} (h : Clean busy s) :
    ((requests s).map Request.serialPort).Nodup := by
  have := h.ports
  rw [List.map_append] at this
  exact this.of_append_right

theorem Clean.completed (h : Clean [r] s) (op : ℕ) (ec : ErrorCode) :
    Clean [] (complete op ec s) where
  ports := h.free
  posted := h.posted
  waiting := h.waiting
  attempts := h.attempts
  order := h.order
  successes f hf hec := List.mem_append_left _ (h.successes f hf hec)

theorem Clean.expires {busy : List Request} (h : Clean busy s) (d : ℤ) :
    Clean busy (expiresFromNow d s) where
  ports := by
    rw [requests_expiresFromNow]
    exact h.ports
  posted job hmem := by
    rcases mem_posted_expiresFromNow.mp hmem with hmem | ⟨wait, hwait, rfl⟩
    · exact h.posted job hmem
    · exact h.waiting wait hwait
  waiting wait hmem := by simp [expiresFromNow, cancelWait] at hmem
  attempts := h.attempts
  order := h.order
  successes := h.successes

theorem Clean.waits (h : Clean [r] s) {wait : Wait} (hr : wait.request = r)
    (hw : wait.Ready s.world.isOpen) (d : ℤ) :
    Clean [] (asyncWait wait (expiresFromNow d s)) where
  ports := by
    rw [List.nil_append, requests_wait, hr]
    exact (List.perm_append_comm.map Request.serialPort).nodup_iff.mp h.ports
  posted := (h.expires d).posted
  waiting wait' hmem := by
    obtain rfl : wait = wait' := by simpa [asyncWait] using hmem
    exact hw
  attempts := h.attempts
  order := h.order
  successes := h.successes

theorem Clean.posts (h : Clean [r] s) {job : Job} (hr : job.request = r)
    (hj : job.Ready s.world.isOpen) : Clean [] (s.post job) where
  ports := by
    refine (List.Perm.map Request.serialPort ?_).nodup_iff.mp h.ports
    simpa [requests, hr] using List.perm_middle.symm
  posted job' hmem := by
    rcases List.mem_append.mp hmem with hmem | hmem
    · exact h.posted job' hmem
    · obtain rfl := List.mem_singleton.mp hmem
      exact hj
  waiting := h.waiting
  attempts := h.attempts
  order := h.order
  successes := h.successes

/-- Opening the port of the running operation leaves the ports of the others as they are. -/
theorem Clean.marks (h : Clean [r] s) : Clean [r] (markOpen r.serialPort s) := by
  obtain ⟨hport, -⟩ := List.nodup_cons.mp h.ports
  have hother {r' : Request} (hmem : r' ∈ requests s)
      (hclosed : s.world.isOpen r'.serialPort = false) :
      (markOpen r.serialPort s).world.isOpen r'.serialPort = false := by
    have hne : r'.serialPort ≠ r.serialPort := fun heq =>
      hport (heq ▸ List.mem_map_of_mem hmem)
    simpa [markOpen, hne] using hclosed
  have hwait {wait : Wait} (hmem : wait.request ∈ requests s) (hw : wait.Ready s.world.isOpen) :
      wait.Ready (markOpen r.serialPort s).world.isOpen := by
    cases wait with
    | settle a => exact hw
    | write a => exact hw
    | retry r d => exact hother hmem hw
  refine ⟨h.ports, fun job hmem => ?_, fun wait hmem => ?_, h.attempts, h.order, h.successes⟩
  · have hreq : job.request ∈ requests s := List.mem_append_left _ (List.mem_map_of_mem hmem)
    have hjob := h.posted job hmem
    cases job with
    | openStart r c => exact hother hreq hjob
    | retryStart r d => exact hother hreq hjob
    | resume wait ec => exact hwait hreq hjob
  · have hwaiting : s.world.waiting = some wait := hmem
    exact hwait (by simp [requests, hwaiting]) (h.waiting wait hmem)

/-! ## The end of an attempt -/

theorem Clean.not_succeeded (h : Clean [r] s) (hrun : Running r s) :
    ∀ f ∈ s.world.attempts, f.request.op = r.op → f.ec ≠ none := fun f hf hop hec => by
  have hmem : r.op ∈ completedOps s :=
    List.mem_map.mpr ⟨_, hop ▸ h.successes f hf hec, rfl⟩
  -- an operation that runs has not completed
  exact (List.nodup_append.mp (IssuedOnce.nodup hrun)).2.2 _ hmem _ List.mem_cons_self rfl

theorem Clean.ordered (h : Clean [r] s) (hrun : Running r s) (f : Finished)
    (hf : f.request = r) :
    (s.world.attempts ++ [f]).Pairwise fun f g => f.request.op = g.request.op → f.ec ≠ none := by
  refine List.pairwise_append.mpr ⟨h.order, List.pairwise_singleton _ _, fun g hg f' hf' hop => ?_⟩
  obtain rfl := List.mem_singleton.mp hf'
  exact h.not_succeeded hrun g hg (hf ▸ hop)

theorem Clean.properAttempts {busy : List Request} (h : Clean busy s) {f : Finished}
    (hf : f.Proper) : ∀ g ∈ s.world.attempts ++ [f], g.Proper := by
  intro g hg
  rcases List.mem_append.mp hg with hg | hg
  · exact h.attempts g hg
  · obtain rfl := List.mem_singleton.mp hg
    exact hf

theorem Clean.succeeds (h : Clean [r] s) (hrun : Running r s) (ha : a.request = r)
    (hf : Finished.Proper ⟨a, none, s.world.isOpen a.request.serialPort⟩) :
    Clean [] (finishOpen a none s) := by
  have hdone : Clean [] (complete a.request.op none (logAttempt a none s)) := by
    refine ⟨h.free, h.posted, h.waiting, h.properAttempts hf, h.ordered hrun _ ha, ?_⟩
    intro f hmem hec
    rcases List.mem_append.mp hmem with hmem | hmem
    · exact List.mem_append_left _ (h.successes f hmem hec)
    · obtain rfl := List.mem_singleton.mp hmem
      exact List.mem_append_right _ (List.mem_singleton.mpr rfl)
  unfold finishOpen openFinished
  cases a.caller with
  | user => exact hdone
  | untilSuccess d => exact hdone

theorem Clean.fails (h : Clean [r] s) (hrun : Running r s) (ha : a.request = r) {e : Error}
    (hclosed : s.world.isOpen r.serialPort = false)
    (hf : Finished.Proper ⟨a, some e, s.world.isOpen a.request.serialPort⟩) :
    Clean [] (finishOpen a (some e) s) := by
  have hlogged : Clean [r] (logAttempt a (some e) s) := by
    refine ⟨h.ports, h.posted, h.waiting, h.properAttempts hf, h.ordered hrun _ ha, ?_⟩
    intro f hmem hec
    rcases List.mem_append.mp hmem with hmem | hmem
    · exact h.successes f hmem hec
    · obtain rfl := List.mem_singleton.mp hmem
      cases hec
  unfold finishOpen openFinished
  cases a.caller with
  | user => exact hlogged.completed _ _
  | untilSuccess d =>
    -- the next attempt finds the port as this one has
    dsimp only
    split
    · split
      · exact hlogged.completed _ _
      · exact hlogged.waits (by exact ha) (by exact ha ▸ hclosed) d
    · exact hlogged.completed _ _

/-! ## The coroutines -/

theorem Clean.openStart (h : Clean [r] s) (hrun : Running r s)
    (hclosed : s.world.isOpen r.serialPort = false) (c : Caller) {dev : Device}
    (hok : ¬ (dev.open_ = none ∧ s.world.expiry = .min)) : Clean [] (openStart r c dev s) := by
  unfold SerialPortOpener.openStart openPort
  cases hopen : dev.open_ with
  | some e =>
    simp only [hclosed, Bool.false_eq_true, if_false, Option.isSome_some, if_true]
    refine h.fails hrun (by rfl) hclosed ⟨rfl, fun _ => hclosed, ?_⟩
    simp [Finished.WouldSucceed]
  | none =>
    have hexp : (markOpen r.serialPort s).world.expiry ≠ .min := fun hmin => hok ⟨hopen, hmin⟩
    simp only [hclosed, Bool.false_eq_true, if_false, Option.isSome_none, hexp]
    exact h.marks.waits (by rfl) (by exact ⟨rfl, rfl⟩) _

theorem Clean.openSettled (h : Clean [a.request] s) (ha : (Wait.settle a).Ready s.world.isOpen)
    {ec : ErrorCode} {dev : Device}
    (hok : ¬ (Job.resume (.settle a) ec).FailsOpened s.world dev) :
    Clean [] (openSettled a ec dev s) := by
  obtain ⟨hfound, hhistory⟩ := ha
  simp only [Job.FailsOpened, not_or, not_not] at hok
  obtain ⟨rfl, hexp, hset⟩ := hok
  have htried := (setOptions_eq_none_iff dev.setOption _).mp hset
  unfold SerialPortOpener.openSettled setSerialPortOptions
  simp only [hset, htried, Option.or_none, Option.isSome_none, Bool.false_eq_true, if_false, hexp]
  refine h.waits (by rfl) ?_ _
  refine ⟨hfound, ?_⟩
  simp [hhistory]

theorem Clean.openWritten (h : Clean [a.request] s) (hrun : Running a.request s)
    (ha : (Wait.write a).Ready s.world.isOpen) : Clean [] (openWritten a none s) := by
  obtain ⟨hfound, hhistory⟩ := ha
  refine h.succeeds hrun (by rfl) ⟨hfound, fun hne => absurd rfl hne, ?_⟩
  simp [Finished.WouldSucceed, serialOptions, hhistory]

theorem Clean.asyncOpen (h : Clean [r] s) (hrun : Running r s)
    (hclosed : s.world.isOpen r.serialPort = false) (c : Caller) (dev : Device) :
    Clean [] (asyncOpen r c dev s) := by
  have hrun' : Running r (expiresFromNow 0 s) := by
    unfold Running
    rwa [requests_expiresFromNow]
  unfold SerialPortOpener.asyncOpen
  dsimp only
  split
  · -- the mark has just been overwritten
    refine (h.expires 0).openStart hrun' hclosed c ?_
    rintro ⟨-, hmin⟩
    cases hmin
  · exact (h.expires 0).posts rfl hclosed

end

/-! ## Runs -/

theorem clean_initiate {s : OpenerLoop} (h : Clean [] s) {r : Request}
    (hport : ∀ r' ∈ requests s, r'.serialPort ≠ r.serialPort) : Clean [r] (initiate s) where
  ports := by
    refine List.nodup_cons.mpr ⟨fun hmem => ?_, h.ports⟩
    obtain ⟨r', hr', heq⟩ := List.mem_map.mp hmem
    exact hport r' hr' heq
  posted := h.posted
  waiting := h.waiting
  attempts := h.attempts
  order := h.order
  successes := h.successes

theorem clean_step (s : OpenerLoop) (act : Action) (s' : OpenerLoop)
    (h : Accounted s ∧ Clean [] s) (hund : Undisturbed s act) (hs : step s act = some s') :
    Accounted s' ∧ Clean [] s' := by
  obtain ⟨hacc, h⟩ := h
  refine ⟨accounted_step s act s' hacc hs, ?_⟩
  cases act with
  | asyncOpen p baud settle write dev =>
    obtain rfl := Option.some.inj hs
    obtain ⟨hclosed, hport⟩ := hund
    have hbusy := clean_initiate h (r := ⟨s.world.initiated, p, baud, settle, write⟩) hport
    exact hbusy.asyncOpen (running_initiate hacc rfl) hclosed _ dev
  | asyncOpenUntilSuccess p baud retry settle write dev =>
    obtain rfl := Option.some.inj hs
    obtain ⟨hclosed, hport⟩ := hund
    have hbusy := clean_initiate h (r := ⟨s.world.initiated, p, baud, settle, write⟩) hport
    unfold asyncOpenUntilSuccess
    split
    · exact hbusy.asyncOpen (running_initiate hacc rfl) hclosed _ dev
    · exact hbusy.posts rfl hclosed
  | close =>
    obtain rfl := Option.some.inj hs
    have hexp := h.expires 0
    exact ⟨hexp.ports, hexp.posted, hexp.waiting, h.attempts, h.order, h.successes⟩
  | expire =>
    obtain ⟨wait, hw, rfl⟩ := step_expire.mp hs
    have hports : (wait.request :: requests (s.update fun w => { w with waiting := none })).Perm
        (requests s) := by
      simpa [requests, hw] using (List.perm_append_singleton _ _).symm
    have hbusy : Clean [wait.request] (s.update fun w => { w with waiting := none }) :=
      ⟨(hports.map Request.serialPort).nodup_iff.mpr h.ports, h.posted,
        fun wait hmem => (by simp at hmem), h.attempts, h.order, h.successes⟩
    exact hbusy.posts rfl (h.waiting wait hw)
  | next dev =>
    obtain ⟨job, jobs, hposted, rfl⟩ := step_next.mp hs
    have hok : ¬ job.FailsOpened s.world dev := hund job (by simp [hposted])
    have hjob : job.Ready s.world.isOpen := h.posted job (hposted ▸ List.mem_cons_self)
    have hrun := running_next hacc hposted
    have hbusy : Clean [job.request] ⟨s.world, jobs⟩ :=
      ⟨by simpa [requests, hposted] using h.ports,
        fun j hj => h.posted j (hposted ▸ List.mem_cons_of_mem _ hj), h.waiting, h.attempts,
        h.order, h.successes⟩
    cases job with
    | openStart r c =>
      exact Clean.openStart hbusy hrun hjob c fun hfail => hok ⟨hjob, hfail⟩
    | retryStart r d => exact Clean.asyncOpen hbusy hrun hjob _ dev
    | resume wait ec =>
      cases wait with
      | settle a => exact Clean.openSettled hbusy hjob hok
      | write a =>
        obtain rfl : ec = none := not_not.mp hok
        exact Clean.openWritten hbusy hrun hjob
      | retry r d =>
        show Clean [] (retryWaited r d ec dev ⟨s.world, jobs⟩)
        unfold retryWaited
        split
        · exact hbusy.completed _ _
        · exact Clean.asyncOpen hbusy hrun hjob _ dev

theorem Wait.Ready.foundClosed {isOpen : ℕ → Bool} {wait : Wait} (h : wait.Ready isOpen) :
    ∀ a ∈ wait.attempt, a.foundClosed = true := fun a ha => by
  cases wait with
  | settle b =>
    obtain rfl := Option.some.inj ha
    exact h.1
  | write b =>
    obtain rfl := Option.some.inj ha
    exact h.1
  | retry r d => cases ha

theorem Clean.foundClosed {busy : List Request} {s : OpenerLoop} (h : Clean busy s) :
    ∀ a ∈ underWay s, a.foundClosed = true := by
  intro a ha
  rcases List.mem_append.mp ha with ha | ha
  · obtain ⟨job, hjob, heq⟩ := List.mem_filterMap.mp ha
    have hready := h.posted job hjob
    cases job with
    | openStart r c => cases heq
    | retryStart r d => cases heq
    | resume wait ec => exact Wait.Ready.foundClosed hready a heq
  · obtain ⟨wait, hwait, heq⟩ := List.mem_filterMap.mp ha
    exact (h.waiting wait (Option.mem_toList.mp hwait)).foundClosed a heq

/-- In any run, an attempt that fails on a port it found closed leaves it closed exactly when it has
not opened it. In an undisturbed run every attempt finds its port closed and leaves it so when it
fails; it succeeds exactly when the device does its part, and is then the last of its operation,
which succeeds as well. -/
theorem failed_open_restores_port {isOpen : ℕ → Bool} {as : List Action} {s : OpenerLoop}
    (h : run step (init isOpen) as = some s) :
    (∀ f ∈ s.world.attempts, f.foundClosed = true → f.ec ≠ none →
      (f.leftOpen = false ↔ .opened none ∉ f.history)) ∧
    (Along step Undisturbed (init isOpen) as →
      (∀ a ∈ underWay s, a.foundClosed = true) ∧
      (∀ f ∈ s.world.attempts, f.foundClosed = true ∧ (f.ec ≠ none → f.leftOpen = false) ∧
        (f.WouldSucceed ↔ f.ec = none) ∧
        (f.ec = none → (f.request.op, none) ∈ s.world.completed)) ∧
      s.world.attempts.Pairwise fun f g => f.request.op = g.request.op → f.ec ≠ none) := by
  refine ⟨left_closed_iff h, fun hund => ?_⟩
  have hinit : Accounted (init isOpen) ∧ Clean [] (init isOpen) :=
    ⟨accounted_init isOpen, List.nodup_nil, fun _ hmem => (by cases hmem),
      fun _ hmem => (by cases hmem), fun _ hmem => (by cases hmem), List.Pairwise.nil,
      fun _ hmem => (by cases hmem)⟩
  obtain ⟨-, hclean⟩ := run_invariant_along clean_step hinit hund h
  refine ⟨hclean.foundClosed, fun f hf => ?_, hclean.order⟩
  obtain ⟨hfound, hleft, hwould⟩ := hclean.attempts f hf
  exact ⟨hfound, hleft, hwould, hclean.successes f hf⟩

theorem failed_open_restores_port_absent :
    ∃ s, run step (init fun _ => false)
        [.asyncOpenUntilSuccess 0 9600 1000 500 100 (.atOnce (some (.other 2)) none), .expire,
          .next (.atOnce none none), .expire, .next (.atOnce none none), .expire,
          .next (.atOnce none none)] = some s ∧
      s.world.completed = [(0, none)] ∧
      ∀ f ∈ s.world.attempts, f.ec ≠ none → f.leftOpen = false := by
  have hrun : run step (init fun _ => false)
      [.asyncOpenUntilSuccess 0 9600 1000 500 100 (.atOnce (some (.other 2)) none), .expire,
        .next (.atOnce none none), .expire, .next (.atOnce none none), .expire,
        .next (.atOnce none none)] = some _ := rfl
  obtain ⟨-, hclean⟩ := failed_open_restores_port hrun
  exact ⟨_, hrun, by decide, fun f hf => ((hclean (by decide)).2.1 f hf).2.1⟩

/-- The options cannot be set at the first attempt, which leaves the port open, so the second
attempt fails although the device does its part. -/
theorem failed_option_leaves_port_open :
    ∃ s f g, run step (init fun _ => false)
        [.asyncOpenUntilSuccess 0 9600 1000 500 100 (.atOnce none none), .expire,
          .next (.atOnce none (some (.other 5))), .expire, .next (.atOnce none none)] = some s ∧
      s.world.attempts = [f, g] ∧ f.foundClosed = true ∧ f.ec ≠ none ∧ f.leftOpen = true ∧
      g.foundClosed = false ∧ g.ec = some .alreadyOpen := by
  refine ⟨_, _, _, rfl, rfl, rfl, ?_, rfl, rfl, rfl⟩
  decide

end CxxUtil.Asio.SerialPortOpener
