import CxxUtil.Foundations.CallTraces

/-! # The notifiers of the log options

`src/log.cpp`: what `optionsDescription` and the notifiers ask of Boost.Log and of the file system,
call by call. Both are parameters, and any of their functions may throw whenever it is called. A
sink that is added is in the core from then on, with a formatter of its own until `set_formatter`
gives it `defaultFormatter`. -/
namespace CxxUtil.Text.LogOptions
open Foundations
set_option autoImplicit false

inductive Sink (Path : Type)
  | file (fileName : Path)
  | console
  | syslog (ident : String)

/-- The calls, with what they have returned. -/
inductive Call (Path : Type)
  | addCommonAttributes
  | addGlobalAttribute (name : String)
  | setLoggingEnabled (enabled : Bool)
  | absolute (path : String) (result : Path)
  | weaklyCanonical (path result : Path)
  | exists_ (path : Path) (result : Bool)
  | createDirectories (path : Path)
  | isDirectory (path : Path) (result : Bool)
  | makeBackend (ident : String)
  | addSink (sink : Sink Path)
  | setFormatter (sink : Sink Path)

/-- `boostLog` is what the calls of Boost.Log do. -/
structure Library (W Path E : Type) where
  absolute : String → W → Except E Path × W
  parentPath : Path → Path
  weaklyCanonical : Path → W → Except E Path × W
  exists_ : Path → W → Except E Bool × W
  createDirectories : Path → W → Except E Unit × W
  isDirectory : Path → W → Except E Bool × W
  string : Path → String
  boostLog : Call Path → W → Except E Unit × W

inductive Thrown (E : Type)
  | runtimeError (what : String)
  | library (e : E)

section
variable {W Path E : Type} (lib : Library W Path E)

abbrev Notifier (W Path E : Type) := Program W (Call Path) (Thrown E)

def log (call : Call Path) : Notifier W Path E Unit :=
  Program.call (lib.boostLog call) .library fun _ => call

def optionsDescription : Notifier W Path E Unit := do
  log lib .addCommonAttributes
  log lib (.addGlobalAttribute "Scope")
  log lib (.setLoggingEnabled false)

/-- The directory is created if there is nothing of that name. -/
def requireDirectory (canonParentPath : Path) : Notifier W Path E Unit := do
  let there ← Program.call (lib.exists_ canonParentPath) .library (.exists_ canonParentPath)
  if there then
    let directory ←
      Program.call (lib.isDirectory canonParentPath) .library (.isDirectory canonParentPath)
    if directory then pure ()
    else throw (.runtimeError (lib.string canonParentPath ++ " is not a directory"))
  else
    Program.call (lib.createDirectories canonParentPath) .library
      fun _ => .createDirectories canonParentPath

/-- `add_file_log` and `add_console_log` add a sink, which is given its formatter afterwards. -/
def addLog (sink : Sink Path) : Notifier W Path E Unit := do
  log lib (.addSink sink)
  log lib (.setFormatter sink)
  log lib (.setLoggingEnabled true)

def initFileSink (logFile : String) : Notifier W Path E Unit :=
  if logFile.length = 0 then pure ()
  else do
    let absLogFile ← Program.call (lib.absolute logFile) .library (.absolute logFile)
    let parentPath := lib.parentPath absLogFile
    let canonParentPath ←
      Program.call (lib.weaklyCanonical parentPath) .library (.weaklyCanonical parentPath)
    requireDirectory lib canonParentPath
    addLog lib (.file absLogFile)

def initConsoleSink (enabled : Bool) : Notifier W Path E Unit :=
  if enabled then addLog lib .console else pure ()

def initSyslogSink (programName : String) : Notifier W Path E Unit :=
  if programName.length = 0 then pure ()
  else do
    log lib (.makeBackend programName)
    log lib (.setFormatter (.syslog programName))
    log lib (.addSink (.syslog programName))
    log lib (.setLoggingEnabled true)

/-! ## Runs -/

inductive Action
  | optionsDescription
  | initFileSink (logFile : String)
  | initConsoleSink (enabled : Bool)
  | initSyslogSink (programName : String)

def Action.program : Action → Notifier W Path E Unit
  | .optionsDescription => LogOptions.optionsDescription lib
  | .initFileSink logFile => LogOptions.initFileSink lib logFile
  | .initConsoleSink enabled => LogOptions.initConsoleSink lib enabled
  | .initSyslogSink programName => LogOptions.initSyslogSink lib programName

/-- What has been called, and what each function has ended with. An exception is caught by whoever
has called `notify()`. -/
structure World (W Path E : Type) where
  traced : Traced W (Call Path)
  outcomes : List (Action × Except (Thrown E) Unit)

def step (s : World W Path E) (a : Action) : World W Path E :=
  let (r, traced) := (a.program lib).run s.traced
  ⟨traced, s.outcomes ++ [(a, r)]⟩

def start (w : W) : World W Path E := ⟨⟨w, []⟩, []⟩

end

/-! ## What is asked of the functions -/

/-- The sinks that a function may add. A file's path is what `absolute` has returned for the
option's value. -/
def Action.Asks {Path : Type} (calls : List (Call Path)) : Action → Sink Path → Prop
  | .initFileSink logFile, .file fileName =>
      logFile.length ≠ 0 ∧ .absolute logFile fileName ∈ calls
  | .initConsoleSink enabled, .console => enabled = true
  | .initSyslogSink programName, .syslog ident => programName.length ≠ 0 ∧ ident = programName
  | _, _ => False

/-- What a function that returns does to logging as a whole. -/
def Action.enables : Action → Option Bool
  | .optionsDescription => some false
  | .initFileSink logFile => if logFile.length = 0 then none else some true
  | .initConsoleSink enabled => if enabled then some true else none
  | .initSyslogSink programName => if programName.length = 0 then none else some true

def Call.enabling {Path : Type} : Call Path → Option Bool
  | .setLoggingEnabled enabled => some enabled
  | _ => none

def Call.added {Path : Type} : Call Path → Option (Sink Path)
  | .addSink sink => some sink
  | _ => none

@[simp] theorem enabling_addSink {Path : Type} (sink : Sink Path) :
    (Call.addSink sink).enabling = none := rfl

@[simp] theorem added_addSink {Path : Type} (sink : Sink Path) :
    (Call.addSink sink).added = some sink := rfl

/-- Logging is enabled when the process starts. -/
def loggingEnabled {Path : Type} (calls : List (Call Path)) : Bool :=
  (calls.filterMap Call.enabling).getLast?.getD true

def enabledBy {E : Type} (enabled : Bool) : Action × Except (Thrown E) Unit → Bool
  | (a, .ok ()) => a.enables.getD enabled
  | (_, .error _) => enabled

/-- Logging is enabled when there is a sink that has its formatter, and a file sink is added when
the file's parent path is a directory, or has been made one. -/
def Needs {W Path E : Type} (lib : Library W Path E) (before : List (Call Path)) :
    Call Path → Prop
  | .setLoggingEnabled true => ∃ sink, .addSink sink ∈ before ∧ .setFormatter sink ∈ before
  | .addSink (.file fileName) => ∃ logFile canon, .absolute logFile fileName ∈ before ∧
      .weaklyCanonical (lib.parentPath fileName) canon ∈ before ∧
      (.createDirectories canon ∈ before ∨
        .exists_ canon true ∈ before ∧ .isDirectory canon true ∈ before)
  | _ => True

/-- The sinks that the functions have added, in the functions' order. One that returns has given its
sink the formatter. -/
inductive AddedBy {Path E : Type} (calls : List (Call Path)) :
    List (Action × Except (Thrown E) Unit) → List (Sink Path) → Prop
  | start : AddedBy calls [] []
  | none {outcomes sinks a r} (earlier : AddedBy calls outcomes sinks)
      (unasked : r = .ok () → a.enables ≠ some true) : AddedBy calls (outcomes ++ [(a, r)]) sinks
  | one {outcomes sinks a r sink} (earlier : AddedBy calls outcomes sinks)
      (asked : a.Asks calls sink) (formatted : r = .ok () → .setFormatter sink ∈ calls)
      (thrown : ∀ what, r ≠ .error (.runtimeError what)) :
      AddedBy calls (outcomes ++ [(a, r)]) (sinks ++ [sink])

section
variable {W Path E : Type} {lib : Library W Path E} {a : Action}
  {r : Except (Thrown E) Unit} {before calls later : List (Call Path)}

theorem Needs.mono (earlier before : List (Call Path)) (c : Call Path) (h : Needs lib before c) :
    Needs lib (earlier ++ before) c := by
  have hmem {d : Call Path} (hd : d ∈ before) : d ∈ earlier ++ before :=
    List.mem_append_right _ hd
  unfold Needs at h ⊢
  split at h
  · obtain ⟨sink, hadd, hformat⟩ := h
    exact ⟨sink, hmem hadd, hmem hformat⟩
  · obtain ⟨logFile, canon, habsolute, hcanonical, hdirectory⟩ := h
    refine ⟨logFile, canon, hmem habsolute, hmem hcanonical, ?_⟩
    exact hdirectory.imp hmem fun hthere => ⟨hmem hthere.1, hmem hthere.2⟩
  · trivial

theorem Action.Asks.mono {sink : Sink Path} (h : a.Asks calls sink)
    (hsub : ∀ c ∈ calls, c ∈ later) : a.Asks later sink := by
  cases a <;> cases sink <;> first | exact h | exact ⟨h.1, hsub _ h.2⟩

theorem AddedBy.mono {outcomes : List (Action × Except (Thrown E) Unit)} {sinks : List (Sink Path)}
    (h : AddedBy calls outcomes sinks) (hsub : ∀ c ∈ calls, c ∈ later) :
    AddedBy later outcomes sinks := by
  induction h with
  | start => exact .start
  | none _ unasked ih => exact .none ih unasked
  | one _ asked formatted thrown ih =>
    exact .one ih (asked.mono hsub) (fun hr => hsub _ (formatted hr)) thrown

/-! ## One function -/

/-- A call that adds no sink and leaves logging as it is. -/
def Call.Quiet (c : Call Path) : Prop := c.enabling = none ∧ c.added = none

theorem Call.Quiet.needs {c : Call Path} (h : c.Quiet) (before : List (Call Path)) :
    Needs lib before c := by
  unfold Needs
  split
  · cases h.1
  · cases h.2
  · trivial

/-- What one function does. -/
structure Segment (lib : Library W Path E) (a : Action) (r : Except (Thrown E) Unit)
    (calls : List (Call Path)) : Prop where
  justified : JustifiedAfter (Needs lib) [] calls
  enabling : r = .ok () → calls.filterMap Call.enabling = a.enables.toList
  silent : ∀ x, r = .error x → calls.filterMap Call.enabling = []
  added : calls.filterMap Call.added = [] ∧ (r = .ok () → a.enables ≠ some true) ∨
    ∃ sink, calls.filterMap Call.added = [sink] ∧ a.Asks calls sink ∧
      (r = .ok () → .setFormatter sink ∈ calls) ∧ ∀ what, r ≠ .error (.runtimeError what)
  refused : ∀ what, r = .error (.runtimeError what) → ∃ logFile fileName canon,
    a = .initFileSink logFile ∧ what = lib.string canon ++ " is not a directory" ∧
    .absolute logFile fileName ∈ calls ∧
    .weaklyCanonical (lib.parentPath fileName) canon ∈ calls ∧
    .exists_ canon true ∈ calls ∧ .isDirectory canon false ∈ calls

theorem filterMap_enabling_quiet (h : ∀ c ∈ calls, c.Quiet) :
    calls.filterMap Call.enabling = [] :=
  List.filterMap_eq_nil_iff.mpr fun c hc => (h c hc).1

theorem filterMap_added_quiet (h : ∀ c ∈ calls, c.Quiet) : calls.filterMap Call.added = [] :=
  List.filterMap_eq_nil_iff.mpr fun c hc => (h c hc).2

theorem justified_quiet (h : ∀ c ∈ calls, c.Quiet) : JustifiedAfter (Needs lib) before calls :=
  .of_forall fun c hc before => (h c hc).needs before

theorem Segment.quiet_error (e : E) (h : ∀ c ∈ calls, c.Quiet) :
    Segment lib a (.error (.library e)) calls where
  justified := justified_quiet h
  enabling := nofun
  silent _ _ := filterMap_enabling_quiet h
  added := .inl ⟨filterMap_added_quiet h, nofun⟩
  refused := nofun

theorem Segment.returns_at_once (h : a.enables = none) : Segment lib a (.ok ()) [] where
  justified := trivial
  enabling _ := by rw [h]; rfl
  silent := nofun
  added := .inl ⟨rfl, fun _ => by rw [h]; nofun⟩
  refused := nofun

/-- Once the sink is added, whatever becomes of the rest. -/
theorem Segment.of_added {sink : Sink Path} (henables : a.enables = some true)
    (hbefore : ∀ c ∈ before, c.Quiet) (hneeds : Needs lib before (.addSink sink))
    (hasks : a.Asks (before ++ [.addSink sink] ++ later) sink)
    (hadded : later.filterMap Call.added = [])
    (hlater : JustifiedAfter (Needs lib) (before ++ [.addSink sink]) later)
    (hok : r = .ok () → .setFormatter sink ∈ before ++ [.addSink sink] ++ later ∧
      later.filterMap Call.enabling = [true])
    (herror : ∀ x, r = .error x → later.filterMap Call.enabling = [] ∧ ∃ e, x = .library e) :
    Segment lib a r (before ++ [.addSink sink] ++ later) where
  justified := by
    refine JustifiedAfter.append (JustifiedAfter.append (justified_quiet hbefore) ?_) ?_
    · exact ⟨hneeds, trivial⟩
    · exact hlater
  enabling hr := by
    have hone : later.filterMap Call.enabling = [true] := (hok hr).2
    simpa [List.filterMap_append, List.filterMap_cons, filterMap_enabling_quiet hbefore, henables]
      using hone
  silent x hx := by
    have hnone : later.filterMap Call.enabling = [] := (herror x hx).1
    simpa [List.filterMap_append, filterMap_enabling_quiet hbefore] using hnone
  added := by
    refine .inr ⟨sink, ?_, hasks, fun hr => (hok hr).1, fun what hr => ?_⟩
    · simp [List.filterMap_append, filterMap_added_quiet hbefore, hadded]
    · obtain ⟨e, he⟩ := (herror _ hr).2
      cases he
  refused what hr := by
    obtain ⟨e, he⟩ := (herror _ hr).2
    cases he

/-- `addLog` after calls that add nothing. -/
theorem traces_addLog {sink : Sink Path} (henables : a.enables = some true)
    (hbefore : ∀ c ∈ before, c.Quiet) (hneeds : Needs lib before (.addSink sink))
    (hasks : ∀ later, a.Asks (before ++ [.addSink sink] ++ later) sink) :
    Traces (addLog lib sink) fun r later => Segment lib a r (before ++ later) := by
  have hsegment {r : Except (Thrown E) Unit} {later : List (Call Path)}
      (hadded : later.filterMap Call.added = [])
      (hlater : JustifiedAfter (Needs lib) (before ++ [.addSink sink]) later)
      (hok : r = .ok () → .setFormatter sink ∈ before ++ [.addSink sink] ++ later ∧
        later.filterMap Call.enabling = [true])
      (herror : ∀ x, r = .error x → later.filterMap Call.enabling = [] ∧ ∃ e, x = .library e) :
      Segment lib a r (before ++ .addSink sink :: later) := by
    have hadd := Segment.of_added henables hbefore hneeds (hasks later) hadded hlater hok herror
    rwa [List.append_assoc] at hadd
  refine traces_call_bind (fun e => ?_) fun _ => ?_
  · rw [List.append_nil]
    exact .quiet_error e hbefore
  refine traces_call_bind (fun e => ?_) fun _ => ?_
  · exact hsegment rfl trivial nofun fun x hx => ⟨rfl, e, (Except.error.inj hx).symm⟩
  refine traces_call (fun e => ?_) fun _ => ?_
  · exact hsegment rfl ⟨trivial, trivial⟩ nofun fun x hx => ⟨rfl, e, (Except.error.inj hx).symm⟩
  · refine hsegment rfl ⟨trivial, ⟨sink, ?_, ?_⟩, trivial⟩ (fun _ => ⟨?_, rfl⟩) nofun <;> simp

theorem traces_initConsoleSink (enabled : Bool) :
    Traces (initConsoleSink lib enabled) (Segment lib (.initConsoleSink enabled)) := by
  unfold initConsoleSink
  split
  case isFalse henabled =>
    exact traces_pure (.returns_at_once (if_neg henabled))
  case isTrue henabled =>
    have henables : (Action.initConsoleSink enabled).enables = some true := if_pos henabled
    exact traces_addLog henables (List.forall_mem_nil _) trivial fun _ => henabled

theorem traces_initSyslogSink (programName : String) :
    Traces (initSyslogSink lib programName) (Segment lib (.initSyslogSink programName)) := by
  unfold initSyslogSink
  split
  case isTrue hempty => exact traces_pure (.returns_at_once (if_pos hempty))
  case isFalse hempty =>
    have hquiet : ∀ c ∈ [.makeBackend programName, .setFormatter (.syslog programName)],
        (c : Call Path).Quiet := by simp [Call.Quiet, Call.enabling, Call.added]
    have henables : (Action.initSyslogSink programName).enables = some true := if_neg hempty
    refine traces_call_bind (fun e => .quiet_error e nofun) fun _ => ?_
    refine traces_call_bind (fun e => .quiet_error e ?_) fun _ => ?_
    · simp [Call.Quiet, Call.enabling, Call.added]
    refine traces_call_bind (fun e => .quiet_error e hquiet) fun _ => ?_
    refine traces_call (fun e => ?_) fun _ => ?_
    · exact .of_added henables hquiet trivial ⟨hempty, rfl⟩ rfl trivial nofun
        fun x hx => ⟨rfl, e, (Except.error.inj hx).symm⟩
    · refine .of_added henables hquiet trivial ⟨hempty, rfl⟩ rfl
        ⟨⟨.syslog programName, ?_, ?_⟩, trivial⟩ (fun _ => ⟨?_, rfl⟩) nofun <;> simp

theorem traces_optionsDescription :
    Traces (optionsDescription lib) (Segment lib .optionsDescription) := by
  refine traces_call_bind (fun e => .quiet_error e nofun) fun _ => ?_
  refine traces_call_bind (fun e => .quiet_error e ?_) fun _ => ?_
  · simp [Call.Quiet, Call.enabling, Call.added]
  refine traces_call (fun e => .quiet_error e ?_) fun _ => ?_
  · simp [Call.Quiet, Call.enabling, Call.added]
  · exact ⟨⟨trivial, trivial, trivial, trivial⟩, fun _ => rfl, nofun, .inl ⟨rfl, nofun⟩, nofun⟩

/-- The calls are those that have looked at the directory, or have made it. -/
theorem traces_requireDirectory (canon : Path) :
    Traces (requireDirectory lib canon) fun r calls => (∀ c ∈ calls, c.Quiet) ∧
      (r = .ok () → .createDirectories canon ∈ calls ∨
        .exists_ canon true ∈ calls ∧ .isDirectory canon true ∈ calls) ∧
      ((∃ e, r = .error (.library e)) ∨ r = .ok () ∨
        r = .error (.runtimeError (lib.string canon ++ " is not a directory")) ∧
          .exists_ canon true ∈ calls ∧ .isDirectory canon false ∈ calls) := by
  refine traces_call_bind (fun e => ⟨nofun, nofun, .inl ⟨e, rfl⟩⟩) fun there => ?_
  split
  case isTrue hthere =>
    subst hthere
    refine traces_call_bind (fun e => ⟨?_, nofun, .inl ⟨e, rfl⟩⟩) fun directory => ?_
    · simp [Call.Quiet, Call.enabling, Call.added]
    split
    case isTrue hdirectory =>
      subst hdirectory
      refine traces_pure ⟨?_, fun _ => .inr ⟨?_, ?_⟩, .inr (.inl rfl)⟩ <;>
        simp [Call.Quiet, Call.enabling, Call.added]
    case isFalse hdirectory =>
      obtain rfl := Bool.eq_false_iff.mpr hdirectory
      refine traces_throw ⟨?_, nofun, .inr (.inr ⟨rfl, ?_, ?_⟩)⟩ <;>
        simp [Call.Quiet, Call.enabling, Call.added]
  case isFalse hthere =>
    refine traces_call (fun e => ⟨?_, nofun, .inl ⟨e, rfl⟩⟩)
      fun _ => ⟨?_, fun _ => .inl ?_, .inr (.inl rfl)⟩ <;>
      simp [Call.Quiet, Call.enabling, Call.added]

theorem traces_initFileSink (logFile : String) :
    Traces (initFileSink lib logFile) (Segment lib (.initFileSink logFile)) := by
  unfold initFileSink
  split
  case isTrue hempty => exact traces_pure (.returns_at_once (if_pos hempty))
  case isFalse hempty =>
    have henables : (Action.initFileSink logFile).enables = some true := if_neg hempty
    refine traces_call_bind (fun e => .quiet_error e nofun) fun absLogFile => ?_
    refine traces_call_bind (fun e => .quiet_error e ?_) fun canon => ?_
    · simp [Call.Quiet, Call.enabling, Call.added]
    have hquiet {calls : List (Call Path)} (h : ∀ c ∈ calls, c.Quiet) :
        ∀ c ∈ .absolute logFile absLogFile ::
          .weaklyCanonical (lib.parentPath absLogFile) canon :: calls, c.Quiet := by
      simpa [Call.Quiet, Call.enabling, Call.added] using h
    refine (traces_requireDirectory canon).bind (fun x calls h => ?_) fun _ calls h => ?_
    · obtain ⟨hcalls, -, ⟨e, heq⟩ | heq | ⟨heq, hthere, hdirectory⟩⟩ := h
      · obtain rfl := Except.error.inj heq
        exact .quiet_error e (hquiet hcalls)
      · cases heq
      · obtain rfl := Except.error.inj heq
        refine ⟨justified_quiet (hquiet hcalls), nofun,
          fun _ _ => filterMap_enabling_quiet (hquiet hcalls),
          .inl ⟨filterMap_added_quiet (hquiet hcalls), nofun⟩, fun what hwhat => ?_⟩
        obtain rfl := Thrown.runtimeError.inj (Except.error.inj hwhat)
        refine ⟨logFile, absLogFile, canon, rfl, rfl, ?_, ?_, ?_, ?_⟩ <;> simp [hthere, hdirectory]
    · obtain ⟨hcalls, hdirectory, -⟩ := h
      refine traces_addLog henables (hquiet hcalls) ⟨logFile, canon, ?_, ?_, ?_⟩ fun later => ?_
      · simp
      · simp
      · exact (hdirectory rfl).imp (by simp) fun hthere => by simpa using hthere
      · exact ⟨hempty, by simp⟩

theorem traces_program (a : Action) : Traces (a.program lib) (Segment lib a) := by
  cases a with
  | optionsDescription => exact traces_optionsDescription
  | initFileSink logFile => exact traces_initFileSink logFile
  | initConsoleSink enabled => exact traces_initConsoleSink enabled
  | initSyslogSink programName => exact traces_initSyslogSink programName

/-! ## Every run -/

/-- What holds of the calls of any functions. -/
structure SetUp (lib : Library W Path E) (s : World W Path E) : Prop where
  justified : JustifiedAfter (Needs lib) [] s.traced.calls
  enabled : loggingEnabled s.traced.calls = s.outcomes.foldl enabledBy true
  added : AddedBy s.traced.calls s.outcomes (s.traced.calls.filterMap Call.added)
  refused : ∀ a what, (a, .error (.runtimeError what)) ∈ s.outcomes →
    ∃ logFile fileName canon, a = .initFileSink logFile ∧
      what = lib.string canon ++ " is not a directory" ∧
      .absolute logFile fileName ∈ s.traced.calls ∧
      .weaklyCanonical (lib.parentPath fileName) canon ∈ s.traced.calls ∧
      .exists_ canon true ∈ s.traced.calls ∧ .isDirectory canon false ∈ s.traced.calls

theorem setUp_start (w : W) : SetUp lib (start w) :=
  ⟨trivial, rfl, .start, nofun⟩

theorem loggingEnabled_segment (h : Segment lib a r later) :
    loggingEnabled (calls ++ later) = enabledBy (loggingEnabled calls) (a, r) := by
  cases r with
  | error x => simp [loggingEnabled, enabledBy, List.filterMap_append, h.silent x rfl]
  | ok u =>
    have hlater : later.filterMap Call.enabling = a.enables.toList := h.enabling rfl
    cases henables : a.enables <;>
      simp [loggingEnabled, enabledBy, List.filterMap_append, hlater, henables]

theorem addedBy_segment {outcomes : List (Action × Except (Thrown E) Unit)}
    (h : AddedBy calls outcomes (calls.filterMap Call.added)) (hlater : Segment lib a r later) :
    AddedBy (calls ++ later) (outcomes ++ [(a, r)]) ((calls ++ later).filterMap Call.added) := by
  have hearlier : AddedBy (calls ++ later) outcomes (calls.filterMap Call.added) :=
    h.mono fun c hc => List.mem_append_left later hc
  have hsub : ∀ c ∈ later, c ∈ calls ++ later := fun c hc => List.mem_append_right calls hc
  rw [List.filterMap_append]
  obtain ⟨hnone, hunasked⟩ | ⟨sink, hone, hasked, hformatted, hthrown⟩ := hlater.added
  · rw [hnone, List.append_nil]
    exact .none hearlier hunasked
  · rw [hone]
    exact .one hearlier (hasked.mono hsub) (fun hr => hsub _ (hformatted hr)) hthrown

theorem setUp_step {s : World W Path E} (h : SetUp lib s) (a : Action) :
    SetUp lib (step lib s a) := by
  have hprogram : Traces (a.program lib) (Segment lib a) := traces_program a
  obtain ⟨later, hcalls, hlater⟩ := hprogram s.traced
  have houtcomes : (step lib s a).outcomes =
      s.outcomes ++ [(a, ((a.program lib).run s.traced).1)] := rfl
  have htraced : (step lib s a).traced.calls = s.traced.calls ++ later := hcalls
  generalize ((a.program lib).run s.traced).1 = r at houtcomes hlater
  refine ⟨?_, ?_, ?_, fun b what hb => ?_⟩
  · rw [htraced]
    have hweaken := hlater.justified.weaken Needs.mono s.traced.calls
    rw [List.append_nil] at hweaken
    exact h.justified.append hweaken
  · rw [htraced, houtcomes, loggingEnabled_segment hlater, h.enabled, List.foldl_append]
    rfl
  · rw [htraced, houtcomes]
    exact addedBy_segment h.added hlater
  · rw [houtcomes, List.mem_append, List.mem_singleton] at hb
    rw [htraced]
    obtain hb | hb := hb
    · obtain ⟨logFile, fileName, canon, hb, hwhat, h1, h2, h3, h4⟩ := h.refused b what hb
      have hsub {c : Call Path} (hc : c ∈ s.traced.calls) : c ∈ s.traced.calls ++ later :=
        List.mem_append_left later hc
      exact ⟨logFile, fileName, canon, hb, hwhat, hsub h1, hsub h2, hsub h3, hsub h4⟩
    · obtain ⟨rfl, hr⟩ := Prod.mk.inj hb
      obtain ⟨logFile, fileName, canon, hb, hwhat, h1, h2, h3, h4⟩ := hlater.refused what hr.symm
      have hsub {c : Call Path} (hc : c ∈ later) : c ∈ s.traced.calls ++ later :=
        List.mem_append_right s.traced.calls hc
      exact ⟨logFile, fileName, canon, hb, hwhat, hsub h1, hsub h2, hsub h3, hsub h4⟩

theorem setUp_run {s : World W Path E} (h : SetUp lib s) (actions : List Action) :
    SetUp lib (actions.foldl (step lib) s) := by
  induction actions generalizing s with
  | nil => exact h
  | cons a actions ih => exact ih (setUp_step h a)

theorem outcomes_run (actions : List Action) (s : World W Path E) :
    (actions.foldl (step lib) s).outcomes.map Prod.fst = s.outcomes.map Prod.fst ++ actions := by
  induction actions generalizing s with
  | nil => exact (List.append_nil _).symm
  | cons a actions ih =>
    have hstep : (step lib s a).outcomes.map Prod.fst = s.outcomes.map Prod.fst ++ [a] :=
      List.map_append
    rw [List.foldl_cons, ih, hstep, List.append_assoc, List.singleton_append]

/-- Whatever the library's functions do and throw, and whichever of the functions run, in whatever
order. -/
theorem sinks_are_set_up (lib : Library W Path E) (w : W) (actions : List Action) :
    let s := actions.foldl (step lib) (start w)
    s.outcomes.map Prod.fst = actions ∧
    loggingEnabled s.traced.calls = s.outcomes.foldl enabledBy true ∧
    (∀ before c after, s.traced.calls = before ++ c :: after → Needs lib before c) ∧
    AddedBy s.traced.calls s.outcomes (s.traced.calls.filterMap Call.added) ∧
    (∀ a what, (a, .error (.runtimeError what)) ∈ s.outcomes →
      ∃ logFile fileName canon, a = .initFileSink logFile ∧
        what = lib.string canon ++ " is not a directory" ∧
        .absolute logFile fileName ∈ s.traced.calls ∧
        .weaklyCanonical (lib.parentPath fileName) canon ∈ s.traced.calls ∧
        .exists_ canon true ∈ s.traced.calls ∧ .isDirectory canon false ∈ s.traced.calls) := by
  intro s
  have h : SetUp lib s := setUp_run (setUp_start w) actions
  refine ⟨outcomes_run actions (start w), h.enabled, fun before c after hcalls => ?_, h.added,
    h.refused⟩
  have hjustified : JustifiedAfter (Needs lib) [] (before ++ c :: after) := hcalls ▸ h.justified
  exact hjustified.needed

end

/-- Every path is there, and none is a directory. -/
def filesOnly : Library Unit String Unit where
  absolute path w := (.ok ("/var/" ++ path), w)
  parentPath _ := "/var"
  weaklyCanonical path w := (.ok path, w)
  exists_ _ w := (.ok true, w)
  createDirectories _ w := (.error (), w)
  isDirectory _ w := (.ok false, w)
  string := id
  boostLog _ w := (.ok (), w)

example :
    let s := [.optionsDescription, .initFileSink "log", .initConsoleSink true].foldl
      (step filesOnly) (start ())
    s.outcomes.map Prod.snd =
        [.ok (), .error (.runtimeError "/var is not a directory"), .ok ()] ∧
      s.traced.calls.filterMap Call.added = [.console] ∧ loggingEnabled s.traced.calls = true :=
  ⟨rfl, rfl, rfl⟩

end CxxUtil.Text.LogOptions
