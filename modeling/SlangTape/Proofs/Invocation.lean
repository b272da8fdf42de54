import SlangTape.CommandLine
import SlangTape.Proofs.Causality
import SlangTape.Proofs.Encoding
import SlangTape.Proofs.InputWords
import SlangTape.Proofs.Safety

set_option autoImplicit false

namespace SlangTape

namespace Traceback

/-- The report on a fault at a place under the name of a command, with what it says about the step. -/
def reportAs (command : Text) (location : Location) (fault : Fault) (steps : List String) : String :=
  let file := location.file
  let line := location.position.line
  let column := location.position.column
  "\n".intercalate (
    ["Traceback (most recent call last):",
      s!"  File \"{file}\", line {line}, column {column}, in <program>",
      "    " ++ String.ofList location.statement] ++
    steps ++
    [fault.label ++ ": " ++ fault.message ++ " (command: " ++ String.ofList command ++ ")"])

theorem intercalate_lines {location : Location} {fault : Fault} {command : Text} {n : ℕ}
    (h : location.statement ≠ []) (h' : command ≠ []) (entry : Option Entry) :
    "\n".intercalate (lines entry ⟨fault, some location, some command, some n⟩) =
      reportAs command location fault (stepLines entry) := by
  simp only [lines, reportAs, placeLines, commandName, Option.some_or, if_neg h, if_neg h']

end Traceback

theorem Command.spelling_ne_nil (c : Command) : c.spelling ≠ [] := by
  cases c <;> decide

theorem State.Calm.reports_eq {m : State} {c : Command} {location : Location} {n : ℕ} {f : Failure}
    {e : RuntimeError} (h : m.Calm) (ground : Fails m c f) (reports : Reports c location n f e) :
    ∃ fault command, e = ⟨fault, some location, some command, some n⟩ ∧ command ≠ [] := by
  cases reports with
  | wrapped => exact ⟨_, _, rfl, by decide⟩
  | stamped e =>
    have fresh : ∃ fault : Fault, Failure.runtime e = fault.toFailure := by
      rcases h.fails ground with same | ⟨w, same⟩ | ⟨_, same⟩ | ⟨_, _, _, _, _, _, _, same⟩
      · exact ⟨_, same⟩
      · exact ⟨_, same⟩
      · exact ⟨_, same⟩
      · cases same
    obtain ⟨fault, same⟩ := fresh
    cases same
    exact ⟨_, _, rfl, c.spelling_ne_nil⟩

theorem file_of_parse {l : Language} {file : String} {t : Text} {p : Program} {i : ℕ}
    {location : Location} (h : Program.parse l file t = .ok p)
    (place : p.locations[i]? = some (some location)) : location.file = file := by
  unfold Program.parse at h
  split at h
  · cases h
  · obtain ⟨jumps, _, rfl⟩ := (ofTokens_eq_ok_iff file _ p).1 h
    simp only [List.getElem?_toArray, List.getElem?_map, Option.map_eq_some_iff, Option.some.injEq]
      at place
    obtain ⟨t, _, rfl⟩ := place
    rfl

namespace Session

variable {s : Session} {p : Program} {limit : ℕ}

theorem run_of_ended {e : Ending} {m : State} (h : s.parse = .ok p)
    (ran : (s.machine p).runFor s.config p limit = (some e, m)) (more : ℕ) :
    s.run (limit + more) = s.run limit := by
  rw [run_of_parse h ran, run_of_parse h (runFor_of_ended ran more)]

theorem traceback_of_failsAt {n i : ℕ} {t : State} {c : Command} {f : Failure} (h : s.parse = .ok p)
    (failing : FailsAt s.config p (s.machine p) n i t c f) (hn : n < limit) (caught : f.Caught) :
    ∃ location e a b, p.locations[i]? = some (some location) ∧ location.statement = c.spelling ∧
      Reports c location n f e ∧
      (s.machine p).runFor s.config p limit = (some (.failed f), t.recorded.spent a b) ∧
      (t.recorded.spent a b).journal.traceback e =
        .ok ("\n".intercalate (Traceback.lines (some ⟨n, i, location⟩) e)) ∧
      s.run limit = (.failed (.runtime e), t.events, s.leave p (t.recorded.spent a b)) := by
  have start : (s.machine p).Sound s.config p := State.sound_start s.config p s.input s.sink
  have resolved := resolved_of_parse h
  have sound := start.reaches resolved failing.reached
  have count : t.journal.count = n := by
    rw [start.count_of_reaches resolved failing.reached]
    exact Nat.zero_add n
  obtain ⟨location, e, place, spelt, reports, failed⟩ := run_of_caught h failing hn caught
  obtain ⟨a, b, ran⟩ := start.runFor_of_failsAt resolved failing hn
  have entry : (t.recorded.spent a b).journal.entry = .ok (some ⟨n, i, location⟩) :=
    count ▸ sound.entry_recorded failing.index place
  refine ⟨location, e, a, b, place, spelt, reports, ran, ?_, ?_⟩
  · rw [Journal.traceback, entry]
    rfl
  · rw [run_of_parse h ran] at failed ⊢
    exact congrArg (·, _) failed

end Session

theorem State.Sound.runFor_ne_waiting {cfg : Config} {p : Program} {m : State} {text : Text}
    (h : m.Sound cfg p) (resolved : p.Resolved) (fed : m.input.Feeds text) (k : ℕ) :
    (m.runFor cfg p k).1 ≠ some .waiting := by
  intro waiting
  obtain ⟨_, _, reached, _, endless⟩ := h.readsForever_of_runFor resolved waiting
  obtain ⟨calls, left⟩ := reached.exists_input_eq
  rw [left] at endless
  exact (fed.after calls).not_endless endless

namespace CommandLine

variable {source : Source} {stdin : Text} {limit : ℕ} {input : Input}

theorem runSource_of_refused {e : ParseError}
    (h : Program.parse .standard source.file source.text = .error e) :
    runSource source stdin limit =
      { exit := some 1
        stdout := []
        stderr := "ParseError: " ++ e.message ++ "\n"
        unread := stdin } := by
  have parsed : (session source (.ofText stdin)).parse = .error e := h
  simp only [runSource, Session.run, parsed]
  rfl

section Accepted

variable {p : Program} {m : State}

/-- Any input that is fed the text from its first call on will do for the run. -/
theorem runSource_of_runFor {ending : Option Ending} (fed : input.Feeds stdin) (fresh : input.calls = 0)
    (h : Program.parse .standard source.file source.text = .ok p)
    (ran : (State.start {} p input {}).runFor {} p limit = (ending, m)) :
    runSource source stdin limit =
      let s := (session source input).leave p m
      let verdict := verdict s ((Session.outcome ending m).mapFailure m.journal.wrap)
      { exit := verdict.1
        stdout := Event.texts m.events
        stderr := verdict.2
        unread := stdin.drop m.input.calls } := by
  have start := State.sound_start {} p input {}
  obtain ⟨n, left, others⟩ :=
    State.runFor_fed limit (start.runFor_ne_waiting (resolved_of_parse h) fed limit)
  have same : Input.SameFor n input (.ofText stdin) := fun k _ =>
    (fed k).trans (Input.feeds_ofText stdin k).symm
  have ran' := (others (.ofText stdin) same).1
  rw [ran] at left ran'
  have calls : m.input.calls = n := by
    rw [left]
    exact (congrArg (· + n) fresh).trans (Nat.zero_add n)
  have calls' : ((Input.ofText stdin).after n).calls = n := Nat.zero_add n
  rw [runSource, Session.run_of_parse (s := session source (.ofText stdin)) h ran', calls]
  simp only [Session.leave, State.fed, calls']
  rfl

theorem runSource_of_running (fed : input.Feeds stdin) (fresh : input.calls = 0)
    (h : Program.parse .standard source.file source.text = .ok p)
    (ran : (State.start {} p input {}).runFor {} p limit = (none, m)) :
    runSource source stdin limit =
      { exit := none
        stdout := Event.texts m.events
        stderr := ""
        unread := stdin.drop m.input.calls } :=
  runSource_of_runFor fed fresh h ran

theorem runSource_of_ended {e : Ending} (fed : input.Feeds stdin) (fresh : input.calls = 0)
    (h : Program.parse .standard source.file source.text = .ok p)
    (ran : (State.start {} p input {}).runFor {} p limit = (some e, m))
    (normal : e = .finished ∨ e = .terminated) :
    runSource source stdin limit =
      { exit := some 0
        stdout := Event.texts m.events
        stderr := ""
        unread := stdin.drop m.input.calls } := by
  rw [runSource_of_runFor fed fresh h ran]
  rcases normal with rfl | rfl <;> rfl

theorem runSource_of_failed {f : Failure} (fed : input.Feeds stdin) (fresh : input.calls = 0)
    (h : Program.parse .standard source.file source.text = .ok p)
    (ran : (State.start {} p input {}).runFor {} p limit = (some (.failed f), m)) :
    ∃ n i t c location fault command, n < limit ∧
      FailsAt {} p (State.start {} p input {}) n i t c f ∧
      p.locations[i]? = some (some location) ∧ location.statement = c.spelling ∧
      Reports c location n f ⟨fault, some location, some command, some n⟩ ∧
      runSource source stdin limit =
        { exit := some 1
          stdout := Event.texts t.events
          stderr :=
            Traceback.reportAs command location fault [s!"    Step: {n}  Instruction: {i}"] ++ "\n"
          unread := stdin.drop m.input.calls } := by
  let s := session source input
  have start : (s.machine p).Sound s.config p := State.sound_start s.config p s.input s.sink
  have resolved := resolved_of_parse h
  have failed : ((s.machine p).runFor s.config p limit).1 = some (.failed f) := congrArg Prod.fst ran
  obtain ⟨n, i, t, c, hn, failing⟩ := start.failsAt_of_runFor resolved failed
  have calm : t.Calm := by
    refine State.Calm.reaches (m := s.machine p) ⟨fun k hk => ?_, fun k u given => ?_, fun _ _ => rfl⟩
      start resolved failing.reached
    · exact Input.Gives.unbroken fed k hk
    · exact fed.length_le given
  obtain ⟨location, e, a, b, place, spelt, reports, ran', shown, left⟩ :=
    Session.traceback_of_failsAt (s := s) h failing hn (calm.caught failing.ground)
  obtain rfl : m = t.recorded.spent a b := congrArg Prod.snd (ran.symm.trans ran')
  obtain ⟨fault, command, rfl, named⟩ := calm.reports_eq failing.ground reports
  have written : location.statement ≠ [] := spelt ▸ c.spelling_ne_nil
  rw [Traceback.intercalate_lines written named] at shown
  refine ⟨n, i, t, c, location, fault, command, hn, failing, place, spelt, reports, ?_⟩
  have outcome := congrArg Prod.fst ((Session.run_of_parse (s := s) h ran).symm.trans left)
  rw [runSource_of_runFor fed fresh h ran]
  dsimp only at outcome ⊢
  rw [outcome]
  simp only [verdict, Session.leave, shown]
  rfl

end Accepted

theorem exists_ended_of_exit {code : ℕ} (h : (runSource source stdin limit).exit = some code) :
    (∃ e, Program.parse .standard source.file source.text = .error e) ∨
      ∃ p e m, Program.parse .standard source.file source.text = .ok p ∧ e ≠ .waiting ∧
        (State.start {} p (.ofText stdin) {}).runFor {} p limit = (some e, m) := by
  have fed := Input.feeds_ofText stdin
  cases parsed : Program.parse .standard source.file source.text with
  | error e => exact .inl ⟨e, rfl⟩
  | ok p =>
    rcases ran : (State.start {} p (.ofText stdin) {}).runFor {} p limit with ⟨_ | e, m⟩
    · rw [runSource_of_running fed rfl parsed ran] at h
      cases h
    · have returns := (State.sound_start {} p (.ofText stdin) {}).runFor_ne_waiting
        (resolved_of_parse parsed) fed limit
      rw [ran] at returns
      exact .inr ⟨p, e, m, rfl, fun waiting => returns (congrArg some waiting), ran⟩

theorem stderr_eq_empty_iff {code : ℕ} (h : (runSource source stdin limit).exit = some code) :
    code = 0 ↔ (runSource source stdin limit).stderr = "" := by
  have fed := Input.feeds_ofText stdin
  rcases exists_ended_of_exit h with ⟨e, refused⟩ | ⟨p, e, m, accepted, returns, ran⟩
  · rw [runSource_of_refused refused] at h ⊢
    cases h
    simp
  · have normal (kind : e = .finished ∨ e = .terminated) :
        code = 0 ↔ (runSource source stdin limit).stderr = "" := by
      rw [runSource_of_ended fed rfl accepted ran kind] at h ⊢
      cases h
      exact iff_of_true rfl rfl
    cases e with
    | finished => exact normal (.inl rfl)
    | terminated => exact normal (.inr rfl)
    | waiting => exact absurd rfl returns
    | failed f =>
      obtain ⟨_, _, _, _, _, _, _, _, _, _, _, _, shown⟩ := runSource_of_failed fed rfl accepted ran
      rw [shown] at h ⊢
      cases h
      simp

theorem runSource_of_exit {code : ℕ} (h : (runSource source stdin limit).exit = some code)
    (more : ℕ) : runSource source stdin (limit + more) = runSource source stdin limit := by
  rcases exists_ended_of_exit h with ⟨e, refused⟩ | ⟨p, e, m, accepted, _, ran⟩
  · rw [runSource_of_refused refused, runSource_of_refused refused]
  · have same := Session.run_of_ended (s := session source (.ofText stdin)) accepted ran more
    simp only [runSource, same]

theorem perform_of_serves {files : Files} {path : String} {bytes : List UInt8}
    (served : files.Serves path bytes) (word : Request.ofArguments [path] = .run path.toList)
    (stdin : Text) (limit : ℕ) :
    perform files [path] stdin limit = .ok (runSource (.ofBytes path bytes) stdin limit) := by
  rw [perform, word]
  simp only [String.ofList_toList, served.load]

end CommandLine

/-- An invocation with the path of a readable file, while the characters on standard input are fed to
the run one a call. A text that is refused is reported before anything is read or printed. Otherwise
what has been printed is on standard output, and the program exits with zero if it runs off its end or
stops itself; if a command fails, the report on the failure is on standard error, beside what was
printed before that command. There is no other way to end, and once it has ended nothing more
happens. -/
theorem perform_program (files : Files) (path : String) (bytes : List UInt8) (stdin : Text)
    (input : Input) (served : files.Serves path bytes)
    (word : Request.ofArguments [path] = .run path.toList) (fed : input.Feeds stdin)
    (fresh : input.calls = 0) (limit : ℕ) :
    let text := Utf8.decode (Utf8.dropMark bytes)
    ∃ shown, CommandLine.perform files [path] stdin limit = .ok shown ∧
      (∀ e, Program.parse .standard path text = .error e →
        shown =
          { exit := some 1
            stdout := []
            stderr := "ParseError: " ++ e.message ++ "\n"
            unread := stdin }) ∧
      (∀ p, Program.parse .standard path text = .ok p →
        let cfg : Config := { width := .bits8, endValue := 0 }
        let start := State.start cfg p input {}
        (∀ m, start.runFor cfg p limit = (none, m) →
          shown =
            { exit := none
              stdout := Event.texts m.events
              stderr := ""
              unread := stdin.drop m.input.calls }) ∧
        (∀ e m, start.runFor cfg p limit = (some e, m) → e = .finished ∨ e = .terminated →
          shown =
            { exit := some 0
              stdout := Event.texts m.events
              stderr := ""
              unread := stdin.drop m.input.calls }) ∧
        (∀ f m, start.runFor cfg p limit = (some (.failed f), m) →
          ∃ n i t c location fault command, n < limit ∧ FailsAt cfg p start n i t c f ∧
            p.locations[i]? = some (some location) ∧ location.file = path ∧
            location.statement = c.spelling ∧
            Reports c location n f ⟨fault, some location, some command, some n⟩ ∧
            shown =
              { exit := some 1
                stdout := Event.texts t.events
                stderr :=
                  Traceback.reportAs command location fault [s!"    Step: {n}  Instruction: {i}"] ++ "\n"
                unread := stdin.drop m.input.calls }) ∧
        (start.runFor cfg p limit).1 ≠ some .waiting) ∧
      ∀ code, shown.exit = some code → (code = 0 ↔ shown.stderr = "") ∧
        ∀ more, CommandLine.perform files [path] stdin (limit + more) = .ok shown := by
  intro text
  have performed (k : ℕ) := CommandLine.perform_of_serves served word stdin k
  refine ⟨_, performed limit, fun e refused => ?_, fun p accepted => ⟨fun m ran => ?_,
    fun e m ran normal => ?_, fun f m ran => ?_, ?_⟩, fun code ended => ⟨?_, fun more => ?_⟩⟩
  · exact CommandLine.runSource_of_refused refused
  · exact CommandLine.runSource_of_running fed fresh accepted ran
  · exact CommandLine.runSource_of_ended fed fresh accepted ran normal
  · let source := Source.ofBytes path bytes
    have parsed : Program.parse .standard source.file source.text = .ok p := accepted
    obtain ⟨n, i, t, c, location, fault, command, hn, failing, place, spelt, reports, shown⟩ :=
      CommandLine.runSource_of_failed fed fresh parsed ran
    exact ⟨n, i, t, c, location, fault, command, hn, failing, place, file_of_parse accepted place,
      spelt, reports, shown⟩
  · exact (State.sound_start {} p input {}).runFor_ne_waiting (resolved_of_parse accepted) fed limit
  · exact CommandLine.stderr_eq_empty_iff ended
  · rw [performed, CommandLine.runSource_of_exit ended]

theorem perform_program_underflow :
    let bytes := Utf8.encode (Command.readChar.spelling ++ Command.printChar.spelling ++
      Command.moveLeft.spelling)
    let path := String.ofList ['/', 'u', '.', 'l', 'w']
    let files : Files := fun p => if p = path then .ok bytes else .error "No such file or directory"
    let shown : CommandLine.Transcript :=
      { exit := some 1
        stdout := ['*']
        stderr := "Traceback (most recent call last):\n" ++
          "  File \"/u.lw\", line 1, column 10, in <program>\n    chucha\n" ++
          "    Step: 2  Instruction: 2\n" ++
          "TapeUnderflow: Cannot move left of the first cell (command: chucha)\n"
        unread := ['x'] }
    ∀ more, CommandLine.perform files [path] ['*', 'x'] (9 + more) = .ok shown := by
  intro bytes path files shown more
  have letters : path.toList = ['/', 'u', '.', 'l', 'w'] := String.toList_ofList
  have served : files.Serves path bytes := ⟨by simp [letters], if_pos rfl⟩
  have word : Request.ofArguments [path] = .run path.toList := by
    rw [Request.ofArguments, List.map_cons, List.map_nil, letters]
    rfl
  obtain ⟨shown', performed, _, _, ended⟩ := perform_program files path bytes ['*', 'x']
    (.ofText ['*', 'x']) served word (Input.feeds_ofText _) rfl 9
  have evaluated : CommandLine.runSource (.ofBytes path bytes) ['*', 'x'] 9 = shown := by
    decide +kernel
  rw [CommandLine.perform_of_serves served word, evaluated] at performed
  obtain rfl : shown = shown' := Except.ok.inj performed
  exact (ended 1 rfl).2 more

end SlangTape
