import SlangTape.Language.Table
import SlangTape.Session
import SlangTape.Proofs.Soundness

set_option autoImplicit false

namespace SlangTape

/-- What comes out of a run for a failure that it does not catch: a demand to stop as it is, and for an
error that cannot say what it is whatever comes of asking it. -/
inductive Failure.Passes : Failure → Failure → Prop where
  | interrupt (message : String) :
      Passes (.channel (.interrupt message)) (.channel (.interrupt message))
  | mute (asking : Failure) : Passes (.channel (.mute asking)) asking

def Failure.Caught (f : Failure) : Prop := ∀ g, ¬ f.Passes g

/-- The error that reports the failure of the command `c` at `location` in the step `n`. -/
inductive Reports (c : Command) (location : Location) (n : ℕ) : Failure → RuntimeError → Prop where
  | stamped (e : RuntimeError) : Reports c location n (.runtime e)
      { fault := e.fault
        location := some (e.location.getD location)
        command := some (e.command.getD c.spelling)
        step := some n }
  | wrapped {f : Failure} (h : ∀ e, f ≠ .runtime e) (caught : f.Caught) : Reports c location n f
      { fault := .general ("Internal interpreter error: " ++ f.message)
        location := some location
        command := some ['i', 'n', 't', 'e', 'r', 'n', 'a', 'l']
        step := some n }

theorem Reports.fault_eq {c : Command} {location : Location} {n : ℕ} {f : Fault} {e : RuntimeError}
    (h : Reports c location n f.toFailure e) : e.fault = f := by
  cases h with
  | stamped => rfl
  | wrapped other => exact absurd rfl (other _)

theorem Journal.reports_or_passes {j : Journal} {entry : Entry} {c : Command}
    (h : j.entry = .ok (some entry)) (spelt : entry.location.statement = c.spelling) (f : Failure) :
    (∃ e, j.wrap (j.stamp f) = .runtime e ∧ Reports c entry.location entry.step f e) ∨
      f.Passes (j.wrap (j.stamp f)) := by
  cases f with
  | runtime e =>
    refine .inl ⟨_, ?_, .stamped e⟩
    simp only [stamp, h, wrap, spelt]
    cases e.location <;> cases e.command <;> rfl
  | channel cause =>
    cases cause with
    | error message =>
      refine .inl ⟨_, ?_, .wrapped nofun nofun⟩
      simp only [stamp, wrap, h]
      rfl
    | mute asking =>
      refine .inr ?_
      simp only [stamp, wrap, h]
      exact .mute asking
    | interrupt message => exact .inr (.interrupt message)
  | _ =>
    refine .inl ⟨_, ?_, .wrapped nofun nofun⟩
    simp only [stamp, wrap, h]
    rfl

/-- Each command has its place, under its own spelling. -/
def Program.Located (p : Program) : Prop :=
  ∀ (i : ℕ) (c : Command), p.commands[i]? = some c →
    ∃ location, p.locations[i]? = some (some location) ∧ location.statement = c.spelling

theorem located_of_ofTokens {file : String} {ts : List Token} {p : Program}
    (h : Program.ofTokens file ts = .ok p) : p.Located := by
  obtain ⟨jumps, _, rfl⟩ := (ofTokens_eq_ok_iff file ts p).1 h
  intro i c here
  simp only [List.getElem?_toArray, List.getElem?_map, Option.map_eq_some_iff] at here ⊢
  obtain ⟨t, found, rfl⟩ := here
  exact ⟨t.location file, ⟨t, found, rfl⟩, rfl⟩

theorem located_of_parse {l : Language} {file : String} {t : Text} {p : Program}
    (h : Program.parse l file t = .ok p) : p.Located := by
  unfold Program.parse at h
  split at h
  · cases h
  · exact located_of_ofTokens h

theorem Program.location_natCast {p : Program} {i : ℕ} {location : Location}
    (h : p.locations[i]? = some (some location)) : p.location i = .ok location := by
  have inside : i < p.locations.size := (Array.getElem?_eq_some_iff.1 h).1
  rw [Program.location, signedIndex?_natCast inside, Option.bind_some, h]

theorem State.Sound.entry_recorded {cfg : Config} {p : Program} {t : State} {i : ℕ}
    {location : Location} (h : t.Sound cfg p) (index : t.index = i)
    (place : p.locations[i]? = some (some location)) :
    t.recorded.journal.entry = .ok (some ⟨t.journal.count, i, location⟩) := by
  simp [State.recorded, Journal.record, Journal.entry, h.program, index,
    Program.location_natCast place, Except.map]

namespace Session

variable {s : Session} {p : Program} {limit : ℕ} {m : State}

theorem run_of_parse {ending : Option Ending} (h : s.parse = .ok p)
    (ran : (s.machine p).runFor s.config p limit = (ending, m)) :
    s.run limit = ((outcome ending m).mapFailure m.journal.wrap, m.events, s.leave p m) := by
  simp only [run, h, execute, ran]
  rfl

theorem run_of_not_failed {ending : Option Ending} (h : s.parse = .ok p)
    (ran : (s.machine p).runFor s.config p limit = (ending, m))
    (other : ∀ f, ending ≠ some (.failed f)) :
    (s.run limit).1 = .ok ∨ (s.run limit).1 = .stepLimit := by
  rw [run_of_parse h ran]
  match ending with
  | none => exact .inr rfl
  | some .finished => exact .inl rfl
  | some .terminated => exact .inl rfl
  | some .waiting => exact .inr rfl
  | some (.failed f) => exact absurd rfl (other f)

theorem run_of_failsAt {n i : ℕ} {t : State} {c : Command} {f : Failure} (h : s.parse = .ok p)
    (failing : FailsAt s.config p (s.machine p) n i t c f) (hn : n < limit) :
    ∃ location, p.locations[i]? = some (some location) ∧ location.statement = c.spelling ∧
      (s.run limit).2.2.journal.count = n + 1 ∧
      ((∃ e, Reports c location n f e ∧ (s.run limit).1 = .failed (.runtime e)) ∨
        ∃ g, f.Passes g ∧ (s.run limit).1 = .failed g) := by
  have start := State.sound_start s.config p s.input s.sink
  have resolved := resolved_of_parse h
  have sound := start.reaches resolved failing.reached
  have count : t.journal.count = n := by
    rw [start.count_of_reaches resolved failing.reached]
    exact Nat.zero_add n
  obtain ⟨location, place, spelt⟩ := located_of_parse h i c failing.due
  obtain ⟨a, b, ran⟩ := start.runFor_of_failsAt resolved failing hn
  refine ⟨location, place, spelt, ?_, ?_⟩
  · rw [run_of_parse h ran]
    exact congrArg Nat.succ count
  · rw [run_of_parse h ran]
    rcases Journal.reports_or_passes (sound.entry_recorded failing.index place) spelt f with
      ⟨e, reported, reports⟩ | passes
    · exact .inl ⟨e, count ▸ reports, congrArg Outcome.failed reported⟩
    · exact .inr ⟨_, passes, rfl⟩

theorem run_of_caught {n i : ℕ} {t : State} {c : Command} {f : Failure} (h : s.parse = .ok p)
    (failing : FailsAt s.config p (s.machine p) n i t c f) (hn : n < limit) (caught : f.Caught) :
    ∃ location e, p.locations[i]? = some (some location) ∧ location.statement = c.spelling ∧
      Reports c location n f e ∧ (s.run limit).1 = .failed (.runtime e) := by
  obtain ⟨location, place, spelt, _, ⟨e, reports, failed⟩ | ⟨g, passes, _⟩⟩ :=
    run_of_failsAt h failing hn
  · exact ⟨location, e, place, spelt, reports, failed⟩
  · exact absurd passes (caught g)

theorem run_cases (h : s.parse = .ok p) (limit : ℕ) :
    (∃ n i t c f, n < limit ∧ FailsAt s.config p (s.machine p) n i t c f) ∨
    ((s.run limit).1 = .ok ∨ (s.run limit).1 = .stepLimit) ∧
      ∀ n i t c f, n < limit → ¬ FailsAt s.config p (s.machine p) n i t c f := by
  by_cases fails : ∃ n i t c f, n < limit ∧ FailsAt s.config p (s.machine p) n i t c f
  · exact .inl fails
  · refine .inr ⟨?_, fun n i t c f hn failing => fails ⟨n, i, t, c, f, hn, failing⟩⟩
    refine run_of_not_failed h rfl fun f failed => ?_
    have start := State.sound_start s.config p s.input s.sink
    obtain ⟨n, i, t, c, hn, failing⟩ := start.failsAt_of_runFor (resolved_of_parse h) failed
    exact fails ⟨n, i, t, c, f, hn, failing⟩

end Session

/-- A text that is refused is refused before anything happens. Otherwise, if a command fails within the
limit, the run reports it, or does not catch the failure; and if there is none, it returns or goes on. -/
theorem run_reports_failure (s : Session) (limit : ℕ) :
    (∀ e, s.parse = .error e → s.run limit = (.failed (.parse e), #[], s)) ∧
    ∀ p, s.parse = .ok p →
      (∃ n i t c f location, n < limit ∧ FailsAt s.config p (s.machine p) n i t c f ∧
        p.locations[i]? = some (some location) ∧ location.statement = c.spelling ∧
        (s.run limit).2.2.journal.count = n + 1 ∧
        ((∃ e, Reports c location n f e ∧ (s.run limit).1 = .failed (.runtime e)) ∨
          ∃ g, f.Passes g ∧ (s.run limit).1 = .failed g)) ∨
      ((s.run limit).1 = .ok ∨ (s.run limit).1 = .stepLimit) ∧
        ∀ n i t c f, n < limit → ¬ FailsAt s.config p (s.machine p) n i t c f := by
  refine ⟨fun e refused => by rw [Session.run, refused], fun p accepted => ?_⟩
  rcases Session.run_cases accepted limit with ⟨n, i, t, c, f, hn, failing⟩ | other
  · obtain ⟨location, report⟩ := Session.run_of_failsAt accepted failing hn
    exact .inl ⟨n, i, t, c, f, location, hn, failing, report⟩
  · exact .inr other

theorem run_reports_failure_blocked_pipe :
    let blocked : RuntimeError := { fault := .general "blocked", command := some ['p', 'i', 'p', 'e'] }
    let s : Session :=
      { source := Command.printInt.spelling
        file := "pipe"
        config := {}
        language := .standard
        input := .ofText []
        sink := { breaks := .only 0 (.runtime blocked) } }
    (s.run 1).1 = .failed (.runtime
      { fault := .general "blocked"
        location := some ⟨"pipe", .start, Command.printInt.spelling⟩
        command := some ['p', 'i', 'p', 'e']
        step := some 0 }) := by
  intro blocked s
  have accepted : s.parse.toOption.map (fun p => (p.commands, p.locations)) =
      some (#[.printInt], #[some ⟨"pipe", .start, Command.printInt.spelling⟩]) := by
    decide +kernel
  obtain ⟨p, parsed, same⟩ := exists_ok_of_map accepted
  obtain ⟨commands, locations⟩ := Prod.mk.inj same
  rcases (run_reports_failure s 1).2 p parsed with
    ⟨n, i, t, c, f, location, hn, failing, place, _, _, came⟩ | ⟨_, never⟩
  · obtain rfl : n = 0 := by omega
    obtain ⟨reached, index, due, ground⟩ := failing
    cases reached
    obtain rfl : 0 = i := Int.ofNat.inj index
    rw [commands] at due
    rw [locations] at place
    cases due
    cases place
    cases ground with
    | sinkBroke _ broke =>
      cases broke
      rcases came with ⟨e, reports, failed⟩ | ⟨g, passes, _⟩
      · cases reports with
        | stamped => exact failed
        | wrapped other => exact absurd rfl (other _)
      · cases passes
  · refine absurd ⟨.refl _, rfl, ?_, .sinkBroke rfl rfl⟩ (never 0 0 (s.machine p) .printInt
      (.runtime blocked) (by decide))
    rw [commands]
    rfl

/-- A sink that demands to stop, and one that breaks with an error of which nothing can be learned. -/
theorem run_lets_through :
    let on (cause : Breakage) : Session :=
      { source := Command.printInt.spelling
        file := "stop"
        config := {}
        language := .standard
        input := .ofText []
        sink := { breaks := .only 0 (.channel cause) } }
    let interrupted := ((on (.interrupt "stop")).run 1).1
    let unsaid := ((on (.mute (.general "unsaid"))).run 1).1
    interrupted = .failed (.channel (.interrupt "stop")) ∧ unsaid = .failed (.general "unsaid") ∧
      (∀ e, interrupted ≠ .failed (.parse e) ∧ unsaid ≠ .failed (.parse e)) ∧
      ∀ e, interrupted ≠ .failed (.runtime e) ∧ unsaid ≠ .failed (.runtime e) := by
  intro on interrupted unsaid
  have stopped : interrupted = .failed (.channel (.interrupt "stop")) := by decide +kernel
  have asked : unsaid = .failed (.general "unsaid") := by decide +kernel
  rw [stopped, asked]
  exact ⟨rfl, rfl, fun _ => ⟨nofun, nofun⟩, fun _ => ⟨nofun, nofun⟩⟩

end SlangTape
