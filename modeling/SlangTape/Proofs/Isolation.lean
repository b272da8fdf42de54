import SlangTape.Proofs.Reporting
import SlangTape.Proofs.SameAnswers

set_option autoImplicit false

namespace SlangTape

namespace Session

def after (s : Session) (history : List Action) : Session :=
  history.foldl (fun s a => (s.act a).2) s

structure SameSetup (s s' : Session) : Prop where
  file : s'.file = s.file
  config : s'.config = s.config
  language : s'.language = s.language

theorem sameSetup_act (s : Session) (a : Action) : s.SameSetup (s.act a).2 := by
  cases a with
  | run limit =>
    simp only [act, run]
    split <;> exact ⟨rfl, rfl, rfl⟩
  | _ => exact ⟨rfl, rfl, rfl⟩

theorem sameSetup_after (s : Session) (history : List Action) : s.SameSetup (s.after history) := by
  induction history generalizing s with
  | nil => exact ⟨rfl, rfl, rfl⟩
  | cons a history ih =>
    have first := s.sameSetup_act a
    have later := ih (s.act a).2
    exact ⟨later.file.trans first.file, later.config.trans first.config,
      later.language.trans first.language⟩

theorem run_of_refused {s : Session} {e : ParseError} (h : s.parse = .error e) (limit : ℕ) :
    s.run limit = (.failed (.parse e), #[], s) := by
  rw [run, h]

section Fresh

variable {s s' : Session} {p : Program}

theorem parse_eq (setup : s.SameSetup s') (source : s'.source = s.source) : s'.parse = s.parse := by
  rw [parse, parse, setup.file, setup.language, source]

theorem twins_machine (setup : s.SameSetup s') (input : s.input.Matches s'.input)
    (sink : s.sink.Matches s'.sink) : (s.machine p).Twins (s'.machine p) := by
  have same : s'.machine p = { s.machine p with input := s'.input, sink := s'.sink } := by
    rw [machine, machine, setup.config]
    rfl
  rw [same]
  exact .intro input sink

/-- What comes of running an accepted source depends on the source, on how the session was set up and
on what the channels will answer. -/
theorem run_eq_of_accepted (setup : s.SameSetup s') (source : s'.source = s.source)
    (input : s.input.Matches s'.input) (sink : s.sink.Matches s'.sink) (accepted : s.parse = .ok p)
    (limit : ℕ) :
    ∃ o events m m', m.Twins m' ∧ s.run limit = (o, events, s.leave p m) ∧
      s'.run limit = (o, events, s'.leave p m') := by
  have accepted' : s'.parse = .ok p := (parse_eq setup source).trans accepted
  have machines : (s.machine p).Twins (s'.machine p) := twins_machine setup input sink
  obtain ⟨ending, twins⟩ :
      ((s.machine p).runFor s.config p limit).1 = ((s'.machine p).runFor s'.config p limit).1 ∧
        ((s.machine p).runFor s.config p limit).2.Twins
          ((s'.machine p).runFor s'.config p limit).2 := by
    rw [setup.config]
    exact machines.runFor limit
  rcases ran : (s.machine p).runFor s.config p limit with ⟨e, m⟩
  rcases ran' : (s'.machine p).runFor s'.config p limit with ⟨e', m'⟩
  rw [ran, ran'] at ending twins
  obtain rfl : e = e' := ending
  have twins : m.Twins m' := twins
  refine ⟨_, _, m, m', twins, run_of_parse accepted ran, ?_⟩
  obtain ⟨hi, hk⟩ := twins
  exact run_of_parse accepted' ran'

end Fresh

end Session

/-- Whatever was done in a session before, a run has the outcome and the printed texts that it would
have in a new session with the same source on channels that go on alike. If the source is accepted, its
steps are the same too, and so is what it leaves: the tape, the clipboard and the journal. A source that
is refused leaves the session as it is, and so do parsing, looking at a cell and reporting an error. -/
theorem run_isolated (s₀ : Session) (history : List Session.Action) :
    let s := s₀.after history
    (∀ (input : Input) (sink : Sink), s.input.Matches input → s.sink.Matches sink → ∀ limit,
      let fresh : Session :=
        { source := s.source
          file := s₀.file
          config := s₀.config
          language := s₀.language
          input
          sink }
      (s.run limit).1 = (fresh.run limit).1 ∧ (s.run limit).2.1 = (fresh.run limit).2.1 ∧
      ∀ p, s.parse = .ok p →
        s.trace limit p = fresh.trace limit p ∧
        (s.run limit).2.2.tape = (fresh.run limit).2.2.tape ∧
        (s.run limit).2.2.clipboard = (fresh.run limit).2.2.clipboard ∧
        (s.run limit).2.2.journal = (fresh.run limit).2.2.journal) ∧
    (∀ limit e, s.parse = .error e → (s.act (.run limit)).2 = s) ∧
    (s.act .parse).2 = s ∧ (∀ i, (s.act (.look i)).2 = s) ∧ ∀ e, (s.act (.report e)).2 = s := by
  intro s
  refine ⟨fun input sink hi hk limit => ?_, fun limit e refused => ?_, rfl, fun i => rfl, fun e => rfl⟩
  · intro fresh
    have kept := s₀.sameSetup_after history
    have setup : s.SameSetup fresh := ⟨kept.file.symm, kept.config.symm, kept.language.symm⟩
    have source : fresh.source = s.source := rfl
    cases parsed : s.parse with
    | error e =>
      have refused : fresh.parse = .error e := (Session.parse_eq setup source).trans parsed
      rw [Session.run_of_refused parsed, Session.run_of_refused refused]
      exact ⟨rfl, rfl, nofun⟩
    | ok p =>
      obtain ⟨o, events, m, m', twins, ran, ran'⟩ :=
        Session.run_eq_of_accepted setup source hi hk parsed limit
      rw [ran, ran']
      refine ⟨rfl, rfl, fun q same => ?_⟩
      cases same
      have machines : (s.machine p).Twins (fresh.machine p) := Session.twins_machine setup hi hk
      refine ⟨?_, ?_⟩
      · rw [Session.trace, Session.trace, setup.config]
        exact machines.traceFor limit #[]
      · obtain ⟨_, _⟩ := twins
        exact ⟨rfl, rfl, rfl⟩
  · rw [Session.act, Session.run_of_refused refused]

theorem run_isolated_held_clipboard :
    let before : Session :=
      { source := []
        file := "again"
        config := {}
        language := .standard
        input := .ofText ['7', '8'] }
    let s := before.after
      [.execute 3 ⟨#[.increment, .copyPaste, .readChar], #[], {}⟩,
        .replaceSource (Command.copyPaste.spelling ++ Command.readInt.spelling)]
    let fresh : Session :=
      { before with
        source := s.source
        input :=
          { answers := s.input.answers
            later := fun n => s.input.later (s.input.calls + n)
            breaks := fun n => s.input.breaks (s.input.calls + n) }
        sink := { breaks := fun n => s.sink.breaks (s.sink.calls + n) } }
    s.clipboard = some 1 ∧ s.tape.cell 0 = 55 ∧ s.input.calls = 1 ∧ fresh.clipboard = none ∧
      ∀ limit, (s.run limit).1 = (fresh.run limit).1 ∧
        (s.run limit).2.1 = (fresh.run limit).2.1 := by
  intro before s fresh
  have input : s.input.Matches fresh.input := fun n => by
    simp [fresh, Input.reply, Breaks.answer]
  have sink : s.sink.Matches fresh.sink := fun n => by
    simp [fresh]
  refine ⟨by decide +kernel, by decide +kernel, by decide +kernel, rfl, fun limit => ?_⟩
  obtain ⟨outcome, printed, _⟩ := (run_isolated before _).1 fresh.input fresh.sink input sink limit
  exact ⟨outcome, printed⟩

end SlangTape
