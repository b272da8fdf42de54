import SlangTape.Proofs.Decomposition
import SlangTape.Proofs.Placement

set_option autoImplicit false

namespace SlangTape

def Location.unplaced (l : Location) : Location := { l with position := .start }

def Program.unplaced (p : Program) : Program :=
  { p with locations := p.locations.map (Option.map Location.unplaced) }

def Entry.unplaced (e : Entry) : Entry := { e with location := e.location.unplaced }

def Journal.unplaced (j : Journal) : Journal := { j with program := j.program.map Program.unplaced }

def RuntimeError.unplaced (e : RuntimeError) : RuntimeError :=
  { e with location := e.location.map Location.unplaced }

def Failure.unplaced : Failure → Failure
  | .runtime e => .runtime e.unplaced
  | .channel (.mute asking) => .channel (.mute asking.unplaced)
  | f => f

def Outcome.unplaced (o : Outcome) : Outcome := o.mapFailure Failure.unplaced

namespace Program

theorem location_unplaced (p : Program) (i : ℤ) :
    p.unplaced.location i = (p.location i).map Location.unplaced := by
  unfold location unplaced
  rw [Array.size_map]
  cases signedIndex? p.locations.size i with
  | none => rfl
  | some k =>
    simp only [Option.bind_some, Array.getElem?_map]
    rcases p.locations[k]? with _ | _ | l <;> rfl

theorem unplaced_of_location_error {p : Program} {i : ℤ} {f : Failure} (h : p.location i = .error f) :
    f.unplaced = f := by
  unfold location at h
  split at h <;> cases h <;> rfl

end Program

namespace Journal

theorem entry_unplaced (j : Journal) :
    j.unplaced.entry = j.entry.map (Option.map Entry.unplaced) := by
  obtain ⟨program, count, last⟩ := j
  rcases program with _ | p <;> rcases last with _ | i
  · rfl
  · rfl
  · rfl
  · simp only [entry, unplaced, Option.map_some, Program.location_unplaced]
    cases p.location i <;> rfl

theorem unplaced_of_entry_error {j : Journal} {f : Failure} (h : j.entry = .error f) :
    f.unplaced = f := by
  unfold entry at h
  split at h
  case h_1 p i _ _ =>
    cases place : p.location i with
    | error g =>
      rw [place] at h
      cases h
      exact Program.unplaced_of_location_error place
    | ok l =>
      rw [place] at h
      cases h
  case h_2 => cases h

theorem stamp_unplaced (j : Journal) (f : Failure) :
    j.unplaced.stamp f.unplaced = (j.stamp f).unplaced := by
  cases f with
  | runtime e =>
    simp only [stamp, Failure.unplaced, entry_unplaced]
    cases found : j.entry with
    | error f => exact (unplaced_of_entry_error found).symm
    | ok entry =>
      cases entry with
      | none => rfl
      | some entry =>
        obtain ⟨fault, location, command, step⟩ := e
        cases location <;> rfl
  | channel cause => cases cause <;> rfl
  | _ => rfl

theorem wrap_unplaced (j : Journal) (f : Failure) :
    j.unplaced.wrap f.unplaced = (j.wrap f).unplaced := by
  cases f with
  | runtime e => rfl
  | channel cause =>
    cases cause with
    | interrupt message => rfl
    | _ =>
      simp only [wrap, Failure.unplaced, entry_unplaced]
      cases found : j.entry with
      | error f => exact (unplaced_of_entry_error found).symm
      | ok entry => cases entry <;> rfl
  | _ =>
    simp only [wrap, Failure.unplaced, entry_unplaced]
    cases found : j.entry with
    | error f => exact (unplaced_of_entry_error found).symm
    | ok entry => cases entry <;> rfl

end Journal

theorem State.index_placed_zero (r : Program) (m past : State) : (m.placed r 0 past).index = m.index :=
  Int.add_zero m.index

/-- The programs have the same commands and jumps, whatever their places are. -/
structure Program.SameCode (p q : Program) : Prop where
  commands : q.commands = p.commands
  jumps : q.jumps = p.jumps

namespace Program.SameCode

variable {cfg : Config} {p q : Program}

theorem refl (p : Program) : p.SameCode p := ⟨rfl, rfl⟩

theorem of_unplaced (h : q.unplaced = p.unplaced) : p.SameCode q where
  commands := (Program.mk.inj h).1
  jumps := (Program.mk.inj h).2.2

theorem fetch_placed (same : p.SameCode q) (past m : State) :
    q.fetch (m.placed q 0 past).index = p.fetch m.index := by
  rw [State.index_placed_zero, Program.fetch, Program.fetch, Program.size, Program.size,
    same.commands]

theorem jump_placed (same : p.SameCode q) (past m : State) :
    (m.placed q 0 past).jump q = (m.jump p).placed q 0 past := by
  rw [State.jump, State.jump, State.index_placed_zero, same.jumps]
  cases p.jumps[m.index]? with
  | none => rfl
  | some t => simp [Step.placed, State.placed]

theorem step_placed (same : p.SameCode q) (past m : State) :
    (m.placed q 0 past).step cfg q = (m.step cfg p).placed q 0 past := by
  rw [State.step, State.step, same.fetch_placed]
  cases p.fetch m.index with
  | error f => rfl
  | ok due =>
    cases due with
    | none => rfl
    | some c =>
      exact State.perform_placed (m := m.recorded) (Nat.succ_pos _) fun _ =>
        same.jump_placed past m.recorded

theorem runFor_placed (same : p.SameCode q) (past m : State) (k : ℕ) :
    (m.placed q 0 past).runFor cfg q k =
      ((m.runFor cfg p k).1, (m.runFor cfg p k).2.placed q 0 past) := by
  induction k generalizing m with
  | zero =>
    rw [State.runFor, State.runFor, same.fetch_placed]
    cases p.fetch m.index with
    | error f => rfl
    | ok due => cases due <;> rfl
  | succ k ih =>
    rw [State.runFor, State.runFor, same.step_placed]
    cases m.step cfg p with
    | halt e u => rfl
    | next u => exact ih u

theorem traceFor_placed (same : p.SameCode q) (past m : State) (k : ℕ) (seen : Array Observation) :
    (m.placed q 0 past).traceFor cfg q k seen = m.traceFor cfg p k seen := by
  induction k generalizing m seen with
  | zero => rfl
  | succ k ih =>
    have observed : (m.placed q 0 past).observed = m.observed := by
      simp [State.observed, State.placed]
    have fetched := same.fetch_placed past m
    have placed : (m.placed q 0 past).step cfg q = _ := same.step_placed past m
    cases stepped : m.step cfg p with
    | next u =>
      rw [stepped] at placed
      rw [State.traceFor_of_next placed, State.traceFor_of_next stepped, observed]
      exact ih u _
    | halt e u =>
      rw [stepped] at placed
      rw [State.traceFor_of_last placed, State.traceFor_of_last stepped, fetched, observed]

end Program.SameCode

namespace Session

variable {p q : Program}

theorem runFor_of_sameCode (same : p.SameCode q) (s : Session) (k : ℕ) :
    (s.machine q).runFor s.config q k =
      (((s.machine p).runFor s.config p k).1,
        { ((s.machine p).runFor s.config p k).2 with journal.program := some q }) := by
  have ran : ((s.machine p).placed q 0 (s.machine p)).runFor s.config q k = _ :=
    same.runFor_placed _ _ k
  rwa [machine, State.placed_start, State.placed_start] at ran

theorem trace_of_sameCode (same : p.SameCode q) (s : Session) (k : ℕ) : s.trace k q = s.trace k p := by
  have traced : ((s.machine p).placed q 0 (s.machine p)).traceFor s.config q k #[] = _ :=
    same.traceFor_placed _ _ k #[]
  rwa [machine, State.placed_start] at traced

theorem program_runFor (s : Session) (p : Program) (k : ℕ) :
    ((s.machine p).runFor s.config p k).2.journal.program = some p :=
  congrArg (fun ran => ran.2.journal.program) (s.runFor_of_sameCode (.refl p) k)

end Session

section Rendered

variable {table : List Row} {l : Language} {cs : List Command} {t : Text}

theorem exists_tokens_of_renders (checked : Language.ofTable table = .ok l)
    (rendered : Renders table cs t) (file : String) :
    ∃ ts, Program.parse l file t = Program.ofTokens file ts ∧ ts.map Token.command = cs := by
  obtain ⟨ps, cut, rfl⟩ := rendered.decomposes
  have tokens : l.tokenize file t = .ok (Piece.tokens .start ps) :=
    (Language.built_of_ofTable checked).tokens_of_decomposes (s := .start t) file cut
  exact ⟨_, by rw [Program.parse, tokens], Piece.map_command_tokens .start ps⟩

theorem parse_of_renders {jumps : Jumps} (checked : Language.ofTable table = .ok l)
    (rendered : Renders table cs t) (file : String) (found : Jumps.ofCommands cs = .ok jumps) :
    ∃ p, Program.parse l file t = .ok p ∧ p.unplaced =
      { commands := cs.toArray
        locations := (cs.map fun c => some ⟨file, .start, c.spelling⟩).toArray
        jumps } := by
  obtain ⟨ts, parsed, rfl⟩ := exists_tokens_of_renders checked rendered file
  refine ⟨_, parsed.trans ((ofTokens_eq_ok_iff file ts _).2 ⟨jumps, found, rfl⟩), ?_⟩
  simp [Program.unplaced, Token.location, Location.unplaced, Function.comp_def]

theorem refused_of_renders {u : Unmatched} (checked : Language.ofTable table = .ok l)
    (rendered : Renders table cs t) (file : String) (refused : Jumps.ofCommands cs = .error u) :
    ∃ place, Program.parse l file t = .error (.unmatchedLoop u.kind u.index place) ∧
      place.unplaced = ⟨file, .start, u.kind.spelling⟩ := by
  obtain ⟨ts, parsed, rfl⟩ := exists_tokens_of_renders checked rendered file
  refine ⟨⟨file, (ts[u.index]?.map Token.position).getD .start, u.kind.spelling⟩, ?_, rfl⟩
  rw [parsed, Program.ofTokens, refused]

end Rendered

namespace Session

def rephrased (s : Session) (l : Language) (t : Text) : Session :=
  { s with source := t, language := l }

theorem unplaced_outcome (ending : Option Ending) (m : State) :
    ((outcome ending m).mapFailure m.journal.wrap).unplaced =
      (Outcome.ofEnding ending).mapFailure fun f =>
        m.journal.unplaced.wrap (m.journal.unplaced.stamp f.unplaced) := by
  rcases ending with _ | _ | _ | f | _
  · rfl
  · rfl
  · rfl
  · simp only [Outcome.ofEnding, Outcome.mapFailure, Journal.stamp_unplaced, Journal.wrap_unplaced]
    rfl
  · rfl

theorem run_rephrased {s : Session} {l' : Language} {t' : Text} {p p' : Program}
    (parsed : s.parse = .ok p) (parsed' : (s.rephrased l' t').parse = .ok p')
    (same : p'.unplaced = p.unplaced) (limit : ℕ) :
    ((s.rephrased l' t').run limit).1.unplaced = (s.run limit).1.unplaced ∧
    ((s.rephrased l' t').run limit).2.1 = (s.run limit).2.1 ∧
    ((s.rephrased l' t').run limit).2.2 =
      { (s.run limit).2.2.rephrased l' t' with program := some p', journal.program := some p' } := by
  have ran := s.runFor_of_sameCode (.of_unplaced same) limit
  generalize left : (s.machine p).runFor s.config p limit = r at ran
  have program : r.2.journal.program = some p := by
    rw [← left]
    exact s.program_runFor p limit
  have journal : { r.2.journal with program := some p' }.unplaced = r.2.journal.unplaced := by
    simp only [Journal.unplaced, program, Option.map_some, same]
  rw [run_of_parse parsed left, run_of_parse parsed' ran]
  refine ⟨?_, rfl, rfl⟩
  rw [unplaced_outcome, unplaced_outcome, journal]

end Session

/-- Two texts that render the same commands, in the languages of whatever checked tables and with
whatever separators, lack the same partner of a loop or skip, or have the same commands and jumps. In
the latter case their runs cannot be told apart but by the lines and columns of places. -/
theorem run_layout {table table' : List Row} {cs : List Command} {l' : Language} {t' : Text}
    (s : Session) (checked : Language.ofTable table = .ok s.language)
    (checked' : Language.ofTable table' = .ok l') (rendered : Renders table cs s.source)
    (rendered' : Renders table' cs t') :
    let s' := s.rephrased l' t'
    (∃ kind index place place', s.parse = .error (.unmatchedLoop kind index place) ∧
      s'.parse = .error (.unmatchedLoop kind index place') ∧ place'.unplaced = place.unplaced) ∨
    ∃ p p', s.parse = .ok p ∧ s'.parse = .ok p' ∧ p.commands.toList = cs ∧ p.SameCode p' ∧
      p'.unplaced = p.unplaced ∧
      ∀ limit,
        s'.trace limit p' = s.trace limit p ∧
        ((s'.machine p').runFor s.config p' limit).1 = ((s.machine p).runFor s.config p limit).1 ∧
        (s'.run limit).1.unplaced = (s.run limit).1.unplaced ∧
        (s'.run limit).2.1 = (s.run limit).2.1 ∧
        (s'.run limit).2.2 = { (s.run limit).2.2.rephrased l' t' with
          program := some p'
          journal.program := some p' } := by
  intro s'
  cases matched : Jumps.ofCommands cs with
  | error u =>
    obtain ⟨place, refused, unplaced⟩ := refused_of_renders checked rendered s.file matched
    obtain ⟨place', refused', unplaced'⟩ := refused_of_renders checked' rendered' s.file matched
    exact .inl ⟨u.kind, u.index, place, place', refused, refused', unplaced'.trans unplaced.symm⟩
  | ok jumps =>
    obtain ⟨p, parsed, unplaced⟩ := parse_of_renders checked rendered s.file matched
    obtain ⟨p', parsed', unplaced'⟩ := parse_of_renders checked' rendered' s.file matched
    have same : p'.unplaced = p.unplaced := unplaced'.trans unplaced.symm
    have code : p.SameCode p' := .of_unplaced same
    have commands : p.commands = cs.toArray := (Program.mk.inj unplaced).1
    refine .inr ⟨p, p', parsed, parsed', by rw [commands], code, same, fun limit => ?_⟩
    have ending : ((s'.machine p').runFor s.config p' limit).1 = _ :=
      congrArg Prod.fst (s.runFor_of_sameCode code limit)
    exact ⟨s.trace_of_sameCode code limit, ending, Session.run_rephrased parsed parsed' same limit⟩

theorem run_layout_underflow :
    let table' : List Row :=
      [⟨['('], .loopStart⟩, ⟨['d', 'o'], .loopStart⟩, ⟨[')'], .loopEnd⟩, ⟨['<'], .moveLeft⟩]
    let s : Session :=
      { source := Command.loopStart.spelling ++ ([' '] ++ Command.loopEnd.spelling ++
          ([' '] ++ Command.moveLeft.spelling ++ []))
        file := "layout"
        config := {}
        language := .standard
        input := .ofText [] }
    ∃ l', Language.ofTable table' = .ok l' ∧
      let s' := s.rephrased l' ['d', 'o', ')', '\n', '<']
      (s'.run 2).1.unplaced = (s.run 2).1.unplaced ∧
      (s'.run 2).1 = .failed (.runtime
        { fault := .tapeUnderflow
          location := some ⟨"layout", ⟨2, 1⟩, Command.moveLeft.spelling⟩
          command := some Command.moveLeft.spelling
          step := some 1 }) := by
  intro table' s
  have checked' : Language.ofTable table' = .ok _ := rfl
  refine ⟨_, checked', ?_, by decide +kernel⟩
  have known (c : Command) : (⟨c.spelling, c⟩ : Row) ∈ Language.standardTable :=
    List.mem_map_of_mem c.mem_all
  have rendered : Renders Language.standardTable [.loopStart, .loopEnd, .moveLeft] s.source := by
    refine @Renders.cons _ [] _ _ _ (by simp) (known .loopStart) ?_
    refine .cons (by simp [blanks]) (known .loopEnd) ?_
    exact .cons (by simp [blanks]) (known .moveLeft) (.nil (by simp))
  have rendered' : Renders table' [.loopStart, .loopEnd, .moveLeft] ['d', 'o', ')', '\n', '<'] := by
    refine @Renders.cons _ [] _ ⟨['d', 'o'], .loopStart⟩ _ (by simp) (by simp [table']) ?_
    refine @Renders.cons _ [] _ ⟨[')'], .loopEnd⟩ _ (by simp) (by simp [table']) ?_
    exact @Renders.cons _ ['\n'] [] ⟨['<'], .moveLeft⟩ _ (by simp [blanks]) (by simp [table'])
      (.nil (by simp))
  rcases run_layout s Language.ofTable_standardTable checked' rendered rendered' with
    ⟨_, _, _, _, refused, _⟩ | ⟨_, _, _, _, _, _, _, runs⟩
  · have accepted : s.parse.isOk = true := by decide +kernel
    rw [refused] at accepted
    cases accepted
  · exact (runs 2).2.2.1

end SlangTape
