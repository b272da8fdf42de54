import SlangTape.Proofs.InputWords
import SlangTape.Proofs.Reporting

set_option autoImplicit false

namespace SlangTape

/-- No later call of a channel breaks, and input comes one character at a time. -/
structure State.Calm (m : State) : Prop where
  input : ∀ n, m.input.calls ≤ n → m.input.breaks n = none
  answers : ∀ n t, m.input.reply n = .ok t → t.length ≤ 1
  sink : ∀ n, m.sink.calls ≤ n → m.sink.breaks n = none

namespace State.Calm

variable {cfg : Config} {p : Program} {m : State} {c : Command}

theorem spent (h : m.Calm) (n k : ℕ) : (m.spent n k).Calm where
  input x hx := h.input x (Nat.le_of_add_right_le hx)
  answers x t given := h.answers (n + x) t (m.input.reply_after n x ▸ given)
  sink x hx := h.sink x (Nat.le_of_add_right_le hx)

theorem congr {m' : State} (h : m.Calm) (input : m'.input = m.input) (sink : m'.sink = m.sink) :
    m'.Calm :=
  ⟨input ▸ h.input, input ▸ h.answers, sink ▸ h.sink⟩

theorem perform {r : Step} (h : m.Calm) (performs : Performs cfg p m c r) : r.state.Calm := by
  cases performs with
  | prints => exact (h.spent 0 1).congr rfl rfl
  | @reads _ _ n => exact (h.spent n 0).congr rfl rfl
  | fails a b => exact h.spent a b
  | _ => exact h.congr rfl rfl

theorem reaches {n : ℕ} {t : State} (h : m.Calm) (sound : m.Sound cfg p) (resolved : p.Resolved)
    (reached : Reaches cfg p m n t) : t.Calm := by
  induction reached with
  | refl => exact h
  | @next s _ _ _ stepped _ ih =>
    obtain ⟨c, due, performed⟩ := State.step_eq_next stepped
    have recorded : s.recorded.Calm := h.congr rfl rfl
    obtain ⟨outcome, later⟩ := sound.performs resolved due
    have after := recorded.perform outcome
    rw [performed] at after later
    exact ih after later

theorem length_of_readChar {t : Text} (h : m.Calm) (read : m.input.readChar.1 = .ok (some t)) :
    t.length = 1 := by
  rw [Input.readChar_eq] at read
  cases given : m.input.reply 0 with
  | error f =>
    rw [given] at read
    cases read
  | ok u =>
    have short := h.answers 0 u given
    simp only [given, Except.map, Input.nonempty?, Except.ok.injEq] at read
    split at read
    · cases read
    · next nonempty =>
      cases read
      have long := List.length_pos_iff.2 nonempty
      omega

theorem fails {f : Failure} (h : m.Calm) (ground : Fails m c f) :
    f = Fault.tapeUnderflow.toFailure ∨ (∃ w, f = (Fault.malformedInteger w).toFailure) ∨
    (State.character? m.current = none ∧ f = (Fault.unprintableCharacter m.current).toFailure) ∨
    ∃ w d i, c = .readInt ∧ m.input.readToken? = some (.ok (some w), i) ∧
      Numeral.ofText? w = some d ∧ Failure.maxDigits < d.digits.length ∧
      f = .tooManyDigits d.digits.length := by
  cases ground with
  | underflow => exact .inl rfl
  | unprintable unknown => exact .inr (.inr (.inl ⟨unknown, rfl⟩))
  | sinkBroke _ broke =>
    rw [h.sink _ (Nat.le_refl _)] at broke
    cases broke
  | charUnread broke =>
    rw [h.input _ (Nat.le_refl _)] at broke
    cases broke
  | notOneCharacter read length => exact absurd (h.length_of_readChar read) length
  | tokenUnread _ broke =>
    rw [h.input _ (Nat.le_add_right _ _)] at broke
    cases broke
  | malformed => exact .inr (.inl ⟨_, rfl⟩)
  | tooManyDigits word numeral long =>
    exact .inr (.inr (.inr ⟨_, _, _, rfl, word, numeral, long, rfl⟩))

theorem caught {f : Failure} (h : m.Calm) (ground : Fails m c f) : f.Caught := by
  rcases h.fails ground with rfl | ⟨_, rfl⟩ | ⟨_, rfl⟩ | ⟨_, _, _, _, _, _, _, rfl⟩ <;> nofun

end State.Calm

/-- Within `k` steps an integer is to be read from a numeral that has too many digits. -/
def MeetsLongNumeral (cfg : Config) (p : Program) (s : State) (k : ℕ) : Prop :=
  ∃ (n i : ℕ) (t : State) (w : Text) (d : Numeral) (past : Input), n < k ∧ Reaches cfg p s n t ∧
    t.index = i ∧ p.commands[i]? = some .readInt ∧ t.input.readToken? = some (.ok (some w), past) ∧
    Numeral.ofText? w = some d ∧ Failure.maxDigits < d.digits.length

theorem character?_of_bits8 {v : ℕ} (h : v < Width.bits8.capacity) :
    State.character? v ≠ none := by
  have small : v < 256 := h
  simp only [State.character?]
  rw [if_pos (by omega)]
  nofun

namespace Session

variable {s : Session} {p : Program} {k : ℕ}

theorem run_of_meetsLongNumeral (h : s.parse = .ok p)
    (meets : MeetsLongNumeral s.config p (s.machine p) k) :
    ∃ e d, (s.run k).1 = .failed (.runtime e) ∧
      e.fault = .general ("Internal interpreter error: " ++ (Failure.tooManyDigits d).message) := by
  obtain ⟨n, i, t, w, d, _, hn, reached, index, due, word, numeral, long⟩ := meets
  have failing : FailsAt s.config p (s.machine p) n i t .readInt _ :=
    ⟨reached, index, due, .tooManyDigits word numeral long⟩
  obtain ⟨_, e, _, _, reports, failed⟩ := run_of_caught h failing hn nofun
  cases reports
  exact ⟨_, _, failed, rfl⟩

theorem run_of_calm (h : s.parse = .ok p) (calm : (s.machine p).Calm)
    (short : ¬ MeetsLongNumeral s.config p (s.machine p) k) :
    (s.run k).1 = .ok ∨ (s.run k).1 = .stepLimit ∨ ∃ e, (s.run k).1 = .failed (.runtime e) ∧
      (e.fault = .tapeUnderflow ∨ (∃ w, e.fault = .malformedInteger w) ∨
        ∃ v, e.fault = .unprintableCharacter v ∧ s.config.width ≠ .bits8) := by
  have start := State.sound_start s.config p s.input s.sink
  have resolved := resolved_of_parse h
  rcases run_cases h k with ⟨n, i, t, c, f, hn, failing⟩ | ⟨ok | limit, _⟩
  · have sound := start.reaches resolved failing.reached
    have calm := calm.reaches start resolved failing.reached
    obtain ⟨_, e, _, _, reports, failed⟩ := run_of_caught h failing hn (calm.caught failing.ground)
    refine .inr (.inr ⟨e, failed, ?_⟩)
    rcases calm.fails failing.ground with
      rfl | ⟨w, rfl⟩ | ⟨unknown, rfl⟩ | ⟨w, d, past, rfl, word, numeral, long, _⟩
    · exact .inl reports.fault_eq
    · exact .inr (.inl ⟨w, reports.fault_eq⟩)
    · refine .inr (.inr ⟨_, reports.fault_eq, fun narrow => character?_of_bits8 ?_ unknown⟩)
      exact narrow ▸ sound.tape.cells _
    · exact absurd ⟨n, i, t, w, d, past, hn, failing.reached, failing.index, failing.due, word,
        numeral, long⟩ short
  · exact .inl ok
  · exact .inr (.inl limit)

end Session

/-- In all states of a run of an accepted source the instruction index, the cursor, the cells, the
clipboard and the jumps are in order. With channels that hold, the run can only fail as the language
foresees, unless it meets a numeral that is too long. -/
theorem run_safe (s : Session) (p : Program) (h : s.parse = .ok p)
    (unbroken : ∀ n, s.input.calls ≤ n → s.input.breaks n = none)
    (single : ∀ n t, s.input.reply n = .ok t → t.length ≤ 1)
    (unblocked : ∀ n, s.sink.calls ≤ n → s.sink.breaks n = none) (k : ℕ) :
    let m := ((s.machine p).runFor s.config p k).2
    (0 ≤ m.index ∧ m.index ≤ p.size) ∧
    m.tape.cursor < m.tape.size ∧
    (∃ j, m.tape.size = 1024 * 2 ^ j) ∧
    (∀ i, m.tape.cell i < 2 ^ s.config.width.bits) ∧
    (∀ v, m.clipboard = some v → v < 2 ^ s.config.width.bits) ∧
    (∀ c, p.fetch m.index = .ok (some c) → c.JumpsAt m.current →
      ∃ t, p.jumps[m.index]? = some t) ∧
    (MeetsLongNumeral s.config p (s.machine p) k → ∃ e d, (s.run k).1 = .failed (.runtime e) ∧
      e.fault = .general ("Internal interpreter error: " ++ (Failure.tooManyDigits d).message)) ∧
    (¬ MeetsLongNumeral s.config p (s.machine p) k →
      (s.run k).1 = .ok ∨ (s.run k).1 = .stepLimit ∨ ∃ e, (s.run k).1 = .failed (.runtime e) ∧
        (e.fault = .tapeUnderflow ∨ (∃ w, e.fault = .malformedInteger w) ∨
          ∃ v, e.fault = .unprintableCharacter v ∧ s.config.width ≠ .bits8)) := by
  intro m
  have start := State.sound_start s.config p s.input s.sink
  have resolved := resolved_of_parse h
  have sound : m.Sound s.config p := start.runFor resolved k
  refine ⟨sound.index, sound.tape.inside, sound.tape.size, sound.tape.cells, sound.clipboard,
    fun c due taken => ?_, Session.run_of_meetsLongNumeral h,
    Session.run_of_calm h ⟨unbroken, single, unblocked⟩⟩
  obtain ⟨i, index, _⟩ := sound.exists_index
  rw [index, fetch_natCast] at due
  obtain ⟨t, found, _⟩ := resolved.exists_target (Except.ok.inj due) taken
  exact ⟨t, index ▸ found⟩

theorem run_safe_echo :
    let s : Session :=
      { source := Command.readInt.spelling ++ Command.loopStart.spelling ++
          Command.printInt.spelling ++ [' '] ++ Command.moveRight.spelling ++
          Command.readInt.spelling ++ Command.loopEnd.spelling
        file := "echo"
        config := {}
        language := .standard
        input := .ofText ['7', ' ', '-', '1'] }
    ∃ p, s.parse = .ok p ∧ ∀ k,
      let m := ((s.machine p).runFor s.config p k).2
      (0 ≤ m.index ∧ m.index ≤ p.size) ∧ m.tape.cursor < m.tape.size ∧
        (∀ i, m.tape.cell i < 2 ^ s.config.width.bits) ∧
        ∀ c, p.fetch m.index = .ok (some c) → c.JumpsAt m.current →
          ∃ t, p.jumps[m.index]? = some t := by
  intro s
  have accepted : s.parse.toOption.map Program.size = some 6 := by decide +kernel
  obtain ⟨p, parsed, _⟩ := exists_ok_of_map accepted
  refine ⟨p, parsed, fun k => ?_⟩
  obtain ⟨index, inside, _, cells, _, jumps, _⟩ :=
    run_safe s p parsed (fun _ _ => rfl) (fun _ _ => (Input.feeds_ofText _).length_le)
      (fun _ _ => rfl) k
  exact ⟨index, inside, cells, jumps⟩

end SlangTape
