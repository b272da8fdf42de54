import Mathlib.Data.Int.Notation
import SlangTape.Machine
import SlangTape.Proofs.Reading

set_option autoImplicit false

/-!
# What a command can do

`Performs` says once what can come of a command that has been entered in the journal, and `Fails`
on what grounds it can fail: the machine's own rules, or a channel that breaks. Both suppose what an
accepted program guarantees: the cursor is at a stored cell and a jump that is taken has its entry in
the table.
-/
namespace SlangTape

/-- Whether a command jumps at a cell of the value `v`. -/
def Command.JumpsAt (v : ℕ) : Command → Prop
  | .loopStart => v = 0
  | .loopEnd => v ≠ 0
  | .skip => True
  | _ => False

/-- What a command of arithmetic makes of a cell of the value `v`. -/
def Command.result? (v : ℕ) : Command → Option ℤ
  | .increment => some (v + 1)
  | .decrement => some (v + -1)
  | .incrementTwo => some (v + 2)
  | .decrementTwo => some (v + -2)
  | .zero => some 0
  | _ => none

namespace Input

def readPoint (i : Input) : Except Failure (Option ℤ) × Input :=
  match i.readChar with
  | (.error f, i') => (.error f, i')
  | (.ok none, i') => (.ok none, i')
  | (.ok (some t), i') => ((State.codePoint t).map some, i')

def pointOf : Except Failure (Option Text) → Except Failure (Option ℤ)
  | .error f => .error f
  | .ok none => .ok none
  | .ok (some t) => (State.codePoint t).map some

theorem causal_readPoint : Causal fun i => some i.readPoint := by
  refine causal_readChar.result pointOf fun i => congrArg some ?_
  unfold readPoint
  rcases i.readChar with ⟨f | _ | t, i'⟩ <;> rfl

end Input

namespace State

variable {cfg : Config} {p : Program} {s : State} {c : Command}

def current (s : State) : ℕ := s.tape.cell s.tape.cursor

def text? (s : State) : Command → Option Text
  | .printChar => (character? s.current).map fun ch => [ch]
  | .printInt => some (decimal s.current)
  | _ => none

def received? (s : State) : Command → Option (Except Failure (Option ℤ) × Input)
  | .readChar => some s.input.readPoint
  | .readInt => s.input.readInt?
  | _ => none

/-- After `n` calls for input and `k` calls to the sink that brought about nothing else. -/
def spent (s : State) (n k : ℕ) : State :=
  { s with input := s.input.after n, sink := { s.sink with calls := s.sink.calls + k } }

def stored (s : State) (v : ℤ) : State :=
  { s with tape := s.tape.store v, index := s.index + 1 }

def printed (s : State) (text : Text) : State :=
  { s.spent 0 1 with
    events := s.events.push ⟨s.journal.count - 1, text⟩
    index := s.index + 1 }

end State

/-- The grounds on which a command fails. -/
inductive Fails (s : State) : Command → Failure → Prop where
  | underflow (h : s.tape.cursor = 0) : Fails s .moveLeft Fault.tapeUnderflow.toFailure
  | unprintable (h : State.character? s.current = none) :
      Fails s .printChar (Fault.unprintableCharacter s.current).toFailure
  | sinkBroke {c : Command} {text : Text} {f : Failure} (h : s.text? c = some text)
      (h' : s.sink.breaks s.sink.calls = some f) : Fails s c f
  | charUnread {f : Failure} (h : s.input.breaks s.input.calls = some f) : Fails s .readChar f
  | notOneCharacter {t : Text} (h : s.input.readChar.1 = .ok (some t)) (h' : t.length ≠ 1) :
      Fails s .readChar (.notOneCharacter t.length)
  | tokenUnread {n : ℕ} {f : Failure} {i : Input} (h : s.input.readToken? = some (.error f, i))
      (h' : s.input.breaks (s.input.calls + n) = some f) : Fails s .readInt f
  | malformed {w : Text} {i : Input} (h : s.input.readToken? = some (.ok (some w), i))
      (h' : Numeral.ofText? w = none) : Fails s .readInt (Fault.malformedInteger w).toFailure
  | tooManyDigits {w : Text} {i : Input} {n : Numeral}
      (h : s.input.readToken? = some (.ok (some w), i)) (h' : Numeral.ofText? w = some n)
      (long : Failure.maxDigits < n.digits.length) :
      Fails s .readInt (.tooManyDigits n.digits.length)

/-- What can come of a command. -/
inductive Performs (cfg : Config) (p : Program) (s : State) : Command → Step → Prop where
  | computes {c : Command} {v : ℤ} (h : c.result? s.current = some v) :
      Performs cfg p s c (.next (s.stored v))
  | movesRight : Performs cfg p s .moveRight
      (.next { s with tape := s.tape.moveRight, index := s.index + 1 })
  | movesLeft (h : s.tape.cursor ≠ 0) : Performs cfg p s .moveLeft
      (.next { s with tape := { s.tape with cursor := s.tape.cursor - 1 }, index := s.index + 1 })
  | passes {c : Command} (loop : c = .loopStart ∨ c = .loopEnd) (h : ¬ c.JumpsAt s.current) :
      Performs cfg p s c (.next { s with index := s.index + 1 })
  | jumps {c : Command} {t : ℤ} (h : c.JumpsAt s.current) (h' : p.jumps[s.index]? = some t) :
      Performs cfg p s c (.next { s with index := t })
  | prints {c : Command} {text : Text} (h : s.text? c = some text)
      (h' : s.sink.breaks s.sink.calls = none) : Performs cfg p s c (.next (s.printed text))
  | reads {c : Command} {v : Option ℤ} {n : ℕ} (h : s.received? c = some (.ok v, s.input.after n)) :
      Performs cfg p s c (.next ((s.spent n 0).stored (v.getD cfg.endValue)))
  | copies (h : s.clipboard = none) : Performs cfg p s .copyPaste
      (.next { s with clipboard := some s.current, index := s.index + 1 })
  | pastes {v : ℕ} (h : s.clipboard = some v) : Performs cfg p s .copyPaste
      (.next (State.stored { s with clipboard := none } v))
  | fails {c : Command} {f : Failure} (n k : ℕ) (h : Fails s c f) :
      Performs cfg p s c (.halt (.failed f) (s.spent n k))
  | terminates : Performs cfg p s .terminate (.halt .terminated s)
  | waits (h : s.input.Endless) : Performs cfg p s .readInt (.halt .waiting s)

namespace State

variable {cfg : Config} {p : Program} {s : State} {c : Command}

theorem read_eq (inside : s.tape.cursor < s.tape.size) : s.tape.read = .ok s.current := by
  rw [Tape.read, if_pos inside]
  rfl

theorem write_eq (inside : s.tape.cursor < s.tape.size) (v : ℤ) :
    s.tape.write v = .ok (s.tape.store v) := by
  rw [Tape.write, if_pos inside]

theorem perform_computes {v : ℤ} (inside : s.tape.cursor < s.tape.size)
    (h : c.result? s.current = some v) : s.perform cfg p c = .next (s.stored v) := by
  have add (d : ℤ) : s.tape.add d = .ok (s.tape.store (s.current + d)) := by
    rw [Tape.add, if_pos inside]
    rfl
  cases c <;> cases h <;> simp only [perform, add, write_eq inside] <;> rfl

theorem performs_computes {v : ℤ} (inside : s.tape.cursor < s.tape.size)
    (h : c.result? s.current = some v) : Performs cfg p s c (s.perform cfg p c) := by
  rw [perform_computes inside h]
  exact .computes h

theorem performs_jump (h : c.JumpsAt s.current)
    (entry : c.JumpsAt s.current → ∃ t, p.jumps[s.index]? = some t) :
    Performs cfg p s c (s.jump p) := by
  obtain ⟨t, found⟩ := entry h
  rw [jump, found]
  exact .jumps h found

theorem performs_jumpIf {test : ℕ → Bool} (inside : s.tape.cursor < s.tape.size)
    (loop : c = .loopStart ∨ c = .loopEnd) (h : test s.current = true ↔ c.JumpsAt s.current)
    (entry : c.JumpsAt s.current → ∃ t, p.jumps[s.index]? = some t) :
    Performs cfg p s c (s.jumpIf p test) := by
  rw [jumpIf, read_eq inside]
  dsimp only
  split
  · next taken => exact performs_jump (h.1 taken) entry
  · next passed => exact .passes loop fun taken => passed (h.2 taken)

theorem performs_emit {text : Text} (h : s.text? c = some text) :
    Performs cfg p s c (s.emit text) := by
  unfold emit Sink.take
  cases broke : s.sink.breaks s.sink.calls with
  | none => exact .prints h broke
  | some f => exact .fails 0 1 (.sinkBroke h broke)

theorem performs_printChar (inside : s.tape.cursor < s.tape.size) :
    Performs cfg p s .printChar s.printChar := by
  rw [printChar, read_eq inside]
  cases shown : character? s.current with
  | some ch =>
    simp only [shown]
    exact performs_emit (by simp [text?, shown])
  | none =>
    simp only [shown]
    exact .fails 0 0 (.unprintable shown)

theorem codePoint_eq_error_iff {t : Text} {f : Failure} :
    codePoint t = .error f ↔ t.length ≠ 1 ∧ f = .notOneCharacter t.length := by
  match t with
  | [] => simp [codePoint, eq_comm]
  | [_] => simp [codePoint]
  | _ :: _ :: _ => simp [codePoint, eq_comm]

theorem readPoint_eq_error_iff {i : Input} {f : Failure} :
    i.readPoint.1 = .error f ↔ i.breaks i.calls = some f ∨
      ∃ t, i.readChar.1 = .ok (some t) ∧ t.length ≠ 1 ∧ f = .notOneCharacter t.length := by
  have broke : i.breaks i.calls = some f ↔ i.readChar.1 = .error f := by
    rw [Input.readChar_eq, map_eq_error_iff]
    exact Breaks.answer_eq_error_iff.symm
  rw [broke]
  unfold Input.readPoint
  rcases i.readChar with ⟨g | _ | t, i'⟩
  · simp
  · simp
  · simp [map_eq_error_iff, codePoint_eq_error_iff]

theorem fails_of_received {f : Failure} {i : Input} (h : s.received? c = some (.error f, i)) :
    Fails s c f := by
  cases c with
  | readChar =>
    have failed := congrArg Prod.fst (Option.some.inj h)
    rcases readPoint_eq_error_iff.1 failed with broke | ⟨t, read, length, rfl⟩
    · exact .charUnread broke
    · exact .notOneCharacter read length
  | readInt =>
    have read : s.input.readInt? = some (.error f, i) := h
    rw [Input.readInt?_eq, Option.map_eq_some_iff] at read
    obtain ⟨⟨r, i⟩, read, failed⟩ := read
    rcases Input.integerOf_eq_error_iff.1 (congrArg Prod.fst failed) with rfl | ⟨w, rfl, bad⟩
    · obtain ⟨n, broke⟩ := Input.readToken?_broke read
      exact .tokenUnread read broke
    · rcases Input.integer_eq_error_iff.1 bad with ⟨malformed, rfl⟩ | ⟨n, numeral, long, rfl⟩
      · exact .malformed read malformed
      · exact .tooManyDigits read numeral long
  | _ => cases h

theorem received?_snd {r : Except Failure (Option ℤ) × Input} (h : s.received? c = some r) :
    ∃ n, r.2 = s.input.after n := by
  cases c with
  | readChar =>
    obtain ⟨n, left, _⟩ := Input.causal_readPoint _ _ h
    exact ⟨n, left⟩
  | readInt =>
    obtain ⟨n, left, _⟩ := Input.causal_readInt? _ _ h
    exact ⟨n, left⟩
  | _ => cases h

theorem readChar_eq (s : State) :
    s.readChar cfg = { s with input := s.input.readPoint.2 }.accept cfg s.input.readPoint.1 := by
  unfold readChar Input.readPoint
  rcases s.input.readChar with ⟨f | _ | t, i⟩ <;> rfl

theorem perform_received {r : Except Failure (Option ℤ) × Input} (h : s.received? c = some r) :
    s.perform cfg p c = { s with input := r.2 }.accept cfg r.1 := by
  cases c with
  | readChar =>
    cases h
    exact readChar_eq s
  | readInt =>
    have read : s.input.readInt? = some r := h
    rw [perform, readInt, read]
  | _ => cases h

theorem perform_reads {v : Option ℤ} {n : ℕ} (inside : s.tape.cursor < s.tape.size)
    (h : s.received? c = some (.ok v, s.input.after n)) :
    s.perform cfg p c = .next ((s.spent n 0).stored (v.getD cfg.endValue)) := by
  have write (v : ℤ) : (s.spent n 0).tape.write v = _ := write_eq inside v
  rw [perform_received h]
  cases v with
  | none => exact congrArg (s.spent n 0).onTape (write _)
  | some v => exact congrArg (s.spent n 0).onTape (write v)

theorem performs_received {r : Except Failure (Option ℤ) × Input}
    (inside : s.tape.cursor < s.tape.size) (h : s.received? c = some r) :
    Performs cfg p s c (s.perform cfg p c) := by
  obtain ⟨n, left⟩ := received?_snd h
  obtain ⟨f | v, i⟩ := r
  · rw [perform_received h]
    cases left
    exact .fails n 0 (fails_of_received h)
  · cases left
    rw [perform_reads inside h]
    exact .reads h

theorem performs_readInt (inside : s.tape.cursor < s.tape.size) :
    Performs cfg p s .readInt (s.readInt cfg) := by
  cases read : s.input.readInt? with
  | some r => exact performs_received inside read
  | none =>
    rw [readInt, read]
    exact .waits (Input.readInt?_eq_none_iff.1 read)

theorem performs_copyPaste (inside : s.tape.cursor < s.tape.size) :
    Performs cfg p s .copyPaste s.copyPaste := by
  unfold copyPaste Clipboard.use
  cases held : s.clipboard with
  | none =>
    simp only [read_eq inside]
    exact .copies held
  | some v =>
    simp only [write_eq inside]
    exact .pastes held

theorem performs_moveLeft : Performs cfg p s .moveLeft (s.onTape s.tape.moveLeft) := by
  unfold Tape.moveLeft
  split
  · next first => exact .fails 0 0 (.underflow first)
  · next later => exact .movesLeft later

theorem performs (inside : s.tape.cursor < s.tape.size)
    (entry : c.JumpsAt s.current → ∃ t, p.jumps[s.index]? = some t) :
    Performs cfg p s c (s.perform cfg p c) := by
  cases c with
  | increment => exact performs_computes inside rfl
  | decrement => exact performs_computes inside rfl
  | incrementTwo => exact performs_computes inside rfl
  | decrementTwo => exact performs_computes inside rfl
  | zero => exact performs_computes inside rfl
  | moveRight => exact .movesRight
  | moveLeft => exact performs_moveLeft
  | loopStart => exact performs_jumpIf inside (.inl rfl) (by simp [Command.JumpsAt]) entry
  | loopEnd => exact performs_jumpIf inside (.inr rfl) (by simp [Command.JumpsAt]) entry
  | skip => exact performs_jump trivial entry
  | printChar => exact performs_printChar inside
  | printInt =>
    rw [perform, printInt, read_eq inside]
    exact performs_emit rfl
  | readChar => exact performs_received inside rfl
  | readInt => exact performs_readInt inside
  | copyPaste => exact performs_copyPaste inside
  | terminate => exact .terminates

theorem perform_unread {f : Failure} {r : Except Failure (Option ℤ) × Input}
    (h : s.received? c = some r) (failed : r.1 = .error f) :
    ∃ n k, s.perform cfg p c = .halt (.failed f) (s.spent n k) := by
  obtain ⟨n, left⟩ := received?_snd h
  refine ⟨n, 0, ?_⟩
  rw [perform_received h, left, failed]
  rfl

theorem perform_sinkBroke {text : Text} {f : Failure} (inside : s.tape.cursor < s.tape.size)
    (h : s.text? c = some text) (broke : s.sink.breaks s.sink.calls = some f) :
    s.perform cfg p c = .halt (.failed f) (s.spent 0 1) := by
  have refused : s.emit text = .halt (.failed f) (s.spent 0 1) := by
    simp only [emit, Sink.take, broke]
    rfl
  cases c with
  | printChar =>
    obtain ⟨ch, known, rfl⟩ := Option.map_eq_some_iff.1 h
    rw [perform, printChar, read_eq inside]
    simp only [known, refused]
  | printInt =>
    cases h
    rw [perform, printInt, read_eq inside]
    exact refused
  | _ => cases h

theorem perform_of_fails {f : Failure} (inside : s.tape.cursor < s.tape.size) (h : Fails s c f) :
    ∃ n k, s.perform cfg p c = .halt (.failed f) (s.spent n k) := by
  have unreadInt {g : Failure} {r : Except Failure (Option Text) × Input}
      (read : s.input.readToken? = some r) (failed : Input.integerOf r.1 = .error g) :
      ∃ n k, s.perform cfg p .readInt = .halt (.failed g) (s.spent n k) := by
    have read' : s.received? .readInt = some (Input.integerOf r.1, r.2) := by
      rw [received?, Input.readInt?_eq, read, Option.map_some]
    exact perform_unread read' failed
  cases h with
  | underflow first =>
    refine ⟨0, 0, ?_⟩
    rw [perform, Tape.moveLeft, if_pos first]
    rfl
  | unprintable unknown =>
    refine ⟨0, 0, ?_⟩
    rw [perform, printChar, read_eq inside]
    simp only [unknown]
    rfl
  | sinkBroke shown broke => exact ⟨0, 1, perform_sinkBroke inside shown broke⟩
  | charUnread broke =>
    exact perform_unread (c := .readChar) rfl (readPoint_eq_error_iff.2 (.inl broke))
  | notOneCharacter read length =>
    have bad := readPoint_eq_error_iff.2 (.inr ⟨_, read, length, rfl⟩)
    exact perform_unread (c := .readChar) rfl bad
  | tokenUnread unread _ => exact unreadInt unread rfl
  | malformed word malformed =>
    have bad := Input.integer_eq_error_iff.2 (.inl ⟨malformed, rfl⟩)
    exact unreadInt word (Input.integerOf_eq_error_iff.2 (.inr ⟨_, rfl, bad⟩))
  | tooManyDigits word numeral long =>
    have bad := Input.integer_eq_error_iff.2 (.inr ⟨_, numeral, long, rfl⟩)
    exact unreadInt word (Input.integerOf_eq_error_iff.2 (.inr ⟨_, rfl, bad⟩))

theorem text?_congr {s s' : State} (tape : s'.tape = s.tape) (c : Command) :
    s'.text? c = s.text? c := by
  cases c <;> simp only [text?, current, tape]

end State

theorem Fails.congr {s s' : State} {c : Command} {f : Failure} (h : Fails s c f)
    (tape : s'.tape = s.tape) (input : s'.input = s.input) (sink : s'.sink = s.sink) :
    Fails s' c f := by
  have current : s'.current = s.current := by rw [State.current, State.current, tape]
  cases h with
  | underflow first => exact .underflow (tape ▸ first)
  | unprintable unknown => exact current ▸ .unprintable (current ▸ unknown)
  | sinkBroke shown broke =>
    exact .sinkBroke ((State.text?_congr tape c).trans shown) (sink ▸ broke)
  | charUnread broke => exact .charUnread (input ▸ broke)
  | notOneCharacter read length => exact .notOneCharacter (input ▸ read) length
  | tokenUnread unread broke => exact .tokenUnread (input ▸ unread) (input ▸ broke)
  | malformed word malformed => exact .malformed (input ▸ word) malformed
  | tooManyDigits word numeral long => exact .tooManyDigits (input ▸ word) numeral long

end SlangTape
