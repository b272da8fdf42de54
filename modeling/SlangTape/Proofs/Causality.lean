import SlangTape.Proofs.InputWords
import SlangTape.Proofs.Reporting
import SlangTape.Proofs.SameAnswers

set_option autoImplicit false

namespace SlangTape

def State.fed (m : State) (input : Input) : State := { m with input }

def Step.fed (input : Input) : Step → Step
  | .next m => .next (m.fed input)
  | .halt e m => .halt e (m.fed input)

theorem Input.after_zero (i : Input) : i.after 0 = i := rfl

theorem Step.fed_on (i j : Input) (k : Sink) (r : Step) : (r.on i k).fed j = r.on j k := by
  cases r <;> rfl

namespace State

variable {cfg : Config} {p : Program} {m : State} {c : Command}

theorem emit_fed (m : State) (text : Text) (j : Input) :
    (m.fed j).emit text = (m.emit text).fed j := by
  unfold emit Sink.take fed
  cases m.sink.breaks m.sink.calls <;> rfl

theorem input_emit (m : State) (text : Text) : (m.emit text).state.input = m.input := by
  unfold emit Sink.take
  cases m.sink.breaks m.sink.calls <;> rfl

theorem input_on (r : Step) (i : Input) (k : Sink) : (r.on i k).state.input = i := by
  cases r <;> rfl

theorem input_perform (other : c ≠ .readChar) (other' : c ≠ .readInt) :
    (m.perform cfg p c).state.input = m.input := by
  cases m.uses cfg p c with
  | none same =>
    have here : m.perform cfg p c = _ := same m.input m.sink
    rw [here, input_on]
  | sink text handed =>
    have here : m.perform cfg p c = m.emit text := handed m.input m.sink
    rw [here, input_emit]
  | input reads => exact absurd reads (not_or.2 ⟨other, other'⟩)

/-- A command depends on the replies that it asks for and on no others, unless it asks for ever. -/
theorem perform_fed (h : ∀ u, m.perform cfg p c ≠ .halt .waiting u) :
    ∃ n, (m.perform cfg p c).state.input = m.input.after n ∧
      ∀ j, Input.SameFor n m.input j →
        (m.fed j).perform cfg p c = (m.perform cfg p c).fed (j.after n) := by
  cases m.uses cfg p c with
  | none same =>
    have here : m.perform cfg p c = _ := same m.input m.sink
    refine ⟨0, by rw [here, input_on, Input.after_zero], fun j _ => ?_⟩
    rw [here, Step.fed_on]
    exact same j m.sink
  | sink text handed =>
    have here : m.perform cfg p c = m.emit text := handed m.input m.sink
    refine ⟨0, by rw [here, input_emit, Input.after_zero], fun j _ => ?_⟩
    rw [here, Input.after_zero, ← emit_fed]
    exact handed j m.sink
  | @input read _ causal stores waits =>
    cases returned : read m.input with
    | none => exact absurd (waits m.input m.sink returned) (h _)
    | some r =>
      have here : m.perform cfg p c = _ := stores m.input m.sink r returned
      obtain ⟨n, left, others⟩ := causal m.input r returned
      refine ⟨n, by rw [here, input_on, left], fun j same => ?_⟩
      have there : (m.fed j).perform cfg p c = _ := stores j m.sink _ (others j same)
      rw [here, there, Step.fed_on]

theorem step_fed (h : ∀ u, m.step cfg p ≠ .halt .waiting u) :
    ∃ n, (m.step cfg p).state.input = m.input.after n ∧
      ∀ j, Input.SameFor n m.input j →
        (m.fed j).step cfg p = (m.step cfg p).fed (j.after n) := by
  have index (j : Input) : (m.fed j).index = m.index := rfl
  cases due : p.fetch m.index with
  | error f => exact ⟨0, by rw [step, due]; rfl, fun j _ => by rw [step, step, index, due]; rfl⟩
  | ok due' =>
    cases due' with
    | none => exact ⟨0, by rw [step, due]; rfl, fun j _ => by rw [step, step, index, due]; rfl⟩
    | some c =>
      have returns : ∀ u, m.recorded.perform cfg p c ≠ .halt .waiting u := step_of_fetch due ▸ h
      obtain ⟨n, left, others⟩ := perform_fed returns
      refine ⟨n, by rw [step_of_fetch due, left]; rfl, fun j same => ?_⟩
      rw [step_of_fetch due, step_of_fetch (s := m.fed j) due]
      exact others j same

theorem runFor_fed (k : ℕ) (h : (m.runFor cfg p k).1 ≠ some .waiting) :
    ∃ n, (m.runFor cfg p k).2.input = m.input.after n ∧
      ∀ j, Input.SameFor n m.input j →
        (m.fed j).runFor cfg p k =
          ((m.runFor cfg p k).1, (m.runFor cfg p k).2.fed (j.after n)) ∧
        ∀ seen, (m.fed j).traceFor cfg p k seen = m.traceFor cfg p k seen := by
  induction k generalizing m with
  | zero =>
    have index (j : Input) : (m.fed j).index = m.index := rfl
    refine ⟨0, ?_, fun j _ => ⟨?_, fun seen => rfl⟩⟩
    · rw [runFor]
      split <;> rfl
    · rw [runFor, runFor, index]
      split <;> rfl
  | succ k ih =>
    have returns : ∀ u, m.step cfg p ≠ .halt .waiting u := fun u stepped => h (by rw [runFor, stepped])
    obtain ⟨n, left, others⟩ := step_fed returns
    cases stepped : m.step cfg p with
    | halt e u =>
      rw [stepped] at left others
      refine ⟨n, by rw [runFor, stepped]; exact left, fun j same => ?_⟩
      have halts : (m.fed j).step cfg p = _ := others j same
      refine ⟨by rw [runFor, runFor, stepped, halts]; rfl, fun seen => ?_⟩
      rw [traceFor_of_last stepped, traceFor_of_last halts]
      rfl
    | next u =>
      rw [stepped] at left others
      obtain ⟨n', left', others'⟩ := ih (m := u) (by rwa [runFor, stepped] at h)
      have there : u.input = m.input.after n := left
      refine ⟨n + n', ?_, fun j same => ?_⟩
      · rw [runFor, stepped, ← Input.after_after, ← there]
        exact left'
      · have next : (m.fed j).step cfg p = _ := others j (same.mono (Nat.le_add_right n n'))
        have later : Input.SameFor n' u.input (j.after n) := by
          rw [there]
          exact Input.SameFor.after same
        obtain ⟨ran, traced⟩ := others' (j.after n) later
        refine ⟨?_, fun seen => ?_⟩
        · rw [runFor, runFor, stepped, next, ← Input.after_after]
          exact ran
        · rw [traceFor_of_next stepped, traceFor_of_next next]
          exact traced _

theorem input_step (m : State) (other : p.fetch m.index ≠ .ok (some .readChar))
    (other' : p.fetch m.index ≠ .ok (some .readInt)) : (m.step cfg p).state.input = m.input := by
  unfold step
  split
  · rfl
  · rfl
  · next c due =>
    rw [due] at other other'
    exact input_perform (m := m.recorded) (by simpa using other) (by simpa using other')

end State

theorem Reaches.exists_input_eq {cfg : Config} {p : Program} {m t : State} {n : ℕ}
    (reached : Reaches cfg p m n t) : ∃ k, t.input = m.input.after k := by
  induction reached with
  | refl s => exact ⟨0, s.input.after_zero.symm⟩
  | @next s u t n stepped _ ih =>
    have returns : ∀ v, s.step cfg p ≠ .halt .waiting v := by
      rw [stepped]
      nofun
    obtain ⟨k, first, _⟩ := State.step_fed returns
    obtain ⟨k', later⟩ := ih
    have there : u.input = s.input.after k := by rwa [stepped] at first
    exact ⟨k + k', by rw [later, there, Input.after_after]⟩

/-- After `k` steps the run has made at most `r` calls for input. A read that goes on for ever makes
more than any number of them. -/
structure AsksAtMost (cfg : Config) (p : Program) (m : State) (k r : ℕ) : Prop where
  returns : (m.runFor cfg p k).1 ≠ some .waiting
  calls : (m.runFor cfg p k).2.input.calls ≤ m.input.calls + r

/-- If two inputs bring the same for `r` calls and a run on the first has asked for no more than that
after `k` steps, then the run on the second has taken the same steps to the same state, printed the same
texts, ended in the same way if at all, and made as many calls. Only the two reading commands use up
input. -/
theorem run_causal (s : Session) (p : Program) (accepted : s.parse = .ok p) (other : Input) (r k : ℕ)
    (same : ∀ n < r, s.input.reply n = other.reply n)
    (asked : AsksAtMost s.config p (s.machine p) k r) :
    let s' : Session := { s with input := other }
    let ran := (s.machine p).runFor s.config p k
    s'.parse = .ok p ∧ s'.trace k p = s.trace k p ∧
    (∃ calls, ran.2.input = s.input.after calls ∧
      (s'.machine p).runFor s.config p k =
        (ran.1, { ran.2 with input := other.after calls })) ∧
    (s'.run k).1 = (s.run k).1 ∧ (s'.run k).2.1 = (s.run k).2.1 ∧
    ∀ n t, Reaches s.config p (s.machine p) n t → p.fetch t.index ≠ .ok (some .readChar) →
      p.fetch t.index ≠ .ok (some .readInt) → (t.step s.config p).state.input = t.input := by
  intro s' ran
  obtain ⟨calls, left, others⟩ := State.runFor_fed k asked.returns
  have enough : calls ≤ r := by
    have most := asked.calls
    rw [left] at most
    exact Nat.le_of_add_le_add_left most
  have alike : Input.SameFor calls s.input other := fun n hn => same n (Nat.lt_of_lt_of_le hn enough)
  obtain ⟨ran', traced⟩ := others other alike
  have accepted' : s'.parse = .ok p := accepted
  have fed : (s'.machine p).runFor s'.config p k = _ := ran'
  refine ⟨accepted', traced #[], ⟨calls, left, ran'⟩, ?_, ?_, fun n t _ => t.input_step⟩
  · rw [Session.run_of_parse accepted rfl, Session.run_of_parse accepted' fed]
    rfl
  · rw [Session.run_of_parse accepted rfl, Session.run_of_parse accepted' fed]
    rfl

theorem run_causal_unread_rest :
    let s : Session :=
      { source := Command.readInt.spelling ++ Command.printInt.spelling ++ Command.readChar.spelling
        file := "ahead"
        config := {}
        language := .standard
        input := .ofText ['7', ' ', 'a', 'b'] }
    let s' : Session := { s with input := .ofText ['7', ' ', 'c'] }
    ∃ p, s.parse = .ok p ∧ (∀ n < 2, s.input.reply n = s'.input.reply n) ∧
      AsksAtMost s.config p (s.machine p) 2 2 ∧
      s'.trace 2 p = s.trace 2 p ∧ (s'.run 2).1 = (s.run 2).1 ∧ (s'.run 2).2.1 = (s.run 2).2.1 := by
  intro s s'
  have accepted : s.parse.toOption.map Program.commands = some #[.readInt, .printInt, .readChar] := by
    decide +kernel
  have same : ∀ n < 2, s.input.reply n = s'.input.reply n := by
    intro n hn
    obtain rfl | rfl : n = 0 ∨ n = 1 := by omega
    · rfl
    · rfl
  obtain ⟨p, parsed, commands⟩ := exists_ok_of_map accepted
  have asked : AsksAtMost s.config p (s.machine p) 2 2 := by
    have feeds : s.input.Feeds (['7'] ++ ' ' :: ['a', 'b']) := Input.feeds_ofText _
    have solid : ∀ d ∈ ['7'], isBlank d = false := by
      intro d hd
      rw [List.mem_singleton.1 hd]
      rfl
    have read : s.input.readInt? = some (.ok (some 7), s.input.after 2) := by
      rw [Input.readInt?_eq, feeds.readToken?_word solid (List.cons_ne_nil _ _) rfl]
      rfl
    have start := State.sound_start s.config p s.input s.sink
    let m := (s.machine p).recorded
    let u := (m.spent 2 0).stored 7
    have due (i : ℕ) : p.fetch i = .ok ([Command.readInt, .printInt, .readChar][i]?) := by
      rw [fetch_natCast, commands]
    have first : (s.machine p).step s.config p = .next u := by
      rw [State.step_of_fetch (due 0), State.perform_reads (s := m) (c := .readInt) start.tape.inside read]
      rfl
    have inside : u.tape.cursor < u.tape.size := (start.next (resolved_of_parse parsed) first).tape.inside
    have second : u.step s.config p = .next (u.recorded.printed (decimal u.current)) := by
      rw [State.step_of_fetch (due 1), State.perform, State.printInt,
        State.read_eq (s := u.recorded) inside]
      rfl
    have ran := (Reaches.next first (.next second (.refl _))).runFor_of_due (due 2)
    exact ⟨by rw [ran]; exact (Option.some_ne_none _).symm, by rw [ran]; exact Nat.le_refl 2⟩
  obtain ⟨_, traced, _, outcome, printed, _⟩ := run_causal s p parsed s'.input 2 2 same asked
  exact ⟨p, parsed, same, asked, traced, outcome, printed⟩

end SlangTape
