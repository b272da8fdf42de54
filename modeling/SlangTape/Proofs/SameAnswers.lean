import SlangTape.Proofs.Performing
import SlangTape.Proofs.Runs

set_option autoImplicit false

namespace SlangTape

namespace Input

variable {i j : Input}

/-- The calls to come bring the same. -/
def Matches (i j : Input) : Prop := ∀ n, i.reply n = j.reply n

inductive ReadAlike {α : Type} : Option (Except Failure α × Input) →
    Option (Except Failure α × Input) → Prop where
  | returned {r : Except Failure α} {i j : Input} (rest : i.Matches j) :
      ReadAlike (some (r, i)) (some (r, j))
  | endless : ReadAlike none none

theorem Matches.symm (h : i.Matches j) : j.Matches i := fun n => (h n).symm

theorem Matches.after (h : i.Matches j) (n : ℕ) : (i.after n).Matches (j.after n) := by
  intro m
  rw [reply_after, reply_after, h]

theorem Causal.readAlike {α : Type} {read : Reader α} (h : Causal read) (same : i.Matches j) :
    ReadAlike (read i) (read j) := by
  cases here : read i with
  | some r =>
    obtain ⟨n, left, others⟩ := h i r here
    rw [others j fun m _ => same m, show r = (r.1, i.after n) from Prod.ext rfl left]
    exact .returned (same.after n)
  | none =>
    cases there : read j with
    | none => exact .endless
    | some r =>
      obtain ⟨n, _, others⟩ := h j r there
      rw [others i fun m _ => same.symm m] at here
      cases here

end Input

def Sink.Matches (k l : Sink) : Prop := ∀ n, k.breaks (k.calls + n) = l.breaks (l.calls + n)

theorem Sink.Matches.take {k l : Sink} (h : k.Matches l) : k.take.2.Matches l.take.2 := by
  intro n
  have later := h (n + 1)
  simpa [Sink.take, Nat.add_assoc, Nat.add_comm 1 n] using later

def State.on (m : State) (input : Input) (sink : Sink) : State := { m with input, sink }

def Step.on (input : Input) (sink : Sink) : Step → Step
  | .next m => .next (m.on input sink)
  | .halt e m => .halt e (m.on input sink)

/-- How a command deals with the channels: not at all, by handing a text to the sink, or by a read
whose result, if there is one, is stored. -/
inductive State.Uses (cfg : Config) (p : Program) (m : State) (c : Command) : Prop where
  | none (h : ∀ i k, (m.on i k).perform cfg p c = (m.perform cfg p c).on i k)
  | sink (text : Text) (h : ∀ i k, (m.on i k).perform cfg p c = (m.on i k).emit text)
  | input {read : Input.Reader (Option ℤ)} (reads : c = .readChar ∨ c = .readInt)
      (causal : Input.Causal read)
      (stores : ∀ i k r, read i = some r → (m.on i k).perform cfg p c = (m.accept cfg r.1).on r.2 k)
      (waits : ∀ i k, read i = none → (m.on i k).perform cfg p c = .halt .waiting (m.on i k))

namespace State

variable {cfg : Config} {p : Program} {m : State} {c : Command}

theorem onTape_on (m : State) (r : Except Failure Tape) (i : Input) (k : Sink) :
    (m.on i k).onTape r = (m.onTape r).on i k := by
  cases r <;> rfl

theorem jump_on (m : State) (i : Input) (k : Sink) : (m.on i k).jump p = (m.jump p).on i k := by
  unfold jump on
  cases p.jumps[m.index]? <;> rfl

theorem jumpIf_on (m : State) (test : ℕ → Bool) (i : Input) (k : Sink) :
    (m.on i k).jumpIf p test = (m.jumpIf p test).on i k := by
  have tape : (m.on i k).tape = m.tape := rfl
  rw [jumpIf, jumpIf, tape]
  cases m.tape.read with
  | error f => rfl
  | ok v =>
    dsimp only
    split
    · exact jump_on m i k
    · rfl

theorem copyPaste_on (m : State) (i : Input) (k : Sink) :
    (m.on i k).copyPaste = m.copyPaste.on i k := by
  unfold copyPaste on
  cases m.clipboard.use m.tape <;> rfl

theorem accept_on (m : State) (r : Except Failure (Option ℤ)) (i : Input) (k : Sink) :
    (m.on i k).accept cfg r = (m.accept cfg r).on i k := by
  rcases r with f | _ | v
  · rfl
  · exact onTape_on m _ i k
  · exact onTape_on m _ i k

theorem uses_onTape (effect : Tape → Except Failure Tape)
    (h : ∀ m : State, m.perform cfg p c = m.onTape (effect m.tape)) : m.Uses cfg p c := by
  refine .none fun i k => ?_
  rw [h, h]
  exact onTape_on m _ i k

theorem uses_printChar (m : State) : m.Uses cfg p .printChar := by
  have fails {f : Failure} (h : ∀ i k, (m.on i k).printChar = (m.on i k).fail f) :
      m.Uses cfg p .printChar :=
    .none fun i k => (h i k).trans (congrArg (Step.on i k) (h m.input m.sink)).symm
  cases found : m.tape.read with
  | error f => exact fails (f := f) fun i k => by simp only [printChar, on, found]
  | ok v =>
    cases shown : character? v with
    | none =>
      exact fails (f := (Fault.unprintableCharacter v).toFailure) fun i k => by
        simp only [printChar, on, found, shown]
    | some ch => exact .sink [ch] fun i k => by simp only [perform, printChar, on, found, shown]

theorem uses_printInt (m : State) : m.Uses cfg p .printInt := by
  cases found : m.tape.read with
  | error f => exact .none fun i k => by simp only [perform, printInt, on, found, fail, Step.on]
  | ok v => exact .sink (decimal v) fun i k => by simp only [perform, printInt, on, found]

theorem uses (cfg : Config) (p : Program) (m : State) (c : Command) : m.Uses cfg p c := by
  cases c with
  | increment => exact uses_onTape (·.add 1) fun _ => rfl
  | decrement => exact uses_onTape (·.add (-1)) fun _ => rfl
  | incrementTwo => exact uses_onTape (·.add 2) fun _ => rfl
  | decrementTwo => exact uses_onTape (·.add (-2)) fun _ => rfl
  | zero => exact uses_onTape (·.write 0) fun _ => rfl
  | moveRight => exact uses_onTape (.ok ·.moveRight) fun _ => rfl
  | moveLeft => exact uses_onTape Tape.moveLeft fun _ => rfl
  | loopStart => exact .none (jumpIf_on m _)
  | loopEnd => exact .none (jumpIf_on m _)
  | skip => exact .none (jump_on m)
  | printChar => exact uses_printChar m
  | printInt => exact uses_printInt m
  | readChar =>
    refine .input (.inl rfl) Input.causal_readPoint (fun i k r read => ?_) nofun
    cases read
    rw [perform, readChar_eq]
    exact accept_on m _ _ k
  | readInt =>
    refine .input (.inr rfl) Input.causal_readInt? (fun i k r read => ?_) fun i k read => ?_
    · rw [perform, readInt, show (m.on i k).input.readInt? = _ from read]
      exact accept_on m _ _ k
    · rw [perform, readInt, show (m.on i k).input.readInt? = _ from read]
  | copyPaste => exact .none (copyPaste_on m)
  | terminate => exact .none fun _ _ => rfl

end State

/-- The same state on channels that give the same answers. -/
inductive State.Twins (m : State) : State → Prop where
  | intro {input : Input} {sink : Sink} (hi : m.input.Matches input) (hk : m.sink.Matches sink) :
      Twins m { m with input, sink }

inductive Step.Twins : Step → Step → Prop where
  | next {m m' : State} (h : m.Twins m') : Twins (.next m) (.next m')
  | halt {e : Ending} {m m' : State} (h : m.Twins m') : Twins (.halt e m) (.halt e m')

theorem Step.twins_on {i j : Input} {k l : Sink} (hi : i.Matches j) (hk : k.Matches l) (r : Step) :
    Step.Twins (r.on i k) (r.on j l) := by
  cases r with
  | next m => exact .next (.intro hi hk)
  | halt e m => exact .halt (.intro hi hk)

namespace State.Twins

variable {cfg : Config} {p : Program} {m m' : State}

theorem index_eq (h : m.Twins m') : m'.index = m.index := by
  obtain ⟨hi, hk⟩ := h
  rfl

theorem emit (h : m.Twins m') (text : Text) : Step.Twins (m.emit text) (m'.emit text) := by
  obtain @⟨input, sink, hi, hk⟩ := h
  unfold State.emit
  rw [Sink.take, Sink.take, show m.sink.breaks m.sink.calls = sink.breaks sink.calls from hk 0]
  cases sink.breaks sink.calls with
  | none => exact .next (.intro hi hk.take)
  | some f => exact .halt (.intro hi hk.take)

theorem perform (h : m.Twins m') (c : Command) :
    Step.Twins (m.perform cfg p c) (m'.perform cfg p c) := by
  have twins := h
  obtain @⟨input, sink, hi, hk⟩ := h
  cases m.uses cfg p c with
  | none same =>
    have here : m.perform cfg p c = _ := same m.input m.sink
    have there : (m.on input sink).perform cfg p c = _ := same input sink
    rw [here]
    exact there ▸ Step.twins_on hi hk _
  | sink text handed =>
    have here : m.perform cfg p c = m.emit text := handed m.input m.sink
    have there : (m.on input sink).perform cfg p c = _ := handed input sink
    rw [here]
    exact there ▸ twins.emit text
  | @input read _ causal stores waits =>
    have alike := causal.readAlike hi
    generalize read' : read m.input = r at alike
    generalize read'' : read input = r' at alike
    cases alike with
    | returned rest =>
      have here : m.perform cfg p c = _ := stores m.input m.sink _ read'
      have there : (m.on input sink).perform cfg p c = _ := stores input sink _ read''
      rw [here]
      exact there ▸ Step.twins_on rest hk _
    | endless =>
      have here : m.perform cfg p c = _ := waits m.input m.sink read'
      have there : (m.on input sink).perform cfg p c = _ := waits input sink read''
      rw [here]
      exact there ▸ .halt twins

theorem recorded (h : m.Twins m') : m.recorded.Twins m'.recorded := by
  obtain ⟨hi, hk⟩ := h
  exact .intro hi hk

theorem step (h : m.Twins m') : Step.Twins (m.step cfg p) (m'.step cfg p) := by
  unfold State.step
  rw [h.index_eq]
  split
  · exact .halt h
  · exact .halt h
  · exact h.recorded.perform _

theorem lockstep (cfg : Config) (p : Program) : Lockstep cfg cfg p State.Twins where
  index _ _ h := h.index_eq
  step m m' h := by
    have stepped : Step.Twins (m.step cfg p) (m'.step cfg p) := h.step
    generalize m.step cfg p = r at stepped
    generalize m'.step cfg p = r' at stepped
    cases stepped with
    | next later => exact .next later
    | halt later => exact .halt later

theorem runFor (h : m.Twins m') (k : ℕ) :
    (m.runFor cfg p k).1 = (m'.runFor cfg p k).1 ∧
      (m.runFor cfg p k).2.Twins (m'.runFor cfg p k).2 :=
  (lockstep cfg p).runFor h k

theorem observed_eq (h : m.Twins m') : m'.observed = m.observed := by
  obtain ⟨hi, hk⟩ := h
  rfl

theorem traceFor (h : m.Twins m') (k : ℕ) (seen : Array Observation) :
    m.traceFor cfg p k seen = m'.traceFor cfg p k seen := by
  have traced := (lockstep cfg p).traceFor (f := id) (fun _ _ => observed_eq) h k seen
  rw [Array.map_id, Array.map_id] at traced
  exact traced.symm

end State.Twins

end SlangTape
