import Mathlib.Algebra.Ring.Nat
import SlangTape.Proofs.Matching
import SlangTape.Proofs.Performing
import SlangTape.Proofs.Runs

set_option autoImplicit false

namespace SlangTape

namespace Tape

structure Sound (w : Width) (t : Tape) : Prop where
  width : t.width = w
  inside : t.cursor < t.size
  size : ∃ j, t.size = initialSize * 2 ^ j
  cells : ∀ i, t.cell i < w.capacity

variable {w : Width} {t : Tape}

theorem sound_blank (w : Width) : (blank w initialSize).Sound w where
  width := rfl
  inside := by simp [blank, size, initialSize]
  size := ⟨0, by simp [blank, size]⟩
  cells i := by
    have pos := w.capacity_pos
    by_cases hi : i < initialSize <;> simp [cell, blank, hi, pos]

theorem Sound.store (h : t.Sound w) (v : ℤ) : (t.store v).Sound w where
  width := h.width
  inside := by simpa [Tape.size, Tape.store] using h.inside
  size := by simpa [Tape.size, Tape.store] using h.size
  cells i := by
    rw [cell_store]
    split
    · exact h.width ▸ t.width.wrap_lt v
    · exact h.cells i

theorem size_moveRight (t : Tape) :
    t.moveRight.size = if t.size ≤ t.cursor + 1 then t.size + t.size else t.size := by
  unfold size
  by_cases full : t.cells.size ≤ t.cursor + 1 <;> simp [moveRight, full]

theorem Sound.moveRight (h : t.Sound w) : t.moveRight.Sound w where
  width := h.width
  inside := by
    have inside := h.inside
    have cursor : t.moveRight.cursor = t.cursor + 1 := rfl
    rw [size_moveRight]
    split <;> omega
  size := by
    obtain ⟨j, size⟩ := h.size
    rw [size_moveRight]
    split
    · exact ⟨j + 1, by rw [size, Nat.pow_succ, ← Nat.mul_assoc, Nat.mul_two]⟩
    · exact ⟨j, size⟩
  cells i := by
    rw [cell_moveRight]
    exact h.cells i

theorem Sound.moveLeft (h : t.Sound w) : ({ t with cursor := t.cursor - 1 } : Tape).Sound w where
  width := h.width
  inside := Nat.lt_of_le_of_lt (Nat.sub_le _ _) h.inside
  size := h.size
  cells := h.cells

end Tape

/-- What holds between the steps of a run of `p`. -/
structure State.Sound (cfg : Config) (p : Program) (m : State) : Prop where
  index : 0 ≤ m.index ∧ m.index ≤ p.size
  tape : m.tape.Sound cfg.width
  clipboard : ∀ v, m.clipboard = some v → v < cfg.width.capacity
  program : m.journal.program = some p

variable {cfg : Config} {p : Program} {m : State} {c : Command}

theorem Program.Resolved.exists_target (resolved : p.Resolved) {i v : ℕ}
    (here : p.commands.toList[i]? = some c) (taken : c.JumpsAt v) :
    ∃ t : ℕ, p.jumps[(i : ℤ)]? = some (t : ℤ) ∧ t ≤ p.size := by
  have kind : c = .loopStart ∨ c = .loopEnd ∨ c = .skip := by
    cases c <;> simp_all [Command.JumpsAt]
  obtain ⟨t, leads⟩ : ∃ t, Leads p.commands.toList i t := by
    rw [resolved.resolvable.exists_leads_iff, here]
    simpa using kind
  exact ⟨t, resolved.tabulates.getElem? leads, leads.target_bounds.2⟩

namespace State

theorem step_of_endless (due : p.fetch m.index = .ok (some .readInt)) (endless : m.input.Endless) :
    m.step cfg p = .halt .waiting m.recorded := by
  have never : m.recorded.input.readInt? = none := Input.readInt?_eq_none_iff.2 endless
  rw [step_of_fetch due, perform, readInt, never]

theorem sound_start (cfg : Config) (p : Program) (input : Input) (sink : Sink) :
    (State.start cfg p input sink).Sound cfg p where
  index := ⟨Int.le_refl 0, Int.natCast_nonneg _⟩
  tape := Tape.sound_blank _
  clipboard := nofun
  program := rfl

namespace Sound

theorem exists_index (h : m.Sound cfg p) : ∃ i : ℕ, m.index = i ∧ i ≤ p.size := by
  have index := h.index
  exact ⟨m.index.toNat, by omega, by omega⟩

theorem fetch_cases (h : m.Sound cfg p) :
    p.fetch m.index = .ok none ∨ ∃ c, p.fetch m.index = .ok (some c) := by
  obtain ⟨i, index, _⟩ := h.exists_index
  rw [index, fetch_natCast]
  cases p.commands.toList[i]? with
  | none => exact .inl rfl
  | some c => exact .inr ⟨c, rfl⟩

theorem index_lt (h : m.Sound cfg p) (due : p.fetch m.index = .ok (some c)) :
    m.index < p.size := by
  obtain ⟨i, index, _⟩ := h.exists_index
  rw [index, fetch_natCast, Array.getElem?_toList] at due
  have inside : i < p.size := (Array.getElem?_eq_some_iff.1 (Except.ok.inj due)).1
  omega

theorem over_iff (h : m.Sound cfg p) : p.fetch m.index = .ok none ↔ m.index = p.size := by
  constructor
  · intro atEnd
    obtain ⟨i, index, bound⟩ := h.exists_index
    rw [index, fetch_natCast, Array.getElem?_toList] at atEnd
    have outside : p.size ≤ i := Array.getElem?_eq_none_iff.1 (Except.ok.inj atEnd)
    omega
  · intro index
    rw [Program.fetch, if_pos (by omega)]

theorem recorded (h : m.Sound cfg p) : m.recorded.Sound cfg p :=
  ⟨h.index, h.tape, h.clipboard, h.program⟩

theorem perform {r : Step} (h : m.Sound cfg p) (inside : m.index < p.size)
    (entry : ∀ t, c.JumpsAt m.current → p.jumps[m.index]? = some t → 0 ≤ t ∧ t ≤ p.size)
    (performs : Performs cfg p m c r) : r.state.Sound cfg p := by
  have advanced : 0 ≤ m.index + 1 ∧ m.index + 1 ≤ p.size := by
    have index := h.index
    omega
  cases performs with
  | computes => exact ⟨advanced, h.tape.store _, h.clipboard, h.program⟩
  | movesRight => exact ⟨advanced, h.tape.moveRight, h.clipboard, h.program⟩
  | movesLeft => exact ⟨advanced, h.tape.moveLeft, h.clipboard, h.program⟩
  | passes => exact ⟨advanced, h.tape, h.clipboard, h.program⟩
  | jumps taken found => exact ⟨entry _ taken found, h.tape, h.clipboard, h.program⟩
  | prints => exact ⟨advanced, h.tape, h.clipboard, h.program⟩
  | reads => exact ⟨advanced, h.tape.store _, h.clipboard, h.program⟩
  | copies =>
    refine ⟨advanced, h.tape, fun v copied => ?_, h.program⟩
    cases copied
    exact h.tape.cells _
  | pastes => exact ⟨advanced, h.tape.store _, nofun, h.program⟩
  | fails => exact ⟨h.index, h.tape, h.clipboard, h.program⟩
  | terminates => exact h
  | waits => exact h

theorem performs (h : m.Sound cfg p) (resolved : p.Resolved)
    (due : p.fetch m.index = .ok (some c)) :
    Performs cfg p m.recorded c (m.recorded.perform cfg p c) ∧
      (m.recorded.perform cfg p c).state.Sound cfg p := by
  have inside := h.index_lt due
  obtain ⟨i, index, _⟩ := h.exists_index
  rw [index, fetch_natCast] at due
  have here : p.commands.toList[i]? = some c := Except.ok.inj due
  have index' : m.recorded.index = i := index
  have target (taken : c.JumpsAt m.recorded.current) := resolved.exists_target here taken
  have outcome : Performs cfg p m.recorded c (m.recorded.perform cfg p c) := by
    refine State.performs h.tape.inside fun taken => ?_
    obtain ⟨t, found, _⟩ := target taken
    exact ⟨t, index' ▸ found⟩
  refine ⟨outcome, h.recorded.perform inside (fun t taken found => ?_) outcome⟩
  · obtain ⟨u, found', bound⟩ := target taken
    rw [index', found'] at found
    cases found
    omega

theorem step (h : m.Sound cfg p) (resolved : p.Resolved) :
    (m.step cfg p).state.Sound cfg p := by
  unfold State.step
  split
  · exact h
  · exact h
  · next c due => exact (h.performs resolved due).2

theorem next {u : State} (h : m.Sound cfg p) (resolved : p.Resolved)
    (stepped : m.step cfg p = .next u) : u.Sound cfg p := by
  have later := h.step resolved
  rwa [stepped] at later

theorem reaches {t : State} {n : ℕ} (h : m.Sound cfg p) (resolved : p.Resolved)
    (reached : Reaches cfg p m n t) : t.Sound cfg p :=
  reached.keeps h fun _ _ sound => sound.next resolved

theorem runFor (h : m.Sound cfg p) (resolved : p.Resolved) (k : ℕ) :
    (m.runFor cfg p k).2.Sound cfg p := by
  rcases runFor_cases cfg p k m with ⟨t, _, reached, _, ran⟩ | ⟨_, t, e, u, _, reached, halts, ran⟩
  · rw [ran]
    exact h.reaches resolved reached
  · rw [ran]
    have last := (h.reaches resolved reached).step resolved
    rwa [halts] at last

theorem journal_of_step {u : State} (h : m.Sound cfg p) (resolved : p.Resolved)
    (stepped : m.step cfg p = .next u) : u.journal = m.journal.record m.index := by
  obtain ⟨c, due, performed⟩ := State.step_eq_next stepped
  have outcome := (h.performs resolved due).1
  rw [performed] at outcome
  cases outcome <;> rfl

theorem count_of_reaches {t : State} {n : ℕ} (h : m.Sound cfg p) (resolved : p.Resolved)
    (reached : Reaches cfg p m n t) : t.journal.count = m.journal.count + n := by
  induction reached with
  | refl => rfl
  | next stepped _ ih =>
    rw [ih (h.next resolved stepped), h.journal_of_step resolved stepped]
    simp only [Journal.record]
    omega

theorem halt_cases {e : Ending} {u : State} (h : m.Sound cfg p) (resolved : p.Resolved)
    (halts : m.step cfg p = .halt e u) :
    (e = .finished ∧ p.fetch m.index = .ok none ∧ u = m) ∨
    (e = .terminated ∧ p.fetch m.index = .ok (some .terminate) ∧ u = m.recorded) ∨
    (∃ c f a b, e = .failed f ∧ p.fetch m.index = .ok (some c) ∧ Fails m c f ∧
      u = m.recorded.spent a b) ∨
    (e = .waiting ∧ p.fetch m.index = .ok (some .readInt) ∧ m.input.Endless ∧ u = m.recorded) := by
  rcases h.fetch_cases with atEnd | ⟨c, due⟩
  · rw [State.step, atEnd] at halts
    cases halts
    exact .inl ⟨rfl, atEnd, rfl⟩
  · rw [State.step_of_fetch due] at halts
    have outcome := (h.performs resolved due).1
    rw [halts] at outcome
    cases outcome with
    | terminates => exact .inr (.inl ⟨rfl, due, rfl⟩)
    | fails a b ground =>
      exact .inr (.inr (.inl ⟨c, _, a, b, rfl, due, ground.congr rfl rfl rfl, rfl⟩))
    | waits endless => exact .inr (.inr (.inr ⟨rfl, due, endless, rfl⟩))

theorem reaches_of_finished {k : ℕ} {t : State} (h : m.Sound cfg p) (resolved : p.Resolved)
    (ran : m.runFor cfg p k = (some .finished, t)) :
    ∃ n, n ≤ k ∧ Reaches cfg p m n t ∧ p.fetch t.index = .ok none := by
  rcases runFor_cases cfg p k m with ⟨_, _, _, _, ran'⟩ | ⟨n, u, e, v, hn, reached, halts, ran'⟩
  · rw [ran] at ran'
    cases ran'
  · rw [ran] at ran'
    cases ran'
    rcases (h.reaches resolved reached).halt_cases resolved halts with
      ⟨_, atEnd, rfl⟩ | ⟨other, _⟩ | ⟨_, _, _, _, other, _⟩ | ⟨other, _⟩
    · exact ⟨n, hn, reached, atEnd⟩
    · cases other
    · cases other
    · cases other

end Sound

end State

/-- At some step an integer is to be read from an input that never comes to a word or the end. -/
def ReadsForever (cfg : Config) (p : Program) (m : State) : Prop :=
  ∃ n t, Reaches cfg p m n t ∧ p.fetch t.index = .ok (some .readInt) ∧ t.input.Endless

/-- After `n` steps from `s` the command `c` at `i` is due in the state `t` and fails with `f`. -/
structure FailsAt (cfg : Config) (p : Program) (s : State) (n i : ℕ) (t : State) (c : Command)
    (f : Failure) : Prop where
  reached : Reaches cfg p s n t
  index : t.index = i
  due : p.commands[i]? = some c
  ground : Fails t c f

namespace State.Sound

variable {n i k : ℕ} {t u : State} {f : Failure}

theorem runFor_of_failsAt (h : m.Sound cfg p) (resolved : p.Resolved)
    (failing : FailsAt cfg p m n i t c f) (hk : n < k) :
    ∃ a b, m.runFor cfg p k = (some (.failed f), t.recorded.spent a b) := by
  have sound := h.reaches resolved failing.reached
  have due : p.fetch t.index = .ok (some c) := by
    rw [failing.index, fetch_natCast, Array.getElem?_toList, failing.due]
  have ground : Fails t.recorded c f := failing.ground.congr rfl rfl rfl
  obtain ⟨a, b, performed⟩ :
      ∃ a b, t.recorded.perform cfg p c = .halt (.failed f) (t.recorded.spent a b) :=
    perform_of_fails sound.tape.inside ground
  refine ⟨a, b, failing.reached.runFor_of_halt ?_ hk⟩
  rw [State.step_of_fetch due, performed]

theorem readsForever_of_runFor (h : m.Sound cfg p) (resolved : p.Resolved)
    (waiting : (m.runFor cfg p k).1 = some .waiting) : ReadsForever cfg p m := by
  rcases runFor_cases cfg p k m with ⟨_, _, _, _, ran⟩ | ⟨n, t, e, u, _, reached, halts, ran⟩
  · rw [ran] at waiting
    cases waiting
  · rw [ran] at waiting
    cases waiting
    rcases (h.reaches resolved reached).halt_cases resolved halts with
      ⟨other, _⟩ | ⟨other, _⟩ | ⟨_, _, _, _, other, _⟩ | ⟨_, due, endless, _⟩
    · cases other
    · cases other
    · cases other
    · exact ⟨n, t, reached, due, endless⟩

theorem failsAt_of_runFor (h : m.Sound cfg p) (resolved : p.Resolved)
    (failed : (m.runFor cfg p k).1 = some (.failed f)) :
    ∃ n i t c, n < k ∧ FailsAt cfg p m n i t c f := by
  rcases runFor_cases cfg p k m with ⟨t, _, _, _, ran⟩ | ⟨n, t, e, u, hn, reached, halts, ran⟩
  · rw [ran] at failed
    cases failed
  · rw [ran] at failed
    cases failed
    have sound := h.reaches resolved reached
    rcases sound.halt_cases resolved halts with
      ⟨other, _⟩ | ⟨other, _⟩ | ⟨c, g, a, b, same, due, ground, _⟩ | ⟨other, _⟩
    · cases other
    · cases other
    · cases same
      have before : n ≠ k := by
        rintro rfl
        rw [reached.runFor_of_due due] at ran
        cases ran
      obtain ⟨i, index, _⟩ := sound.exists_index
      rw [index, fetch_natCast, Array.getElem?_toList] at due
      exact ⟨n, i, t, c, by omega, reached, index, Except.ok.inj due, ground⟩
    · cases other

end State.Sound

end SlangTape
