import SlangTape.Language.Table
import SlangTape.Session
import SlangTape.Proofs.Performing
import SlangTape.Proofs.Runs

set_option autoImplicit false

namespace SlangTape

/-- If the step failed, all that it did to `s` was to call the channels. -/
def Step.Spares (s : State) (r : Step) : Prop :=
  ∀ f u, r = .halt (.failed f) u → ∃ n k, u = s.spent n k

namespace State

variable {cfg : Config} {p : Program}

theorem spares_next (s u : State) : (Step.next u).Spares s := by
  intro f v failed
  cases failed

theorem spares_fail (s : State) (n k : ℕ) (f : Failure) : ((s.spent n k).fail f).Spares s := by
  intro g u failed
  cases failed
  exact ⟨n, k, rfl⟩

theorem spares_onTape (s : State) (n : ℕ) (r : Except Failure Tape) :
    ((s.spent n 0).onTape r).Spares s := by
  cases r with
  | ok t => exact spares_next s _
  | error f => exact spares_fail s n 0 f

theorem spares_jump (s : State) : (s.jump p).Spares s := by
  unfold jump
  cases p.jumps[s.index]? with
  | some t => exact spares_next s _
  | none => exact spares_fail s 0 0 _

theorem spares_jumpIf (s : State) (test : ℕ → Bool) : (s.jumpIf p test).Spares s := by
  unfold jumpIf
  cases s.tape.read with
  | error f => exact spares_fail s 0 0 f
  | ok v =>
    dsimp only
    split
    · exact spares_jump s
    · exact spares_next s _

theorem spares_emit (s : State) (text : Text) : (s.emit text).Spares s := by
  unfold emit Sink.take
  cases s.sink.breaks s.sink.calls with
  | none => exact spares_next s _
  | some f => exact spares_fail s 0 1 f

theorem spares_printChar (s : State) : s.printChar.Spares s := by
  unfold printChar
  cases s.tape.read with
  | error f => exact spares_fail s 0 0 f
  | ok v =>
    cases shown : character? v with
    | some ch =>
      simp only [shown]
      exact spares_emit s _
    | none =>
      simp only [shown]
      exact spares_fail s 0 0 _

theorem spares_printInt (s : State) : s.printInt.Spares s := by
  unfold printInt
  cases s.tape.read with
  | error f => exact spares_fail s 0 0 f
  | ok v => exact spares_emit s _

theorem spares_received {s : State} {c : Command} {r : Except Failure (Option ℤ) × Input}
    (h : s.received? c = some r) : (s.perform cfg p c).Spares s := by
  obtain ⟨n, left⟩ := received?_snd h
  have spent : { s with input := r.2 } = s.spent n 0 := by rw [left]; rfl
  rw [perform_received h, spent]
  rcases r.1 with f | _ | v
  · exact spares_fail s n 0 f
  · exact spares_onTape s n _
  · exact spares_onTape s n _

theorem spares_readInt (s : State) : (s.perform cfg p .readInt).Spares s := by
  cases read : s.input.readInt? with
  | some r => exact spares_received read
  | none =>
    intro f u failed
    rw [perform, readInt, read] at failed
    cases failed

theorem spares_copyPaste (s : State) : s.copyPaste.Spares s := by
  unfold copyPaste
  cases s.clipboard.use s.tape with
  | ok used => exact spares_next s _
  | error f => exact spares_fail s 0 0 f

theorem spares_perform (s : State) (c : Command) : (s.perform cfg p c).Spares s := by
  cases c with
  | moveRight => exact spares_next s _
  | loopStart => exact spares_jumpIf s _
  | loopEnd => exact spares_jumpIf s _
  | skip => exact spares_jump s
  | printChar => exact spares_printChar s
  | printInt => exact spares_printInt s
  | readChar => exact spares_received rfl
  | readInt => exact spares_readInt s
  | copyPaste => exact spares_copyPaste s
  | terminate =>
    intro f u failed
    cases failed
  | _ => exact spares_onTape s 0 _

theorem step_eq_failed {s u : State} {f : Failure} (h : s.step cfg p = .halt (.failed f) u) :
    (p.fetch s.index = .error f ∧ u = s) ∨
      ∃ c n k, p.fetch s.index = .ok (some c) ∧ u = s.recorded.spent n k := by
  unfold step at h
  split at h
  · next g missing =>
    cases h
    exact .inl ⟨missing, rfl⟩
  · cases h
  · next c due =>
    obtain ⟨n, k, rest⟩ := spares_perform s.recorded c f u h
    exact .inr ⟨c, n, k, due, rest⟩

theorem runFor_eq_failed {s u : State} {f : Failure} {limit : ℕ}
    (h : s.runFor cfg p limit = (some (.failed f), u)) :
    ∃ n t, n ≤ limit ∧ Reaches cfg p s n t ∧ t.step cfg p = .halt (.failed f) u := by
  rcases runFor_cases cfg p limit s with ⟨t, _, _, _, ran⟩ | ⟨n, t, e, v, hn, reached, halts, ran⟩
  · rw [ran] at h
    cases h
  · rw [ran] at h
    cases h
    exact ⟨n, t, hn, reached, halts⟩

end State

theorem Session.outcome_eq_failed {ending : Option Ending} {m : State} {f : Failure}
    (h : outcome ending m = .failed f) : ∃ g, ending = some (.failed g) := by
  match ending, h with
  | some (.failed g), _ => exact ⟨g, rfl⟩

/-- A run that fails leaves the session as its last completed step would have: with the tape, the
clipboard and the printed texts of the state `t` after that step. Only the calls to the channels and
at most an entry of the journal, that of the failing command, have come after it. -/
theorem execute_failed_spares (s : Session) (p : Program) (limit : ℕ) (f : Failure)
    (h : (s.execute limit p).1 = .failed f) :
    ∃ n t, n ≤ limit ∧ Reaches s.config p (s.machine p) n t ∧
      (∀ u, t.step s.config p ≠ .next u) ∧
      (s.execute limit p).2.1 = t.events ∧
      ∃ (calls sent : ℕ) (journal : Journal),
        (journal = t.journal ∨ journal = t.journal.record t.index) ∧
        (s.execute limit p).2.2 = { s.leave p t with
          journal
          input := t.input.after calls
          sink := { t.sink with calls := t.sink.calls + sent } } := by
  rcases ran : (s.machine p).runFor s.config p limit with ⟨ending, u⟩
  simp only [Session.execute, ran] at h ⊢
  obtain ⟨g, rfl⟩ := Session.outcome_eq_failed h
  obtain ⟨n, t, hn, reached, halts⟩ := State.runFor_eq_failed ran
  have last : ∀ v, t.step s.config p ≠ .next v := by
    intro v next
    rw [halts] at next
    cases next
  refine ⟨n, t, hn, reached, last, ?_⟩
  rcases State.step_eq_failed halts with ⟨_, rfl⟩ | ⟨c, a, b, _, rfl⟩
  · exact ⟨rfl, 0, 0, u.journal, .inl rfl, rfl⟩
  · exact ⟨rfl, a, b, _, .inr rfl, rfl⟩

theorem execute_failed_spares_skip_without_jump :
    let p : Program := ⟨#[.increment, .copyPaste, .printInt, .skip], #[], {}⟩
    let s : Session :=
      { source := [], file := "skip", config := {}, language := .standard, input := .ofText [] }
    (s.execute 9 p).1 = .failed (.noSuchJump 3) ∧
      ∃ n t, n ≤ 9 ∧ Reaches s.config p (s.machine p) n t ∧
        (s.execute 9 p).2.1 = t.events ∧ (s.execute 9 p).2.2.tape = t.tape ∧
        (s.execute 9 p).2.2.clipboard = t.clipboard := by
  intro p s
  have failed : (s.execute 9 p).1 = .failed (.noSuchJump 3) := by decide +kernel
  obtain ⟨n, t, hn, reached, _, printed, calls, sent, journal, _, left⟩ :=
    execute_failed_spares s p 9 _ failed
  refine ⟨failed, n, t, hn, reached, printed, ?_, ?_⟩
  · rw [left]
    rfl
  · rw [left]
    rfl

end SlangTape
