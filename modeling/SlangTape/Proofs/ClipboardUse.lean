import Mathlib.Algebra.Ring.Parity
import SlangTape.Language.Table
import SlangTape.Proofs.Soundness
import SlangTape.Session

set_option autoImplicit false

namespace SlangTape

/-- The observed steps that performed a given command, in order. -/
def Program.stepsOf (p : Program) (c : Command) (seen : Array Observation) : List Observation :=
  seen.toList.filter fun o => p.fetch o.index = .ok (some c)

/-- The clipboard after uses that found these values under the cursor. -/
def Clipboard.after (uses : List Observation) : Clipboard :=
  if Odd uses.length then uses.getLast?.map Observation.cell else none

namespace Clipboard

variable {uses : List Observation} {o : Observation} {v : ℕ}

theorem isSome_after (uses : List Observation) : (after uses).isSome ↔ Odd uses.length := by
  unfold after
  split
  · next odd =>
    have nonempty : uses ≠ [] := by
      rintro rfl
      simp at odd
    simp [List.getLast?_eq_some_getLast nonempty, odd]
  · next even => simp [even]

theorem getLast?_of_after (h : after uses = some v) :
    ∃ o, uses.getLast? = some o ∧ o.cell = v := by
  unfold after at h
  split at h
  · exact Option.map_eq_some_iff.1 h
  · cases h

theorem after_eq_none (h : Even uses.length) : after uses = none :=
  if_neg (Nat.not_odd_iff_even.2 h)

theorem after_concat_of_none (h : after uses = none) : after (uses ++ [o]) = some o.cell := by
  have even : Even uses.length := by
    rw [← Nat.not_odd_iff_even, ← isSome_after, h]
    exact Bool.false_ne_true
  have odd : Odd (uses ++ [o]).length := by
    rw [List.length_append]
    exact even.add_one
  rw [after, if_pos odd, List.getLast?_concat]
  rfl

theorem after_concat_of_some (h : after uses = some v) : after (uses ++ [o]) = none := by
  have odd : Odd uses.length := by
    rw [← isSome_after, h]
    rfl
  apply after_eq_none
  rw [List.length_append]
  exact odd.add_one

end Clipboard

section Observed

variable {cfg : Config} {p : Program} {m t u : State} {c d : Command} {n : ℕ}
  {seen : Array Observation}

theorem stepsOf_push_of_due (due : p.fetch m.index = .ok (some c)) :
    p.stepsOf c (seen.push m.observed) = p.stepsOf c seen ++ [m.observed] := by
  have here : p.fetch m.observed.index = .ok (some c) := due
  simp [Program.stepsOf, here]

theorem stepsOf_push_of_ne (due : p.fetch m.index = .ok (some d)) (other : d ≠ c) :
    p.stepsOf c (seen.push m.observed) = p.stepsOf c seen := by
  have here : p.fetch m.observed.index = .ok (some d) := due
  simp [Program.stepsOf, here, other]

theorem Performs.clipboard_eq (h : Performs cfg p m c (.next u)) (other : c ≠ .copyPaste) :
    u.clipboard = m.clipboard := by
  cases h with
  | copies => exact absurd rfl other
  | pastes => exact absurd rfl other
  | _ => rfl

namespace State

theorem step_copies (inside : m.tape.cursor < m.tape.size)
    (due : p.fetch m.index = .ok (some .copyPaste)) (held : m.clipboard = none) :
    m.step cfg p =
      .next { m.recorded with clipboard := some m.current, index := m.index + 1 } := by
  have held' : m.recorded.clipboard = none := held
  rw [step_of_fetch due, perform, copyPaste]
  simp only [Clipboard.use, held', read_eq (s := m.recorded) inside]
  rfl

theorem step_pastes {v : ℕ} (inside : m.tape.cursor < m.tape.size)
    (due : p.fetch m.index = .ok (some .copyPaste)) (held : m.clipboard = some v) :
    m.step cfg p = .next ({ m.recorded with clipboard := none }.stored v) := by
  have held' : m.recorded.clipboard = some v := held
  rw [step_of_fetch due, perform, copyPaste]
  simp only [Clipboard.use, held', write_eq (s := m.recorded) inside]
  rfl

theorem exists_step_copyPaste (cfg : Config) (inside : m.tape.cursor < m.tape.size)
    (due : p.fetch m.index = .ok (some .copyPaste)) : ∃ u, m.step cfg p = .next u := by
  cases held : m.clipboard with
  | none => exact ⟨_, step_copies inside due held⟩
  | some v => exact ⟨_, step_pastes inside due held⟩

theorem Sound.clipboard_step (sound : m.Sound cfg p) (resolved : p.Resolved)
    (h : m.clipboard = .after (p.stepsOf .copyPaste seen)) (stepped : m.step cfg p = .next u) :
    u.clipboard = .after (p.stepsOf .copyPaste (seen.push m.observed)) := by
  obtain ⟨c, due, performed⟩ := step_eq_next stepped
  by_cases use : c = .copyPaste
  · subst use
    rw [stepsOf_push_of_due due]
    cases held : m.clipboard with
    | none =>
      rw [step_copies sound.tape.inside due held] at stepped
      cases stepped
      exact (Clipboard.after_concat_of_none (o := m.observed) (h.symm.trans held)).symm
    | some v =>
      rw [step_pastes sound.tape.inside due held] at stepped
      cases stepped
      exact (Clipboard.after_concat_of_some (h.symm.trans held)).symm
  · have outcome := (sound.performs resolved due).1
    rw [performed] at outcome
    rw [stepsOf_push_of_ne due use, ← h]
    exact outcome.clipboard_eq use

theorem Sound.clipboard_reaches (sound : m.Sound cfg p) (resolved : p.Resolved)
    (h : m.clipboard = .after (p.stepsOf .copyPaste seen)) (reached : Reaches cfg p m n t) :
    t.clipboard = .after (p.stepsOf .copyPaste (m.traceFor cfg p n seen)) := by
  induction reached generalizing seen with
  | refl => exact h
  | next stepped _ ih =>
    rw [traceFor_of_next stepped]
    exact ih (sound.next resolved stepped) (sound.clipboard_step resolved h stepped)

theorem Sound.clipboard_halt {e : Ending} (sound : m.Sound cfg p) (resolved : p.Resolved)
    (h : m.clipboard = .after (p.stepsOf .copyPaste seen)) (halts : m.step cfg p = .halt e u) :
    u.clipboard = .after (p.stepsOf .copyPaste (m.traceFor cfg p n seen)) := by
  have unused (c : Command) (due : p.fetch m.index = .ok (some c)) : c ≠ .copyPaste := by
    rintro rfl
    obtain ⟨v, stepped⟩ := exists_step_copyPaste cfg sound.tape.inside due
    rw [stepped] at halts
    cases halts
  have seen' : p.stepsOf .copyPaste (m.traceFor cfg p n seen) = p.stepsOf .copyPaste seen := by
    cases n with
    | zero => rfl
    | succ n =>
      rw [traceFor_of_last halts]
      split
      · next c due => exact stepsOf_push_of_ne due (unused c due)
      · rfl
  rw [seen', ← h]
  rcases sound.halt_cases resolved halts with
    ⟨_, _, rfl⟩ | ⟨_, _, rfl⟩ | ⟨_, _, _, _, _, _, _, rfl⟩ | ⟨_, _, _, rfl⟩
  · rfl
  · rfl
  · rfl
  · rfl

theorem Sound.clipboard_runFor (sound : m.Sound cfg p) (resolved : p.Resolved)
    (h : m.clipboard = .after (p.stepsOf .copyPaste seen)) (k : ℕ) :
    (m.runFor cfg p k).2.clipboard =
      .after (p.stepsOf .copyPaste (m.traceFor cfg p k seen)) := by
  rcases runFor_cases cfg p k m with ⟨t, _, reached, _, ran⟩ | ⟨n, t, e, u, hn, reached, halts, ran⟩
  · rw [ran]
    exact sound.clipboard_reaches resolved h reached
  · obtain ⟨d, rfl⟩ : ∃ d, k = n + d := ⟨k - n, by omega⟩
    rw [ran, reached.traceFor_add]
    exact (sound.reaches resolved reached).clipboard_halt resolved
      (sound.clipboard_reaches resolved h reached) halts

end State

end Observed

/-- After any number of steps of a run of an accepted source, the clipboard holds a value exactly if the
steps that used it were odd in number, and then the one that the latest found under the cursor. If the
next step uses it too, that step changes no cell when it is odd in number; when it is even it sets the
cell under the cursor to the value that the use before it found, and changes no other. -/
theorem clipboard_alternates (s : Session) (p : Program) (accepted : s.parse = .ok p) (k : ℕ) :
    let r := (s.machine p).runFor s.config p k
    let uses := p.stepsOf .copyPaste (s.trace k p)
    (r.2.clipboard.isSome ↔ Odd uses.length) ∧
    (∀ v, r.2.clipboard = some v → ∃ o, uses.getLast? = some o ∧ o.cell = v) ∧
    (r.1 = none → p.fetch r.2.index = .ok (some .copyPaste) →
      ∃ u, r.2.step s.config p = .next u ∧
        (Odd (uses.length + 1) → ∀ i, u.tape.cell i = r.2.tape.cell i) ∧
        (Even (uses.length + 1) → ∃ o, uses.getLast? = some o ∧
          u.tape.cell r.2.tape.cursor = o.cell ∧
          ∀ i, i ≠ r.2.tape.cursor → u.tape.cell i = r.2.tape.cell i)) := by
  intro r uses
  have resolved := resolved_of_parse accepted
  have start := State.sound_start s.config p s.input s.sink
  have sound : r.2.Sound s.config p := start.runFor resolved k
  have empty : (s.machine p).clipboard = .after (p.stepsOf .copyPaste #[]) := rfl
  have held : r.2.clipboard = .after uses := start.clipboard_runFor resolved empty k
  have holds : r.2.clipboard.isSome ↔ Odd uses.length := by
    rw [held]
    exact Clipboard.isSome_after uses
  refine ⟨holds, fun v full => Clipboard.getLast?_of_after (held ▸ full), fun _ due => ?_⟩
  cases clip : r.2.clipboard with
  | none =>
    have even : ¬ Even (uses.length + 1) := by
      rw [Nat.even_add_one, not_not, ← Nat.not_odd_iff_even, ← holds, clip]
      exact Bool.false_ne_true
    exact ⟨_, State.step_copies sound.tape.inside due clip, fun _ _ => rfl, fun h => absurd h even⟩
  | some v =>
    have odd : ¬ Odd (uses.length + 1) := by
      rw [Nat.odd_add_one, not_not, ← holds, clip]
      rfl
    obtain ⟨o, last, rfl⟩ := Clipboard.getLast?_of_after (held.symm.trans clip)
    refine ⟨_, State.step_pastes sound.tape.inside due clip, fun h => absurd h odd, fun _ => ?_⟩
    have small : o.cell < s.config.width.capacity := sound.clipboard _ clip
    have stored (i : ℕ) := r.2.tape.cell_store o.cell i
    refine ⟨o, last, ?_, fun i other => ?_⟩
    · have here := stored r.2.tape.cursor
      rwa [if_pos ⟨rfl, sound.tape.inside⟩, sound.tape.width, Width.wrap_natCast small] at here
    · have there := stored i
      rwa [if_neg fun both => other both.1] at there

theorem clipboard_alternates_held_zero :
    let s : Session :=
      { source := Command.copyPaste.spelling ++ Command.increment.spelling ++
          Command.moveRight.spelling ++ Command.increment.spelling ++ Command.copyPaste.spelling
        file := "zero"
        config := {}
        language := .standard
        input := .ofText [] }
    ∃ p, s.parse = .ok p ∧
      let m := ((s.machine p).runFor s.config p 4).2
      m.clipboard = some 0 ∧ m.tape.cursor = 1 ∧ m.tape.cell 1 = 1 ∧
      ∃ u, m.step s.config p = .next u ∧ u.tape.cell 1 = 0 ∧
        ∀ i, i ≠ 1 → u.tape.cell i = m.tape.cell i := by
  intro s
  have facts : (s.parse.toOption.map fun p =>
        let r := (s.machine p).runFor s.config p 4
        decide (r.1 = none ∧ p.fetch r.2.index = .ok (some .copyPaste) ∧
          r.2.clipboard = some 0 ∧ r.2.tape.cursor = 1 ∧ r.2.tape.cell 1 = 1 ∧
          p.stepsOf .copyPaste (s.trace 4 p) = [⟨0, 0, 0⟩])) = some true := by
    decide +kernel
  obtain ⟨p, parsed, facts⟩ := exists_ok_of_map facts
  obtain ⟨running, due, clip, cursor, cell, uses⟩ := of_decide_eq_true facts
  obtain ⟨_, _, next⟩ := clipboard_alternates s p parsed 4
  obtain ⟨u, stepped, _, paste⟩ := next running due
  rw [uses, cursor] at paste
  obtain ⟨o, last, pasted, others⟩ := paste (by decide)
  cases last
  exact ⟨p, parsed, clip, cursor, cell, u, stepped, pasted, others⟩

end SlangTape
