import Mathlib.Data.Int.Notation
import Mathlib.Data.Nat.Notation
import SlangTape.Machine

set_option autoImplicit false

namespace SlangTape

variable {cfg : Config} {p : Program}

theorem exists_ok_of_map {ε α β : Type} {r : Except ε α} {g : α → β} {b : β}
    (h : r.toOption.map g = some b) : ∃ a, r = .ok a ∧ g a = b := by
  cases r with
  | error e => cases h
  | ok a => exact ⟨a, rfl, Option.some.inj h⟩

theorem fetch_natCast (p : Program) (i : ℕ) : p.fetch i = .ok p.commands.toList[i]? := by
  unfold Program.fetch
  by_cases h : i < p.size
  · have inside : i < p.commands.size := h
    rw [if_neg (by omega), signedIndex?_natCast h]
    simp [inside]
  · have outside : p.commands.size ≤ i := Nat.le_of_not_lt h
    rw [if_pos (by omega)]
    simp [outside]

theorem mem_of_fetch {i : ℤ} {c : Command} (h : p.fetch i = .ok (some c)) : c ∈ p.commands := by
  unfold Program.fetch at h
  split at h
  · cases h
  · split at h
    · next found =>
      cases h
      obtain ⟨k, _, here⟩ := Option.bind_eq_some_iff.1 found
      exact Array.mem_of_getElem? here
    · cases h

def Step.state : Step → State
  | .next s => s
  | .halt _ s => s

theorem State.step_of_fetch {s : State} {c : Command} (h : p.fetch s.index = .ok (some c)) :
    s.step cfg p = s.recorded.perform cfg p c := by
  rw [step, h]

theorem State.step_eq_next {s u : State} (h : s.step cfg p = .next u) :
    ∃ c, p.fetch s.index = .ok (some c) ∧ s.recorded.perform cfg p c = .next u := by
  unfold step at h
  split at h
  · cases h
  · cases h
  · next c fetched => exact ⟨c, fetched, h⟩

namespace State

variable {s u : State} {k : ℕ} {seen : Array Observation}

def observed (s : State) : Observation := ⟨s.index, s.tape.cursor, s.tape.cell s.tape.cursor⟩

theorem traceFor_of_over (atEnd : p.fetch s.index = .ok none) :
    s.traceFor cfg p k seen = seen := by
  cases k with
  | zero => rfl
  | succ k => rw [traceFor, atEnd]

theorem traceFor_of_next (stepped : s.step cfg p = .next u) :
    s.traceFor cfg p (k + 1) seen = u.traceFor cfg p k (seen.push s.observed) := by
  obtain ⟨c, fetched, performed⟩ := step_eq_next stepped
  rw [traceFor, fetched]
  simp only [performed]
  rfl

theorem traceFor_of_halt {c : Command} {e : Ending} (due : p.fetch s.index = .ok (some c))
    (halts : s.step cfg p = .halt e u) :
    s.traceFor cfg p (k + 1) seen = seen.push s.observed := by
  rw [step_of_fetch due] at halts
  rw [traceFor, due]
  simp only [halts]
  rfl

theorem traceFor_of_last {e : Ending} (halts : s.step cfg p = .halt e u) :
    s.traceFor cfg p (k + 1) seen =
      match p.fetch s.index with
      | .ok (some _) => seen.push s.observed
      | _ => seen := by
  cases due : p.fetch s.index with
  | error f => rw [traceFor, due]
  | ok c =>
    cases c with
    | none => rw [traceFor_of_over due]
    | some c => rw [traceFor_of_halt due halts]

end State

inductive Reaches (cfg : Config) (p : Program) : State → ℕ → State → Prop where
  | refl (s : State) : Reaches cfg p s 0 s
  | next {s u t : State} {n : ℕ} (h : s.step cfg p = .next u) (tail : Reaches cfg p u n t) :
      Reaches cfg p s (n + 1) t

namespace Reaches

variable {s t u : State} {n k : ℕ} {e : Ending}

theorem keeps {I : State → Prop} (h : Reaches cfg p s n t) (hs : I s)
    (step : ∀ a b, I a → a.step cfg p = .next b → I b) : I t := by
  induction h with
  | refl => exact hs
  | next h _ ih => exact ih (step _ _ hs h)

theorem exists_last (h : Reaches cfg p s (n + 1) t) :
    ∃ u, Reaches cfg p s n u ∧ u.step cfg p = .next t := by
  induction n generalizing s with
  | zero =>
    cases h with
    | next stepped tail =>
      cases tail
      exact ⟨s, .refl s, stepped⟩
  | succ n ih =>
    cases h with
    | next stepped tail =>
      obtain ⟨u, reached, last⟩ := ih tail
      exact ⟨u, .next stepped reached, last⟩

theorem runFor_add (h : Reaches cfg p s n t) (k : ℕ) :
    s.runFor cfg p (n + k) = t.runFor cfg p k := by
  induction h with
  | refl => rw [Nat.zero_add]
  | next h _ ih => rw [Nat.add_right_comm, State.runFor, h, ← ih]

theorem traceFor_add (h : Reaches cfg p s n t) (k : ℕ) (seen : Array Observation) :
    s.traceFor cfg p (n + k) seen = t.traceFor cfg p k (s.traceFor cfg p n seen) := by
  induction h generalizing seen with
  | refl => rw [Nat.zero_add, State.traceFor]
  | next h _ ih => rw [Nat.add_right_comm, State.traceFor_of_next h, State.traceFor_of_next h, ih]

theorem traceFor_of_finish (h : Reaches cfg p s n t) (atEnd : p.fetch t.index = .ok none)
    (hk : n ≤ k) (seen : Array Observation) :
    s.traceFor cfg p k seen = s.traceFor cfg p n seen := by
  obtain ⟨d, rfl⟩ : ∃ d, k = n + d := ⟨k - n, by omega⟩
  rw [h.traceFor_add, State.traceFor_of_over atEnd]

theorem size_traceFor (h : Reaches cfg p s n t) (seen : Array Observation) :
    (s.traceFor cfg p n seen).size = seen.size + n := by
  induction h generalizing seen with
  | refl => rfl
  | next h _ ih =>
    rw [State.traceFor_of_next h, ih, Array.size_push]
    omega

theorem due_of_lt (h : Reaches cfg p s n t) (h' : Reaches cfg p s k u) (hn : n < k) :
    ∃ c, p.fetch t.index = .ok (some c) := by
  induction h generalizing k with
  | refl =>
    cases h' with
    | refl => omega
    | next stepped _ =>
      obtain ⟨c, due, _⟩ := State.step_eq_next stepped
      exact ⟨c, due⟩
  | next stepped _ ih =>
    cases h' with
    | refl => omega
    | next stepped' tail =>
      rw [stepped] at stepped'
      cases stepped'
      exact ih tail (by omega)

theorem runFor_of_halt (h : Reaches cfg p s n t) (halts : t.step cfg p = .halt e u) (hk : n < k) :
    s.runFor cfg p k = (some e, u) := by
  obtain ⟨d, rfl⟩ : ∃ d, k = n + (d + 1) := ⟨k - n - 1, by omega⟩
  rw [h.runFor_add, State.runFor, halts]

theorem runFor_of_finish (h : Reaches cfg p s n t) (atEnd : p.fetch t.index = .ok none)
    (hk : n ≤ k) : s.runFor cfg p k = (some .finished, t) := by
  obtain ⟨d, rfl⟩ : ∃ d, k = n + d := ⟨k - n, by omega⟩
  rw [h.runFor_add]
  cases d with
  | zero => rw [State.runFor, atEnd]
  | succ d => rw [State.runFor, State.step, atEnd]

theorem runFor_of_due {c : Command} (h : Reaches cfg p s n t)
    (due : p.fetch t.index = .ok (some c)) : s.runFor cfg p n = (none, t) := by
  rw [← Nat.add_zero n, h.runFor_add, State.runFor, due]

end Reaches

theorem runFor_cases (cfg : Config) (p : Program) (k : ℕ) (s : State) :
    (∃ t c, Reaches cfg p s k t ∧ p.fetch t.index = .ok (some c) ∧
      s.runFor cfg p k = (none, t)) ∨
    ∃ n t e u, n ≤ k ∧ Reaches cfg p s n t ∧ t.step cfg p = .halt e u ∧
      s.runFor cfg p k = (some e, u) := by
  induction k generalizing s with
  | zero =>
    rw [State.runFor]
    cases fetched : p.fetch s.index with
    | error f =>
      exact .inr ⟨0, s, _, s, Nat.le_refl 0, .refl s, by rw [State.step, fetched]; rfl, rfl⟩
    | ok due =>
      cases due with
      | none => exact .inr ⟨0, s, _, s, Nat.le_refl 0, .refl s, by rw [State.step, fetched], rfl⟩
      | some c => exact .inl ⟨s, c, .refl s, fetched, rfl⟩
  | succ k ih =>
    rw [State.runFor]
    cases stepped : s.step cfg p with
    | halt e u => exact .inr ⟨0, s, e, u, Nat.zero_le _, .refl s, stepped, rfl⟩
    | next u =>
      rcases ih u with ⟨t, c, reached, due, ran⟩ | ⟨n, t, e, v, hn, reached, halts, ran⟩
      · exact .inl ⟨t, c, .next stepped reached, due, ran⟩
      · exact .inr ⟨n + 1, t, e, v, Nat.succ_le_succ hn, .next stepped reached, halts, ran⟩

theorem runFor_of_ended {s u : State} {e : Ending} {k : ℕ}
    (h : s.runFor cfg p k = (some e, u)) (more : ℕ) : s.runFor cfg p (k + more) = (some e, u) := by
  cases more with
  | zero => exact h
  | succ d =>
    rcases runFor_cases cfg p k s with ⟨t, c, _, _, ran⟩ | ⟨n, t, e', u', hn, reached, halts, ran⟩
    · rw [ran] at h
      cases h
    · rw [ran] at h
      cases h
      exact reached.runFor_of_halt halts (by omega)

/-- Both go on or both end the run in the same way, in states that are related. -/
inductive Step.Related (R : State → State → Prop) : Step → Step → Prop where
  | next {m m' : State} (h : R m m') : Related R (.next m) (.next m')
  | halt {e : Ending} {m m' : State} (h : R m m') : Related R (.halt e m) (.halt e m')

/-- In related states the same command is due, and the next steps lead to related states. -/
structure Lockstep (cfg cfg' : Config) (p : Program) (R : State → State → Prop) : Prop where
  index : ∀ m m', R m m' → m'.index = m.index
  step : ∀ m m', R m m' → Step.Related R (m.step cfg p) (m'.step cfg' p)

namespace Lockstep

variable {cfg' : Config} {R : State → State → Prop} {m m' : State}

theorem runFor (paired : Lockstep cfg cfg' p R) (h : R m m') (k : ℕ) :
    (m.runFor cfg p k).1 = (m'.runFor cfg' p k).1 ∧
      R (m.runFor cfg p k).2 (m'.runFor cfg' p k).2 := by
  induction k generalizing m m' with
  | zero =>
    rw [State.runFor, State.runFor, paired.index m m' h]
    split <;> exact ⟨rfl, h⟩
  | succ k ih =>
    have stepped := paired.step m m' h
    rw [State.runFor, State.runFor]
    generalize m.step cfg p = r at stepped
    generalize m'.step cfg' p = r' at stepped
    cases stepped with
    | next later => exact ih later
    | halt later => exact ⟨rfl, later⟩

theorem traceFor {f : Observation → Observation} (paired : Lockstep cfg cfg' p R)
    (observed : ∀ m m', R m m' → m'.observed = f m.observed) (h : R m m') (k : ℕ)
    (seen : Array Observation) :
    m'.traceFor cfg' p k (seen.map f) = (m.traceFor cfg p k seen).map f := by
  induction k generalizing m m' seen with
  | zero => rfl
  | succ k ih =>
    have stepped := paired.step m m' h
    cases here : m.step cfg p <;> cases there : m'.step cfg' p <;> rw [here, there] at stepped
    all_goals cases stepped
    · next later =>
      rw [State.traceFor_of_next here, State.traceFor_of_next there, observed m m' h, ← Array.map_push]
      exact ih later _
    · rw [State.traceFor_of_last here, State.traceFor_of_last there, paired.index m m' h,
        observed m m' h]
      split
      · exact Array.map_push.symm
      · rfl

end Lockstep

end SlangTape
