import SlangTape.Proofs.Reporting

set_option autoImplicit false

namespace SlangTape

/-- The commands of `p` stand in `r` from `d` on, with their places and jumps. -/
structure Program.Holds (r : Program) (d : ℕ) (p : Program) : Prop where
  commands : ∀ i : ℕ, i < p.size → r.commands[d + i]? = p.commands[i]?
  locations : ∀ i : ℕ, i < p.size → r.locations[d + i]? = p.locations[i]?
  jumps : ∀ k t : ℤ, p.jumps[k]? = some t → r.jumps[k + d]? = some (t + d)

def Event.later (n : ℕ) (e : Event) : Event := { e with step := n + e.step }

def Failure.later (n : ℕ) : Failure → Failure
  | .runtime e => .runtime { e with step := e.step.map (n + ·) }
  | f => f

theorem Outcome.mapFailure_later_zero (o : Outcome) : o.mapFailure (Failure.later 0) = o := by
  rcases o with _ | _ | (_ | e | _)
  all_goals simp [mapFailure, Failure.later]

theorem Journal.stamp_later {j j' : Journal} {n step : ℕ} {index index' : ℤ} {location : Location}
    (h : j.entry = .ok (some ⟨step, index, location⟩))
    (h' : j'.entry = .ok (some ⟨n + step, index', location⟩)) (f : Failure) :
    j'.stamp f = (j.stamp f).later n := by
  cases f with
  | runtime e => simp [stamp, h, h', Failure.later]
  | _ => rfl

def Observation.shift (d : ℕ) (o : Observation) : Observation := { o with index := o.index + d }

theorem Observation.shift_zero : shift 0 = id := funext fun o => by simp [shift]

/-- The state of a run of a program that stands in `r` from `d` on, as a state of `r` in which the run
began where `past` left off. -/
def State.placed (r : Program) (d : ℕ) (m past : State) : State :=
  { m with
    index := m.index + d
    events := past.events ++ m.events.map (Event.later past.journal.count)
    journal :=
      { program := some r
        count := past.journal.count + m.journal.count
        last := (m.journal.last.map (· + (d : ℤ))).or past.journal.last } }

def Step.placed (r : Program) (d : ℕ) (past : State) : Step → Step
  | .next m => .next (m.placed r d past)
  | .halt e m => .halt e (m.placed r d past)

namespace State

variable {cfg : Config} {p r : Program} {d : ℕ} {past m : State}

theorem placed_start (r : Program) (input : Input) (sink : Sink) (m : State) :
    m.placed r 0 (start cfg p input sink) = { m with journal.program := some r } := by
  have later : Event.later 0 = id := funext fun e => by simp [Event.later]
  simp [placed, start, Journal.opened, later]

theorem advance_placed (m : State) :
    (m.placed r d past).advance = m.advance.placed r d past := by
  simp only [advance, placed, Step.placed, Int.add_right_comm]

theorem onTape_placed (m : State) (t : Except Failure Tape) :
    (m.placed r d past).onTape t = (m.onTape t).placed r d past := by
  cases t with
  | error f => rfl
  | ok t => exact advance_placed { m with tape := t }

theorem emit_placed (recorded : 0 < m.journal.count) (text : Text) :
    (m.placed r d past).emit text = (m.emit text).placed r d past := by
  have sink : (m.placed r d past).sink = m.sink := rfl
  unfold emit Sink.take
  rw [sink]
  cases m.sink.breaks m.sink.calls with
  | none =>
    have step : past.journal.count + m.journal.count - 1 =
        past.journal.count + (m.journal.count - 1) := by omega
    refine Eq.trans ?_ (advance_placed { m with
      sink := { m.sink with calls := m.sink.calls + 1 }
      events := m.events.push ⟨m.journal.count - 1, text⟩ })
    simp [placed, Event.later, step]
  | some f => rfl

theorem printChar_placed (recorded : 0 < m.journal.count) :
    (m.placed r d past).printChar = m.printChar.placed r d past := by
  have tape : (m.placed r d past).tape = m.tape := rfl
  unfold printChar
  rw [tape]
  cases m.tape.read with
  | error f => rfl
  | ok v =>
    cases shown : character? v with
    | none => simp only [shown]; rfl
    | some ch => simp only [shown, emit_placed recorded]

theorem printInt_placed (recorded : 0 < m.journal.count) :
    (m.placed r d past).printInt = m.printInt.placed r d past := by
  have tape : (m.placed r d past).tape = m.tape := rfl
  unfold printInt
  rw [tape]
  cases m.tape.read with
  | error f => rfl
  | ok v => exact emit_placed recorded _

theorem accept_placed (m : State) (v : Except Failure (Option ℤ)) :
    (m.placed r d past).accept cfg v = (m.accept cfg v).placed r d past := by
  rcases v with f | _ | v
  · rfl
  · exact onTape_placed m _
  · exact onTape_placed m _

theorem readChar_placed (m : State) :
    (m.placed r d past).readChar cfg = (m.readChar cfg).placed r d past := by
  rw [readChar_eq, readChar_eq, ← accept_placed]
  rfl

theorem readInt_placed (m : State) :
    (m.placed r d past).readInt cfg = (m.readInt cfg).placed r d past := by
  have input : (m.placed r d past).input = m.input := rfl
  unfold readInt
  rw [input]
  cases m.input.readInt? with
  | none => rfl
  | some read => exact accept_placed { m with input := read.2 } read.1

theorem copyPaste_placed (m : State) :
    (m.placed r d past).copyPaste = m.copyPaste.placed r d past := by
  have tape : (m.placed r d past).tape = m.tape := rfl
  have clipboard : (m.placed r d past).clipboard = m.clipboard := rfl
  unfold copyPaste
  rw [tape, clipboard]
  cases m.clipboard.use m.tape with
  | error f => rfl
  | ok used => exact advance_placed { m with clipboard := used.1, tape := used.2 }

theorem jump_placed {t : ℤ} (holds : r.Holds d p) (h : p.jumps[m.index]? = some t) :
    (m.placed r d past).jump r = (m.jump p).placed r d past := by
  have there : r.jumps[(m.placed r d past).index]? = some (t + d) := holds.jumps _ _ h
  rw [jump, jump, there, h]
  rfl

theorem jumpIf_placed {test : ℕ → Bool}
    (h : (m.placed r d past).jump r = (m.jump p).placed r d past) :
    (m.placed r d past).jumpIf r test = (m.jumpIf p test).placed r d past := by
  have tape : (m.placed r d past).tape = m.tape := rfl
  unfold jumpIf
  rw [tape]
  cases m.tape.read with
  | error f => rfl
  | ok v =>
    by_cases taken : test v
    · simp only [taken, if_true, h]
    · simp only [taken]; exact advance_placed m

theorem perform_placed {c : Command} (recorded : 0 < m.journal.count)
    (jump : c = .loopStart ∨ c = .loopEnd ∨ c = .skip →
      (m.placed r d past).jump r = (m.jump p).placed r d past) :
    (m.placed r d past).perform cfg r c = (m.perform cfg p c).placed r d past := by
  cases c with
  | loopStart => exact jumpIf_placed (jump (.inl rfl))
  | loopEnd => exact jumpIf_placed (jump (.inr (.inl rfl)))
  | skip => exact jump (.inr (.inr rfl))
  | printChar => exact printChar_placed recorded
  | printInt => exact printInt_placed recorded
  | readChar => exact readChar_placed m
  | readInt => exact readInt_placed m
  | copyPaste => exact copyPaste_placed m
  | terminate => rfl
  | moveRight => exact onTape_placed m (.ok m.tape.moveRight)
  | _ => exact onTape_placed m _

theorem fetch_placed {c : Command} (past : State) (holds : r.Holds d p) (h : m.Sound cfg p)
    (due : p.fetch m.index = .ok (some c)) : r.fetch (m.placed r d past).index = .ok (some c) := by
  obtain ⟨i, index, _⟩ := h.exists_index
  rw [index, fetch_natCast, Array.getElem?_toList] at due
  have here := Except.ok.inj due
  have inside : i < p.size := (Array.getElem?_eq_some_iff.1 here).1
  have there : (m.placed r d past).index = ((d + i : ℕ) : ℤ) := by
    simp only [placed, index]
    omega
  rw [there, fetch_natCast, Array.getElem?_toList, holds.commands i inside, here]

theorem step_placed {c : Command} (past : State) (holds : r.Holds d p) (resolved : p.Resolved)
    (h : m.Sound cfg p) (due : p.fetch m.index = .ok (some c)) :
    (m.placed r d past).step cfg r = (m.step cfg p).placed r d past := by
  have entered : (m.placed r d past).recorded = m.recorded.placed r d past := rfl
  rw [step_of_fetch due, step_of_fetch (fetch_placed past holds h due), entered]
  refine perform_placed (Nat.succ_pos _) fun kind => ?_
  obtain ⟨i, index, _⟩ := h.exists_index
  rw [index, fetch_natCast] at due
  obtain ⟨t, leads⟩ : ∃ t, Leads p.commands.toList i t := by
    rw [resolved.resolvable.exists_leads_iff, Except.ok.inj due]
    simpa using kind
  have index' : m.recorded.index = i := index
  exact jump_placed holds (index' ▸ resolved.tabulates.getElem? leads)

/-- A run of `p` is one of `r` too, as long as `r` is over where `p` is. -/
theorem runFor_placed {k : ℕ} (past : State) (holds : r.Holds d p) (resolved : p.Resolved)
    (h : m.Sound cfg p)
    (atEnd : ∀ n t, n ≤ k → Reaches cfg p m n t → p.fetch t.index = .ok none →
      r.fetch (t.placed r d past).index = .ok none) :
    (m.placed r d past).runFor cfg r k =
      ((m.runFor cfg p k).1, (m.runFor cfg p k).2.placed r d past) := by
  induction k generalizing m with
  | zero =>
    rcases h.fetch_cases with ended | ⟨c, due⟩
    · rw [runFor, runFor, atEnd 0 m le_rfl (.refl m) ended, ended]
    · rw [runFor, runFor, fetch_placed past holds h due, due]
  | succ k ih =>
    rcases h.fetch_cases with ended | ⟨c, due⟩
    · rw [runFor, runFor, step, step, atEnd 0 m (Nat.zero_le _) (.refl m) ended, ended]
    · rw [runFor, runFor, step_placed past holds resolved h due]
      cases stepped : m.step cfg p with
      | halt e u => rfl
      | next u =>
        exact ih (h.next resolved stepped) fun n t hn reached =>
          atEnd (n + 1) t (Nat.succ_le_succ hn) (.next stepped reached)

theorem traceFor_placed {k : ℕ} (past : State) (holds : r.Holds d p) (resolved : p.Resolved)
    (h : m.Sound cfg p)
    (atEnd : ∀ n t, n < k → Reaches cfg p m n t → p.fetch t.index = .ok none →
      r.fetch (t.placed r d past).index = .ok none) (before seen : Array Observation) :
    (m.placed r d past).traceFor cfg r k (before ++ seen.map (Observation.shift d)) =
      before ++ (m.traceFor cfg p k seen).map (Observation.shift d) := by
  induction k generalizing m seen with
  | zero => rfl
  | succ k ih =>
    rcases h.fetch_cases with ended | ⟨c, due⟩
    · rw [traceFor_of_over ended, traceFor_of_over (atEnd 0 m (Nat.zero_lt_succ _) (.refl m) ended)]
    · have there := fetch_placed past holds h due
      have placed := step_placed past holds resolved h due
      have pushed : (before ++ seen.map (Observation.shift d)).push (m.placed r d past).observed =
          before ++ (seen.push m.observed).map (Observation.shift d) := by
        rw [Array.map_push, Array.append_push]
        rfl
      cases stepped : m.step cfg p with
      | halt e u =>
        rw [stepped] at placed
        rw [traceFor_of_halt there placed, traceFor_of_halt due stepped, pushed]
      | next u =>
        rw [stepped] at placed
        rw [traceFor_of_next placed, traceFor_of_next stepped, pushed]
        exact ih (h.next resolved stepped) (fun n t hn reached =>
          atEnd (n + 1) t (Nat.succ_lt_succ hn) (.next stepped reached)) _

theorem entry_placed {i a b : ℕ} {location : Location} (holds : r.Holds d p) (inside : i < p.size)
    (index : m.index = i) (place : p.locations[i]? = some (some location)) :
    ((m.recorded.spent a b).placed r d past).journal.entry =
      .ok (some ⟨past.journal.count + m.journal.count, m.index + d, location⟩) := by
  have moved : m.index + d = ((d + i : ℕ) : ℤ) := by omega
  have there : r.location (m.index + d) = .ok location := by
    rw [moved, Program.location_natCast ((holds.locations i inside).trans place)]
  simp [placed, spent, recorded, Journal.record, Journal.entry, there, Except.map]

theorem outcome_placed (past : State) (holds : r.Holds d p) (resolved : p.Resolved)
    (located : p.Located) (h : m.Sound cfg p) (k : ℕ) :
    Session.outcome (m.runFor cfg p k).1 ((m.runFor cfg p k).2.placed r d past) =
      (Session.outcome (m.runFor cfg p k).1 (m.runFor cfg p k).2).mapFailure
        (Failure.later past.journal.count) := by
  cases ended : (m.runFor cfg p k).1 with
  | none => rfl
  | some e =>
    cases e with
    | finished => rfl
    | terminated => rfl
    | waiting => rfl
    | failed f =>
      obtain ⟨n, i, t, c, hn, failing⟩ := h.failsAt_of_runFor resolved ended
      obtain ⟨a, b, ran⟩ := h.runFor_of_failsAt resolved failing hn
      obtain ⟨location, place, _⟩ := located i c failing.due
      have inside : i < p.size := (Array.getElem?_eq_some_iff.1 failing.due).1
      have sound := h.reaches resolved failing.reached
      rw [ran]
      exact congrArg Outcome.failed (Journal.stamp_later
        (sound.entry_recorded failing.index place) (entry_placed holds inside failing.index place) f)

theorem index_of_mem_traceFor {k : ℕ} {o : Observation} {seen : Array Observation}
    (resolved : p.Resolved) (h : m.Sound cfg p) (known : ∀ o ∈ seen, 0 ≤ o.index ∧ o.index < p.size)
    (mem : o ∈ m.traceFor cfg p k seen) : 0 ≤ o.index ∧ o.index < p.size := by
  induction k generalizing m seen with
  | zero => exact known o mem
  | succ k ih =>
    rcases h.fetch_cases with ended | ⟨c, due⟩
    · rw [traceFor_of_over ended] at mem
      exact known o mem
    · have inside : ∀ o ∈ seen.push m.observed, 0 ≤ o.index ∧ o.index < p.size := by
        intro o mem
        rcases Array.mem_push.1 mem with old | rfl
        · exact known o old
        · exact ⟨h.index.1, h.index_lt due⟩
      cases stepped : m.step cfg p with
      | halt e u =>
        rw [traceFor_of_halt due stepped] at mem
        exact inside o mem
      | next u =>
        rw [traceFor_of_next stepped] at mem
        exact ih (h.next resolved stepped) inside mem

end State

theorem Reaches.placed {cfg : Config} {p r : Program} {d n : ℕ} {m t : State}
    (reached : Reaches cfg p m n t) (past : State) (holds : r.Holds d p) (resolved : p.Resolved)
    (h : m.Sound cfg p) :
    Reaches cfg r (m.placed r d past) n (t.placed r d past) := by
  induction reached with
  | refl => exact .refl _
  | next stepped _ ih =>
    obtain ⟨c, due, _⟩ := State.step_eq_next stepped
    have there := State.step_placed past holds resolved h due
    rw [stepped] at there
    exact .next there (ih (h.next resolved stepped))

end SlangTape
