import SlangTape.Proofs.Placement

set_option autoImplicit false

namespace SlangTape

theorem leads_append_iff {cs ds : List Command} (h : Resolvable cs) (h' : Resolvable ds) {i t : ℕ} :
    Leads (cs ++ ds) i t ↔
      Leads cs i t ∨ ∃ j u, i = cs.length + j ∧ t = cs.length + u ∧ Leads ds j u := by
  constructor
  · intro leads
    have kind := ((h.append h').exists_leads_iff i).1 ⟨t, leads⟩
    by_cases inside : i < cs.length
    · rw [List.getElem?_append_left inside] at kind
      obtain ⟨t', own⟩ := (h.exists_leads_iff i).2 kind
      rw [leads.unique (own.append_right ds)]
      exact .inl own
    · obtain ⟨j, rfl⟩ : ∃ j, i = cs.length + j := ⟨i - cs.length, by omega⟩
      rw [getElem?_length_add] at kind
      obtain ⟨u, own⟩ := (h'.exists_leads_iff j).2 kind
      exact .inr ⟨j, u, rfl, leads.unique (own.append_left cs), own⟩
  · rintro (own | ⟨j, u, rfl, rfl, own⟩)
    · exact own.append_right ds
    · exact own.append_left cs

theorem tabulates_append {cs ds : List Command} {jumps jumps' whole : Jumps} (h : Resolvable cs)
    (h' : Resolvable ds) (first : Tabulates jumps cs) (second : Tabulates jumps' ds)
    (both : Tabulates whole (cs ++ ds)) (k t : ℤ) :
    whole[k]? = some t ↔ jumps[k]? = some t ∨ jumps'[k - cs.length]? = some (t - cs.length) := by
  rw [both k t, first k t, second]
  simp only [leads_append_iff h h']
  constructor
  · rintro ⟨i, u, rfl, rfl, own | ⟨j, v, rfl, rfl, own⟩⟩
    · exact .inl ⟨i, u, rfl, rfl, own⟩
    · exact .inr ⟨j, v, by omega, by omega, own⟩
  · rintro (⟨i, u, rfl, rfl, own⟩ | ⟨j, v, hk, ht, own⟩)
    · exact ⟨i, u, rfl, rfl, .inl own⟩
    · exact ⟨cs.length + j, cs.length + v, by omega, by omega, .inr ⟨j, v, rfl, rfl, own⟩⟩

namespace Program

/-- The commands and places of `q` after those of `p`, and the jumps of both, with those of `q` moved
along. -/
structure Joins (r p q : Program) : Prop where
  commands : r.commands = p.commands ++ q.commands
  locations : r.locations = p.locations ++ q.locations
  jumps : ∀ k t : ℤ,
    r.jumps[k]? = some t ↔ p.jumps[k]? = some t ∨ q.jumps[k - p.size]? = some (t - p.size)

theorem size_locations {file : String} {ts : List Token} {p : Program}
    (h : ofTokens file ts = .ok p) : p.locations.size = p.size := by
  obtain ⟨jumps, _, rfl⟩ := (ofTokens_eq_ok_iff file ts p).1 h
  simp [size]

theorem exists_joins {file : String} {ts us : List Token} {p q : Program}
    (hp : ofTokens file ts = .ok p) (hq : ofTokens file us = .ok q) :
    ∃ r, ofTokens file (ts ++ us) = .ok r ∧ r.Joins p q := by
  obtain ⟨jumps, first, rfl⟩ := (ofTokens_eq_ok_iff file ts p).1 hp
  obtain ⟨jumps', second, rfl⟩ := (ofTokens_eq_ok_iff file us q).1 hq
  obtain ⟨h, tabulates⟩ := tabulates_of_ofCommands first
  obtain ⟨h', tabulates'⟩ := tabulates_of_ofCommands second
  obtain ⟨whole, both⟩ := (ofCommands_eq_ok_iff _).2 (h.append h')
  have tabulates'' := (tabulates_of_ofCommands both).2
  rw [← List.map_append] at both
  refine ⟨_, (ofTokens_eq_ok_iff file (ts ++ us) _).2 ⟨whole, both, rfl⟩, by simp, by simp, ?_⟩
  intro k t
  simpa [size] using tabulates_append h h' tabulates tabulates' tabulates'' k t

variable {p q r : Program}

theorem Joins.holds_first (h : r.Joins p q) (places : p.locations.size = p.size) :
    r.Holds 0 p where
  commands i inside := by
    have inside' : i < p.commands.size := inside
    rw [h.commands, Nat.zero_add, Array.getElem?_append_left inside']
  locations i inside := by
    rw [h.locations, Nat.zero_add, Array.getElem?_append_left (places ▸ inside)]
  jumps k t found := by simpa using (h.jumps k t).2 (.inl found)

theorem Joins.holds_second (h : r.Joins p q) (places : p.locations.size = p.size) :
    r.Holds p.size q where
  commands i _ := by
    rw [h.commands, size, Array.getElem?_append_right (Nat.le_add_right _ _), Nat.add_sub_cancel_left]
  locations i _ := by
    rw [h.locations, ← places, Array.getElem?_append_right (Nat.le_add_right _ _),
      Nat.add_sub_cancel_left]
  jumps k t found := (h.jumps _ _).2 (.inr (by simpa using found))

theorem Joins.size_eq (h : r.Joins p q) : r.size = p.size + q.size := by
  simp [size, h.commands]

end Program

/-- A fresh machine for `q`, but with the tape and the clipboard of `m`. -/
def State.handedTo (q : Program) (m : State) : State where
  tape := m.tape
  clipboard := m.clipboard
  input := m.input
  sink := m.sink
  journal := .opened q

namespace State

variable {cfg : Config} {p q r : Program} {input : Input} {sink : Sink} {m : State} {k : ℕ}

theorem sound_handedTo (h : m.Sound cfg p) (q : Program) : (m.handedTo q).Sound cfg q where
  index := ⟨Int.le_refl 0, Int.natCast_nonneg _⟩
  tape := h.tape
  clipboard := h.clipboard
  program := rfl

theorem placed_handedTo {d : ℕ} (h : m.index = d) :
    (m.handedTo q).placed r d m = { m with journal.program := some r } := by
  simp [placed, handedTo, Journal.opened, h]

theorem over_second (join : r.Joins p q) {past t : State} (h : t.Sound cfg q)
    (atEnd : q.fetch t.index = .ok none) : r.fetch (t.placed r p.size past).index = .ok none := by
  have index := h.over_iff.1 atEnd
  have size := join.size_eq
  have moved : (t.placed r p.size past).index = t.index + p.size := rfl
  rw [Program.fetch, if_pos (by omega)]

theorem reaches_second (join : r.Joins p q) (places : p.locations.size = p.size)
    (resolved : p.Resolved) {n : ℕ} (reached : Reaches cfg p (start cfg p input sink) n m)
    (atEnd : p.fetch m.index = .ok none) :
    Reaches cfg r (start cfg r input sink) n ((m.handedTo q).placed r p.size m) := by
  have sound := sound_start cfg p input sink
  have there := reached.placed (start cfg p input sink) (join.holds_first places) resolved sound
  have index := (sound.reaches resolved reached).over_iff.1 atEnd
  rw [placed_start, placed_start] at there
  rwa [placed_handedTo index]

theorem traceFor_first (holds : r.Holds 0 p) (resolved : p.Resolved)
    (due : ∀ n t, n < k → Reaches cfg p (start cfg p input sink) n t → p.fetch t.index ≠ .ok none) :
    (start cfg r input sink).traceFor cfg r k #[] =
      (start cfg p input sink).traceFor cfg p k #[] := by
  have traced := traceFor_placed (start cfg p input sink) holds resolved
    (sound_start cfg p input sink) (fun n t hn reached atEnd => absurd atEnd (due n t hn reached)) #[] #[]
  rwa [placed_start, Observation.shift_zero, Array.map_id, Array.map_id, Array.empty_append,
    Array.empty_append] at traced

end State

section Joined

variable {file : String} {ts us : List Token} {cfg : Config} {p q r : Program} {input : Input}
  {sink : Sink}

theorem Program.Joins.run_unfinished (join : r.Joins p q) (hp : ofTokens file ts = .ok p) {k : ℕ}
    (unfinished : ∀ m, (State.start cfg p input sink).runFor cfg p k ≠ (some .finished, m)) :
    let first := State.start cfg p input sink
    let whole := State.start cfg r input sink
    let part := first.runFor cfg p k
    whole.runFor cfg r k = (part.1, { part.2 with journal.program := some r }) ∧
    Session.outcome part.1 { part.2 with journal.program := some r } =
      Session.outcome part.1 part.2 ∧
    whole.traceFor cfg r k #[] = first.traceFor cfg p k #[] ∧
    ∀ o ∈ whole.traceFor cfg r k #[], 0 ≤ o.index ∧ o.index < p.size := by
  intro first whole part
  have resolved := resolved_of_ofTokens hp
  have sound : first.Sound cfg p := State.sound_start cfg p input sink
  have holds := join.holds_first (size_locations hp)
  have due (n : ℕ) (t : State) (hn : n ≤ k) (reached : Reaches cfg p first n t) :
      p.fetch t.index ≠ .ok none := fun atEnd =>
    unfinished t (reached.runFor_of_finish atEnd hn)
  have ran := State.runFor_placed first holds resolved sound fun n t hn reached atEnd =>
    absurd atEnd (due n t hn reached)
  have outcome := State.outcome_placed first holds resolved (located_of_ofTokens hp) sound k
  have traced : whole.traceFor cfg r k #[] = first.traceFor cfg p k #[] :=
    State.traceFor_first holds resolved fun n t hn => due n t (Nat.le_of_lt hn)
  have fresh : first.journal.count = 0 := rfl
  rw [State.placed_start, State.placed_start] at ran
  rw [State.placed_start, fresh, Outcome.mapFailure_later_zero] at outcome
  refine ⟨ran, outcome, traced, fun o mem => ?_⟩
  rw [traced] at mem
  exact State.index_of_mem_traceFor resolved sound (by simp) mem

theorem Program.Joins.run_finished (join : r.Joins p q) (hp : ofTokens file ts = .ok p)
    (hq : ofTokens file us = .ok q) {n : ℕ} {m : State}
    (reached : Reaches cfg p (State.start cfg p input sink) n m)
    (atEnd : p.fetch m.index = .ok none) (k : ℕ) :
    let first := State.start cfg p input sink
    let whole := State.start cfg r input sink
    let rest := (m.handedTo q).runFor cfg q k
    whole.runFor cfg r (n + k) = (rest.1, rest.2.placed r p.size m) ∧
    Session.outcome rest.1 (rest.2.placed r p.size m) =
      (Session.outcome rest.1 rest.2).mapFailure (Failure.later m.journal.count) ∧
    whole.traceFor cfg r (n + k) #[] = first.traceFor cfg p n #[] ++
      ((m.handedTo q).traceFor cfg q k #[]).map (Observation.shift p.size) := by
  intro first whole rest
  have places := size_locations hp
  have resolved := resolved_of_ofTokens hp
  have resolved' := resolved_of_ofTokens hq
  have holds := join.holds_second places
  have sound := (State.sound_start cfg p input sink).reaches resolved reached
  have sound' := State.sound_handedTo sound q
  have there := State.reaches_second join places resolved reached atEnd
  have ended (j : ℕ) (t : State) (later : Reaches cfg q (m.handedTo q) j t)
      (atEnd' : q.fetch t.index = .ok none) : r.fetch (t.placed r p.size m).index = .ok none :=
    State.over_second join (sound'.reaches resolved' later) atEnd'
  have before : whole.traceFor cfg r n #[] = first.traceFor cfg p n #[] := by
    refine State.traceFor_first (join.holds_first places) resolved fun j t hj earlier => ?_
    obtain ⟨c, due⟩ := earlier.due_of_lt reached hj
    rw [due]
    nofun
  refine ⟨?_, State.outcome_placed m holds resolved' (located_of_ofTokens hq) sound' k, ?_⟩
  · rw [there.runFor_add]
    exact State.runFor_placed m holds resolved' sound' fun j t _ => ended j t
  · rw [there.traceFor_add, before]
    simpa using State.traceFor_placed m holds resolved' sound' (fun j t _ => ended j t)
      (first.traceFor cfg p n #[]) #[]

end Joined

/-- Two accepted token lists make an accepted one. As long as the first program has not run off its
end, which it never does if it stops or fails before, the joined program does what the first does and
performs no command of the second. From there on it does what the second does on the tape, clipboard
and channels that the first leaves. -/
theorem runFor_append {file : String} {ts us : List Token} {p q : Program}
    (hp : Program.ofTokens file ts = .ok p) (hq : Program.ofTokens file us = .ok q) :
    ∃ r, Program.ofTokens file (ts ++ us) = .ok r ∧ r.Joins p q ∧
      ∀ (cfg : Config) (input : Input) (sink : Sink),
        let first := State.start cfg p input sink
        let whole := State.start cfg r input sink
        (∀ k, (∀ m, first.runFor cfg p k ≠ (some .finished, m)) →
          let part := first.runFor cfg p k
          whole.runFor cfg r k = (part.1, { part.2 with journal.program := some r }) ∧
          Session.outcome part.1 { part.2 with journal.program := some r } =
            Session.outcome part.1 part.2 ∧
          whole.traceFor cfg r k #[] = first.traceFor cfg p k #[] ∧
          ∀ o ∈ whole.traceFor cfg r k #[], 0 ≤ o.index ∧ o.index < p.size) ∧
        ∀ n m, first.runFor cfg p n = (some .finished, m) →
          let steps := m.journal.count
          (first.traceFor cfg p n #[]).size = steps ∧
          ∀ k,
            let rest := (m.handedTo q).runFor cfg q k
            whole.runFor cfg r (steps + k) = (rest.1, rest.2.placed r p.size m) ∧
            Session.outcome rest.1 (rest.2.placed r p.size m) =
              (Session.outcome rest.1 rest.2).mapFailure (Failure.later steps) ∧
            whole.traceFor cfg r (steps + k) #[] = first.traceFor cfg p n #[] ++
              ((m.handedTo q).traceFor cfg q k #[]).map (Observation.shift p.size) := by
  obtain ⟨r, accepted, join⟩ := Program.exists_joins hp hq
  refine ⟨r, accepted, join, fun cfg input sink => ?_⟩
  intro first whole
  constructor
  · intro k unfinished
    exact join.run_unfinished hp unfinished
  · intro n m ran steps
    have resolved := resolved_of_ofTokens hp
    have sound : first.Sound cfg p := State.sound_start cfg p input sink
    obtain ⟨n', hn, reached, atEnd⟩ := sound.reaches_of_finished resolved ran
    obtain rfl : steps = n' := (sound.count_of_reaches resolved reached).trans (Nat.zero_add n')
    rw [reached.traceFor_of_finish atEnd hn]
    constructor
    · rw [reached.size_traceFor]
      exact Nat.zero_add steps
    · intro k
      exact join.run_finished hp hq reached atEnd k

theorem runFor_append_skipped_loop :
    let ts := [.readChar, .copyPaste, .moveRight, .loopStart, .loopEnd].map (Token.mk · .start)
    let us := [.copyPaste, .printInt, .readChar, .printChar].map (Token.mk · .start)
    let input := Input.ofText ['A', 'B', 'C']
    ∃ p q r m, Program.ofTokens "joined" ts = .ok p ∧ Program.ofTokens "joined" us = .ok q ∧
      Program.ofTokens "joined" (ts ++ us) = .ok r ∧ r.Joins p q ∧
      (State.start {} p input {}).runFor {} p 5 = (some .finished, m) ∧ m.journal.count = 4 ∧
      m.tape.cell 0 = 65 ∧ m.clipboard = some 65 ∧ m.input.answers = [['B'], ['C']] ∧
      (∀ k, (State.start {} r input {}).runFor {} r (4 + k) =
        (((m.handedTo q).runFor {} q k).1, ((m.handedTo q).runFor {} q k).2.placed r p.size m)) ∧
      ((State.start {} r input {}).runFor {} r 8).2.events.toList = [⟨5, ['6', '5']⟩, ⟨7, ['B']⟩] := by
  intro ts us input
  have facts : ((Program.ofTokens "joined" ts).toOption.bind fun p =>
      (Program.ofTokens "joined" (ts ++ us)).toOption.map fun r =>
        let ran := (State.start {} p input {}).runFor {} p 5
        let m := ran.2
        decide (ran.1 = some .finished ∧ m.journal.count = 4 ∧ m.tape.cell 0 = 65 ∧
          m.clipboard = some 65 ∧ m.input.answers = [['B'], ['C']] ∧
          ((State.start {} r input {}).runFor {} r 8).2.events.toList =
            [⟨5, ['6', '5']⟩, ⟨7, ['B']⟩])) = some true := by decide +kernel
  cases first : Program.ofTokens "joined" ts with
  | error e =>
    rw [first] at facts
    cases facts
  | ok p =>
    have second : Program.ofTokens "joined" us = .ok _ := rfl
    obtain ⟨r, accepted, join, runs⟩ := runFor_append first second
    rw [first, accepted] at facts
    obtain ⟨finished, count, cell, held, unread, printed⟩ :=
      of_decide_eq_true (Option.some.inj facts)
    have ran := Prod.ext (y := (some Ending.finished, _)) finished rfl
    obtain ⟨_, later⟩ := (runs {} input {}).2 5 _ ran
    refine ⟨p, _, r, _, rfl, rfl, accepted, join, ran, count, cell, held, unread, fun k => ?_, printed⟩
    rw [← count]
    exact (later k).1

end SlangTape
