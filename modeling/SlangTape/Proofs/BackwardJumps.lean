import SlangTape.Proofs.Reporting

set_option autoImplicit false

namespace SlangTape

theorem Leads.le_iff {cs : List Command} {i t : ℕ} (h : Leads cs i t) :
    t ≤ i ↔ cs[i]? = some .loopEnd := by
  cases h with
  | pastEnd p =>
    have before := p.before
    refine iff_of_false (by omega) ?_
    rw [p.start]
    simp
  | pastStart p => exact iff_of_true p.before p.stop
  | pastNextEnd skip next =>
    have before := next.1.1
    refine iff_of_false (by omega) ?_
    rw [skip]
    simp

namespace Program

/-- The observed step was a loop end at a cell that was not zero. -/
def GoesBack (p : Program) (o : Observation) : Prop :=
  p.fetch o.index = .ok (some .loopEnd) ∧ o.cell ≠ 0

instance (p : Program) (o : Observation) : Decidable (p.GoesBack o) :=
  inferInstanceAs (Decidable (_ ∧ _))

/-- How many of the observed steps went back. -/
def returns (p : Program) (seen : Array Observation) : ℕ := seen.countP fun o => p.GoesBack o

theorem returns_push (p : Program) (seen : Array Observation) (o : Observation) :
    p.returns (seen.push o) = p.returns seen + if p.GoesBack o then 1 else 0 := by
  simp [returns, Array.countP_push]

theorem returns_of_loopFree {p : Program} (loopFree : .loopEnd ∉ p.commands)
    (seen : Array Observation) : p.returns seen = 0 := by
  refine Array.countP_eq_zero.2 fun o _ => ?_
  rw [decide_eq_true_iff]
  rintro ⟨due, _⟩
  exact loopFree (mem_of_fetch due)

end Program

section Runs

variable {cfg : Config} {p : Program} {m t u : State} {c : Command} {n : ℕ}

theorem Performs.index_cases (h : Performs cfg p m c (.next u)) :
    u.index = m.index + 1 ∨ c.JumpsAt m.current ∧ p.jumps[m.index]? = some u.index := by
  cases h with
  | jumps taken found => exact .inr ⟨taken, found⟩
  | _ => exact .inl rfl

namespace State.Sound

theorem lt_or_goesBack (h : m.Sound cfg p) (resolved : p.Resolved)
    (stepped : m.step cfg p = .next u) : m.index < u.index ∨ p.GoesBack m.observed := by
  obtain ⟨c, due, performed⟩ := step_eq_next stepped
  have outcome := (h.performs resolved due).1
  rw [performed] at outcome
  rcases outcome.index_cases with next | ⟨taken, found⟩
  · have ahead : u.index = m.index + 1 := next
    exact .inl (by omega)
  · obtain ⟨i, t, here, there, leads⟩ := (resolved.tabulates _ _).1 found
    have index : m.index = i := here
    by_cases back : t ≤ i
    · have stop := leads.le_iff.1 back
      have due' : p.fetch m.index = .ok (some .loopEnd) := by rw [index, fetch_natCast, stop]
      rw [due'] at due
      cases due
      exact .inr ⟨due', taken⟩
    · exact .inl (by omega)

theorem step_of_goesBack (h : m.Sound cfg p) (resolved : p.Resolved)
    (back : p.GoesBack m.observed) :
    ∃ t : ℕ, p.jumps[m.index]? = some (t : ℤ) ∧ t ≤ m.index ∧
      m.step cfg p = .next { m.recorded with index := t } := by
  obtain ⟨due, nonzero⟩ : p.fetch m.index = .ok (some .loopEnd) ∧ m.current ≠ 0 := back
  obtain ⟨i, index, _⟩ := h.exists_index
  have stop : p.commands.toList[i]? = some .loopEnd := by
    rw [index, fetch_natCast] at due
    exact Except.ok.inj due
  obtain ⟨t, leads⟩ := (resolved.resolvable.exists_leads_iff i).2 (.inr (.inl stop))
  have found : p.jumps[m.index]? = some (t : ℤ) := by
    rw [index]
    exact resolved.tabulates.getElem? leads
  have found' : p.jumps[m.recorded.index]? = some (t : ℤ) := found
  have taken : (m.recorded.current != 0) = true := bne_iff_ne.2 nonzero
  have behind := leads.le_iff.2 stop
  refine ⟨t, found, by omega, ?_⟩
  rw [step_of_fetch due, State.perform, jumpIf, read_eq (s := m.recorded) h.tape.inside]
  simp only [taken, jump, found']
  rfl

/-- A step either gets ahead or goes back, and one that goes back loses less than the whole program. -/
theorem advance_of_step (h : m.Sound cfg p) (resolved : p.Resolved)
    (stepped : m.step cfg p = .next u) (seen : Array Observation) :
    (p.size * p.returns seen : ℤ) + m.index + 1 ≤
      p.size * p.returns (seen.push m.observed) + u.index := by
  rw [Program.returns_push]
  by_cases back : p.GoesBack m.observed
  · -- The index was inside the program and is not negative afterwards.
    obtain ⟨c, due, _⟩ := step_eq_next stepped
    have inside := h.index_lt due
    have later := (h.next resolved stepped).index
    rw [if_pos back, Int.natCast_add, Int.mul_add]
    omega
  · have ahead := (h.lt_or_goesBack resolved stepped).resolve_right back
    rw [if_neg back, Nat.add_zero]
    omega

theorem advance_of_reaches (h : m.Sound cfg p) (resolved : p.Resolved)
    (reached : Reaches cfg p m n t) (seen : Array Observation) :
    (p.size * p.returns seen : ℤ) + m.index + n ≤
      p.size * p.returns (m.traceFor cfg p n seen) + t.index := by
  induction reached generalizing seen with
  | refl => simp [traceFor]
  | @next s v t n stepped _ ih =>
    have first := h.advance_of_step resolved stepped seen
    have rest := ih (h.next resolved stepped) (seen.push s.observed)
    rw [traceFor_of_next stepped]
    omega

theorem count_of_halt {e : Ending} (h : m.Sound cfg p) (resolved : p.Resolved)
    (halts : m.step cfg p = .halt e u) :
    (u.journal.count : ℤ) + m.index ≤ m.journal.count + p.size := by
  have recorded : m.recorded.journal.count = m.journal.count + 1 := rfl
  have index := h.index
  rcases h.halt_cases resolved halts with
    ⟨_, _, rfl⟩ | ⟨_, due, rfl⟩ | ⟨_, _, _, _, _, due, _, rfl⟩ | ⟨_, due, _, rfl⟩
  · omega
  · have inside := h.index_lt due
    omega
  · have inside := h.index_lt due
    simp only [spent]
    omega
  · have inside := h.index_lt due
    omega

end State.Sound

theorem returns_le_traceFor (cfg : Config) (p : Program) (m : State) (k : ℕ)
    (seen : Array Observation) :
    p.returns seen ≤ p.returns (m.traceFor cfg p k seen) := by
  induction k generalizing m seen with
  | zero => exact Nat.le_refl _
  | succ k ih =>
    have pushed : p.returns seen ≤ p.returns (seen.push m.observed) := by
      rw [Program.returns_push]
      exact Nat.le_add_right _ _
    cases stepped : m.step cfg p with
    | next u =>
      rw [State.traceFor_of_next stepped]
      exact pushed.trans (ih u _)
    | halt e u =>
      rw [State.traceFor_of_last stepped]
      split
      · exact pushed
      · exact Nat.le_refl _

variable {input : Input} {sink : Sink}

theorem Reaches.le_returns (resolved : p.Resolved)
    (reached : Reaches cfg p (.start cfg p input sink) n t) :
    (n : ℤ) ≤ p.size * p.returns ((State.start cfg p input sink).traceFor cfg p n #[]) + t.index := by
  have advance := (State.sound_start cfg p input sink).advance_of_reaches resolved reached #[]
  simpa [Program.returns, State.start] using advance

theorem count_runFor_le (resolved : p.Resolved) (k : ℕ) :
    ((State.start cfg p input sink).runFor cfg p k).2.journal.count ≤
      p.size * (p.returns ((State.start cfg p input sink).traceFor cfg p k #[]) + 1) := by
  have start := State.sound_start cfg p input sink
  rw [Nat.mul_add, Nat.mul_one]
  rcases runFor_cases cfg p k (.start cfg p input sink) with
    ⟨t, _, reached, _, ran⟩ | ⟨n, t, e, u, hn, reached, halts, ran⟩
  · have index := (start.reaches resolved reached).index
    have steps := reached.le_returns resolved
    have count : t.journal.count = 0 + k := start.count_of_reaches resolved reached
    rw [ran]
    dsimp only
    omega
  · have steps := reached.le_returns resolved
    have count : t.journal.count = 0 + n := start.count_of_reaches resolved reached
    have last := (start.reaches resolved reached).count_of_halt resolved halts
    obtain ⟨d, rfl⟩ : ∃ d, k = n + d := ⟨k - n, by omega⟩
    rw [ran, reached.traceFor_add]
    have more := Nat.mul_le_mul_left p.size (returns_le_traceFor cfg p t d
      ((State.start cfg p input sink).traceFor cfg p n #[]))
    dsimp only
    omega

theorem ReadsForever.exists_waiting (h : ReadsForever cfg p m) :
    ∃ n u, m.runFor cfg p (n + 1) = (some .waiting, u) := by
  obtain ⟨n, t, reached, due, endless⟩ := h
  exact ⟨n, _, reached.runFor_of_halt (State.step_of_endless due endless) (Nat.lt_succ_self n)⟩

theorem State.Sound.waiting_iff_readsForever {e : Ending} {k : ℕ} (h : m.Sound cfg p)
    (resolved : p.Resolved) (ended : m.runFor cfg p k = (some e, t)) :
    e = .waiting ↔ ReadsForever cfg p m := by
  constructor
  · rintro rfl
    exact h.readsForever_of_runFor resolved (congrArg Prod.fst ended)
  · intro forever
    obtain ⟨n, u, waiting⟩ := forever.exists_waiting
    have late := runFor_of_ended ended (n + 1)
    rw [Nat.add_comm, runFor_of_ended waiting k] at late
    cases late
    rfl

theorem exists_ending_of_loopFree (resolved : p.Resolved) (loopFree : .loopEnd ∉ p.commands) :
    ∃ e, ((State.start cfg p input sink).runFor cfg p p.size).1 = some e ∧
      (e = .waiting ↔ ReadsForever cfg p (.start cfg p input sink)) := by
  have start := State.sound_start cfg p input sink
  rcases runFor_cases cfg p p.size (.start cfg p input sink) with
    ⟨t, c, reached, due, _⟩ | ⟨_, _, e, _, _, _, _, ran⟩
  · have inside := (start.reaches resolved reached).index_lt due
    have steps := reached.le_returns resolved
    rw [Program.returns_of_loopFree loopFree] at steps
    omega
  · exact ⟨e, by rw [ran], start.waiting_iff_readsForever resolved ran⟩

theorem readsForever_or_exists_returns_gt (resolved : p.Resolved)
    (never : ∀ k e, ((State.start cfg p input sink).runFor cfg p k).1 = some e → e = .waiting) :
    ReadsForever cfg p (.start cfg p input sink) ∨
      ∀ b, ∃ k, b < p.returns ((State.start cfg p input sink).traceFor cfg p k #[]) := by
  have start := State.sound_start cfg p input sink
  refine or_iff_not_imp_left.2 fun returning b => ?_
  let k := p.size * (b + 1) + 1
  refine ⟨k, ?_⟩
  rcases runFor_cases cfg p k (.start cfg p input sink) with
    ⟨t, c, reached, _, _⟩ | ⟨_, _, e, _, _, _, _, ran⟩
  · have index := (start.reaches resolved reached).index
    have steps := reached.le_returns resolved
    have more : p.size * (b + 1) <
        p.size * (p.returns ((State.start cfg p input sink).traceFor cfg p k #[]) + 1) := by
      rw [Nat.mul_add p.size (p.returns _), Nat.mul_one]
      omega
    exact Nat.lt_of_succ_lt_succ (Nat.lt_of_mul_lt_mul_left more)
  · have waiting : e = .waiting := never k e (by rw [ran])
    exact absurd ((start.waiting_iff_readsForever resolved ran).1 waiting) returning

theorem Reaches.runFor_eq_none {I : State → Prop} (reached : Reaches cfg p m n t) (holds : I t)
    (goesOn : ∀ a, I a → ∃ b, a.step cfg p = .next b ∧ I b) (k : ℕ) :
    (m.runFor cfg p k).1 = none := by
  have keeps (a b : State) (ha : I a) (stepped : a.step cfg p = .next b) : I b := by
    obtain ⟨b', stepped', hb⟩ := goesOn a ha
    rw [stepped] at stepped'
    cases stepped'
    exact hb
  rcases ran : m.runFor cfg p k with ⟨_ | e, u⟩
  · rfl
  · have ended := runFor_of_ended ran n
    rw [Nat.add_comm, reached.runFor_add] at ended
    rcases runFor_cases cfg p k t with ⟨_, _, _, _, ran'⟩ | ⟨_, v, _, _, _, further, halts, _⟩
    · rw [ran'] at ended
      cases ended
    · obtain ⟨b, stepped, _⟩ := goesOn v (further.keeps holds keeps)
      rw [stepped] at halts
      cases halts

end Runs

/-- In a run of an accepted source every step that goes on moves the instruction index ahead, unless it
is a loop end at a cell that is not zero; such a one always jumps, and never ahead. A run in which that
has happened `b` times has taken at most `b + 1` times as many steps as there are commands. A program
without loops takes no more steps than it has commands, and then it is over unless it reads for ever.
A run that is never over reads for ever or goes back without bound. -/
theorem only_loopEnd_goesBack (s : Session) (p : Program) (accepted : s.parse = .ok p) :
    let start := s.machine p
    (∀ n t, Reaches s.config p start n t →
      (∀ u, t.step s.config p = .next u → t.index < u.index ∨ p.GoesBack t.observed) ∧
      (p.GoesBack t.observed → ∃ u, t.step s.config p = .next u ∧ u.index ≤ t.index)) ∧
    (∀ k, (start.runFor s.config p k).2.journal.count ≤ p.size * (p.returns (s.trace k p) + 1)) ∧
    (.loopEnd ∉ p.commands → ∃ e, (start.runFor s.config p p.size).1 = some e ∧
      (e = .waiting ↔ ReadsForever s.config p start)) ∧
    ((∀ k e, (start.runFor s.config p k).1 = some e → e = .waiting) →
      ReadsForever s.config p start ∨ ∀ b, ∃ k, b < p.returns (s.trace k p)) := by
  intro start
  have resolved := resolved_of_parse accepted
  refine ⟨fun n t reached => ?_, count_runFor_le resolved, exists_ending_of_loopFree resolved,
    readsForever_or_exists_returns_gt resolved⟩
  have sound := (State.sound_start s.config p s.input s.sink).reaches resolved reached
  refine ⟨fun u stepped => sound.lt_or_goesBack resolved stepped, fun back => ?_⟩
  obtain ⟨target, _, behind, stepped⟩ := sound.step_of_goesBack resolved back
  exact ⟨_, stepped, behind⟩

theorem only_loopEnd_goesBack_empty_loop :
    let s : Session :=
      { source := Command.increment.spelling ++ Command.loopStart.spelling ++
          Command.loopEnd.spelling
        file := "empty"
        config := {}
        language := .standard
        input := .ofText [] }
    ∃ p, s.parse = .ok p ∧ p.size = 3 ∧ p.returns (s.trace 9 p) = 7 ∧
      (∀ k, ((s.machine p).runFor s.config p k).1 = none) ∧ ∀ b, ∃ k, b < p.returns (s.trace k p) := by
  intro s
  have facts : (s.parse.toOption.map fun p =>
        let r := (s.machine p).runFor s.config p 2
        decide (r.1 = none ∧ r.2.observed = ⟨2, 0, 1⟩ ∧ p.GoesBack ⟨2, 0, 1⟩ ∧
          p.jumps[(2 : ℤ)]? = some 2 ∧ p.size = 3 ∧ p.returns (s.trace 9 p) = 7)) = some true := by
    decide +kernel
  obtain ⟨p, parsed, facts⟩ := exists_ok_of_map facts
  obtain ⟨running, inLoop, back, jump, size, returns⟩ := of_decide_eq_true facts
  have resolved := resolved_of_parse parsed
  have start := State.sound_start s.config p s.input s.sink
  have never (k : ℕ) : ((s.machine p).runFor s.config p k).1 = none := by
    rcases runFor_cases s.config p 2 (s.machine p) with
      ⟨t, _, reached, _, ran⟩ | ⟨_, _, _, _, _, _, _, ran⟩
    · rw [ran] at inLoop
      refine reached.runFor_eq_none (I := fun a => a.Sound s.config p ∧ a.observed = ⟨2, 0, 1⟩)
        ⟨start.reaches resolved reached, inLoop⟩ (fun a ⟨sound, seen⟩ => ?_) k
      obtain ⟨target, found, _, stepped⟩ := sound.step_of_goesBack resolved (seen ▸ back)
      have index : a.index = 2 := congrArg Observation.index seen
      rw [index, jump] at found
      refine ⟨_, stepped, sound.next resolved stepped, ?_⟩
      rw [← Option.some.inj found, ← seen, State.observed, State.observed, index]
      rfl
    · rw [ran] at running
      cases running
  have returning : ¬ ReadsForever s.config p (s.machine p) := by
    intro forever
    obtain ⟨n, u, waiting⟩ := forever.exists_waiting
    have running := never (n + 1)
    rw [waiting] at running
    cases running
  obtain ⟨_, _, _, unbounded⟩ := only_loopEnd_goesBack s p parsed
  refine ⟨p, parsed, size, returns, never, (unbounded fun k e ended => ?_).resolve_left returning⟩
  rw [never k] at ended
  cases ended

/-- A program without loops that is never over, nor ever goes back: it reads an integer from blanks. -/
theorem blanks_never_end :
    let s : Session :=
      { source := Command.readInt.spelling
        file := "blanks"
        config := {}
        language := .standard
        input := { answers := [], later := fun _ => [' '] } }
    ∃ p, s.parse = .ok p ∧ p.commands = #[.readInt] ∧ .loopEnd ∉ p.commands ∧
      ∀ k, (s.run k).1 = .stepLimit ∧ p.returns (s.trace k p) = 0 := by
  intro s
  have accepted : s.parse.toOption.map Program.commands = some #[.readInt] := by decide +kernel
  obtain ⟨p, parsed, commands⟩ := exists_ok_of_map accepted
  have loopFree : .loopEnd ∉ p.commands := by
    rw [commands]
    simp
  have due : p.fetch (s.machine p).index = .ok (some .readInt) := by
    rw [show (s.machine p).index = (0 : ℕ) from rfl, fetch_natCast, commands]
    rfl
  have endless : (s.machine p).input.Endless := .blank fun n => ⟨[' '], rfl, by decide⟩
  have halts : (s.machine p).step s.config p = _ := State.step_of_endless due endless
  refine ⟨p, parsed, commands, loopFree, fun k => ⟨?_, Program.returns_of_loopFree loopFree _⟩⟩
  cases k with
  | zero =>
    have ran : (s.machine p).runFor s.config p 0 = _ := (Reaches.refl _).runFor_of_due due
    rw [Session.run_of_parse parsed ran]
    rfl
  | succ k =>
    have ran := (Reaches.refl (s.machine p)).runFor_of_halt halts (Nat.succ_pos k)
    rw [Session.run_of_parse parsed ran]
    rfl

end SlangTape
