import SlangTape.Language.Table
import SlangTape.Session
import SlangTape.Proofs.Matching
import SlangTape.Proofs.Plain
import SlangTape.Proofs.Runs

set_option autoImplicit false

namespace SlangTape

variable {w : Width}

theorem wrap_eq_val (v : ℤ) : w.wrap v = (v : ZMod w.capacity).val := by
  have remainder := ZMod.val_intCast (n := w.capacity) v
  have := Int.emod_nonneg v (Int.natCast_ne_zero.2 w.capacity_pos.ne')
  unfold Width.wrap
  omega

/-- The array of `t` holds the values of the infinite tape, and the cursor is inside it. -/
structure Shows (t : Tape) (cells : ℕ → ZMod w.capacity) (cursor : ℕ) : Prop where
  width : t.width = w
  inside : t.cursor < t.size
  cursor : t.cursor = cursor
  cells : ∀ i, t.cell i = (cells i).val

namespace Shows

variable {t : Tape} {cells : ℕ → ZMod w.capacity} {cursor : ℕ}

theorem blank {size : ℕ} (h : 0 < size) :
    Shows (w := w) (.blank w size) (fun _ => 0) 0 where
  width := rfl
  inside := by simpa [Tape.size, Tape.blank] using h
  cursor := rfl
  cells i := by
    by_cases hi : i < size <;> simp [Tape.cell, Tape.blank, hi]

theorem read (h : Shows t cells cursor) : t.read = .ok (cells cursor).val := by
  rw [Tape.read, if_pos h.inside, h.cells, h.cursor]

theorem look (h : Shows t cells cursor) (i : ℕ) : t.look i = .ok (cells i).val := by
  simp [Tape.look, h.cells]

theorem store (h : Shows t cells cursor) (v : ℤ) :
    Shows (t.store v) (Function.update cells cursor (v : ZMod w.capacity)) cursor where
  width := h.width
  inside := by simpa [Tape.size, Tape.store] using h.inside
  cursor := h.cursor
  cells i := by
    rw [Tape.cell_store, h.width, wrap_eq_val]
    by_cases hi : i = cursor
    · have here : i = t.cursor := hi.trans h.cursor.symm
      rw [if_pos ⟨here, here ▸ h.inside⟩, hi, Function.update_self]
    · have elsewhere : i ≠ t.cursor := fun here => hi (here.trans h.cursor)
      rw [if_neg fun both => elsewhere both.1, Function.update_of_ne hi, h.cells]

theorem write (h : Shows t cells cursor) (v : ℤ) : t.write v = .ok (t.store v) := by
  rw [Tape.write, if_pos h.inside]

theorem add (h : Shows t cells cursor) (v : ℤ) :
    t.add v = .ok (t.store (t.cell t.cursor + v)) ∧
      Shows (t.store (t.cell t.cursor + v))
        (Function.update cells cursor (cells cursor + (v : ZMod w.capacity))) cursor := by
  refine ⟨by rw [Tape.add, if_pos h.inside], ?_⟩
  have sum : ((t.cell t.cursor + v : ℤ) : ZMod w.capacity) = cells cursor + v := by
    rw [h.cells, h.cursor]
    simp
  simpa only [sum] using h.store (t.cell t.cursor + v)

theorem moveRight (h : Shows t cells cursor) : Shows t.moveRight cells (cursor + 1) where
  width := h.width
  inside := by
    have inside := h.inside
    simp only [Tape.size] at inside
    simp only [Tape.size, Tape.moveRight]
    split
    · simp only [Array.size_append, Array.size_replicate]
      omega
    · omega
  cursor := by simp [Tape.moveRight, h.cursor]
  cells i := by rw [Tape.cell_moveRight, h.cells]

theorem moveLeft (h : Shows t cells cursor) (pos : cursor ≠ 0) :
    t.moveLeft = .ok { t with cursor := t.cursor - 1 } ∧
      Shows { t with cursor := t.cursor - 1 } cells (cursor - 1) := by
  refine ⟨by rw [Tape.moveLeft, if_neg (h.cursor ▸ pos)], h.width, ?_, ?_, h.cells⟩
  · have inside := h.inside
    simp only [Tape.size] at inside ⊢
    omega
  · simp [h.cursor]

end Shows

structure Agrees (m : State) (s : Store w) : Prop where
  tape : Shows m.tape s.cells s.cursor
  clipboard : m.clipboard = s.clipboard.map ZMod.val
  input : m.input = s.input
  sink : m.sink = s.sink
  printed : m.events.toList.map Event.text = s.printed

/-- The states agree and execution goes on at the same place. -/
structure Follows (m : State) (q : Plain w) : Prop where
  index : m.index = q.index
  agrees : Agrees m q.store

inductive Alike : Step → Option Ending × Plain w → Prop where
  | next {m : State} {q : Plain w} (h : Follows m q) : Alike (.next m) (none, q)
  | halt {e : Ending} {m : State} {q : Plain w} (h : Follows m q) : Alike (.halt e m) (some e, q)

namespace Agrees

variable {m : State} {s : Store w} {i : ℕ}

theorem onTape (h : Agrees m s) (hi : m.index = i) {r : Except Failure Tape} {t : Tape}
    {v : ZMod w.capacity} (ok : r = .ok t)
    (shown : Shows t (Function.update s.cells s.cursor v) s.cursor) :
    Alike (m.onTape r) (Plain.settle i (none, s.put v)) := by
  subst ok
  refine .next ⟨?_, shown, h.clipboard, h.input, h.sink, h.printed⟩
  simp [hi]

theorem add (h : Agrees m s) (hi : m.index = i) {v : ℤ} {u : ZMod w.capacity}
    (sum : s.current + (v : ZMod w.capacity) = u) :
    Alike (m.onTape (m.tape.add v)) (Plain.settle i (none, s.put u)) := by
  subst sum
  exact h.onTape hi (h.tape.add v).1 (h.tape.add v).2

theorem fail (h : Agrees m s) (hi : m.index = i) (f : Failure) :
    Alike (m.fail f) (Plain.settle i (s.fail f)) :=
  .halt ⟨hi, h⟩

theorem moveRight (h : Agrees m s) (hi : m.index = i) :
    Alike (m.onTape (.ok m.tape.moveRight))
      (Plain.settle i (none, { s with cursor := s.cursor + 1 })) := by
  refine .next ⟨?_, h.tape.moveRight, h.clipboard, h.input, h.sink, h.printed⟩
  simp [hi]

theorem moveLeft (h : Agrees m s) (hi : m.index = i) :
    Alike (m.onTape m.tape.moveLeft) (Plain.settle i s.moveLeft) := by
  unfold Store.moveLeft
  by_cases first : s.cursor = 0
  · have refused : m.tape.moveLeft = .error Fault.tapeUnderflow.toFailure :=
      if_pos (h.tape.cursor.trans first)
    rw [if_pos first, refused]
    exact h.fail hi _
  · obtain ⟨moved, shown⟩ := h.tape.moveLeft first
    rw [if_neg first, moved]
    refine .next ⟨?_, shown, h.clipboard, h.input, h.sink, h.printed⟩
    simp [hi]

theorem emit (h : Agrees m s) (hi : m.index = i) (text : Text) :
    Alike (m.emit text) (Plain.settle i (s.print text)) := by
  unfold State.emit Store.print Sink.take
  rw [h.sink]
  cases s.sink.breaks s.sink.calls with
  | none =>
    refine .next ⟨?_, h.tape, h.clipboard, h.input, rfl, ?_⟩
    · simp [hi]
    · simp [h.printed]
  | some f => exact .halt ⟨hi, h.tape, h.clipboard, h.input, rfl, h.printed⟩

theorem printChar (h : Agrees m s) (hi : m.index = i) :
    Alike m.printChar (Plain.settle i s.printChar) := by
  unfold State.printChar Store.printChar
  simp only [h.tape.read]
  by_cases valid : s.current.val.isValidChar
  · have known : State.character? (s.cells s.cursor).val = some (Char.ofNat s.current.val) :=
      if_pos valid
    rw [known, if_pos valid]
    exact h.emit hi _
  · have unknown : State.character? (s.cells s.cursor).val = none := if_neg valid
    rw [unknown, if_neg valid]
    exact h.fail hi _

theorem printInt (h : Agrees m s) (hi : m.index = i) :
    Alike m.printInt (Plain.settle i (s.print (decimal s.current.val))) := by
  unfold State.printInt
  simp only [h.tape.read]
  exact h.emit hi _

theorem withInput (h : Agrees m s) (input : Input) :
    Agrees { m with input := input } { s with input := input } :=
  ⟨h.tape, h.clipboard, rfl, h.sink, h.printed⟩

theorem copyPaste (h : Agrees m s) (hi : m.index = i) :
    Alike m.copyPaste (Plain.settle i (none, s.copyPaste)) := by
  unfold State.copyPaste Clipboard.use Store.copyPaste
  rw [h.clipboard]
  cases s.clipboard with
  | none =>
    simp only [Option.map_none, h.tape.read, Except.map]
    refine .next ⟨?_, h.tape, rfl, h.input, h.sink, h.printed⟩
    simp [hi]
  | some v =>
    simp only [Option.map_some, h.tape.write, Except.map]
    refine .next ⟨?_, ?_, rfl, h.input, h.sink, h.printed⟩
    · simp [hi]
    · simpa [Store.put] using h.tape.store v.val

end Agrees

section Reading

variable {cfg : Config} {m : State} {s : Store cfg.width} {i : ℕ}

theorem Agrees.accept (h : Agrees m s) (hi : m.index = i) (v : Option ℤ) :
    Alike (m.accept cfg (.ok v))
      (Plain.settle i (none, s.put (v.getD cfg.endValue : ℤ))) := by
  cases v with
  | none => exact h.onTape hi (h.tape.write _) (h.tape.store _)
  | some v => exact h.onTape hi (h.tape.write _) (h.tape.store _)

theorem Agrees.readChar (h : Agrees m s) (hi : m.index = i) :
    Alike (m.readChar cfg) (Plain.settle i (s.readChar cfg)) := by
  unfold State.readChar Store.readChar
  rw [h.input]
  rcases s.input.readChar with ⟨f | _ | t, input⟩
  · exact (h.withInput input).fail hi f
  · simpa using (h.withInput input).accept hi none
  · match t with
    | [] => exact (h.withInput input).fail hi _
    | [c] => simpa [State.codePoint, Except.map] using (h.withInput input).accept hi (some c.toNat)
    | _ :: _ :: _ => exact (h.withInput input).fail hi _

theorem Agrees.readInt (h : Agrees m s) (hi : m.index = i) :
    Alike (m.readInt cfg) (Plain.settle i (s.readInt cfg)) := by
  unfold State.readInt Store.readInt
  rw [h.input]
  rcases s.input.readInt? with _ | ⟨f | _ | v, input⟩
  · exact .halt ⟨hi, h⟩
  · exact (h.withInput input).fail hi f
  · simpa using (h.withInput input).accept hi none
  · simpa using (h.withInput input).accept hi (some v)

end Reading

section Control

variable {cfg : Config} {p : Program} {m : State} {s : Store cfg.width} {i t : ℕ}

theorem Agrees.advance (h : Agrees m s) (hi : m.index = i) :
    Alike m.advance (Plain.advance ⟨i, s⟩) := by
  refine .next ⟨?_, h.tape, h.clipboard, h.input, h.sink, h.printed⟩
  simp [hi]

theorem Agrees.jump (h : Agrees m s) (hi : m.index = i)
    (tabulates : Tabulates p.jumps p.commands.toList) (leads : Leads p.commands.toList i t) :
    Alike (m.jump p) (Plain.goto ⟨i, s⟩ (some t)) := by
  unfold State.jump
  rw [hi, tabulates.getElem? leads]
  exact .next ⟨rfl, h.tape, h.clipboard, h.input, h.sink, h.printed⟩

theorem Agrees.loopStart (h : Agrees m s) (hi : m.index = i)
    (tabulates : Tabulates p.jumps p.commands.toList) (leads : Leads p.commands.toList i t) :
    Alike (m.jumpIf p (· == 0))
      (if s.current = 0 then Plain.goto ⟨i, s⟩ (some t) else Plain.advance ⟨i, s⟩) := by
  unfold State.jumpIf
  simp only [h.tape.read]
  by_cases zero : s.current = 0
  · have test : ((s.cells s.cursor).val == 0) = true := by simpa [Store.current] using zero
    rw [if_pos zero, if_pos test]
    exact h.jump hi tabulates leads
  · have test : ¬ ((s.cells s.cursor).val == 0) = true := by simpa [Store.current] using zero
    rw [if_neg zero, if_neg test]
    exact h.advance hi

theorem Agrees.loopEnd (h : Agrees m s) (hi : m.index = i)
    (tabulates : Tabulates p.jumps p.commands.toList) (leads : Leads p.commands.toList i t) :
    Alike (m.jumpIf p (· != 0))
      (if s.current = 0 then Plain.advance ⟨i, s⟩ else Plain.goto ⟨i, s⟩ (some t)) := by
  unfold State.jumpIf
  simp only [h.tape.read]
  by_cases zero : s.current = 0
  · have test : ¬ ((s.cells s.cursor).val != 0) = true := by simpa [Store.current] using zero
    rw [if_pos zero, if_neg test]
    exact h.advance hi
  · have test : ((s.cells s.cursor).val != 0) = true := by simpa [Store.current] using zero
    rw [if_neg zero, if_pos test]
    exact h.jump hi tabulates leads

theorem Agrees.recorded (h : Agrees m s) : Agrees m.recorded s :=
  ⟨h.tape, h.clipboard, h.input, h.sink, h.printed⟩

theorem Follows.step {q : Plain cfg.width} (resolved : p.Resolved) (h : Follows m q) :
    Alike (m.step cfg p) (q.step cfg p.commands.toList) := by
  obtain ⟨i, s⟩ := q
  obtain ⟨hi, agrees⟩ := h
  have later := agrees.recorded
  have hi' : m.recorded.index = i := hi
  unfold State.step Plain.step
  rw [hi, fetch_natCast]
  cases fetched : p.commands.toList[i]? with
  | none => exact .halt ⟨hi, agrees⟩
  | some c =>
    have target (kind : c = .loopStart ∨ c = .loopEnd ∨ c = .skip) :
        ∃ t, Leads p.commands.toList i t := by
      rw [resolved.resolvable.exists_leads_iff, fetched]
      simpa using kind
    cases c with
    | increment => exact later.add hi' (by simp)
    | decrement => exact later.add hi' (by simp [sub_eq_add_neg])
    | incrementTwo => exact later.add hi' (by simp)
    | decrementTwo => exact later.add hi' (by simp [sub_eq_add_neg])
    | zero => exact later.onTape hi' (later.tape.write 0) (by simpa using later.tape.store 0)
    | moveRight => exact later.moveRight hi'
    | moveLeft => exact later.moveLeft hi'
    | loopStart =>
      obtain ⟨t, leads⟩ := target (by simp)
      simp only [leads.pastEnd?_eq fetched]
      exact later.loopStart hi' resolved.tabulates leads
    | loopEnd =>
      obtain ⟨t, leads⟩ := target (by simp)
      simp only [leads.pastStart?_eq fetched]
      exact later.loopEnd hi' resolved.tabulates leads
    | skip =>
      obtain ⟨t, leads⟩ := target (by simp)
      simp only [leads.pastNextEnd?_eq fetched]
      exact later.jump hi' resolved.tabulates leads
    | printChar => exact later.printChar hi'
    | printInt => exact later.printInt hi'
    | readChar => exact later.readChar hi'
    | readInt => exact later.readInt hi'
    | copyPaste => exact later.copyPaste hi'
    | terminate => exact .halt ⟨hi', later⟩

theorem Follows.run {q : Plain cfg.width} (resolved : p.Resolved) (h : Follows m q) (k : ℕ) :
    (m.runFor cfg p k).1 = (q.runFor cfg p.commands.toList k).1 ∧
      Follows (m.runFor cfg p k).2 (q.runFor cfg p.commands.toList k).2 := by
  induction k generalizing m q with
  | zero =>
    rw [State.runFor, Plain.runFor, h.index, fetch_natCast]
    by_cases inside : q.index < p.commands.toList.length
    · rw [List.getElem?_eq_getElem inside, if_pos inside]
      exact ⟨rfl, h⟩
    · rw [List.getElem?_eq_none (by omega), if_neg inside]
      exact ⟨rfl, h⟩
  | succ k ih =>
    have alike : Alike (m.step cfg p) (q.step cfg p.commands.toList) := h.step resolved
    rw [State.runFor, Plain.runFor]
    generalize m.step cfg p = r at alike
    generalize q.step cfg p.commands.toList = r' at alike
    cases alike with
    | next later => exact ih later
    | halt later => exact ⟨rfl, later⟩

end Control

theorem follows_start (cfg : Config) (p : Program) (input : Input) (sink : Sink) :
    Follows (.start cfg p input sink) (Plain.start cfg input sink) where
  index := rfl
  agrees := ⟨.blank (by decide), rfl, rfl, rfl, rfl⟩

/-- After any number of steps of a run of an accepted source, the machine and the plain machine are
at the same place with the same cells, clipboard, printed texts and channels, and have ended alike if
at all. -/
theorem runFor_agrees_plain (s : Session) (p : Program) (h : s.parse = .ok p) (k : ℕ) :
    let r := (s.machine p).runFor s.config p k
    let r' := (Plain.start s.config s.input s.sink).runFor s.config p.commands.toList k
    s.execute k p = (Session.outcome r'.1 r.2, r.2.events,
      { s with
        input := r.2.input
        sink := r.2.sink
        program := some p
        tape := r.2.tape
        clipboard := r.2.clipboard
        journal := r.2.journal }) ∧
    r.1 = r'.1 ∧
    r.2.index = r'.2.index ∧
    r.2.tape.cursor = r'.2.store.cursor ∧
    (∀ i : ℕ, r.2.tape.look i = .ok (r'.2.store.cells i).val) ∧
    r.2.clipboard = r'.2.store.clipboard.map ZMod.val ∧
    r.2.events.toList.map Event.text = r'.2.store.printed ∧
    r.2.input = r'.2.store.input ∧
    r.2.sink = r'.2.store.sink := by
  intro r r'
  have start := follows_start s.config p s.input s.sink
  obtain ⟨ending, follows⟩ := start.run (resolved_of_parse h) k
  have agrees := follows.agrees
  refine ⟨?_, ending, follows.index, agrees.tape.cursor, agrees.tape.look, agrees.clipboard,
    agrees.printed, agrees.input, agrees.sink⟩
  change (Session.outcome r.1 r.2, r.2.events, s.leave p r.2) = _
  rw [show r.1 = r'.1 from ending]
  rfl

theorem runFor_agrees_plain_countdown :
    let s : Session :=
      { source := Command.readInt.spelling ++ Command.loopStart.spelling ++
          Command.decrement.spelling ++ [' '] ++ Command.loopEnd.spelling
        file := "countdown"
        config := {}
        language := .standard
        input := .ofText ['3'] }
    ∃ p, s.parse = .ok p ∧ ∀ k i : ℕ,
      let r := (s.machine p).runFor s.config p k
      let r' := (Plain.start s.config s.input s.sink).runFor s.config p.commands.toList k
      r.1 = r'.1 ∧ r.2.index = r'.2.index ∧ r.2.tape.look i = .ok (r'.2.store.cells i).val := by
  intro s
  have accepted : s.parse.toOption.map Program.size = some 4 := by decide +kernel
  obtain ⟨p, parsed, _⟩ := exists_ok_of_map accepted
  refine ⟨p, parsed, fun k i => ?_⟩
  obtain ⟨_, ending, index, _, look, _⟩ := runFor_agrees_plain s p parsed k
  exact ⟨ending, index, look i⟩

end SlangTape
