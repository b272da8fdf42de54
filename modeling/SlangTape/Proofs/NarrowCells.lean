import Mathlib.Algebra.Ring.Nat
import Mathlib.Data.List.Forall2
import SlangTape.Language.Table
import SlangTape.Proofs.Performing
import SlangTape.Proofs.Runs
import SlangTape.Session

set_option autoImplicit false

namespace SlangTape

namespace Width

variable {w w' : Width}

theorem capacity_dvd (h : w.bits ≤ w'.bits) : w.capacity ∣ w'.capacity := Nat.pow_dvd_pow 2 h

theorem wrap_mod (h : w.capacity ∣ w'.capacity) (v : ℤ) : w'.wrap v % w.capacity = w.wrap v := by
  have divides : (w.capacity : ℤ) ∣ w'.capacity := Int.natCast_dvd_natCast.2 h
  have nonneg := Int.emod_nonneg v (Int.natCast_ne_zero.2 (Nat.ne_of_gt w'.capacity_pos))
  rw [wrap, wrap, ← Int.emod_emod_of_dvd v divides, Int.toNat_emod nonneg (Int.natCast_nonneg _),
    Int.toNat_natCast]

theorem wrap_mod_add (w : Width) (n : ℕ) (d : ℤ) :
    w.wrap ((n % w.capacity : ℕ) + d) = w.wrap (n + d) := by
  rw [wrap, wrap, Int.natCast_emod, Int.emod_add_emod]

end Width

namespace Tape

variable {w : Width} {t : Tape}

def narrowed (w : Width) (t : Tape) : Tape := ⟨w, t.cells.map (· % w.capacity), t.cursor⟩

theorem size_narrowed (w : Width) (t : Tape) : (t.narrowed w).size = t.size := by
  simp [narrowed, size]

theorem cell_narrowed (w : Width) (t : Tape) (i : ℕ) :
    (t.narrowed w).cell i = t.cell i % w.capacity := by
  cases h : t.cells[i]? <;> simp [narrowed, cell, h]

theorem narrowed_blank (w w' : Width) (n : ℕ) : (blank w' n).narrowed w = blank w n := by
  simp [narrowed, blank]

theorem read_narrowed (w : Width) (t : Tape) :
    (t.narrowed w).read = t.read.map (· % w.capacity) := by
  have cursor : (t.narrowed w).cursor = t.cursor := rfl
  rw [read, read, size_narrowed, cell_narrowed, cursor]
  split <;> rfl

theorem store_narrowed (h : w.capacity ∣ t.width.capacity) {u v : ℤ} (same : w.wrap u = w.wrap v) :
    (t.narrowed w).store u = (t.store v).narrowed w := by
  simp [narrowed, store, Width.wrap_mod h, same]

theorem moveRight_narrowed (w : Width) (t : Tape) :
    (t.narrowed w).moveRight = t.moveRight.narrowed w := by
  by_cases full : t.cells.size ≤ t.cursor + 1 <;> simp [narrowed, moveRight, full]

/-- On narrowed tapes `g` does what `f` does on wide ones, and `f` keeps their width. -/
structure Narrows (w : Width) (f g : Tape → Except Failure Tape) : Prop where
  width : ∀ t u, f t = .ok u → u.width = t.width
  narrowed : ∀ t, w.capacity ∣ t.width.capacity → g (t.narrowed w) = (f t).map (Tape.narrowed w)

theorem narrows_store {u v : Tape → ℤ} (same : ∀ t, w.wrap (v (t.narrowed w)) = w.wrap (u t)) :
    Narrows w
      (fun t => if t.cursor < t.size then .ok (t.store (u t))
        else .error (.cursorOutside t.cursor t.size))
      (fun t => if t.cursor < t.size then .ok (t.store (v t))
        else .error (.cursorOutside t.cursor t.size)) where
  width t _ h := by
    split at h <;> cases h
    rfl
  narrowed t h := by
    have cursor : (t.narrowed w).cursor = t.cursor := rfl
    rw [size_narrowed, store_narrowed h (same t), cursor]
    split <;> rfl

theorem narrows_add (w : Width) (d : ℤ) : Narrows w (·.add d) (·.add d) :=
  narrows_store fun t => by
    rw [cell_narrowed]
    exact w.wrap_mod_add _ d

theorem narrows_write (w : Width) (v : ℤ) : Narrows w (·.write v) (·.write v) :=
  narrows_store fun _ => rfl

theorem narrows_write_mod (w : Width) (v : ℕ) :
    Narrows w (·.write v) (·.write (v % w.capacity : ℕ)) :=
  narrows_store fun _ => by simpa using w.wrap_mod_add v 0

theorem narrows_moveRight (w : Width) : Narrows w (.ok ·.moveRight) (.ok ·.moveRight) where
  width t u h := by
    cases h
    rfl
  narrowed t _ := by
    rw [moveRight_narrowed]
    rfl

theorem narrows_moveLeft (w : Width) : Narrows w moveLeft moveLeft where
  width t u h := by
    unfold moveLeft at h
    split at h <;> cases h
    rfl
  narrowed t _ := by
    have cursor : (t.narrowed w).cursor = t.cursor := rfl
    rw [moveLeft, moveLeft, cursor]
    split <;> rfl

end Tape

namespace Clipboard

variable {w : Width} {clip clip' : Clipboard} {t t' : Tape}

theorem width_use (h : clip.use t = .ok (clip', t')) : t'.width = t.width := by
  cases clip with
  | none =>
    rw [use] at h
    cases found : t.read <;> rw [found] at h <;> cases h
    rfl
  | some v =>
    rw [use] at h
    cases done : t.write v <;> rw [done] at h <;> cases h
    exact (Tape.narrows_write t.width v).width _ _ done

theorem use_narrowed (h : w.capacity ∣ t.width.capacity) :
    use (clip.map (· % w.capacity)) (t.narrowed w) =
      (clip.use t).map fun (used, u) => (used.map (· % w.capacity), u.narrowed w) := by
  cases clip with
  | none =>
    rw [Option.map_none, use, use, Tape.read_narrowed]
    cases t.read <;> rfl
  | some v =>
    rw [Option.map_some, use, use, (Tape.narrows_write_mod w v).narrowed t h]
    cases t.write v <;> rfl

end Clipboard

/-- A number printed in wide cells, and what the same step prints in narrow ones. -/
inductive Event.Narrows (w : Width) : Event → Event → Prop where
  | number (step v : ℕ) : Narrows w ⟨step, decimal v⟩ ⟨step, decimal (v % w.capacity)⟩

def Observation.narrowed (w : Width) (o : Observation) : Observation :=
  { o with cell := o.cell % w.capacity }

/-- The second state is the first in narrower cells. -/
inductive State.Narrows (w : Width) (m : State) : State → Prop where
  | intro {events : Array Event} (divides : w.capacity ∣ m.tape.width.capacity)
      (printed : List.Forall₂ (Event.Narrows w) m.events.toList events.toList) :
      Narrows w m
        { m with
          tape := m.tape.narrowed w
          clipboard := m.clipboard.map (· % w.capacity)
          events }

namespace State.Narrows

variable {w : Width} {wide narrow : Config} {p : Program} {m m' : State} {c : Command}

theorem agree (h : m.Narrows w m') :
    m'.index = m.index ∧ m'.journal = m.journal ∧ m'.tape.cursor = m.tape.cursor ∧
    m'.input = m.input ∧ m'.sink = m.sink ∧
    (∀ i, m'.tape.cell i = m.tape.cell i % w.capacity) ∧
    m'.clipboard = m.clipboard.map (· % w.capacity) ∧
    List.Forall₂ (Event.Narrows w) m.events.toList m'.events.toList := by
  obtain ⟨_, printed⟩ := h
  exact ⟨rfl, rfl, rfl, rfl, rfl, m.tape.cell_narrowed w, rfl, printed⟩

theorem recorded (h : m.Narrows w m') : m.recorded.Narrows w m'.recorded := by
  obtain ⟨divides, printed⟩ := h
  exact .intro divides printed

theorem withInput (h : m.Narrows w m') (input : Input) :
    { m with input }.Narrows w { m' with input } := by
  obtain ⟨divides, printed⟩ := h
  exact .intro divides printed

theorem index_eq (h : m.Narrows w m') : m'.index = m.index := h.agree.1

theorem fail (h : m.Narrows w m') (f : Failure) : Step.Related (Narrows w) (m.fail f) (m'.fail f) := .halt h

theorem onTape {f g : Tape → Except Failure Tape} (h : m.Narrows w m') (alike : Tape.Narrows w f g) :
    Step.Related (Narrows w) (m.onTape (f m.tape)) (m'.onTape (g m'.tape)) := by
  obtain ⟨divides, printed⟩ := h
  dsimp only
  rw [alike.narrowed m.tape divides]
  cases done : f m.tape with
  | error e => exact .halt (.intro divides printed)
  | ok t =>
    have width := alike.width _ _ done
    exact .next (.intro (m := { m with tape := t, index := m.index + 1 }) (width ▸ divides) printed)

theorem jump (h : m.Narrows w m') : Step.Related (Narrows w) (m.jump p) (m'.jump p) := by
  obtain ⟨divides, printed⟩ := h
  unfold State.jump
  dsimp only
  split
  · next i _ => exact .next (.intro (m := { m with index := i }) divides printed)
  · exact .halt (.intro divides printed)

theorem emit (h : m.Narrows w m') (v : ℕ) :
    Step.Related (Narrows w) (m.emit (decimal v)) (m'.emit (decimal (v % w.capacity))) := by
  obtain ⟨divides, printed⟩ := h
  unfold State.emit Sink.take
  dsimp only
  cases m.sink.breaks m.sink.calls with
  | some f => exact .halt (.intro (m := { m with sink := _ }) divides printed)
  | none =>
    refine .next (.intro (m := { m with sink := _, events := _, index := _ }) divides ?_)
    rw [Array.toList_push, Array.toList_push]
    exact List.rel_append printed (.cons (.number _ v) .nil)

theorem printInt (h : m.Narrows w m') : Step.Related (Narrows w) m.printInt m'.printInt := by
  have tape : m'.tape = m.tape.narrowed w := by
    obtain ⟨_, _⟩ := h
    rfl
  unfold State.printInt
  rw [tape, Tape.read_narrowed]
  cases m.tape.read with
  | error f => exact h.fail f
  | ok v => exact h.emit v

theorem copyPaste (h : m.Narrows w m') : Step.Related (Narrows w) m.copyPaste m'.copyPaste := by
  obtain ⟨divides, printed⟩ := h
  unfold State.copyPaste
  dsimp only
  rw [Clipboard.use_narrowed divides]
  cases done : m.clipboard.use m.tape with
  | error f => exact .halt (.intro divides printed)
  | ok used =>
    obtain ⟨clip, t⟩ := used
    have width := Clipboard.width_use done
    exact .next (.intro (m := { m with clipboard := clip, tape := t, index := _ })
      (width ▸ divides) printed)

theorem accept (h : m.Narrows w m') (sameEnd : narrow.endValue = wide.endValue)
    (r : Except Failure (Option ℤ)) : Step.Related (Narrows w) (m.accept wide r) (m'.accept narrow r) := by
  rcases r with f | _ | v
  · exact h.fail f
  · rw [State.accept, State.accept, sameEnd]
    exact h.onTape (Tape.narrows_write w _)
  · exact h.onTape (Tape.narrows_write w v)

theorem received {r : Except Failure (Option ℤ) × Input} (h : m.Narrows w m')
    (sameEnd : narrow.endValue = wide.endValue) (asked : m.received? c = some r) :
    Step.Related (Narrows w) (m.perform wide p c) (m'.perform narrow p c) := by
  have asked' : m'.received? c = some r := by
    obtain ⟨_, _⟩ := h
    cases c <;> exact asked
  rw [perform_received asked, perform_received asked']
  exact (h.withInput r.2).accept sameEnd r.1

theorem readInt (h : m.Narrows w m') (sameEnd : narrow.endValue = wide.endValue) :
    Step.Related (Narrows w) (m.perform wide p .readInt) (m'.perform narrow p .readInt) := by
  cases asked : m.received? .readInt with
  | some r => exact h.received sameEnd asked
  | none =>
    have waits : m.input.readInt? = none := asked
    have waits' : m'.input.readInt? = none := by
      obtain ⟨_, _⟩ := h
      exact waits
    rw [State.perform, State.perform, State.readInt, State.readInt, waits, waits']
    exact .halt h

theorem perform (h : m.Narrows w m') (sameEnd : narrow.endValue = wide.endValue)
    (other : c ∉ [.loopStart, .loopEnd, .printChar]) :
    Step.Related (Narrows w) (m.perform wide p c) (m'.perform narrow p c) := by
  cases c with
  | increment => exact h.onTape (Tape.narrows_add w 1)
  | decrement => exact h.onTape (Tape.narrows_add w (-1))
  | incrementTwo => exact h.onTape (Tape.narrows_add w 2)
  | decrementTwo => exact h.onTape (Tape.narrows_add w (-2))
  | zero => exact h.onTape (Tape.narrows_write w 0)
  | moveRight => exact h.onTape (Tape.narrows_moveRight w)
  | moveLeft => exact h.onTape (Tape.narrows_moveLeft w)
  | skip => exact h.jump
  | printInt => exact h.printInt
  | readChar => exact h.received sameEnd rfl
  | readInt => exact h.readInt sameEnd
  | copyPaste => exact h.copyPaste
  | terminate => exact .halt h
  | loopStart => exact absurd (by decide) other
  | loopEnd => exact absurd (by decide) other
  | printChar => exact absurd (by decide) other

theorem observed_eq (h : m.Narrows w m') : m'.observed = m.observed.narrowed w := by
  obtain ⟨_, _⟩ := h
  simp only [observed, Tape.cell_narrowed]
  rfl

theorem lockstep (w : Width) (sameEnd : narrow.endValue = wide.endValue)
    (blind : ∀ c ∈ p.commands, c ∉ [.loopStart, .loopEnd, .printChar]) :
    Lockstep wide narrow p (Narrows w) where
  index _ _ h := h.index_eq
  step m m' h := by
    unfold step
    rw [h.index_eq]
    split
    · exact .halt h
    · exact .halt h
    · next c due => exact h.recorded.perform sameEnd (blind c (mem_of_fetch due))

end State.Narrows

theorem State.narrows_start {narrow wide : Config}
    (divides : narrow.width.capacity ∣ wide.width.capacity) (p : Program) (input : Input)
    (sink : Sink) :
    (start wide p input sink).Narrows narrow.width (start narrow p input sink) := by
  have same : start narrow p input sink =
      { start wide p input sink with
        tape := (start wide p input sink).tape.narrowed narrow.width
        clipboard := (start wide p input sink).clipboard.map (· % narrow.width.capacity)
        events := #[] } := by
    simp [start, Tape.narrowed_blank]
  rw [same]
  exact .intro divides .nil

/-- A program without loop commands that prints no characters takes the same steps in narrow and in wide
cells and ends in the same way. After each step the cursor is at the same place and the channels have
seen the same calls, each narrow cell and the clipboard hold what the wide ones hold modulo their
capacity, and the numbers printed are reduced likewise. Skips are no exception: they do not look at a
cell. -/
theorem runFor_narrows (s : Session) (wide : Config) (p : Program)
    (narrower : s.config.width.bits < wide.width.bits) (sameEnd : s.config.endValue = wide.endValue)
    (blind : ∀ c ∈ p.commands, c ∉ [.loopStart, .loopEnd, .printChar]) (k : ℕ) :
    let s' : Session := { s with config := wide }
    let r := (s.machine p).runFor s.config p k
    let r' := (s'.machine p).runFor wide p k
    s.trace k p = (s'.trace k p).map (Observation.narrowed s.config.width) ∧
    r.1 = r'.1 ∧ (s.execute k p).1 = (s'.execute k p).1 ∧
    r.2.index = r'.2.index ∧ r.2.journal = r'.2.journal ∧
    r.2.tape.cursor = r'.2.tape.cursor ∧ r.2.input = r'.2.input ∧ r.2.sink = r'.2.sink ∧
    (∀ i, r.2.tape.cell i = r'.2.tape.cell i % 2 ^ s.config.width.bits) ∧
    r.2.clipboard = r'.2.clipboard.map (· % 2 ^ s.config.width.bits) ∧
    List.Forall₂ (Event.Narrows s.config.width) r'.2.events.toList r.2.events.toList := by
  intro s' r r'
  have divides := Width.capacity_dvd (Nat.le_of_lt narrower)
  have start := State.narrows_start divides p s.input s.sink
  have paired := State.Narrows.lockstep s.config.width sameEnd blind
  obtain ⟨ending, narrows⟩ := paired.runFor start k
  have traced := paired.traceFor (fun _ _ => State.Narrows.observed_eq) start k #[]
  rw [Array.map_empty] at traced
  have ended : r.1 = r'.1 := ending.symm
  have journal : r.2.journal = r'.2.journal := narrows.agree.2.1
  refine ⟨traced, ended, ?_, narrows.agree⟩
  change Session.outcome r.1 r.2 = Session.outcome r'.1 r'.2
  rw [Session.outcome, Session.outcome, ended, journal]

theorem runFor_narrows_copied_past_capacity :
    let s : Session :=
      { source := Command.readChar.spelling ++ Command.incrementTwo.spelling ++
          Command.copyPaste.spelling ++ Command.moveRight.spelling ++ Command.copyPaste.spelling ++
          Command.printInt.spelling ++ Command.moveLeft.spelling ++ Command.moveLeft.spelling
        file := "narrow"
        config := {}
        language := .standard
        input := .ofText [Char.ofNat 255] }
    let wide : Config := { width := .bits16 }
    let s' : Session := { s with config := wide }
    ∃ p, s.parse = .ok p ∧
      let m := ((s.machine p).runFor s.config p 9).2
      let m' := ((s'.machine p).runFor wide p 9).2
      m'.tape.cell 1 = 257 ∧ m.tape.cell 1 = 1 ∧ m'.events.toList = [⟨5, ['2', '5', '7']⟩] ∧
      m.events.toList = [⟨5, ['1']⟩] ∧
      ∀ k, (s.execute k p).1 = (s'.execute k p).1 ∧
        ∀ i, ((s.machine p).runFor s.config p k).2.tape.cell i =
          ((s'.machine p).runFor wide p k).2.tape.cell i % 2 ^ 8 := by
  intro s wide s'
  have facts : (s.parse.toOption.map fun p =>
        let m := ((s.machine p).runFor s.config p 9).2
        let m' := ((s'.machine p).runFor wide p 9).2
        decide ((∀ c ∈ p.commands, c ∉ [.loopStart, .loopEnd, .printChar]) ∧
          m'.tape.cell 1 = 257 ∧ m.tape.cell 1 = 1 ∧ m'.events.toList = [⟨5, ['2', '5', '7']⟩] ∧
          m.events.toList = [⟨5, ['1']⟩])) = some true := by
    decide +kernel
  obtain ⟨p, parsed, facts⟩ := exists_ok_of_map facts
  obtain ⟨blind, wideCell, narrowCell, widePrint, narrowPrint⟩ := of_decide_eq_true facts
  refine ⟨p, parsed, wideCell, narrowCell, widePrint, narrowPrint, fun k => ?_⟩
  obtain ⟨_, _, outcome, _, _, _, _, _, cells, _⟩ :=
    runFor_narrows s wide p (by decide) rfl blind k
  exact ⟨outcome, cells⟩

end SlangTape
