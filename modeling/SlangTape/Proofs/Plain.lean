import Mathlib.Data.ZMod.Basic
import SlangTape.Machine
import SlangTape.Proofs.Nesting

set_option autoImplicit false

/-!
# The plain machine

The machine as the language describes it: an infinite tape of integers modulo the capacity of a
cell, and no jump table. A jump looks for its partner each time it is taken, counting depth to the
right of a loop start and to the left of a loop end; a skip looks for the next loop end. Input and
output are the same channels as those of the machine that keeps its cells in an array.
-/
namespace SlangTape

instance (w : Width) : NeZero w.capacity := ⟨w.capacity_pos.ne'⟩

/-- Everything a command can change except the place where execution goes on. -/
structure Store (w : Width) where
  cells : ℕ → ZMod w.capacity := fun _ => 0
  cursor : ℕ := 0
  clipboard : Option (ZMod w.capacity) := none
  input : Input
  sink : Sink
  printed : List Text := []

namespace Store

variable {w : Width}

def current (s : Store w) : ZMod w.capacity := s.cells s.cursor

def put (s : Store w) (v : ZMod w.capacity) : Store w :=
  { s with cells := Function.update s.cells s.cursor v }

def fail (s : Store w) (f : Failure) : Option Ending × Store w := (some (.failed f), s)

def print (s : Store w) (text : Text) : Option Ending × Store w :=
  match s.sink.take with
  | (none, k) => (none, { s with sink := k, printed := s.printed ++ [text] })
  | (some f, k) => { s with sink := k }.fail f

def printChar (s : Store w) : Option Ending × Store w :=
  if s.current.val.isValidChar then s.print [Char.ofNat s.current.val]
  else s.fail (Fault.unprintableCharacter s.current.val).toFailure

def readChar (cfg : Config) (s : Store cfg.width) : Option Ending × Store cfg.width :=
  match s.input.readChar with
  | (.error f, i) => { s with input := i }.fail f
  | (.ok none, i) => (none, { s with input := i }.put cfg.endValue)
  | (.ok (some [c]), i) => (none, { s with input := i }.put c.toNat)
  | (.ok (some t), i) => { s with input := i }.fail (.notOneCharacter t.length)

def readInt (cfg : Config) (s : Store cfg.width) : Option Ending × Store cfg.width :=
  match s.input.readInt? with
  | none => (some .waiting, s)
  | some (.error f, i) => { s with input := i }.fail f
  | some (.ok none, i) => (none, { s with input := i }.put cfg.endValue)
  | some (.ok (some v), i) => (none, { s with input := i }.put v)

def moveLeft (s : Store w) : Option Ending × Store w :=
  if s.cursor = 0 then s.fail Fault.tapeUnderflow.toFailure
  else (none, { s with cursor := s.cursor - 1 })

def copyPaste (s : Store w) : Store w :=
  match s.clipboard with
  | none => { s with clipboard := some s.current }
  | some v => { s with clipboard := none }.put v

/-- The effect of a command and the ending it brings about, if any. Jumps change nothing here. -/
def act (cfg : Config) (s : Store cfg.width) : Command → Option Ending × Store cfg.width
  | .increment => (none, s.put (s.current + 1))
  | .decrement => (none, s.put (s.current - 1))
  | .incrementTwo => (none, s.put (s.current + 2))
  | .decrementTwo => (none, s.put (s.current - 2))
  | .zero => (none, s.put 0)
  | .moveRight => (none, { s with cursor := s.cursor + 1 })
  | .moveLeft => s.moveLeft
  | .printChar => s.printChar
  | .printInt => s.print (decimal s.current.val)
  | .readChar => s.readChar cfg
  | .readInt => s.readInt cfg
  | .copyPaste => (none, s.copyPaste)
  | .terminate => (some .terminated, s)
  | .loopStart | .loopEnd | .skip => (none, s)

end Store

/-- Where a jump from the loop start at `i` goes: just past its loop end. -/
def pastEnd? (cs : List Command) (i : ℕ) : Option ℕ :=
  (scan .loopStart .loopEnd 0 (cs.drop (i + 1))).map fun k => i + 1 + k + 1

/-- Where a jump from the loop end at `i` goes: just past its loop start. -/
def pastStart? (cs : List Command) (i : ℕ) : Option ℕ :=
  (scan .loopEnd .loopStart 0 (cs.take i).reverse).map fun k => i - 1 - k + 1

/-- Where the skip at `i` goes: just past the next loop end. -/
def pastNextEnd? (cs : List Command) (i : ℕ) : Option ℕ :=
  ((cs.drop (i + 1)).findIdx? (· == .loopEnd)).map fun k => i + 1 + k + 1

structure Plain (w : Width) where
  index : ℕ := 0
  store : Store w

namespace Plain

def start (cfg : Config) (input : Input) (sink : Sink) : Plain cfg.width where
  store := { input, sink }

variable {w : Width}

def advance (q : Plain w) : Option Ending × Plain w := (none, { q with index := q.index + 1 })

def goto (q : Plain w) : Option ℕ → Option Ending × Plain w
  | some i => (none, { q with index := i })
  | none => (some (.failed (.noSuchJump q.index)), q)

def settle (i : ℕ) : Option Ending × Store w → Option Ending × Plain w
  | (none, s) => (none, ⟨i + 1, s⟩)
  | (some e, s) => (some e, ⟨i, s⟩)

/-- One step, with the ending it leads to, if any. -/
def step (cfg : Config) (cs : List Command) (q : Plain cfg.width) :
    Option Ending × Plain cfg.width :=
  match cs[q.index]? with
  | none => (some .finished, q)
  | some .loopStart =>
    if q.store.current = 0 then q.goto (pastEnd? cs q.index) else q.advance
  | some .loopEnd =>
    if q.store.current = 0 then q.advance else q.goto (pastStart? cs q.index)
  | some .skip => q.goto (pastNextEnd? cs q.index)
  | some c => settle q.index (q.store.act cfg c)

def runFor (cfg : Config) (cs : List Command) : ℕ → Plain cfg.width → Option Ending × Plain cfg.width
  | 0, q => (if q.index < cs.length then none else some .finished, q)
  | n + 1, q =>
    match q.step cfg cs with
    | (none, q') => runFor cfg cs n q'
    | (some e, q') => (some e, q')

end Plain

theorem Leads.pastEnd?_eq {cs : List Command} {i t : ℕ} (start : cs[i]? = some .loopStart)
    (h : Leads cs i t) : pastEnd? cs i = some t := by
  obtain ⟨m, rfl, p⟩ := h.of_start start
  have before := p.before
  rw [pastEnd?, (scan_right_iff start before).2 p, Option.map_some]
  congr 1
  omega

theorem Leads.pastStart?_eq {cs : List Command} {i t : ℕ} (stop : cs[i]? = some .loopEnd)
    (h : Leads cs i t) : pastStart? cs i = some t := by
  obtain ⟨j, rfl, p⟩ := h.of_stop stop
  have before := p.before
  rw [pastStart?, (scan_left_iff stop before).2 p, Option.map_some]
  congr 1
  omega

theorem Leads.pastNextEnd?_eq {cs : List Command} {i t : ℕ} (skip : cs[i]? = some .skip)
    (h : Leads cs i t) : pastNextEnd? cs i = some t := by
  obtain ⟨e, rfl, ⟨after, stop⟩, least⟩ := h.of_skip skip
  have there : i + 1 + (e - (i + 1)) = e := by omega
  have found : (cs.drop (i + 1)).findIdx? (· == .loopEnd) = some (e - (i + 1)) := by
    have inside := lt_length_of_getElem? stop
    rw [List.findIdx?_eq_some_iff_getElem]
    refine ⟨by rw [List.length_drop]; omega, ?_, fun j hj => ?_⟩
    · have here : cs[i + 1 + (e - (i + 1))]? = some .loopEnd := by rw [there]; exact stop
      simpa using (List.getElem?_eq_some_iff.1 here).2
    · intro other
      have earlier : cs[i + 1 + j]? = some .loopEnd :=
        List.getElem?_eq_some_iff.2 ⟨by omega, by simpa using other⟩
      have := least ⟨by omega, earlier⟩
      omega
  rw [pastNextEnd?, found, Option.map_some]
  congr 1
  omega

end SlangTape
