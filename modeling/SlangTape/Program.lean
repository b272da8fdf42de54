import Std.Data.TreeMap
import SlangTape.SignedIndex
import SlangTape.Token

set_option autoImplicit false

/-!
# Programs

A program is its commands, the place each came from, and a jump table: the index at which
execution goes on when the loop command or skip at a given index jumps. `Jumps.ofCommands` finds
the table in one pass with a stack of open loops and the skips that wait for the next loop end.
-/
namespace SlangTape

abbrev Jumps := Std.TreeMap Int Int

/-- A program put together by hand may lack places or jumps, and its jumps may lead anywhere. -/
structure Program where
  commands : Array Command
  locations : Array (Option Location)
  jumps : Jumps

structure Unmatched where
  kind : Command
  index : Nat
  deriving DecidableEq, Repr

/-- What one pass knows after the commands read so far: the next index, the open loop starts with
the innermost first, the skips since the last loop end with the latest first, and the jumps
found. -/
structure Matching where
  next : Nat := 0
  openLoops : List Nat := []
  waitingSkips : List Nat := []
  jumps : Jumps := {}

namespace Matching

/-- Every jump lands just past the command it goes to. -/
def close (m : Matching) (loopStart : Nat) (outer : List Nat) : Matching where
  next := m.next + 1
  openLoops := outer
  waitingSkips := []
  jumps :=
    m.waitingSkips.foldl (fun (j : Jumps) (skip : Nat) => j.insert skip (m.next + 1))
      ((m.jumps.insert loopStart (m.next + 1)).insert m.next (loopStart + 1))

def step (m : Matching) : Command → Except Unmatched Matching
  | .loopStart => .ok { m with next := m.next + 1, openLoops := m.next :: m.openLoops }
  | .skip => .ok { m with next := m.next + 1, waitingSkips := m.next :: m.waitingSkips }
  | .loopEnd =>
    match m.openLoops with
    | [] => .error ⟨.loopEnd, m.next⟩
    | loopStart :: outer => .ok (m.close loopStart outer)
  | _ => .ok { m with next := m.next + 1 }

/-- At the end of the commands the outermost open loop is reported before the first waiting skip. -/
def finish (m : Matching) : Except Unmatched Jumps :=
  match m.openLoops.getLast?, m.waitingSkips.getLast? with
  | some i, _ => .error ⟨.loopStart, i⟩
  | none, some i => .error ⟨.skip, i⟩
  | none, none => .ok m.jumps

def run (m : Matching) : List Command → Except Unmatched Jumps
  | [] => m.finish
  | c :: cs =>
    match m.step c with
    | .error u => .error u
    | .ok m' => m'.run cs

end Matching

def Jumps.ofCommands (cs : List Command) : Except Unmatched Jumps := Matching.run {} cs

def Token.location (file : String) (t : Token) : Location := ⟨file, t.position, t.command.spelling⟩

namespace Program

def size (p : Program) : Nat := p.commands.size

/-- The program of a token list, or the loop command or skip in it that has no partner. -/
def ofTokens (file : String) (ts : List Token) : Except ParseError Program :=
  match Jumps.ofCommands (ts.map Token.command) with
  | .ok jumps => .ok
    { commands := (ts.map Token.command).toArray
      locations := (ts.map fun t => some (t.location file)).toArray
      jumps }
  | .error u =>
    let position := (ts[u.index]?.map Token.position).getD .start
    .error (.unmatchedLoop u.kind u.index ⟨file, position, u.kind.spelling⟩)

def parse (l : Language) (file : String) (t : Text) : Except ParseError Program :=
  match l.tokenize file t with
  | .error e => .error e
  | .ok ts => ofTokens file ts

end Program

end SlangTape
