import SlangTape.Proofs.ExpandedRuns
import SlangTape.Proofs.Layout

set_option autoImplicit false

namespace SlangTape

/-- The commands that pass a unit on: to the next cell if no level is left, and otherwise to the loop
of the next cell, which has one level less. -/
def passage : ℕ → List Command
  | 0 => [.moveRight, .increment, .moveLeft]
  | levels + 1 =>
    [.moveRight, .zero, .increment, .loopStart, .decrement] ++ passage levels ++
      [.loopEnd, .moveLeft]

/-- Counts up to `count` in the first cell and moves that through `depth` further loops. -/
def nestedTransfer (count depth : ℕ) : List Command :=
  List.replicate count .increment ++ [.loopStart, .decrement] ++ passage depth ++ [.loopEnd]

namespace Store

variable {w : Width}

def moveRight (s : Store w) : Store w := { s with cursor := s.cursor + 1 }

/-- Adds `v` to the cell that lies `levels + 1` places to the right of the cursor. -/
def passOn (s : Store w) (levels : ℕ) (v : ZMod w.capacity) : Store w :=
  let target := s.cursor + levels + 1
  { s with cells := Function.update s.cells target (s.cells target + v) }

/-- The `levels` cells to the right of the cursor are zero. -/
def ClearAhead (s : Store w) (levels : ℕ) : Prop :=
  ∀ i, s.cursor < i → i ≤ s.cursor + levels → s.cells i = 0

variable {s : Store w} {levels : ℕ} {u v : ZMod w.capacity}

@[simp]
theorem passOn_zero : s.passOn levels 0 = s := by
  simp [passOn]

@[simp]
theorem passOn_passOn : (s.passOn levels u).passOn levels v = s.passOn levels (u + v) := by
  simp [passOn, add_assoc]

theorem target_ne_cursor : s.cursor + levels + 1 ≠ s.cursor := by omega

@[simp]
theorem current_passOn : (s.passOn levels v).current = s.current :=
  Function.update_of_ne target_ne_cursor.symm _ s.cells

@[simp]
theorem put_passOn : (s.passOn levels u).put v = (s.put v).passOn levels u := by
  simp only [passOn, put, Function.update_of_ne target_ne_cursor]
  rw [Function.update_comm target_ne_cursor]

theorem moveRight_passOn : s.moveRight.passOn levels v = (s.passOn (levels + 1) v).moveRight := by
  have target : s.cursor + 1 + levels + 1 = s.cursor + (levels + 1) + 1 := by omega
  simp only [passOn, moveRight, target]

theorem ClearAhead.put (h : s.ClearAhead levels) : (s.put v).ClearAhead levels := by
  intro i after upTo
  have elsewhere : i ≠ s.cursor := Nat.ne_of_gt after
  exact (Function.update_of_ne elsewhere v s.cells).trans (h i after upTo)

theorem ClearAhead.passOn (h : s.ClearAhead levels) : (s.passOn levels v).ClearAhead levels := by
  intro i after upTo
  have elsewhere : i ≠ s.cursor + levels + 1 := Nat.ne_of_lt (Nat.lt_succ_of_le upTo)
  exact (Function.update_of_ne elsewhere _ s.cells).trans (h i after upTo)

theorem ClearAhead.moveRight (h : s.ClearAhead (levels + 1)) :
    s.moveRight.current = 0 ∧ s.moveRight.ClearAhead levels := by
  constructor
  · exact h (s.cursor + 1) (by omega) (by omega)
  · intro i after upTo
    simp only [Store.moveRight] at after upTo
    exact h i (by omega) (by omega)

end Store

namespace LoopTree

def countThen : ℕ → LoopTree → LoopTree
  | 0, rest => rest
  | count + 1, rest => .basic ⟨.increment, by decide⟩ (countThen count rest)

def passageThen : ℕ → LoopTree → LoopTree
  | 0, rest =>
    .basic ⟨.moveRight, by decide⟩ (.basic ⟨.increment, by decide⟩ (.basic ⟨.moveLeft, by decide⟩ rest))
  | levels + 1, rest =>
    .basic ⟨.moveRight, by decide⟩ (.basic ⟨.zero, by decide⟩ (.basic ⟨.increment, by decide⟩
      (.loop (.basic ⟨.decrement, by decide⟩ (passageThen levels .done))
        (.basic ⟨.moveLeft, by decide⟩ rest))))

def transferThen (levels : ℕ) (rest : LoopTree) : LoopTree :=
  .loop (.basic ⟨.decrement, by decide⟩ (passageThen levels .done)) rest

theorem commands_countThen (count : ℕ) (rest : LoopTree) :
    (countThen count rest).commands = List.replicate count .increment ++ rest.commands := by
  induction count with
  | zero => rfl
  | succ count ih => rw [countThen, commands, ih, List.replicate_succ, List.cons_append]

theorem commands_passageThen (levels : ℕ) (rest : LoopTree) :
    (passageThen levels rest).commands = passage levels ++ rest.commands := by
  induction levels generalizing rest with
  | zero => rfl
  | succ levels ih => simp [passageThen, passage, commands, ih]

theorem commands_nestedTransfer (count depth : ℕ) :
    (countThen count (transferThen depth .done)).commands = nestedTransfer count depth := by
  simp [commands_countThen, transferThen, commands, commands_passageThen, nestedTransfer]

variable {cfg : Config} {rest : LoopTree} {s t : Store cfg.width} {e : Ending} {levels : ℕ}

theorem runs_countThen {count : ℕ}
    (later : Runs cfg rest (s.put (s.current + (count : ZMod cfg.width.capacity))) e t) :
    Runs cfg (countThen count rest) s e t := by
  induction count generalizing s with
  | zero =>
    rw [Nat.cast_zero, add_zero, Store.put_eq_self rfl] at later
    exact later
  | succ count ih =>
    apply Runs.basic (u := s.put (s.current + 1)) rfl
    apply ih
    rw [s.put_put, s.current_put, add_assoc, add_comm 1, ← Nat.cast_succ]
    exact later

theorem runs_transferThen_of_zero (zero : s.current = 0)
    (later : Runs cfg rest ((s.put 0).passOn levels s.current) e t) :
    Runs cfg (transferThen levels rest) s e t := by
  rw [Store.put_eq_self zero, zero, Store.passOn_zero] at later
  exact .leave zero later

theorem runs_transferThen {n : ℕ}
    (passes : ∀ s : Store cfg.width, s.ClearAhead levels →
      Runs cfg (passageThen levels .done) s .finished (s.passOn levels 1))
    (left : s.current = (n : ZMod cfg.width.capacity)) (clear : s.ClearAhead levels)
    (later : Runs cfg rest ((s.put 0).passOn levels s.current) e t) :
    Runs cfg (transferThen levels rest) s e t := by
  induction n generalizing s with
  | zero => exact runs_transferThen_of_zero (left.trans Nat.cast_zero) later
  | succ n ih =>
    by_cases zero : s.current = 0
    · exact runs_transferThen_of_zero zero later
    · have fewer : (s.put (s.current - 1)).ClearAhead levels := clear.put
      apply Runs.again zero (.basic rfl (passes _ fewer))
      apply ih
      · simp [left]
      · exact fewer.passOn
      · simpa using later

theorem runs_passageThen (clear : s.ClearAhead levels)
    (later : Runs cfg rest (s.passOn levels 1) e t) : Runs cfg (passageThen levels rest) s e t := by
  induction levels generalizing s rest e t with
  | zero => exact .basic rfl (.basic rfl (.basic rfl later))
  | succ levels ih =>
    obtain ⟨zero, ahead⟩ := clear.moveRight
    have passes (s : Store cfg.width) (clear : s.ClearAhead levels) :
        Runs cfg (passageThen levels .done) s .finished (s.passOn levels 1) :=
      ih clear .done
    apply Runs.basic (u := s.moveRight) rfl
    apply Runs.basic (u := s.moveRight.put 0) rfl
    apply Runs.basic (u := s.moveRight.put 1)
    · simp [Store.act]
    apply runs_transferThen (n := 1) passes
    · simp
    · exact ahead.put
    · rw [Store.put_put, Store.current_put, Store.put_eq_self zero, Store.moveRight_passOn]
      exact .basic rfl later

theorem runs_nestedTransfer {count depth : ℕ} (zero : s.current = 0) (clear : s.ClearAhead depth) :
    Runs cfg (countThen count (transferThen depth .done)) s .finished (s.passOn depth count) := by
  apply runs_countThen
  rw [zero, zero_add]
  apply runs_transferThen (n := count) (fun s clear => runs_passageThen clear .done)
  · exact s.current_put _
  · exact clear.put
  · rw [Store.put_put, Store.current_put, Store.put_eq_self zero]
    exact .done

theorem skip_notMem_commands (b : LoopTree) : .skip ∉ b.commands := by
  induction b with
  | done => exact List.not_mem_nil
  | basic c rest ih => simp [commands, ih, c.2.2.2.symm]
  | loop body rest ihBody ihRest => simp [commands, ihBody, ihRest]

theorem resolvable_commands (b : LoopTree) : Resolvable b.commands :=
  b.balanced_commands.resolvable b.skip_notMem_commands

end LoopTree

theorem Session.exists_run_of_runs {table : List Row} {b : LoopTree} {s : Session}
    {t : Store s.config.width} (checked : Language.ofTable table = .ok s.language)
    (rendered : Renders table b.commands s.source)
    (runs : b.Runs s.config { input := s.input, sink := s.sink } .finished t) :
    ∃ k p m, Agrees m t ∧
      ∀ limit, k ≤ limit → s.run limit = (.ok, m.events, s.leave p m) := by
  obtain ⟨ts, parsed, commands⟩ := exists_tokens_of_renders checked rendered s.file
  obtain ⟨p, accepted, same⟩ := exists_ofTokens s.file (commands ▸ b.resolvable_commands)
  rw [commands] at same
  obtain ⟨k, ending, rfl⟩ := LoopTree.runs_iff_ends.1 runs
  have follows := (follows_start s.config p s.input s.sink).run (resolved_of_ofTokens accepted) k
  rw [same] at follows
  have ran : (s.machine p).runFor s.config p k = (some .finished, _) :=
    Prod.ext (follows.1.trans ending) rfl
  refine ⟨k, p, _, follows.2.agrees, fun limit enough => ?_⟩
  have longer := runFor_of_ended ran (limit - k)
  rw [Nat.add_sub_cancel' enough] at longer
  exact run_of_parse (parsed.trans accepted) longer

/-- Transfer loops work at every depth: a text that renders one returns without printing or reading
anything. All that it leaves is the count, as far as a cell keeps it, in the cell past the loops. -/
theorem run_nestedTransfer {table : List Row} {count depth : ℕ} (s : Session)
    (checked : Language.ofTable table = .ok s.language)
    (rendered : Renders table (nestedTransfer count depth) s.source) :
    ∃ k s', (∀ limit, k ≤ limit → s.run limit = (.ok, #[], s')) ∧
      s'.tape.cursor = 0 ∧ s'.clipboard = none ∧ s'.input = s.input ∧ s'.sink = s.sink ∧
      ∀ i : ℕ, s'.tape.look i =
        .ok (if i = depth + 1 then count % 2 ^ s.config.width.bits else 0) := by
  rw [← LoopTree.commands_nestedTransfer] at rendered
  have blank : ({ input := s.input, sink := s.sink } : Store s.config.width).ClearAhead depth :=
    fun _ _ _ => rfl
  obtain ⟨k, p, m, agrees, returns⟩ := Session.exists_run_of_runs checked rendered
    (LoopTree.runs_nestedTransfer rfl blank)
  have silent : m.events = #[] := by
    have printed := agrees.printed
    simpa [Store.passOn] using printed
  rw [silent] at returns
  refine ⟨k, s.leave p m, returns, agrees.tape.cursor, agrees.clipboard, agrees.input, agrees.sink,
    fun i => ?_⟩
  rw [Session.leave, agrees.tape.look]
  by_cases here : i = depth + 1
  · have value : (count : ZMod s.config.width.capacity).val = count % 2 ^ s.config.width.bits :=
      ZMod.val_natCast _ count
    simp [Store.passOn, here, value]
  · simp [Store.passOn, here]

theorem renders_spaced (cs : List Command) :
    Renders Language.standardTable cs (cs.flatMap fun c => ' ' :: c.spelling) := by
  induction cs with
  | nil => exact .nil (by simp)
  | cons c cs ih =>
    exact @Renders.cons _ [' '] _ ⟨c.spelling, c⟩ _ (by simp [blanks])
      (List.mem_map_of_mem c.mem_all) ih

theorem run_nestedTransfer_past_capacity :
    let s : Session :=
      { source := (nestedTransfer 300 2).flatMap fun c => ' ' :: c.spelling
        file := "transfer"
        config := {}
        language := .standard
        input := .ofText [] }
    ∃ k s', s.run k = (.ok, #[], s') ∧ s'.tape.look 3 = .ok 44 ∧ s'.tape.look 1 = .ok 0 := by
  intro s
  obtain ⟨k, s', returns, _, _, _, _, cells⟩ := run_nestedTransfer s Language.ofTable_standardTable
    (renders_spaced (nestedTransfer 300 2))
  exact ⟨k, s', returns k le_rfl, (cells 3).trans (by decide), (cells 1).trans (by decide)⟩

end SlangTape
