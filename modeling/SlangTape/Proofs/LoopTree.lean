import SlangTape.Proofs.PlainAgreement

set_option autoImplicit false

/-!
# Loop trees

A program without skips is the sequence of basic commands and loops that its loop tree is. `Runs`
evaluates the tree with no instruction index and no jump: a loop runs its body while the cell under
the cursor is not zero, and an ending other than the normal one abandons everything. The flat run of
the commands comes to the same end.

A jump back lands past the loop start, so that the machine tests the cell at both ends of a loop.
`ends_start_iff_ends_stop` says that both tests lead to the same place; with it the flat run is
followed one round of a loop at a time.
-/
namespace SlangTape

/-- Commands that neither jump nor are jumped to. -/
abbrev Basic := { c : Command // c ≠ .loopStart ∧ c ≠ .loopEnd ∧ c ≠ .skip }

inductive LoopTree where
  | done
  | basic (c : Basic) (rest : LoopTree)
  | loop (body rest : LoopTree)

namespace LoopTree

def commands : LoopTree → List Command
  | done => []
  | basic c rest => c.val :: rest.commands
  | loop body rest => .loopStart :: body.commands ++ .loopEnd :: rest.commands

/-- `Runs cfg b s e t`: from the store `s` the tree `b` comes to the ending `e` with the store `t`. -/
inductive Runs (cfg : Config) : LoopTree → Store cfg.width → Ending → Store cfg.width → Prop where
  | done {s : Store cfg.width} : Runs cfg .done s .finished s
  | basic {c : Basic} {rest : LoopTree} {s u t : Store cfg.width} {e : Ending}
      (effect : s.act cfg c = (none, u)) (later : Runs cfg rest u e t) :
      Runs cfg (.basic c rest) s e t
  | stopped {c : Basic} {rest : LoopTree} {s t : Store cfg.width} {e : Ending}
      (effect : s.act cfg c = (some e, t)) : Runs cfg (.basic c rest) s e t
  | leave {body rest : LoopTree} {s t : Store cfg.width} {e : Ending} (zero : s.current = 0)
      (later : Runs cfg rest s e t) : Runs cfg (.loop body rest) s e t
  | again {body rest : LoopTree} {s u t : Store cfg.width} {e : Ending} (nonzero : s.current ≠ 0)
      (once : Runs cfg body s .finished u) (later : Runs cfg (.loop body rest) u e t) :
      Runs cfg (.loop body rest) s e t
  | abandoned {body rest : LoopTree} {s t : Store cfg.width} {e : Ending} (nonzero : s.current ≠ 0)
      (once : Runs cfg body s e t) (ended : e ≠ .finished) : Runs cfg (.loop body rest) s e t

theorem balanced_commands (b : LoopTree) : Balanced b.commands := by
  induction b with
  | done => exact balanced_nil
  | basic c rest ih => exact (balanced_singleton c.2.1 c.2.2.1).append ih
  | loop body rest ihBody ihRest =>
    have whole := ihBody.loop.append ihRest
    simpa [commands] using whole

/-- The commands of `b` stand in `cs` from `i` on. -/
def Placed (cs : List Command) (i : ℕ) (b : LoopTree) : Prop :=
  ∃ before after, cs = before ++ b.commands ++ after ∧ before.length = i

theorem placed_commands (b : LoopTree) : Placed b.commands 0 b := ⟨[], [], by simp, rfl⟩

theorem Placed.basic {cs : List Command} {i : ℕ} {c : Basic} {rest : LoopTree}
    (h : Placed cs i (.basic c rest)) : cs[i]? = some c.val ∧ Placed cs (i + 1) rest := by
  obtain ⟨before, after, rfl, rfl⟩ := h
  refine ⟨by simp [commands], before ++ [c.val], after, by simp [commands], by simp⟩

theorem Placed.loop {cs : List Command} {i : ℕ} {body rest : LoopTree}
    (h : Placed cs i (.loop body rest)) :
    Partner cs i (i + 1 + body.commands.length) ∧ Placed cs (i + 1) body ∧
      Placed cs (i + 1 + body.commands.length + 1) rest := by
  obtain ⟨before, after, rfl, rfl⟩ := h
  have split : before ++ (LoopTree.loop body rest).commands ++ after =
      (before ++ [.loopStart] ++ body.commands) ++ .loopEnd :: (rest.commands ++ after) := by
    simp [commands]
  have here : before.length + 1 + body.commands.length =
      (before ++ [Command.loopStart] ++ body.commands).length := by
    simp; omega
  rw [split, here]
  refine ⟨⟨by simp, by simp, by simp, ?_⟩, ?_, ?_⟩
  · rw [List.take_left' rfl, List.drop_left' (by simp)]
    exact body.balanced_commands
  · exact ⟨before ++ [.loopStart], .loopEnd :: (rest.commands ++ after), by simp, by simp⟩
  · exact ⟨before ++ [.loopStart] ++ body.commands ++ [.loopEnd], after, by simp, by simp; omega⟩

end LoopTree

/-- After at most `k` steps the plain machine has come to the ending `e` with the store `t`. -/
def Plain.Ends (cfg : Config) (cs : List Command) (k : ℕ) (q : Plain cfg.width) (e : Ending)
    (t : Store cfg.width) : Prop :=
  (q.runFor cfg cs k).1 = some e ∧ (q.runFor cfg cs k).2.store = t

namespace Plain

variable {cfg : Config} {cs : List Command} {k i m : ℕ} {q q' : Plain cfg.width} {e e' : Ending}
  {s t : Store cfg.width}

theorem ends_next (h : q.step cfg cs = (none, q')) :
    Ends cfg cs (k + 1) q e t ↔ Ends cfg cs k q' e t := by
  unfold Ends
  rw [runFor, h]

theorem ends_halt (h : q.step cfg cs = (some e', q')) :
    Ends cfg cs (k + 1) q e t ↔ e' = e ∧ q'.store = t := by
  unfold Ends
  rw [runFor, h]
  simp

theorem not_ends_zero {c : Command} (h : cs[q.index]? = some c) : ¬ Ends cfg cs 0 q e t := by
  unfold Ends
  rw [runFor, if_pos (lt_length_of_getElem? h)]
  simp

theorem ends_past_end (h : cs.length ≤ q.index) :
    Ends cfg cs k q e t ↔ e = .finished ∧ q.store = t := by
  cases k with
  | zero =>
    unfold Ends
    rw [runFor, if_neg (by omega)]
    simp [eq_comm]
  | succ k =>
    have stopped : q.step cfg cs = (some .finished, q) := by
      rw [step, List.getElem?_eq_none h]
    rw [ends_halt stopped]
    exact and_congr_left' eq_comm

theorem step_basic {c : Basic} (h : cs[i]? = some c.val) :
    step cfg cs ⟨i, s⟩ = settle i (s.act cfg c) := by
  obtain ⟨c, start, stop, skip⟩ := c
  rw [step, h]
  cases c with
  | loopStart => exact absurd rfl start
  | loopEnd => exact absurd rfl stop
  | skip => exact absurd rfl skip
  | _ => rfl

theorem step_start (h : Partner cs i m) :
    step cfg cs ⟨i, s⟩ = (none, ⟨if s.current = 0 then m + 1 else i + 1, s⟩) := by
  have found := (Leads.pastEnd h).pastEnd?_eq h.start
  rw [step, h.start]
  simp only [found]
  split <;> rfl

theorem step_stop (h : Partner cs i m) :
    step cfg cs ⟨m, s⟩ = (none, ⟨if s.current = 0 then m + 1 else i + 1, s⟩) := by
  have found := (Leads.pastStart h).pastStart?_eq h.stop
  rw [step, h.stop]
  simp only [found]
  split <;> rfl

theorem ends_start_iff_ends_stop (h : Partner cs i m) :
    Ends cfg cs k ⟨i, s⟩ e t ↔ Ends cfg cs k ⟨m, s⟩ e t := by
  cases k with
  | zero => exact iff_of_false (not_ends_zero h.start) (not_ends_zero h.stop)
  | succ k => rw [ends_next (step_start h), ends_next (step_stop h)]

end Plain

theorem Store.print_ne_finished {w : Width} (s : Store w) (text : Text) :
    (s.print text).1 ≠ some .finished := by
  unfold Store.print Sink.take
  cases s.sink.breaks s.sink.calls with
  | none => exact nofun
  | some f => exact nofun

theorem Store.act_fst_ne_finished (cfg : Config) (s : Store cfg.width) (c : Command) :
    (s.act cfg c).1 ≠ some .finished := by
  cases c with
  | printInt => exact s.print_ne_finished _
  | printChar =>
    change s.printChar.1 ≠ _
    unfold printChar
    split
    · exact s.print_ne_finished _
    · exact nofun
  | moveLeft =>
    change s.moveLeft.1 ≠ _
    unfold moveLeft
    split <;> exact nofun
  | readChar =>
    change (readChar cfg s).1 ≠ _
    unfold readChar
    split <;> exact nofun
  | readInt =>
    change (readInt cfg s).1 ≠ _
    unfold readInt
    split <;> exact nofun
  | _ => exact nofun

theorem Store.ne_finished_of_act {cfg : Config} {s t : Store cfg.width} {c : Command} {e : Ending}
    (h : s.act cfg c = (some e, t)) : e ≠ .finished := by
  intro finished
  apply s.act_fst_ne_finished cfg c
  rw [h, finished]

namespace LoopTree

variable {cfg : Config} {cs : List Command} {k i : ℕ} {b : LoopTree} {e e' : Ending}
  {s t t' : Store cfg.width}

/-- The ending and the store in which a tree ran are those of the whole, or execution goes on at
`stop` and comes to those of the whole within `k` steps. -/
inductive Leaves (cfg : Config) (cs : List Command) (k stop : ℕ) :
    Ending → Store cfg.width → Ending → Store cfg.width → Prop where
  | through {t t' : Store cfg.width} {e' : Ending} (h : Plain.Ends cfg cs k ⟨stop, t⟩ e' t') :
      Leaves cfg cs k stop .finished t e' t'
  | ended {t : Store cfg.width} {e : Ending} (h : e ≠ .finished) : Leaves cfg cs k stop e t e t

theorem Runs.ends (h : Runs cfg b s e t) (placed : Placed cs i b)
    (leaves : Leaves cfg cs k (i + b.commands.length) e t e' t') :
    ∃ n, Plain.Ends cfg cs n ⟨i, s⟩ e' t' := by
  -- What follows a tree is part of the statement, since the body of a loop is followed by the loop.
  induction h generalizing i k e' t' with
  | done =>
    cases leaves with
    | through ends => exact ⟨k, ends⟩
    | ended other => exact absurd rfl other
  | @basic c rest s u t e effect later ih =>
    obtain ⟨fetched, placed⟩ := placed.basic
    obtain ⟨n, ends⟩ := ih placed (by simpa [commands, Nat.add_assoc, Nat.add_comm] using leaves)
    have step := Plain.step_basic (s := s) fetched
    rw [effect] at step
    exact ⟨n + 1, (Plain.ends_next step).2 ends⟩
  | @stopped c rest s t e effect =>
    have ended : e ≠ .finished := Store.ne_finished_of_act effect
    have step := Plain.step_basic (s := s) placed.basic.1
    rw [effect] at step
    cases leaves with
    | through => exact absurd rfl ended
    | ended => exact ⟨1, (Plain.ends_halt step).2 ⟨rfl, rfl⟩⟩
  | @leave body rest s t e zero later ih =>
    obtain ⟨partner, _, placed⟩ := placed.loop
    obtain ⟨n, ends⟩ := ih placed (by
      simpa [commands, Nat.add_assoc, Nat.add_comm, Nat.add_left_comm] using leaves)
    refine ⟨n + 1, (Plain.ends_next (Plain.step_start partner)).2 ?_⟩
    rwa [if_pos zero]
  | @again body rest s u t e nonzero once later ihOnce ihLater =>
    obtain ⟨n, ends⟩ := ihLater placed leaves
    obtain ⟨partner, inside, _⟩ := placed.loop
    obtain ⟨n', ends'⟩ := ihOnce inside (.through ((Plain.ends_start_iff_ends_stop partner).1 ends))
    refine ⟨n' + 1, (Plain.ends_next (Plain.step_start partner)).2 ?_⟩
    rwa [if_neg nonzero]
  | @abandoned body rest s t e nonzero once ended ih =>
    cases leaves with
    | through => exact absurd rfl ended
    | ended =>
      obtain ⟨partner, inside, _⟩ := placed.loop
      obtain ⟨n, ends⟩ := ih inside (.ended (k := 0) ended)
      refine ⟨n + 1, (Plain.ends_next (Plain.step_start partner)).2 ?_⟩
      rwa [if_neg nonzero]

theorem exists_runs (b : LoopTree) (placed : Placed cs i b)
    (ends : Plain.Ends cfg cs k ⟨i, s⟩ e' t') :
    ∃ e t n, n ≤ k ∧ Runs cfg b s e t ∧ Leaves cfg cs n (i + b.commands.length) e t e' t' := by
  -- Each round of a loop takes steps, so the number of steps left carries the induction.
  induction k using Nat.strong_induction_on generalizing b i s with
  | h k ih =>
    cases b with
    | done => exact ⟨.finished, s, k, le_rfl, .done, .through ends⟩
    | basic c rest =>
      obtain ⟨fetched, after⟩ := placed.basic
      have step := Plain.step_basic (s := s) fetched
      cases k with
      | zero => exact absurd ends (Plain.not_ends_zero fetched)
      | succ k =>
        rcases effect : s.act cfg c with ⟨_ | e, u⟩
        · rw [effect] at step
          obtain ⟨e, t, n, hn, runs, leaves⟩ :=
            ih k (by omega) rest after ((Plain.ends_next step).1 ends)
          refine ⟨e, t, n, by omega, .basic effect runs, ?_⟩
          simpa [commands, Nat.add_assoc, Nat.add_comm] using leaves
        · rw [effect] at step
          obtain ⟨rfl, rfl⟩ := (Plain.ends_halt step).1 ends
          exact ⟨e, u, 0, by omega, .stopped effect, .ended (Store.ne_finished_of_act effect)⟩
    | loop body rest =>
      obtain ⟨partner, inside, after⟩ := placed.loop
      cases k with
      | zero => exact absurd ends (Plain.not_ends_zero partner.start)
      | succ k =>
        have next := (Plain.ends_next (Plain.step_start partner)).1 ends
        by_cases zero : s.current = 0
        · rw [if_pos zero] at next
          obtain ⟨e, t, n, hn, runs, leaves⟩ := ih k (by omega) rest after next
          refine ⟨e, t, n, by omega, .leave zero runs, ?_⟩
          simpa [commands, Nat.add_assoc, Nat.add_comm, Nat.add_left_comm] using leaves
        · rw [if_neg zero] at next
          obtain ⟨e, t, n, hn, once, leaves⟩ := ih k (by omega) body inside next
          cases leaves with
          | through ends =>
            obtain ⟨e, t, n', hn', later, leaves⟩ := ih n (by omega) (.loop body rest) placed
              ((Plain.ends_start_iff_ends_stop partner).2 ends)
            exact ⟨e, t, n', by omega, .again zero once later, leaves⟩
          | ended ended => exact ⟨e', t', 0, by omega, .abandoned zero once ended, .ended ended⟩

theorem runs_iff_ends : Runs cfg b s e t ↔ ∃ k, Plain.Ends cfg b.commands k ⟨0, s⟩ e t := by
  constructor
  · intro runs
    by_cases ended : e = .finished
    · subst ended
      apply runs.ends (k := 0) b.placed_commands
      exact .through ((Plain.ends_past_end (by simp)).2 ⟨rfl, rfl⟩)
    · exact runs.ends (k := 0) b.placed_commands (.ended ended)
  · rintro ⟨k, ends⟩
    obtain ⟨e', t', n, _, runs, leaves⟩ := exists_runs b b.placed_commands ends
    cases leaves with
    | through ends =>
      obtain ⟨rfl, rfl⟩ := (Plain.ends_past_end (by simp)).1 ends
      exact runs
    | ended => exact runs

theorem commands_injective : Function.Injective commands := by
  intro b b' same
  induction b generalizing b' with
  | done =>
    cases b' with
    | done => rfl
    | basic c' rest' => simp [commands] at same
    | loop body' rest' => simp [commands] at same
  | basic c rest ih =>
    cases b' with
    | done => simp [commands] at same
    | basic c' rest' =>
      obtain ⟨head, tail⟩ := List.cons.inj same
      rw [Subtype.ext head, ih tail]
    | loop body' rest' => exact absurd (List.cons.inj same).1 c.2.1
  | loop body rest ihBody ihRest =>
    cases b' with
    | done => simp [commands] at same
    | basic c' rest' => exact absurd (List.cons.inj same).1.symm c'.2.1
    | loop body' rest' =>
      have partner := (placed_commands (.loop body rest)).loop.1
      have partner' := (placed_commands (.loop body' rest')).loop.1
      rw [← same] at partner'
      have stop := partner.stop_unique partner'
      obtain ⟨front, back⟩ := List.append_inj (List.cons.inj same).2 (by omega)
      rw [ihBody front, ihRest (List.cons.inj back).2]

theorem exists_commands_eq {cs : List Command} (balanced : Balanced cs) (noSkip : .skip ∉ cs) :
    ∃ b : LoopTree, b.commands = cs := by
  induction length : cs.length using Nat.strong_induction_on generalizing cs with
  | h n ih =>
    cases cs with
    | nil => exact ⟨.done, rfl⟩
    | cons c cs =>
      have fewer : cs.length < n := by simp at length; omega
      have noSkip' : .skip ∉ cs := fun h => noSkip (List.mem_cons_of_mem c h)
      by_cases start : c = .loopStart
      · subst start
        obtain ⟨m, before, _, stop, inside⟩ := balanced.exists_stop (i := 0) rfl
        obtain ⟨m, rfl⟩ : ∃ n, m = n + 1 := ⟨m - 1, by omega⟩
        have split : cs = cs.take m ++ .loopEnd :: cs.drop (m + 1) :=
          eq_take_cons_drop (by simpa using stop)
        have inside : Balanced (cs.take m) := by simpa using inside
        have after : Balanced (cs.drop (m + 1)) := by
          apply inside.loop.of_append
          rw [split] at balanced
          simpa using balanced
        have shorter : (cs.drop (m + 1)).length ≤ cs.length := by simp
        obtain ⟨body, hBody⟩ := ih (cs.take m).length (by simp; omega) inside
          (fun h => noSkip' (List.mem_of_mem_take h)) rfl
        obtain ⟨rest, hRest⟩ := ih (cs.drop (m + 1)).length (by omega) after
          (fun h => noSkip' (List.mem_of_mem_drop h)) rfl
        refine ⟨.loop body rest, ?_⟩
        rw [commands, hBody, hRest, List.cons_append, ← split]
      · have stop : c ≠ .loopEnd := by
          rintro rfl
          exact not_closesFrom_closing (by decide) ((balanced_iff_closesFrom _).1 balanced)
        have skip : c ≠ .skip := by
          rintro rfl
          exact noSkip List.mem_cons_self
        have after : Balanced cs := (balanced_singleton start stop).of_append balanced
        obtain ⟨rest, hRest⟩ := ih cs.length fewer after noSkip' rfl
        exact ⟨.basic ⟨c, start, stop, skip⟩ rest, by rw [commands, hRest]⟩

end LoopTree

/-- An accepted program without skips is the commands of one loop tree. For every configuration,
input and output the flat run ends exactly when the tree does, in the same way and with the same
cells, cursor, clipboard, printed texts and channels. -/
theorem runFor_agrees_loopTree (l : Language) (file : String) (text : Text) (p : Program)
    (h : Program.parse l file text = .ok p) (noSkip : .skip ∉ p.commands) :
    ∃ b : LoopTree, (∀ b' : LoopTree, b'.commands = p.commands.toList ↔ b' = b) ∧
      ∀ (cfg : Config) (input : Input) (sink : Sink) (e : Ending),
        (∀ k m, (State.start cfg p input sink).runFor cfg p k = (some e, m) →
          ∃ t, b.Runs cfg { input, sink } e t ∧ Agrees m t) ∧
        ∀ t, b.Runs cfg { input, sink } e t →
          ∃ k m, (State.start cfg p input sink).runFor cfg p k = (some e, m) ∧ Agrees m t := by
  have resolved := resolved_of_parse h
  obtain ⟨b, hb⟩ := LoopTree.exists_commands_eq resolved.resolvable.1 (by simpa using noSkip)
  refine ⟨b, fun b' => ⟨fun hb' => LoopTree.commands_injective (hb'.trans hb.symm), ?_⟩, ?_⟩
  · rintro rfl
    exact hb
  · intro cfg input sink e
    have follows (k : ℕ) := (follows_start cfg p input sink).run resolved k
    rw [← hb] at follows
    refine ⟨fun k m ran => ?_, fun t runs => ?_⟩
    · obtain ⟨ending, later⟩ := follows k
      rw [ran] at ending later
      exact ⟨_, LoopTree.runs_iff_ends.2 ⟨k, ending.symm, rfl⟩, later.agrees⟩
    · obtain ⟨k, ending, rfl⟩ := LoopTree.runs_iff_ends.1 runs
      obtain ⟨ending', later⟩ := follows k
      exact ⟨k, _, Prod.ext (ending'.trans ending) rfl, later.agrees⟩

theorem runFor_agrees_loopTree_countdown :
    let text := Command.readInt.spelling ++ Command.loopStart.spelling ++
      Command.decrement.spelling ++ [' '] ++ Command.loopEnd.spelling
    let input := Input.ofText ['3']
    ∃ p b, Program.parse .standard "countdown" text = .ok p ∧ .skip ∉ p.commands ∧
      LoopTree.commands b = p.commands.toList ∧ ∀ e t, b.Runs {} { input, sink := {} } e t →
        ∃ k m, (State.start {} p input {}).runFor {} p k = (some e, m) ∧ Agrees m t := by
  intro text input
  have accepted : (Program.parse .standard "countdown" text).toOption.map Program.commands =
      some #[.readInt, .loopStart, .decrement, .loopEnd] := by decide +kernel
  obtain ⟨p, parsed, commands⟩ := exists_ok_of_map accepted
  have noSkip : .skip ∉ p.commands := by
    simp [commands]
  obtain ⟨b, tree, agree⟩ := runFor_agrees_loopTree .standard "countdown" text p parsed noSkip
  exact ⟨p, b, parsed, noSkip, (tree b).2 rfl, fun e => (agree {} input {} e).2⟩

end SlangTape
