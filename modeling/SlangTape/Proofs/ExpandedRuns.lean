import SlangTape.Proofs.Expansion
import SlangTape.Proofs.LoopTree

set_option autoImplicit false

/-!
# Runs of written-out commands

The plain machine takes the written-out commands of a list through the same stores: what the list
does in one step, its expansion does in one or more, and then stands at the place of the next
command. Only commands that are written as themselves can end a run, so an ending is met at the same
command.
-/
namespace SlangTape

namespace Store

variable {w : Width} (s : Store w) (u v : ZMod w.capacity)

@[simp]
theorem current_put : (s.put v).current = v := Function.update_self _ _ _

@[simp]
theorem put_put : (s.put u).put v = s.put v := by
  simp [put]

theorem put_eq_self {s : Store w} {v : ZMod w.capacity} (h : s.current = v) : s.put v = s := by
  subst h
  simp [put, current]

end Store

namespace Plain

inductive Steps (cfg : Config) (cs : List Command) :
    Plain cfg.width → ℕ → Plain cfg.width → Prop where
  | refl (q : Plain cfg.width) : Steps cfg cs q 0 q
  | next {q u v : Plain cfg.width} {n : ℕ} (h : q.step cfg cs = (none, u))
      (tail : Steps cfg cs u n v) : Steps cfg cs q (n + 1) v

variable {cfg : Config} {cs : List Command} {q u v : Plain cfg.width} {s t : Store cfg.width}
  {c : Command} {e : Ending} {i j k m n : ℕ}

theorem Steps.runFor_add (h : Steps cfg cs q n v) (k : ℕ) :
    q.runFor cfg cs (n + k) = v.runFor cfg cs k := by
  induction h with
  | refl q => rw [Nat.zero_add]
  | next stepped _ ih =>
    rw [Nat.add_right_comm, runFor, stepped]
    exact ih

theorem step_over (h : cs[i]? = none) : step cfg cs ⟨i, s⟩ = (some .finished, ⟨i, s⟩) := by
  rw [step, h]

theorem runFor_of_le (ended : q.runFor cfg cs k = (some e, v)) (h : k ≤ n) :
    q.runFor cfg cs n = (some e, v) := by
  induction k generalizing q n with
  | zero =>
    by_cases inside : q.index < cs.length
    · rw [runFor, if_pos inside] at ended
      cases ended
    · have outside : cs[q.index]? = none := List.getElem?_eq_none (Nat.le_of_not_lt inside)
      cases n with
      | zero => exact ended
      | succ n =>
        rw [runFor, if_neg inside] at ended
        rw [runFor, step_over outside]
        exact ended
  | succ k ih =>
    obtain ⟨n, rfl⟩ : ∃ n', n = n' + 1 := ⟨n - 1, by omega⟩
    rw [runFor] at ended ⊢
    rcases stepped : q.step cfg cs with ⟨_ | e', u⟩
    · rw [stepped] at ended
      exact ih ended (Nat.le_of_succ_le_succ h)
    · rw [stepped] at ended
      exact ended

theorem step_skip (skip : cs[i]? = some .skip) (h : NextEnd cs i m) :
    step cfg cs ⟨i, s⟩ = (none, ⟨m + 1, s⟩) := by
  have found := (Leads.pastNextEnd skip h).pastNextEnd?_eq skip
  rw [step, skip]
  simp only [found]
  rfl

theorem step_of_act {c : Basic} (h : cs[i]? = some c.val) (effect : s.act cfg c = (none, t)) :
    step cfg cs ⟨i, s⟩ = (none, ⟨i + 1, t⟩) := by
  rw [step_basic h, effect]
  rfl

/-- The two tests of a loop have the same outcome. -/
theorem step_test (h : Partner cs i m) (test : j = i ∨ j = m) :
    step cfg cs ⟨j, s⟩ = (none, ⟨if s.current = 0 then m + 1 else i + 1, s⟩) := by
  rcases test with rfl | rfl
  · exact step_start h
  · exact step_stop h

theorem steps_leave (h : Partner cs i m) (test : j = i ∨ j = m) (zero : s.current = 0) :
    Steps cfg cs ⟨j, s⟩ 1 ⟨m + 1, s⟩ := by
  have tested := step_test (s := s) h test
  rw [if_pos zero] at tested
  exact .next tested (.refl _)

theorem steps_countdown (h : Partner cs i (i + 2)) (body : cs[i + 1]? = some .decrement)
    (test : j = i ∨ j = i + 2) (left : s.current = (n : ZMod cfg.width.capacity)) :
    ∃ k, Steps cfg cs ⟨j, s⟩ (k + 1) ⟨i + 3, s.put 0⟩ := by
  -- After the first round the loop is tested at its end, so the test is part of the statement.
  induction n generalizing j s with
  | zero =>
    have zero : s.current = 0 := left.trans Nat.cast_zero
    rw [Store.put_eq_self zero]
    exact ⟨0, steps_leave h test zero⟩
  | succ n ih =>
    by_cases zero : s.current = 0
    · rw [Store.put_eq_self zero]
      exact ⟨0, steps_leave h test zero⟩
    · have tested := step_test (s := s) h test
      rw [if_neg zero] at tested
      have round : step cfg cs ⟨i + 1, s⟩ = (none, ⟨i + 2, s.put (s.current - 1)⟩) :=
        step_of_act (c := ⟨.decrement, by decide⟩) body rfl
      have fewer : (s.put (s.current - 1)).current = (n : ZMod cfg.width.capacity) := by
        simp [left]
      obtain ⟨k, rest⟩ := ih (.inr rfl) fewer
      rw [s.put_put] at rest
      exact ⟨k + 2, .next tested (.next round rest)⟩

def placed {w : Width} (loops : Bool) (cs : List Command) (q : Plain w) : Plain w :=
  { q with index := place loops cs q.index }

/-- The results of a step of `cs` from `q` that the written-out commands come to as well, from the
place of `q` and in one step or more. -/
inductive Expands (cfg : Config) (loops : Bool) (cs : List Command) (q : Plain cfg.width) :
    Option Ending × Plain cfg.width → Prop where
  | next {u : Plain cfg.width} {n : ℕ}
      (h : Steps cfg (expand loops cs) (q.placed loops cs) (n + 1) (u.placed loops cs)) :
      Expands cfg loops cs q (none, u)
  | halt {u : Plain cfg.width} {e : Ending}
      (h : step cfg (expand loops cs) (q.placed loops cs) = (some e, u.placed loops cs))
      (same : (expand loops cs)[place loops cs u.index]? = cs[u.index]?) :
      Expands cfg loops cs q (some e, u)

variable {loops : Bool}

theorem expands_of_step
    (stepped : step cfg (expand loops cs) ⟨place loops cs i, s⟩ = (none, ⟨place loops cs j, t⟩)) :
    Expands cfg loops cs ⟨i, s⟩ (none, ⟨j, t⟩) :=
  .next (.next stepped (.refl _))

theorem expands_basic {c : Basic} (fetched : cs[i]? = some c.val)
    (same : c.val.expansion loops = [c.val]) :
    Expands cfg loops cs ⟨i, s⟩ (step cfg cs ⟨i, s⟩) := by
  have there := getElem?_place fetched same
  have past : place loops cs (i + 1) = place loops cs i + 1 := by
    rw [place_succ fetched, same]
    rfl
  rw [step_basic fetched]
  rcases effect : s.act cfg c with ⟨_ | e, t⟩
  · apply expands_of_step
    rw [past]
    exact step_of_act there effect
  · have stopped : step cfg (expand loops cs) ⟨place loops cs i, s⟩ =
        (some e, ⟨place loops cs i, t⟩) := by
      rw [step_basic there, effect]
      rfl
    exact .halt stopped (there.trans fetched.symm)

theorem expands_twice {a : Basic} (fetched : cs[i]? = some c)
    (twice : c.expansion loops = [a.val, a.val]) {t t' : Store cfg.width}
    (once : s.act cfg a = (none, t)) (again : t.act cfg a = (none, t')) :
    Expands cfg loops cs ⟨i, s⟩ (none, ⟨i + 1, t'⟩) := by
  have first := getElem?_place_add (k := 0) fetched (length_expansion_pos loops c)
  have second : (expand loops cs)[place loops cs i + 1]? = some a.val := by
    rw [getElem?_place_add fetched (by simp [twice]), twice]
    rfl
  rw [twice] at first
  have there : place loops cs (i + 1) = place loops cs i + 2 := by
    rw [place_succ fetched, twice]
    rfl
  refine .next (n := 1) (.next (step_of_act first once) (.next (step_of_act second again) ?_))
  rw [placed, there]
  exact .refl _

theorem expands_zero (fetched : cs[i]? = some .zero) :
    Expands cfg true cs ⟨i, s⟩ (step cfg cs ⟨i, s⟩) := by
  have body : (expand true cs)[place true cs i + 1]? = some .decrement :=
    getElem?_place_add (k := 1) fetched (by decide)
  have value : s.current = (s.current.val : ZMod cfg.width.capacity) :=
    (ZMod.natCast_zmod_val s.current).symm
  obtain ⟨k, counted⟩ := steps_countdown (partner_of_zero fetched) body (.inl rfl) value
  have past : place true cs (i + 1) = place true cs i + 3 := place_succ fetched
  rw [← past] at counted
  rw [step_of_act (c := ⟨.zero, by decide⟩) fetched rfl]
  exact .next counted

theorem expands_step (resolvable : Resolvable cs) (noSkip : loops = true → .skip ∉ cs)
    (q : Plain cfg.width) : Expands cfg loops cs q (q.step cfg cs) := by
  obtain ⟨i, s⟩ := q
  cases fetched : cs[i]? with
  | none =>
    have outside : (expand loops cs)[place loops cs i]? = none := getElem?_place_of_none fetched
    rw [step_over fetched]
    exact .halt (step_over outside) (outside.trans fetched.symm)
  | some c =>
    cases c with
    | incrementTwo =>
      have sum : s.act cfg .incrementTwo = (none, s.put (s.current + 1 + 1)) := by
        rw [add_assoc, one_add_one_eq_two]
        rfl
      rw [step_of_act (c := ⟨.incrementTwo, by decide⟩) fetched sum]
      apply expands_twice (a := ⟨.increment, by decide⟩) fetched rfl rfl
      simp [Store.act]
    | decrementTwo =>
      have sum : s.act cfg .decrementTwo = (none, s.put (s.current - 1 - 1)) := by
        rw [sub_sub, one_add_one_eq_two]
        rfl
      rw [step_of_act (c := ⟨.decrementTwo, by decide⟩) fetched sum]
      apply expands_twice (a := ⟨.decrement, by decide⟩) fetched rfl rfl
      simp [Store.act]
    | zero =>
      cases loops with
      | false => exact expands_basic (c := ⟨.zero, by decide⟩) fetched rfl
      | true => exact expands_zero fetched
    | loopStart =>
      obtain ⟨m, partner⟩ := resolvable.1.exists_stop fetched
      rw [step_start partner]
      apply expands_of_step
      rw [step_start partner.expand, partner.place_branch]
    | loopEnd =>
      obtain ⟨m, partner⟩ := resolvable.1.exists_start fetched
      rw [step_stop partner]
      apply expands_of_step
      rw [step_stop partner.expand, partner.place_branch]
    | skip =>
      obtain ⟨m, next⟩ := resolvable.exists_nextEnd fetched
      cases loops with
      | true => exact absurd (List.mem_of_getElem? fetched) (noSkip rfl)
      | false =>
        rw [step_skip fetched next]
        apply expands_of_step
        rw [step_skip (getElem?_place fetched rfl) (next.expand fetched), place_succ next.1.2]
        rfl
    | _ => exact expands_basic (c := ⟨_, by decide⟩) fetched rfl

/-- A run of the list and one of its expansion are at the same point, and if they have ended, at
the same command. -/
structure Matches {w : Width} (loops : Bool) (cs : List Command)
    (r r' : Option Ending × Plain w) : Prop where
  ending : r'.1 = r.1
  state : r'.2 = r.2.placed loops cs
  command : r.1 ≠ none → (expand loops cs)[place loops cs r.2.index]? = cs[r.2.index]?

theorem exists_matches (resolvable : Resolvable cs) (noSkip : loops = true → .skip ∉ cs) (k : ℕ)
    (q : Plain cfg.width) :
    ∃ n, k ≤ n ∧ Matches loops cs (q.runFor cfg cs k)
      ((q.placed loops cs).runFor cfg (expand loops cs) n) := by
  induction k generalizing q with
  | zero =>
    refine ⟨0, le_rfl, ?_⟩
    have inside_iff : (q.placed loops cs).index < (expand loops cs).length ↔ q.index < cs.length :=
      place_lt_length_iff
    rw [runFor, runFor]
    by_cases inside : q.index < cs.length
    · rw [if_pos inside, if_pos (inside_iff.2 inside)]
      exact ⟨rfl, rfl, fun ended => absurd rfl ended⟩
    · rw [if_neg inside, if_neg (inside_iff.not.2 inside)]
      have outside : cs[q.index]? = none := List.getElem?_eq_none (Nat.le_of_not_lt inside)
      exact ⟨rfl, rfl, fun _ => (getElem?_place_of_none outside).trans outside.symm⟩
  | succ k ih =>
    have expands := expands_step resolvable noSkip q
    rw [runFor]
    generalize q.step cfg cs = r at expands
    cases expands with
    | @next u n steps =>
      obtain ⟨n', later, matched⟩ := ih u
      refine ⟨n + 1 + n', by omega, ?_⟩
      rw [steps.runFor_add]
      exact matched
    | halt stopped same =>
      refine ⟨k + 1, le_rfl, ?_⟩
      rw [runFor, stopped]
      exact ⟨rfl, rfl, fun _ => same⟩

theorem matches_of_ended (resolvable : Resolvable cs) (noSkip : loops = true → .skip ∉ cs)
    (ended : (q.placed loops cs).runFor cfg (expand loops cs) k = (some e, v)) :
    Matches loops cs (q.runFor cfg cs k) (some e, v) := by
  obtain ⟨n, later, matched⟩ := exists_matches resolvable noSkip k q
  rwa [runFor_of_le ended later] at matched

end Plain

/-- Two ended runs, one of `p` and one of its commands written out as `p'`, have stopped at the same
command and left the same behind. -/
structure EndsAlike (p p' : Program) (m m' : State) : Prop where
  command : ∃ i : ℕ, m.index = i ∧
    m'.index = place (writesLoops p.commands.toList) p.commands.toList i ∧
    p'.commands[place (writesLoops p.commands.toList) p.commands.toList i]? = p.commands[i]?
  cells : ∀ i : ℤ, m'.tape.look i = m.tape.look i
  cursor : m'.tape.cursor = m.tape.cursor
  clipboard : m'.clipboard = m.clipboard
  texts : m'.events.toList.map Event.text = m.events.toList.map Event.text
  input : m'.input = m.input
  sink : m'.sink = m.sink

theorem endsAlike_of_matches {w : Width} {p p' : Program} {m m' : State} {e : Ending}
    {r r' : Option Ending × Plain w} (commands : p'.commands.toList = expanded p.commands.toList)
    (matched : Plain.Matches (writesLoops p.commands.toList) p.commands.toList r r')
    (ended : r.1 = some e) (h : Follows m r.2) (h' : Follows m' r'.2) : EndsAlike p p' m m' := by
  have ⟨index, agrees⟩ := h
  have ⟨index', agrees'⟩ := h'
  rw [matched.state] at index' agrees'
  have command := matched.command (by simp [ended])
  rw [← expanded, ← commands, Array.getElem?_toList, Array.getElem?_toList] at command
  refine ⟨⟨r.2.index, index, index', command⟩, fun i => ?_, ?_, ?_, ?_, ?_, ?_⟩
  · have same (i : ℕ) : m'.tape.cell i = m.tape.cell i :=
      (agrees'.tape.cells i).trans (agrees.tape.cells i).symm
    simp only [Tape.look, same]
  · exact agrees'.tape.cursor.trans agrees.tape.cursor.symm
  · exact agrees'.clipboard.trans agrees.clipboard.symm
  · exact agrees'.printed.trans agrees.printed.symm
  · exact agrees'.input.trans agrees.input.symm
  · exact agrees'.sink.trans agrees.sink.symm

theorem exists_ofTokens_expanded {file : String} {ts us : List Token} {p : Program}
    (accepted : Program.ofTokens file ts = .ok p) (file' : String)
    (writtenOut : us.map Token.command = expanded (ts.map Token.command)) :
    ∃ p', Program.ofTokens file' us = .ok p' ∧ p'.commands.toList = expanded p.commands.toList := by
  obtain ⟨jumps, found, rfl⟩ := (ofTokens_eq_ok_iff file ts p).1 accepted
  have resolvable : Resolvable (us.map Token.command) := by
    rw [writtenOut]
    exact (tabulates_of_ofCommands found).1.expand
  obtain ⟨p', accepted', commands⟩ := exists_ofTokens file' resolvable
  exact ⟨p', accepted', commands.trans writtenOut⟩

section Ending

variable {cfg : Config} {input : Input} {sink : Sink} {p p' : Program} {m m' : State} {e : Ending}
  {k : ℕ}

theorem exists_endsAlike (resolved : p.Resolved) (resolved' : p'.Resolved)
    (commands : p'.commands.toList = expanded p.commands.toList)
    (ran : (State.start cfg p input sink).runFor cfg p k = (some e, m)) :
    ∃ k' m', (State.start cfg p' input sink).runFor cfg p' k' = (some e, m') ∧
      EndsAlike p p' m m' := by
  obtain ⟨ending, later⟩ := (follows_start cfg p input sink).run resolved k
  rw [ran] at ending later
  obtain ⟨n, _, matched⟩ := Plain.exists_matches resolved.resolvable of_decide_eq_true k
    (Plain.start cfg input sink)
  obtain ⟨ending', later'⟩ := (follows_start cfg p' input sink).run resolved' n
  rw [commands] at ending' later'
  refine ⟨n, _, Prod.ext ?_ rfl, endsAlike_of_matches commands matched ending.symm later later'⟩
  exact ending'.trans (matched.ending.trans ending.symm)

theorem exists_endsAlike_of_expanded (resolved : p.Resolved) (resolved' : p'.Resolved)
    (commands : p'.commands.toList = expanded p.commands.toList)
    (ran : (State.start cfg p' input sink).runFor cfg p' k = (some e, m')) :
    ∃ k' m, (State.start cfg p input sink).runFor cfg p k' = (some e, m) ∧ EndsAlike p p' m m' := by
  obtain ⟨ending', later'⟩ := (follows_start cfg p' input sink).run resolved' k
  rw [ran, commands] at ending' later'
  have matched := Plain.matches_of_ended (q := Plain.start cfg input sink) resolved.resolvable
    of_decide_eq_true (Prod.ext ending'.symm rfl)
  obtain ⟨ending, later⟩ := (follows_start cfg p input sink).run resolved k
  have ended := matched.ending.symm
  refine ⟨k, _, Prod.ext ?_ rfl, endsAlike_of_matches commands matched ended later later'⟩
  exact ending.trans ended

end Ending

/-- An accepted program stays accepted when its commands are written out. For every configuration,
input and output the two programs end or go on forever together: they end in the same way, at the
same command, with the same cells, cursor, clipboard, printed texts and calls of the channels. -/
theorem runFor_expanded {file file' : String} {ts us : List Token} {p : Program}
    (accepted : Program.ofTokens file ts = .ok p)
    (writtenOut : us.map Token.command = expanded (ts.map Token.command)) :
    ∃ p', Program.ofTokens file' us = .ok p' ∧
      ∀ (cfg : Config) (input : Input) (sink : Sink) (e : Ending),
        (∀ k m, (State.start cfg p input sink).runFor cfg p k = (some e, m) →
          ∃ k' m', (State.start cfg p' input sink).runFor cfg p' k' = (some e, m') ∧
            EndsAlike p p' m m') ∧
        ∀ k' m', (State.start cfg p' input sink).runFor cfg p' k' = (some e, m') →
          ∃ k m, (State.start cfg p input sink).runFor cfg p k = (some e, m) ∧
            EndsAlike p p' m m' := by
  obtain ⟨p', accepted', commands⟩ := exists_ofTokens_expanded accepted file' writtenOut
  have resolved := resolved_of_ofTokens accepted
  have resolved' := resolved_of_ofTokens accepted'
  refine ⟨p', accepted', fun cfg input sink e => ⟨fun k m ran => ?_, fun k' m' ran' => ?_⟩⟩
  · exact exists_endsAlike resolved resolved' commands ran
  · exact exists_endsAlike_of_expanded resolved resolved' commands ran'

theorem runFor_expanded_wrapped_zero :
    let ts := [.decrementTwo, .zero, .printInt].map (Token.mk · .start)
    let us := [.decrement, .decrement, .loopStart, .decrement, .loopEnd, .printInt].map
      (Token.mk · .start)
    ∃ p p', Program.ofTokens "short" ts = .ok p ∧ Program.ofTokens "long" us = .ok p' ∧
      ∃ k m, (State.start {} p' (.ofText []) {}).runFor {} p' k = (some .finished, m) ∧
        m.events.toList.map Event.text = [['0']] := by
  intro ts us
  have ended : (Program.ofTokens "short" ts).toOption.map (fun p =>
      let ran := (State.start {} p (.ofText []) {}).runFor {} p 3
      (ran.1, ran.2.events.toList.map Event.text)) = some (some .finished, [['0']]) := by
    decide +kernel
  obtain ⟨p, accepted, facts⟩ := exists_ok_of_map ended
  obtain ⟨finished, texts⟩ := Prod.mk.inj facts
  have writtenOut : us.map Token.command = expanded (ts.map Token.command) := rfl
  obtain ⟨p', accepted', runs⟩ := runFor_expanded accepted writtenOut
  obtain ⟨k, m, ran, alike⟩ := (runs {} (.ofText []) {} .finished).1 3 _ (Prod.ext finished rfl)
  exact ⟨p, p', accepted, accepted', k, m, ran, alike.texts.trans texts⟩

end SlangTape
