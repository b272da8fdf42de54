import SlangTape.Proofs.Matching

set_option autoImplicit false

namespace SlangTape

/-- No beginning of `cs` has more loop ends than loop starts. -/
def NowhereOver (cs : List Command) : Prop :=
  ∀ n, (cs.take n).count .loopEnd ≤ (cs.take n).count .loopStart

/-- The loop start at `i` has no partner. -/
def Unclosed (cs : List Command) (i : ℕ) : Prop :=
  cs[i]? = some .loopStart ∧ ∀ m, ¬ Partner cs i m

/-- The command without partner that is reported. -/
inductive FirstUnmatched (cs : List Command) : Command → ℕ → Prop where
  | loopEnd {i : ℕ}
      (h : IsLeast {n | (cs.take n).count .loopStart < (cs.take n).count .loopEnd} (i + 1)) :
      FirstUnmatched cs .loopEnd i
  | loopStart {i : ℕ} (ends : NowhereOver cs) (h : IsLeast {i | Unclosed cs i} i) :
      FirstUnmatched cs .loopStart i
  | skip {i : ℕ} (ends : NowhereOver cs) (starts : ∀ i, ¬ Unclosed cs i)
      (h : IsLeast {i | Waiting cs i} i) : FirstUnmatched cs .skip i

section Open

variable {cs ds : List Command} {i : ℕ} {opened : List ℕ}

theorem NowhereOver.of_append (h : NowhereOver (cs ++ ds)) : NowhereOver cs := by
  intro n
  have shorter := h (min n cs.length)
  rwa [List.take_append_of_le_length (Nat.min_le_right _ _), List.take_eq_take_min.symm] at shorter

theorem nowhereOver_append_loop_iff (h : Balanced ds) :
    NowhereOver (cs ++ .loopStart :: ds) ↔ NowhereOver cs := by
  refine ⟨NowhereOver.of_append, fun before n => ?_⟩
  have first := before n
  rw [List.take_append, List.count_append, List.count_append]
  cases n - cs.length with
  | zero => simpa using first
  | succ k =>
    have second := h.1 k
    rw [List.take_succ_cons, List.count_cons_self, List.count_cons_of_ne (by decide)]
    omega

theorem unclosed_iff :
    Unclosed cs i ↔ cs[i]? = some .loopStart ∧ NowhereOver (cs.drop (i + 1)) := by
  refine and_congr_right fun start => ?_
  have scanned : scan .loopStart .loopEnd 0 (cs.drop (i + 1)) = none ↔
      NowhereOver (cs.drop (i + 1)) := by
    rw [scan_eq_none_iff (by decide)]
    simp [NowhereOver]
  rw [← scanned]
  constructor
  · intro alone
    cases found : scan .loopStart .loopEnd 0 (cs.drop (i + 1)) with
    | none => rfl
    | some k =>
      refine absurd ((scan_right_iff start (m := i + 1 + k) (by omega)).1 ?_) (alone _)
      rw [found, Nat.add_sub_cancel_left]
  · intro none m partner
    rw [(scan_right_iff start partner.before).2 partner] at none
    cases none

theorem Balanced.not_unclosed (h : Balanced cs) (i : ℕ) : ¬ Unclosed cs i := by
  rintro ⟨start, alone⟩
  obtain ⟨m, partner⟩ := h.exists_stop start
  exact alone m partner

theorem Unclosed.lt_length (h : Unclosed cs i) : i < cs.length := lt_length_of_getElem? h.1

theorem unclosed_append_loop_iff (h : Balanced ds) :
    Unclosed (cs ++ .loopStart :: ds) i ↔ i = cs.length ∨ Unclosed cs i := by
  rcases Nat.lt_trichotomy i cs.length with before | rfl | after
  · rw [unclosed_iff, unclosed_iff, List.getElem?_append_left before,
      List.drop_append_of_le_length before, nowhereOver_append_loop_iff h]
    simp [before.ne]
  · refine iff_of_true (unclosed_iff.2 ⟨by simp, ?_⟩) (.inl rfl)
    rw [List.drop_length_add_append]
    exact h.1
  · obtain ⟨k, rfl⟩ : ∃ k, i = cs.length + (k + 1) := ⟨i - cs.length - 1, by omega⟩
    refine iff_of_false (fun unclosed => h.not_unclosed k ?_) (not_or.2 ⟨by omega, fun unclosed => ?_⟩)
    · rw [unclosed_iff, getElem?_length_add, Nat.add_assoc, List.drop_length_add_append] at unclosed
      exact unclosed_iff.2 unclosed
    · have := unclosed.lt_length
      omega

namespace OpenLoops

theorem mem_iff (h : OpenLoops cs opened) (i : ℕ) : i ∈ opened ↔ Unclosed cs i := by
  induction h with
  | none balanced => simp [balanced.not_unclosed]
  | loop _ body ih => rw [List.mem_cons, unclosed_append_loop_iff body, ih]

theorem descending (h : OpenLoops cs opened) : opened.Pairwise (· > ·) := by
  induction h with
  | none _ => exact .nil
  | loop outer _ ih => exact .cons (fun i hi => ((outer.mem_iff i).1 hi).lt_length) ih

theorem nowhereOver (h : OpenLoops cs opened) : NowhereOver cs := by
  induction h with
  | none balanced => exact balanced.1
  | loop _ body ih => exact (nowhereOver_append_loop_iff body).2 ih

end OpenLoops

end Open

theorem isLeast_getLast? {is : List ℕ} {i : ℕ} (descending : is.Pairwise (· > ·))
    (last : is.getLast? = some i) : IsLeast {j | j ∈ is} i := by
  obtain ⟨before, rfl⟩ := List.getLast?_eq_some_iff.1 last
  refine ⟨by simp, fun j hj => ?_⟩
  rcases List.mem_append.1 hj with earlier | same
  · exact Nat.le_of_lt ((List.pairwise_append.1 descending).2.2 j earlier i (by simp))
  · exact (List.mem_singleton.1 same).ge

section Reported

variable {cs before : List Command} {c kind kind' : Command} {i j : ℕ} {m m' : Matching}
  {u : Unmatched}

theorem Tracks.descending_step (h : Tracks cs m) (skips : m.waitingSkips.Pairwise (· > ·))
    (hs : m.step c = .ok m') : m'.waitingSkips.Pairwise (· > ·) := by
  rcases Matching.step_cases hs with ⟨_, rfl⟩ | ⟨_, rfl⟩ | ⟨_, _, _, _, rfl⟩ | ⟨_, _, _, rfl⟩
  · exact skips
  · refine .cons (fun i hi => ?_) skips
    rw [h.next]
    exact lt_length_of_getElem? ((h.skips i).1 hi).1
  · exact .nil
  · exact skips

theorem Tracks.finish_error (h : Tracks cs m) (skips : m.waitingSkips.Pairwise (· > ·))
    (failed : m.finish = .error u) : FirstUnmatched cs u.kind u.index := by
  unfold Matching.finish at failed
  cases bottom : m.openLoops.getLast? with
  | some i =>
    rw [bottom] at failed
    cases failed
    have least := isLeast_getLast? h.loops.descending bottom
    simp only [h.loops.mem_iff] at least
    exact .loopStart h.loops.nowhereOver least
  | none =>
    have closed (j : ℕ) : ¬ Unclosed cs j := by
      rw [← h.loops.mem_iff, List.getLast?_eq_none_iff.1 bottom]
      exact List.not_mem_nil
    cases oldest : m.waitingSkips.getLast? with
    | some i =>
      rw [bottom, oldest] at failed
      cases failed
      have least := isLeast_getLast? skips oldest
      simp only [h.skips] at least
      exact .skip h.loops.nowhereOver closed least
    | none =>
      rw [bottom, oldest] at failed
      cases failed

theorem Tracks.step_error (h : Tracks before m) (failed : m.step c = .error u) :
    FirstUnmatched (before ++ c :: cs) u.kind u.index := by
  obtain ⟨rfl, empty, rfl⟩ := Matching.step_error failed
  have even := h.loops.count_eq
  rw [empty, List.length_nil, Nat.add_zero] at even
  rw [h.next]
  refine .loopEnd ⟨?_, fun n excess => ?_⟩
  · rw [Set.mem_ofPred_eq, List.take_length_add_append]
    simp [even]
  · by_contra short
    have within : n ≤ before.length := Nat.le_of_lt_succ (Nat.lt_of_not_le short)
    rw [Set.mem_ofPred_eq, List.take_append_of_le_length within] at excess
    exact Nat.not_le_of_lt excess (h.loops.nowhereOver n)

theorem Tracks.run_error (h : Tracks before m) (skips : m.waitingSkips.Pairwise (· > ·))
    (failed : m.run cs = .error u) : FirstUnmatched (before ++ cs) u.kind u.index := by
  induction cs generalizing before m with
  | nil =>
    rw [List.append_nil]
    exact h.finish_error skips failed
  | cons c cs ih =>
    rw [Matching.run] at failed
    cases hs : m.step c with
    | error v =>
      rw [hs] at failed
      cases failed
      exact h.step_error hs
    | ok m' =>
      rw [hs] at failed
      have later := ih (h.step hs) (h.descending_step skips hs) failed
      rwa [List.append_assoc] at later

namespace FirstUnmatched

theorem unique (h : FirstUnmatched cs kind i) (h' : FirstUnmatched cs kind' j) :
    kind = kind' ∧ i = j := by
  have excess {i : ℕ} (ends : NowhereOver cs)
      (h : IsLeast {n | (cs.take n).count .loopStart < (cs.take n).count .loopEnd} (i + 1)) : False :=
    Nat.not_le_of_lt h.1 (ends (i + 1))
  cases h with
  | loopEnd least =>
    cases h' with
    | loopEnd least' => exact ⟨rfl, Nat.succ.inj (least.unique least')⟩
    | loopStart ends _ => exact (excess ends least).elim
    | skip ends _ _ => exact (excess ends least).elim
  | loopStart ends least =>
    cases h' with
    | loopEnd least' => exact (excess ends least').elim
    | loopStart _ least' => exact ⟨rfl, least.unique least'⟩
    | skip _ starts _ => exact (starts i least.1).elim
  | skip ends starts least =>
    cases h' with
    | loopEnd least' => exact (excess ends least').elim
    | loopStart _ least' => exact (starts j least'.1).elim
    | skip _ _ least' => exact ⟨rfl, least.unique least'⟩

theorem not_resolvable (h : FirstUnmatched cs kind i) : ¬ Resolvable cs := by
  rintro ⟨balanced, settled⟩
  cases h with
  | loopEnd least => exact Nat.not_le_of_lt least.1 (balanced.1 (i + 1))
  | loopStart _ least => exact balanced.not_unclosed i least.1
  | skip _ _ least => exact settled i least.1

theorem getElem?_eq (h : FirstUnmatched cs kind i) : cs[i]? = some kind := by
  cases h with
  | loopStart _ least => exact least.1.1
  | skip _ _ least => exact least.1.1
  | loopEnd least =>
    have excess : (cs.take (i + 1)).count .loopStart < (cs.take (i + 1)).count .loopEnd := least.1
    have before : ¬ (cs.take i).count .loopStart < (cs.take i).count .loopEnd := fun excess' =>
      Nat.not_succ_le_self i (least.2 excess')
    rw [List.take_add_one, List.count_append, List.count_append] at excess
    by_contra other
    have none : cs[i]?.toList.count .loopEnd = 0 := by
      rw [List.count_eq_zero, Option.mem_toList]
      exact other
    omega

end FirstUnmatched

theorem ofCommands_eq_error_iff :
    Jumps.ofCommands cs = .error u ↔ FirstUnmatched cs u.kind u.index := by
  constructor
  · intro failed
    exact tracks_start.run_error .nil failed
  · intro first
    cases found : Jumps.ofCommands cs with
    | ok jumps => exact absurd ((ofCommands_eq_ok_iff cs).1 ⟨jumps, found⟩) first.not_resolvable
    | error v =>
      obtain ⟨kind, index⟩ := (tracks_start.run_error .nil found).unique first
      obtain ⟨_, _⟩ := u
      obtain ⟨_, _⟩ := v
      cases kind
      cases index
      rfl

end Reported

/-- A token list is refused exactly if some command in it lacks a partner, and the error is that of the
token that comes first in the order of `FirstUnmatched`, with its kind, its index and its place. -/
theorem ofTokens_error_iff (file : String) (ts : List Token) (e : ParseError) :
    Program.ofTokens file ts = .error e ↔
      ∃ (i : ℕ) (t : Token), FirstUnmatched (ts.map Token.command) t.command i ∧ ts[i]? = some t ∧
        e = .unmatchedLoop t.command i ⟨file, t.position, t.command.spelling⟩ ∧
        e.position = t.position := by
  unfold Program.ofTokens
  cases found : Jumps.ofCommands (ts.map Token.command) with
  | ok jumps =>
    have accepted := (ofCommands_eq_ok_iff _).1 ⟨jumps, found⟩
    refine iff_of_false nofun ?_
    rintro ⟨i, t, first, _⟩
    exact first.not_resolvable accepted
  | error u =>
    have reported := ofCommands_eq_error_iff.1 found
    obtain ⟨t, here, kind⟩ : ∃ t, ts[u.index]? = some t ∧ t.command = u.kind := by
      simpa using reported.getElem?_eq
    simp only [here, Option.map_some, Option.getD_some, ← kind]
    rw [← kind] at reported
    constructor
    · intro same
      cases same
      exact ⟨u.index, t, reported, here, rfl, rfl⟩
    · rintro ⟨i, t', first, here', rfl, _⟩
      obtain ⟨_, rfl⟩ := reported.unique first
      rw [here] at here'
      cases here'
      rfl

example : Program.ofTokens "open" [⟨.skip, ⟨1, 1⟩⟩, ⟨.loopStart, ⟨1, 6⟩⟩] =
    .error (.unmatchedLoop .loopStart 1 ⟨"open", ⟨1, 6⟩, Command.loopStart.spelling⟩) := rfl

end SlangTape
