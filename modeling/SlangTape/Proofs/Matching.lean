import SlangTape.Program
import SlangTape.Proofs.Nesting

set_option autoImplicit false

/-!
# The jump table

The single pass of `Matching` keeps a stack of open loops and a list of waiting skips. `Tracks` says
what they and the jumps found so far mean for the commands read; every step keeps it, so that a whole
pass either ends with a table of exactly the jumps of `Leads` or stops because some command has no
partner.
-/
namespace SlangTape

/-- The open loops of `cs`, the innermost first: between two of them, before the first and after
the last everything is balanced. -/
inductive OpenLoops : List Command → List ℕ → Prop where
  | none {cs : List Command} (h : Balanced cs) : OpenLoops cs []
  | loop {cs body : List Command} {outer : List ℕ} (h : OpenLoops cs outer) (h' : Balanced body) :
      OpenLoops (cs ++ .loopStart :: body) (cs.length :: outer)

theorem OpenLoops.append_balanced {cs ds : List Command} {opened : List ℕ}
    (h : OpenLoops cs opened) (h' : Balanced ds) : OpenLoops (cs ++ ds) opened := by
  cases h with
  | none balanced => exact .none (balanced.append h')
  | loop outer body =>
    rw [List.append_assoc, List.cons_append]
    exact .loop outer (body.append h')

theorem OpenLoops.count_eq {cs : List Command} {opened : List ℕ} (h : OpenLoops cs opened) :
    cs.count .loopStart = cs.count .loopEnd + opened.length := by
  induction h with
  | none balanced => simp [balanced.2]
  | loop _ body ih =>
    have inside := body.2
    simp
    omega

theorem OpenLoops.partner {cs : List Command} {start : ℕ} {outer : List ℕ}
    (h : OpenLoops cs (start :: outer)) :
    Partner (cs ++ [.loopEnd]) start cs.length ∧ OpenLoops (cs ++ [.loopEnd]) outer := by
  cases h with
  | @loop before body _ opened balanced =>
    refine ⟨⟨by simp, by simp, by simp, ?_⟩, ?_⟩
    · rw [List.take_left' rfl, ← List.drop_drop, List.drop_left' rfl]
      exact balanced
    · simpa using opened.append_balanced balanced.loop

/-- The table has the jumps of `cs` and no others. -/
def Tabulates (jumps : Jumps) (cs : List Command) : Prop :=
  ∀ k t : ℤ, jumps[k]? = some t ↔ ∃ i u : ℕ, k = i ∧ t = u ∧ Leads cs i u

/-- What the pass knows after the commands `cs`. -/
structure Tracks (cs : List Command) (m : Matching) : Prop where
  next : m.next = cs.length
  loops : OpenLoops cs m.openLoops
  skips : ∀ i, i ∈ m.waitingSkips ↔ Waiting cs i
  jumps : Tabulates m.jumps cs

namespace Matching

theorem step_cases {m m' : Matching} {c : Command} (h : m.step c = .ok m') :
    (c = .loopStart ∧ m' = { m with next := m.next + 1, openLoops := m.next :: m.openLoops }) ∨
    (c = .skip ∧ m' = { m with next := m.next + 1, waitingSkips := m.next :: m.waitingSkips }) ∨
    (c = .loopEnd ∧ ∃ start outer, m.openLoops = start :: outer ∧ m' = m.close start outer) ∨
    (c ≠ .loopStart ∧ c ≠ .skip ∧ c ≠ .loopEnd ∧ m' = { m with next := m.next + 1 }) := by
  unfold step at h
  split at h
  · exact .inl ⟨rfl, by simpa using h.symm⟩
  · exact .inr (.inl ⟨rfl, by simpa using h.symm⟩)
  · split at h
    · cases h
    · next start outer stack => exact .inr (.inr (.inl ⟨rfl, start, outer, stack, by simpa using h.symm⟩))
  · next hs hk he => exact .inr (.inr (.inr ⟨hs, hk, he, by simpa using h.symm⟩))

theorem step_error {m : Matching} {c : Command} {u : Unmatched} (h : m.step c = .error u) :
    c = .loopEnd ∧ m.openLoops = [] ∧ u = ⟨.loopEnd, m.next⟩ := by
  unfold step at h
  split at h
  · cases h
  · cases h
  · split at h
    · next stack => exact ⟨rfl, stack, by simpa using h.symm⟩
    · cases h
  · cases h

theorem getElem?_foldl_insert (jumps : Jumps) (keys : List ℕ) (t k : ℤ) :
    (keys.foldl (fun (j : Jumps) (i : ℕ) => j.insert i t) jumps)[k]? =
      if ∃ i ∈ keys, (i : ℤ) = k then some t else jumps[k]? := by
  induction keys generalizing jumps with
  | nil => simp
  | cons i keys ih =>
    rw [List.foldl_cons, ih, Std.TreeMap.getElem?_insert]
    by_cases later : ∃ j ∈ keys, (j : ℤ) = k
    · simp [later]
    · by_cases here : (i : ℤ) = k <;> simp [later, here]

theorem getElem?_close_jumps (m : Matching) (start : ℕ) (outer : List ℕ) (k : ℤ) :
    (m.close start outer).jumps[k]? =
      if ∃ i ∈ m.waitingSkips, (i : ℤ) = k then some (m.next + 1 : ℤ)
      else if (m.next : ℤ) = k then some (start + 1 : ℤ)
      else if (start : ℤ) = k then some (m.next + 1 : ℤ)
      else m.jumps[k]? := by
  simp only [close, getElem?_foldl_insert, Std.TreeMap.getElem?_insert,
    Std.LawfulEqCmp.compare_eq_iff_eq]

end Matching

theorem Tracks.jumps_close {cs : List Command} {m : Matching} (h : Tracks cs m) {start : ℕ}
    {outer : List ℕ} (stack : m.openLoops = start :: outer) :
    Tabulates (m.close start outer).jumps (cs ++ [.loopEnd]) := by
  have partner : Partner (cs ++ [.loopEnd]) start cs.length := (stack ▸ h.loops).partner.1
  have ownJump := Leads.pastStart partner
  have partnerJump := Leads.pastEnd partner
  have skipJump (i : ℕ) (hi : i ∈ m.waitingSkips) : Leads (cs ++ [.loopEnd]) i (cs.length + 1) :=
    leads_concat_iff.2 (.inr ⟨rfl, .inr (.inr ⟨(h.skips i).1 hi, rfl⟩)⟩)
  intro k t
  rw [Matching.getElem?_close_jumps, h.next]
  constructor
  · intro found
    split_ifs at found with skipping own start'
    · obtain ⟨i, hi, rfl⟩ := skipping
      exact ⟨i, cs.length + 1, rfl, by simpa using found.symm, skipJump i hi⟩
    · exact ⟨cs.length, start + 1, own.symm, by simpa using found.symm, ownJump⟩
    · exact ⟨start, cs.length + 1, start'.symm, by simpa using found.symm, partnerJump⟩
    · obtain ⟨i, u, hk, ht, leads⟩ := (h.jumps k t).1 found
      exact ⟨i, u, hk, ht, leads.append_right _⟩
  · rintro ⟨i, u, rfl, rfl, leads⟩
    split_ifs with skipping own start'
    · obtain ⟨j, hj, same⟩ := skipping
      have : j = i := by omega
      subst this
      simp [leads.unique (skipJump j hj)]
    · have : cs.length = i := by omega
      subst this
      simp [leads.unique ownJump]
    · have : start = i := by omega
      subst this
      simp [leads.unique partnerJump]
    · rcases leads_concat_iff.1 leads with old | ⟨_, ⟨p, _⟩ | ⟨here, _⟩ | ⟨waiting, _⟩⟩
      · exact (h.jumps i u).2 ⟨i, u, rfl, rfl, old⟩
      · exact absurd (congrArg Nat.cast (partner.start_unique p)) start'
      · exact absurd (congrArg Nat.cast here.symm) own
      · exact absurd ⟨i, (h.skips i).2 waiting, rfl⟩ skipping

theorem Tabulates.concat {jumps : Jumps} {cs : List Command} (h : Tabulates jumps cs)
    {c : Command} (other : c ≠ .loopEnd) : Tabulates jumps (cs ++ [c]) := by
  intro k t
  simp [h k t, leads_concat_iff, other]

theorem Tracks.step {cs : List Command} {m m' : Matching} {c : Command} (h : Tracks cs m)
    (hs : m.step c = .ok m') : Tracks (cs ++ [c]) m' := by
  have next : m.next + 1 = (cs ++ [c]).length := by simp [h.next]
  rcases Matching.step_cases hs with ⟨rfl, rfl⟩ | ⟨rfl, rfl⟩ | ⟨rfl, start, outer, stack, rfl⟩ |
    ⟨ho, hk, he, rfl⟩
  · refine ⟨next, ?_, fun i => ?_, h.jumps.concat (by decide)⟩
    · exact h.next ▸ .loop h.loops balanced_nil
    · simp [h.skips, waiting_concat_iff]
  · refine ⟨next, ?_, fun i => ?_, h.jumps.concat (by decide)⟩
    · exact h.loops.append_balanced (balanced_singleton (by decide) (by decide))
    · simp [h.skips, waiting_concat_iff, h.next, or_comm]
  · refine ⟨next, (stack ▸ h.loops).partner.2, fun i => ?_, h.jumps_close stack⟩
    simp [Matching.close, waiting_concat_iff]
  · refine ⟨next, h.loops.append_balanced (balanced_singleton ho he), fun i => ?_,
      h.jumps.concat he⟩
    simp [h.skips, waiting_concat_iff, hk, he]

theorem Tracks.finish {cs : List Command} {m : Matching} (h : Tracks cs m) :
    (Resolvable cs ∧ m.finish = .ok m.jumps) ∨ (¬ Resolvable cs ∧ ∃ u, m.finish = .error u) := by
  unfold Matching.finish
  cases loops : m.openLoops.getLast? with
  | some i =>
    refine .inr ⟨fun ⟨balanced, _⟩ => ?_, _, rfl⟩
    have count := h.loops.count_eq
    have empty : m.openLoops = [] := List.length_eq_zero_iff.1 (by have := balanced.2; omega)
    simp [empty] at loops
  | none =>
    cases skips : m.waitingSkips.getLast? with
    | some i =>
      refine .inr ⟨fun ⟨_, settled⟩ => ?_, _, rfl⟩
      exact settled i ((h.skips i).1 (List.mem_of_getLast? skips))
    | none =>
      refine .inl ⟨⟨?_, fun i waiting => ?_⟩, rfl⟩
      · have closed := h.loops
        rw [List.getLast?_eq_none_iff.1 loops] at closed
        cases closed with
        | none balanced => exact balanced
      · have member := (h.skips i).2 waiting
        simp [List.getLast?_eq_none_iff.1 skips] at member

theorem Tracks.run {before : List Command} {m : Matching} (h : Tracks before m)
    (cs : List Command) :
    (Resolvable (before ++ cs) ∧ ∃ jumps, m.run cs = .ok jumps ∧ Tabulates jumps (before ++ cs)) ∨
      (¬ Resolvable (before ++ cs) ∧ ∃ u, m.run cs = .error u) := by
  induction cs generalizing before m with
  | nil =>
    rw [List.append_nil]
    rcases h.finish with ⟨resolvable, done⟩ | failed
    · exact .inl ⟨resolvable, _, done, h.jumps⟩
    · exact .inr failed
  | cons c cs ih =>
    rw [Matching.run]
    cases hs : m.step c with
    | ok m' => simpa using ih (h.step hs)
    | error u =>
      obtain ⟨rfl, empty, _⟩ := Matching.step_error hs
      refine .inr ⟨fun ⟨balanced, _⟩ => ?_, u, rfl⟩
      have count := h.loops.count_eq
      have through := balanced.1 (before.length + 1)
      rw [List.take_length_add_append] at through
      simp [empty] at through count
      omega

theorem tracks_start : Tracks [] {} where
  next := rfl
  loops := .none balanced_nil
  skips := by simp [Waiting]
  jumps := by
    intro k t
    have nowhere (i u : ℕ) : ¬ Leads [] i u := fun h => by
      have := h.target_bounds
      simp only [List.length_nil] at this
      omega
    simp [nowhere]

theorem ofCommands_eq_ok_iff (cs : List Command) :
    (∃ jumps, Jumps.ofCommands cs = .ok jumps) ↔ Resolvable cs := by
  rcases tracks_start.run cs with ⟨resolvable, jumps, done, _⟩ | ⟨unresolved, u, failed⟩
  · exact iff_of_true ⟨jumps, done⟩ resolvable
  · refine iff_of_false (fun ⟨jumps, done⟩ => ?_) unresolved
    rw [Jumps.ofCommands, failed] at done
    cases done

theorem tabulates_of_ofCommands {cs : List Command} {jumps : Jumps}
    (h : Jumps.ofCommands cs = .ok jumps) : Resolvable cs ∧ Tabulates jumps cs := by
  rcases tracks_start.run cs with ⟨resolvable, found, done, tabulates⟩ | ⟨_, u, failed⟩
  · rw [Jumps.ofCommands, done] at h
    cases h
    exact ⟨resolvable, tabulates⟩
  · rw [Jumps.ofCommands, failed] at h
    cases h

theorem Tabulates.getElem? {jumps : Jumps} {cs : List Command} (h : Tabulates jumps cs)
    {i t : ℕ} (leads : Leads cs i t) : jumps[(i : ℤ)]? = some (t : ℤ) :=
  (h i t).2 ⟨i, t, rfl, rfl, leads⟩

theorem Resolvable.exists_leads_iff {cs : List Command} (h : Resolvable cs) (i : ℕ) :
    (∃ t, Leads cs i t) ↔
      cs[i]? = some .loopStart ∨ cs[i]? = some .loopEnd ∨ cs[i]? = some .skip := by
  constructor
  · rintro ⟨t, p | p | ⟨skip, _⟩⟩
    · exact .inl p.start
    · exact .inr (.inl p.stop)
    · exact .inr (.inr skip)
  · rintro (start | stop | skip)
    · obtain ⟨m, p⟩ := h.1.exists_stop start
      exact ⟨m + 1, .pastEnd p⟩
    · obtain ⟨j, p⟩ := h.1.exists_start stop
      exact ⟨j + 1, .pastStart p⟩
    · obtain ⟨e, next⟩ := h.exists_nextEnd skip
      exact ⟨e + 1, .pastNextEnd skip next⟩

theorem ofTokens_eq_ok_iff (file : String) (ts : List Token) (p : Program) :
    Program.ofTokens file ts = .ok p ↔
      ∃ jumps, Jumps.ofCommands (ts.map Token.command) = .ok jumps ∧
        p = ⟨(ts.map Token.command).toArray, (ts.map fun t => some (t.location file)).toArray,
          jumps⟩ := by
  unfold Program.ofTokens
  cases Jumps.ofCommands (ts.map Token.command) with
  | ok jumps => simp [eq_comm]
  | error u => simp

theorem exists_ofTokens (file : String) {ts : List Token}
    (h : Resolvable (ts.map Token.command)) :
    ∃ p, Program.ofTokens file ts = .ok p ∧ p.commands.toList = ts.map Token.command := by
  obtain ⟨jumps, found⟩ := (ofCommands_eq_ok_iff _).2 h
  exact ⟨_, (ofTokens_eq_ok_iff file ts _).2 ⟨jumps, found, rfl⟩, rfl⟩

/-- The table of a program has the jumps of its commands and no others, and all the jumps it can
need. -/
structure Program.Resolved (p : Program) : Prop where
  resolvable : Resolvable p.commands.toList
  tabulates : Tabulates p.jumps p.commands.toList

theorem resolved_of_ofTokens {file : String} {ts : List Token} {p : Program}
    (h : Program.ofTokens file ts = .ok p) : p.Resolved := by
  obtain ⟨jumps, found, rfl⟩ := (ofTokens_eq_ok_iff file ts p).1 h
  obtain ⟨resolvable, tabulates⟩ := tabulates_of_ofCommands found
  exact ⟨resolvable, tabulates⟩

theorem resolved_of_parse {l : Language} {file : String} {t : Text} {p : Program}
    (h : Program.parse l file t = .ok p) : p.Resolved := by
  unfold Program.parse at h
  split at h
  · cases h
  · exact resolved_of_ofTokens h

/-- The parser accepts exactly the token lists whose loops are balanced and whose skips have a loop
end to go to. The table of an accepted one has a jump for each loop command and each skip and for no
other, to just past the partner or the next loop end. -/
theorem ofTokens_jumps (file : String) (ts : List Token) :
    let cs := ts.map Token.command
    ((∃ p, Program.ofTokens file ts = .ok p) ↔
      (∀ n, (cs.take n).count .loopEnd ≤ (cs.take n).count .loopStart) ∧
      cs.count .loopEnd = cs.count .loopStart ∧
      ∀ i : ℕ, cs[i]? = some .skip → ∃ e : ℕ, i < e ∧ cs[e]? = some .loopEnd) ∧
    ∀ p, Program.ofTokens file ts = .ok p →
      p.commands.toList = cs ∧
      p.jumps.keys.Nodup ∧
      (∀ k, k ∈ p.jumps.keys ↔ ∃ i : ℕ, k = i ∧
        (cs[i]? = some .loopStart ∨ cs[i]? = some .loopEnd ∨ cs[i]? = some .skip)) ∧
      (∀ i : ℕ, cs[i]? = some .loopStart → ∃ m : ℕ,
        IsLeast {m | i < m ∧ Balanced ((cs.take m).drop (i + 1)) ∧ cs[m]? = some .loopEnd} m ∧
        p.jumps[(i : ℤ)]? = some (m + 1 : ℤ) ∧ p.jumps[(m : ℤ)]? = some (i + 1 : ℤ)) ∧
      (∀ i : ℕ, cs[i]? = some .skip → ∃ e : ℕ,
        IsLeast {e | i < e ∧ cs[e]? = some .loopEnd} e ∧
        p.jumps[(i : ℤ)]? = some (e + 1 : ℤ)) ∧
      ∀ k t : ℤ, p.jumps[k]? = some t → 1 ≤ t ∧ t ≤ p.size := by
  intro cs
  constructor
  · have accepted : (∃ p, Program.ofTokens file ts = .ok p) ↔
        ∃ jumps, Jumps.ofCommands cs = .ok jumps := by
      simp [ofTokens_eq_ok_iff, cs]
    rw [accepted, ofCommands_eq_ok_iff, resolvable_iff, Balanced, and_assoc]
  · intro p h
    obtain ⟨jumps, found, rfl⟩ := (ofTokens_eq_ok_iff file ts p).1 h
    obtain ⟨resolvable, tabulates⟩ := tabulates_of_ofCommands found
    refine ⟨rfl, Std.TreeMap.nodup_keys, fun k => ?_, fun i start => ?_, fun i skip => ?_,
      fun k t target => ?_⟩
    · simp only [Std.TreeMap.mem_keys, Std.TreeMap.mem_iff_isSome_getElem?, Option.isSome_iff_exists,
        tabulates k]
      constructor
      · rintro ⟨t, i, u, hk, _, leads⟩
        exact ⟨i, hk, (resolvable.exists_leads_iff i).1 ⟨u, leads⟩⟩
      · rintro ⟨i, hk, kind⟩
        obtain ⟨u, leads⟩ := (resolvable.exists_leads_iff i).2 kind
        exact ⟨u, i, u, hk, rfl, leads⟩
    · obtain ⟨m, partner⟩ := resolvable.1.exists_stop start
      refine ⟨m, ⟨⟨partner.before, partner.between, partner.stop⟩, fun m' h' => ?_⟩, ?_, ?_⟩
      · exact (partner.stop_unique ⟨h'.1, start, h'.2.2, h'.2.1⟩).le
      · exact_mod_cast tabulates.getElem? (.pastEnd partner)
      · exact_mod_cast tabulates.getElem? (.pastStart partner)
    · obtain ⟨e, next⟩ := resolvable.exists_nextEnd skip
      exact ⟨e, next, by exact_mod_cast tabulates.getElem? (.pastNextEnd skip next)⟩
    · obtain ⟨i, u, rfl, rfl, leads⟩ := (tabulates k t).1 target
      have bounds := leads.target_bounds
      simp only [Program.size, List.size_toArray]
      omega

theorem ofTokens_jumps_inner_skip :
    let ts := [.loopStart, .skip, .loopStart, .loopEnd, .loopEnd].map (Token.mk · .start)
    ∃ p, Program.ofTokens "inner" ts = .ok p ∧ p.jumps.keys.Nodup ∧ ∃ e : ℕ,
      IsLeast {e | 1 < e ∧ (ts.map Token.command)[e]? = some .loopEnd} e ∧
        p.jumps[(1 : ℤ)]? = some (e + 1 : ℤ) := by
  intro ts
  have jumps := (ofTokens_jumps "inner" ts).2 _ rfl
  exact ⟨_, rfl, jumps.2.1, jumps.2.2.2.2.1 1 rfl⟩

end SlangTape
