import Mathlib.Data.Nat.Find
import Mathlib.Data.Set.Basic
import Mathlib.Order.Bounds.Basic
import SlangTape.Command

set_option autoImplicit false

/-!
# Nesting of loops

Loop starts and loop ends are brackets. `Balanced` and `Partner` say by counting which of them
belong together; `scan` finds a partner with a depth counter, to the right of a loop start or, with
the two brackets exchanged, to the left of a loop end. `Leads` gathers where the jumps of a command
list lead. Nothing here speaks of the table in which a program keeps its jumps.
-/
namespace SlangTape

/-- No beginning of `cs` has more loop ends than loop starts, and all of it has as many. -/
def Balanced (cs : List Command) : Prop :=
  (∀ n, (cs.take n).count .loopEnd ≤ (cs.take n).count .loopStart) ∧
    cs.count .loopEnd = cs.count .loopStart

def ClosesFrom (opening closing : Command) (d : ℕ) (cs : List Command) : Prop :=
  (∀ n, (cs.take n).count closing ≤ d + (cs.take n).count opening) ∧
    cs.count closing = d + cs.count opening

/-- How many commands stand before the first `closing` that is met at depth zero, when the count
starts at depth `d`. -/
def scan (opening closing : Command) : ℕ → List Command → Option ℕ
  | _, [] => none
  | d, c :: cs =>
    if c = opening then (scan opening closing (d + 1) cs).map (· + 1)
    else if c = closing then
      match d with
      | 0 => some 0
      | d + 1 => (scan opening closing d cs).map (· + 1)
    else (scan opening closing d cs).map (· + 1)

theorem balanced_iff_closesFrom (cs : List Command) :
    Balanced cs ↔ ClosesFrom .loopStart .loopEnd 0 cs := by
  simp [Balanced, ClosesFrom]

section Counting

variable {opening closing : Command}

theorem closesFrom_nil {d : ℕ} : ClosesFrom opening closing d [] ↔ d = 0 := by
  simp [ClosesFrom, eq_comm]

theorem prefixes_cons (c : Command) (d : ℕ) (cs : List Command) :
    (∀ n, ((c :: cs).take n).count closing ≤ d + ((c :: cs).take n).count opening) ↔
      ∀ n, (c :: cs.take n).count closing ≤ d + (c :: cs.take n).count opening := by
  constructor
  · exact fun h n => h (n + 1)
  · intro h n
    cases n with
    | zero => simp
    | succ n => exact h n

theorem closesFrom_opening (distinct : opening ≠ closing) {d : ℕ} {cs : List Command} :
    ClosesFrom opening closing d (opening :: cs) ↔ ClosesFrom opening closing (d + 1) cs := by
  simp only [ClosesFrom, prefixes_cons, List.count_cons_self, List.count_cons_of_ne distinct]
  exact and_congr (forall_congr' fun n => by omega) (by omega)

theorem closesFrom_closing (distinct : opening ≠ closing) {d : ℕ} {cs : List Command} :
    ClosesFrom opening closing (d + 1) (closing :: cs) ↔ ClosesFrom opening closing d cs := by
  simp only [ClosesFrom, prefixes_cons, List.count_cons_self, List.count_cons_of_ne distinct.symm]
  exact and_congr (forall_congr' fun n => by omega) (by omega)

theorem not_closesFrom_closing (distinct : opening ≠ closing) {cs : List Command} :
    ¬ ClosesFrom opening closing 0 (closing :: cs) := by
  rintro ⟨prefixes, _⟩
  have h := prefixes 1
  simp [distinct.symm] at h

theorem closesFrom_other {c : Command} (ho : c ≠ opening) (hc : c ≠ closing) {d : ℕ}
    {cs : List Command} :
    ClosesFrom opening closing d (c :: cs) ↔ ClosesFrom opening closing d cs := by
  simp only [ClosesFrom, prefixes_cons, List.count_cons_of_ne ho, List.count_cons_of_ne hc]

theorem scan_eq_some_iff (distinct : opening ≠ closing) (d : ℕ) (cs : List Command) (k : ℕ) :
    scan opening closing d cs = some k ↔
      cs[k]? = some closing ∧ ClosesFrom opening closing d (cs.take k) := by
  induction cs generalizing d k with
  | nil => simp [scan]
  | cons c cs ih =>
    by_cases ho : c = opening
    · subst ho
      cases k with
      | zero => simp [scan, distinct]
      | succ k => simp [scan, ih, closesFrom_opening distinct]
    by_cases hc : c = closing
    · subst hc
      cases d with
      | zero =>
        cases k with
        | zero => simp [scan, ho, closesFrom_nil]
        | succ k => simp [scan, ho, not_closesFrom_closing distinct]
      | succ d =>
        cases k with
        | zero => simp [scan, ho, closesFrom_nil]
        | succ k => simp [scan, ho, ih, closesFrom_closing distinct]
    · cases k with
      | zero => simp [scan, ho, hc]
      | succ k => simp [scan, ho, hc, ih, closesFrom_other ho hc]

theorem scan_eq_none_iff (distinct : opening ≠ closing) (d : ℕ) (cs : List Command) :
    scan opening closing d cs = none ↔
      ∀ n, (cs.take n).count closing ≤ d + (cs.take n).count opening := by
  induction cs generalizing d with
  | nil => simp [scan]
  | cons c cs ih =>
    rw [prefixes_cons]
    by_cases ho : c = opening
    · subst ho
      simp only [scan, ↓reduceIte, Option.map_eq_none_iff, ih, List.count_cons_self,
        List.count_cons_of_ne distinct]
      exact forall_congr' fun n => by omega
    by_cases hc : c = closing
    · subst hc
      simp only [scan, ho, ↓reduceIte, List.count_cons_self, List.count_cons_of_ne ho]
      cases d with
      | zero =>
        simp only [reduceCtorEq, false_iff, not_forall]
        exact ⟨0, by simp⟩
      | succ d =>
        simp only [Option.map_eq_none_iff, ih]
        exact forall_congr' fun n => by omega
    · simp [scan, ho, hc, ih]

theorem ClosesFrom.reverse {cs : List Command} (h : ClosesFrom opening closing 0 cs) :
    ClosesFrom closing opening 0 cs.reverse := by
  obtain ⟨prefixes, total⟩ := h
  refine ⟨fun n => ?_, by simpa using total.symm⟩
  have whole (c : Command) : (cs.take (cs.length - n)).count c + (cs.drop (cs.length - n)).count c =
      cs.count c := by
    rw [← List.count_append, List.take_append_drop]
  have before := prefixes (cs.length - n)
  have opened := whole opening
  have closed := whole closing
  rw [List.take_reverse, List.count_reverse, List.count_reverse]
  omega

end Counting

/-- The loop start at `i` and the loop end at `m` belong together. -/
@[mk_iff]
structure Partner (cs : List Command) (i m : ℕ) : Prop where
  before : i < m
  start : cs[i]? = some .loopStart
  stop : cs[m]? = some .loopEnd
  between : Balanced ((cs.take m).drop (i + 1))

/-- The loop end at `e` is the first after `i`, however deep it stands. -/
def NextEnd (cs : List Command) (i e : ℕ) : Prop :=
  IsLeast {e | i < e ∧ cs[e]? = some .loopEnd} e

/-- A jump at `i` leads to `t`, which lies just past the command it goes to. -/
inductive Leads (cs : List Command) : ℕ → ℕ → Prop where
  | pastEnd {i m : ℕ} (h : Partner cs i m) : Leads cs i (m + 1)
  | pastStart {i m : ℕ} (h : Partner cs i m) : Leads cs m (i + 1)
  | pastNextEnd {i e : ℕ} (h : cs[i]? = some .skip) (h' : NextEnd cs i e) : Leads cs i (e + 1)

theorem lt_length_of_getElem? {cs : List Command} {i : ℕ} {c : Command} (h : cs[i]? = some c) :
    i < cs.length :=
  (List.getElem?_eq_some_iff.1 h).1

theorem scan_right_iff {cs : List Command} {i m : ℕ} (start : cs[i]? = some .loopStart)
    (h : i < m) :
    scan .loopStart .loopEnd 0 (cs.drop (i + 1)) = some (m - (i + 1)) ↔ Partner cs i m := by
  have there : i + 1 + (m - (i + 1)) = m := by omega
  rw [scan_eq_some_iff (by decide), List.getElem?_drop, there, ← balanced_iff_closesFrom,
    List.take_drop, there]
  exact ⟨fun ⟨stop, balanced⟩ => ⟨h, start, stop, balanced⟩, fun p => ⟨p.stop, p.between⟩⟩

theorem scan_left_iff {cs : List Command} {i m : ℕ} (stop : cs[m]? = some .loopEnd) (h : i < m) :
    scan .loopEnd .loopStart 0 (cs.take m).reverse = some (m - 1 - i) ↔ Partner cs i m := by
  have hm : m < cs.length := lt_length_of_getElem? stop
  have length : (cs.take m).length = m := List.length_take_of_le hm.le
  have there : m - 1 - (m - 1 - i) = i := by omega
  have past : m - (m - 1 - i) = i + 1 := by omega
  rw [scan_eq_some_iff (by decide), List.getElem?_reverse (by omega), length, there,
    List.getElem?_take_of_lt h, List.take_reverse, length, past]
  constructor
  · rintro ⟨start, closes⟩
    refine ⟨h, start, stop, (balanced_iff_closesFrom _).2 ?_⟩
    simpa using closes.reverse
  · rintro ⟨_, start, _, balanced⟩
    exact ⟨start, ((balanced_iff_closesFrom _).1 balanced).reverse⟩

theorem Partner.stop_unique {cs : List Command} {i m m' : ℕ} (h : Partner cs i m)
    (h' : Partner cs i m') : m = m' := by
  have scanned := (scan_right_iff h.start h.before).2 h
  rw [(scan_right_iff h.start h'.before).2 h'] at scanned
  have before := h.before
  have before' := h'.before
  injection scanned
  omega

theorem Partner.start_unique {cs : List Command} {i i' m : ℕ} (h : Partner cs i m)
    (h' : Partner cs i' m) : i = i' := by
  have scanned := (scan_left_iff h.stop h.before).2 h
  rw [(scan_left_iff h.stop h'.before).2 h'] at scanned
  have before := h.before
  have before' := h'.before
  injection scanned
  omega

theorem eq_take_cons_drop {cs : List Command} {i : ℕ} {c : Command} (h : cs[i]? = some c) :
    cs = cs.take i ++ c :: cs.drop (i + 1) := by
  obtain ⟨hi, rfl⟩ := List.getElem?_eq_some_iff.1 h
  rw [← List.drop_eq_getElem_cons hi, List.take_append_drop]

theorem count_split {cs : List Command} {i : ℕ} {c : Command} (h : cs[i]? = some c)
    (d : Command) :
    cs.count d = (cs.take i).count d + (c :: cs.drop (i + 1)).count d := by
  rw [← List.count_append, ← eq_take_cons_drop h]

theorem Balanced.exists_stop {cs : List Command} (h : Balanced cs) {i : ℕ}
    (start : cs[i]? = some .loopStart) : ∃ m, Partner cs i m := by
  cases found : scan .loopStart .loopEnd 0 (cs.drop (i + 1)) with
  | some k =>
    refine ⟨i + 1 + k, (scan_right_iff start (by omega)).1 ?_⟩
    rw [found]
    congr 1
    omega
  | none =>
    have rest := (scan_eq_none_iff (by decide) _ _).1 found cs.length
    rw [List.take_of_length_le (by simp)] at rest
    have ends := count_split start .loopEnd
    have starts := count_split start .loopStart
    rw [List.count_cons_of_ne (by decide)] at ends
    rw [List.count_cons_self] at starts
    have before := h.1 i
    have total := h.2
    omega

theorem Balanced.exists_start {cs : List Command} (h : Balanced cs) {m : ℕ}
    (stop : cs[m]? = some .loopEnd) : ∃ i, Partner cs i m := by
  cases found : scan .loopEnd .loopStart 0 (cs.take m).reverse with
  | some k =>
    have hk := (scan_eq_some_iff (by decide) _ _ _).1 found
    have bound := lt_length_of_getElem? hk.1
    rw [List.length_reverse, List.length_take] at bound
    refine ⟨m - 1 - k, (scan_left_iff stop (by omega)).1 ?_⟩
    rw [found]
    congr 1
    omega
  | none =>
    have rest := (scan_eq_none_iff (by decide) _ _).1 found m
    rw [List.take_of_length_le (by simp), List.count_reverse, List.count_reverse] at rest
    have through := h.1 (m + 1)
    rw [List.take_add_one, stop] at through
    simp at through
    omega

theorem Leads.of_start {cs : List Command} {i t : ℕ} (h : Leads cs i t)
    (start : cs[i]? = some .loopStart) : ∃ m, t = m + 1 ∧ Partner cs i m := by
  cases h with
  | pastEnd p => exact ⟨_, rfl, p⟩
  | pastStart p => rw [p.stop] at start; cases start
  | pastNextEnd skip _ => rw [skip] at start; cases start

theorem Leads.of_stop {cs : List Command} {m t : ℕ} (h : Leads cs m t)
    (stop : cs[m]? = some .loopEnd) : ∃ i, t = i + 1 ∧ Partner cs i m := by
  cases h with
  | pastEnd p => rw [p.start] at stop; cases stop
  | pastStart p => exact ⟨_, rfl, p⟩
  | pastNextEnd skip _ => rw [skip] at stop; cases stop

theorem Leads.of_skip {cs : List Command} {i t : ℕ} (h : Leads cs i t)
    (skip : cs[i]? = some .skip) : ∃ e, t = e + 1 ∧ NextEnd cs i e := by
  cases h with
  | pastEnd p => rw [p.start] at skip; cases skip
  | pastStart p => rw [p.stop] at skip; cases skip
  | pastNextEnd _ next => exact ⟨_, rfl, next⟩

theorem Leads.unique {cs : List Command} {i t t' : ℕ} (h : Leads cs i t) (h' : Leads cs i t') :
    t = t' := by
  cases h with
  | pastEnd p =>
    obtain ⟨m', rfl, p'⟩ := h'.of_start p.start
    rw [p.stop_unique p']
  | pastStart p =>
    obtain ⟨i', rfl, p'⟩ := h'.of_stop p.stop
    rw [p.start_unique p']
  | pastNextEnd skip next =>
    obtain ⟨e', rfl, next'⟩ := h'.of_skip skip
    rw [IsLeast.unique next next']

theorem Leads.target_bounds {cs : List Command} {i t : ℕ} (h : Leads cs i t) :
    1 ≤ t ∧ t ≤ cs.length := by
  cases h with
  | pastEnd p =>
    have := lt_length_of_getElem? p.stop
    omega
  | pastStart p =>
    have := lt_length_of_getElem? p.start
    omega
  | pastNextEnd _ next =>
    have := lt_length_of_getElem? next.1.2
    omega

theorem balanced_nil : Balanced [] := by simp [Balanced]

theorem Balanced.append {cs ds : List Command} (h : Balanced cs) (h' : Balanced ds) :
    Balanced (cs ++ ds) := by
  refine ⟨fun n => ?_, by rw [List.count_append, List.count_append, h.2, h'.2]⟩
  have left := h.1 n
  have right := h'.1 (n - cs.length)
  rw [List.take_append, List.count_append, List.count_append]
  omega

theorem balanced_singleton {c : Command} (hs : c ≠ .loopStart) (he : c ≠ .loopEnd) :
    Balanced [c] := by
  rw [balanced_iff_closesFrom, closesFrom_other hs he, closesFrom_nil]

theorem Balanced.of_append {cs ds : List Command} (h : Balanced cs) (h' : Balanced (cs ++ ds)) :
    Balanced ds := by
  have left := h.2
  refine ⟨fun n => ?_, ?_⟩
  · have whole := h'.1 (cs.length + n)
    rw [List.take_length_add_append, List.count_append, List.count_append] at whole
    omega
  · have whole := h'.2
    rw [List.count_append, List.count_append] at whole
    omega

theorem Balanced.loop {body : List Command} (h : Balanced body) :
    Balanced (.loopStart :: body ++ [.loopEnd]) := by
  refine ⟨fun n => ?_, by simp [h.2]⟩
  cases n with
  | zero => simp
  | succ n =>
    have inside := h.1 n
    have last : ([Command.loopEnd].take (n - body.length)).count .loopEnd ≤ 1 :=
      (List.take_sublist _ _).count_le _
    rw [List.cons_append, List.take_succ_cons, List.take_append, List.count_cons_self,
      List.count_cons_of_ne (by decide), List.count_append, List.count_append]
    omega

/-- The skip at `i` has no loop end after it. -/
def Waiting (cs : List Command) (i : ℕ) : Prop :=
  cs[i]? = some .skip ∧ ∀ e, i < e → cs[e]? ≠ some .loopEnd

/-- Every loop command has its partner and every skip a loop end to go to. -/
def Resolvable (cs : List Command) : Prop := Balanced cs ∧ ∀ i, ¬ Waiting cs i

theorem resolvable_iff (cs : List Command) :
    Resolvable cs ↔
      Balanced cs ∧ ∀ i : ℕ, cs[i]? = some .skip → ∃ e : ℕ, i < e ∧ cs[e]? = some .loopEnd := by
  simp [Resolvable, Waiting]

theorem Balanced.resolvable {cs : List Command} (h : Balanced cs) (noSkip : .skip ∉ cs) :
    Resolvable cs :=
  ⟨h, fun _ waiting => noSkip (List.mem_of_getElem? waiting.1)⟩

theorem Resolvable.exists_nextEnd {cs : List Command} (h : Resolvable cs) {i : ℕ}
    (skip : cs[i]? = some .skip) : ∃ e, NextEnd cs i e := by
  classical
  have found := ((resolvable_iff cs).1 h).2 i skip
  exact ⟨Nat.find found, Nat.find_spec found, fun _ other => Nat.find_min' found other⟩

section Appending

variable {cs ds : List Command} {i m e : ℕ}

theorem partner_append_left (hm : m < cs.length) : Partner (cs ++ ds) i m ↔ Partner cs i m := by
  rw [partner_iff, partner_iff]
  refine and_congr_right fun before => ?_
  rw [List.getElem?_append_left (before.trans hm), List.getElem?_append_left hm,
    List.take_append_of_le_length hm.le]

theorem nextEnd_append_left (he : e < cs.length) : NextEnd (cs ++ ds) i e ↔ NextEnd cs i e := by
  unfold NextEnd IsLeast
  simp only [Set.mem_ofPred_eq, List.getElem?_append_left he]
  refine and_congr_right fun _ => ⟨fun least e' h => ?_, fun least e' h => ?_⟩
  · have inside := lt_length_of_getElem? h.2
    exact least ⟨h.1, by rw [List.getElem?_append_left inside]; exact h.2⟩
  · by_cases inside : e' < cs.length
    · exact least ⟨h.1, by rw [← List.getElem?_append_left inside]; exact h.2⟩
    · omega

theorem Leads.append_right {t : ℕ} (h : Leads cs i t) (ds : List Command) :
    Leads (cs ++ ds) i t := by
  cases h with
  | pastEnd p =>
    have inside := lt_length_of_getElem? p.stop
    exact .pastEnd ((partner_append_left inside).2 p)
  | pastStart p =>
    have inside := lt_length_of_getElem? p.stop
    exact .pastStart ((partner_append_left inside).2 p)
  | pastNextEnd skip next =>
    have inside := lt_length_of_getElem? next.1.2
    refine .pastNextEnd ?_ ((nextEnd_append_left inside).2 next)
    rw [List.getElem?_append_left (next.1.1.trans inside)]
    exact skip

theorem getElem?_concat {c d : Command} :
    (cs ++ [c])[i]? = some d ↔ cs[i]? = some d ∨ i = cs.length ∧ c = d := by
  rcases Nat.lt_trichotomy i cs.length with h | h | h
  · rw [List.getElem?_append_left h]
    simp [h.ne]
  · subst h
    simp
  · rw [List.getElem?_eq_none (by simp; omega), List.getElem?_eq_none (by omega)]
    simp [h.ne']

theorem waiting_concat_iff {c : Command} :
    Waiting (cs ++ [c]) i ↔
      c ≠ .loopEnd ∧ (Waiting cs i ∨ i = cs.length ∧ c = .skip) := by
  simp only [Waiting, ne_eq, getElem?_concat, not_or]
  constructor
  · rintro ⟨skip | skip, none⟩
    · have inside := lt_length_of_getElem? skip
      exact ⟨fun stop => (none _ inside).2 ⟨rfl, stop⟩, .inl ⟨skip, fun e he => (none e he).1⟩⟩
    · exact ⟨by rw [skip.2]; decide, .inr skip⟩
  · rintro ⟨other, ⟨skip, none⟩ | ⟨here, skip⟩⟩
    · exact ⟨.inl skip, fun e he => ⟨none e he, fun stop => other stop.2⟩⟩
    · refine ⟨.inr ⟨here, skip⟩, fun e he => ⟨?_, fun stop => other stop.2⟩⟩
      rw [List.getElem?_eq_none (by omega)]
      simp

theorem nextEnd_concat_loopEnd (skip : cs[i]? = some .skip) :
    NextEnd (cs ++ [.loopEnd]) i cs.length ↔ Waiting cs i := by
  have inside := lt_length_of_getElem? skip
  constructor
  · rintro ⟨_, least⟩
    refine ⟨skip, fun e he stop => ?_⟩
    have before := lt_length_of_getElem? stop
    have after := least ⟨he, getElem?_concat.2 (.inl stop)⟩
    omega
  · rintro ⟨_, none⟩
    refine ⟨⟨inside, by simp⟩, fun e ⟨he, stop⟩ => ?_⟩
    rcases getElem?_concat.1 stop with stop | ⟨here, _⟩
    · exact absurd stop (none e he)
    · exact here.ge

/-- One more command adds jumps only if it is a loop end: its own, its partner's, and those of the
skips that waited for it. -/
theorem leads_concat_iff {c : Command} {t : ℕ} :
    Leads (cs ++ [c]) i t ↔ Leads cs i t ∨ c = .loopEnd ∧
      (Partner (cs ++ [c]) i cs.length ∧ t = cs.length + 1 ∨
        i = cs.length ∧ (∃ j, Partner (cs ++ [c]) j cs.length ∧ t = j + 1) ∨
        Waiting cs i ∧ t = cs.length + 1) := by
  constructor
  · rintro (@⟨_, m, p⟩ | @⟨j, _, p⟩ | @⟨_, e, skip, next⟩)
    · rcases getElem?_concat.1 p.stop with stop | ⟨rfl, last⟩
      · have inside := lt_length_of_getElem? stop
        exact .inl (.pastEnd ((partner_append_left inside).1 p))
      · exact .inr ⟨last, .inl ⟨p, rfl⟩⟩
    · rcases getElem?_concat.1 p.stop with stop | ⟨rfl, last⟩
      · have inside := lt_length_of_getElem? stop
        exact .inl (.pastStart ((partner_append_left inside).1 p))
      · exact .inr ⟨last, .inr (.inl ⟨rfl, j, p, rfl⟩)⟩
    · have after := next.1.1
      have inside : e < cs.length + 1 := by
        simpa using lt_length_of_getElem? next.1.2
      rw [List.getElem?_append_left (by omega)] at skip
      rcases getElem?_concat.1 next.1.2 with stop | ⟨rfl, last⟩
      · have inside := lt_length_of_getElem? stop
        exact .inl (.pastNextEnd skip ((nextEnd_append_left inside).1 next))
      · subst last
        exact .inr ⟨rfl, .inr (.inr ⟨(nextEnd_concat_loopEnd skip).1 next, rfl⟩)⟩
  · rintro (old | ⟨rfl, ⟨p, rfl⟩ | ⟨rfl, j, p, rfl⟩ | ⟨waiting, rfl⟩⟩)
    · exact old.append_right _
    · exact .pastEnd p
    · exact .pastStart p
    · exact .pastNextEnd (getElem?_concat.2 (.inl waiting.1))
        ((nextEnd_concat_loopEnd waiting.1).2 waiting)

theorem getElem?_length_add (cs ds : List Command) (i : ℕ) :
    (cs ++ ds)[cs.length + i]? = ds[i]? := by
  rw [List.getElem?_append_right (Nat.le_add_right _ _), Nat.add_sub_cancel_left]

theorem Partner.append_left (h : Partner ds i m) (cs : List Command) :
    Partner (cs ++ ds) (cs.length + i) (cs.length + m) := by
  refine ⟨Nat.add_lt_add_left h.before _, ?_, ?_, ?_⟩
  · rw [getElem?_length_add, h.start]
  · rw [getElem?_length_add, h.stop]
  · rw [List.take_length_add_append, Nat.add_assoc, List.drop_length_add_append]
    exact h.between

theorem NextEnd.append_left (h : NextEnd ds i e) (cs : List Command) :
    NextEnd (cs ++ ds) (cs.length + i) (cs.length + e) := by
  refine ⟨⟨Nat.add_lt_add_left h.1.1 _, ?_⟩, fun e' ⟨later, stop⟩ => ?_⟩
  · rw [getElem?_length_add, h.1.2]
  · rw [List.getElem?_append_right (by omega)] at stop
    have least := h.2 ⟨by omega, stop⟩
    omega

theorem Leads.append_left {t : ℕ} (h : Leads ds i t) (cs : List Command) :
    Leads (cs ++ ds) (cs.length + i) (cs.length + t) := by
  cases h with
  | pastEnd p => exact .pastEnd (p.append_left cs)
  | pastStart p => exact .pastStart (p.append_left cs)
  | pastNextEnd skip next =>
    refine .pastNextEnd ?_ (next.append_left cs)
    rw [getElem?_length_add, skip]

theorem Resolvable.append (h : Resolvable cs) (h' : Resolvable ds) : Resolvable (cs ++ ds) := by
  rw [resolvable_iff] at h h' ⊢
  refine ⟨h.1.append h'.1, fun i skip => ?_⟩
  by_cases inside : i < cs.length
  · rw [List.getElem?_append_left inside] at skip
    obtain ⟨e, later, stop⟩ := h.2 i skip
    refine ⟨e, later, ?_⟩
    rw [List.getElem?_append_left (lt_length_of_getElem? stop)]
    exact stop
  · rw [List.getElem?_append_right (by omega)] at skip
    obtain ⟨e, later, stop⟩ := h'.2 _ skip
    refine ⟨cs.length + e, by omega, ?_⟩
    rw [getElem?_length_add, stop]

end Appending

end SlangTape
