import Mathlib.Data.Int.Notation
import Mathlib.Data.Nat.Find
import SlangTape.Input

set_option autoImplicit false

/-!
# What a read uses up

A word is read in two stretches of calls: as long as the answers are blank, and then as long as they are
neither blank nor the end. Each stretch ends with the first answer that is not of its kind, and nothing
beyond that is asked for. So what a read brings depends on the replies to its own calls alone, and it
fails to get an answer only if its last call breaks. What else can go wrong with an integer lies in the
word itself.
-/
namespace SlangTape

theorem map_eq_error_iff {α β : Type} {r : Except Failure α} {g : α → β} {f : Failure} :
    r.map g = .error f ↔ r = .error f := by
  cases r <;> simp [Except.map]

theorem Breaks.answer_eq_error_iff {b : Breaks} {n : ℕ} {t : Text} {f : Failure} :
    b.answer n t = .error f ↔ b n = some f := by
  unfold answer
  cases b n <;> simp

/-- Neither blank nor the end of input, and so part of a word. -/
def Text.isSolid (t : Text) : Bool := !t.isEmpty && !t.isBlank

theorem Text.isSolid_iff {t : Text} : t.isSolid = true ↔ t ≠ [] ∧ t.isBlank = false := by
  simp [isSolid]

theorem Text.isSolid_eq_false_iff {t : Text} : t.isSolid = false ↔ t = [] ∨ t.isBlank = true := by
  simp only [isSolid, Bool.and_eq_false_iff, Bool.not_eq_false', List.isEmpty_iff]

namespace Answer

/-- A text that is blank; the end of input is not. -/
def Blank (a : Answer) : Prop := ∃ t : Text, a = .ok t ∧ t.isBlank = true

def Solid (a : Answer) : Prop := ∃ t : Text, a = .ok t ∧ t.isSolid = true

def text : Answer → Text
  | .ok t => t
  | .error _ => []

theorem blank_ok {t : Text} : Blank (.ok t) ↔ t.isBlank = true := by
  simp [Blank]

theorem solid_ok {t : Text} : Solid (.ok t) ↔ t.isSolid = true := by
  simp [Solid]

end Answer

namespace Input

variable {α : Type} {i j : Input} {m n : ℕ} {P : Answer → Prop}

def after (i : Input) (n : ℕ) : Input :=
  { i with answers := i.answers.drop n, calls := i.calls + n }

theorem after_after (i : Input) (m n : ℕ) : (i.after m).after n = i.after (m + n) := by
  simp [after, Nat.add_assoc]

/-- What comes of the call that follows on `n` others. -/
def reply (i : Input) (n : ℕ) : Answer :=
  i.breaks.answer (i.calls + n) (i.answers.getD n (i.later (i.calls + n)))

theorem reply_after (i : Input) (m n : ℕ) : (i.after m).reply n = i.reply (m + n) := by
  simp [reply, after, Nat.add_assoc]

theorem ask_eq (i : Input) : i.ask = (i.reply 0, i.after 1) := by
  rw [ask, reply, after, List.getD_eq_getElem?_getD, ← List.head?_eq_getElem?,
    ← List.headD_eq_head?_getD, List.drop_one]
  rfl

/-- The next `n` replies are of the kind `P`, and the one after them is not. -/
structure Stretch (P : Answer → Prop) (i : Input) (n : ℕ) : Prop where
  all : ∀ m < n, P (i.reply m)
  stop : ¬ P (i.reply n)

theorem Stretch.tail (h : Stretch P i (n + 1)) : Stretch P (i.after 1) n where
  all m hm := by
    rw [reply_after, Nat.add_comm]
    exact h.all (m + 1) (Nat.succ_lt_succ hm)
  stop := by
    rw [reply_after, Nat.add_comm]
    exact h.stop

theorem Stretch.cons (first : P (i.reply 0)) (h : Stretch P (i.after 1) n) : Stretch P i (n + 1) where
  all m hm := by
    cases m with
    | zero => exact first
    | succ m =>
      have later := h.all m (Nat.lt_of_succ_lt_succ hm)
      rwa [reply_after, Nat.add_comm] at later
  stop := by
    have stop := h.stop
    rwa [reply_after, Nat.add_comm] at stop

theorem stretch_or_forever (P : Answer → Prop) (i : Input) :
    (∃ n, Stretch P i n) ∨ ∀ n, P (i.reply n) := by
  classical
  by_cases stops : ∃ n, ¬ P (i.reply n)
  · exact .inl ⟨Nat.find stops, fun m hm => not_not.1 (Nat.find_min stops hm), Nat.find_spec stops⟩
  · exact .inr fun n => not_not.1 fun stop => stops ⟨n, stop⟩

def joined (i : Input) : ℕ → Text
  | 0 => []
  | n + 1 => (i.reply 0).text ++ (i.after 1).joined n

theorem skipBlanks_of_stretch (h : Stretch Answer.Blank i n) :
    i.skipBlanks = some (i.reply n, i.after (n + 1)) := by
  induction n generalizing i with
  | zero =>
    rw [skipBlanks, ask_eq]
    have stop := h.stop
    cases given : i.reply 0 with
    | error f => rfl
    | ok u =>
      rw [given, Answer.blank_ok] at stop
      simp only [if_neg stop, Nat.zero_add]
  | succ n ih =>
    obtain ⟨u, given, blank⟩ := h.all 0 (Nat.succ_pos n)
    rw [skipBlanks, ask_eq, given]
    simp only [if_pos blank]
    rw [ih h.tail, reply_after, after_after, Nat.add_comm 1 n, Nat.add_comm 1 (n + 1)]

theorem takeWord_of_stretch (h : Stretch Answer.Solid i n) :
    i.takeWord = some ((i.reply n).map fun _ => i.joined n, i.after (n + 1)) := by
  induction n generalizing i with
  | zero =>
    rw [takeWord, ask_eq]
    have stop := h.stop
    cases given : i.reply 0 with
    | error f => rfl
    | ok u =>
      have ends : u = [] ∨ u.isBlank = true := by
        rw [given, Answer.solid_ok] at stop
        exact Text.isSolid_eq_false_iff.1 (Bool.eq_false_iff.2 stop)
      simp only [if_pos ends]
      rfl
  | succ n ih =>
    obtain ⟨u, given, solid⟩ := h.all 0 (Nat.succ_pos n)
    rw [takeWord, ask_eq, given]
    have ongoing : ¬ (u = [] ∨ u.isBlank = true) := by
      rw [← Text.isSolid_eq_false_iff, solid]
      nofun
    simp only [if_neg ongoing]
    rw [ih h.tail, reply_after, after_after, Nat.add_comm 1 n, Nat.add_comm 1 (n + 1), joined, given]
    cases i.reply (n + 1) <;> rfl

theorem exists_stretch_of_skipBlanks {r : Answer × Input} (h : i.skipBlanks = some r) :
    ∃ n, Stretch Answer.Blank i n := by
  refine skipBlanks.partial_correctness (fun i _ => ∃ n, Stretch Answer.Blank i n) ?_ i r h
  intro skip ih i r returned
  rw [ask_eq] at returned
  by_cases blank : Answer.Blank (i.reply 0)
  · have first := blank
    obtain ⟨u, given, blank⟩ := blank
    simp only [given, if_pos blank] at returned
    obtain ⟨n, rest⟩ := ih _ _ returned
    exact ⟨n + 1, rest.cons first⟩
  · exact ⟨0, nofun, blank⟩

theorem exists_stretch_of_takeWord {r : Answer × Input} (h : i.takeWord = some r) :
    ∃ n, Stretch Answer.Solid i n := by
  refine takeWord.partial_correctness (fun i _ => ∃ n, Stretch Answer.Solid i n) ?_ i r h
  intro take ih i r returned
  rw [ask_eq] at returned
  by_cases solid : Answer.Solid (i.reply 0)
  · have first := solid
    obtain ⟨u, given, solid⟩ := solid
    have ongoing : ¬ (u = [] ∨ u.isBlank = true) := by
      rw [← Text.isSolid_eq_false_iff, solid]
      nofun
    simp only [given, if_neg ongoing, Option.bind_eq_bind, Option.bind_eq_some_iff] at returned
    obtain ⟨_, rest, _⟩ := returned
    obtain ⟨n, rest⟩ := ih _ _ rest
    exact ⟨n + 1, rest.cons first⟩
  · exact ⟨0, nofun, solid⟩

/-- There is never a word nor the end: the answers are blank for ever, or from some on neither blank
nor the end. -/
inductive Endless (i : Input) : Prop where
  | blank (h : ∀ n, Answer.Blank (i.reply n))
  | word (n : ℕ) (blanks : Stretch Answer.Blank i n) (h : ∀ m, Answer.Solid ((i.after n).reply m))

theorem readToken?_of_broken {f : Failure} (blanks : Stretch Answer.Blank i n)
    (given : i.reply n = .error f) : i.readToken? = some (.error f, i.after (n + 1)) := by
  rw [readToken?, skipBlanks_of_stretch blanks, given]
  rfl

theorem readToken?_of_end (blanks : Stretch Answer.Blank i n) (given : i.reply n = .ok []) :
    i.readToken? = some (.ok none, i.after (n + 1)) := by
  rw [readToken?, skipBlanks_of_stretch blanks, given]
  rfl

theorem readToken?_eq_takeWord {u : Text} (blanks : Stretch Answer.Blank i n)
    (given : i.reply n = .ok u) (nonempty : u ≠ []) :
    i.readToken? =
      (i.after (n + 1)).takeWord.map fun r => (r.1.map fun w => some (u ++ w), r.2) := by
  rw [readToken?, skipBlanks_of_stretch blanks, given]
  simp only [Option.bind_eq_bind, Option.bind_some, if_neg nonempty, Option.map_eq_bind]
  rfl

theorem reply_of_solid (solid : Answer.Solid ((i.after n).reply 0)) :
    ∃ u, i.reply n = .ok u ∧ u ≠ [] := by
  obtain ⟨u, given, solid⟩ := solid
  exact ⟨u, by rwa [reply_after] at given, (Text.isSolid_iff.1 solid).1⟩

theorem readToken?_of_word (blanks : Stretch Answer.Blank i n)
    (word : Stretch Answer.Solid (i.after n) (m + 1)) :
    i.readToken? = some ((i.reply (n + (m + 1))).map fun _ => some ((i.after n).joined (m + 1)),
      i.after (n + (m + 1) + 1)) := by
  obtain ⟨u, given, nonempty⟩ := reply_of_solid (word.all 0 (Nat.succ_pos m))
  have tail : Stretch Answer.Solid (i.after (n + 1)) m := by
    rw [← after_after]
    exact word.tail
  have first : ((i.after n).reply 0).text = u := by
    rw [reply_after]
    exact congrArg Answer.text given
  rw [readToken?_eq_takeWord blanks given nonempty, takeWord_of_stretch tail, reply_after,
    after_after, Nat.add_right_comm n 1 m, Nat.add_right_comm n 1 (m + 1), joined, first,
    after_after, ← Nat.add_assoc n m]
  cases i.reply (n + m + 1) <;> rfl

theorem readToken?_of_endless (h : i.Endless) : i.readToken? = none := by
  cases h with
  | blank forever =>
    have none : i.skipBlanks = none := by
      refine Option.eq_none_iff_forall_not_mem.2 fun r returned => ?_
      obtain ⟨n, blanks⟩ := exists_stretch_of_skipBlanks returned
      exact blanks.stop (forever n)
    rw [readToken?, none]
    rfl
  | word n blanks forever =>
    obtain ⟨u, given, nonempty⟩ := reply_of_solid (forever 0)
    have none : (i.after (n + 1)).takeWord = none := by
      refine Option.eq_none_iff_forall_not_mem.2 fun r returned => ?_
      obtain ⟨m, solid⟩ := exists_stretch_of_takeWord returned
      have stop := solid.stop
      rw [← after_after, reply_after] at stop
      exact stop (forever _)
    rw [readToken?_eq_takeWord blanks given nonempty, none]
    rfl

theorem readToken?_cases (i : Input) :
    (∃ n f, Stretch Answer.Blank i n ∧ i.reply n = .error f) ∨
    (∃ n, Stretch Answer.Blank i n ∧ i.reply n = .ok []) ∨
    (∃ n m, Stretch Answer.Blank i n ∧ Stretch Answer.Solid (i.after n) (m + 1)) ∨
    i.Endless := by
  rcases stretch_or_forever Answer.Blank i with ⟨n, blanks⟩ | forever
  · cases given : i.reply n with
    | error f => exact .inl ⟨n, f, blanks, given⟩
    | ok u =>
      by_cases atEnd : u = []
      · exact .inr (.inl ⟨n, blanks, given.trans (congrArg _ atEnd)⟩)
      · rcases stretch_or_forever Answer.Solid (i.after n) with ⟨m, word⟩ | forever
        · cases m with
          | succ m => exact .inr (.inr (.inl ⟨n, m, blanks, word⟩))
          | zero =>
            have stop := word.stop
            have solid := blanks.stop
            rw [given, Answer.blank_ok] at solid
            rw [reply_after, Nat.add_zero, given, Answer.solid_ok] at stop
            exact absurd (Text.isSolid_iff.2 ⟨atEnd, Bool.eq_false_iff.2 solid⟩) stop
        · exact .inr (.inr (.inr (.word n blanks forever)))
  · exact .inr (.inr (.inr (.blank forever)))

theorem readToken?_broke {f : Failure} (h : i.readToken? = some (.error f, j)) :
    ∃ n, i.breaks (i.calls + n) = some f := by
  have broke {n : ℕ} : i.reply n = .error f → i.breaks (i.calls + n) = some f :=
    Breaks.answer_eq_error_iff.1
  rcases i.readToken?_cases with
    ⟨n, g, blanks, given⟩ | ⟨n, blanks, given⟩ | ⟨n, m, blanks, word⟩ | endless
  · rw [readToken?_of_broken blanks given] at h
    cases h
    exact ⟨n, broke given⟩
  · rw [readToken?_of_end blanks given] at h
    cases h
  · rw [readToken?_of_word blanks word] at h
    have failed := congrArg Prod.fst (Option.some.inj h)
    exact ⟨n + (m + 1), broke (map_eq_error_iff.1 failed)⟩
  · rw [readToken?_of_endless endless] at h
    cases h

theorem readToken?_eq_none_iff : i.readToken? = none ↔ i.Endless := by
  refine ⟨fun none => ?_, readToken?_of_endless⟩
  rcases i.readToken?_cases with
    ⟨n, f, blanks, given⟩ | ⟨n, blanks, given⟩ | ⟨n, m, blanks, word⟩ | endless
  · rw [readToken?_of_broken blanks given] at none
    cases none
  · rw [readToken?_of_end blanks given] at none
    cases none
  · rw [readToken?_of_word blanks word] at none
    cases none
  · exact endless

/-- The next `n` calls bring the same. -/
def SameFor (n : ℕ) (i j : Input) : Prop := ∀ m < n, i.reply m = j.reply m

theorem SameFor.mono (h : SameFor n i j) (hm : m ≤ n) : SameFor m i j :=
  fun k hk => h k (Nat.lt_of_lt_of_le hk hm)

theorem SameFor.after (h : SameFor (m + n) i j) : SameFor n (i.after m) (j.after m) := by
  intro k hk
  rw [reply_after, reply_after]
  exact h (m + k) (Nat.add_lt_add_left hk m)

theorem Stretch.congr (h : Stretch P i n) (same : SameFor (n + 1) i j) : Stretch P j n where
  all m hm := same m (Nat.lt_succ_of_lt hm) ▸ h.all m hm
  stop := same n (Nat.lt_succ_self n) ▸ h.stop

theorem joined_congr (same : SameFor n i j) : i.joined n = j.joined n := by
  induction n generalizing i j with
  | zero => rfl
  | succ n ih =>
    have later : SameFor n (i.after 1) (j.after 1) := SameFor.after (by rwa [Nat.add_comm])
    rw [joined, joined, same 0 (Nat.succ_pos n), ih later]

abbrev Reader (α : Type) := Input → Option (Except Failure α × Input)

/-- What a read that returns brings and how many calls it makes depends on the replies to these calls
alone. -/
def Causal (read : Reader α) : Prop :=
  ∀ i r, read i = some r →
    ∃ n, r.2 = i.after n ∧ ∀ j, SameFor n i j → read j = some (r.1, j.after n)

theorem Causal.result {β : Type} {read : Reader α} {read' : Reader β} (h : Causal read)
    (g : Except Failure α → Except Failure β)
    (same : ∀ i, read' i = (read i).map fun r => (g r.1, r.2)) : Causal read' := by
  intro i r' returned
  rw [same, Option.map_eq_some_iff] at returned
  obtain ⟨r, returned, rfl⟩ := returned
  obtain ⟨n, left, others⟩ := h i r returned
  refine ⟨n, left, fun j agrees => ?_⟩
  rw [same, others j agrees]
  rfl

theorem readChar_eq (i : Input) : i.readChar = ((i.reply 0).map nonempty?, i.after 1) := by
  rw [readChar, ask_eq]

theorem causal_readChar : Causal fun i => some i.readChar := by
  intro i r returned
  cases returned
  refine ⟨1, by rw [readChar_eq], fun j same => congrArg some ?_⟩
  rw [readChar_eq i, readChar_eq j, same 0 Nat.one_pos]

theorem causal_readToken? : Causal readToken? := by
  intro i r returned
  rcases i.readToken?_cases with
    ⟨n, f, blanks, given⟩ | ⟨n, blanks, given⟩ | ⟨n, m, blanks, word⟩ | endless
  · rw [readToken?_of_broken blanks given] at returned
    cases returned
    refine ⟨n + 1, rfl, fun j same => ?_⟩
    have given' : j.reply n = .error f := same n (Nat.lt_succ_self n) ▸ given
    rw [readToken?_of_broken (blanks.congr same) given']
  · rw [readToken?_of_end blanks given] at returned
    cases returned
    refine ⟨n + 1, rfl, fun j same => ?_⟩
    have given' : j.reply n = .ok [] := same n (Nat.lt_succ_self n) ▸ given
    rw [readToken?_of_end (blanks.congr same) given']
  · rw [readToken?_of_word blanks word] at returned
    cases returned
    refine ⟨n + (m + 1) + 1, rfl, fun j same => ?_⟩
    have blanks' : Stretch Answer.Blank j n := blanks.congr (same.mono (by omega))
    have later : SameFor (m + 1 + 1) (i.after n) (j.after n) := SameFor.after same
    rw [readToken?_of_word blanks' (word.congr later), same _ (Nat.lt_succ_self _),
      joined_congr (later.mono (Nat.le_succ _))]
  · rw [readToken?_of_endless endless] at returned
    cases returned

def integerOf : Except Failure (Option Text) → Except Failure (Option ℤ)
  | .error f => .error f
  | .ok none => .ok none
  | .ok (some w) => (integer w).map some

theorem readInt?_eq (i : Input) : i.readInt? = i.readToken?.map fun r => (integerOf r.1, r.2) := by
  unfold readInt?
  congr
  funext ⟨r, i'⟩
  rcases r with f | _ | w <;> rfl

theorem readInt?_eq_none_iff : i.readInt? = none ↔ i.Endless := by
  rw [readInt?_eq, Option.map_eq_none_iff, readToken?_eq_none_iff]

theorem causal_readInt? : Causal readInt? := causal_readToken?.result integerOf readInt?_eq

theorem integerOf_eq_error_iff {r : Except Failure (Option Text)} {f : Failure} :
    integerOf r = .error f ↔ r = .error f ∨ ∃ w, r = .ok (some w) ∧ integer w = .error f := by
  rcases r with g | _ | w
  · simp [integerOf]
  · simp [integerOf]
  · simp [integerOf, map_eq_error_iff]

theorem integer_eq_error_iff {w : Text} {f : Failure} :
    integer w = .error f ↔
      (Numeral.ofText? w = none ∧ f = (Fault.malformedInteger w).toFailure) ∨
        ∃ n, Numeral.ofText? w = some n ∧ Failure.maxDigits < n.digits.length ∧
          f = .tooManyDigits n.digits.length := by
  unfold integer
  cases Numeral.ofText? w with
  | none => simp [eq_comm]
  | some n =>
    by_cases long : Failure.maxDigits < n.digits.length <;> simp [long, eq_comm]

end Input

end SlangTape
