import Mathlib.Data.Nat.Digits.Defs
import SlangTape.Proofs.Causality
import SlangTape.Proofs.InputWords
import SlangTape.Proofs.Soundness

set_option autoImplicit false

namespace SlangTape

def DecimalDigits (ds : Text) : Prop := ds ≠ [] ∧ ∀ c ∈ ds, '0' ≤ c ∧ c ≤ '9'

/-- The number with these digits, of which the last is that of the units. -/
def digitsValue (ds : Text) : ℕ := Nat.ofDigits 10 (ds.reverse.map fun c => c.toNat - '0'.toNat)

/-- The word is an optional sign and the digits, and stands for the integer. -/
inductive Denotes : Text → Text → ℤ → Prop where
  | unsigned {ds : Text} (h : DecimalDigits ds) : Denotes ds ds (digitsValue ds)
  | positive {ds : Text} (h : DecimalDigits ds) : Denotes ('+' :: ds) ds (digitsValue ds)
  | negative {ds : Text} (h : DecimalDigits ds) : Denotes ('-' :: ds) ds (-digitsValue ds)

section Numerals

variable {w ds : Text} {v : ℤ}

theorem isDigit_iff {c : Char} : c.isDigit = true ↔ '0' ≤ c ∧ c ≤ '9' := by
  simp [Char.isDigit, Char.le_def]

theorem decimalDigits_iff : DecimalDigits ds ↔ ds ≠ [] ∧ ds.all Char.isDigit = true := by
  simp [DecimalDigits, isDigit_iff]

theorem ofDigitChars_eq_digitsValue (ds : Text) : Nat.ofDigitChars 10 ds 0 = digitsValue ds := by
  rw [digitsValue, Nat.ofDigits_eq_foldr, List.foldr_map, List.foldr_reverse,
    Nat.ofDigitChars_eq_foldl]
  simp only [Nat.cast_id, Nat.add_comm]

theorem Denotes.ofText? (h : Denotes w ds v) :
    ∃ n, Numeral.ofText? w = some n ∧ n.digits = ds ∧ n.value = v := by
  have value := ofDigitChars_eq_digitsValue ds
  cases h with
  | unsigned digits =>
    obtain ⟨nonempty, all⟩ := decimalDigits_iff.1 digits
    exact ⟨_, Numeral.ofText?_of_digits nonempty all, rfl, by simp [Numeral.value, value]⟩
  | positive digits =>
    have shape := decimalDigits_iff.1 digits
    exact ⟨⟨false, ds⟩, by rw [Numeral.ofText?, if_pos shape], rfl, by simp [Numeral.value, value]⟩
  | negative digits =>
    have shape := decimalDigits_iff.1 digits
    exact ⟨⟨true, ds⟩, by rw [Numeral.ofText?, if_pos shape], rfl, by simp [Numeral.value, value]⟩

theorem denotes_of_ofText? {n : Numeral} (h : Numeral.ofText? w = some n) :
    Denotes w n.digits n.value := by
  simp only [Numeral.ofText?, Option.ite_none_right_eq_some, Option.some.injEq] at h
  obtain ⟨shape, rfl⟩ := h
  have digits := decimalDigits_iff.2 shape
  rw [Numeral.value, ofDigitChars_eq_digitsValue]
  split at digits
  · exact .positive digits
  · exact .negative digits
  · exact .unsigned digits

theorem Denotes.integer_eq (h : Denotes w ds v) :
    Input.integer w =
      if Failure.maxDigits < ds.length then .error (.tooManyDigits ds.length) else .ok v := by
  obtain ⟨n, read, rfl, rfl⟩ := h.ofText?
  rw [Input.integer, read]

theorem integer_of_not_denotes (h : ∀ ds v, ¬ Denotes w ds v) :
    Input.integer w = .error (Fault.malformedInteger w).toFailure := by
  cases read : Numeral.ofText? w with
  | none => rw [Input.integer, read]
  | some n => exact absurd (denotes_of_ofText? read) (h _ _)

end Numerals

namespace Input

variable {i : Input} {w : Option Text}

/-- The word that comes next: after the blank answers, those that are neither blank nor the end, in one
text. None if the end comes first. -/
inductive NextWord (i : Input) : Option Text → Prop where
  | atEnd {n : ℕ} (blanks : Stretch Answer.Blank i n) (given : i.reply n = .ok []) : NextWord i none
  | word {n m : ℕ} (blanks : Stretch Answer.Blank i n)
      (solid : Stretch Answer.Solid (i.after n) (m + 1)) :
      NextWord i (some ((i.after n).joined (m + 1)))

theorem Unbroken.after (h : i.Unbroken) (n : ℕ) : (i.after n).Unbroken :=
  fun m hm => h m (Nat.le_trans (Nat.le_add_right _ _) hm)

theorem Unbroken.reply_ne_error (h : i.Unbroken) {n : ℕ} {f : Failure} : i.reply n ≠ .error f := by
  intro given
  have broke : i.breaks (i.calls + n) = some f := Breaks.answer_eq_error_iff.1 given
  rw [h _ (Nat.le_add_right _ _)] at broke
  cases broke

theorem NextWord.readToken?_eq (word : i.NextWord w) (h : i.Unbroken) :
    ∃ n, i.readToken? = some (.ok w, i.after n) := by
  cases word with
  | atEnd blanks given => exact ⟨_, readToken?_of_end blanks given⟩
  | @word n m blanks solid =>
    refine ⟨n + (m + 1) + 1, ?_⟩
    rw [readToken?_of_word blanks solid]
    cases given : i.reply (n + (m + 1)) with
    | error f => exact absurd given h.reply_ne_error
    | ok u => rfl

theorem Unbroken.nextWord_or_endless (h : i.Unbroken) : (∃ w, i.NextWord w) ∨ i.Endless := by
  rcases i.readToken?_cases with
    ⟨n, f, _, given⟩ | ⟨n, blanks, given⟩ | ⟨n, m, blanks, word⟩ | endless
  · exact absurd given h.reply_ne_error
  · exact .inl ⟨_, .atEnd blanks given⟩
  · exact .inl ⟨_, .word blanks word⟩
  · exact .inr endless

theorem Feeds.nextWord {t : Text} (h : i.Feeds t) : i.NextWord (nonempty? t.firstWord) := by
  rcases (Gives.unbroken h).nextWord_or_endless with ⟨w, word⟩ | endless
  · obtain ⟨_, read⟩ := word.readToken?_eq (Gives.unbroken h)
    obtain ⟨_, first, _⟩ := h.readToken?_eq
    rw [read] at first
    rwa [Except.ok.inj (congrArg Prod.fst (Option.some.inj first))] at word
  · exact absurd endless (Gives.not_endless h)

end Input

/-- The command has gone on from `t` to `u` with the cell under the cursor set to `v` and has touched
nothing else that a program can see. -/
structure Stores (v : ℤ) (t u : State) : Prop where
  index : u.index = t.index + 1
  cursor : u.tape.cursor = t.tape.cursor
  cell : (u.tape.cell t.tape.cursor : ℤ) = v
  others : ∀ i, i ≠ t.tape.cursor → u.tape.cell i = t.tape.cell i
  clipboard : u.clipboard = t.clipboard
  events : u.events = t.events

/-- The policy: what is to come of the command that reads an integer. -/
inductive ReadsInt (cfg : Config) (t : State) : Step → Prop where
  | atEnd {u : State} (word : t.input.NextWord none) (stored : Stores cfg.endValue t u) :
      ReadsInt cfg t (.next u)
  | number {w ds : Text} {v : ℤ} {u : State} (word : t.input.NextWord (some w)) (h : Denotes w ds v)
      (stored : Stores (v % 2 ^ cfg.width.bits) t u) : ReadsInt cfg t (.next u)
  | malformed {w : Text} {u : State} (word : t.input.NextWord (some w))
      (h : ∀ ds v, ¬ Denotes w ds v) :
      ReadsInt cfg t (.halt (.failed (Fault.malformedInteger w).toFailure) u)
  | waits {u : State} (endless : t.input.Endless) : ReadsInt cfg t (.halt .waiting u)

theorem Width.natCast_wrap (w : Width) (v : ℤ) : (w.wrap v : ℤ) = v % 2 ^ w.bits := by
  have capacity : (w.capacity : ℤ) = 2 ^ w.bits := Nat.cast_pow 2 _
  have nonneg := Int.emod_nonneg v (Int.natCast_ne_zero.2 (Nat.ne_of_gt w.capacity_pos))
  rw [wrap, Int.toNat_of_nonneg nonneg, capacity]

namespace State

variable {cfg : Config} {p : Program} {t : State}

theorem stores_stored (h : t.tape.Sound cfg.width) (n : ℕ) (v : ℤ) :
    Stores (v % 2 ^ cfg.width.bits) t ((t.recorded.spent n 0).stored v) where
  index := rfl
  cursor := rfl
  cell := by
    have cell : (t.tape.store v).cell t.tape.cursor = cfg.width.wrap v := by
      rw [Tape.cell_store, if_pos ⟨rfl, h.inside⟩, h.width]
    exact (congrArg Nat.cast cell).trans (cfg.width.natCast_wrap v)
  others i other := by
    have cell : (t.tape.store v).cell i = t.tape.cell i := by
      rw [Tape.cell_store, if_neg fun here => other here.1]
    exact cell
  clipboard := rfl
  events := rfl

theorem step_readInt {w : Option Text} (cfg : Config) (inside : t.tape.cursor < t.tape.size)
    (unbroken : t.input.Unbroken) (due : p.fetch t.index = .ok (some .readInt))
    (word : t.input.NextWord w) :
    ∃ n, t.step cfg p =
      match Input.integerOf (.ok w) with
      | .error f => .halt (.failed f) (t.recorded.spent n 0)
      | .ok v => .next ((t.recorded.spent n 0).stored (v.getD cfg.endValue)) := by
  obtain ⟨n, read⟩ := word.readToken?_eq unbroken
  refine ⟨n, ?_⟩
  have received : t.recorded.received? .readInt = some (Input.integerOf (.ok w), t.input.after n) := by
    rw [received?, show t.recorded.input = t.input from rfl, Input.readInt?_eq, read]
    rfl
  rw [step_of_fetch due]
  generalize Input.integerOf (.ok w) = r at received
  cases r with
  | error f =>
    rw [perform_received received]
    rfl
  | ok v => rw [perform_reads (s := t.recorded) inside received]

theorem unbroken_reaches {m : State} {n : ℕ} (h : m.input.Unbroken) (reached : Reaches cfg p m n t) :
    t.input.Unbroken := by
  obtain ⟨k, left⟩ := reached.exists_input_eq
  rw [left]
  exact h.after k

theorem step_tooManyDigits {w ds : Text} {v : ℤ} (inside : t.tape.cursor < t.tape.size)
    (unbroken : t.input.Unbroken) (due : p.fetch t.index = .ok (some .readInt))
    (word : t.input.NextWord (some w)) (h : Denotes w ds v) (long : Failure.maxDigits < ds.length) :
    ∃ u, t.step cfg p = .halt (.failed (.tooManyDigits ds.length)) u := by
  obtain ⟨n, stepped⟩ := step_readInt cfg inside unbroken due word
  rw [Input.integerOf, h.integer_eq, if_pos long] at stepped
  exact ⟨_, stepped⟩

theorem readsInt_step (sound : t.Sound cfg p) (unbroken : t.input.Unbroken)
    (due : p.fetch t.index = .ok (some .readInt))
    (short : ∀ w ds v, t.input.NextWord (some w) → Denotes w ds v → ds.length ≤ Failure.maxDigits) :
    ReadsInt cfg t (t.step cfg p) := by
  rcases unbroken.nextWord_or_endless with ⟨word?, word⟩ | endless
  · obtain ⟨n, stepped⟩ := step_readInt cfg sound.tape.inside unbroken due word
    have stores := stores_stored sound.tape n
    cases word? with
    | none =>
      have small : (cfg.endValue : ℤ) < 2 ^ cfg.width.bits := by exact_mod_cast cfg.fits
      have stored := stores cfg.endValue
      rw [Int.emod_eq_of_lt (Int.natCast_nonneg _) small] at stored
      rw [stepped]
      exact .atEnd word stored
    | some w =>
      rw [Input.integerOf] at stepped
      by_cases numeral : ∃ ds v, Denotes w ds v
      · obtain ⟨ds, v, denotes⟩ := numeral
        have converted : Input.integer w = .ok v := by
          rw [denotes.integer_eq, if_neg (Nat.not_lt.2 (short w ds v word denotes))]
        rw [converted] at stepped
        rw [stepped]
        exact .number word denotes (stores v)
      · have other : ∀ ds v, ¬ Denotes w ds v := fun ds v h => numeral ⟨ds, v, h⟩
        rw [integer_of_not_denotes other] at stepped
        rw [stepped]
        exact .malformed word other
  · rw [step_of_endless due endless]
    exact .waits endless

end State

/-- In every state of a run on an input that does not break, at every width, the command that reads an
integer follows the policy if and only if the next word is not a numeral of more digits than are
converted. With such a numeral it fails on a ground that the policy does not know. -/
theorem readInt_follows_iff (s : Session) (p : Program) (accepted : s.parse = .ok p)
    (unbroken : s.input.Unbroken) (n : ℕ) (t : State)
    (reached : Reaches s.config p (s.machine p) n t)
    (due : p.fetch t.index = .ok (some .readInt)) :
    (ReadsInt s.config t (t.step s.config p) ↔
      ∀ w ds v, t.input.NextWord (some w) → Denotes w ds v → ds.length ≤ 4300) ∧
    ∀ w ds v, t.input.NextWord (some w) → Denotes w ds v → 4300 < ds.length →
      ∃ u, t.step s.config p = .halt (.failed (.tooManyDigits ds.length)) u := by
  have sound : t.Sound s.config p :=
    (State.sound_start s.config p s.input s.sink).reaches (resolved_of_parse accepted) reached
  have unbroken' : t.input.Unbroken := State.unbroken_reaches unbroken reached
  have fails : ∀ w ds v, t.input.NextWord (some w) → Denotes w ds v → 4300 < ds.length →
      ∃ u, t.step s.config p = .halt (.failed (.tooManyDigits ds.length)) u :=
    fun w ds v word h long => State.step_tooManyDigits sound.tape.inside unbroken' due word h long
  refine ⟨⟨fun follows w ds v word h => ?_, State.readsInt_step sound unbroken' due⟩, fails⟩
  by_contra long
  obtain ⟨u, stepped⟩ := fails w ds v word h (Nat.lt_of_not_le long)
  rw [stepped] at follows
  cases follows

theorem readInt_follows_iff_long :
    let s : Session :=
      { source := Command.readInt.spelling
        file := "long"
        config := {}
        language := .standard
        input := .ofText (List.replicate 4301 '1') }
    ∃ p, s.parse = .ok p ∧ p.fetch 0 = .ok (some .readInt) ∧
      ¬ ReadsInt s.config (s.machine p) ((s.machine p).step s.config p) ∧
      ∃ u, (s.machine p).step s.config p = .halt (.failed (.tooManyDigits 4301)) u := by
  intro s
  have reads : (s.parse.toOption.map fun p => decide (p.fetch 0 = .ok (some .readInt))) = some true := by
    decide +kernel
  have feeds : s.input.Feeds (List.replicate 4301 '1') := Input.feeds_ofText _
  have digits : DecimalDigits (List.replicate 4301 '1') :=
    ⟨List.cons_ne_nil _ _, fun c hc => by rw [List.eq_of_mem_replicate hc]; decide⟩
  have word : s.input.NextWord (some (List.replicate 4301 '1')) := by
    have solid : ∀ c ∈ List.replicate 4301 '1', isBlank c = false :=
      fun c hc => by rw [List.eq_of_mem_replicate hc]; decide
    have word := feeds.nextWord
    rwa [Text.firstWord_of_solid solid, Input.nonempty?, if_neg digits.1] at word
  have long : 4300 < (List.replicate 4301 '1').length := by rw [List.length_replicate]; decide
  obtain ⟨p, parsed, reads⟩ := exists_ok_of_map reads
  have due := of_decide_eq_true reads
  obtain ⟨follows, fails⟩ :=
    readInt_follows_iff s p parsed (Input.Gives.unbroken feeds) 0 (s.machine p) (.refl _) due
  obtain ⟨u, stepped⟩ := fails _ _ _ word (.unsigned digits) long
  rw [List.length_replicate] at stepped
  refine ⟨p, parsed, due, fun reads => ?_, u, stepped⟩
  exact absurd (follows.1 reads _ _ _ word (.unsigned digits)) (Nat.not_le.2 long)

end SlangTape
