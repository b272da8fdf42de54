import Mathlib.Data.List.TakeWhile
import SlangTape.Token

set_option autoImplicit false

namespace SlangTape

def Position.moved (origin p : Position) : Position :=
  if p.line = 1 then ⟨origin.line, origin.column + (p.column - 1)⟩
  else ⟨origin.line + (p.line - 1), p.column⟩

def Token.moved (origin : Position) (t : Token) : Token :=
  { t with position := origin.moved t.position }

def ParseError.moved (origin : Position) : ParseError → ParseError
  | invalidCharacter c file p => invalidCharacter c file (origin.moved p)
  | unknownCommand text file p => unknownCommand text file (origin.moved p)
  | unmatchedLoop kind index l => unmatchedLoop kind index { l with position := origin.moved l.position }

def Position.movedResult (origin : Position) :
    Except ParseError (List Token) → Except ParseError (List Token)
  | .error e => .error (e.moved origin)
  | .ok ts => .ok (ts.map (Token.moved origin))

def Scan.moved (origin : Position) (n : ℕ) (s : Scan) : Scan :=
  ⟨s.rest, n + s.index, origin.moved s.position⟩

namespace Position

variable {origin p : Position}

theorem moved_start (origin : Position) : origin.moved .start = origin := by
  simp [moved, start]

theorem moved_after (h : 1 ≤ p.line) (c : Char) :
    origin.moved (p.after c) = (origin.moved p).after c := by
  by_cases newline : c = '\n'
  · have later : p.line + 1 ≠ 1 := by omega
    by_cases first : p.line = 1
    · simp [moved, after, newline, first]
    · simp only [moved, after, newline, if_true, if_neg later, if_neg first, Position.mk.injEq, and_true]
      omega
  · by_cases first : p.line = 1
    · simp only [moved, after, if_neg newline, if_pos first, Position.mk.injEq, true_and]
      omega
    · simp [moved, after, newline, first]

theorem moved_shift (origin p : Position) (n : ℕ) :
    origin.moved (p.shift n) = (origin.moved p).shift n := by
  by_cases first : p.line = 1
  · have columns : origin.column + (p.column + n - 1) = origin.column + (p.column - 1) + n := by omega
    simp [moved, shift, first, columns]
  · simp [moved, shift, first]

theorem one_le_line_after (h : 1 ≤ p.line) (c : Char) : 1 ≤ (p.after c).line := by
  unfold after
  split
  · exact Int.le_add_one h
  · exact h

theorem movedResult_map_append (origin : Position) (ts : List Token)
    (r : Except ParseError (List Token)) :
    origin.movedResult (r.map (ts ++ ·)) =
      (origin.movedResult r).map (ts.map (Token.moved origin) ++ ·) := by
  cases r with
  | error e => rfl
  | ok ts' => exact congrArg Except.ok List.map_append

end Position

namespace Scan

theorem one_le_line_drop {s : Scan} (h : 1 ≤ s.position.line) (n : ℕ) :
    1 ≤ (s.drop n).position.line := by
  induction n generalizing s with
  | zero => exact h
  | succ n ih =>
    rw [drop]
    split
    · exact h
    · next c _ _ => exact ih (Position.one_le_line_after h c)

theorem drop_moved {s : Scan} (h : 1 ≤ s.position.line) (origin : Position) (n k : ℕ) :
    (s.moved origin n).drop k = (s.drop k).moved origin n := by
  induction k generalizing s with
  | zero => rfl
  | succ k ih =>
    obtain ⟨rest, index, position⟩ := s
    cases rest with
    | nil => rfl
    | cons c cs =>
      have next := ih (s := ⟨cs, index + 1, position.after c⟩) (Position.one_le_line_after h c)
      simp only [moved, drop, Position.moved_after h, Nat.add_assoc] at next ⊢
      exact next

end Scan

theorem Language.spell_moved (l : Language) (file : String) (w : Text) (origin p : Position) :
    l.spell file w (origin.moved p) = origin.movedResult (l.spell file w p) := by
  fun_induction spell l file w p with
  | case1 p =>
    rw [spell]
    rfl
  | case2 w p nonempty none =>
    rw [spell, if_neg nonempty, none]
    rfl
  | case3 w p nonempty row found empty =>
    rw [spell, if_neg nonempty, found]
    simp only [if_pos empty]
    rfl
  | case4 w p nonempty row found taken ih =>
    rw [spell, if_neg nonempty, found]
    simp only [if_neg taken]
    rw [← Position.moved_shift, ih]
    cases l.spell file (w.drop row.spelling.length) (p.shift row.spelling.length) <;> rfl

@[elab_as_elim]
theorem Scan.scan_induction {l : Language} {P : Scan → Prop} (nil : ∀ s, s.rest = [] → P s)
    (separator : ∀ s c cs, s.rest = c :: cs → l.isSeparator c = true → P (s.drop 1) → P s)
    (word : ∀ s c cs, s.rest = c :: cs → l.isSeparator c = false →
      P (s.drop (l.word s.rest).length) → P s) (s : Scan) : P s := by
  induction n : s.rest.length using Nat.strong_induction_on generalizing s with
  | h n ih =>
    subst n
    cases split : s.rest with
    | nil => exact nil s split
    | cons c cs =>
      have shorter {k : ℕ} (hk : 0 < k) : (s.drop k).rest.length < s.rest.length := by
        rw [rest_drop, List.length_drop, split, List.length_cons]
        omega
      cases stop : l.isSeparator c with
      | true => exact separator s c cs split stop (ih _ (shorter Nat.one_pos) _ rfl)
      | false =>
        have pos := Language.length_word_pos (l := l) (t := cs) (c := c) (by simp [stop])
        rw [← split] at pos
        exact word s c cs split stop (ih _ (shorter pos) _ rfl)

/-- A text that begins elsewhere is scanned as at the start of a file, up to the places. -/
theorem Scan.tokens_moved (l : Language) (file : String) {s : Scan} (h : 1 ≤ s.position.line)
    (origin : Position) (n : ℕ) :
    (s.moved origin n).tokens l file =
      (origin.movedResult (s.tokens l file).1, (s.tokens l file).2.moved origin n) := by
  induction s using scan_induction (l := l) with
  | nil s empty =>
    rw [tokens_nil l file empty]
    exact tokens_nil l file empty
  | separator s c cs split stop ih =>
    have split' : (s.moved origin n).rest = c :: cs := split
    rw [tokens_separator file split stop, tokens_separator file split' stop, drop_moved h]
    exact ih (one_le_line_drop h 1)
  | word s c cs split stop ih =>
    have split' : (s.moved origin n).rest = c :: cs := split
    have same : (s.moved origin n).rest = s.rest := rfl
    have place : (s.moved origin n).position = origin.moved s.position := rfl
    rw [tokens_word file split stop, tokens_word file split' stop, same, place]
    simp only [drop_moved h, l.spell_moved, ih (one_le_line_drop h _)]
    cases (l.word s.rest).dropWhile l.isLetter with
    | cons bad rest => rfl
    | nil =>
      cases l.spell file (l.word s.rest) s.position with
      | error e => rfl
      | ok ts => exact congrArg (·, _) (origin.movedResult_map_append ts _).symm

theorem Scan.tokens_eq_moved (l : Language) (file : String) (s : Scan) :
    (s.tokens l file).1 = s.position.movedResult (l.tokenize file s.rest) := by
  have same : (start s.rest).moved s.position s.index = s := by
    simp [moved, start, Position.moved_start]
  have fresh := tokens_moved l file (s := start s.rest) (Int.le_refl 1) s.position s.index
  rw [same] at fresh
  rw [fresh, Language.tokenize]

end SlangTape
