import SlangTape.Language
import SlangTape.ParseError

set_option autoImplicit false

/-!
# Tokens

`Scan.tokens` cuts a text into commands. Between separators it takes a whole word, refuses it at
its first character outside the alphabet, and only then cuts it into spellings from left to right.
The scan that is left over is where a later call goes on: at the offending character in the first
case, past the whole word when a part of it is no spelling.
-/
namespace SlangTape

structure Token where
  command : Command
  position : Position
  deriving DecidableEq, Repr

/-- A text that has been read up to `index`, with the place where its rest begins. -/
structure Scan where
  rest : Text
  index : Nat
  position : Position
  deriving DecidableEq, Repr

namespace Scan

def start (t : Text) : Scan := ⟨t, 0, .start⟩

def drop : Nat → Scan → Scan
  | 0, s => s
  | n + 1, s =>
    match s.rest with
    | [] => s
    | c :: cs => drop n ⟨cs, s.index + 1, s.position.after c⟩

theorem rest_drop (n : Nat) (s : Scan) : (s.drop n).rest = s.rest.drop n := by
  induction n generalizing s with
  | zero => rfl
  | succ n ih =>
    obtain ⟨t, i, p⟩ := s
    cases t with
    | nil => rfl
    | cons c cs => simpa [drop] using ih _

end Scan

namespace Language

def word (l : Language) (t : Text) : Text := t.takeWhile fun c => !l.isSeparator c

/-- Cuts a word into spellings, each token placed by its offset in the word. A spelling has to use
up part of the word. -/
def spell (l : Language) (file : String) (w : Text) (p : Position) :
    Except ParseError (List Token) :=
  if w = [] then .ok []
  else
    match l.leading? w with
    | none => .error (.unknownCommand w file p)
    | some row =>
      if row.spelling = [] then .error (.unknownCommand w file p)
      else
        (l.spell file (w.drop row.spelling.length) (p.shift row.spelling.length)).map
          (⟨row.command, p⟩ :: ·)
termination_by w.length
decreasing_by
  have hw : 0 < w.length := List.length_pos_iff.2 ‹_›
  have hs : 0 < row.spelling.length := List.length_pos_iff.2 ‹_›
  rw [List.length_drop]
  omega

theorem length_word_pos {l : Language} {c : Char} {t : Text} (h : ¬ l.isSeparator c) :
    0 < (l.word (c :: t)).length := by
  simp [word, h]

end Language

namespace Scan

/-- The tokens of the rest of the text or the first reason to refuse it, and the scan afterwards. -/
def tokens (l : Language) (file : String) (s : Scan) : Except ParseError (List Token) × Scan :=
  match _h : s.rest with
  | [] => (.ok [], s)
  | c :: _cs =>
    if _hc : l.isSeparator c then (s.drop 1).tokens l file
    else
      let w := l.word s.rest
      let good := w.takeWhile l.isLetter
      match w.drop good.length with
      | bad :: _ =>
        let s' := s.drop good.length
        (.error (.invalidCharacter bad file s'.position), s')
      | [] =>
        let s' := s.drop w.length
        match l.spell file w s.position with
        | .error e => (.error e, s')
        | .ok ts =>
          let (r, s'') := s'.tokens l file
          (r.map (ts ++ ·), s'')
termination_by s.rest.length
decreasing_by
  · simp [rest_drop, _h]
  · have hw := Language.length_word_pos (t := _cs) _hc
    rw [rest_drop, List.length_drop, _h, List.length_cons]
    omega

theorem tokens_nil {s : Scan} (l : Language) (file : String) (h : s.rest = []) :
    s.tokens l file = (.ok [], s) := by
  rw [tokens]
  split
  · rfl
  · next split => simp [h] at split

theorem tokens_separator {s : Scan} {l : Language} {c : Char} {cs : Text} (file : String)
    (h : s.rest = c :: cs) (hc : l.isSeparator c = true) :
    s.tokens l file = (s.drop 1).tokens l file := by
  rw [tokens]
  split
  · next empty => simp [h] at empty
  · next d ds split =>
    rw [h] at split
    cases split
    rw [dif_pos hc]

theorem tokens_word {s : Scan} {l : Language} {c : Char} {cs : Text} (file : String)
    (h : s.rest = c :: cs) (hc : l.isSeparator c = false) :
    s.tokens l file =
      match (l.word s.rest).dropWhile l.isLetter with
      | bad :: _ =>
        (.error (.invalidCharacter bad file
            (s.drop ((l.word s.rest).takeWhile l.isLetter).length).position),
          s.drop ((l.word s.rest).takeWhile l.isLetter).length)
      | [] =>
        match l.spell file (l.word s.rest) s.position with
        | .error e => (.error e, s.drop (l.word s.rest).length)
        | .ok ts =>
          (((s.drop (l.word s.rest).length).tokens l file).1.map (ts ++ ·),
            ((s.drop (l.word s.rest).length).tokens l file).2) := by
  have left (w : Text) : w.drop (w.takeWhile l.isLetter).length = w.dropWhile l.isLetter := by
    have split := List.takeWhile_append_dropWhile (p := l.isLetter) (l := w)
    calc
      w.drop (w.takeWhile l.isLetter).length =
          (w.takeWhile l.isLetter ++ w.dropWhile l.isLetter).drop (w.takeWhile l.isLetter).length := by
        rw [split]
      _ = w.dropWhile l.isLetter := List.drop_left
  rw [tokens]
  split
  · next empty => simp [h] at empty
  · next d ds split =>
    rw [h] at split
    cases split
    rw [dif_neg (by simp [hc])]
    dsimp only
    rw [left]

end Scan

def Language.tokenize (l : Language) (file : String) (t : Text) : Except ParseError (List Token) :=
  ((Scan.start t).tokens l file).1

end SlangTape
