import Mathlib.Data.List.TakeWhile
import SlangTape.Token
import SlangTape.Proofs.CheckedTable

set_option autoImplicit false

namespace SlangTape

inductive Piece where
  | separator (c : Char)
  | word (row : Row)

namespace Piece

def text : Piece → Text
  | separator c => [c]
  | word row => row.spelling

def command? : Piece → Option Command
  | separator _ => none
  | word row => some row.command

def Fits (table : List Row) : Piece → Prop
  | separator c => c ∈ blanks
  | word row => row ∈ table

def tokens : Position → List Piece → List Token
  | _, [] => []
  | p, separator c :: ps => tokens (p.after c) ps
  | p, word row :: ps => ⟨row.command, p⟩ :: tokens (p.shift row.spelling.length) ps

theorem map_command_tokens (p : Position) (ps : List Piece) :
    (tokens p ps).map Token.command = ps.filterMap command? := by
  induction ps generalizing p with
  | nil => rfl
  | cons piece ps ih =>
    cases piece with
    | separator c => exact ih _
    | word row =>
      rw [tokens, List.map_cons, ih]
      rfl

theorem tokens_words_append (p : Position) (rows : List Row) (ps : List Piece) :
    tokens p (rows.map word ++ ps) =
      tokens p (rows.map word) ++ tokens (p.shift (rows.flatMap Row.spelling).length) ps := by
  induction rows generalizing p with
  | nil => simp [tokens, Position.shift]
  | cons row rows ih =>
    rw [List.map_cons, List.cons_append, tokens, tokens, ih, Position.shift_shift,
      List.flatMap_cons, List.length_append, List.cons_append]

end Piece

structure Decomposes (table : List Row) (ps : List Piece) (t : Text) : Prop where
  fits : ∀ p ∈ ps, p.Fits table
  text : ps.flatMap Piece.text = t

/-- The spellings of commands with any separators before, between and after them. -/
inductive Renders (table : List Row) : List Command → Text → Prop where
  | nil {gap : Text} (blank : ∀ c ∈ gap, c ∈ blanks) : Renders table [] gap
  | cons {gap t : Text} {row : Row} {cs : List Command} (blank : ∀ c ∈ gap, c ∈ blanks)
      (hr : row ∈ table) (later : Renders table cs t) :
      Renders table (row.command :: cs) (gap ++ row.spelling ++ t)

theorem decomposes_gap {table : List Row} {gap : Text}
    (blank : ∀ c ∈ gap, c ∈ blanks) {ps : List Piece} {t : Text}
    (h : Decomposes table ps t) : Decomposes table (gap.map .separator ++ ps) (gap ++ t) := by
  refine ⟨fun p hp => ?_, ?_⟩
  · rcases List.mem_append.1 hp with hp | hp
    · obtain ⟨c, hc, rfl⟩ := List.mem_map.1 hp
      exact blank c hc
    · exact h.fits p hp
  · rw [List.flatMap_append, h.text, List.flatMap_map]
    simp [Piece.text]

theorem decomposes_words {table : List Row} {rows : List Row} (hr : ∀ r ∈ rows, r ∈ table)
    {ps : List Piece} {t : Text} (h : Decomposes table ps t) :
    Decomposes table (rows.map .word ++ ps) (rows.flatMap Row.spelling ++ t) := by
  refine ⟨fun p hp => ?_, ?_⟩
  · rcases List.mem_append.1 hp with hp | hp
    · obtain ⟨row, hrow, rfl⟩ := List.mem_map.1 hp
      exact hr row hrow
    · exact h.fits p hp
  · rw [List.flatMap_append, h.text, List.flatMap_map]
    rfl

theorem Renders.decomposes {table : List Row} {cs : List Command} {t : Text}
    (h : Renders table cs t) :
    ∃ ps, Decomposes table ps t ∧ ps.filterMap Piece.command? = cs := by
  have nothing (gap : Text) : (gap.map Piece.separator).filterMap Piece.command? = [] := by
    simp [List.filterMap_map, Piece.command?]
  induction h with
  | @nil gap blank =>
    refine ⟨gap.map .separator, ?_, nothing gap⟩
    have empty : Decomposes table [] [] := ⟨by simp, rfl⟩
    simpa using decomposes_gap blank empty
  | @cons gap t row cs blank hr later ih =>
    obtain ⟨ps, decomposes, rfl⟩ := ih
    have head : Decomposes table (.word row :: ps) (row.spelling ++ t) := by
      refine ⟨?_, by rw [List.flatMap_cons, decomposes.text]; rfl⟩
      rw [List.forall_mem_cons]
      exact ⟨hr, decomposes.fits⟩
    refine ⟨gap.map .separator ++ .word row :: ps, ?_, ?_⟩
    · rw [List.append_assoc]
      exact decomposes_gap blank head
    · rw [List.filterMap_append, nothing]
      rfl

namespace Scan

theorem position_drop {s : Scan} {n : ℕ} (h : ∀ c ∈ s.rest.take n, c ≠ '\n')
    (hn : n ≤ s.rest.length) : (s.drop n).position = s.position.shift n := by
  induction n generalizing s with
  | zero => simp [drop, Position.shift]
  | succ n ih =>
    obtain ⟨rest, index, position⟩ := s
    cases rest with
    | nil => simp at hn
    | cons c cs =>
      simp only [List.take_succ_cons, List.forall_mem_cons] at h
      have here : position.after c = position.shift 1 := by simp [Position.after, h.1, Position.shift]
      rw [drop, ih h.2 (by simpa using hn)]
      dsimp only
      rw [here, Position.shift_shift, Nat.add_comm]

end Scan

namespace Language

variable {l : Language} {table : List Row}

theorem Built.spell_words (built : l.Built table) (file : String) (p : Position) {rows : List Row}
    (hr : ∀ r ∈ rows, r ∈ table) :
    l.spell file (rows.flatMap Row.spelling) p = .ok (Piece.tokens p (rows.map .word)) := by
  induction rows generalizing p with
  | nil =>
    rw [spell]
    simp [Piece.tokens]
  | cons row rows ih =>
    rw [List.forall_mem_cons] at hr
    have nonempty := built.checked.nonempty row hr.1
    rw [spell, List.flatMap_cons, if_neg (by simp [nonempty]), built.leading?_append hr.1]
    dsimp only
    rw [if_neg nonempty, List.drop_left, ih _ hr.2]
    rfl

theorem Built.exists_rows_of_spell (built : l.Built table) {file : String} {w : Text}
    {p : Position} {ts : List Token} (h : l.spell file w p = .ok ts) :
    ∃ rows : List Row, (∀ r ∈ rows, r ∈ table) ∧ rows.flatMap Row.spelling = w := by
  fun_induction spell l file w p generalizing ts with
  | case1 => exact ⟨[], by simp, rfl⟩
  | case2 => cases h
  | case3 => cases h
  | case4 w p _ row found _ ih =>
    cases later : l.spell file (w.drop row.spelling.length) (p.shift row.spelling.length) with
    | error e => rw [later] at h; cases h
    | ok ts' =>
      obtain ⟨rows, hr, text⟩ := ih later
      rw [leading?, built.table_eq] at found
      obtain ⟨rest, split⟩ : row.spelling <+: w := by simpa using List.find?_some found
      refine ⟨row :: rows, ?_, ?_⟩
      · rw [List.forall_mem_cons]
        exact ⟨List.mem_of_find?_eq_some found, hr⟩
      · rw [List.flatMap_cons, text, ← split, List.drop_left]

theorem Built.word_of_decomposes (built : l.Built table) {ps : List Piece} {t : Text}
    (h : Decomposes table ps t) :
    ∃ (rows : List Row) (later : List Piece), ps = rows.map .word ++ later ∧
      (∀ r ∈ rows, r ∈ table) ∧ l.word t = rows.flatMap Row.spelling ∧
      Decomposes table later (t.drop (l.word t).length) := by
  obtain ⟨fits, rfl⟩ := h
  induction ps with
  | nil => exact ⟨[], [], rfl, by simp, rfl, by simp, rfl⟩
  | cons piece ps ih =>
    rw [List.forall_mem_cons] at fits
    cases piece with
    | separator c =>
      have stop : l.isSeparator c = true := (built.separator c).2 fits.1
      have none : l.word ((Piece.separator c :: ps).flatMap Piece.text) = [] := by
        simp [word, Piece.text, stop]
      refine ⟨[], .separator c :: ps, rfl, by simp, none, ?_⟩
      rw [none]
      exact ⟨List.forall_mem_cons.2 fits, rfl⟩
    | word row =>
      obtain ⟨rows, later, split, hr, word, rest⟩ := ih fits.2
      have longer : l.word ((Piece.word row :: ps).flatMap Piece.text) =
          row.spelling ++ l.word (ps.flatMap Piece.text) := by
        rw [List.flatMap_cons, Language.word, Piece.text, List.takeWhile_append_of_pos]
        · rfl
        · intro c hc
          simp [built.not_separator fits.1 hc]
      refine ⟨row :: rows, later, by rw [split]; rfl, List.forall_mem_cons.2 ⟨fits.1, hr⟩, ?_, ?_⟩
      · rw [longer, word]
        rfl
      · rw [longer, List.length_append, List.flatMap_cons, Piece.text, ← List.drop_drop,
          List.drop_left]
        exact rest

theorem Built.eq_nil_of_decomposes (built : l.Built table) {ps : List Piece}
    (h : Decomposes table ps []) : ps = [] := by
  cases ps with
  | nil => rfl
  | cons piece ps =>
    have empty : piece.text = [] := (List.append_eq_nil_iff.1 h.text).1
    cases piece with
    | separator c => cases empty
    | word row => exact absurd empty (built.checked.nonempty row (h.fits _ List.mem_cons_self))

theorem Built.separator_of_decomposes (built : l.Built table) {ps : List Piece} {c : Char}
    {cs : Text} (h : Decomposes table ps (c :: cs)) (stop : l.isSeparator c = true) :
    ∃ later, ps = .separator c :: later ∧ Decomposes table later cs := by
  obtain ⟨fits, text⟩ := h
  cases ps with
  | nil => cases text
  | cons piece ps =>
    rw [List.forall_mem_cons] at fits
    cases piece with
    | separator d =>
      obtain ⟨rfl, rest⟩ := List.cons.inj text
      exact ⟨ps, rfl, fits.2, rest⟩
    | word row =>
      rw [List.flatMap_cons, Piece.text] at text
      cases spelling : row.spelling with
      | nil => exact absurd spelling (built.checked.nonempty row fits.1)
      | cons d ds =>
        rw [spelling] at text
        obtain ⟨rfl, _⟩ := List.cons.inj text
        have letter := built.not_separator fits.1 (c := d) (by simp [spelling])
        rw [letter] at stop
        cases stop

theorem Built.isLetter_of_spelling (built : l.Built table) {rows : List Row}
    (hr : ∀ r ∈ rows, r ∈ table) : ∀ c ∈ rows.flatMap Row.spelling, l.isLetter c = true := by
  intro c hc
  obtain ⟨row, member, hc⟩ := List.mem_flatMap.1 hc
  exact (built.letter c).2 ⟨row, hr row member, hc⟩

theorem word_append_drop (l : Language) (t : Text) :
    l.word t ++ t.drop (l.word t).length = t :=
  List.prefix_iff_eq_append.1 (List.takeWhile_prefix _)

theorem Built.position_drop_word (built : l.Built table) (s : Scan) :
    (s.drop (l.word s.rest).length).position = s.position.shift (l.word s.rest).length := by
  have starts : l.word s.rest <+: s.rest := List.takeWhile_prefix _
  apply Scan.position_drop
  · rw [← List.prefix_iff_eq_take.1 starts]
    rintro c hc rfl
    have other := List.mem_takeWhile_imp hc
    simp [(built.separator '\n').2 (by decide)] at other
  · exact starts.length_le

theorem Built.tokens_of_decomposes (built : l.Built table) (file : String) {s : Scan}
    {ps : List Piece} (h : Decomposes table ps s.rest) :
    (s.tokens l file).1 = .ok (Piece.tokens s.position ps) := by
  fun_induction Scan.tokens l file s generalizing ps with
  | case1 s empty =>
    rw [empty] at h
    rw [built.eq_nil_of_decomposes h]
    rfl
  | case2 s c cs split stop ih =>
    rw [split] at h
    obtain ⟨later, rfl, rest⟩ := built.separator_of_decomposes h stop
    have passed : s.drop 1 = ⟨cs, s.index + 1, s.position.after c⟩ := by simp [Scan.drop, split]
    rw [passed] at ih ⊢
    exact ih rest
  | case3 s c cs _ _ w good bad _ foreign =>
    obtain ⟨rows, _, _, hr, word, _⟩ := built.word_of_decomposes h
    have letters := built.isLetter_of_spelling hr
    rw [← word] at letters
    have all : good = w := List.takeWhile_eq_self_iff.2 letters
    rw [all, List.drop_length] at foreign
    cases foreign
  | case4 s c cs _ _ w _ _ s' e =>
    rename_i refused
    obtain ⟨rows, _, _, hr, word, _⟩ := built.word_of_decomposes h
    rw [show w = _ from word, built.spell_words file s.position hr] at refused
    cases refused
  | case5 s c cs _ _ w _ _ s' ts spelt r s'' tail =>
    rename_i ih
    obtain ⟨rows, later, rfl, hr, word, rest⟩ := built.word_of_decomposes h
    rw [← Scan.rest_drop] at rest
    have place : s'.position = s.position.shift w.length := built.position_drop_word s
    rw [show w = _ from word, built.spell_words file s.position hr] at spelt
    cases spelt
    have more := ih rest
    rw [tail, place] at more
    rw [show r = _ from more, Piece.tokens_words_append, ← word]
    rfl

theorem Built.decomposes_unique (built : l.Built table) {ps ps' : List Piece} {t : Text}
    (h : Decomposes table ps t) (h' : Decomposes table ps' t) : ps = ps' := by
  induction ps generalizing ps' t with
  | nil =>
    have empty : t = [] := h.text.symm
    rw [empty] at h'
    exact (built.eq_nil_of_decomposes h').symm
  | cons piece ps ih =>
    obtain ⟨fits, rfl⟩ := h
    rw [List.forall_mem_cons] at fits
    cases piece with
    | separator c =>
      obtain ⟨later, rfl, rest⟩ := built.separator_of_decomposes h' ((built.separator c).2 fits.1)
      rw [ih ⟨fits.2, rfl⟩ rest]
    | word row =>
      obtain ⟨fits', text'⟩ := h'
      cases ps' with
      | nil =>
        have empty : row.spelling = [] := (List.append_eq_nil_iff.1 text'.symm).1
        exact absurd empty (built.checked.nonempty row fits.1)
      | cons piece' ps' =>
        rw [List.forall_mem_cons] at fits'
        cases piece' with
        | separator d =>
          have whole : Decomposes table (.word row :: ps) (d :: ps'.flatMap Piece.text) :=
            ⟨List.forall_mem_cons.2 fits, text'.symm⟩
          obtain ⟨_, impossible, _⟩ :=
            built.separator_of_decomposes whole ((built.separator d).2 fits'.1)
          cases impossible
        | word row' =>
          rw [List.flatMap_cons, List.flatMap_cons, Piece.text, Piece.text] at text'
          have same : row = row' := built.checked.row_unique fits.1 fits'.1
            (List.prefix_append _ _) (text' ▸ List.prefix_append _ _)
          subst same
          rw [ih ⟨fits.2, rfl⟩ ⟨fits'.2, List.append_cancel_left text'⟩]

theorem Built.exists_decomposes (built : l.Built table) {file : String} {s : Scan}
    {ts : List Token} (h : (s.tokens l file).1 = .ok ts) : ∃ ps, Decomposes table ps s.rest := by
  fun_induction Scan.tokens l file s generalizing ts with
  | case1 s empty => exact ⟨[], by simp, empty.symm⟩
  | case2 s c cs split stop ih =>
    obtain ⟨ps, rest⟩ := ih h
    rw [Scan.rest_drop, split, List.drop_one, List.tail_cons] at rest
    refine ⟨.separator c :: ps, List.forall_mem_cons.2 ⟨(built.separator c).1 stop, rest.fits⟩, ?_⟩
    rw [List.flatMap_cons, rest.text, split]
    rfl
  | case3 => cases h
  | case4 => cases h
  | case5 s c cs _ _ w _ _ s' ts' spelt r s'' tail =>
    rename_i ih
    cases r with
    | error e => cases h
    | ok more =>
      have tail' : (s'.tokens l file).1 = .ok more := by rw [tail]
      obtain ⟨ps, rest⟩ := ih tail'
      obtain ⟨rows, hr, word⟩ := built.exists_rows_of_spell spelt
      have whole := decomposes_words hr rest
      rw [word, Scan.rest_drop, word_append_drop] at whole
      exact ⟨_, whole⟩

end Language

/-- The scanner of a checked language accepts exactly the texts that are made of separators and
spellings. Such a text is made of them in one way only, which the tokens follow; so the commands of
a text are those it was rendered from. -/
theorem tokenize_iff_decomposes (table : List Row) (l : Language)
    (h : Language.ofTable table = .ok l) (file : String) (t : Text) :
    ((∃ ts, l.tokenize file t = .ok ts) ↔ ∃ ps, Decomposes table ps t) ∧
    (∀ ps ps', Decomposes table ps t → Decomposes table ps' t → ps = ps') ∧
    (∀ ts ps, l.tokenize file t = .ok ts → Decomposes table ps t →
      ts.map Token.command = ps.filterMap Piece.command?) ∧
    ∀ cs, Renders table cs t → ∃ ts, l.tokenize file t = .ok ts ∧ ts.map Token.command = cs := by
  have built := Language.built_of_ofTable h
  have accepted (ps : List Piece) (cut : Decomposes table ps t) :
      l.tokenize file t = .ok (Piece.tokens .start ps) :=
    built.tokens_of_decomposes (s := .start t) file cut
  refine ⟨⟨fun ⟨ts, ok⟩ => ?_, fun ⟨ps, cut⟩ => ⟨_, accepted ps cut⟩⟩, fun ps ps' cut cut' => ?_,
    fun ts ps ok cut => ?_, fun cs rendered => ?_⟩
  · exact built.exists_decomposes (s := .start t) ok
  · exact built.decomposes_unique cut cut'
  · rw [accepted ps cut] at ok
    cases ok
    exact Piece.map_command_tokens .start ps
  · obtain ⟨ps, cut, rfl⟩ := rendered.decomposes
    exact ⟨_, accepted ps cut, Piece.map_command_tokens .start ps⟩

theorem tokenize_iff_decomposes_adjacent :
    ∃ ts, Language.standard.tokenize "adjacent" ([] ++ Command.increment.spelling ++
        ([] ++ Command.loopStart.spelling ++ ([' ', '\n'] ++ Command.loopEnd.spelling ++ ['\t']))) =
          .ok ts ∧ ts.map Token.command = [.increment, .loopStart, .loopEnd] := by
  have render (gap : Text) (c : Command) {cs : List Command} {t : Text}
      (blank : ∀ d ∈ gap, d ∈ blanks)
      (later : Renders Language.standardTable cs t) :
      Renders Language.standardTable (c :: cs) (gap ++ c.spelling ++ t) :=
    .cons blank (List.mem_map_of_mem c.mem_all) later
  have last : Renders Language.standardTable [] ['\t'] := .nil (by simp [blanks])
  have stop := render [' ', '\n'] .loopEnd (by simp [blanks]) last
  have rendered := render [] .increment (by simp) (render [] .loopStart (by simp) stop)
  exact (tokenize_iff_decomposes _ _ Language.ofTable_standardTable _ _).2.2.2 _ rendered

end SlangTape
