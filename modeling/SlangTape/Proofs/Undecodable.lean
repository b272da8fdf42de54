import SlangTape.Proofs.Encoding
import SlangTape.Proofs.Isolation
import SlangTape.Proofs.Refusal

set_option autoImplicit false

namespace SlangTape

section Foreign

variable {table : List Row} {c : Char} {t : Text}

/-- The character belongs to no spelling and separates none. -/
structure Foreign (table : List Row) (c : Char) : Prop where
  unspelt : ∀ r ∈ table, c ∉ r.spelling
  solid : c ∉ blanks

theorem Foreign.not_mem_of_decomposes (foreign : Foreign table c) {ps : List Piece}
    (h : Decomposes table ps t) : c ∉ t := by
  intro member
  rw [← h.text] at member
  obtain ⟨piece, hp, hc⟩ := List.mem_flatMap.1 member
  have fits := h.fits piece hp
  cases piece with
  | separator d =>
    rw [List.mem_singleton.1 hc] at foreign
    exact foreign.solid fits
  | word row => exact foreign.unspelt row fits hc

theorem FirstUnspelt.exists_decomposes {b w a : Text} (h : FirstUnspelt table t b w a) :
    ∃ ps, Decomposes table ps b := by
  rcases decomposes_or_firstUnspelt table b with cut | ⟨b', w', a', inner⟩
  · exact cut
  · exact absurd (h.earlier b' w' a' inner.word) inner.unspelt

/-- The error is about a character up to the `c` that stands after `before`, or about the end of a word
that is over before that. -/
inductive RefusedUpTo (table : List Row) (file : String) (before : Text) (c : Char) :
    ParseError → Prop where
  | character {known rest : Text} {d : Char} (text : before ++ [c] = known ++ d :: rest)
      (other : ∀ r ∈ table, d ∉ r.spelling) :
      RefusedUpTo table file before c (.invalidCharacter d file (.past known))
  | word {known w rest : Text} {d : Char} (text : before = known ++ (w ++ d :: rest))
      (nonempty : w ≠ []) (solid : ∀ x ∈ w, x ∉ blanks) (closed : d ∈ blanks) :
      RefusedUpTo table file before c (.unknownCommand w file (.past known))

theorem exists_upTo {before after known later : Text} {d : Char} (absent : c ∉ known)
    (h : before ++ c :: after = known ++ d :: later) :
    ∃ rest, before ++ [c] = known ++ d :: rest := by
  rcases List.append_eq_append_iff.1 h with ⟨gap, rfl, split⟩ | ⟨gap, rfl, split⟩
  · -- The character would be the first of the gap, unless there is none.
    cases gap with
    | nil =>
      obtain ⟨rfl, _⟩ := List.cons.inj split
      exact ⟨[], by rw [List.append_nil]⟩
    | cons x gap =>
      obtain ⟨rfl, _⟩ := List.cons.inj split
      exact absurd (List.mem_append_right before List.mem_cons_self) absent
  · cases gap with
    | nil =>
      obtain ⟨rfl, _⟩ := List.cons.inj split
      exact ⟨[], by rw [List.append_nil]⟩
    | cons x gap =>
      obtain ⟨rfl, _⟩ := List.cons.inj split
      exact ⟨gap ++ [c], by simp⟩

theorem Refuses.upTo {file : String} {b w a before after : Text} {e : ParseError}
    (foreign : Foreign table c) (first : FirstUnspelt table (before ++ c :: after) b w a)
    (h : Refuses table file b w e) : RefusedUpTo table file before c e := by
  obtain ⟨ps, cut⟩ := first.exists_decomposes
  have notBefore : c ∉ b := foreign.not_mem_of_decomposes cut
  have notLetter {u : Text} (letters : ∀ d ∈ u, ∃ r ∈ table, d ∈ r.spelling) : c ∉ u := by
    intro member
    obtain ⟨r, hr, hc⟩ := letters c member
    exact foreign.unspelt r hr hc
  have text := first.word.text
  cases h with
  | @foreign known rest d split letters other =>
    have absent : c ∉ b ++ known := by simp [notBefore, notLetter letters]
    have here : before ++ c :: after = (b ++ known) ++ d :: (rest ++ a) := by simp [text, split]
    obtain ⟨rest, upTo⟩ := exists_upTo absent here
    exact .character upTo other
  | @unspelt spelt rest letters split known longest =>
    have absent : c ∉ b ++ w := by simp [notBefore, notLetter letters]
    cases a with
    | nil =>
      rw [List.append_nil] at text
      exact absurd (text ▸ List.mem_append_right before List.mem_cons_self) absent
    | cons d a =>
      have blank : d ∈ blanks := first.word.closed d rfl
      have here : before ++ c :: after = (b ++ w) ++ d :: a := by simp [text]
      obtain ⟨gap, upTo⟩ := exists_upTo absent here
      have nonempty : rest ≠ [] := by
        rintro rfl
        rw [List.append_nil] at split
        exact first.unspelt (split ▸ known)
      have solid : ∀ x ∈ rest, x ∉ blanks := fun x hx =>
        first.word.solid x (split ▸ List.mem_append_right spelt hx)
      rcases List.eq_nil_or_concat gap with rfl | ⟨gap, x, rfl⟩
      · have last := List.append_inj_right' upTo rfl
        cases last
        exact absurd blank foreign.solid
      · have kept : before = (b ++ spelt) ++ (rest ++ d :: gap) := by
          have shorter : before ++ [c] = (b ++ w ++ d :: gap) ++ [x] := by rw [upTo]; simp
          rw [List.append_inj_left' shorter rfl, split]
          simp
        exact .word kept nonempty solid blank

end Foreign

theorem Language.Built.tokenize_of_foreign {l : Language} {table : List Row} (built : l.Built table)
    (file : String) {c : Char} (foreign : Foreign table c) (before after : Text) :
    ∃ e, l.tokenize file (before ++ c :: after) = .error e ∧ RefusedUpTo table file before c e := by
  rcases decomposes_or_firstUnspelt table (before ++ c :: after) with ⟨ps, cut⟩ | ⟨b, w, a, first⟩
  · exact absurd (by simp) (foreign.not_mem_of_decomposes cut)
  · have begun : (Scan.start (before ++ c :: after)).position = .past [] := rfl
    obtain ⟨e, refuses, refused⟩ := built.tokens_of_firstUnspelt file first rfl begun
    exact ⟨e, refused, refuses.upTo foreign first⟩

theorem foreign_replacement : Foreign Language.standardTable Utf8.replacement where
  unspelt := by decide
  solid := by decide

/-- The bytes are the encoding of some text. -/
def Utf8.WellFormed (bytes : List UInt8) : Prop := ∃ t, encode t = bytes

/-- A file with bytes that are no UTF-8 is read as a text with a replacement character in it, and a run
of that text is refused before anything happens: at the first replacement character, or at a character
before it, or at a word that is over before it. -/
theorem run_undecodable (files : Files) (path : String) (bytes : List UInt8)
    (served : files.Serves path bytes) (broken : ¬ Utf8.WellFormed (Utf8.dropMark bytes)) :
    ∃ source before after, Source.load files path = .ok source ∧
      source.text = before ++ Utf8.replacement :: after ∧ Utf8.replacement ∉ before ∧
      ∀ s : Session, s.source = source.text → s.language = .standard →
        ∃ e, (∀ limit, s.run limit = (.failed (.parse e), #[], s)) ∧
          ((∃ known c rest, before ++ [Utf8.replacement] = known ++ c :: rest ∧
              e = .invalidCharacter c s.file (.past known)) ∨
            ∃ known w c rest, before = known ++ (w ++ c :: rest) ∧ w ≠ [] ∧ c ∈ blanks ∧
              e = .unknownCommand w s.file (.past known)) := by
  have found : Utf8.replacement ∈ Utf8.decode (Utf8.dropMark bytes) := by
    by_contra absent
    exact broken ⟨_, Utf8.encode_decode absent⟩
  obtain ⟨before, after, text, absent⟩ := List.eq_append_cons_of_mem found
  refine ⟨_, before, after, served.load, text, absent, fun s source language => ?_⟩
  have built : Language.standard.Built _ := Language.built_of_ofTable Language.ofTable_standardTable
  obtain ⟨e, refused, upTo⟩ := built.tokenize_of_foreign s.file foreign_replacement before after
  have parsed : s.parse = .error e := by
    rw [Session.parse, Program.parse, language, source, Source.ofBytes, text, refused]
  refine ⟨e, Session.run_of_refused parsed, ?_⟩
  cases upTo with
  | character text _ => exact .inl ⟨_, _, _, text, rfl⟩
  | word text nonempty _ closed => exact .inr ⟨_, _, _, _, text, nonempty, closed, rfl⟩

theorem run_undecodable_latin :
    let bytes : List UInt8 := [0x77, 0x65, 0xF3, 0x6E]
    let files : Files := fun path =>
      if path = "/latin.lw" then .ok bytes else .error "No such file or directory"
    ¬ Utf8.WellFormed (Utf8.dropMark bytes) ∧
      ∃ source, Source.load files "/latin.lw" = .ok source ∧
        Utf8.replacement ∈ source.text ∧ ∀ s : Session, s.source = source.text →
          s.language = .standard → ∃ e, ∀ limit, s.run limit = (.failed (.parse e), #[], s) := by
  intro bytes files
  have served : files.Serves "/latin.lw" bytes := ⟨by decide, rfl⟩
  have broken : ¬ Utf8.WellFormed (Utf8.dropMark bytes) := by
    rintro ⟨t, encoded⟩
    have text : Utf8.decode (Utf8.dropMark bytes) = t := by rw [← encoded, Utf8.decode_encode]
    rw [← text] at encoded
    revert encoded
    decide
  obtain ⟨source, before, after, loaded, text, _, refused⟩ :=
    run_undecodable files _ bytes served broken
  refine ⟨broken, source, loaded, by simp [text], fun s here language => ?_⟩
  obtain ⟨e, ran, _⟩ := refused s here language
  exact ⟨e, ran⟩

end SlangTape
