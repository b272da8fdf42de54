import Mathlib.Data.List.GetD
import Mathlib.Data.List.TakeWhile
import SlangTape.Proofs.Reading

set_option autoImplicit false

namespace SlangTape

namespace Text

variable {t : Text} {c : Char}

theorem isSolid_singleton (c : Char) : isSolid [c] = !SlangTape.isBlank c := by
  rw [isSolid, isBlank_singleton]
  rfl

/-- The runs of characters other than blanks that cannot be made longer, in order. -/
def words (t : Text) : List Text := (t.splitOnP SlangTape.isBlank).filter fun w => !w.isEmpty

def firstWord (t : Text) : Text := (t.dropWhile SlangTape.isBlank).takeWhile (!SlangTape.isBlank ·)

/-- What stands after the first word, from the blank on that ends it. -/
def pastWord (t : Text) : Text := (t.dropWhile SlangTape.isBlank).dropWhile (!SlangTape.isBlank ·)

theorem words_nil : words [] = [] := rfl

theorem words_append_blank (blank : SlangTape.isBlank c = true) (u v : Text) :
    words (u ++ c :: v) = words u ++ words v := by
  rw [words, List.splitOnP_append_cons u v blank, List.filter_append]
  rfl

theorem words_of_solid (solid : ∀ c ∈ t, SlangTape.isBlank c = false) (nonempty : t ≠ []) :
    words t = [t] := by
  rw [words, List.splitOnP_eq_singleton solid]
  simp [nonempty]

theorem words_dropWhile (t : Text) : words (t.dropWhile SlangTape.isBlank) = words t := by
  induction t with
  | nil => rfl
  | cons c t ih =>
    by_cases blank : SlangTape.isBlank c = true
    · rw [List.dropWhile_cons_of_pos blank, ih]
      exact (words_append_blank blank [] t).symm
    · rw [List.dropWhile_cons_of_neg blank]

theorem eq_firstWord_append (t : Text) :
    t = t.takeWhile SlangTape.isBlank ++ (t.firstWord ++ t.pastWord) := by
  rw [firstWord, pastWord, List.takeWhile_append_dropWhile, List.takeWhile_append_dropWhile]

theorem drop_firstWord (t : Text) :
    t.drop ((t.takeWhile SlangTape.isBlank).length + t.firstWord.length) = t.pastWord := by
  have cut := congrArg (List.drop ((t.takeWhile SlangTape.isBlank).length + t.firstWord.length))
    t.eq_firstWord_append
  rw [cut, ← List.append_assoc, List.drop_left' (List.length_append)]

theorem solid_of_mem_firstWord (h : c ∈ t.firstWord) : SlangTape.isBlank c = false := by
  simpa using List.mem_takeWhile_imp h

theorem firstWord_of_solid (solid : ∀ c ∈ t, SlangTape.isBlank c = false) : t.firstWord = t := by
  have start : t.dropWhile SlangTape.isBlank = t := by
    cases t with
    | nil => rfl
    | cons c t =>
      exact List.dropWhile_cons_of_neg (by rw [solid c List.mem_cons_self]; exact Bool.false_ne_true)
  rw [firstWord, start, List.takeWhile_eq_self_iff]
  exact fun c hc => by rw [solid c hc]; rfl

theorem pastWord_eq_nil (h : t.firstWord = []) : t.pastWord = [] := by
  unfold firstWord at h
  unfold pastWord
  cases rest : t.dropWhile SlangTape.isBlank with
  | nil => rfl
  | cons c u =>
    have solid := List.head?_dropWhile_not SlangTape.isBlank t
    rw [rest] at solid h
    simp [show SlangTape.isBlank c = false from solid] at h

theorem blank_of_head?_pastWord (h : t.pastWord.head? = some c) : SlangTape.isBlank c = true := by
  have stop := List.head?_dropWhile_not (!SlangTape.isBlank ·) (t.dropWhile SlangTape.isBlank)
  rw [show ((t.dropWhile SlangTape.isBlank).dropWhile (!SlangTape.isBlank ·)).head? = some c from h]
    at stop
  simpa using stop

theorem words_eq (t : Text) :
    t.words = if t.firstWord = [] then [] else t.firstWord :: words t.pastWord.tail := by
  have cut : t.dropWhile SlangTape.isBlank = t.firstWord ++ t.pastWord :=
    List.takeWhile_append_dropWhile.symm
  rw [← words_dropWhile, cut]
  split
  · next none => rw [none, pastWord_eq_nil none, List.append_nil, words_nil]
  · next nonempty =>
    have alone : words t.firstWord = [t.firstWord] :=
      words_of_solid (fun _ => solid_of_mem_firstWord) nonempty
    cases rest : t.pastWord with
    | nil => rw [List.append_nil, alone, List.tail_nil, words_nil]
    | cons c u =>
      have blank := blank_of_head?_pastWord (t := t) (c := c) (by rw [rest]; rfl)
      rw [words_append_blank blank, alone]
      rfl

end Text

namespace Input

variable {i : Input} {n : ℕ} {t : Text} {gap word rest : List Text} {P : Answer → Prop}

theorem headD_dropWhile {p : Text → Bool} (atEnd : p [] = false) (answers : List Text) :
    p ((answers.dropWhile p).headD []) = false := by
  have stop := List.head?_dropWhile_not p answers
  cases rest : answers.dropWhile p with
  | nil => exact atEnd
  | cons t rest' =>
    rw [rest] at stop
    exact stop

/-- The answers to come are these and then the end for ever. -/
def Gives (i : Input) (answers : List Text) : Prop := ∀ n, i.reply n = .ok (answers.getD n [])

def Unbroken (i : Input) : Prop := ∀ n, i.calls ≤ n → i.breaks n = none

namespace Gives

variable {answers : List Text}

theorem unbroken (h : i.Gives answers) : i.Unbroken := by
  intro n hn
  obtain ⟨k, rfl⟩ := Nat.exists_eq_add_of_le hn
  cases broke : i.breaks (i.calls + k) with
  | none => rfl
  | some f =>
    have given := h k
    rw [reply, Breaks.answer_eq_error_iff.2 broke] at given
    cases given

theorem after (h : i.Gives answers) (n : ℕ) : (i.after n).Gives (answers.drop n) := by
  intro m
  rw [reply_after, h]
  simp [List.getD_eq_getElem?_getD]

theorem stretch (h : i.Gives (word ++ rest)) (all : ∀ t ∈ word, P (.ok t))
    (stop : ¬ P (.ok (rest.headD []))) : Stretch P i word.length where
  all m hm := by
    rw [h, List.getD_append _ _ _ _ hm]
    exact all _ (by simp [List.getD_eq_getElem?_getD, hm])
  stop := by
    rw [h, List.getD_append_right _ _ _ _ (Nat.le_refl _), Nat.sub_self]
    cases rest <;> exact stop

theorem joined_eq (h : i.Gives (word ++ rest)) : i.joined word.length = word.flatten := by
  induction word generalizing i with
  | nil => rfl
  | cons t word ih =>
    rw [List.length_cons, joined, h, ih (h.after 1)]
    rfl

theorem not_endless (h : i.Gives answers) : ¬ i.Endless := by
  have atEnd {n : ℕ} (past : answers.length ≤ n) : i.reply n = .ok [] := by
    rw [h, List.getD_eq_getElem?_getD, List.getElem?_eq_none past]
    rfl
  rintro (forever | ⟨n, _, forever⟩)
  · have blank := forever answers.length
    rw [atEnd (Nat.le_refl _), Answer.blank_ok] at blank
    cases blank
  · have solid := forever answers.length
    rw [reply_after, atEnd (Nat.le_add_left _ _), Answer.solid_ok] at solid
    cases solid

theorem readChar_eq (h : i.Gives answers) :
    i.readChar = (.ok (nonempty? (answers.headD [])), i.after 1) := by
  rw [Input.readChar_eq, h]
  cases answers <;> rfl

theorem readToken?_end (h : i.Gives (gap ++ rest)) (blank : ∀ t ∈ gap, t.isBlank = true)
    (atEnd : rest.headD [] = []) : i.readToken? = some (.ok none, i.after (gap.length + 1)) := by
  have blanks : Stretch Answer.Blank i gap.length :=
    h.stretch (fun t ht => Answer.blank_ok.2 (blank t ht)) (by
      rw [atEnd, Answer.blank_ok]
      exact Bool.false_ne_true)
  refine readToken?_of_end blanks ?_
  rw [h, List.getD_append_right _ _ _ _ (Nat.le_refl _), Nat.sub_self, ← atEnd]
  cases rest <;> rfl

theorem readToken?_word (h : i.Gives (gap ++ (word ++ rest))) (blank : ∀ t ∈ gap, t.isBlank = true)
    (solid : ∀ t ∈ word, t.isSolid = true) (nonempty : word ≠ [])
    (stop : (rest.headD []).isSolid = false) :
    i.readToken? = some (.ok (some word.flatten), i.after (gap.length + word.length + 1)) := by
  obtain ⟨u, us, rfl⟩ := List.exists_cons_of_ne_nil nonempty
  have first := (Text.isSolid_iff.1 (solid u List.mem_cons_self)).2
  have blanks : Stretch Answer.Blank i gap.length :=
    h.stretch (fun t ht => Answer.blank_ok.2 (blank t ht)) (by
      rw [Answer.blank_ok]
      simp [first])
  have later : (i.after gap.length).Gives (u :: us ++ rest) := by
    have later := h.after gap.length
    rwa [List.drop_left] at later
  have taken : Stretch Answer.Solid (i.after gap.length) (us.length + 1) :=
    later.stretch (fun t ht => Answer.solid_ok.2 (solid t ht)) (by
      rw [Answer.solid_ok, stop]
      exact Bool.false_ne_true)
  rw [readToken?_of_word blanks taken, h, ← List.length_cons, later.joined_eq]
  rfl

theorem readToken?_takeWhile (h : i.Gives answers) (gap : answers.dropWhile Text.isBlank = rest)
    (more : rest.headD [] ≠ []) :
    i.readToken? = some (.ok (some (rest.takeWhile Text.isSolid).flatten),
      i.after ((answers.takeWhile Text.isBlank).length +
        (rest.takeWhile Text.isSolid).length + 1)) := by
  have split : answers = answers.takeWhile Text.isBlank ++
      (rest.takeWhile Text.isSolid ++ rest.dropWhile Text.isSolid) := by
    rw [List.takeWhile_append_dropWhile, ← gap, List.takeWhile_append_dropWhile]
  have first : Text.isBlank (rest.headD []) = false := gap ▸ headD_dropWhile rfl answers
  have nonempty : rest.takeWhile Text.isSolid ≠ [] := by
    cases rest with
    | nil => exact absurd rfl more
    | cons u us =>
      have solid : u.isSolid = true := Text.isSolid_iff.2 ⟨more, first⟩
      rw [List.takeWhile_cons_of_pos solid]
      exact List.cons_ne_nil _ _
  rw [split] at h
  exact h.readToken?_word (fun _ ht => List.mem_takeWhile_imp ht)
    (fun _ ht => List.mem_takeWhile_imp ht) nonempty (headD_dropWhile rfl rest)

end Gives

/-- The answers to come are the characters of `t`, one a call, and then the end for ever. -/
def Feeds (i : Input) (t : Text) : Prop := i.Gives (t.map fun c => [c])

theorem feeds_ofText (t : Text) : (ofText t).Feeds t := fun _ => rfl

namespace Feeds

theorem after (h : i.Feeds t) (n : ℕ) : (i.after n).Feeds (t.drop n) := by
  have later := Gives.after h n
  rwa [← List.map_drop] at later

theorem length_le {u : Text} (h : i.Feeds t) (given : i.reply n = .ok u) : u.length ≤ 1 := by
  have given : (t.map fun c => [c]).getD n [] = u := Except.ok.inj ((h n).symm.trans given)
  rw [← given, List.getD_eq_getElem?_getD, List.getElem?_map]
  cases t[n]? <;> simp

theorem readChar_eq (h : i.Feeds t) :
    i.readChar = (.ok (t.head?.map fun c => [c]), i.after 1) := by
  rw [Gives.readChar_eq h]
  cases t <;> rfl

theorem readToken?_eq (h : i.Feeds t) :
    ∃ n, i.readToken? = some (.ok (nonempty? t.firstWord), i.after n) ∧
      t.drop n = t.pastWord.tail := by
  have text := t.eq_firstWord_append
  have past := t.drop_firstWord
  generalize first : t.takeWhile SlangTape.isBlank = gap at text past
  have blank : ∀ u ∈ gap.map fun c => [c], Text.isBlank u = true := by
    intro u hu
    obtain ⟨c, hc, rfl⟩ := List.mem_map.1 hu
    rw [Text.isBlank_singleton]
    exact List.mem_takeWhile_imp (first ▸ hc)
  have gives : i.Gives ((gap.map fun c => [c]) ++
      ((t.firstWord.map fun c => [c]) ++ (t.pastWord.map fun c => [c]))) := by
    rw [← List.map_append, ← List.map_append, ← text]
    exact h
  refine ⟨gap.length + t.firstWord.length + 1, ?_, ?_⟩
  · by_cases none : t.firstWord = []
    · rw [none, Text.pastWord_eq_nil none] at gives
      rw [gives.readToken?_end blank rfl, none, List.length_map]
      rfl
    · have solid : ∀ u ∈ t.firstWord.map fun c => [c], Text.isSolid u = true := by
        intro u hu
        obtain ⟨c, hc, rfl⟩ := List.mem_map.1 hu
        rw [Text.isSolid_singleton, Text.solid_of_mem_firstWord hc]
        rfl
      have stop : Text.isSolid ((t.pastWord.map fun c => [c]).headD []) = false := by
        cases rest : t.pastWord with
        | nil => rfl
        | cons c u =>
          have blank := Text.blank_of_head?_pastWord (t := t) (c := c) (by rw [rest]; rfl)
          rw [List.map_cons, List.headD_cons, Text.isSolid_singleton, blank]
          rfl
      rw [gives.readToken?_word blank solid (by simpa using none) stop, nonempty?, if_neg none,
        List.length_map, List.length_map, ← List.flatMap_def, List.flatMap_singleton']
  · rw [← List.drop_drop, past, List.drop_one]

theorem readToken?_word {word rest : Text} {c : Char} (h : i.Feeds (word ++ c :: rest))
    (solid : ∀ d ∈ word, SlangTape.isBlank d = false) (nonempty : word ≠ []) (blank : SlangTape.isBlank c = true) :
    i.readToken? = some (.ok (some word), i.after (word.length + 1)) := by
  have gives : i.Gives ([] ++ ((word.map fun d => [d]) ++ ([c] :: rest.map fun d => [d]))) := by
    rw [Feeds, List.map_append] at h
    exact h
  have solid' : ∀ u ∈ word.map fun d => [d], Text.isSolid u = true := by
    intro u hu
    obtain ⟨d, hd, rfl⟩ := List.mem_map.1 hu
    rw [Text.isSolid_singleton, solid d hd]
    rfl
  have stop : Text.isSolid (([c] :: rest.map fun d => [d]).headD []) = false := by
    rw [List.headD_cons, Text.isSolid_singleton, blank]
    rfl
  rw [gives.readToken?_word (by simp) solid' (by simpa using nonempty) stop,
    List.length_map, List.length_nil, Nat.zero_add, ← List.flatMap_def, List.flatMap_singleton']

end Feeds

inductive Read where
  | char
  | token
  | int
  deriving DecidableEq, Repr

/-- The input after a read that returns, whatever it brought. -/
def past (i : Input) : Read → Option Input
  | .char => some i.readChar.2
  | .token => i.readToken?.map Prod.snd
  | .int => i.readInt?.map Prod.snd

def pastAll (i : Input) (reads : List Read) : Option Input := reads.foldlM past i

theorem Feeds.exists_past (h : i.Feeds t) (r : Read) : ∃ n, i.past r = some (i.after n) := by
  obtain ⟨n, read, _⟩ := h.readToken?_eq
  cases r with
  | char => exact ⟨1, by rw [past, Input.readChar_eq]⟩
  | token => exact ⟨n, by rw [past, read, Option.map_some]⟩
  | int => exact ⟨n, by rw [past, readInt?_eq, read, Option.map_some, Option.map_some]⟩

theorem Feeds.exists_pastAll (h : i.Feeds t) (reads : List Read) :
    ∃ n, i.pastAll reads = some (i.after n) := by
  induction reads generalizing i t with
  | nil => exact ⟨0, rfl⟩
  | cons r reads ih =>
    obtain ⟨m, first⟩ := h.exists_past r
    obtain ⟨n, later⟩ := ih (h.after m)
    refine ⟨m + n, ?_⟩
    rw [pastAll, List.foldlM_cons, first, ← after_after]
    exact later

theorem Feeds.readToken?_pastAll (h : i.Feeds t) (n : ℕ) :
    ∃ j rest, i.pastAll (List.replicate n .token) = some j ∧
      j.readToken? = some (.ok t.words[n]?, rest) := by
  induction n generalizing i t with
  | zero =>
    obtain ⟨m, read, _⟩ := h.readToken?_eq
    refine ⟨i, i.after m, rfl, ?_⟩
    rw [read, Text.words_eq, nonempty?]
    split <;> rfl
  | succ n ih =>
    obtain ⟨m, read, left⟩ := h.readToken?_eq
    have feeds := h.after m
    rw [left] at feeds
    obtain ⟨j, rest, reached, later⟩ := ih feeds
    refine ⟨j, rest, ?_, ?_⟩
    · rw [List.replicate_succ, pastAll, List.foldlM_cons, past, read]
      exact reached
    · rw [later, t.words_eq]
      split
      · next none =>
        rw [Text.pastWord_eq_nil none, List.tail_nil, Text.words_nil]
        rfl
      · rw [List.getElem?_cons_succ]

theorem Feeds.readChar_past_token (h : i.Feeds t) :
    ∃ j, i.past .token = some j ∧ j.readChar.1 = .ok (t.pastWord[1]?.map fun c => [c]) := by
  obtain ⟨n, read, left⟩ := h.readToken?_eq
  refine ⟨i.after n, by rw [past, read, Option.map_some], ?_⟩
  rw [(h.after n).readChar_eq, left, List.head?_tail]

end Input

/-- Reading a word uses up the longest run of blank answers and then, if the input is at its end, the
answer that says so, or else the longest run of answers that are neither blank nor the end and the one
after them; the word is that run in one text. Reading a character uses up one answer. Of a text that is
fed one character a call, from wherever earlier reads of any kind have left it, successive reads bring
the words in order and then none for ever, and a character read after a word is the one after the
blank that ended the word. -/
theorem readToken_consumes :
    (∀ (i : Input) (answers : List Text), i.Gives answers →
      let gap := answers.takeWhile Text.isBlank
      let rest := answers.dropWhile Text.isBlank
      let word := rest.takeWhile Text.isSolid
      (rest.headD [] = [] → i.readToken? = some (.ok none, i.after (gap.length + 1))) ∧
      (rest.headD [] ≠ [] →
        i.readToken? = some (.ok (some word.flatten), i.after (gap.length + word.length + 1))) ∧
      i.readChar = (.ok (Input.nonempty? (answers.headD [])), i.after 1)) ∧
    ∀ (t : Text) (history : List Input.Read), ∃ k,
      let i := (Input.ofText t).after k
      let left := t.drop k
      (Input.ofText t).pastAll history = some i ∧
      (∀ n, ∃ j rest, i.pastAll (List.replicate n .token) = some j ∧
        j.readToken? = some (.ok (Text.words left)[n]?, rest)) ∧
      ∃ j, i.past .token = some j ∧ j.readChar.1 = .ok ((Text.pastWord left)[1]?.map fun c => [c]) := by
  constructor
  · intro i answers gives gap rest word
    have split : answers = gap ++ rest := List.takeWhile_append_dropWhile.symm
    have blank : ∀ t ∈ gap, Text.isBlank t = true := fun t ht => List.mem_takeWhile_imp ht
    exact ⟨Input.Gives.readToken?_end (split ▸ gives) blank, gives.readToken?_takeWhile rfl,
      gives.readChar_eq⟩
  · intro t history
    obtain ⟨k, left⟩ := (Input.feeds_ofText t).exists_pastAll history
    have feeds := (Input.feeds_ofText t).after k
    exact ⟨k, left, feeds.readToken?_pastAll, feeds.readChar_past_token⟩

theorem readToken_consumes_end_in_midstream :
    let answers : List Text := [[' '], ['\t', '\n'], ['a', ' ', 'b'], ['7'], [], ['x']]
    let i : Input := { answers }
    i.Gives answers ∧ i.readToken? = some (.ok (some ['a', ' ', 'b', '7']), i.after 5) ∧
      (i.after 4).readToken? = some (.ok none, i.after 5) ∧
      (i.after 5).readChar = (.ok (some ['x']), i.after 6) := by
  intro answers i
  have gives : i.Gives answers := fun _ => rfl
  have word := (readToken_consumes.1 i answers gives).2.1 (by decide)
  have atEnd := (readToken_consumes.1 (i.after 4) _ (gives.after 4)).1 (by decide)
  have char := (readToken_consumes.1 (i.after 5) _ (gives.after 5)).2.2
  exact ⟨gives, word, atEnd, char⟩

end SlangTape
