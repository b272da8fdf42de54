import SlangTape.Proofs.Words

set_option autoImplicit false

namespace SlangTape

/-- The place just past a text that begins at the start: its lines and the characters of its last line
are counted. -/
def Position.past (t : Text) : Position :=
  ⟨t.count '\n' + 1, (t.reverse.takeWhile (· ≠ '\n')).length + 1⟩

namespace Position

theorem past_concat (t : Text) (c : Char) : past (t ++ [c]) = (past t).after c := by
  by_cases h : c = '\n'
  · simp [past, after, h]
  · simp [past, after, h, List.count_append]

theorem past_append {w : Text} (h : ∀ c ∈ w, c ≠ '\n') (t : Text) :
    past (t ++ w) = (past t).shift w.length := by
  induction w generalizing t with
  | nil => simp [shift]
  | cons c w ih =>
    rw [List.forall_mem_cons] at h
    have next : past (t ++ [c]) = (past t).shift 1 := by simp [past_concat, after, h.1, shift]
    calc
      past (t ++ c :: w) = past (t ++ [c] ++ w) := by simp
      _ = (past (t ++ [c])).shift w.length := ih h.2 _
      _ = (past t).shift (c :: w).length := by
        rw [next, shift_shift, List.length_cons, Nat.add_comm]

end Position

theorem Scan.past_drop {s : Scan} {done : Text} (h : s.position = .past done) (n : ℕ) :
    (s.drop n).position = .past (done ++ s.rest.take n) := by
  induction n generalizing s done with
  | zero => simpa [drop] using h
  | succ n ih =>
    obtain ⟨rest, index, position⟩ := s
    cases rest with
    | nil => simpa [drop] using h
    | cons c rest =>
      have next : position.after c = .past (done ++ [c]) := by rw [Position.past_concat, ← h]
      rw [drop, ih next]
      simp

/-- The error with which a word is refused that stands after `before`. -/
inductive Refuses (table : List Row) (file : String) (before w : Text) : ParseError → Prop where
  | foreign {known rest : Text} {c : Char} (text : w = known ++ c :: rest)
      (letters : ∀ d ∈ known, ∃ r ∈ table, d ∈ r.spelling) (other : ∀ r ∈ table, c ∉ r.spelling) :
      Refuses table file before w (.invalidCharacter c file (.past (before ++ known)))
  | unspelt {spelt rest : Text} (letters : ∀ c ∈ w, ∃ r ∈ table, c ∈ r.spelling)
      (text : w = spelt ++ rest) (h : Spelt table spelt)
      (longest : ∀ u, u <+: w → Spelt table u → u <+: spelt) :
      Refuses table file before w (.unknownCommand rest file (.past (before ++ spelt)))

theorem first_foreign_unique {P : Char → Prop} {u u' v v' : Text} {c c' : Char}
    (h : u ++ c :: v = u' ++ c' :: v') (hu : ∀ d ∈ u, P d) (hu' : ∀ d ∈ u', P d) (hc : ¬ P c)
    (hc' : ¬ P c') : u = u' ∧ c = c' := by
  induction u generalizing u' with
  | nil =>
    cases u' with
    | nil => exact ⟨rfl, (List.cons.inj h).1⟩
    | cons d u' =>
      have same : c = d := (List.cons.inj h).1
      exact absurd (hu' d List.mem_cons_self) (same ▸ hc)
  | cons d u ih =>
    rw [List.forall_mem_cons] at hu
    cases u' with
    | nil =>
      have same : d = c' := (List.cons.inj h).1
      exact absurd hu.1 (same ▸ hc')
    | cons d' u' =>
      rw [List.forall_mem_cons] at hu'
      obtain ⟨rfl, rest⟩ := List.cons.inj h
      obtain ⟨rfl, rfl⟩ := ih rest hu.2 hu'.2
      exact ⟨rfl, rfl⟩

theorem Refuses.unique {table : List Row} {file : String} {before w : Text} {e e' : ParseError}
    (h : Refuses table file before w e) (h' : Refuses table file before w e') : e = e' := by
  have absent {known rest : Text} {c : Char} (text : w = known ++ c :: rest)
      (other : ∀ r ∈ table, c ∉ r.spelling)
      (letters : ∀ c ∈ w, ∃ r ∈ table, c ∈ r.spelling) : False := by
    obtain ⟨r, hr, hc⟩ := letters c (by simp [text])
    exact other r hr hc
  cases h with
  | @foreign known rest c text letters other =>
    cases h' with
    | @foreign known' rest' c' text' letters' other' =>
      obtain ⟨rfl, rfl⟩ := first_foreign_unique (text.symm.trans text') letters letters'
        (by simpa using other) (by simpa using other')
      rfl
    | unspelt letters' => exact (absent text other letters').elim
  | @unspelt spelt rest letters text h longest =>
    cases h' with
    | foreign text' _ other' => exact (absent text' other' letters).elim
    | @unspelt spelt' rest' _ text' h' longest' =>
      have below := longest spelt' ⟨rest', text'.symm⟩ h'
      have above := longest' spelt ⟨rest, text.symm⟩ h
      obtain rfl : spelt = spelt' := above.eq_of_length_le below.length_le
      rw [List.append_cancel_left (text.symm.trans text')]

namespace Language

variable {l : Language} {table : List Row} {w : Text}

theorem Built.spell_of_spelt (built : l.Built table) (file : String) (p : Position)
    (h : Spelt table w) : ∃ ts, l.spell file w p = .ok ts := by
  obtain ⟨rows, hr, rfl⟩ := h
  exact ⟨_, built.spell_words file p hr⟩

theorem Built.spelt_cons (built : l.Built table) {row : Row} (hr : row ∈ table) {u : Text}
    (h : Spelt table u) (starts : u <+: row.spelling ++ w) :
    u = [] ∨ ∃ u', u = row.spelling ++ u' ∧ Spelt table u' ∧ u' <+: w := by
  obtain ⟨rows, known, rfl⟩ := h
  cases rows with
  | nil => exact .inl rfl
  | cons r rows =>
    rw [List.forall_mem_cons] at known
    rw [List.flatMap_cons] at starts ⊢
    have same : r = row := built.checked.row_unique known.1 hr
      ((List.prefix_append _ _).trans starts) (List.prefix_append _ _)
    subst same
    exact .inr ⟨_, rfl, ⟨rows, known.2, rfl⟩, (List.prefix_append_right_inj _).1 starts⟩

theorem Built.spell_error (built : l.Built table) {file : String} {p : Position} {e : ParseError}
    (h : l.spell file w p = .error e) :
    ∃ spelt rest, w = spelt ++ rest ∧ Spelt table spelt ∧
      (∀ u, u <+: w → Spelt table u → u <+: spelt) ∧
      e = .unknownCommand rest file (p.shift spelt.length) := by
  fun_induction spell l file w p generalizing e with
  | case1 => cases h
  | case2 w p nonempty none =>
    cases h
    refine ⟨[], w, rfl, ⟨[], by simp, rfl⟩, ?_, by simp [Position.shift]⟩
    rintro _ starts ⟨rows, hr, rfl⟩
    cases rows with
    | nil => exact List.prefix_rfl
    | cons r rows =>
      rw [List.forall_mem_cons] at hr
      rw [leading?, built.table_eq] at none
      have other := List.find?_eq_none.1 none r hr.1
      simp [(List.prefix_append _ _).trans starts] at other
  | case3 w p _ row found empty =>
    rw [leading?, built.table_eq] at found
    exact absurd empty (built.checked.nonempty row (List.mem_of_find?_eq_some found))
  | case4 w p _ row found _ ih =>
    rw [leading?, built.table_eq] at found
    have hr := List.mem_of_find?_eq_some found
    obtain ⟨w', rfl⟩ : row.spelling <+: w := by simpa using List.find?_some found
    rw [List.drop_left] at h ih
    have later : l.spell file w' (p.shift row.spelling.length) = .error e := by
      revert h
      cases l.spell file w' (p.shift row.spelling.length) <;> simp [Except.map]
    obtain ⟨spelt, rest, rfl, known, longest, rfl⟩ := ih later
    refine ⟨row.spelling ++ spelt, rest, (List.append_assoc _ _ _).symm, ?_, fun u starts h => ?_, ?_⟩
    · obtain ⟨rows, known, rfl⟩ := known
      exact ⟨row :: rows, List.forall_mem_cons.2 ⟨hr, known⟩, rfl⟩
    · rcases built.spelt_cons hr h starts with rfl | ⟨u, rfl, h, starts⟩
      · exact List.nil_prefix
      · exact (List.prefix_append_right_inj _).2 (longest u starts h)
    · rw [Position.shift_shift, List.length_append]

theorem Built.word_of_wordAt (built : l.Built table) {t a : Text} (h : WordAt t [] w a) :
    l.word t = w := by
  refine h.takeWhile_eq fun c => ?_
  rw [Bool.not_eq_true', Bool.eq_false_iff, ne_eq, built.separator]

theorem Built.dropWhile_of_spelt (built : l.Built table) (h : Spelt table w) :
    w.dropWhile l.isLetter = [] := by
  obtain ⟨rows, hr, rfl⟩ := h
  exact List.dropWhile_eq_nil_iff.2 (built.isLetter_of_spelling hr)

theorem Built.tokens_of_word (built : l.Built table) (file : String) {s : Scan} {v : Text}
    (first : WordAt s.rest [] w v) :
    s.tokens l file =
      match w.dropWhile l.isLetter with
      | c :: _ =>
        (.error (.invalidCharacter c file (s.drop (w.takeWhile l.isLetter).length).position),
          s.drop (w.takeWhile l.isLetter).length)
      | [] =>
        match l.spell file w s.position with
        | .error e => (.error e, s.drop w.length)
        | .ok ts =>
          (((s.drop w.length).tokens l file).1.map (ts ++ ·), ((s.drop w.length).tokens l file).2) := by
  obtain ⟨c, w', rfl⟩ := List.exists_cons_of_ne_nil first.nonempty
  have other : l.isSeparator c = false := by
    rw [Bool.eq_false_iff, ne_eq, built.separator]
    exact first.solid c List.mem_cons_self
  have step := Scan.tokens_word file first.text other
  rw [built.word_of_wordAt first] at step
  exact step

theorem Built.tokens_of_spelt (built : l.Built table) (file : String) {s : Scan} {v : Text}
    (first : WordAt s.rest [] w v) (h : Spelt table w) :
    ∃ ts, (s.tokens l file).1 = ((s.drop w.length).tokens l file).1.map (ts ++ ·) := by
  obtain ⟨ts, spelt⟩ := built.spell_of_spelt file s.position h
  refine ⟨ts, ?_⟩
  rw [built.tokens_of_word file first, built.dropWhile_of_spelt h, spelt]

theorem Built.letters_of_dropWhile (built : l.Built table) (h : w.dropWhile l.isLetter = []) :
    ∀ c ∈ w, ∃ r ∈ table, c ∈ r.spelling := fun c hc =>
  (built.letter c).1 (List.dropWhile_eq_nil_iff.1 h c hc)

theorem Built.foreign_of_dropWhile (built : l.Built table) {c : Char} {rest : Text}
    (h : w.dropWhile l.isLetter = c :: rest) : ∀ r ∈ table, c ∉ r.spelling := by
  intro r hr hc
  have stops := List.head?_dropWhile_not l.isLetter w
  rw [h] at stops
  exact Bool.eq_false_iff.1 stops ((built.letter c).2 ⟨r, hr, hc⟩)

theorem Built.tokens_of_unspelt (built : l.Built table) (file : String) {s : Scan} {done v : Text}
    (place : s.position = .past done) (first : WordAt s.rest [] w v) (h : ¬ Spelt table w) :
    ∃ e, Refuses table file done w e ∧ (s.tokens l file).1 = .error e := by
  rw [built.tokens_of_word file first]
  cases left : w.dropWhile l.isLetter with
  | cons c rest =>
    have known : ∀ c ∈ w.takeWhile l.isLetter, ∃ r ∈ table, c ∈ r.spelling := fun c hc =>
      (built.letter c).1 (List.mem_takeWhile_imp hc)
    have whole : w.takeWhile l.isLetter ++ c :: rest = w := by
      rw [← left]
      exact List.takeWhile_append_dropWhile
    have taken : s.rest.take (w.takeWhile l.isLetter).length = w.takeWhile l.isLetter := by
      rw [first.text, List.nil_append]
      exact (List.prefix_iff_eq_take.1 ((List.takeWhile_prefix _).trans (List.prefix_append w v))).symm
    refine ⟨_, .foreign whole.symm known (built.foreign_of_dropWhile left), ?_⟩
    dsimp only
    rw [Scan.past_drop place, taken]
  | nil =>
    cases spelling : l.spell file w s.position with
    | ok ts => exact absurd (built.exists_rows_of_spell spelling) h
    | error e =>
      have known := built.letters_of_dropWhile left
      obtain ⟨spelt, rest, rfl, h, longest, rfl⟩ := built.spell_error spelling
      have line : ∀ c ∈ spelt, c ≠ '\n' := by
        rintro c hc rfl
        exact first.solid _ (List.mem_append_left rest hc) (by decide)
      refine ⟨_, .unspelt known rfl h longest, ?_⟩
      dsimp only
      rw [place, Position.past_append line]

theorem Built.tokens_of_firstUnspelt (built : l.Built table) (file : String) {t b a : Text}
    (h : FirstUnspelt table t b w a) {s : Scan} {done : Text} (rest : s.rest = t)
    (place : s.position = .past done) :
    ∃ e, Refuses table file (done ++ b) w e ∧ (s.tokens l file).1 = .error e := by
  induction t using word_induction generalizing b s done with
  | nil =>
    have empty := h.word.text
    simp only [List.nil_eq, List.append_eq_nil_iff] at empty
    exact absurd empty.2.1 h.word.nonempty
  | blank c t hc ih =>
    obtain ⟨b, rfl, later⟩ := (firstUnspelt_cons_iff hc).1 h
    have place' := Scan.past_drop place 1
    rw [rest] at place'
    obtain ⟨e, refuses, refused⟩ := ih later (by rw [Scan.rest_drop, rest]; rfl) place'
    rw [List.append_assoc] at refuses
    exact ⟨e, refuses, by rw [Scan.tokens_separator file rest ((built.separator c).2 hc), refused]⟩
  | word u v first ih =>
    have here : WordAt s.rest [] u v := rest ▸ first
    by_cases spelt : Spelt table u
    · obtain ⟨b, rfl, later⟩ := (firstUnspelt_append_iff first spelt).1 h
      have place' := Scan.past_drop place u.length
      rw [rest, List.take_left] at place'
      obtain ⟨e, refuses, refused⟩ :=
        ih later (by rw [Scan.rest_drop, rest, List.drop_left]) place'
      rw [List.append_assoc] at refuses
      obtain ⟨ts, passed⟩ := built.tokens_of_spelt file here spelt
      exact ⟨e, refuses, by rw [passed, refused]; rfl⟩
    · obtain ⟨rfl, rfl, _⟩ := (firstUnspelt_iff_of_not_spelt first spelt).1 h
      rw [List.append_nil]
      exact built.tokens_of_unspelt file place here spelt

end Language

/-- A checked language refuses exactly the texts that have a word which is no sequence of spellings,
and the first such word determines the error, whatever follows it. -/
theorem tokenize_error_iff (table : List Row) (l : Language) (h : Language.ofTable table = .ok l)
    (file : String) (t : Text) :
    ((∃ e, l.tokenize file t = .error e) ↔
      ∃ before w after, FirstUnspelt table t before w after) ∧
    ∀ before w after, FirstUnspelt table t before w after →
      ∃ e, (∀ e', Refuses table file before w e' ↔ e' = e) ∧ l.tokenize file t = .error e ∧
        ∀ after' : Text, (∀ c ∈ after'.head?, c ∈ blanks) →
          l.tokenize file (before ++ (w ++ after')) = .error e := by
  have built := Language.built_of_ofTable h
  have refused {u before w after : Text} (first : FirstUnspelt table u before w after) :
      ∃ e, Refuses table file before w e ∧ l.tokenize file u = .error e := by
    have begun : (Scan.start u).position = .past [] := rfl
    exact built.tokens_of_firstUnspelt file first rfl begun
  refine ⟨⟨fun ⟨e, failed⟩ => ?_, fun ⟨before, w, after, first⟩ => ?_⟩, ?_⟩
  · rcases decomposes_or_firstUnspelt table t with ⟨ps, cut⟩ | unspelt
    · have accepted := built.tokens_of_decomposes (s := .start t) file cut
      rw [Language.tokenize, accepted] at failed
      cases failed
    · exact unspelt
  · obtain ⟨e, _, failed⟩ := refused first
    exact ⟨e, failed⟩
  · intro before w after first
    obtain ⟨e, refuses, failed⟩ := refused first
    refine ⟨e, fun e' => ⟨fun other => other.unique refuses, ?_⟩, failed, fun after' closed => ?_⟩
    · rintro rfl
      exact refuses
    · have word := first.word
      have first' : FirstUnspelt table (before ++ (w ++ after')) before w after' :=
        ⟨⟨rfl, word.nonempty, word.solid, word.opened, closed⟩, first.unspelt, first.earlier⟩
      obtain ⟨e', refuses', failed'⟩ := refused first'
      rw [failed', refuses'.unique refuses]

theorem tokenize_error_iff_foreign :
    let before := Command.increment.spelling ++ ['\n']
    let w := ['e', 'ó', 'n', '#', 'e']
    let after := [' ', '?']
    FirstUnspelt Language.standardTable (before ++ (w ++ after)) before w after ∧
      Language.standard.tokenize "marked" (before ++ (w ++ after)) =
        .error (.invalidCharacter '#' "marked" ⟨2, 4⟩) := by
  intro before w after
  have absent : ∀ r ∈ Language.standardTable, '#' ∉ r.spelling := by decide
  have unspelt : ¬ Spelt Language.standardTable w := by
    rintro ⟨rows, hr, text⟩
    have member : '#' ∈ rows.flatMap Row.spelling := by simp [text, w]
    obtain ⟨r, hrow, hc⟩ := List.mem_flatMap.1 member
    exact absent r (hr r hrow) hc
  have spelt : Spelt Language.standardTable Command.increment.spelling :=
    ⟨[⟨Command.increment.spelling, .increment⟩], by decide, by decide⟩
  have marked : WordAt (w ++ after) [] w after :=
    ⟨rfl, by simp [w], by simp [w, blanks], by simp, by simp [after, blanks]⟩
  have plain : WordAt (Command.increment.spelling ++ '\n' :: (w ++ after)) []
      Command.increment.spelling ('\n' :: (w ++ after)) :=
    ⟨rfl, by simp [Command.spelling], by simp [Command.spelling, blanks], by simp, by simp [blanks]⟩
  have first : FirstUnspelt Language.standardTable (before ++ (w ++ after)) before w after := by
    refine (firstUnspelt_append_iff plain spelt).2 ⟨['\n'], rfl, ?_⟩
    refine (firstUnspelt_cons_iff (by decide)).2 ⟨[], rfl, ?_⟩
    exact (firstUnspelt_iff_of_not_spelt marked unspelt).2 ⟨rfl, rfl, rfl⟩
  have letters : ∀ c ∈ ['e', 'ó', 'n'], ∃ r ∈ Language.standardTable, c ∈ r.spelling := by
    simp [Language.standardTable, Command.all, Command.spelling]
  have report : Refuses Language.standardTable "marked" before w
      (.invalidCharacter '#' "marked" (.past (before ++ ['e', 'ó', 'n']))) :=
    .foreign rfl letters absent
  obtain ⟨e, only, failed, _⟩ :=
    (tokenize_error_iff _ _ Language.ofTable_standardTable "marked" _).2 _ _ _ first
  refine ⟨first, ?_⟩
  rw [failed, ← (only _).1 report]
  rfl

end SlangTape
