import SlangTape.Proofs.Refusal
import SlangTape.Proofs.Relocation

set_option autoImplicit false

namespace SlangTape

/-- The scan of a text on which `n` calls have been made. -/
def Scan.resumed (l : Language) (file : String) (t : Text) : ℕ → Scan
  | 0 => .start t
  | n + 1 => ((resumed l file t n).tokens l file).2

/-- The scan has read the text up to its index, and stands at the place of this index. -/
structure Scan.On (t : Text) (s : Scan) : Prop where
  index_le : s.index ≤ t.length
  rest : s.rest = t.drop s.index
  position : s.position = .past (t.take s.index)

namespace Scan

variable {t : Text} {s : Scan}

theorem on_start (t : Text) : (start t).On t where
  index_le := Nat.zero_le _
  rest := rfl
  position := rfl

theorem On.next {c : Char} {cs : Text} (h : s.On t) (split : s.rest = c :: cs) :
    On t ⟨cs, s.index + 1, s.position.after c⟩ := by
  have here : t.drop s.index = c :: cs := h.rest.symm.trans split
  have inside : s.index < t.length := by
    rw [← List.drop_eq_nil_iff.not.trans Nat.not_le, here]
    exact List.cons_ne_nil c cs
  rw [List.drop_eq_getElem_cons inside] at here
  obtain ⟨first, later⟩ := List.cons.inj here
  refine ⟨inside, later.symm, ?_⟩
  rw [List.take_succ_eq_append_getElem inside, Position.past_concat, first, h.position]

theorem On.drop (h : s.On t) (n : ℕ) : (s.drop n).On t ∧ s.index ≤ (s.drop n).index := by
  induction n generalizing s with
  | zero => exact ⟨h, Nat.le_refl _⟩
  | succ n ih =>
    rw [Scan.drop]
    split
    · exact ⟨h, Nat.le_refl _⟩
    · next c cs split =>
      obtain ⟨on, later⟩ := ih (h.next split)
      exact ⟨on, (Nat.le_succ s.index).trans later⟩

theorem drop_drop (s : Scan) (m n : ℕ) : (s.drop m).drop n = s.drop (m + n) := by
  induction m generalizing s with
  | zero => rw [Nat.zero_add, drop]
  | succ m ih =>
    rw [Nat.add_right_comm, drop, drop]
    split
    · next empty =>
      cases n with
      | zero => rfl
      | succ n => rw [drop, empty]
    · exact ih _

theorem exists_drop_of_tokens (l : Language) (file : String) (s : Scan) :
    ∃ n, (s.tokens l file).2 = s.drop n := by
  induction s using scan_induction (l := l) with
  | nil s empty => exact ⟨0, by rw [tokens_nil l file empty]; rfl⟩
  | separator s c cs split stop ih =>
    obtain ⟨n, left⟩ := ih
    exact ⟨1 + n, by rw [tokens_separator file split stop, left, drop_drop]⟩
  | word s c cs split stop ih =>
    obtain ⟨n, left⟩ := ih
    rw [tokens_word file split stop]
    cases (l.word s.rest).dropWhile l.isLetter with
    | cons bad rest => exact ⟨_, rfl⟩
    | nil =>
      cases l.spell file (l.word s.rest) s.position with
      | error e => exact ⟨_, rfl⟩
      | ok ts => exact ⟨_, left.trans (drop_drop s _ n)⟩

theorem on_resumed (l : Language) (file : String) (t : Text) (n : ℕ) : (resumed l file t n).On t := by
  induction n with
  | zero => exact on_start t
  | succ n ih =>
    obtain ⟨k, left⟩ := exists_drop_of_tokens l file (resumed l file t n)
    rw [resumed, left]
    exact (ih.drop k).1

theorem index_resumed_le (l : Language) (file : String) (t : Text) (n : ℕ) :
    (resumed l file t n).index ≤ (resumed l file t (n + 1)).index := by
  obtain ⟨k, left⟩ := exists_drop_of_tokens l file (resumed l file t n)
  rw [resumed, left]
  exact ((on_resumed l file t n).drop k).2

theorem tokens_resumed_of_fixed {l : Language} {file : String} {n : ℕ}
    {r : Except ParseError (List Token)}
    (h : (resumed l file t n).tokens l file = (r, resumed l file t n)) {m : ℕ} (hm : n ≤ m) :
    (resumed l file t m).tokens l file = (r, resumed l file t n) := by
  have same : resumed l file t m = resumed l file t n := by
    induction m, hm using Nat.le_induction with
    | base => rfl
    | succ m _ ih => rw [resumed, ih, h]
  rw [same, h]

end Scan

/-- Where a call stops that began after `done`, with the text `t` before it. -/
inductive Stops (table : List Row) (file : String) (done t : Text) :
    Except ParseError (List Token) → Scan → Prop where
  | finished {s : Scan} (ts : List Token) (h : s.rest = []) : Stops table file done t (.ok ts) s
  | foreign {s : Scan} {c : Char} {rest : Text} (h : s.rest = c :: rest) (solid : c ∉ blanks)
      (other : ∀ r ∈ table, c ∉ r.spelling) :
      Stops table file done t (.error (.invalidCharacter c file s.position)) s
  | unspelt {s : Scan} {before spelt u : Text} (word : WordAt t before (spelt ++ u) s.rest)
      (letters : ∀ c ∈ spelt ++ u, ∃ r ∈ table, c ∈ r.spelling) :
      Stops table file done t (.error (.unknownCommand u file (.past (done ++ before ++ spelt)))) s

namespace Stops

variable {table : List Row} {file : String} {done t u v : Text} {s : Scan}
  {r : Except ParseError (List Token)}

theorem blank {c : Char} (hc : c ∈ blanks) (h : Stops table file (done ++ [c]) t r s) :
    Stops table file done (c :: t) r s := by
  cases h with
  | finished ts empty => exact .finished ts empty
  | foreign rest solid other => exact .foreign rest solid other
  | @unspelt _ before spelt u word letters =>
    rw [List.append_assoc done, List.singleton_append]
    exact .unspelt ((wordAt_cons_iff hc).2 ⟨before, rfl, word⟩) letters

theorem word (first : WordAt (u ++ v) [] u v) (ts : List Token)
    (h : Stops table file (done ++ u) v r s) :
    Stops table file done (u ++ v) (r.map (ts ++ ·)) s := by
  cases h with
  | finished ts' empty => exact .finished (ts ++ ts') empty
  | foreign rest solid other => exact .foreign rest solid other
  | @unspelt _ before spelt w word letters =>
    rw [List.append_assoc done]
    exact .unspelt ((wordAt_append_iff first).2 (.inr ⟨before, rfl, word⟩)) letters

end Stops

namespace Language

variable {l : Language} {table : List Row}

theorem Built.stops (built : l.Built table) (file : String) {t : Text} {s : Scan} {done : Text}
    (rest : s.rest = t) (place : s.position = .past done) :
    Stops table file done t (s.tokens l file).1 (s.tokens l file).2 := by
  induction t using word_induction generalizing s done with
  | nil =>
    rw [Scan.tokens_nil l file rest]
    exact .finished [] rest
  | blank c t hc ih =>
    have place' := Scan.past_drop place 1
    rw [rest] at place'
    rw [Scan.tokens_separator file rest ((built.separator c).2 hc)]
    exact (ih (by rw [Scan.rest_drop, rest]; rfl) place').blank hc
  | word u v first ih =>
    have here : WordAt s.rest [] u v := rest ▸ first
    rw [built.tokens_of_word file here]
    cases left : u.dropWhile l.isLetter with
    | cons c known =>
      have found : c ∈ u := (List.dropWhile_suffix l.isLetter).mem (by rw [left]; exact List.mem_cons_self)
      have remains : (s.drop (u.takeWhile l.isLetter).length).rest = c :: (known ++ v) := by
        have split := List.takeWhile_append_dropWhile (p := l.isLetter) (l := u)
        rw [left] at split
        rw [Scan.rest_drop, rest]
        nth_rewrite 2 [← split]
        rw [List.append_assoc, List.drop_left, List.cons_append]
      exact .foreign remains (first.solid c found) (built.foreign_of_dropWhile left)
    | nil =>
      have remains : (s.drop u.length).rest = v := by rw [Scan.rest_drop, rest, List.drop_left]
      have letters := built.letters_of_dropWhile left
      cases spelling : l.spell file u s.position with
      | error e =>
        obtain ⟨spelt, w, rfl, _, _, rfl⟩ := built.spell_error spelling
        have line : ∀ c ∈ spelt, c ≠ '\n' := by
          rintro c hc rfl
          exact first.solid _ (List.mem_append_left w hc) (by decide)
        have word : WordAt (spelt ++ w ++ v) [] (spelt ++ w) (s.drop (spelt ++ w).length).rest := by
          rw [remains]
          exact first
        have begun : done ++ spelt = done ++ [] ++ spelt := by rw [List.append_nil]
        rw [place, ← Position.past_append line, begun]
        exact .unspelt word letters
      | ok ts =>
        have place' := Scan.past_drop place u.length
        rw [rest, List.take_left] at place'
        exact (ih remains place').word first ts

theorem Built.tokens_of_foreign (built : l.Built table) (file : String) {s : Scan} {c : Char}
    {rest : Text} (h : s.rest = c :: rest) (solid : c ∉ blanks) (other : ∀ r ∈ table, c ∉ r.spelling) :
    s.tokens l file = (.error (.invalidCharacter c file s.position), s) := by
  have word : l.isSeparator c = false := by rwa [Bool.eq_false_iff, ne_eq, built.separator]
  have foreign : l.isLetter c = false := by
    rw [Bool.eq_false_iff, ne_eq, built.letter]
    rintro ⟨r, hr, hc⟩
    exact other r hr hc
  rw [Scan.tokens_word file h word, h]
  simp [Language.word, word, foreign, Scan.drop]

end Language

namespace Text

variable {t u v b w a : Text} {c : Char}

/-- The words of a source text, in order. -/
def runs (t : Text) : List Text := (t.splitOnP (· ∈ blanks)).filter (!·.isEmpty)

theorem runs_append_cons (hc : c ∈ blanks) (u v : Text) : runs (u ++ c :: v) = runs u ++ runs v := by
  rw [runs, List.splitOnP_append_cons u v (by simpa using hc), List.filter_append]
  rfl

theorem runs_cons (hc : c ∈ blanks) (t : Text) : runs (c :: t) = runs t :=
  runs_append_cons hc [] t

theorem runs_append (first : WordAt (u ++ v) [] u v) : runs (u ++ v) = u :: runs v := by
  have alone : runs u = [u] := by
    rw [runs, List.splitOnP_eq_singleton (by simpa using first.solid)]
    simp [first.nonempty]
  cases v with
  | nil =>
    rw [List.append_nil, alone]
    rfl
  | cons c v =>
    have hc := first.closed c rfl
    rw [runs_append_cons hc, alone, runs_cons hc]
    rfl

theorem length_runs_le_cons (c : Char) (t : Text) : (runs t).length ≤ (runs (c :: t)).length := by
  by_cases hc : c ∈ blanks
  · rw [runs_cons hc]
  · -- The character goes to the first part, which is counted if it was empty before.
    rw [runs, runs, List.splitOnP_cons_eq_if_modifyHead, if_neg (by simpa using hc)]
    cases t.splitOnP (· ∈ blanks) with
    | nil => exact Nat.le_refl _
    | cons w ws => cases w <;> simp

theorem length_runs_le (h : v <:+ t) : (runs v).length ≤ (runs t).length := by
  obtain ⟨u, rfl⟩ := h
  induction u with
  | nil => exact Nat.le_refl _
  | cons c u ih => exact ih.trans (length_runs_le_cons c (u ++ v))

theorem length_runs_lt (h : WordAt t b w a) : (runs a).length < (runs t).length := by
  have first : WordAt (w ++ a) [] w a := ⟨rfl, h.nonempty, h.solid, by simp, h.closed⟩
  have later := length_runs_le (t := t) (v := w ++ a) ⟨b, h.text.symm⟩
  rwa [runs_append first, List.length_cons] at later

end Text

def refusesWord : Except ParseError (List Token) → Bool
  | .error (.unknownCommand _ _ _) => true
  | _ => false

/-- No word goes on at the scan, unless it goes on with a foreign character. -/
def Scan.Paused (table : List Row) (s : Scan) : Prop :=
  ∀ c ∈ s.rest.head?, c ∈ blanks ∨ ∀ r ∈ table, c ∉ r.spelling

section Calls

variable {table : List Row} {file : String} {l : Language} {t : Text} {s : Scan}

theorem Stops.paused {done : Text} {r : Except ParseError (List Token)}
    (h : Stops table file done t r s) : s.Paused table := by
  cases h with
  | finished _ empty =>
    intro c head
    rw [empty] at head
    cases head
  | foreign rest _ other =>
    intro c head
    rw [rest] at head
    cases head
    exact .inr other
  | unspelt word => exact fun c head => .inl (word.closed c head)

theorem Scan.On.stops (on : s.On t) (built : l.Built table) (file : String) :
    Stops table file (t.take s.index) (t.drop s.index) (s.tokens l file).1 (s.tokens l file).2 :=
  built.stops file on.rest on.position

theorem Scan.On.wordAt (on : s.On t) (edge : s.index = 0 ∨ s.Paused table) {b w a : Text}
    (h : WordAt (t.drop s.index) b w a) (letters : ∀ c ∈ w, ∃ r ∈ table, c ∈ r.spelling) :
    WordAt t (t.take s.index ++ b) w a := by
  refine ⟨?_, h.nonempty, h.solid, fun c last => ?_, h.closed⟩
  · rw [List.append_assoc, ← h.text, List.take_append_drop]
  · cases found : b.getLast? with
    | some d =>
      rw [List.getLast?_append, found] at last
      cases last
      exact h.opened c found
    | none =>
      obtain rfl := List.getLast?_eq_none_iff.1 found
      rcases edge with start | paused
      · simp [start] at last
      · obtain ⟨d, w', rfl⟩ := List.exists_cons_of_ne_nil h.nonempty
        have head : d ∈ s.rest.head? := by
          rw [on.rest, h.text]
          rfl
        rcases paused d head with blank | foreign
        · exact absurd blank (h.solid d List.mem_cons_self)
        · obtain ⟨r, hr, hd⟩ := letters d List.mem_cons_self
          exact absurd hd (foreign r hr)

theorem Scan.On.index_eq (on : s.On t) {b w : Text} (h : WordAt t b w s.rest) :
    s.index = (b ++ w).length := by
  have length := congrArg List.length h.text
  have inside := on.index_le
  rw [on.rest, ← List.append_assoc, List.length_append, List.length_drop] at length
  omega

theorem Scan.resumed_edge (built : l.Built table) (file : String) (t : Text) (n : ℕ) :
    (resumed l file t n).index = 0 ∨ (resumed l file t n).Paused table := by
  cases n with
  | zero => exact .inl rfl
  | succ n => exact .inr ((on_resumed l file t n).stops built file).paused

theorem Scan.length_runs_tokens (built : l.Built table) (on : s.On t) (file : String) :
    (if refusesWord (s.tokens l file).1 then 1 else 0) + (Text.runs (s.tokens l file).2.rest).length ≤
      (Text.runs s.rest).length := by
  have stops := on.stops built file
  rw [← on.rest] at stops
  obtain ⟨k, left⟩ := exists_drop_of_tokens l file s
  have fewer : (Text.runs (s.tokens l file).2.rest).length ≤ (Text.runs s.rest).length := by
    rw [left, rest_drop]
    exact Text.length_runs_le (List.drop_suffix k s.rest)
  generalize (s.tokens l file).1 = r at stops
  cases stops with
  | finished => simpa [refusesWord] using fewer
  | foreign => simpa [refusesWord] using fewer
  | unspelt word =>
    have lost := Text.length_runs_lt word
    simp only [refusesWord, if_true]
    omega

theorem Scan.count_refusesWord_le (built : l.Built table) (file : String) (t : Text) (n : ℕ) :
    (List.range n).countP (fun m => refusesWord ((resumed l file t m).tokens l file).1) +
      (Text.runs (resumed l file t n).rest).length ≤ (Text.runs t).length := by
  induction n with
  | zero => exact Nat.le_of_eq (Nat.zero_add _)
  | succ n ih =>
    have step := length_runs_tokens built (on_resumed l file t n) file
    rw [List.range_succ, List.countP_append, List.countP_singleton, resumed]
    omega

end Calls

/-- Each call goes on where the one before stopped, and says what a new scan of the rest would say, with
the places counted from there. A call that succeeds has come to the end of the text, where all later
calls find nothing. A foreign character stops every later call in the same way. Past a word that is no
sequence of spellings the scan goes on, so that there are not more such results than words. -/
theorem resumed_calls (table : List Row) (l : Language) (h : Language.ofTable table = .ok l)
    (file : String) (t : Text) :
    (∀ n,
      let s := Scan.resumed l file t n
      let r := (s.tokens l file).1
      let s' := Scan.resumed l file t (n + 1)
      s.index ≤ s'.index ∧ s'.index ≤ t.length ∧ s'.position = .past (t.take s'.index) ∧
      r = s.position.movedResult (l.tokenize file (t.drop s.index)) ∧
      (∀ ts, r = .ok ts → s'.index = t.length ∧
        ∀ m, n < m → (Scan.resumed l file t m).tokens l file = (.ok [], s')) ∧
      (∀ c file' p, r = .error (.invalidCharacter c file' p) →
        t[s'.index]? = some c ∧ p = s'.position ∧
        ∀ m, n < m → (Scan.resumed l file t m).tokens l file = (r, s')) ∧
      (∀ u file' p, r = .error (.unknownCommand u file' p) →
        ∃ before spelt after, WordAt t before (spelt ++ u) after ∧ p = .past (before ++ spelt) ∧
          s'.index = (before ++ (spelt ++ u)).length) ∧
      ∀ kind index location, r ≠ .error (.unmatchedLoop kind index location)) ∧
    ∀ n, (List.range n).countP (fun m => refusesWord ((Scan.resumed l file t m).tokens l file).1) ≤
      (Text.runs t).length := by
  have built := Language.built_of_ofTable h
  refine ⟨fun n => ?_, fun n => ?_⟩
  · intro s r s'
    have on : s.On t := Scan.on_resumed l file t n
    have on' : s'.On t := Scan.on_resumed l file t (n + 1)
    have stops : Stops table file (t.take s.index) (t.drop s.index) r s' := on.stops built file
    have later {q : Except ParseError (List Token)} (fixed : s'.tokens l file = (q, s')) :
        ∀ m, n < m → (Scan.resumed l file t m).tokens l file = (q, s') :=
      fun m hm => Scan.tokens_resumed_of_fixed fixed hm
    refine ⟨Scan.index_resumed_le l file t n, on'.index_le, on'.position, ?_, ?_, ?_, ?_, ?_⟩
    · rw [← on.rest]
      exact s.tokens_eq_moved l file
    · intro ts accepted
      rw [accepted] at stops
      cases stops with
      | finished _ empty =>
        have past := List.drop_eq_nil_iff.1 (on'.rest.symm.trans empty)
        exact ⟨Nat.le_antisymm on'.index_le past, later (Scan.tokens_nil l file empty)⟩
    · intro c file' p refused
      rw [refused] at stops ⊢
      cases stops with
      | foreign rest solid other =>
        refine ⟨?_, rfl, later (built.tokens_of_foreign file rest solid other)⟩
        rw [← List.head?_drop, ← on'.rest, rest]
        rfl
    · intro u file' p refused
      rw [refused] at stops
      cases stops with
      | @unspelt _ b spelt _ word letters =>
        have whole := on.wordAt (Scan.resumed_edge built file t n) word letters
        exact ⟨t.take s.index ++ b, spelt, s'.rest, whole, rfl, on'.index_eq whole⟩
    · intro kind index location refused
      rw [refused] at stops
      cases stops
  · exact (Nat.le_add_right _ _).trans (Scan.count_refusesWord_le built file t n)

theorem resumed_calls_past_word :
    let t : Text := ['p', 'u', ' ', '\n', '#']
    let s := Scan.resumed .standard "twice" t
    ((s 0).tokens .standard "twice").1 = .error (.unknownCommand ['p', 'u'] "twice" ⟨1, 1⟩) ∧
    (s 1).index = 2 ∧
    ((s 1).tokens .standard "twice").1 = .error (.invalidCharacter '#' "twice" ⟨2, 1⟩) ∧
    ∀ m, 1 < m → (s m).tokens .standard "twice" =
      (.error (.invalidCharacter '#' "twice" ⟨2, 1⟩), s 2) := by
  intro t s
  have first : ((s 0).tokens .standard "twice").1 = .error (.unknownCommand ['p', 'u'] "twice" ⟨1, 1⟩) := by
    decide +kernel
  have second : ((s 1).tokens .standard "twice").1 = .error (.invalidCharacter '#' "twice" ⟨2, 1⟩) := by
    decide +kernel
  have calls := (resumed_calls _ _ Language.ofTable_standardTable "twice" t).1
  obtain ⟨_, _, later⟩ := (calls 1).2.2.2.2.2.1 _ _ _ second
  exact ⟨first, by decide +kernel, second, fun m hm => (later m hm).trans (congrArg (·, s 2) second)⟩

end SlangTape
