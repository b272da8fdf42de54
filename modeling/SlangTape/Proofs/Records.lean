import SlangTape.Proofs.IntegerInput

set_option autoImplicit false

namespace SlangTape

/-- A value to be written as a number with the blank that ends it, or as a character. -/
inductive Record where
  | int (v : ℕ) (blank : Char)
  | char (v : ℕ)
  deriving DecidableEq, Repr

namespace Record

def value : Record → ℕ
  | int v _ => v
  | char v => v

def printer : Record → Command
  | int _ _ => .printInt
  | char _ => .printChar

def reader : Record → Command
  | int _ _ => .readInt
  | char _ => .readChar

def ending : Record → Text
  | int _ blank => [blank]
  | char _ => []

/-- A cell can hold the value, a number ends with a blank, and a character is one that can be printed:
no surrogate and not beyond the last plane. -/
def Fits (w : Width) : Record → Prop
  | int v blank => v < 2 ^ w.bits ∧ isBlank blank = true
  | char v => v < 2 ^ w.bits ∧ v ≤ 0x10FFFF ∧ ¬ (0xD800 ≤ v ∧ v < 0xE000)

end Record

/-- Somewhere in some run the command finds the value `v` under the cursor and prints `text`. -/
inductive Prints (cfg : Config) (c : Command) (v : ℕ) (text : Text) : Prop where
  | intro {p : Program} {m u : State} {n : ℕ} (due : p.fetch m.index = .ok (some c))
      (inside : m.tape.cursor < m.tape.size) (value : m.current = v)
      (stepped : m.step cfg p = .next u) (printed : u.events = m.events.push ⟨n, text⟩) :
      Prints cfg c v text

/-- The text is what the records are printed as, with the blanks that end numbers. -/
inductive Encodes (cfg : Config) : List Record → Text → Prop where
  | nil : Encodes cfg [] []
  | cons {r : Record} {rs : List Record} {t u : Text} (printed : Prints cfg r.printer r.value t)
      (later : Encodes cfg rs u) : Encodes cfg (r :: rs) (t ++ r.ending ++ u)

section Printing

variable {cfg : Config} {p : Program} {m u : State} {r : Record} {w : Width}

namespace Record

def printed : Record → Text
  | int v _ => decimal v
  | char v => [Char.ofNat v]

def written (r : Record) : Text := r.printed ++ r.ending

theorem Fits.value_lt (fits : r.Fits w) : r.value < w.capacity := by
  cases r with
  | int v blank => exact fits.1
  | char v => exact fits.1

theorem Fits.isValidChar {v : ℕ} (fits : (char v).Fits w) : v.isValidChar := by
  obtain ⟨_, last, surrogate⟩ := fits
  unfold Nat.isValidChar
  omega

end Record

theorem State.perform_printer (inside : m.tape.cursor < m.tape.size) (fits : r.Fits w)
    (value : m.current = r.value) : m.perform cfg p r.printer = m.emit r.printed := by
  cases r with
  | int v blank =>
    have read : m.tape.read = .ok v := (State.read_eq inside).trans (congrArg _ value)
    simp only [Record.printer, perform, printInt, read, Record.printed]
  | char v =>
    have read : m.tape.read = .ok v := (State.read_eq inside).trans (congrArg _ value)
    have known : character? v = some (Char.ofNat v) := if_pos fits.isValidChar
    simp only [Record.printer, perform, printChar, read, known, Record.printed]

theorem State.events_of_emit {text : Text} (h : m.emit text = .next u) :
    u.events = m.events.push ⟨m.journal.count - 1, text⟩ := by
  unfold emit Sink.take at h
  cases broke : m.sink.breaks m.sink.calls with
  | none =>
    rw [broke] at h
    cases h
    rfl
  | some f =>
    rw [broke] at h
    cases h

def Record.press (cfg : Config) (r : Record) : Program × State :=
  let p : Program := { commands := #[r.printer], locations := #[], jumps := {} }
  (p, { State.start cfg p (.ofText []) {} with tape := (Tape.blank cfg.width 1).store r.value })

theorem Record.Fits.prints (fits : r.Fits cfg.width) : Prints cfg r.printer r.value r.printed := by
  let m := (r.press cfg).2
  have due : (r.press cfg).1.fetch m.index = .ok (some r.printer) := fetch_natCast _ 0
  have inside : m.tape.cursor < m.tape.size := by
    simp [m, press, Tape.size, Tape.store, Tape.blank]
  have value : m.current = r.value := by
    have wrapped := Width.wrap_natCast fits.value_lt
    simpa [m, press, State.current, Tape.cell, Tape.store, Tape.blank] using wrapped
  have stepped : m.step cfg (r.press cfg).1 = m.recorded.emit r.printed := by
    rw [State.step_of_fetch due]
    exact State.perform_printer (m := m.recorded) inside fits value
  exact .intro due inside value stepped rfl

theorem prints_iff (fits : r.Fits cfg.width) (text : Text) :
    Prints cfg r.printer r.value text ↔ text = r.printed := by
  constructor
  · intro h
    cases h with
    | @intro p m u n due inside value stepped printed =>
      rw [State.step_of_fetch due,
        State.perform_printer (m := m.recorded) inside fits value] at stepped
      rw [State.events_of_emit stepped] at printed
      have same := (Array.push_eq_push.1 printed).1
      exact (congrArg Event.text same).symm
  · rintro rfl
    exact fits.prints

theorem encodes_iff {rs : List Record} (fits : ∀ r ∈ rs, r.Fits cfg.width) (text : Text) :
    Encodes cfg rs text ↔ text = rs.flatMap Record.written := by
  induction rs generalizing text with
  | nil =>
    constructor
    · rintro ⟨⟩
      rfl
    · rintro rfl
      exact .nil
  | cons r rs ih =>
    rw [List.forall_mem_cons] at fits
    constructor
    · rintro (_ | ⟨printed, later⟩)
      rw [(prints_iff fits.1 _).1 printed, (ih fits.2 _).1 later]
      rfl
    · rintro rfl
      exact .cons fits.1.prints ((ih fits.2 _).2 rfl)

end Printing

section Reading

variable {cfg : Config} {p : Program} {m u : State} {r : Record} {w : Width} {i : Input} {rest : Text}

theorem isBlank_eq_false_of_isDigit {c : Char} (h : c.isDigit = true) : isBlank c = false := by
  obtain ⟨low, high⟩ := isDigit_iff.1 h
  have low : 0x30 ≤ c.toNat := low
  have high : c.toNat ≤ 0x39 := high
  simp only [isBlank, Bool.or_eq_false_iff, Bool.and_eq_false_iff, decide_eq_false_iff_not,
    beq_eq_false_iff_ne]
  omega

theorem integer_decimal {v : ℕ} (h : v < w.capacity) : Input.integer (decimal v) = .ok v := by
  have bound : v < 10 ^ 10 := by
    cases w <;> exact Nat.lt_trans h (by decide)
  have short : (decimal v).length ≤ 10 := (Nat.length_toDigits_le_iff (by decide) (by decide)).2 bound
  have converted : ¬ Failure.maxDigits < (decimal v).length := by
    unfold Failure.maxDigits
    omega
  rw [Input.integer, Numeral.ofText?_decimal]
  simp only [if_neg converted, Numeral.value_decimal]

theorem State.received?_reader (feeds : m.input.Feeds (r.written ++ rest)) (fits : r.Fits w) :
    m.received? r.reader = some (.ok (some (r.value : ℤ)), m.input.after r.written.length) := by
  cases r with
  | int v blank =>
    have solid : ∀ d ∈ decimal v, isBlank d = false := fun d hd =>
      isBlank_eq_false_of_isDigit (List.all_eq_true.1 (Numeral.all_isDigit_decimal v) d hd)
    have feeds : m.input.Feeds (decimal v ++ blank :: rest) := by
      simpa [Record.written, Record.printed, Record.ending] using feeds
    have read := feeds.readToken?_word solid Nat.toDigits_ne_nil fits.2
    have length : (Record.int v blank).written.length = (decimal v).length + 1 := by
      simp [Record.written, Record.printed, Record.ending]
    rw [length]
    show m.input.readInt? = _
    rw [Input.readInt?_eq, read, Option.map_some, Input.integerOf,
      integer_decimal (v := v) fits.value_lt]
    rfl
  | char v =>
    have point : (Char.ofNat v).toNat = v := by
      rw [Char.ofNat, dif_pos fits.isValidChar]
      rfl
    have read : m.input.readChar = (.ok (some [Char.ofNat v]), m.input.after 1) := feeds.readChar_eq
    show some m.input.readPoint = _
    rw [Input.readPoint, read]
    show some (Except.ok (some ((Char.ofNat v).toNat : ℤ)), m.input.after 1) = _
    rw [point]
    rfl

theorem State.step_reader (sound : m.Sound cfg p) (due : p.fetch m.index = .ok (some r.reader))
    (feeds : m.input.Feeds (r.written ++ rest)) (fits : r.Fits cfg.width) :
    ∃ u, m.step cfg p = .next u ∧ Stores r.value m u ∧
      u.input = m.input.after r.written.length := by
  have received : m.recorded.received? r.reader = _ :=
    received?_reader (m := m.recorded) feeds fits
  have small : (r.value : ℤ) < 2 ^ cfg.width.bits := by exact_mod_cast fits.value_lt
  have stores := stores_stored sound.tape r.written.length r.value
  rw [Int.emod_eq_of_lt (Int.natCast_nonneg _) small] at stores
  refine ⟨_, ?_, stores, rfl⟩
  rw [step_of_fetch due, perform_received received, accept]
  exact congrArg _ (write_eq (s := m) sound.tape.inside _)

end Reading

/-- The input is at the place of the text from which on these records are left. -/
def Awaits (text : Text) (left : List Record) (i : Input) : Prop :=
  ∃ used, text = used ++ left.flatMap Record.written ∧ i = (Input.ofText text).after used.length

namespace Awaits

variable {text : Text} {r : Record} {rs : List Record} {i : Input}

theorem start (rs : List Record) :
    Awaits (rs.flatMap Record.written) rs (.ofText (rs.flatMap Record.written)) :=
  ⟨[], rfl, rfl⟩

theorem feeds (h : Awaits text rs i) : i.Feeds (rs.flatMap Record.written) := by
  obtain ⟨used, rfl, rfl⟩ := h
  have left := (Input.feeds_ofText (used ++ rs.flatMap Record.written)).after used.length
  rwa [List.drop_left] at left

theorem next (h : Awaits text (r :: rs) i) : Awaits text rs (i.after r.written.length) := by
  obtain ⟨used, rfl, rfl⟩ := h
  refine ⟨used ++ r.written, by simp, ?_⟩
  rw [Input.after_after, List.length_append]

theorem exhausted (h : Awaits text [] i) : i = (Input.ofText text).after text.length := by
  obtain ⟨used, rfl, rfl⟩ := h
  simp

end Awaits

def Command.reads : Command → Bool
  | .readChar => true
  | .readInt => true
  | _ => false

/-- The reading commands that the observed steps performed, in order. -/
def Program.readsOf (p : Program) (seen : Array Observation) : List Command :=
  (seen.toList.filterMap fun o => (p.fetch o.index).toOption.join).filter Command.reads

section Runs

variable {cfg : Config} {p : Program} {m t : State} {c : Command} {text : Text} {n : ℕ}
  {seen : Array Observation}

theorem readsOf_push (due : p.fetch m.index = .ok (some c)) :
    p.readsOf (seen.push m.observed) = p.readsOf seen ++ if c.reads then [c] else [] := by
  have here : (p.fetch m.observed.index).toOption.join = some c := by
    rw [show m.observed.index = m.index from rfl, due]
    rfl
  by_cases read : c.reads = true <;> simp [Program.readsOf, here, read]

/-- As long as the reads match the records, the input is at the place of the next one, whatever else the
program does between them. -/
theorem State.Sound.awaits_reaches (sound : m.Sound cfg p) (resolved : p.Resolved)
    {done left : List Record} (fits : ∀ r ∈ done, r.Fits cfg.width)
    (awaits : Awaits text (done ++ left) m.input) (reached : Reaches cfg p m n t)
    (reads : p.readsOf (m.traceFor cfg p n #[]) = done.map Record.reader) :
    Awaits text left t.input := by
  induction n generalizing t done left with
  | zero =>
    cases reached
    have none : done = [] := List.map_eq_nil_iff.1 reads.symm
    rwa [none] at awaits
  | succ n ih =>
    obtain ⟨u, reached, stepped⟩ := reached.exists_last
    have sound' : u.Sound cfg p := sound.reaches resolved reached
    obtain ⟨c, due, _⟩ := step_eq_next stepped
    rw [reached.traceFor_add 1, traceFor_of_next stepped, traceFor, readsOf_push due] at reads
    by_cases read : c.reads = true
    · -- The last read is of the last record that is done.
      rw [if_pos read] at reads
      obtain ⟨before, last, rfl, earlier, single⟩ := List.map_eq_append_iff.1 reads.symm
      obtain ⟨r, rfl, rfl⟩ := List.map_eq_singleton_iff.1 single
      have awaits' : Awaits text (r :: left) u.input := by
        refine ih (fun r' h => fits r' (List.mem_append_left _ h)) ?_ reached earlier.symm
        simpa using awaits
      have feeds := awaits'.feeds
      rw [List.flatMap_cons] at feeds
      obtain ⟨t', stepped', _, input⟩ := step_reader sound' due feeds (fits r (by simp))
      rw [stepped] at stepped'
      cases stepped'
      rw [input]
      exact awaits'.next
    · rw [if_neg read, List.append_nil] at reads
      have same : (u.step cfg p).state.input = u.input := by
        apply u.input_step
        · rw [due]
          rintro ⟨⟩
          exact read rfl
        · rw [due]
          rintro ⟨⟩
          exact read rfl
      rw [stepped] at same
      have there : t.input = u.input := same
      rw [there]
      exact ih fits awaits reached reads

theorem Record.resolvable_readers (rs : List Record) : Resolvable (rs.map Record.reader) := by
  have noSkip : Command.skip ∉ rs.map reader := by
    simp only [List.mem_map, not_exists, not_and]
    rintro (⟨v, blank⟩ | v) _ <;> nofun
  apply Balanced.resolvable _ noSkip
  induction rs with
  | nil => exact balanced_nil
  | cons r rs ih =>
    have first : Balanced [r.reader] := by
      cases r <;> exact balanced_singleton nofun nofun
    exact first.append (ih fun h => noSkip (List.mem_cons_of_mem _ h))

theorem State.Sound.reaches_readers {done left : List Record} (sound : m.Sound cfg p)
    (resolved : p.Resolved) (fits : ∀ r ∈ left, r.Fits cfg.width)
    (commands : p.commands.toList = (done ++ left).map Record.reader) (index : m.index = done.length)
    (awaits : Awaits text left m.input) :
    ∃ t, Reaches cfg p m left.length t ∧ p.fetch t.index = .ok none ∧ Awaits text [] t.input ∧
      ∀ i r, left[i]? = some r →
        ∃ u v, Reaches cfg p m i u ∧ u.step cfg p = .next v ∧ Stores r.value u v := by
  induction left generalizing done m with
  | nil =>
    refine ⟨m, .refl m, ?_, awaits, fun i r h => by simp at h⟩
    rw [index, fetch_natCast, commands]
    simp
  | cons r left ih =>
    have due : p.fetch m.index = .ok (some r.reader) := by
      rw [index, fetch_natCast, commands]
      simp
    have feeds := awaits.feeds
    rw [List.flatMap_cons] at feeds
    obtain ⟨u, stepped, stores, input⟩ := step_reader sound due feeds (fits r List.mem_cons_self)
    have commands' : p.commands.toList = (done ++ [r] ++ left).map Record.reader := by
      rw [commands]
      simp
    have index' : u.index = (done ++ [r]).length := by
      rw [stores.index, index, List.length_append]
      rfl
    have awaits' : Awaits text left u.input := by
      rw [input]
      exact awaits.next
    obtain ⟨t, reached, atEnd, finished, each⟩ := ih (sound.next resolved stepped)
      (fun r' h => fits r' (List.mem_cons_of_mem r h)) commands' index' awaits'
    refine ⟨t, .next stepped reached, atEnd, finished, fun i r' h => ?_⟩
    cases i with
    | zero =>
      cases h
      exact ⟨m, u, .refl m, stepped, stores⟩
    | succ i =>
      obtain ⟨a, b, reached', stepped', stores'⟩ := each i r' h
      exact ⟨a, b, .next stepped reached', stepped', stores'⟩

end Runs

/-- Records that fit the cells are written as one text and no other. Fed with that text one character a
call, the readers of the records store the values in order and leave nothing unread. They do so also as
part of any program, as long as the reads that it makes are those of the records, whatever it does
between them. -/
theorem reading_undoes_printing (cfg : Config) (rs : List Record)
    (fits : ∀ r ∈ rs, r.Fits cfg.width) :
    ∃ text, (∀ t, Encodes cfg rs t ↔ t = text) ∧
      (∀ (file : String) (ts : List Token) (sink : Sink),
        ts.map Token.command = rs.map Record.reader →
          ∃ p m, Program.ofTokens file ts = .ok p ∧
            let start := State.start cfg p (.ofText text) sink
            start.runFor cfg p rs.length = (some .finished, m) ∧
            m.input.answers = [] ∧ m.input.calls = text.length ∧
            ∀ i r, rs[i]? = some r → ∃ t u, Reaches cfg p start i t ∧ t.step cfg p = .next u ∧
              Stores r.value t u) ∧
      ∀ (file : String) (ts : List Token) (p : Program) (sink : Sink) (n : ℕ) (t : State),
        Program.ofTokens file ts = .ok p →
          let start := State.start cfg p (.ofText text) sink
          let reads := p.readsOf (start.traceFor cfg p n #[])
          Reaches cfg p start n t →
            (∀ done r left, rs = done ++ r :: left → reads = done.map Record.reader →
              p.fetch t.index = .ok (some r.reader) →
                ∃ u, t.step cfg p = .next u ∧ Stores r.value t u) ∧
            (reads = rs.map Record.reader →
              t.input.answers = [] ∧ t.input.calls = text.length) := by
  let text := rs.flatMap Record.written
  have unread {i : Input} (h : Awaits text [] i) : i.answers = [] ∧ i.calls = text.length := by
    rw [h.exhausted]
    simp [Input.after, Input.ofText]
  refine ⟨text, encodes_iff fits, fun file ts sink readers => ?_, fun file ts p sink n t accepted => ?_⟩
  · have resolvable := Record.resolvable_readers rs
    rw [← readers] at resolvable
    obtain ⟨p, accepted, commands⟩ := exists_ofTokens file resolvable
    have all : p.commands.toList = ([] ++ rs).map Record.reader := commands.trans readers
    have sound := State.sound_start cfg p (.ofText text) sink
    obtain ⟨m, reached, atEnd, finished, each⟩ :=
      sound.reaches_readers (resolved_of_ofTokens accepted) fits all rfl (.start rs)
    obtain ⟨answers, calls⟩ := unread finished
    exact ⟨p, m, accepted, reached.runFor_of_finish atEnd le_rfl, answers, calls, each⟩
  · intro start reads reached
    have sound : start.Sound cfg p := State.sound_start cfg p (.ofText text) sink
    have resolved := resolved_of_ofTokens accepted
    have awaited (done left : List Record) (split : rs = done ++ left)
        (matched : reads = done.map Record.reader) : Awaits text left t.input := by
      subst split
      exact sound.awaits_reaches resolved (fun r h => fits r (List.mem_append_left left h))
        (.start (done ++ left)) reached matched
    refine ⟨fun done r left split matched due => ?_, fun matched => ?_⟩
    · have feeds := (awaited done (r :: left) split matched).feeds
      rw [List.flatMap_cons] at feeds
      have fit : r.Fits cfg.width := fits r (by simp [split])
      obtain ⟨u, stepped, stores, _⟩ :=
        State.step_reader (sound.reaches resolved reached) due feeds fit
      exact ⟨u, stepped, stores⟩
    · exact unread (awaited rs [] (List.append_nil rs).symm matched)

theorem reading_undoes_printing_blank_characters :
    let rs : List Record := [.int 255 ' ', .char 32, .int 7 '\n', .char 53, .char 45, .int 0 '\t']
    let text : Text := ['2', '5', '5', ' ', ' ', '7', '\n', '5', '-', '0', '\t']
    (∀ r ∈ rs, r.Fits .bits8) ∧ Encodes {} rs text ∧
      ∃ p m, Program.ofTokens "read" (rs.map fun r => ⟨r.reader, .start⟩) = .ok p ∧
        (State.start {} p (.ofText text) {}).runFor {} p 6 = (some .finished, m) ∧
        m.input.answers = [] := by
  intro rs text
  have fits : ∀ r ∈ rs, r.Fits .bits8 := by
    simp [rs, Record.Fits, Width.bits, isBlank]
  obtain ⟨text', written, alone, _⟩ := reading_undoes_printing {} rs fits
  have encodes : Encodes {} rs text := (encodes_iff fits text).2 (by decide)
  obtain rfl : text = text' := (written text).1 encodes
  obtain ⟨p, m, accepted, ran, answers, _⟩ := alone "read" (rs.map fun r => ⟨r.reader, .start⟩) {} rfl
  exact ⟨fits, encodes, p, m, accepted, ran, answers⟩

end SlangTape
