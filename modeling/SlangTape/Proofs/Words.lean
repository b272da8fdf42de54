import SlangTape.Proofs.Decomposition

set_option autoImplicit false

namespace SlangTape

/-- A word is a run of characters other than separators that cannot be made longer. -/
structure WordAt (t before w after : Text) : Prop where
  text : t = before ++ (w ++ after)
  nonempty : w ≠ []
  solid : ∀ c ∈ w, c ∉ blanks
  opened : ∀ c ∈ before.getLast?, c ∈ blanks
  closed : ∀ c ∈ after.head?, c ∈ blanks

section Words

variable {t u v b w a : Text} {c : Char}

theorem WordAt.takeWhile_eq (h : WordAt t [] w a) {p : Char → Bool}
    (hp : ∀ c, p c = true ↔ c ∉ blanks) : t.takeWhile p = w := by
  have stop : a.takeWhile p = [] := by
    cases a with
    | nil => rfl
    | cons d a =>
      have blank := h.closed d rfl
      simp [hp, blank]
  rw [h.text, List.nil_append, List.takeWhile_append_of_pos fun c hc => (hp c).2 (h.solid c hc), stop,
    List.append_nil]

theorem wordAt_cons_iff (hc : c ∈ blanks) :
    WordAt (c :: t) b w a ↔ ∃ b', b = c :: b' ∧ WordAt t b' w a := by
  constructor
  · intro h
    cases b with
    | nil =>
      obtain ⟨d, w', rfl⟩ := List.exists_cons_of_ne_nil h.nonempty
      obtain ⟨rfl, _⟩ := List.cons.inj h.text
      exact absurd hc (h.solid c List.mem_cons_self)
    | cons d b =>
      obtain ⟨rfl, rest⟩ := List.cons.inj h.text
      refine ⟨b, rfl, rest, h.nonempty, h.solid, fun x last => h.opened x ?_, h.closed⟩
      rw [List.getLast?_cons, Option.mem_def.1 last]
      rfl
  · rintro ⟨b, rfl, h⟩
    refine ⟨congrArg (c :: ·) h.text, h.nonempty, h.solid, fun x last => ?_, h.closed⟩
    rw [List.getLast?_cons] at last
    cases found : b.getLast? with
    | none =>
      rw [found] at last
      cases last
      exact hc
    | some y =>
      rw [found] at last
      cases last
      exact h.opened _ found

theorem wordAt_append_iff (first : WordAt (u ++ v) [] u v) :
    WordAt (u ++ v) b w a ↔ (b = [] ∧ w = u ∧ a = v) ∨ ∃ b', b = u ++ b' ∧ WordAt v b' w a := by
  constructor
  · intro h
    rcases List.append_eq_append_iff.1 h.text with ⟨b', rfl, rest⟩ | ⟨u', rfl, rest⟩
    · refine .inr ⟨b', rfl, rest, h.nonempty, h.solid, fun x last => h.opened x ?_, h.closed⟩
      rw [List.getLast?_append, Option.mem_def.1 last]
      rfl
    · cases last : b.getLast? with
      | none =>
        obtain rfl := List.getLast?_eq_none_iff.1 last
        have same : w = u' := by
          rw [← h.takeWhile_eq (p := (· ∉ blanks)) (by simp)]
          exact first.takeWhile_eq (by simp)
        subst same
        exact .inl ⟨rfl, rfl, List.append_cancel_left rest⟩
      | some x =>
        have member : x ∈ b ++ u' := List.mem_append_left u' (List.mem_of_getLast? last)
        exact absurd (h.opened x last) (first.solid x member)
  · rintro (⟨rfl, rfl, rfl⟩ | ⟨b', rfl, h⟩)
    · exact first
    · refine ⟨by rw [h.text, List.append_assoc], h.nonempty, h.solid, fun x last => ?_, h.closed⟩
      rw [List.getLast?_append] at last
      cases found : b'.getLast? with
      | some y =>
        rw [found] at last
        cases last
        exact h.opened x found
      | none =>
        obtain rfl := List.getLast?_eq_none_iff.1 found
        obtain ⟨d, w', rfl⟩ := List.exists_cons_of_ne_nil h.nonempty
        have blank : d ∈ blanks := first.closed d (by rw [h.text]; rfl)
        exact absurd blank (h.solid d List.mem_cons_self)

theorem WordAt.cut (first : WordAt (u ++ v) [] u v) (later : WordAt v b w a) :
    WordAt (u ++ b) [] u b := by
  refine ⟨rfl, first.nonempty, first.solid, first.opened, fun x head => first.closed x ?_⟩
  rw [later.text, List.head?_append, Option.mem_def.1 head]
  rfl

theorem exists_wordAt (hc : c ∉ blanks) (t : Text) :
    ∃ u v, c :: t = u ++ v ∧ WordAt (u ++ v) [] u v := by
  let solid (d : Char) : Bool := d ∉ blanks
  refine ⟨(c :: t).takeWhile solid, (c :: t).dropWhile solid, by simp, rfl, by simp [solid, hc], ?_,
    by simp, ?_⟩
  · intro d hd
    simpa [solid] using List.mem_takeWhile_imp hd
  · intro d hd
    have := List.head?_dropWhile_not solid (c :: t)
    rw [Option.mem_def.1 hd] at this
    simpa [solid] using this

@[elab_as_elim]
theorem word_induction {P : Text → Prop} (nil : P [])
    (blank : ∀ c t, c ∈ blanks → P t → P (c :: t))
    (word : ∀ u v, WordAt (u ++ v) [] u v → P v → P (u ++ v)) (t : Text) : P t := by
  induction n : t.length using Nat.strong_induction_on generalizing t with
  | h n ih =>
    subst n
    cases t with
    | nil => exact nil
    | cons c t =>
      by_cases hc : c ∈ blanks
      · exact blank c t hc (ih t.length (by simp) t rfl)
      · obtain ⟨u, v, split, first⟩ := exists_wordAt hc t
        rw [split]
        have shorter : v.length < (c :: t).length := by
          have pos := List.length_pos_iff.2 first.nonempty
          rw [split, List.length_append]
          omega
        exact word u v first (ih _ shorter v rfl)

end Words

def Spelt (table : List Row) (w : Text) : Prop :=
  ∃ rows : List Row, (∀ r ∈ rows, r ∈ table) ∧ rows.flatMap Row.spelling = w

/-- The first word that is no sequence of spellings. -/
structure FirstUnspelt (table : List Row) (t before w after : Text) : Prop where
  word : WordAt t before w after
  unspelt : ¬ Spelt table w
  earlier : ∀ b v a, WordAt before b v a → Spelt table v

section FirstUnspelt

variable {table : List Row} {t u v b w a : Text} {c : Char}

theorem firstUnspelt_cons_iff (hc : c ∈ blanks) :
    FirstUnspelt table (c :: t) b w a ↔ ∃ b', b = c :: b' ∧ FirstUnspelt table t b' w a := by
  constructor
  · intro h
    obtain ⟨b, rfl, word⟩ := (wordAt_cons_iff hc).1 h.word
    exact ⟨b, rfl, word, h.unspelt, fun x y z other =>
      h.earlier (c :: x) y z ((wordAt_cons_iff hc).2 ⟨x, rfl, other⟩)⟩
  · rintro ⟨b, rfl, h⟩
    refine ⟨(wordAt_cons_iff hc).2 ⟨b, rfl, h.word⟩, h.unspelt, fun x y z other => ?_⟩
    obtain ⟨x, rfl, inner⟩ := (wordAt_cons_iff hc).1 other
    exact h.earlier x y z inner

theorem firstUnspelt_append_iff (first : WordAt (u ++ v) [] u v) (spelt : Spelt table u) :
    FirstUnspelt table (u ++ v) b w a ↔ ∃ b', b = u ++ b' ∧ FirstUnspelt table v b' w a := by
  constructor
  · intro h
    rcases (wordAt_append_iff first).1 h.word with ⟨_, rfl, _⟩ | ⟨b, rfl, word⟩
    · exact absurd spelt h.unspelt
    · exact ⟨b, rfl, word, h.unspelt, fun x y z other => h.earlier (u ++ x) y z
        ((wordAt_append_iff (first.cut word)).2 (.inr ⟨x, rfl, other⟩))⟩
  · rintro ⟨b, rfl, h⟩
    refine ⟨(wordAt_append_iff first).2 (.inr ⟨b, rfl, h.word⟩), h.unspelt, fun x y z other => ?_⟩
    rcases (wordAt_append_iff (first.cut h.word)).1 other with ⟨_, rfl, _⟩ | ⟨x, rfl, inner⟩
    · exact spelt
    · exact h.earlier x y z inner

theorem firstUnspelt_iff_of_not_spelt (first : WordAt (u ++ v) [] u v) (unspelt : ¬ Spelt table u) :
    FirstUnspelt table (u ++ v) b w a ↔ b = [] ∧ w = u ∧ a = v := by
  constructor
  · intro h
    rcases (wordAt_append_iff first).1 h.word with same | ⟨b, rfl, word⟩
    · exact same
    · exact absurd (h.earlier [] u b (first.cut word)) unspelt
  · rintro ⟨rfl, rfl, rfl⟩
    refine ⟨first, unspelt, fun x y z other => ?_⟩
    have empty := other.text
    simp only [List.nil_eq, List.append_eq_nil_iff] at empty
    exact absurd empty.2.1 other.nonempty

theorem decomposes_or_firstUnspelt (table : List Row) (t : Text) :
    (∃ ps, Decomposes table ps t) ∨ ∃ b w a, FirstUnspelt table t b w a := by
  induction t using word_induction with
  | nil => exact .inl ⟨[], by simp, rfl⟩
  | blank c t hc ih =>
    rcases ih with ⟨ps, cut⟩ | ⟨b, w, a, h⟩
    · have gap : ∀ d ∈ [c], d ∈ blanks := by simpa using hc
      exact .inl ⟨_, decomposes_gap gap cut⟩
    · exact .inr ⟨c :: b, w, a, (firstUnspelt_cons_iff hc).2 ⟨b, rfl, h⟩⟩
  | word u v first ih =>
    by_cases spelt : Spelt table u
    · rcases ih with ⟨ps, cut⟩ | ⟨b, w, a, h⟩
      · obtain ⟨rows, hr, rfl⟩ := spelt
        exact .inl ⟨_, decomposes_words hr cut⟩
      · exact .inr ⟨u ++ b, w, a, (firstUnspelt_append_iff first spelt).2 ⟨b, rfl, h⟩⟩
    · exact .inr ⟨[], u, v, (firstUnspelt_iff_of_not_spelt first spelt).2 ⟨rfl, rfl, rfl⟩⟩

end FirstUnspelt

end SlangTape
