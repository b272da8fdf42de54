import SlangTape.Proofs.Matching
import SlangTape.Proofs.Refusal

set_option autoImplicit false

namespace SlangTape

structure Occurrence where
  offset : ℕ
  row : Row

namespace Occurrence

def stop (o : Occurrence) : ℕ := o.offset + o.row.spelling.length

def token (t : Text) (o : Occurrence) : Token := ⟨o.row.command, .past (t.take o.offset)⟩

end Occurrence

/-- From the offset `n` on, the text consists of the spellings at `os`, in this order, and of
separators. -/
structure Marks (table : List Row) (t : Text) (n : ℕ) (os : List Occurrence) : Prop where
  later : ∀ o ∈ os, n ≤ o.offset
  occurs : ∀ o ∈ os, o.row ∈ table ∧ o.row.spelling <+: t.drop o.offset
  apart : os.Pairwise fun o o' => o.stop ≤ o'.offset
  rest : ∀ i c, n ≤ i → t[i]? = some c → c ∉ blanks → ∃ o ∈ os, o.offset ≤ i ∧ i < o.stop

namespace Marks

variable {table : List Row} {t : Text} {n : ℕ} {os : List Occurrence}

theorem nil (h : t.length ≤ n) : Marks table t n [] where
  later := by simp
  occurs := by simp
  apart := .nil
  rest i c hi found := by
    rw [List.getElem?_eq_none (h.trans hi)] at found
    cases found

theorem separator {c : Char} (here : t[n]? = some c) (hc : c ∈ blanks)
    (h : Marks table t (n + 1) os) : Marks table t n os where
  later o ho := (Nat.le_succ n).trans (h.later o ho)
  occurs := h.occurs
  apart := h.apart
  rest i d hi found hd := by
    rcases hi.eq_or_lt with rfl | hi
    · rw [here] at found
      cases found
      exact absurd hc hd
    · exact h.rest i d hi found hd

theorem word {row : Row} (hr : row ∈ table) (here : row.spelling <+: t.drop n)
    (h : Marks table t (n + row.spelling.length) os) : Marks table t n (⟨n, row⟩ :: os) where
  later := by
    rw [List.forall_mem_cons]
    exact ⟨le_rfl, fun o ho => (Nat.le_add_right _ _).trans (h.later o ho)⟩
  occurs := List.forall_mem_cons.2 ⟨⟨hr, here⟩, h.occurs⟩
  apart := List.pairwise_cons.2 ⟨h.later, h.apart⟩
  rest i c hi found hc := by
    by_cases inside : i < n + row.spelling.length
    · exact ⟨⟨n, row⟩, List.mem_cons_self, hi, inside⟩
    · obtain ⟨o, ho, covers⟩ := h.rest i c (Nat.le_of_not_lt inside) found hc
      exact ⟨o, List.mem_cons_of_mem _ ho, covers⟩

theorem increasing (h : Marks table t n os) (nonempty : ∀ r ∈ table, r.spelling ≠ []) :
    os.Pairwise fun o o' => o.offset < o'.offset := by
  refine h.apart.imp_of_mem fun {o o'} ho _ before => ?_
  have length := List.length_pos_iff.2 (nonempty o.row (h.occurs o ho).1)
  simp only [Occurrence.stop] at before
  omega

end Marks

theorem Piece.exists_marks {table : List Row} (clean : ∀ r ∈ table, ∀ c ∈ r.spelling, c ∉ blanks)
    {ps : List Piece} (fits : ∀ p ∈ ps, p.Fits table) (done : Text) :
    let t := done ++ ps.flatMap Piece.text
    ∃ os, Marks table t done.length os ∧
      Piece.tokens (.past done) ps = os.map (Occurrence.token t) := by
  induction ps generalizing done with
  | nil => exact ⟨[], .nil (by simp), rfl⟩
  | cons piece ps ih =>
    rw [List.forall_mem_cons] at fits
    obtain ⟨os, marks, tokens⟩ := ih fits.2 (done ++ piece.text)
    rw [List.append_assoc, ← List.flatMap_cons] at marks tokens
    rw [List.length_append] at marks
    cases piece with
    | separator c =>
      refine ⟨os, .separator ?_ fits.1 marks, ?_⟩
      · simp [Piece.text]
      · rw [Piece.tokens, ← Position.past_concat]
        exact tokens
    | word row =>
      have line : ∀ c ∈ row.spelling, c ≠ '\n' := by
        rintro c hc rfl
        exact clean row fits.1 _ hc (by decide)
      refine ⟨⟨done.length, row⟩ :: os, .word fits.1 ?_ marks, ?_⟩
      · simp [Piece.text]
      · rw [Piece.tokens, ← Position.past_append line, List.map_cons]
        refine congrArg₂ List.cons ?_ tokens
        simp [Occurrence.token]

/-- An accepted text consists of spellings of the table, which do not overlap, and of separators. There
is a token for each of these spellings, in their order, with the line and the column at which it
stands; and a program made of the tokens keeps the command and the place of each. -/
theorem tokenize_positions (table : List Row) (l : Language) (h : Language.ofTable table = .ok l)
    (file : String) (t : Text) (ts : List Token) (accepted : l.tokenize file t = .ok ts) :
    ∃ os : List Occurrence,
      ts = os.map (fun o => ⟨o.row.command, .past (t.take o.offset)⟩) ∧
      (∀ o ∈ os, o.row ∈ table ∧ o.row.spelling <+: t.drop o.offset) ∧
      os.Pairwise (fun o o' => o.offset < o'.offset ∧ o.stop ≤ o'.offset) ∧
      (∀ i c, t[i]? = some c → c ∉ blanks → ∃ o ∈ os, o.offset ≤ i ∧ i < o.stop) ∧
      ∀ (name : String) (p : Program), Program.ofTokens name ts = .ok p →
        p.locations.size = p.commands.size ∧
        p.commands.toList = os.map (fun o => o.row.command) ∧
        p.locations.toList = os.map fun o =>
          some ⟨name, .past (t.take o.offset), o.row.command.spelling⟩ := by
  have built := Language.built_of_ofTable h
  obtain ⟨ps, cut⟩ := built.exists_decomposes (s := .start t) accepted
  have tokens := built.tokens_of_decomposes (s := .start t) file cut
  obtain ⟨os, marks, placed⟩ := Piece.exists_marks built.checked.clean cut.fits []
  rw [List.nil_append, cut.text] at marks placed
  have found : ts = os.map (Occurrence.token t) := by
    rw [Language.tokenize, tokens] at accepted
    exact (Except.ok.inj accepted).symm.trans placed
  refine ⟨os, found, marks.occurs, ?_, fun i c => marks.rest i c (Nat.zero_le i), fun name p made => ?_⟩
  · exact (marks.increasing built.checked.nonempty).and marks.apart
  · obtain ⟨jumps, _, rfl⟩ := (ofTokens_eq_ok_iff name ts p).1 made
    rw [found]
    simp [Function.comp_def, Occurrence.token, Token.location]

theorem tokenize_positions_two_lines :
    let t := Command.readChar.spelling ++ Command.increment.spelling ++ ['\r', '\n', '\t'] ++
      Command.printInt.spelling
    ∃ ts, Language.standard.tokenize "lines" t = .ok ts ∧
      ts.map Token.position = [⟨1, 1⟩, ⟨1, 7⟩, ⟨2, 2⟩] ∧
      ∃ os : List Occurrence,
        ts = os.map (fun o => ⟨o.row.command, .past (t.take o.offset)⟩) ∧
        ∀ i c, t[i]? = some c → c ∉ blanks → ∃ o ∈ os, o.offset ≤ i ∧ i < o.stop := by
  intro t
  have places : (Language.standard.tokenize "lines" t).toOption.map (List.map Token.position) =
      some [⟨1, 1⟩, ⟨1, 7⟩, ⟨2, 2⟩] := by
    decide +kernel
  cases accepted : Language.standard.tokenize "lines" t with
  | error e =>
    rw [accepted] at places
    cases places
  | ok ts =>
    rw [accepted] at places
    obtain ⟨os, tokens, _, _, covered, _⟩ :=
      tokenize_positions _ _ Language.ofTable_standardTable "lines" t ts accepted
    exact ⟨ts, rfl, Option.some.inj places, os, tokens, covered⟩

end SlangTape
