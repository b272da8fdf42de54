import Mathlib.Data.List.Perm.Basic
import SlangTape.Proofs.Resuming

set_option autoImplicit false

namespace SlangTape

/-- The spelling of the row occurs in the text at a position, which may count from the end. -/
def Row.OccursAt (r : Row) (t : Text) (i : ℤ) : Prop :=
  ∃ rest, t.fromIndex i = some rest ∧ r.spelling <+: rest

theorem Table.Checked.perm {table table' : List Row} (h : Table.Checked table)
    (perm : table.Perm table') : Table.Checked table' where
  nonempty r hr := h.nonempty r (perm.mem_iff.2 hr)
  distinct := (perm.map Row.spelling).nodup_iff.1 h.distinct
  clean r hr := h.clean r (perm.mem_iff.2 hr)
  prefixFree r hr r' hr' := h.prefixFree r (perm.mem_iff.2 hr) r' (perm.mem_iff.2 hr')

theorem Table.Checked.occursAt_unique {table : List Row} (h : Table.Checked table) {t : Text} {i : ℤ}
    {k k' : ℕ} {r r' : Row} (here : table[k]? = some r) (here' : table[k']? = some r')
    (occurs : r.OccursAt t i) (occurs' : r'.OccursAt t i) : k = k' := by
  obtain ⟨rest, from_i, starts⟩ := occurs
  obtain ⟨rest', from_i', starts'⟩ := occurs'
  obtain rfl : rest = rest' := Option.some.inj (from_i.symm.trans from_i')
  obtain rfl := h.row_unique (List.mem_of_getElem? here) (List.mem_of_getElem? here') starts starts'
  have inside := (List.getElem?_eq_some_iff.1 here).1
  exact (List.getElem?_inj inside (List.Nodup.of_map Row.spelling h.distinct)).1
    (here.trans here'.symm)

theorem Language.exists_ofTable {table : List Row} (h : Table.error? table = none) :
    ∃ l, ofTable table = .ok l := by
  rw [ofTable, h]
  exact ⟨_, rfl⟩

/-- The languages tell the start of a text and single characters alike. -/
structure Language.Alike (l l' : Language) : Prop where
  leading : ∀ t, l'.leading? t = l.leading? t
  separator : ∀ c, l'.isSeparator c = l.isSeparator c
  letter : ∀ c, l'.isLetter c = l.isLetter c

namespace Language

variable {l l' : Language} {table table' : List Row}

theorem Built.leading?_eq_some_iff (built : l.Built table) {t : Text} {row : Row} :
    l.leading? t = some row ↔ row ∈ table ∧ row.spelling <+: t := by
  constructor
  · intro found
    rw [leading?, built.table_eq] at found
    exact ⟨List.mem_of_find?_eq_some found, by simpa using List.find?_some found⟩
  · rintro ⟨hr, rest, rfl⟩
    exact built.leading?_append hr rest

theorem Built.alike (built : l.Built table) (built' : l'.Built table')
    (same : ∀ r, r ∈ table' ↔ r ∈ table) : l.Alike l' where
  leading t := by
    ext row
    rw [built.leading?_eq_some_iff, built'.leading?_eq_some_iff, same]
  separator c := by rw [Bool.eq_iff_iff, built.separator, built'.separator]
  letter c := by
    rw [Bool.eq_iff_iff, built.letter, built'.letter]
    simp only [same]

namespace Alike

theorem matchAt? (h : l.Alike l') (t : Text) (i : ℤ) : l'.matchAt? t i = l.matchAt? t i := by
  rw [Language.matchAt?, Language.matchAt?, funext h.leading]

theorem spell (h : l.Alike l') (file : String) (w : Text) (p : Position) :
    l'.spell file w p = l.spell file w p := by
  fun_induction Language.spell l file w p with
  | case1 p => rw [Language.spell, if_pos rfl]
  | case2 w p nonempty none => rw [Language.spell, if_neg nonempty, h.leading, none]
  | case3 w p nonempty row found empty =>
    rw [Language.spell, if_neg nonempty, h.leading, found]
    simp only [if_pos empty]
  | case4 w p nonempty row found taken ih =>
    rw [Language.spell, if_neg nonempty, h.leading, found]
    simp only [if_neg taken, ih]

theorem tokens (h : l.Alike l') (file : String) (s : Scan) : s.tokens l' file = s.tokens l file := by
  induction s using Scan.scan_induction (l := l) with
  | nil s empty => rw [Scan.tokens_nil l file empty, Scan.tokens_nil l' file empty]
  | separator s c cs split stop ih =>
    have stop' := (h.separator c).trans stop
    rw [Scan.tokens_separator file split stop, Scan.tokens_separator file split stop', ih]
  | word s c cs split stop ih =>
    have stop' := (h.separator c).trans stop
    have word : l'.word s.rest = l.word s.rest := by simp only [Language.word, h.separator]
    have letter : l'.isLetter = l.isLetter := funext h.letter
    rw [Scan.tokens_word file split stop, Scan.tokens_word file split stop', word, letter, h.spell, ih]

theorem resumed (h : l.Alike l') (file : String) (t : Text) (n : ℕ) :
    Scan.resumed l' file t n = Scan.resumed l file t n := by
  induction n with
  | zero => rfl
  | succ n ih => rw [Scan.resumed, Scan.resumed, ih, h.tokens]

end Alike

end Language

/-- A checked table may list its rows in any order: the table is still accepted, no two rows match at one
place of a text, so that the same row matches as before, and every call of the scanner, the first or a
later one, says the same and leaves the scan at the same place. -/
theorem row_order_irrelevant (table table' : List Row) (h : Table.error? table = none)
    (perm : table.Perm table') :
    Table.error? table' = none ∧
    (∀ (t : Text) (i : ℤ) (k k' : ℕ) (r r' : Row), table[k]? = some r → table[k']? = some r' →
      r.OccursAt t i → r'.OccursAt t i → k = k') ∧
    ∃ l l', Language.ofTable table = .ok l ∧ Language.ofTable table' = .ok l' ∧
      (∀ (t : Text) (i : ℤ), l.matchAt? t i = l'.matchAt? t i) ∧
      ∀ (file : String) (t : Text) (n : ℕ),
        (Scan.resumed l file t n).tokens l file = (Scan.resumed l' file t n).tokens l' file := by
  have checked := (Table.error?_eq_none_iff table).1 h
  have accepted := (Table.error?_eq_none_iff table').2 (checked.perm perm)
  obtain ⟨l, made⟩ := Language.exists_ofTable h
  obtain ⟨l', made'⟩ := Language.exists_ofTable accepted
  have alike : l.Alike l' :=
    (Language.built_of_ofTable made).alike (Language.built_of_ofTable made') fun _ => perm.mem_iff.symm
  refine ⟨accepted, fun t i k k' r r' here here' => checked.occursAt_unique here here',
    l, l', made, made', fun t i => (alike.matchAt? t i).symm, fun file t n => ?_⟩
  rw [alike.resumed, alike.tokens]

theorem row_order_irrelevant_reversed :
    let table : List Row := [⟨['a', 'b'], .zero⟩, ⟨['b'], .skip⟩, ⟨['a', 'a'], .terminate⟩]
    Table.error? table.reverse = none ∧
    ∃ l l', Language.ofTable table = .ok l ∧ Language.ofTable table.reverse = .ok l' ∧
      l'.matchAt? ['b', 'a', 'a'] (-2) = some ⟨['a', 'a'], .terminate⟩ ∧
      ∀ n, (Scan.resumed l "rows" ['a', 'b', 'a', ' ', 'b'] n).tokens l "rows" =
        (Scan.resumed l' "rows" ['a', 'b', 'a', ' ', 'b'] n).tokens l' "rows" := by
  intro table
  have perm : table.Perm table.reverse := (List.reverse_perm table).symm
  obtain ⟨accepted, _, l, l', made, made', same, calls⟩ :=
    row_order_irrelevant table table.reverse (by decide) perm
  have found : l.matchAt? ['b', 'a', 'a'] (-2) = some ⟨['a', 'a'], .terminate⟩ := by
    cases made
    decide
  exact ⟨accepted, l, l', made, made', (same _ _).symm.trans found, calls "rows" _⟩

end SlangTape
