import Mathlib.Data.List.Nodup
import SlangTape.Language.Table

set_option autoImplicit false

namespace SlangTape

def blanks : List Char := [' ', '\t', '\r', '\n']

namespace Table

structure Checked (table : List Row) : Prop where
  nonempty : ∀ r ∈ table, r.spelling ≠ []
  distinct : (table.map Row.spelling).Nodup
  clean : ∀ r ∈ table, ∀ c ∈ r.spelling, c ∉ blanks
  prefixFree : ∀ r ∈ table, ∀ r' ∈ table, r.spelling <+: r'.spelling → r.spelling = r'.spelling

theorem separator_iff (c : Char) :
    Language.standardSeparators.contains [c] = true ↔ c ∈ blanks := by
  simp [Language.standardSeparators, blanks]

theorem rowError?_eq_none_iff (before : List Row) (row : Row) :
    rowError? before row = none ↔ row.spelling ≠ [] ∧ row.spelling ∉ before.map Row.spelling ∧
      ∀ c ∈ row.spelling, c ∉ blanks := by
  unfold rowError?
  by_cases empty : row.spelling = []
  · simp [empty]
  rw [if_neg empty]
  cases found : before.find? fun r => r.spelling == row.spelling with
  | some r =>
    have member := List.mem_of_find?_eq_some found
    have same : r.spelling = row.spelling := by simpa using List.find?_some found
    simp only [reduceCtorEq, false_iff]
    rintro ⟨_, fresh, _⟩
    exact fresh (same ▸ List.mem_map_of_mem member)
  | none =>
    have fresh : row.spelling ∉ before.map Row.spelling := by
      intro member
      obtain ⟨r, hr, same⟩ := List.mem_map.1 member
      simpa [same] using List.find?_eq_none.1 found r hr
    have dirty : (row.spelling.any fun c => Language.standardSeparators.contains [c]) = true ↔
        ∃ c ∈ row.spelling, c ∈ blanks := by
      simp only [List.any_eq_true, separator_iff]
    dsimp only
    by_cases h : (row.spelling.any fun c => Language.standardSeparators.contains [c]) = true
    · obtain ⟨c, hc, separator⟩ := dirty.1 h
      rw [if_pos h]
      exact iff_of_false nofun fun all => all.2.2 c hc separator
    · rw [if_neg h]
      refine iff_of_true rfl ⟨empty, fresh, fun c hc separator => ?_⟩
      exact h (dirty.2 ⟨c, hc, separator⟩)

theorem firstRowError?_eq_none_iff (before rows : List Row) :
    firstRowError? before rows = none ↔
      (∀ r ∈ rows, r.spelling ≠ []) ∧
      (∀ r ∈ rows, ∀ c ∈ r.spelling, c ∉ blanks) ∧
      (rows.map Row.spelling).Nodup ∧ ∀ r ∈ rows, r.spelling ∉ before.map Row.spelling := by
  induction rows generalizing before with
  | nil => simp [firstRowError?]
  | cons row rows ih =>
    rw [firstRowError?, Option.or_eq_none_iff, rowError?_eq_none_iff, ih]
    simp only [List.map_append, List.map_cons, List.map_nil, List.mem_append, List.mem_singleton,
      List.forall_mem_cons, List.nodup_cons, not_or]
    constructor
    · rintro ⟨⟨nonempty, fresh, clean⟩, nonempties, cleans, nodup, others⟩
      refine ⟨⟨nonempty, nonempties⟩, ⟨clean, cleans⟩, ⟨?_, nodup⟩, fresh, fun r hr => (others r hr).1⟩
      intro member
      obtain ⟨r, hr, same⟩ := List.mem_map.1 member
      exact (others r hr).2 same
    · rintro ⟨⟨nonempty, nonempties⟩, ⟨clean, cleans⟩, ⟨once, nodup⟩, fresh, others⟩
      refine ⟨⟨nonempty, fresh, clean⟩, nonempties, cleans, nodup, fun r hr => ⟨others r hr, ?_⟩⟩
      intro same
      exact once (same ▸ List.mem_map_of_mem hr)

theorem firstClash?_eq_none_iff (table : List Row) :
    firstClash? table = none ↔
      ∀ r ∈ table, ∀ r' ∈ table, r.spelling <+: r'.spelling → r.spelling = r'.spelling := by
  simp only [firstClash?, List.findSome?_eq_none_iff, Option.map_eq_none_iff, List.find?_eq_none,
    Bool.and_eq_true, bne_iff_ne, ne_eq, List.isPrefixOf_iff_prefix, not_and']
  constructor
  · intro h r hr r' hr' starts
    exact (not_not.1 (h r hr r' hr' starts)).symm
  · intro h r hr r' hr' starts
    exact not_not.2 (h r hr r' hr' starts).symm

theorem error?_eq_none_iff (table : List Row) : error? table = none ↔ Checked table := by
  rw [error?, Option.or_eq_none_iff, firstRowError?_eq_none_iff, firstClash?_eq_none_iff]
  constructor
  · rintro ⟨⟨nonempty, clean, distinct, _⟩, prefixFree⟩
    exact ⟨nonempty, distinct, clean, prefixFree⟩
  · intro h
    exact ⟨⟨h.nonempty, h.clean, h.distinct, by simp⟩, h.prefixFree⟩

theorem Checked.row_unique {table : List Row} (h : Checked table) {r r' : Row} (hr : r ∈ table)
    (hr' : r' ∈ table) {t : Text} (starts : r.spelling <+: t) (starts' : r'.spelling <+: t) :
    r = r' := by
  have same : r.spelling = r'.spelling := by
    rcases List.prefix_or_prefix_of_prefix starts starts' with first | second
    · exact h.prefixFree r hr r' hr' first
    · exact (h.prefixFree r' hr' r hr second).symm
  exact List.inj_on_of_nodup_map h.distinct hr hr' same

end Table

structure Language.Built (l : Language) (table : List Row) : Prop where
  checked : Table.Checked table
  table_eq : l.table = table
  separator : ∀ c, l.isSeparator c = true ↔ c ∈ blanks
  letter : ∀ c, l.isLetter c = true ↔ ∃ r ∈ table, c ∈ r.spelling

namespace Language

theorem built_of_ofTable {table : List Row} {l : Language} (h : ofTable table = .ok l) :
    l.Built table := by
  unfold ofTable at h
  split at h
  · cases h
  · next passed =>
    cases h
    refine ⟨(Table.error?_eq_none_iff table).1 passed, rfl, Table.separator_iff, fun c => ?_⟩
    simp [isLetter]

variable {l : Language} {table : List Row}

theorem Built.leading?_append (h : l.Built table) {row : Row} (hr : row ∈ table) (rest : Text) :
    l.leading? (row.spelling ++ rest) = some row := by
  have starts : row.spelling <+: row.spelling ++ rest := List.prefix_append _ _
  cases found : l.leading? (row.spelling ++ rest) with
  | none =>
    rw [leading?, h.table_eq] at found
    have other := List.find?_eq_none.1 found row hr
    simp [starts] at other
  | some r =>
    rw [leading?, h.table_eq] at found
    have starts' : r.spelling <+: row.spelling ++ rest := by simpa using List.find?_some found
    rw [h.checked.row_unique (List.mem_of_find?_eq_some found) hr starts' starts]

theorem Built.not_separator (h : l.Built table) {row : Row} (hr : row ∈ table) {c : Char}
    (hc : c ∈ row.spelling) : l.isSeparator c = false := by
  rw [Bool.eq_false_iff, ne_eq, h.separator]
  exact h.checked.clean row hr c hc

end Language

end SlangTape
