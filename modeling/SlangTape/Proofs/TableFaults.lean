import SlangTape.Proofs.CheckedTable

set_option autoImplicit false

namespace SlangTape

namespace Table

/-- What is wrong with a row by itself, after the rows `before`. That a spelling is repeated matters only
if it is not empty, and a separator in it only if it is new. -/
inductive RowFault (before : List Row) (row : Row) : TableError → Prop where
  | empty (h : row.spelling = []) : RowFault before row (.emptySpelling row.command)
  | repeats {r : Row} (nonempty : row.spelling ≠ []) (hr : r ∈ before)
      (same : r.spelling = row.spelling) : RowFault before row (.alreadyBound row.spelling r.command)
  | separated {c : Char} (fresh : ∀ r ∈ before, r.spelling ≠ row.spelling) (hc : c ∈ row.spelling)
      (separator : c ∈ blanks) : RowFault before row (.holdsSeparator row.spelling)

def FaultAt (table : List Row) (i : ℕ) (e : TableError) : Prop :=
  ∃ row, table[i]? = some row ∧ RowFault (table.take i) row e

/-- The spelling at `i` is a proper beginning of the spelling at `j`. -/
inductive Clash (table : List Row) (i j : ℕ) : TableError → Prop where
  | intro {row other : Row} (here : table[i]? = some row) (there : table[j]? = some other)
      (starts : row.spelling <+: other.spelling) (proper : row.spelling ≠ other.spelling) :
      Clash table i j (.startsAnother row other)

section Rows

variable {table before rows : List Row} {i : ℕ} {row : Row} {e : TableError}

theorem rowFault_of_rowError? (h : rowError? before row = some e) : RowFault before row e := by
  unfold rowError? at h
  by_cases empty : row.spelling = []
  · rw [if_pos empty] at h
    cases h
    exact .empty empty
  rw [if_neg empty] at h
  cases found : before.find? fun r => r.spelling == row.spelling with
  | some r =>
    rw [found] at h
    cases h
    have same : r.spelling = row.spelling := by simpa using List.find?_some found
    exact .repeats empty (List.mem_of_find?_eq_some found) same
  | none =>
    rw [found] at h
    dsimp only at h
    split at h
    · next dirty =>
      cases h
      obtain ⟨c, hc, separator⟩ := List.any_eq_true.1 dirty
      refine .separated (fun r hr => ?_) hc ((separator_iff c).1 separator)
      simpa using List.find?_eq_none.1 found r hr
    · cases h

theorem RowFault.rowError?_ne_none (h : RowFault before row e) : rowError? before row ≠ none := by
  rw [ne_eq, rowError?_eq_none_iff]
  rintro ⟨nonempty, fresh, clean⟩
  cases h with
  | empty empty => exact nonempty empty
  | repeats _ hr same => exact fresh (same ▸ List.mem_map_of_mem hr)
  | separated _ hc separator => exact clean _ hc separator

theorem RowFault.unique (distinct : (before.map Row.spelling).Nodup) {e' : TableError}
    (h : RowFault before row e) (h' : RowFault before row e') : e = e' := by
  cases h with
  | empty empty =>
    cases h' with
    | empty => rfl
    | repeats nonempty => exact absurd empty nonempty
    | separated _ hc => simp [empty] at hc
  | repeats nonempty hr same =>
    cases h' with
    | empty empty => exact absurd empty nonempty
    | repeats _ hr' same' =>
      rw [List.inj_on_of_nodup_map distinct hr hr' (same.trans same'.symm)]
    | separated fresh => exact absurd same (fresh _ hr)
  | separated fresh hc =>
    cases h' with
    | empty empty => simp [empty] at hc
    | repeats _ hr same => exact absurd same (fresh _ hr)
    | separated => rfl

theorem firstRowError?_append (before rows later : List Row) :
    firstRowError? before (rows ++ later) =
      (firstRowError? before rows).or (firstRowError? (before ++ rows) later) := by
  induction rows generalizing before with
  | nil => simp [firstRowError?]
  | cons row rows ih =>
    rw [List.cons_append, firstRowError?, firstRowError?, ih, Option.or_assoc, List.append_assoc]
    rfl

theorem firstRowError?_eq (here : table[i]? = some row) :
    firstRowError? [] table = (firstRowError? [] (table.take i)).or
      ((rowError? (table.take i) row).or
        (firstRowError? (table.take i ++ [row]) (table.drop (i + 1)))) := by
  obtain ⟨inside, rfl⟩ := List.getElem?_eq_some_iff.1 here
  have split := List.take_append_drop i table
  rw [List.drop_eq_getElem_cons inside] at split
  calc
    firstRowError? [] table = firstRowError? [] (table.take i ++ table[i] :: table.drop (i + 1)) := by
      rw [split]
    _ = _ := by
      rw [firstRowError?_append, firstRowError?]
      rfl

theorem exists_rowError?_of_some (h : firstRowError? before rows = some e) :
    ∃ i row, rows[i]? = some row ∧ rowError? (before ++ rows.take i) row = some e ∧
      firstRowError? before (rows.take i) = none := by
  induction rows generalizing before with
  | nil => cases h
  | cons row rows ih =>
    rw [firstRowError?, Option.or_eq_some_iff] at h
    rcases h with found | ⟨clean, later⟩
    · exact ⟨0, row, rfl, by simpa using found, rfl⟩
    · obtain ⟨i, r, here, found, earlier⟩ := ih later
      refine ⟨i + 1, r, here, by simpa using found, ?_⟩
      rw [List.take_succ_cons, firstRowError?, clean, earlier]
      rfl

theorem no_faultAt_iff (table : List Row) :
    firstRowError? [] table = none ↔ ∀ k e, ¬ FaultAt table k e := by
  constructor
  · rintro none k e ⟨row, here, fault⟩
    rw [firstRowError?_eq here, Option.or_eq_none_iff, Option.or_eq_none_iff] at none
    exact fault.rowError?_ne_none none.2.1
  · intro none
    cases found : firstRowError? [] table with
    | none => rfl
    | some e =>
      obtain ⟨i, row, here, found, _⟩ := exists_rowError?_of_some found
      exact absurd ⟨row, here, rowFault_of_rowError? found⟩ (none i e)

theorem faultAt_take_iff {k : ℕ} : FaultAt (table.take i) k e ↔ k < i ∧ FaultAt table k e := by
  unfold FaultAt
  rcases Nat.lt_or_ge k i with hk | hk
  · simp [List.getElem?_take_of_lt hk, List.take_take, Nat.min_eq_left (Nat.le_of_lt hk), hk]
  · rw [List.getElem?_take_eq_none hk]
    simp [Nat.not_lt.2 hk]

theorem no_faultAt_take_iff (table : List Row) (i : ℕ) :
    firstRowError? [] (table.take i) = none ↔ ∀ k < i, ∀ e, ¬ FaultAt table k e := by
  simp only [no_faultAt_iff, faultAt_take_iff, not_and]
  constructor
  · intro h k hk e
    exact h k e hk
  · intro h k e hk
    exact h k hk e

theorem firstRowError?_eq_some_iff (table : List Row) (e : TableError) :
    firstRowError? [] table = some e ↔
      ∃ i, FaultAt table i e ∧ ∀ k < i, ∀ e', ¬ FaultAt table k e' := by
  constructor
  · intro h
    obtain ⟨i, row, here, found, earlier⟩ := exists_rowError?_of_some h
    exact ⟨i, ⟨row, here, rowFault_of_rowError? found⟩, (no_faultAt_take_iff table i).1 earlier⟩
  · rintro ⟨i, ⟨row, here, fault⟩, first⟩
    have earlier := (no_faultAt_take_iff table i).2 first
    have distinct := ((firstRowError?_eq_none_iff [] (table.take i)).1 earlier).2.2.1
    rw [firstRowError?_eq here, earlier, Option.none_or]
    cases found : rowError? (table.take i) row with
    | none => exact absurd found fault.rowError?_ne_none
    | some e' =>
      rw [fault.unique distinct (rowFault_of_rowError? found)]
      rfl

end Rows

section Clashes

variable {table : List Row} {i j i' j' : ℕ} {e e' : TableError}

/-- The first two rows that clash: the first row counts before the second. -/
def FirstClash (table : List Row) (i j : ℕ) (e : TableError) : Prop :=
  Clash table i j e ∧ ∀ i' j' e', Clash table i' j' e' → i < i' ∨ i = i' ∧ j ≤ j'

theorem Clash.unique (h : Clash table i j e) (h' : Clash table i j e') : e = e' := by
  cases h with
  | intro here there =>
    cases h' with
    | intro here' there' =>
      rw [here] at here'
      rw [there] at there'
      cases here'
      cases there'
      rfl

theorem Clash.firstClash?_ne_none (h : Clash table i j e) : firstClash? table ≠ none := by
  intro none
  cases h with
  | intro here there starts proper =>
    exact proper ((firstClash?_eq_none_iff table).1 none _ (List.mem_of_getElem? here) _
      (List.mem_of_getElem? there) starts)

theorem clashes_iff (row other : Row) :
    (other.spelling != row.spelling && row.spelling.isPrefixOf other.spelling) = true ↔
      row.spelling <+: other.spelling ∧ row.spelling ≠ other.spelling := by
  rw [Bool.and_eq_true, bne_iff_ne, List.isPrefixOf_iff_prefix, and_comm, ne_comm]

theorem exists_firstClash (h : firstClash? table = some e) : ∃ i j, FirstClash table i j e := by
  obtain ⟨earlier, row, later, split, found, clean⟩ := List.findSome?_eq_some_iff.1 h
  obtain ⟨other, second, rfl⟩ := Option.map_eq_some_iff.1 found
  obtain ⟨clashes, j, hj, there, unfound⟩ := List.find?_eq_some_iff_getElem.1 second
  obtain ⟨starts, proper⟩ := (clashes_iff row other).1 clashes
  have here : table[earlier.length]? = some row := by rw [split]; simp
  refine ⟨earlier.length, j, .intro here (List.getElem?_eq_some_iff.2 ⟨hj, there⟩) starts proper, ?_⟩
  rintro i' j' _ (@⟨row', other', here', there', starts', proper'⟩)
  have clashes' := (clashes_iff row' other').2 ⟨starts', proper'⟩
  rcases Nat.lt_trichotomy i' earlier.length with before | rfl | after
  · -- The rows before the first one start no other.
    rw [split, List.getElem?_append_left before] at here'
    have none := Option.map_eq_none_iff.1 (clean row' (List.mem_of_getElem? here'))
    exact absurd clashes' (List.find?_eq_none.1 none other' (List.mem_of_getElem? there'))
  · rw [here] at here'
    cases here'
    obtain ⟨hj', there'⟩ := List.getElem?_eq_some_iff.1 there'
    refine .inr ⟨rfl, Nat.le_of_not_lt fun before => ?_⟩
    have other := unfound j' before
    rw [there', clashes'] at other
    cases other
  · exact .inl after

theorem firstClash?_eq_some_iff (table : List Row) (e : TableError) :
    firstClash? table = some e ↔ ∃ i j, FirstClash table i j e := by
  refine ⟨exists_firstClash, ?_⟩
  rintro ⟨i, j, clash, first⟩
  cases found : firstClash? table with
  | none => exact absurd found clash.firstClash?_ne_none
  | some e' =>
    obtain ⟨i', j', clash', first'⟩ := exists_firstClash found
    have below := first i' j' e' clash'
    have above := first' i j e clash
    obtain ⟨rfl, rfl⟩ : i = i' ∧ j = j' := by omega
    rw [clash.unique clash']

end Clashes

end Table

/-- A table passes the check exactly when its spellings are nonempty, different, free of separators and
none of them starts another. Otherwise the error is about the first row that is at fault by itself; only
if there is none is it about two rows that clash, the first such two. -/
theorem tableError_iff (table : List Row) :
    (Table.error? table = none ↔ Table.Checked table) ∧
    ∀ e, Table.error? table = some e ↔
      (∃ i, Table.FaultAt table i e ∧ ∀ k < i, ∀ e', ¬ Table.FaultAt table k e') ∨
      (∀ k e', ¬ Table.FaultAt table k e') ∧
        ∃ i j, Table.Clash table i j e ∧
          ∀ i' j' e', Table.Clash table i' j' e' → i < i' ∨ i = i' ∧ j ≤ j' := by
  refine ⟨Table.error?_eq_none_iff table, fun e => ?_⟩
  rw [Table.error?, Option.or_eq_some_iff, Table.firstRowError?_eq_some_iff, Table.no_faultAt_iff,
    Table.firstClash?_eq_some_iff]
  rfl

example :
    Table.error? [⟨['a'], .zero⟩, ⟨['a', 'b'], .skip⟩, ⟨['a'], .skip⟩, ⟨[], .zero⟩] =
      some (.alreadyBound ['a'] .zero) := by
  decide

end SlangTape
