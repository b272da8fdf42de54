import Mathlib.Order.Bounds.Basic
import SlangTape.Proofs.PlainAgreement
import SlangTape.Proofs.Soundness

set_option autoImplicit false

namespace SlangTape

inductive Access where
  | get
  | set (v : ℤ)
  | add (v : ℤ)
  | moveLeft
  | moveRight
  | look (i : ℤ)
  deriving DecidableEq, Repr

abbrev Reading := Except Failure (Option ℕ)

namespace Access

variable {α : Type} (step : α → Access → Reading × α)

def after (a : α) (xs : List Access) : α := xs.foldl (fun b x => (step b x).2) a

def readings : α → List Access → List Reading
  | _, [] => []
  | a, x :: xs => (step a x).1 :: readings (step a x).2 xs

theorem after_concat (a : α) (xs : List Access) (x : Access) :
    after step a (xs ++ [x]) = (step (after step a xs) x).2 := by
  rw [after, List.foldl_append]
  rfl

end Access

namespace Tape

/-- What comes of an access that changes the tape: one that fails leaves it as it was. -/
def changed (t : Tape) : Except Failure Tape → Reading × Tape
  | .ok t' => (.ok none, t')
  | .error f => (.error f, t)

def access (t : Tape) : Access → Reading × Tape
  | .get => (t.read.map some, t)
  | .set v => t.changed (t.write v)
  | .add v => t.changed (t.add v)
  | .moveLeft => t.changed t.moveLeft
  | .moveRight => t.changed (.ok t.moveRight)
  | .look i => ((t.look i).map some, t)

end Tape

structure Unbounded (w : Width) where
  cells : ℕ → ZMod w.capacity := fun _ => 0
  cursor : ℕ := 0

namespace Unbounded

variable {w : Width}

def put (u : Unbounded w) (v : ZMod w.capacity) : Unbounded w :=
  { u with cells := Function.update u.cells u.cursor v }

def access (u : Unbounded w) : Access → Reading × Unbounded w
  | .get => (.ok (some (u.cells u.cursor).val), u)
  | .set v => (.ok none, u.put v)
  | .add v => (.ok none, u.put (u.cells u.cursor + v))
  | .moveLeft =>
    if u.cursor = 0 then (.error Fault.tapeUnderflow.toFailure, u)
    else (.ok none, { u with cursor := u.cursor - 1 })
  | .moveRight => (.ok none, { u with cursor := u.cursor + 1 })
  | .look i =>
    if i < 0 then (.error (.noSuchCell i), u) else (.ok (some (u.cells i.toNat).val), u)

end Unbounded

section Agreement

variable {w : Width} {t : Tape} {u : Unbounded w}

theorem Shows.access (h : Shows t u.cells u.cursor) (x : Access) :
    (t.access x).1 = (u.access x).1 ∧
      Shows (t.access x).2 (u.access x).2.cells (u.access x).2.cursor := by
  cases x with
  | get =>
    rw [Tape.access, h.read]
    exact ⟨rfl, h⟩
  | set v =>
    rw [Tape.access, h.write]
    exact ⟨rfl, h.store v⟩
  | add v =>
    obtain ⟨added, shown⟩ := h.add v
    rw [Tape.access, added]
    exact ⟨rfl, shown⟩
  | moveLeft =>
    rw [Tape.access, Unbounded.access]
    by_cases first : u.cursor = 0
    · have refused : t.moveLeft = .error Fault.tapeUnderflow.toFailure :=
        if_pos (h.cursor.trans first)
      rw [refused, if_pos first]
      exact ⟨rfl, h⟩
    · obtain ⟨moved, shown⟩ := h.moveLeft first
      rw [moved, if_neg first]
      exact ⟨rfl, shown⟩
  | moveRight => exact ⟨rfl, h.moveRight⟩
  | look i =>
    rw [Tape.access, Unbounded.access]
    by_cases negative : i < 0
    · rw [Tape.look, if_pos negative, if_pos negative]
      exact ⟨rfl, h⟩
    · rw [Tape.look, if_neg negative, if_neg negative, h.cells]
      exact ⟨rfl, h⟩

theorem Shows.readings (h : Shows t u.cells u.cursor) (xs : List Access) :
    Access.readings Tape.access t xs = Access.readings Unbounded.access u xs := by
  induction xs generalizing t u with
  | nil => rfl
  | cons x xs ih =>
    obtain ⟨same, later⟩ := h.access x
    rw [Access.readings, Access.readings, same, ih later]

end Agreement

namespace Tape

def visited (t : Tape) (xs : List Access) : Set ℕ :=
  {c | ∃ ys, ys <+: xs ∧ (Access.after access t ys).cursor = c}

theorem visited_nil (t : Tape) : t.visited [] = {t.cursor} := by
  ext c
  simp [visited, Access.after, eq_comm]

theorem visited_concat (t : Tape) (xs : List Access) (x : Access) :
    t.visited (xs ++ [x]) = insert (Access.after access t (xs ++ [x])).cursor (t.visited xs) := by
  ext c
  constructor
  · rintro ⟨ys, earlier, rfl⟩
    rcases List.prefix_concat_iff.1 earlier with rfl | earlier
    · exact .inl rfl
    · exact .inr ⟨ys, earlier, rfl⟩
  · rintro (rfl | ⟨ys, earlier, rfl⟩)
    · exact ⟨_, List.prefix_rfl, rfl⟩
    · exact ⟨ys, earlier.trans (List.prefix_append xs [x]), rfl⟩

/-- Of `size` cells at first, as many are stored as it takes to go as far as `far`. -/
structure Spans (size far : ℕ) (t : Tape) : Prop where
  cursor : t.cursor ≤ far
  size : ∃ k, IsLeast {k | far < size * 2 ^ k} k ∧ t.size = size * 2 ^ k

namespace Spans

variable {size far : ℕ} {t t' : Tape}

theorem inside (h : t.Spans size far) : t.cursor < t.size := by
  obtain ⟨k, least, stored⟩ := h.size
  have reach : far < size * 2 ^ k := least.1
  have cursor := h.cursor
  omega

theorem blank (w : Width) (pos : 0 < size) :
    (Tape.blank w size).Spans size (Tape.blank w size).cursor where
  cursor := Nat.le_refl 0
  size := by
    refine ⟨0, ⟨?_, fun k _ => Nat.zero_le k⟩, ?_⟩
    · show 0 < size * 2 ^ 0
      omega
    · simp [Tape.size, Tape.blank]

theorem stay (h : t.Spans size far) (stored : t'.size = t.size) (back : t'.cursor ≤ t.cursor) :
    t'.Spans size (max t'.cursor far) := by
  have cursor := h.cursor
  rw [max_eq_right (by omega)]
  exact ⟨by omega, by rw [stored]; exact h.size⟩

theorem moveRight (h : t.Spans size far) :
    t.moveRight.Spans size (max t.moveRight.cursor far) where
  cursor := le_max_left _ _
  size := by
    obtain ⟨k, ⟨reach, least⟩, stored⟩ := h.size
    have reach : far < size * 2 ^ k := reach
    have cursor := h.cursor
    have moved : t.moveRight.cursor = t.cursor + 1 := rfl
    rw [size_moveRight, moved]
    by_cases full : t.size ≤ t.cursor + 1
    · -- The cursor was at the last stored cell, which is the farthest it had been at.
      have edge : max (t.cursor + 1) far = size * 2 ^ k := by omega
      have double : size * 2 ^ (k + 1) = size * 2 ^ k + size * 2 ^ k := by
        rw [Nat.pow_succ, ← Nat.mul_assoc, Nat.mul_two]
      rw [if_pos full, edge]
      refine ⟨k + 1, ⟨?_, fun j wider => ?_⟩, ?_⟩
      · show size * 2 ^ k < size * 2 ^ (k + 1)
        omega
      · have grows : 2 ^ k < 2 ^ j := Nat.lt_of_mul_lt_mul_left wider
        exact (Nat.pow_lt_pow_iff_right Nat.one_lt_two).1 grows
      · rw [stored, double]
    · rw [if_neg full]
      refine ⟨k, ⟨?_, fun j wider => ?_⟩, stored⟩
      · show max (t.cursor + 1) far < size * 2 ^ k
        omega
      · have wider : max (t.cursor + 1) far < size * 2 ^ j := wider
        exact least (show far < size * 2 ^ j by omega)

theorem access (h : t.Spans size far) (x : Access) :
    (t.access x).2.Spans size (max (t.access x).2.cursor far) := by
  have inside := h.inside
  have written (v : ℤ) : (t.store v).Spans size (max (t.store v).cursor far) :=
    h.stay (by simp [Tape.size, Tape.store]) (Nat.le_refl _)
  cases x with
  | get => exact h.stay rfl (Nat.le_refl _)
  | set v =>
    rw [Tape.access, write, if_pos inside]
    exact written v
  | add v =>
    rw [Tape.access, add, if_pos inside]
    exact written _
  | moveLeft =>
    rw [Tape.access, Tape.moveLeft]
    split
    · exact h.stay rfl (Nat.le_refl _)
    · exact h.stay rfl (Nat.sub_le _ _)
  | moveRight => exact h.moveRight
  | look i => exact h.stay rfl (Nat.le_refl _)

theorem after (h : t.Spans size t.cursor) (xs : List Access) :
    ∃ far, IsGreatest (t.visited xs) far ∧ (Access.after Tape.access t xs).Spans size far := by
  induction xs using List.reverseRecOn with
  | nil =>
    refine ⟨t.cursor, ?_, h⟩
    rw [visited_nil]
    exact isGreatest_singleton
  | append_singleton xs x ih =>
    obtain ⟨far, greatest, spans⟩ := ih
    have later := spans.access x
    rw [← Access.after_concat] at later
    refine ⟨_, ?_, later⟩
    rw [visited_concat]
    exact greatest.insert _

end Spans

end Tape

/-- A tape of any width and of any number of cells to begin with, if only one, brings what an infinite
tape of integers modulo the capacity brings, whatever is asked of it. The cursor is always at a stored
cell, and the stored cells have been doubled as often as it takes to exceed the farthest place of the
cursor, and no more often. -/
theorem readings_unbounded (w : Width) (size : ℤ) (h : 1 ≤ size) :
    ∃ t, Tape.make w size = .ok t ∧ ∀ xs : List Access,
      let t' := Access.after Tape.access t xs
      Access.readings Tape.access t xs =
        Access.readings Unbounded.access ({} : Unbounded w) xs ∧
      t'.cursor < t'.size ∧
      ∃ far k : ℕ, IsGreatest (t.visited xs) far ∧ IsLeast {k : ℕ | far < size * 2 ^ k} k ∧
        t'.size = size * 2 ^ k := by
  obtain ⟨n, rfl⟩ : ∃ n : ℕ, size = n := ⟨size.toNat, by omega⟩
  have pos : 0 < n := by omega
  refine ⟨.blank w n, by simp [Tape.make], fun xs => ?_⟩
  intro t'
  have shown : Shows (.blank w n) ({} : Unbounded w).cells ({} : Unbounded w).cursor := .blank pos
  obtain ⟨far, greatest, spans⟩ := (Tape.Spans.blank w pos).after xs
  obtain ⟨k, least, stored⟩ := spans.size
  refine ⟨shown.readings xs, spans.inside, far, k, greatest, ?_, by exact_mod_cast stored⟩
  exact_mod_cast least

theorem readings_unbounded_single_cell :
    let xs : List Access := [.add (-3), .moveRight, .moveRight, .set (2 ^ 70 + 5), .add (-7), .get,
      .look 0, .look 9, .look (-1), .moveLeft, .moveLeft, .moveLeft, .get]
    ∃ t, Tape.make .bits8 1 = .ok t ∧ (Access.after Tape.access t xs).size = 4 ∧
      Access.readings Unbounded.access ({} : Unbounded .bits8) xs =
        [.ok none, .ok none, .ok none, .ok none, .ok none, .ok (some 254), .ok (some 253),
          .ok (some 0), .error (.noSuchCell (-1)), .ok none, .ok none,
          .error Fault.tapeUnderflow.toFailure, .ok (some 253)] := by
  intro xs
  obtain ⟨t, made, brings⟩ := readings_unbounded .bits8 1 (by decide)
  obtain rfl : Tape.blank .bits8 1 = t := Except.ok.inj made
  refine ⟨_, made, by decide +kernel, ?_⟩
  rw [← (brings xs).1]
  decide +kernel

end SlangTape
