set_option autoImplicit false

namespace SlangTape

inductive Width where
  | bits8
  | bits16
  | bits32
  deriving DecidableEq, Repr

namespace Width

def bits : Width → Nat
  | bits8 => 8
  | bits16 => 16
  | bits32 => 32

def ofBits? : Int → Option Width
  | 8 => some bits8
  | 16 => some bits16
  | 32 => some bits32
  | _ => none

def capacity (w : Width) : Nat := Nat.pow 2 w.bits

theorem capacity_pos (w : Width) : 0 < w.capacity := by cases w <;> decide

/-- The value a cell keeps of an integer: its remainder modulo the capacity. -/
def wrap (w : Width) (v : Int) : Nat := (v % w.capacity).toNat

theorem wrap_lt (w : Width) (v : Int) : w.wrap v < w.capacity := by
  have h := Int.emod_lt_of_pos v (Int.natCast_pos.2 w.capacity_pos)
  have h' := Int.emod_nonneg v (Int.natCast_ne_zero.2 (Nat.ne_of_gt w.capacity_pos))
  unfold wrap
  omega

theorem wrap_natCast {w : Width} {n : Nat} (h : n < w.capacity) : w.wrap n = n := by
  simp only [wrap, ← Int.natCast_emod, Int.toNat_natCast, Nat.mod_eq_of_lt h]

end Width

structure Config where
  width : Width := .bits8
  endValue : Nat := 0
  fits : endValue < width.capacity := by decide
  deriving DecidableEq, Repr

inductive ConfigError where
  | unsupportedWidth (bits : Int)
  | endValueTooLarge (value : Int) (width : Width)
  deriving DecidableEq, Repr

def ConfigError.message : ConfigError → String
  | .unsupportedWidth bits => s!"cell_bits must be one of 8, 16, 32, got {bits}"
  | .endValueTooLarge value width =>
    let bits := width.bits
    s!"eof_value {value} does not fit in a {bits}-bit cell"

namespace Config

/-- The width is judged before the end-of-input value. -/
def make (bits endValue : Int) : Except ConfigError Config :=
  match Width.ofBits? bits with
  | none => .error (.unsupportedWidth bits)
  | some width =>
    if h : 0 ≤ endValue ∧ endValue < width.capacity then
      .ok { width, endValue := endValue.toNat, fits := by omega }
    else .error (.endValueTooLarge endValue width)

end Config

end SlangTape
