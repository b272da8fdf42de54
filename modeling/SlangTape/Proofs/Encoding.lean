import Mathlib.Algebra.Ring.Nat
import SlangTape.Source

set_option autoImplicit false

/-!
# Text files in UTF-8

`Utf8.encode` writes a text by the library's own encoder of characters. The decoder reads such bytes
back (`decode_encode`), and whatever it reads without a replacement was written so (`encode_decode`).
Both rest on `Forms`, which says which bytes the decoder takes for one code point: `Partial.Starts` is
what a partial character knows of the code point to come, and the bounds on the byte after the first
keep out what must not be written with that many bytes.
-/
namespace SlangTape

namespace Utf8

def encode (t : Text) : List UInt8 := t.flatMap String.utf8EncodeChar

def continuation (n : ℕ) : UInt8 := UInt8.ofNat (0x80 + n % 64)

def tail : ℕ → ℕ → List UInt8
  | 0, n => [continuation n]
  | m + 1, n => continuation (n / 64 ^ (m + 1)) :: tail m n

theorem toNat_continuation (n : ℕ) : (continuation n).toNat = 0x80 + n % 64 :=
  UInt8.toNat_ofNat_of_lt' (by simp only [UInt8.size]; omega)

theorem eq_continuation {b : UInt8} {n : ℕ} (h : b.toNat = 0x80 + n % 64) : b = continuation n := by
  rw [continuation, ← h, UInt8.ofNat_toNat]

/-- The code point `n` begins with the bits that `p` has, and its next byte is one that `p` allows. -/
structure Partial.Starts (p : Partial) (n : ℕ) : Prop where
  bits : n / 64 ^ (p.missing + 1) = p.bits
  range : p.low ≤ 0x80 + n / 64 ^ p.missing % 64 ∧ 0x80 + n / 64 ^ p.missing % 64 ≤ p.high

theorem div_pow_succ (n m : ℕ) : n / 64 ^ (m + 1) = n / 64 ^ m / 64 := by
  rw [Nat.pow_succ, Nat.div_div_eq_div_mul]

theorem Partial.Starts.decodeFrom {p : Partial} {n : ℕ} (h : p.Starts n) (bytes : List UInt8) :
    decodeFrom (some p) (tail p.missing n ++ bytes) = Char.ofNat n :: decodeFrom none bytes := by
  obtain ⟨bits, missing, low, high⟩ := p
  obtain ⟨first, range⟩ := h
  dsimp only at first range ⊢
  induction missing generalizing bits low high with
  | zero =>
    have whole : bits * 64 + n % 64 = n := by omega
    simp only [Nat.pow_zero, Nat.div_one] at range
    simp [tail, Utf8.decodeFrom, feed, toNat_continuation, range, whole]
  | succ m ih =>
    have later : bits * 64 + n / 64 ^ (m + 1) % 64 = n / 64 ^ (m + 1) := by
      rw [div_pow_succ] at first
      omega
    have next := ih (n / 64 ^ (m + 1)) 0x80 0xBF rfl (by omega)
    simpa [tail, Utf8.decodeFrom, feed, toNat_continuation, range, later] using next

/-- A partial character is completed by the bytes that come, or gives way to a replacement. -/
theorem starts_or_replacement (p : Partial) (hp : 0x80 ≤ p.low ∧ p.high ≤ 0xBF)
    (bytes : List UInt8) :
    (∃ n rest, p.Starts n ∧ bytes = tail p.missing n ++ rest) ∨
      replacement ∈ decodeFrom (some p) bytes := by
  induction bytes generalizing p with
  | nil => exact .inr (by simp [decodeFrom])
  | cons b bytes ih =>
    obtain ⟨bits, missing, low, high⟩ := p
    dsimp only at hp
    by_cases range : low ≤ b.toNat ∧ b.toNat ≤ high
    · cases missing with
      | zero =>
        let n := bits * 64 + (b.toNat - 0x80)
        have six : b.toNat = 0x80 + n % 64 := by omega
        refine .inl ⟨n, bytes, ⟨?_, ?_⟩, ?_⟩
        · show n / 64 ^ 1 = bits
          omega
        · simpa [← six] using range
        · rw [tail, ← eq_continuation six]
          rfl
      | succ m =>
        rcases ih { bits := bits * 64 + (b.toNat - 0x80), missing := m } (by simp) with
          ⟨n, rest, ⟨first, _⟩, rfl⟩ | found
        · dsimp only at first
          have six : b.toNat = 0x80 + n / 64 ^ (m + 1) % 64 := by omega
          refine .inl ⟨n, rest, ⟨?_, ?_⟩, ?_⟩
          · show n / 64 ^ (m + 1 + 1) = bits
            rw [div_pow_succ]
            omega
          · simpa [← six] using range
          · rw [tail, ← eq_continuation six]
            rfl
        · exact .inr (by simpa [decodeFrom, feed, range] using found)
    · exact .inr (by simp [decodeFrom, feed, range])

def Partial.two (bits : ℕ) : Partial := { bits, missing := 0 }

def Partial.three (bits : ℕ) : Partial where
  bits := bits
  missing := 1
  low := if bits = 0 then 0xA0 else 0x80
  high := if bits = 0xD then 0x9F else 0xBF

def Partial.four (bits : ℕ) : Partial where
  bits := bits
  missing := 2
  low := if bits = 0 then 0x90 else 0x80
  high := if bits = 4 then 0x8F else 0xBF

theorem lead_two : ∀ bits < 0x20, 2 ≤ bits → lead (0xC0 + bits) = ([], some (Partial.two bits)) := by
  decide

theorem lead_three : ∀ bits < 0x10, lead (0xE0 + bits) = ([], some (Partial.three bits)) := by decide

theorem lead_four : ∀ bits < 5, lead (0xF0 + bits) = ([], some (Partial.four bits)) := by decide

theorem lead_cases (b : ℕ) :
    b < 0x80 ∨ (∃ bits < 0x20, 2 ≤ bits ∧ b = 0xC0 + bits) ∨ (∃ bits < 0x10, b = 0xE0 + bits) ∨
      (∃ bits < 5, b = 0xF0 + bits) ∨ lead b = ([replacement], none) := by
  have ranges : b < 0x80 ∨ (0xC2 ≤ b ∧ b < 0xE0) ∨ (0xE0 ≤ b ∧ b < 0xF0) ∨
      (0xF0 ≤ b ∧ b < 0xF5) ∨ (0x80 ≤ b ∧ b < 0xC2) ∨ 0xF5 ≤ b := by omega
  rcases ranges with h | h | h | h | h | h
  · exact .inl h
  · exact .inr (.inl ⟨b - 0xC0, by omega, by omega, by omega⟩)
  · exact .inr (.inr (.inl ⟨b - 0xE0, by omega, by omega⟩))
  · exact .inr (.inr (.inr (.inl ⟨b - 0xF0, by omega, by omega⟩)))
  · have none : lead b = ([replacement], none) := by simp (disch := omega) only [lead, if_pos, if_neg]
    exact .inr (.inr (.inr (.inr none)))
  · have none : lead b = ([replacement], none) := by simp (disch := omega) only [lead, if_neg]
    exact .inr (.inr (.inr (.inr none)))

theorem starts_two_iff {bits n : ℕ} : (Partial.two bits).Starts n ↔ n / 64 = bits := by
  constructor
  · intro h
    exact h.bits
  · intro h
    exact ⟨h, by simp only [Partial.two]; omega⟩

theorem starts_three_iff {bits n : ℕ} :
    (Partial.three bits).Starts n ↔ n / 0x1000 = bits ∧ 0x800 ≤ n ∧ (n < 0xD800 ∨ 0xDFFF < n) := by
  constructor
  · rintro ⟨first, range⟩
    simp only [Partial.three] at first range
    split at range <;> split at range <;> omega
  · intro h
    refine ⟨h.1, ?_⟩
    simp only [Partial.three]
    split <;> split <;> omega

theorem starts_four_iff {bits n : ℕ} (h : bits < 5) :
    (Partial.four bits).Starts n ↔ n / 0x40000 = bits ∧ 0x10000 ≤ n ∧ n < 0x110000 := by
  constructor
  · rintro ⟨first, range⟩
    simp only [Partial.four] at first range
    split at range <;> split at range <;> omega
  · intro h
    refine ⟨h.1, ?_⟩
    simp only [Partial.four]
    split <;> split <;> omega

theorem toNat_val_ofNat {n : ℕ} (h : n.isValidChar) : (Char.ofNat n).val.toNat = n := by
  rw [Char.ofNat, dif_pos h]
  rfl

theorem range_cases (n : ℕ) :
    n < 0x80 ∨ (0x80 ≤ n ∧ n < 0x800) ∨ (0x800 ≤ n ∧ n < 0x10000) ∨ 0x10000 ≤ n := by
  omega

theorem encodeChar_ofNat {n : ℕ} (h : n.isValidChar) :
    String.utf8EncodeChar (Char.ofNat n) =
      if n < 0x80 then [UInt8.ofNat n]
      else if n < 0x800 then UInt8.ofNat (0xC0 + n / 0x40) :: tail 0 n
      else if n < 0x10000 then UInt8.ofNat (0xE0 + n / 0x1000) :: tail 1 n
      else UInt8.ofNat (0xF0 + n / 0x40000) :: tail 2 n := by
  have valid : n < 0xD800 ∨ 0xDFFF < n ∧ n < 0x110000 := h
  simp only [String.utf8EncodeChar, toNat_val_ofNat h, tail, continuation, Nat.add_comm 0x80]
  rcases range_cases n with h | h | h | h
  · simp (disch := omega) only [if_pos]
  · have first : n / 64 % 32 + 192 = 0xC0 + n / 0x40 := by omega
    simp (disch := omega) only [if_pos, if_neg, first]
  · have first : n / 4096 % 16 + 224 = 0xE0 + n / 0x1000 := by omega
    simp (disch := omega) only [if_pos, if_neg, first, Nat.reducePow, Nat.reduceAdd]
  · have first : n / 262144 % 8 + 240 = 0xF0 + n / 0x40000 := by omega
    simp (disch := omega) only [if_neg, first, Nat.reducePow, Nat.reduceAdd]

/-- The bytes that the decoder takes for a code point: one of its own, or a first byte and what the
partial character waits for. -/
inductive Forms : List UInt8 → ℕ → Prop where
  | single {b : UInt8} (h : b.toNat < 0x80) : Forms [b] b.toNat
  | several {b : UInt8} {p : Partial} {n : ℕ} (h : lead b.toNat = ([], some p)) (starts : p.Starts n) :
      Forms (b :: tail p.missing n) n

theorem ofNat_of_eq_toNat {b : UInt8} {n : ℕ} (h : n = b.toNat) : UInt8.ofNat n = b := by
  rw [h, UInt8.ofNat_toNat]

theorem Forms.encodeChar {v : List UInt8} {n : ℕ} (h : Forms v n) :
    n.isValidChar ∧ String.utf8EncodeChar (Char.ofNat n) = v := by
  cases h with
  | @single b h =>
    have valid : b.toNat.isValidChar := .inl (by omega)
    rw [encodeChar_ofNat valid, if_pos h, UInt8.ofNat_toNat]
    exact ⟨valid, rfl⟩
  | @several b p n h starts =>
    rcases lead_cases b.toNat with one | ⟨bits, hb, hb', first⟩ | ⟨bits, hb, first⟩ |
      ⟨bits, hb, first⟩ | none
    · simp [lead, one] at h
    · rw [first, lead_two bits hb hb'] at h
      cases h
      have range := starts_two_iff.1 starts
      have valid : n.isValidChar := .inl (by omega)
      rw [encodeChar_ofNat valid, if_neg (by omega), if_pos (by omega),
        ofNat_of_eq_toNat (b := b) (by omega)]
      exact ⟨valid, rfl⟩
    · rw [first, lead_three bits hb] at h
      cases h
      have range := starts_three_iff.1 starts
      have valid : n.isValidChar := by simp only [Nat.isValidChar]; omega
      rw [encodeChar_ofNat valid, if_neg (by omega), if_neg (by omega), if_pos (by omega),
        ofNat_of_eq_toNat (b := b) (by omega)]
      exact ⟨valid, rfl⟩
    · rw [first, lead_four bits hb] at h
      cases h
      have range := (starts_four_iff hb).1 starts
      have valid : n.isValidChar := .inr (by omega)
      rw [encodeChar_ofNat valid, if_neg (by omega), if_neg (by omega), if_neg (by omega),
        ofNat_of_eq_toNat (b := b) (by omega)]
      exact ⟨valid, rfl⟩
    · rw [none] at h
      cases h

theorem forms_encodeChar (c : Char) : Forms (String.utf8EncodeChar c) c.toNat := by
  have valid : c.toNat < 0xD800 ∨ 0xDFFF < c.toNat ∧ c.toNat < 0x110000 := c.valid
  have encoded := encodeChar_ofNat (n := c.toNat) valid
  rw [Char.ofNat_toNat] at encoded
  rw [encoded]
  generalize c.toNat = n at valid
  have byte {k : ℕ} (h : k < 256) : (UInt8.ofNat k).toNat = k := UInt8.toNat_ofNat_of_lt' h
  rcases range_cases n with h | h | h | h
  · have single : Forms [UInt8.ofNat n] (UInt8.ofNat n).toNat := .single (by rw [byte] <;> omega)
    rw [byte (by omega)] at single
    rwa [if_pos h]
  · rw [if_neg (by omega), if_pos h.2]
    refine .several (p := .two (n / 0x40)) ?_ (starts_two_iff.2 rfl)
    rw [byte (by omega), lead_two _ (by omega) (by omega)]
  · rw [if_neg (by omega), if_neg (by omega), if_pos h.2]
    refine .several (p := .three (n / 0x1000)) ?_ (starts_three_iff.2 (by omega))
    rw [byte (by omega), lead_three _ (by omega)]
  · rw [if_neg (by omega), if_neg (by omega), if_neg (by omega)]
    refine .several (p := .four (n / 0x40000)) ?_ ((starts_four_iff (by omega)).2 (by omega))
    rw [byte (by omega), lead_four _ (by omega)]

theorem Forms.decode {v : List UInt8} {n : ℕ} (h : Forms v n) (bytes : List UInt8) :
    decode (v ++ bytes) = Char.ofNat n :: decode bytes := by
  cases h with
  | single h => simp [Utf8.decode, decodeFrom, feed, lead, h]
  | several h starts =>
    rw [Utf8.decode, List.cons_append, decodeFrom, feed, h]
    exact starts.decodeFrom bytes

theorem forms_or_replacement (b : UInt8) (bytes : List UInt8) :
    (∃ v n rest, b :: bytes = v ++ rest ∧ Forms v n) ∨ replacement ∈ decode (b :: bytes) := by
  have several {p : Partial} (h : lead b.toNat = ([], some p)) (hp : 0x80 ≤ p.low ∧ p.high ≤ 0xBF) :
      (∃ v n rest, b :: bytes = v ++ rest ∧ Forms v n) ∨ replacement ∈ decode (b :: bytes) := by
    rcases starts_or_replacement p hp bytes with ⟨n, rest, starts, rfl⟩ | found
    · exact .inl ⟨_, n, rest, rfl, .several h starts⟩
    · exact .inr (by simpa [decode, decodeFrom, feed, h] using found)
  rcases lead_cases b.toNat with one | ⟨bits, hb, hb', first⟩ | ⟨bits, hb, first⟩ |
    ⟨bits, hb, first⟩ | none
  · exact .inl ⟨[b], _, bytes, rfl, .single one⟩
  · exact several (first ▸ lead_two bits hb hb') (by simp [Partial.two])
  · exact several (first ▸ lead_three bits hb) (by simp only [Partial.three]; split <;> split <;> omega)
  · exact several (first ▸ lead_four bits hb) (by simp only [Partial.four]; split <;> split <;> omega)
  · exact .inr (by simp [decode, decodeFrom, feed, none])

theorem decode_encodeChar (c : Char) (bytes : List UInt8) :
    decode (String.utf8EncodeChar c ++ bytes) = c :: decode bytes := by
  rw [(forms_encodeChar c).decode, Char.ofNat_toNat]

theorem decode_encode (t : Text) : decode (encode t) = t := by
  induction t with
  | nil => rfl
  | cons c t ih =>
    rw [encode, List.flatMap_cons, decode_encodeChar]
    exact congrArg (c :: ·) ih

/-- What is decoded without a replacement is the encoding of what comes out. -/
theorem encode_decode {bytes : List UInt8} (h : replacement ∉ decode bytes) :
    encode (decode bytes) = bytes := by
  induction length : bytes.length using Nat.strongRecOn generalizing bytes with
  | ind k ih =>
    subst length
    cases bytes with
    | nil => rfl
    | cons b bytes =>
      rcases forms_or_replacement b bytes with ⟨v, n, rest, split, forms⟩ | found
      · obtain ⟨_, encoded⟩ := forms.encodeChar
        have shorter : rest.length < (b :: bytes).length := by
          have size := String.length_utf8EncodeChar (Char.ofNat n)
          have pos := (Char.ofNat n).utf8Size_pos
          rw [split, List.length_append, ← encoded]
          omega
        rw [split, forms.decode] at h ⊢
        rw [encode, List.flatMap_cons, encoded]
        exact congrArg (v ++ ·) (ih _ shorter (fun found => h (.tail _ found)) rfl)
      · exact absurd found h

/-- The byte order mark. -/
def mark : List UInt8 := [0xEF, 0xBB, 0xBF]

theorem dropMark_append (bytes : List UInt8) : dropMark (mark ++ bytes) = bytes := rfl

theorem dropMark_eq_self {bytes : List UInt8} (h : ¬ mark <+: bytes) : dropMark bytes = bytes := by
  unfold dropMark
  split
  · next bytes => exact absurd (List.prefix_append mark bytes) h
  · rfl

theorem not_mark_prefix_encode {t : Text} (h : t.head? ≠ some (Char.ofNat 0xFEFF)) :
    ¬ mark <+: encode t := by
  rintro ⟨bytes, split⟩
  have marked : decode (mark ++ bytes) = Char.ofNat 0xFEFF :: decode bytes := rfl
  rw [split, decode_encode] at marked
  exact h (by rw [marked]; rfl)

end Utf8

/-- The path leads to a file with these contents. -/
structure Files.Serves (files : Files) (path : String) (bytes : List UInt8) : Prop where
  openable : Char.ofNat 0 ∉ path.toList
  read : files path = .ok bytes

theorem Files.Serves.load {files : Files} {path : String} {bytes : List UInt8}
    (h : files.Serves path bytes) : Source.load files path = .ok (.ofBytes path bytes) := by
  have openable : ¬ path.toList.contains (Char.ofNat 0) = true := by simpa using h.openable
  rw [Source.load, if_neg openable, h.read]

/-- A file that holds the encoding of a text is read as that text, and so is one with a byte order mark
before it. Only a text that itself begins with the mark's character needs one. -/
theorem load_encoded (files : Files) (path : String) (t : Text) :
    (files.Serves path (Utf8.mark ++ Utf8.encode t) → Source.load files path = .ok ⟨path, t⟩) ∧
    (files.Serves path (Utf8.encode t) → t.head? ≠ some (Char.ofNat 0xFEFF) →
      Source.load files path = .ok ⟨path, t⟩) := by
  constructor
  · intro served
    rw [served.load, Source.ofBytes, Utf8.dropMark_append, Utf8.decode_encode]
  · intro served unmarked
    rw [served.load, Source.ofBytes, Utf8.dropMark_eq_self (Utf8.not_mark_prefix_encode unmarked),
      Utf8.decode_encode]

theorem load_encoded_boundaries :
    let t : Text := [0xFEFF, 0x7F, 0x80, 0x7FF, 0x800, 0xD7FF, 0xE000, 0xFFFF, 0x10000, 0x10FFFF].map
      Char.ofNat
    let files : Files := fun path =>
      if path = "/marked" then .ok (Utf8.mark ++ Utf8.encode t)
      else if path = "../plain" then .ok (Utf8.encode t.tail)
      else .error "No such file or directory"
    Source.load files "/marked" = .ok ⟨"/marked", t⟩ ∧
      Source.load files "../plain" = .ok ⟨"../plain", t.tail⟩ := by
  intro t files
  have marked : files.Serves "/marked" (Utf8.mark ++ Utf8.encode t) := ⟨by decide, rfl⟩
  have unmarked : files.Serves "../plain" (Utf8.encode t.tail) := ⟨by decide, rfl⟩
  exact ⟨(load_encoded files _ t).1 marked, (load_encoded files _ t.tail).2 unmarked (by decide)⟩

end SlangTape
