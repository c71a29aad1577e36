/-
  Protohand.Lib.Printf
  ────────────────────
  **FORMATTED TEXTS**: the conversions `%s`, `%d`, `%02d` and `%ld` of
  `sprintf`, and how long what they print is.

    • `length_sprintf`     — the fixed characters of the format, and what each
      conversion prints,
    • `length_decimal_le`  — an integer takes no more characters than the
      widest one of its type.
-/
import Mathlib.Data.Nat.Digits.Defs

namespace Printf

/-! ## §1. Integers. -/

/-- The decimal digits of a number. -/
def digits (n : Nat) : List UInt8 := (Nat.toDigits 10 n).map Char.toUInt8

/-- An integer of `bits` bits in decimal, behind a `-` if it is negative. -/
def decimal (bits : Nat) (n : Int) : List UInt8 :=
  let m := n.bmod (2 ^ bits)
  if m < 0 then '-'.toUInt8 :: digits m.natAbs else digits m.natAbs

/-- Zeros in front of a text, up to a width of two. -/
def pad2 (s : List UInt8) : List UInt8 := List.replicate (2 - s.length) '0'.toUInt8 ++ s

theorem length_digits_le {n k : Nat} (hk : 0 < k) : (digits n).length ≤ k ↔ n < 10 ^ k := by
  unfold digits
  rw [List.length_map]
  exact Nat.length_toDigits_le_iff (by decide) hk

/-- **The width of an integer**: the digits of the largest one, and a sign. -/
theorem length_decimal_le {bits k : Nat} (hk : 0 < k) (hbits : 2 ^ bits < 2 * 10 ^ k) (n : Int) :
    (decimal bits n).length ≤ k + 1 := by
  have hpos : 0 < 2 ^ bits := Nat.two_pow_pos bits
  have hlow : -((2 ^ bits : Nat) / 2 : Int) ≤ n.bmod (2 ^ bits) := Int.le_bmod hpos
  have hhigh : n.bmod (2 ^ bits) < ((2 ^ bits : Nat) + 1) / 2 := Int.bmod_lt hpos
  -- the remainder lies between minus and plus half of the range
  have habs : (n.bmod (2 ^ bits)).natAbs < 10 ^ k := by omega
  have hdigits := (length_digits_le hk).mpr habs
  unfold decimal
  dsimp only
  split_ifs
  · rw [List.length_cons]
    omega
  · omega

/-- A number is printed with at least one digit. -/
theorem length_decimal_pos (bits : Nat) (n : Int) : 0 < (decimal bits n).length := by
  have hdigits : ∀ m, 0 < (digits m).length := by
    intro m
    unfold digits
    rw [List.length_map]
    exact Nat.length_toDigits_pos
  unfold decimal
  dsimp only
  split_ifs
  · exact Nat.succ_pos _
  · exact hdigits _

/-- A number of at most two digits is printed as two characters. -/
theorem length_pad2 {n : Nat} (hn : n < 100) : (pad2 (decimal 32 n)).length = 2 := by
  have hsame : (n : Int).bmod (2 ^ 32) = n := by
    rw [Int.bmod_eq_of_le] <;> omega
  have hdigits : (digits n).length ≤ 2 := (length_digits_le (by decide)).mpr hn
  unfold pad2 decimal
  simp only [hsame]
  rw [if_neg (by omega), Int.natAbs_natCast, List.length_append, List.length_replicate]
  omega

/-! ## §2. Formats. -/

/-- A conversion specification. -/
inductive Conv where
  | str | int | int02 | long
  deriving DecidableEq, Repr

/-- A format is made of characters and conversions. -/
inductive Piece where
  | char (c : Char)
  | conv (k : Conv)
  deriving DecidableEq, Repr

/-- An argument of `sprintf`. -/
inductive Arg where
  | str (s : List UInt8)
  | int (n : Int)
  | long (n : Int)
  deriving DecidableEq, Repr

/-- How a format is read. -/
def pieces : List Char → List Piece
  | [] => []
  | '%' :: 's' :: fmt => .conv .str :: pieces fmt
  | '%' :: 'd' :: fmt => .conv .int :: pieces fmt
  | '%' :: '0' :: '2' :: 'd' :: fmt => .conv .int02 :: pieces fmt
  | '%' :: 'l' :: 'd' :: fmt => .conv .long :: pieces fmt
  | c :: fmt => .char c :: pieces fmt

/-- What a conversion makes of its argument; one of another type is undefined
in C, and prints nothing here. -/
def print : Conv → Arg → List UInt8
  | .str, .str s => s
  | .int, .int n => decimal 32 n
  | .int02, .int n => pad2 (decimal 32 n)
  | .long, .long n => decimal 64 n
  | _, _ => []

/-- The pieces, printed one after the other. -/
def format : List Piece → List Arg → List UInt8
  | [], _ => []
  | .char c :: ps, args => c.toUInt8 :: format ps args
  | .conv k :: ps, a :: args => print k a ++ format ps args
  | .conv _ :: ps, [] => format ps []

/-- The text `sprintf` stores. -/
def sprintf (fmt : String) (args : List Arg) : List UInt8 := format (pieces fmt.toList) args

/-- The characters a format prints as they are. -/
def fixed : List Piece → Nat
  | [] => 0
  | .char _ :: ps => fixed ps + 1
  | .conv _ :: ps => fixed ps

/-- The conversions of a format. -/
def convs : List Piece → List Conv
  | [] => []
  | .char _ :: ps => convs ps
  | .conv k :: ps => k :: convs ps

theorem length_format (ps : List Piece) (args : List Arg) :
    (format ps args).length
      = fixed ps + (List.zipWith (fun k a => (print k a).length) (convs ps) args).sum := by
  induction ps generalizing args with
  | nil => rfl
  | cons p ps ih =>
      cases p with
      | char c =>
          show (format ps args).length + 1 = fixed ps + 1 + _
          rw [ih]
          show _ = fixed ps + 1 + (List.zipWith _ (convs ps) args).sum
          omega
      | conv k =>
          cases args with
          | nil =>
              show (format ps []).length = fixed ps + 0
              rw [ih, List.zipWith_nil_right]
              rfl
          | cons a args =>
              show (print k a ++ format ps args).length = fixed ps + _
              rw [List.length_append, ih]
              show _ = fixed ps + ((print k a).length + (List.zipWith _ (convs ps) args).sum)
              omega

/-- The fixed characters and the conversions of a format. -/
def layout (fmt : List Char) : Nat × List Conv := (fixed (pieces fmt), convs (pieces fmt))

/-- **How long a text is**: the fixed characters of its format, and what its
conversions print.  The format is given by its characters, so that a literal
is not decoded. -/
theorem length_sprintf {fmt : List Char} {k : Nat} {ks : List Conv} (hfmt : layout fmt = (k, ks))
    (args : List Arg) :
    (sprintf (String.ofList fmt) args).length
      = k + (List.zipWith (fun k a => (print k a).length) ks args).sum := by
  obtain ⟨rfl, rfl⟩ := Prod.mk.inj hfmt
  unfold sprintf
  rw [String.toList_ofList]
  exact length_format (pieces fmt) args

/-! ## §3. The characters of a text. -/

theorem ne_zero_of_mem_digits {n : Nat} {c : UInt8} (h : c ∈ digits n) : c ≠ 0 := by
  have hcode : ∀ x < 128, 0 < x → (Char.ofNat x).toUInt8 ≠ 0 := by decide +kernel
  obtain ⟨x, hx, rfl⟩ := List.mem_map.mp h
  have hdigit := Nat.isDigit_of_mem_toDigits (by decide) (by decide) hx
  simp only [Char.isDigit, Bool.and_eq_true, decide_eq_true_eq, UInt32.le_iff_toNat_le] at hdigit
  have hlow : 48 ≤ x.toNat := hdigit.1
  have hhigh : x.toNat ≤ 57 := hdigit.2
  have hne := hcode x.toNat (by omega) (by omega)
  rwa [Char.ofNat_toNat] at hne

theorem ne_zero_of_mem_decimal {bits : Nat} {n : Int} {c : UInt8} (h : c ∈ decimal bits n) :
    c ≠ 0 := by
  unfold decimal at h
  dsimp only at h
  split at h
  · rcases List.mem_cons.mp h with rfl | h
    · decide
    · exact ne_zero_of_mem_digits h
  · exact ne_zero_of_mem_digits h

/-- A conversion prints a NUL only if its argument has one. -/
theorem zero_mem_print {k : Conv} {a : Arg} (h : 0 ∈ print k a) : ∃ s, a = .str s ∧ 0 ∈ s := by
  unfold print at h
  split at h
  · exact ⟨_, rfl, h⟩
  · exact absurd rfl (ne_zero_of_mem_decimal h)
  · rcases List.mem_append.mp h with h | h
    · exact absurd (List.eq_of_mem_replicate h) (by decide)
    · exact absurd rfl (ne_zero_of_mem_decimal h)
  · exact absurd rfl (ne_zero_of_mem_decimal h)
  · cases h

/-- The piece is a NUL itself. -/
def Piece.isNul : Piece → Bool
  | .char c => c.toUInt8 == 0
  | .conv _ => false

/-- **A text has a NUL** only from its format, or from an argument. -/
theorem zero_mem_format {ps : List Piece} {args : List Arg} (h : 0 ∈ format ps args) :
    (∃ p ∈ ps, p.isNul = true) ∨ ∃ s, Arg.str s ∈ args ∧ 0 ∈ s := by
  induction ps generalizing args with
  | nil => cases h
  | cons p ps ih =>
      -- a conversion uses up an argument, so the rest has fewer
      have hps : ∀ {args' : List Arg}, args' ⊆ args → 0 ∈ format ps args' →
          (∃ q ∈ p :: ps, q.isNul = true) ∨ ∃ s, Arg.str s ∈ args ∧ 0 ∈ s := by
        intro args' hsub h
        rcases ih h with ⟨q, hq, hzero⟩ | ⟨s, hs, hzero⟩
        · exact Or.inl ⟨q, List.mem_cons_of_mem p hq, hzero⟩
        · exact Or.inr ⟨s, hsub hs, hzero⟩
      cases p with
      | char c =>
          rcases List.mem_cons.mp h with hzero | h
          · exact Or.inl ⟨.char c, List.mem_cons_self, beq_iff_eq.mpr hzero.symm⟩
          · exact hps (List.Subset.refl args) h
      | conv k =>
          cases args with
          | nil => exact hps (List.Subset.refl []) h
          | cons a args =>
              rcases List.mem_append.mp h with h | h
              · obtain ⟨s, rfl, hzero⟩ := zero_mem_print h
                exact Or.inr ⟨s, List.mem_cons_self, hzero⟩
              · exact hps (List.subset_cons_self a args) h

end Printf
