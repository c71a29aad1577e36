/-
  Protohand.CString
  ─────────────────
  **C STRINGS AND THE C LIBRARY.**

  A C string is the list of its bytes before the terminating NUL; a block of
  memory that is read as a string is the list of its bytes, NULs included,
  and `cstr` is what `strlen` and its kind see of it.  `char` is signed on
  the compilers the Makefile uses, but every comparison the program makes on
  it is either with `==` or guarded by `isxdigit`, so bytes are `UInt8` here.

  The functions of <ctype.h> and <string.h> below are those of the "C"
  locale: the program never calls `setlocale`.
-/
import Protohand.Lib.Text

namespace Protohand

/-! ## §1. Bytes and strings. -/

/-- The bytes of a string up to its terminating NUL. -/
abbrev CStr := List UInt8

/-- The code of an ASCII character. -/
def ascii (c : Char) : UInt8 := c.toUInt8

/-- Comparing two character constants compares their codes. -/
@[simp, grind =] theorem ascii_eq_iff (a b : Char) :
    ascii a = ascii b ↔ a.toNat % 256 = b.toNat % 256 := by
  unfold ascii
  rw [← UInt8.toNat_inj]
  rfl

/-- A string literal of the source. -/
def bytes (s : String) : CStr := s.toList.map ascii

/-- A byte list that a `char*` can point to: no NUL before the end. -/
def IsCStr (s : List UInt8) : Prop := 0 ∉ s

instance (s : List UInt8) : Decidable (IsCStr s) := inferInstanceAs (Decidable (0 ∉ s))

/-- The string at the start of a block: everything before the first NUL. -/
def cstr (block : List UInt8) : CStr := block.takeWhile (· != 0)

theorem cstr_of_isCStr {s : List UInt8} (h : IsCStr s) : cstr s = s := Text.before_of_not_mem h

theorem IsCStr.of_isInfix {s t : List UInt8} (h : IsCStr t) (hs : s <:+: t) : IsCStr s :=
  fun h0 => h (hs.subset h0)

/-! ## §2. <ctype.h>. -/

/-- `isspace`: blank, and the five control characters from `\t` to `\r`. -/
def isspace (c : UInt8) : Bool := c == ascii ' ' || (ascii '\t' ≤ c && c ≤ ascii '\r')

/-- `isxdigit`. -/
def isxdigit (c : UInt8) : Bool :=
  (ascii '0' ≤ c && c ≤ ascii '9') || (ascii 'A' ≤ c && c ≤ ascii 'F')
    || (ascii 'a' ≤ c && c ≤ ascii 'f')

/-- `tolower`. -/
def tolower (c : UInt8) : UInt8 := if ascii 'A' ≤ c ∧ c ≤ ascii 'Z' then c + 32 else c

/-! ## §3. <string.h>. -/

/-- `strcmp`: the sign of the first difference, bytes compared unsigned. -/
def strcmp : CStr → CStr → Int
  | [], [] => 0
  | [], _ :: _ => -1
  | _ :: _, [] => 1
  | a :: s, b :: t => if a = b then strcmp s t else if a < b then -1 else 1

@[simp] theorem strcmp_eq_zero : ∀ (s t : CStr), strcmp s t = 0 ↔ s = t
  | [], [] => by simp [strcmp]
  | [], _ :: _ => by simp [strcmp]
  | _ :: _, [] => by simp [strcmp]
  | a :: s, b :: t => by
      rw [strcmp]
      by_cases hab : a = b
      · rw [if_pos hab, strcmp_eq_zero s t, hab, List.cons.injEq]
        exact (and_iff_right rfl).symm
      · rw [if_neg hab]
        constructor
        · intro h
          split at h <;> cases h
        · intro h
          exact absurd (List.cons.inj h).1 hab

/-- Whether the NUL-terminated set `delim` holds the character. -/
def isDelim (delim : CStr) (c : UInt8) : Bool := delim.contains c

/-- The tokens that `strtok(string, delim)` and the calls `strtok(NULL, delim)`
after it return before the first NULL. -/
def strtokAll (string delim : CStr) : List CStr := Text.runs (isDelim delim) string

/-! ## §4. <stdlib.h>. -/

/-- The number `n`, continued by the digits that a string begins with. -/
def readDigits (n : Nat) : CStr → Nat
  | [] => n
  | c :: s =>
      if ascii '0' ≤ c ∧ c ≤ ascii '9' then readDigits (10 * n + (c - ascii '0').toNat) s else n

/-- `atoi`, for a number in the range of `int`. -/
def atoi (nptr : CStr) : Int :=
  match nptr.dropWhile isspace with
  | [] => 0
  | c :: s =>
      if c = ascii '-' then -(readDigits 0 s : Int)
      else if c = ascii '+' then readDigits 0 s
      else readDigits 0 (c :: s)

end Protohand
