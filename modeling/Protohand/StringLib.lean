/-
  Protohand.StringLib
  ───────────────────
  **lib/stringlib.c**: the string helpers the parsers are built from, with
  the facts about each that its callers use.

  `urldecode2` gets most of the room.  Three facts carry the query parser:

    • `urldecode2_append_cons` — decoding commutes with cutting at a byte
      that is neither `%` nor `+` nor a hex digit,
    • `mem_urldecode2_iff` — where a byte that is not written literally
      comes from,
    • `urldecode2_hex` — one escape gives its byte back, for all 256 bytes.
-/
import Protohand.CString

namespace Protohand

open Text

/-! ## §1. Comparing and trimming. -/

/-- `strcmp_lcase`: both strings copied, lowered byte by byte, compared. -/
def strcmpLcase (str1 str2 : CStr) : Int := strcmp (str1.map tolower) (str2.map tolower)

theorem strcmpLcase_eq_zero (s t : CStr) :
    strcmpLcase s t = 0 ↔ s.map tolower = t.map tolower := strcmp_eq_zero _ _

/-- The string `trim` returns a pointer to. -/
def trim (str : CStr) : CStr := strip isspace str

/-- What the argument of `trim` holds afterwards: `trim` writes its new
terminator into it, but leaves a string of blanks alone. -/
def trimInPlace (str : CStr) : CStr :=
  if str.dropWhile isspace = [] then str else str.rdropWhile isspace

/-! ## §2. `str_array_split`. -/

/-- `struct str_array`. -/
structure StrArray where
  items : List CStr
  length : Nat
  deriving DecidableEq, Repr

/-- The entries a loop `for (i=0; i<a.length; i++)` over `a.items[i]` sees, as far
as they were stored: a `length` that was not set lets C read pointers behind them. -/
def StrArray.elems (a : StrArray) : List CStr := a.items.take a.length

/-- The number of pointers the split functions allocate room for. -/
def strArrayMax : Nat := 512

/-- `str_array_split`: the tokens of `strtok`, each trimmed.  The loop does
not compare its counter with the size of the block: `none` is the run that
stores behind it. -/
def strArraySplit (string delim : CStr) : Option StrArray :=
  let result := (strtokAll string delim).map trim
  if result.length ≤ strArrayMax then some ⟨result, result.length⟩ else none

/-- `str_array_split_p` into a structure that held `ret`: the length is stored
with each item, and so not at all without one.  `none` as above. -/
def strArraySplitP (ret : StrArray) (string delim : CStr) : Option StrArray :=
  let result := (strtokAll string delim).map trim
  if result.length ≤ strArrayMax then
    some ⟨result, if result = [] then ret.length else result.length⟩
  else none

@[simp] theorem StrArray.elems_mk (items : List CStr) :
    StrArray.elems ⟨items, items.length⟩ = items := List.take_length

/-! ## §3. `urldecode2`. -/

/-- The value `urldecode2` computes for one hex digit. -/
def hexDigitValue (a : UInt8) : UInt8 :=
  let a := if ascii 'a' ≤ a then a - (ascii 'a' - ascii 'A') else a
  if ascii 'A' ≤ a then a - (ascii 'A' - 10) else a - ascii '0'

/-- A byte that stands for itself, or `+` for a blank. -/
def urldecodeChar (c : UInt8) : UInt8 := if c = ascii '+' then ascii ' ' else c

/-- `urldecode2`: the bytes it stores before the final `'\0'`.  The last two
characters cannot start an escape, since `src[1]` or `src[2]` is the NUL. -/
def urldecode2 : CStr → List UInt8
  | [] => []
  | [c] => [urldecodeChar c]
  | [c, d] => [urldecodeChar c, urldecodeChar d]
  | c :: a :: b :: src =>
      if c = ascii '%' ∧ a ≠ 0 ∧ b ≠ 0 ∧ isxdigit a = true ∧ isxdigit b = true then
        (16 * hexDigitValue a + hexDigitValue b) :: urldecode2 src
      else urldecodeChar c :: urldecode2 (a :: b :: src)

/-- Whether `urldecode2` takes `c`, with `src` behind it, for an escape. -/
def IsEscape (c : UInt8) (src : CStr) : Prop :=
  c = ascii '%' ∧ ∃ a b t, src = a :: b :: t ∧ isxdigit a = true ∧ isxdigit b = true

/-- The byte that the escape `%ab` stands for. -/
def hexPair (a b : UInt8) : UInt8 := 16 * hexDigitValue a + hexDigitValue b

theorem ne_zero_of_isxdigit {a : UInt8} (h : isxdigit a = true) : a ≠ 0 := by
  intro ha
  rw [ha] at h
  exact absurd h (by decide)

@[simp] theorem urldecode2_nil : urldecode2 [] = [] := rfl

theorem urldecode2_escape {a b : UInt8} (ha : isxdigit a = true) (hb : isxdigit b = true)
    (src : CStr) :
    urldecode2 (ascii '%' :: a :: b :: src) = hexPair a b :: urldecode2 src := by
  rw [urldecode2, if_pos ⟨rfl, ne_zero_of_isxdigit ha, ne_zero_of_isxdigit hb, ha, hb⟩]
  rfl

theorem urldecode2_literal {c : UInt8} {src : CStr} (h : ¬ IsEscape c src) :
    urldecode2 (c :: src) = urldecodeChar c :: urldecode2 src := by
  match src with
  | [] => rfl
  | [_] => rfl
  | a :: b :: t =>
      rw [urldecode2, if_neg]
      intro hc
      exact h ⟨hc.1, a, b, t, rfl, hc.2.2.2.1, hc.2.2.2.2⟩

theorem urldecode2_cons_of_ne {c : UInt8} (h : c ≠ ascii '%') (src : CStr) :
    urldecode2 (c :: src) = urldecodeChar c :: urldecode2 src :=
  urldecode2_literal (fun he => h he.1)

/-- Induction along the steps `urldecode2` takes: an escape at a time, or one
character that stands for itself. -/
theorem urldecode2_induction {P : CStr → Prop} (nil : P [])
    (escape : ∀ a b src, isxdigit a = true → isxdigit b = true → P src →
      P (ascii '%' :: a :: b :: src))
    (literal : ∀ c src, ¬ IsEscape c src → P src → P (c :: src)) :
    ∀ (src : CStr), P src := by
  intro src
  induction hn : src.length using Nat.strongRecOn generalizing src with
  | ind n ih =>
      match src with
      | [] => exact nil
      | c :: src =>
          by_cases hc : IsEscape c src
          · obtain ⟨rfl, a, b, t, rfl, ha, hb⟩ := hc
            exact escape a b t ha hb (ih t.length (by simp at hn; omega) t rfl)
          · exact literal c src hc (ih src.length (by simp at hn; omega) src rfl)

/-! ## §4. Decoding and cutting commute. -/

/-- **A byte that is no hex digit starts the decoding anew.** -/
theorem urldecode2_append {d : UInt8} (hx : isxdigit d = false) (k v : CStr) :
    urldecode2 (k ++ d :: v) = urldecode2 k ++ urldecode2 (d :: v) := by
  induction k using urldecode2_induction with
  | nil => rfl
  | escape a b src ha hb ih =>
      rw [urldecode2_escape ha hb, List.cons_append, List.cons_append, List.cons_append,
        urldecode2_escape ha hb, ih, List.cons_append]
  | literal c src hc ih =>
      -- `d` is no hex digit, so the longer text makes no new escape either
      have hc' : ¬ IsEscape c (src ++ d :: v) := by
        intro he
        obtain ⟨hpc, a, b, t, ht, ha, hb⟩ := he
        match src, ht with
        | [], ht =>
            have : d = a := (List.cons.inj ht).1
            rw [← this, hx] at ha
            cases ha
        | [x], ht =>
            have : d = b := (List.cons.inj (List.cons.inj ht).2).1
            rw [← this, hx] at hb
            cases hb
        | x :: y :: src', ht =>
            simp only [List.cons_append, List.cons.injEq] at ht
            exact hc ⟨hpc, x, y, src', rfl, ht.1 ▸ ha, ht.2.1 ▸ hb⟩
      rw [urldecode2_literal hc, List.cons_append, urldecode2_literal hc', ih,
        List.cons_append]

/-- **A byte that no escape contains cuts the decoding in two.** -/
theorem urldecode2_append_cons {d : UInt8} (hd : d ≠ ascii '%') (hplus : d ≠ ascii '+')
    (hx : isxdigit d = false) (k v : CStr) :
    urldecode2 (k ++ d :: v) = urldecode2 k ++ d :: urldecode2 v := by
  have hchar : urldecodeChar d = d := by rw [urldecodeChar, if_neg hplus]
  rw [urldecode2_append hx, urldecode2_cons_of_ne hd, hchar]

/-- An escape is decoded on its own, whatever stands in front of it. -/
theorem urldecode2_append_escape {a b : UInt8} (ha : isxdigit a = true) (hb : isxdigit b = true)
    (k v : CStr) :
    urldecode2 (k ++ ascii '%' :: a :: b :: v) = urldecode2 k ++ hexPair a b :: urldecode2 v := by
  rw [urldecode2_append (by decide), urldecode2_escape ha hb]

/-! ## §5. Where a decoded byte comes from. -/

/-- **A byte that is not written literally comes from an escape.** -/
theorem mem_urldecode2_iff {x : UInt8} (hblank : x ≠ ascii ' ') {s : CStr} (hs : x ∉ s) :
    x ∈ urldecode2 s
      ↔ ∃ a b, isxdigit a = true ∧ isxdigit b = true ∧ hexPair a b = x
          ∧ [ascii '%', a, b] <:+: s := by
  induction s using urldecode2_induction with
  | nil => simp
  | escape a b src ha hb ih =>
      have hsrc : x ∉ src := fun h => hs (by simp [h])
      rw [urldecode2_escape ha hb, List.mem_cons, ih hsrc]
      constructor
      · intro h
        rcases h with h | ⟨a', b', ha', hb', hx, hin⟩
        · exact ⟨a, b, ha, hb, h.symm, ⟨[], src, rfl⟩⟩
        · refine ⟨a', b', ha', hb', hx, hin.trans ⟨[ascii '%', a, b], [], by simp⟩⟩
      · intro h
        obtain ⟨a', b', ha', hb', hx, hin⟩ := h
        rw [triple_infix_cons, triple_infix_cons, triple_infix_cons] at hin
        -- `%` is no hex digit: no other escape starts inside of this one
        rcases hin with ⟨_, hin⟩ | ⟨hpa, _⟩ | ⟨hpb, _⟩ | hin
        · left
          obtain ⟨t, ht⟩ := hin
          simp only [List.cons_append, List.nil_append, List.cons.injEq] at ht
          rw [← hx, ht.1, ht.2.1]
        · rw [hpa] at ha; exact absurd ha (by decide)
        · rw [hpb] at hb; exact absurd hb (by decide)
        · exact Or.inr ⟨a', b', ha', hb', hx, hin⟩
  | literal c src hc ih =>
      have hsrc : x ∉ src := fun h => hs (List.mem_cons_of_mem _ h)
      have hxc : x ≠ urldecodeChar c := by
        unfold urldecodeChar
        split
        · exact hblank
        · exact fun h => hs (h ▸ List.mem_cons_self)
      rw [urldecode2_literal hc, List.mem_cons, or_iff_right hxc, ih hsrc]
      constructor
      · intro h
        obtain ⟨a, b, ha, hb, hx, hin⟩ := h
        exact ⟨a, b, ha, hb, hx, hin.trans (List.suffix_cons c src).isInfix⟩
      · intro h
        obtain ⟨a, b, ha, hb, hx, hin⟩ := h
        refine ⟨a, b, ha, hb, hx, ?_⟩
        rw [triple_infix_cons] at hin
        rcases hin with ⟨hpc, t, ht⟩ | hin
        · exact absurd ⟨hpc, a, b, t, ht.symm, ha, hb⟩ hc
        · exact hin

/-! ## §6. The hex digits. -/

/-- Every character `isxdigit` accepts. -/
def hexDigits : CStr := bytes "0123456789ABCDEFabcdef"

theorem mem_hexDigits {a : UInt8} (h : isxdigit a = true) : a ∈ hexDigits := by
  have key : ∀ n < 256, isxdigit (UInt8.ofNat n) = true → UInt8.ofNat n ∈ hexDigits := by
    decide +kernel
  have ha := key a.toNat a.toNat_lt_size
  rw [UInt8.ofNat_toNat] at ha
  exact ha h

/-- `%00` is the only escape of the NUL byte. -/
theorem hexPair_eq_zero {a b : UInt8} (ha : isxdigit a = true) (hb : isxdigit b = true)
    (h : hexPair a b = 0) : a = ascii '0' ∧ b = ascii '0' := by
  have key : ∀ a ∈ hexDigits, ∀ b ∈ hexDigits, hexPair a b = 0 →
      a = ascii '0' ∧ b = ascii '0' := by decide +kernel
  exact key a (mem_hexDigits ha) b (mem_hexDigits hb) h

/-- `%3D` and `%3d` are the only escapes of `=`. -/
theorem hexPair_eq_equal {a b : UInt8} (ha : isxdigit a = true) (hb : isxdigit b = true)
    (h : hexPair a b = ascii '=') :
    a = ascii '3' ∧ (b = ascii 'D' ∨ b = ascii 'd') := by
  have key : ∀ a ∈ hexDigits, ∀ b ∈ hexDigits, hexPair a b = ascii '=' →
      a = ascii '3' ∧ (b = ascii 'D' ∨ b = ascii 'd') := by decide +kernel
  exact key a (mem_hexDigits ha) b (mem_hexDigits hb) h

/-- `h` is a way to write the hex digit `d`, in either case. -/
def IsHexOf (d : Nat) (h : UInt8) : Prop :=
  (bytes "0123456789ABCDEF")[d]? = some h ∨ (bytes "0123456789abcdef")[d]? = some h

theorem hexDigitValue_of_isHexOf {d : Nat} (hd : d < 16) {h : UInt8} (hh : IsHexOf d h) :
    isxdigit h = true ∧ (hexDigitValue h).toNat = d := by
  have upper : ∀ d < 16, ∀ h ∈ (bytes "0123456789ABCDEF")[d]?,
      isxdigit h = true ∧ (hexDigitValue h).toNat = d := by decide +kernel
  have lower : ∀ d < 16, ∀ h ∈ (bytes "0123456789abcdef")[d]?,
      isxdigit h = true ∧ (hexDigitValue h).toNat = d := by decide +kernel
  rcases hh with hh | hh
  · exact upper d hd h hh
  · exact lower d hd h hh

/-- **An escape gives its byte back**, for all 256 bytes. -/
theorem urldecode2_hex {c hi lo : UInt8} (hhi : IsHexOf (c.toNat / 16) hi)
    (hlo : IsHexOf (c.toNat % 16) lo) (src : CStr) :
    urldecode2 (ascii '%' :: hi :: lo :: src) = c :: urldecode2 src := by
  have hc := c.toNat_lt
  obtain ⟨hxhi, hvhi⟩ := hexDigitValue_of_isHexOf (by omega) hhi
  obtain ⟨hxlo, hvlo⟩ := hexDigitValue_of_isHexOf (by omega) hlo
  have hpair : hexPair hi lo = c := by
    unfold hexPair
    rw [← UInt8.toNat_inj, UInt8.toNat_add, UInt8.toNat_mul, hvhi, hvlo]
    show (16 * (c.toNat / 16) % 256 + c.toNat % 16) % 256 = c.toNat
    omega
  rw [urldecode2_escape hxhi hxlo, hpair]

end Protohand
