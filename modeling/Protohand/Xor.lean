/-
  Protohand.Xor
  ─────────────
  **lib/xor.c, and the two places of ph.c that read and write a config file**:
  `encode_file`, and the part of `main` that loads it.

  None of the buffers here is terminated when it is read, so a pointer is the
  list of the bytes from it on: those of its block, and behind them whatever
  the memory holds.  Where a list ends the memory goes on with NULs.

    • `transcodeStr_inverts_iff`   — when transcoding twice gives the text back,
    • `loadConfig_identical_iff`   — when a plain and an encoded file load alike.
-/
import Protohand.CString
import Mathlib.Data.List.GetD

namespace Protohand

/-! ## §1. lib/xor.c. -/

/-- `xor_magic`. -/
def xorMagic : CStr := bytes "0x66"

/-- The bytes `_xor` stores. -/
def xorBytes (string : List UInt8) (key : CStr) (l : Nat) : List UInt8 :=
  (List.range l).map (fun i => string.getD i 0 ^^^ key.getD (i % key.length) 0)

/-- `_xor`.  An empty key is divided by as soon as there is a byte. -/
def xorString (string : List UInt8) (key : CStr) (l : Nat) : Option (List UInt8) :=
  if key = [] ∧ 0 < l then none else some (xorBytes string key l)

/-- `is_encoded`. -/
def isEncoded (string : List UInt8) : Int :=
  if string.getD 0 0 = ascii '0' ∧ string.getD 1 0 = ascii 'x' ∧ string.getD 2 0 = ascii '6'
      ∧ string.getD 3 0 = ascii '6' then 1
  else 0

/-- `transcode_str`: the `outlen` bytes of the block in `strout`, and what is
stored behind them.  No block has a negative length. -/
def transcodeStr (strin : List UInt8) (fsize : Nat) (key : CStr) :
    Option (List UInt8 × List UInt8) :=
  if isEncoded strin = 1 then
    if fsize < 4 then none
    -- DECODE: `_xor` is asked for `fsize` bytes, of which `outlen` are copied
    else (xorString (strin.drop 4) key fsize).map (fun decoded => (decoded.take (fsize - 4), [0]))
  else (xorString strin key fsize).map (fun encoded => (xorMagic ++ encoded, []))

/-! ## §2. ph.c. -/

/-- `encode_file` for a file of content `infile`, read into a block of just its
size with `behind` behind it: what is written to the other file. -/
def encodeFile (behind : List UInt8) (key : CStr) (infile : List UInt8) : Option (List UInt8) :=
  (transcodeStr (infile ++ behind) infile.length key).map Prod.fst

/-- `main` (load config): the string that `ini_parse_string` is handed, for a
file of content `file` read into a block of just its size. -/
def loadConfig (behind : List UInt8) (key : CStr) (file : List UInt8) : Option CStr :=
  let string := file ++ behind
  if isEncoded string = 1 then
    (transcodeStr string file.length key).map (fun r => cstr (r.1 ++ r.2))
  else some (cstr string)

/-! ## §3. The key stream. -/

@[simp] theorem length_xorBytes (string : List UInt8) (key : CStr) (l : Nat) :
    (xorBytes string key l).length = l := by
  unfold xorBytes
  rw [List.length_map, List.length_range]

/-- Only the first `l` bytes are read. -/
theorem xorBytes_append (s t : List UInt8) (key : CStr) :
    xorBytes (s ++ t) key s.length = xorBytes s key s.length := by
  unfold xorBytes
  apply List.map_congr_left
  intro i hi
  rw [List.getD_append s t 0 i (List.mem_range.mp hi)]

/-- The key starts anew with every call: a longer result starts with a shorter one. -/
theorem take_xorBytes (s : List UInt8) (key : CStr) (l n : Nat) :
    (xorBytes s key (l + n)).take l = xorBytes s key l := by
  unfold xorBytes
  rw [← List.map_take, List.take_range, Nat.min_eq_left (Nat.le_add_right l n)]

/-- **The key stream cancels itself.** -/
theorem xorBytes_xorBytes (s : List UInt8) (key : CStr) :
    xorBytes (xorBytes s key s.length) key s.length = s := by
  apply List.ext_getElem
  · rw [length_xorBytes]
  · intro i hi hi'
    have hget : (xorBytes s key s.length).getD i 0
        = s.getD i 0 ^^^ key.getD (i % key.length) 0 := by
      rw [List.getD_eq_getElem _ 0 (by rw [length_xorBytes]; exact hi')]
      simp [xorBytes]
    have hlast : (xorBytes (xorBytes s key s.length) key s.length)[i]
        = (xorBytes s key s.length).getD i 0 ^^^ key.getD (i % key.length) 0 := by
      simp [xorBytes]
    rw [hlast, hget, UInt8.xor_assoc, UInt8.xor_self, UInt8.xor_zero, List.getD_eq_getElem _ 0 hi']

theorem xorString_of_ne {key : CStr} (hkey : key ≠ []) (string : List UInt8) (l : Nat) :
    xorString string key l = some (xorBytes string key l) := if_neg (fun h => hkey h.1)

/-! ## §4. The magic. -/

theorem xorMagic_eq : xorMagic = [ascii '0', ascii 'x', ascii '6', ascii '6'] := rfl

theorem zero_not_mem_magic : (0 : UInt8) ∉ xorMagic := by decide

/-- No NUL is part of the magic, so none of it is found behind the last byte. -/
theorem isEncoded_iff (string : List UInt8) : isEncoded string = 1 ↔ xorMagic <+: string := by
  have hzero : ∀ c ∈ xorMagic, (0 : UInt8) ≠ c := by
    rintro c hc rfl
    exact zero_not_mem_magic hc
  rw [xorMagic_eq] at hzero ⊢
  unfold isEncoded
  rcases string with _ | ⟨a, _ | ⟨b, _ | ⟨c, _ | ⟨d, t⟩⟩⟩⟩
  · simp [hzero]
  · simp [hzero]
  · simp [hzero]
  · simp [hzero]
  · simp [List.cons_prefix_cons, eq_comm]

/-- Memory behind a text completes the magic only if the text is its beginning. -/
theorem magic_completed {p m : List UInt8} (hp : ¬ xorMagic <+: p) (h : xorMagic <+: p ++ m) :
    p.length < 4 ∧ p <+: xorMagic := by
  have hlen : p.length < xorMagic.length := by
    by_contra hge
    exact hp (List.prefix_of_prefix_length_le h (List.prefix_append p m) (by omega))
  exact ⟨hlen, List.prefix_of_prefix_length_le (List.prefix_append p m) h (by omega)⟩

/-- A NUL behind a text keeps the magic from being completed. -/
theorem not_magic_of_zero {p m : List UInt8} (hp : ¬ xorMagic <+: p)
    (hm : m.head?.getD 0 = 0) : ¬ xorMagic <+: p ++ m := by
  intro h
  have hlen := (magic_completed hp h).1
  cases m with
  | nil => exact hp (by rwa [List.append_nil] at h)
  | cons x m =>
      obtain rfl : x = 0 := hm
      -- the NUL stands where the magic goes on
      have hget := List.IsPrefix.getElem h (show p.length < xorMagic.length from hlen)
      have hmem : (0 : UInt8) ∈ xorMagic := by
        rw [List.getElem_append_right (Nat.le_refl _)] at hget
        simp only [Nat.sub_self, List.getElem_cons_zero] at hget
        exact hget ▸ List.getElem_mem _
      exact zero_not_mem_magic hmem

/-! ## §5. Transcoding twice. -/

section Transcode

variable {key : CStr} (hkey : key ≠ [])
include hkey

/-- What does not start with the magic is encoded. -/
theorem transcodeStr_encode {p m : List UInt8} (h : ¬ xorMagic <+: p ++ m) :
    transcodeStr (p ++ m) p.length key = some (xorMagic ++ xorBytes p key p.length, []) := by
  unfold transcodeStr
  rw [if_neg (fun hn => h ((isEncoded_iff _).mp hn)), xorString_of_ne hkey, xorBytes_append]
  rfl

/-- What starts with the magic is decoded, whatever is behind it. -/
theorem transcodeStr_decode (d m : List UInt8) :
    transcodeStr (xorMagic ++ d ++ m) (xorMagic ++ d).length key
      = some (xorBytes d key d.length, [0]) := by
  have hlen : (xorMagic ++ d).length = d.length + 4 := by
    rw [List.length_append, Nat.add_comm]
    rfl
  have hdrop : (xorMagic ++ d ++ m).drop 4 = d ++ m := by
    rw [List.append_assoc]
    rfl
  have hmagic : isEncoded (xorMagic ++ d ++ m) = 1 := by
    rw [isEncoded_iff, List.append_assoc]
    exact List.prefix_append _ _
  unfold transcodeStr
  rw [if_pos hmagic, hlen, if_neg (by omega), xorString_of_ne hkey, hdrop, Option.map_some,
    Nat.add_sub_cancel, take_xorBytes, xorBytes_append]

end Transcode

/-- The beginning of a magic that the memory completes cannot be decoded. -/
theorem transcodeStr_short {key : CStr} {p m : List UInt8} (hp : ¬ xorMagic <+: p)
    (h : xorMagic <+: p ++ m) : transcodeStr (p ++ m) p.length key = none := by
  unfold transcodeStr
  rw [if_pos ((isEncoded_iff _).mpr h), if_pos (magic_completed hp h).1]

/-- Encoding `p` and decoding it again, whatever is behind `p` and behind the
encoded text. -/
def RoundTrips (key : CStr) (p : List UInt8) : Prop :=
  ∀ m m' : List UInt8, ∃ e, (transcodeStr (p ++ m) p.length key).map Prod.fst = some e
    ∧ e.length = p.length + 4 ∧ isEncoded (e ++ m') = 1
    ∧ (transcodeStr (e ++ m') e.length key).map Prod.fst = some p

/-- Decoding `c` and encoding it again, whatever is behind `c` and behind what
decoding stores. -/
def RoundTripsBack (key : CStr) (c : List UInt8) : Prop :=
  ∀ m m' : List UInt8, ∃ r, transcodeStr (c ++ m) c.length key = some r
    ∧ (transcodeStr (r.1 ++ r.2 ++ m') r.1.length key).map Prod.fst = some c

theorem roundTrips_iff {key : CStr} (hkey : key ≠ []) {p : List UInt8} (hp : ¬ xorMagic <+: p) :
    RoundTrips key p ↔ ¬ p <+: xorMagic := by
  constructor
  · intro hround hpre
    obtain ⟨m, hm⟩ := hpre
    obtain ⟨e, he, _⟩ := hround m []
    have hmagic : xorMagic <+: p ++ m := by rw [hm]
    rw [transcodeStr_short hp hmagic] at he
    cases he
  · intro hpre m m'
    have hmagic : ¬ xorMagic <+: p ++ m := fun h => hpre (magic_completed hp h).2
    refine ⟨xorMagic ++ xorBytes p key p.length, ?_, ?_, ?_, ?_⟩
    · rw [transcodeStr_encode hkey hmagic]
      rfl
    · rw [List.length_append, length_xorBytes, Nat.add_comm]
      rfl
    · rw [isEncoded_iff, List.append_assoc]
      exact List.prefix_append _ _
    · rw [transcodeStr_decode hkey, length_xorBytes, xorBytes_xorBytes]
      rfl

theorem roundTripsBack {key : CStr} (hkey : key ≠ []) {d : List UInt8}
    (hd : ¬ xorMagic <+: xorBytes d key d.length) : RoundTripsBack key (xorMagic ++ d) := by
  intro m m'
  refine ⟨_, transcodeStr_decode hkey d m, ?_⟩
  -- the NUL behind the decoded text is what the second call finds there
  have hmagic : ¬ xorMagic <+: xorBytes d key d.length ++ ([0] ++ m') := not_magic_of_zero hd rfl
  rw [List.append_assoc, transcodeStr_encode hkey hmagic, length_xorBytes, xorBytes_xorBytes]
  rfl

/-- **WHEN TRANSCODING TWICE GIVES THE TEXT BACK**: for a text without the magic
exactly if it is not the beginning of one, and for an encoded text always. -/
theorem transcodeStr_inverts_iff {key : CStr} (hkey : key ≠ []) :
    (∀ p, ¬ xorMagic <+: p → (RoundTrips key p ↔ ¬ p <+: xorMagic))
      ∧ ∀ d, ¬ xorMagic <+: xorBytes d key d.length → RoundTripsBack key (xorMagic ++ d) :=
  ⟨fun _ hp => roundTrips_iff hkey hp, fun _ hd => roundTripsBack hkey hd⟩

/-- The empty text does not come back: the magic is looked for behind it. -/
theorem transcodeStr_reads_behind :
    ¬ xorMagic <+: [] ∧ ¬ RoundTrips (bytes "k") [] := by
  refine ⟨by decide, ?_⟩
  intro hround
  obtain ⟨e, he, _⟩ := hround (bytes "0x66") []
  exact absurd he (by simp [show transcodeStr (bytes "0x66") 0 (bytes "k") = none from rfl])

/-- A key longer than one text and shorter than the other. -/
theorem transcodeStr_inverts_sample :
    (RoundTrips (bytes "key") (bytes "[a]") ↔ ¬ bytes "[a]" <+: xorMagic)
      ∧ RoundTripsBack (bytes "key") (xorMagic ++ bytes "abcdefgh") :=
  ⟨(transcodeStr_inverts_iff (by decide)).1 _ (by decide),
    (transcodeStr_inverts_iff (by decide)).2 _ (by decide)⟩

/-! ## §6. Loading a configuration. -/

/-- A file that is handed on as it was read is cut at the first NUL behind it. -/
theorem loadConfig_plain {key : CStr} {c m : List UInt8} (h : ¬ xorMagic <+: c ++ m) :
    loadConfig m key c = some (cstr (c ++ m)) :=
  if_neg (fun hn => h ((isEncoded_iff _).mp hn))

theorem cstr_append_eq_iff {c m : List UInt8} (hc : IsCStr c) :
    cstr (c ++ m) = c ↔ m.head?.getD 0 = 0 := by
  unfold cstr
  rw [List.takeWhile_append_of_pos (Text.bne_of_not_mem hc), List.append_right_eq_self]
  cases m with
  | nil => simp
  | cons x m => simp [List.takeWhile_cons]

/-- An encoded file is loaded as it was before, whatever the memory holds. -/
theorem loadConfig_encoded {key : CStr} (hkey : key ≠ []) {c : List UInt8} (hc : IsCStr c)
    (m : List UInt8) : loadConfig m key (xorMagic ++ xorBytes c key c.length) = some c := by
  have hmagic : isEncoded (xorMagic ++ xorBytes c key c.length ++ m) = 1 := by
    rw [isEncoded_iff, List.append_assoc]
    exact List.prefix_append _ _
  unfold loadConfig
  rw [if_pos hmagic, transcodeStr_decode hkey, length_xorBytes, xorBytes_xorBytes,
    Option.map_some, (cstr_append_eq_iff hc).mpr rfl]

/-- **WHEN A PLAIN AND AN ENCODED CONFIG FILE ARE READ ALIKE**: exactly if the
byte behind the block of the plain file is a NUL, and the memory behind the
block that `encode_file` reads does not complete the magic. -/
theorem loadConfig_identical_iff {key : CStr} (hkey : key ≠ []) {c : List UInt8} (hc : IsCStr c)
    (hplain : ¬ xorMagic <+: c) (m₀ m₁ m₂ : List UInt8) :
    (loadConfig m₀ key c = some c ∧ (encodeFile m₁ key c).bind (loadConfig m₂ key) = some c)
      ↔ m₀.head?.getD 0 = 0 ∧ ¬ xorMagic <+: c ++ m₁ := by
  constructor
  · intro hboth
    obtain ⟨hload, hencode⟩ := hboth
    constructor
    · by_cases hmagic : xorMagic <+: c ++ m₀
      · have hshort : loadConfig m₀ key c = none := by
          unfold loadConfig
          rw [if_pos ((isEncoded_iff _).mpr hmagic), transcodeStr_short hplain hmagic]
          rfl
        rw [hshort] at hload
        cases hload
      · rw [loadConfig_plain hmagic, Option.some.injEq] at hload
        exact (cstr_append_eq_iff hc).mp hload
    · intro hmagic
      unfold encodeFile at hencode
      rw [transcodeStr_short hplain hmagic] at hencode
      cases hencode
  · intro hcond
    obtain ⟨hzero, hmagic⟩ := hcond
    constructor
    · rw [loadConfig_plain (not_magic_of_zero hplain hzero), (cstr_append_eq_iff hc).mpr hzero]
    · unfold encodeFile
      rw [transcodeStr_encode hkey hmagic]
      exact loadConfig_encoded hkey hc m₂

/-- `[a]` is read on into the memory behind its block. -/
theorem loadConfig_reads_behind :
    loadConfig (bytes "x=y") (bytes "k") (bytes "[a]") = some (bytes "[a]x=y")
      ∧ loadConfig (bytes "x=y") (bytes "k") (bytes "[a]") ≠ some (bytes "[a]") := by
  decide

/-- Both ways of storing `[a]`, with a NUL behind the plain one. -/
theorem loadConfig_identical_iff_sample :
    (loadConfig [0] (bytes "k") (bytes "[a]") = some (bytes "[a]")
        ∧ (encodeFile (bytes "?") (bytes "k") (bytes "[a]")).bind
            (loadConfig (bytes "!") (bytes "k")) = some (bytes "[a]"))
      ↔ ([0] : List UInt8).head?.getD 0 = 0 ∧ ¬ xorMagic <+: bytes "[a]" ++ bytes "?" :=
  loadConfig_identical_iff (by decide) (by decide) (by decide) _ _ _

end Protohand
