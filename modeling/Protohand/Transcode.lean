/-
  Protohand.Transcode
  ───────────────────
  **THE TWO TRANSCODERS OF lib/xor.c**: `transcode_file` beside `transcode_str`,
  and what the second does to its blocks.

  Both look for the magic, take it off or put it on, and run `_xor` between.
  `transcode_file` moves pointer and size together; `transcode_str` moves the
  pointer, and asks `_xor` for the size it had before.  What it copies out is
  the same (`transcodeFile_eq_transcodeStr`), but the four bytes too many lie
  behind the block, and so does the NUL it adds
  (`transcodeAccesses_inRange_iff`).
-/
import Protohand.Xor

namespace Protohand

/-! ## §1. `transcode_file`. -/

/-- `transcode_file` for the content of the file `fin` (`none`: it cannot be
opened); `fout` is whether the other file can be.  The code it returns, and
what it writes. -/
def transcodeFile (fin : Option (List UInt8)) (fout : Bool) (key : CStr) :
    Option (Int × List UInt8) :=
  match fin with
  | none => some (1, [])
  | some content =>
      if fout = false then some (2, [])
      else
        -- this block is a byte longer than the file, and ends with a NUL
        let string := content ++ [0]
        if isEncoded string = 1 then
          -- DECODE: `string += 4; fsize -= 4;`
          (xorString (string.drop 4) key (content.length - 4)).map (fun result => (0, result))
        else (xorString string key content.length).map (fun result => (0, xorMagic ++ result))

/-- `outlen`, which `transcode_str` leaves in `*fsize`. -/
def transcodeOutlen (strin : List UInt8) (fsize : Nat) : Int :=
  if isEncoded strin = 1 then fsize - 4 else fsize + 4

/-- In four bytes and more the magic is there or not, whatever is behind them. -/
theorem magic_prefix_append_iff {c : List UInt8} (hlen : 4 ≤ c.length) (m : List UInt8) :
    xorMagic <+: c ++ m ↔ xorMagic <+: c := by
  constructor
  · intro h
    exact List.prefix_of_prefix_length_le h (List.prefix_append c m) hlen
  · intro h
    exact h.trans (List.prefix_append c m)

theorem isEncoded_append_iff {c : List UInt8} (hlen : 4 ≤ c.length) (m : List UInt8) :
    isEncoded (c ++ m) = 1 ↔ xorMagic <+: c := by
  rw [isEncoded_iff, magic_prefix_append_iff hlen]

/-- Both files can be opened. -/
theorem transcodeFile_opened (content : List UInt8) (key : CStr) :
    transcodeFile (some content) true key
      = if isEncoded (content ++ [0]) = 1 then
          (xorString ((content ++ [0]).drop 4) key (content.length - 4)).map (fun r => (0, r))
        else (xorString (content ++ [0]) key content.length).map (fun r => (0, xorMagic ++ r)) :=
  rfl

/-- What `transcode_file` writes for a text with the magic. -/
theorem transcodeFile_decode {key : CStr} (hkey : key ≠ []) (d : List UInt8) :
    transcodeFile (some (xorMagic ++ d)) true key = some (0, xorBytes d key d.length) := by
  have hlen : (xorMagic ++ d).length = d.length + 4 := by
    rw [List.length_append, Nat.add_comm]
    rfl
  have hmagic : isEncoded (xorMagic ++ d ++ [0]) = 1 := by
    rw [isEncoded_iff, List.append_assoc]
    exact List.prefix_append _ _
  have hdrop : (xorMagic ++ d ++ [0]).drop 4 = d ++ [0] := by
    rw [List.append_assoc]
    rfl
  rw [transcodeFile_opened, if_pos hmagic, hlen, Nat.add_sub_cancel, hdrop, xorString_of_ne hkey, xorBytes_append]
  rfl

/-- What `transcode_file` writes for a text without it. -/
theorem transcodeFile_encode {key : CStr} (hkey : key ≠ []) {c : List UInt8}
    (hplain : ¬ xorMagic <+: c) :
    transcodeFile (some c) true key = some (0, xorMagic ++ xorBytes c key c.length) := by
  have hmagic : ¬ isEncoded (c ++ [0]) = 1 :=
    fun h => not_magic_of_zero hplain rfl ((isEncoded_iff _).mp h)
  rw [transcodeFile_opened, if_neg hmagic, xorString_of_ne hkey, xorBytes_append]
  rfl

/-- **THE TWO TRANSCODERS AGREE**, whatever is behind the block of the second:
the bytes, and how many they are. -/
theorem transcodeFile_eq_transcodeStr {key : CStr} (hkey : key ≠ []) {c : List UInt8}
    (hlen : 4 ≤ c.length) (behind : List UInt8) :
    ∃ written, transcodeFile (some c) true key = some (0, written)
      ∧ (transcodeStr (c ++ behind) c.length key).map Prod.fst = some written
      ∧ (written.length : Int) = transcodeOutlen (c ++ behind) c.length := by
  unfold transcodeOutlen
  by_cases hmagic : xorMagic <+: c
  · obtain ⟨d, rfl⟩ := hmagic
    refine ⟨_, transcodeFile_decode hkey d, ?_, ?_⟩
    · rw [transcodeStr_decode hkey]
      rfl
    · rw [if_pos ((isEncoded_append_iff hlen behind).mpr (List.prefix_append _ _)),
        length_xorBytes, List.length_append]
      show (d.length : Int) = ((4 + d.length : Nat) : Int) - 4
      omega
  · have hplain : ¬ xorMagic <+: c ++ behind :=
      fun h => hmagic ((magic_prefix_append_iff hlen behind).mp h)
    refine ⟨_, transcodeFile_encode hkey hmagic, ?_, ?_⟩
    · rw [transcodeStr_encode hkey hplain]
      rfl
    · rw [if_neg (fun h => hmagic ((isEncoded_append_iff hlen behind).mp h)),
        List.length_append, length_xorBytes]
      show ((4 + c.length : Nat) : Int) = (c.length : Int) + 4
      omega

/-- A text behind the magic, with other bytes behind it in memory. -/
theorem transcodeFile_eq_transcodeStr_sample :
    ∃ written, transcodeFile (some (xorMagic ++ bytes "abc")) true (bytes "key") = some (0, written)
      ∧ (transcodeStr (xorMagic ++ bytes "abc" ++ bytes "x") (xorMagic ++ bytes "abc").length
          (bytes "key")).map Prod.fst = some written
      ∧ (written.length : Int)
        = transcodeOutlen (xorMagic ++ bytes "abc" ++ bytes "x") (xorMagic ++ bytes "abc").length :=
  transcodeFile_eq_transcodeStr (by decide) (by decide) _

/-! ## §2. What is read and written. -/

/-- One access of `is_encoded` or `transcode_str`. -/
inductive XorAccess where
  /-- `strin[i]`. -/
  | char (i : Int)
  /-- `_xor(strin+start, key, l)`. -/
  | xor (start l : Int)
  /-- `malloc(outlen)`. -/
  | malloc (outlen : Int)
  /-- `memcpy(result+start, .., l)`, into a block of `outlen` bytes. -/
  | copy (start l outlen : Int)
  /-- `result[i] = ..`, of a block of `outlen` bytes. -/
  | cell (i outlen : Int)
  deriving DecidableEq, Repr

/-- An access that stays in its block.  The input is a block of `fsize` bytes. -/
def XorAccess.InRange (fsize : Nat) : XorAccess → Prop
  | char i => 0 ≤ i ∧ i < fsize
  | xor start l => 0 ≤ start ∧ start + l ≤ fsize
  | malloc outlen => 0 ≤ outlen
  | copy start l outlen => 0 ≤ start ∧ 0 ≤ l ∧ start + l ≤ outlen
  | cell i outlen => 0 ≤ i ∧ i < outlen

/-- The test for the magic, from index `i` on: `&&` stops at the first difference. -/
def magicReads (string : List UInt8) : (magic : CStr) → (i : Nat) → List XorAccess
  | [], _ => []
  | c :: magic, i =>
      .char i :: (if string.getD i 0 = c then magicReads string magic (i + 1) else [])

/-- `is_encoded`. -/
def isEncodedAccesses (string : List UInt8) : List XorAccess := magicReads string xorMagic 0

/-- `_xor`, on a pointer `start` bytes into the input. -/
def xorAccesses (start l : Nat) : List XorAccess :=
  .xor start l :: (List.range l).map (fun i => .char (start + i : Nat))

/-- `transcode_str`. -/
def transcodeAccesses (strin : List UInt8) (fsize : Nat) : List XorAccess :=
  let outlen := transcodeOutlen strin fsize
  magicReads strin xorMagic 0 ++ .malloc outlen ::
    (if isEncoded strin = 1 then
      xorAccesses 4 fsize ++ [.copy 0 outlen outlen, .cell outlen outlen]
    else .copy 0 4 outlen :: (xorAccesses 0 fsize ++ [.copy 4 fsize outlen]))

/-- **THE TEST FOR THE MAGIC STAYS INSIDE** exactly if the input does not end
within a magic. -/
theorem magicReads_inRange_iff (behind : List UInt8) (magic : CStr) :
    ∀ pre c : List UInt8,
      (∀ a ∈ magicReads (pre ++ (c ++ behind)) magic pre.length,
          a.InRange (pre.length + c.length))
        ↔ ¬ (c <+: magic ∧ c.length < magic.length) := by
  induction magic with
  | nil =>
      intro pre c
      simp [magicReads]
  | cons m magic ih =>
      intro pre c
      cases c with
      | nil =>
          -- the first byte is behind the block
          refine iff_of_false ?_ (fun h => h ⟨List.nil_prefix, Nat.zero_lt_succ _⟩)
          intro h
          have hfirst : (pre.length : Int) < (pre.length + 0 : Nat) := (h _ List.mem_cons_self).2
          omega
      | cons x c =>
          have hget : (pre ++ (x :: c ++ behind)).getD pre.length 0 = x := by simp
          have hsize : (pre ++ [x]).length + c.length = pre.length + (x :: c).length := by
            simp only [List.length_append, List.length_cons, List.length_nil]
            omega
          have hfirst : (XorAccess.char pre.length).InRange (pre.length + (x :: c).length) := by
            show (0 : Int) ≤ pre.length ∧ (pre.length : Int) < (pre.length + (c.length + 1) : Nat)
            omega
          have hnext := ih (pre ++ [x]) c
          rw [hsize, List.length_append, List.append_assoc] at hnext
          rw [magicReads, hget, List.forall_mem_cons, and_iff_right hfirst]
          by_cases hx : x = m
          · rw [if_pos hx, hx, List.cons_prefix_cons, List.length_cons, List.length_cons,
              Nat.add_lt_add_iff_right, and_iff_right rfl]
            rw [hx] at hnext
            exact hnext
          · rw [if_neg hx]
            exact iff_of_true (by simp) (fun h => hx (List.cons_prefix_cons.mp h.1).1)

/-- `_xor` reads what it is asked for. -/
theorem xorAccesses_inRange {start l fsize : Nat} (h : start + l ≤ fsize) :
    ∀ a ∈ xorAccesses start l, a.InRange fsize := by
  intro a ha
  rcases List.mem_cons.mp ha with rfl | ha
  · show (0 : Int) ≤ start ∧ (start : Int) + l ≤ fsize
    omega
  · obtain ⟨i, hi, rfl⟩ := List.mem_map.mp ha
    have hi := List.mem_range.mp hi
    show (0 : Int) ≤ (start + i : Nat) ∧ ((start + i : Nat) : Int) < fsize
    omega

/-- Decoding asks for the four bytes behind the input. -/
theorem transcodeAccesses_decode {strin : List UInt8} (h : isEncoded strin = 1) (fsize : Nat) :
    ¬ ∀ a ∈ transcodeAccesses strin fsize, a.InRange fsize := by
  intro hin
  have hxor : (XorAccess.xor 4 fsize).InRange fsize := by
    apply hin
    unfold transcodeAccesses
    simp [if_pos h, xorAccesses]
  have hover : (4 : Int) + fsize ≤ fsize := hxor.2
  omega

/-- Encoding stays inside where the test for the magic does. -/
theorem transcodeAccesses_encode {strin : List UInt8} (h : ¬ isEncoded strin = 1) (fsize : Nat) :
    (∀ a ∈ transcodeAccesses strin fsize, a.InRange fsize)
      ↔ ∀ a ∈ isEncodedAccesses strin, a.InRange fsize := by
  have houtlen : transcodeOutlen strin fsize = fsize + 4 := if_neg h
  have hblocks : ∀ a ∈ (.malloc (fsize + 4) :: .copy 0 4 (fsize + 4)
      :: (xorAccesses 0 fsize ++ [.copy 4 fsize (fsize + 4)]) : List XorAccess),
      a.InRange fsize := by
    rw [List.forall_mem_cons, List.forall_mem_cons, List.forall_mem_append, List.forall_mem_singleton]
    refine ⟨?_, ?_, xorAccesses_inRange (by omega), ?_⟩
    · show (0 : Int) ≤ fsize + 4
      omega
    · show (0 : Int) ≤ 0 ∧ (0 : Int) ≤ 4 ∧ (0 : Int) + 4 ≤ fsize + 4
      omega
    · show (0 : Int) ≤ 4 ∧ (0 : Int) ≤ fsize ∧ (4 : Int) + fsize ≤ fsize + 4
      omega
  unfold transcodeAccesses isEncodedAccesses
  simp only [houtlen, if_neg h]
  rw [List.forall_mem_append, and_iff_left hblocks]

/-- **WHEN THE CODEC STAYS INSIDE ITS BUFFERS**: exactly if the file and the
magic differ before either of them ends. -/
theorem transcodeAccesses_inRange_iff (c behind : List UInt8) :
    (∀ a ∈ isEncodedAccesses (c ++ behind) ++ transcodeAccesses (c ++ behind) c.length,
        a.InRange c.length)
      ↔ ¬ xorMagic <+: c ∧ ¬ c <+: xorMagic := by
  have htest := magicReads_inRange_iff behind xorMagic [] c
  rw [List.nil_append, List.length_nil, Nat.zero_add] at htest
  have htest : (∀ a ∈ isEncodedAccesses (c ++ behind), a.InRange c.length) ↔ _ := htest
  rw [List.forall_mem_append]
  by_cases hmagic : isEncoded (c ++ behind) = 1
  · -- the magic is there: in the file, or its beginning is
    refine iff_of_false (fun h => transcodeAccesses_decode hmagic _ h.2) ?_
    intro h
    exact h.2 (magic_completed h.1 ((isEncoded_iff _).mp hmagic)).2
  · have hplain : ¬ xorMagic <+: c := by
      intro h
      exact hmagic ((isEncoded_iff _).mpr (h.trans (List.prefix_append c behind)))
    rw [transcodeAccesses_encode hmagic, and_self, htest, and_iff_right hplain, not_iff_not]
    constructor
    · exact fun h => h.1
    · intro h
      -- a file that is no longer than its own beginning would be the magic
      refine ⟨h, Nat.lt_of_le_of_ne h.length_le ?_⟩
      exact fun hlen => hplain (h.eq_of_length hlen ▸ List.prefix_refl c)

/-- An encoded file of one byte is read for four bytes more, and its NUL stored
behind the block of one byte; an empty file is read. -/
theorem transcodeAccesses_leave :
    (XorAccess.xor 4 5 ∈ transcodeAccesses (bytes "0x66a") 5
        ∧ ¬ (XorAccess.xor 4 5).InRange 5)
      ∧ (XorAccess.cell 1 1 ∈ transcodeAccesses (bytes "0x66a") 5
        ∧ ¬ (XorAccess.cell 1 1).InRange 5)
      ∧ XorAccess.char 0 ∈ isEncodedAccesses [] ∧ ¬ (XorAccess.char 0).InRange 0 := by
  refine ⟨⟨by decide, ?_⟩, ⟨by decide, ?_⟩, by decide, ?_⟩
  · exact fun h => absurd h.2 (by decide)
  · exact fun h => absurd h.2 (by decide)
  · exact fun h => absurd h.2 (by decide)

end Protohand
