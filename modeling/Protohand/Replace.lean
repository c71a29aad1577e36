/-
  Protohand.Replace
  ─────────────────
  **FILE REPLACEMENT**: the function `replace` of ph.c, over a file system that
  maps paths to contents.

  The function reads the file, writes the replaced text to a second one, and
  removes the first.  The rename that should follow is commented out.  So a
  call either fails and keeps the file, or succeeds and loses it
  (`replace_keeps_iff`).
-/
import Protohand.Reg

namespace Protohand

/-! ## §1. Files. -/

/-- Paths to contents. -/
abbrev FileSystem := CStr → Option (List UInt8)

def FileSystem.write (fs : FileSystem) (path : CStr) (content : List UInt8) : FileSystem :=
  fun p => if p = path then some content else fs p

def FileSystem.remove (fs : FileSystem) (path : CStr) : FileSystem :=
  fun p => if p = path then none else fs p

theorem FileSystem.write_of_ne (fs : FileSystem) {path p : CStr} (content : List UInt8)
    (h : p ≠ path) : fs.write path content p = fs p := if_neg h

theorem FileSystem.remove_self (fs : FileSystem) (path : CStr) : fs.remove path path = none :=
  if_pos rfl

/-- How the calls go whose failure `replace` looks for. -/
structure ReplaceIO where
  /-- Whether `fopen` gives a stream for a file that exists. -/
  opens : Bool
  /-- Whether `malloc` gives a block of a size. -/
  allocates : Nat → Bool
  /-- How many of a number of bytes `fwrite` writes. -/
  written : Nat → Nat

/-! ## §2. The function. -/

def OK : Nat := 0
def FAILED_TO_OPEN_REPLACE_FILE : Nat := 9
def FAILED_TO_PARSE_REGEX : Nat := 10
def FAILED_TO_ALLOC_MEM_FOR_FILE : Nat := 11

/-- `fwdslash`: the path with forward slashes. -/
def fwdslash (path : CStr) : CStr := path.map (fun c => if c = ascii '\\' then ascii '/' else c)

section Replace

variable (io : ReplaceIO) (regexReplace : RegexReplace) (regerrno : Int)

/-- `replace`: the code it returns, and the files afterwards.  The result is
written together with its terminator. -/
def replace (fs : FileSystem) (fl regex : CStr) : Option (Nat × FileSystem) :=
  let file := fwdslash fl
  match (if io.opens = true then fs file else none) with
  | none => some (FAILED_TO_OPEN_REPLACE_FILE, fs)
  | some string =>
      if io.allocates (string.length + 1) = false then some (FAILED_TO_ALLOC_MEM_FOR_FILE, fs)
      else
        match regreplace regexReplace regerrno regex (cstr string) with
        | none => none
        | some (none, _) => some (FAILED_TO_PARSE_REGEX, fs)
        | some (some result, _) =>
            let outfile := file ++ bytes ".new"
            let l := result.length
            let r := io.written (l + 1)
            let fs := fs.write outfile ((result ++ [0]).take r)
            if l + 1 ≠ r then some (127, fs)
            else
              -- the `rename(outfile, file)` behind this is commented out
              some (OK, fs.remove file)

/-! ## §3. What becomes of the file. -/

/-- What a replacement owes its caller: the new content where it reports
success, the old one where it reports an error. -/
def ReplacesOrKeeps (fs : FileSystem) (fl regex : CStr) : Prop :=
  ∀ ret fs', replace io regexReplace regerrno fs fl regex = some (ret, fs') →
    (ret = OK → ∃ string text e, fs (fwdslash fl) = some string
        ∧ regreplace regexReplace regerrno regex (cstr string) = some (some text, e)
        ∧ fs' (fwdslash fl) = some text)
      ∧ (ret ≠ OK → fs' (fwdslash fl) = fs (fwdslash fl))

/-- Nothing on the way to the `remove` fails. -/
def ReachesRemove (fs : FileSystem) (fl regex : CStr) : Prop :=
  io.opens = true ∧ ∃ string text e, fs (fwdslash fl) = some string
    ∧ io.allocates (string.length + 1) = true
    ∧ regreplace regexReplace regerrno regex (cstr string) = some (some text, e)
    ∧ io.written (text.length + 1) = text.length + 1

variable {io regexReplace regerrno}

/-- The second file is not the first. -/
theorem ne_outfile (file : CStr) : file ≠ file ++ bytes ".new" := by
  intro h
  have hlen := congrArg List.length h
  have hnew : (bytes ".new").length = 4 := by decide
  rw [List.length_append] at hlen
  omega

/-- **The two ways a call ends**: an error code and the file as it was, or `OK`
after everything went well, and the file gone. -/
theorem replace_cases {fs fs' : FileSystem} {fl regex : CStr} {ret : Nat}
    (h : replace io regexReplace regerrno fs fl regex = some (ret, fs')) :
    (ret ≠ OK ∧ fs' (fwdslash fl) = fs (fwdslash fl))
      ∨ (ret = OK ∧ ReachesRemove io regexReplace regerrno fs fl regex
          ∧ fs' (fwdslash fl) = none) := by
  dsimp only [replace] at h
  cases hopen : (if io.opens = true then fs (fwdslash fl) else none) with
  | none =>
      rw [hopen] at h
      cases h
      exact .inl ⟨by decide, rfl⟩
  | some string =>
      have hfile : io.opens = true ∧ fs (fwdslash fl) = some string := by
        split at hopen
        · next ho => exact ⟨ho, hopen⟩
        · cases hopen
      rw [hopen] at h
      simp only at h
      by_cases halloc : io.allocates (string.length + 1) = false
      · rw [if_pos halloc] at h
        cases h
        exact .inl ⟨by decide, rfl⟩
      rw [if_neg halloc] at h
      cases hreg : regreplace regexReplace regerrno regex (cstr string) with
      | none =>
          rw [hreg] at h
          cases h
      | some res =>
          obtain ⟨_ | text, e⟩ := res
          · rw [hreg] at h
            cases h
            exact .inl ⟨by decide, rfl⟩
          · rw [hreg] at h
            simp only at h
            by_cases hshort : text.length + 1 ≠ io.written (text.length + 1)
            · -- only the second file has been touched
              rw [if_pos hshort] at h
              cases h
              exact .inl ⟨by decide, FileSystem.write_of_ne _ _ (ne_outfile _)⟩
            · rw [if_neg hshort] at h
              cases h
              have hreach : ReachesRemove io regexReplace regerrno fs fl regex :=
                ⟨hfile.1, string, text, e, hfile.2, by simpa using halloc, hreg,
                  (not_not.mp hshort).symm⟩
              exact .inr ⟨rfl, hreach, FileSystem.remove_self _ _⟩

/-- Where nothing fails the call reports success. -/
theorem replace_of_reachesRemove {fs : FileSystem} {fl regex : CStr}
    (h : ReachesRemove io regexReplace regerrno fs fl regex) :
    ∃ fs', replace io regexReplace regerrno fs fl regex = some (OK, fs')
      ∧ fs' (fwdslash fl) = none := by
  obtain ⟨hopens, string, text, e, hfile, halloc, hreg, hwritten⟩ := h
  have hrun : replace io regexReplace regerrno fs fl regex
      = some (OK, (fs.write (fwdslash fl ++ bytes ".new")
          ((text ++ [0]).take (text.length + 1))).remove (fwdslash fl)) := by
    simp [replace, hopens, hfile, halloc, hreg, hwritten]
  exact ⟨_, hrun, FileSystem.remove_self _ _⟩

/-- **A FILE SURVIVES EXACTLY A REPLACEMENT THAT FAILS.** -/
theorem replace_keeps_iff (fs : FileSystem) (fl regex : CStr) :
    ReplacesOrKeeps io regexReplace regerrno fs fl regex
      ↔ ¬ ReachesRemove io regexReplace regerrno fs fl regex := by
  constructor
  · intro hall hreach
    obtain ⟨fs', hrun, hgone⟩ := replace_of_reachesRemove hreach
    obtain ⟨_, text, _, _, _, hkept⟩ := (hall OK fs' hrun).1 rfl
    rw [hgone] at hkept
    cases hkept
  · intro hnot ret fs' hrun
    rcases replace_cases hrun with ⟨hret, hkept⟩ | ⟨_, hreach, _⟩
    · exact ⟨fun hok => absurd hok hret, fun _ => hkept⟩
    · exact absurd hreach hnot

end Replace

/-- A file system that never fails a call. -/
def faultless : ReplaceIO := ⟨true, fun _ => true, id⟩

/-- What the library makes of a text with `/x/y/`. -/
def yForX : RegexReplace := fun str _ _ =>
  .ok (str.map fun c => if c = ascii 'x' then ascii 'y' else c)

/-- The only file is `a.txt`, and the replacement removes it. -/
theorem replace_loses_file :
    ¬ ReplacesOrKeeps faultless yForX 0
        (fun p => if p = bytes "a.txt" then some (bytes "x") else none)
        (bytes "a.txt") (bytes "/x/y/") := by
  intro hall
  have hreach : ReachesRemove faultless yForX 0
      (fun p => if p = bytes "a.txt" then some (bytes "x") else none)
      (bytes "a.txt") (bytes "/x/y/") :=
    ⟨rfl, bytes "x", bytes "y", 0, by decide, rfl, by decide, rfl⟩
  obtain ⟨fs', hrun, hgone⟩ := replace_of_reachesRemove hreach
  obtain ⟨_, text, _, _, _, hkept⟩ := (hall OK fs' hrun).1 rfl
  rw [hgone] at hkept
  cases hkept

end Protohand
