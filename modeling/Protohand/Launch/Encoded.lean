/-
  Protohand.Launch.Encoded
  ────────────────────────
  **A CONFIGURATION THAT IS ENCODED**: `encode_file` on the `ph.ini` of an
  installation, and the launches before and behind it.

  Without a third argument `encode_file` writes `ph.dat` next to `ph.ini`, and
  `main` looks for `ph.dat` first.  So the next launch reads the encoded text,
  and it does what the launch before did (`encoded_launch`).  `encode_file` does
  not look at what it has written, so this is about a file that is written whole.
-/
import Protohand.Launch.History
import Protohand.Messages.Fit
import Protohand.Xor

namespace Protohand

/-! ## §1. The installation. -/

/-- `encodek`. -/
def encodek : CStr := bytes "3fJ%d65,$/@dfhs(3l"

/-- `outfile`, where there is no third argument: the last four characters of the
name are written over. -/
def encodedName (infile : CStr) : Option CStr :=
  if infile.length < 4 then none else some (infile.take (infile.length - 4) ++ bytes ".dat")

/-- What is left of a content in a file, behind `fopen`, `fwrite` and `fclose`;
`none` if the file is not opened. -/
abbrev WriteOut := CStr → List UInt8 → Option (List UInt8)

/-- `encode_file`: what it returns, and the files behind it.  `behind` is the
memory behind the block of the first file. -/
def encodeMode (writeOut : WriteOut) (behind : List UInt8) (fs : FileSystem) (infile : CStr)
    (outArg : Option CStr) : Option (Nat × FileSystem) :=
  (outArg.or (encodedName infile)).bind fun outfile =>
    match fs infile with
    | none => some (1, fs)
    | some string => (encodeFile behind encodek string).bind fun result =>
        -- a file that is not opened is written all the same, before it is looked at
        (writeOut outfile result).map fun left => (OK, fs.write outfile left)

/-- The run finds these files, and this configuration. -/
def MainRun.finds (r : MainRun) (fs : FileSystem) (ini_content : Option CStr) : MainRun :=
  { r with fileExists := fun path => (fs path).isSome, fs := fs, iniContent := ini_content }

/-- The run on a machine with these files; `behind` is the memory behind the
block that the configuration is read into. -/
def MainRun.on (r : MainRun) (fs : FileSystem) (behind : List UInt8) : MainRun :=
  r.finds fs (((r.finds fs none).iniFile.bind fs).bind (loadConfig behind encodek))

/-- The files of an effect, changed. -/
def Effect.mapFiles (f : FileSystem → FileSystem) : Effect → Effect
  | .replaced fs => .replaced (f fs)
  | .system line => .system line
  | .runcmd cmd mode => .runcmd cmd mode
  | .spawn exe args => .spawn exe args
  | .undefined => .undefined

/-! ## §2. One more file. -/

theorem write_comm (fs : FileSystem) {p q : CStr} (h : p ≠ q) (content content' : List UInt8) :
    (fs.write p content).write q content' = (fs.write q content').write p content := by
  funext path
  show (if path = q then some content' else if path = p then some content else fs path)
    = if path = p then some content else if path = q then some content' else fs path
  by_cases hp : path = p
  · subst hp
    rw [if_neg h, if_pos rfl, if_pos rfl]
  · rw [if_neg hp, if_neg hp]

theorem remove_write (fs : FileSystem) {p q : CStr} (h : p ≠ q) (content : List UInt8) :
    (fs.write p content).remove q = (fs.remove q).write p content := by
  funext path
  show (if path = q then none else if path = p then some content else fs path)
    = if path = p then some content else if path = q then none else fs path
  by_cases hp : path = p
  · subst hp
    rw [if_neg h, if_pos rfl, if_pos rfl]
  · rw [if_neg hp, if_neg hp]

/-- A file that is there stays there. -/
theorem isSome_write {fs : FileSystem} {file : CStr} (path : CStr) (content : List UInt8)
    (h : (fs file).isSome = true) : (fs.write path content file).isSome = true := by
  unfold FileSystem.write
  split
  · rfl
  · exact h

/-- **`replace` does not see a file** that it neither reads nor writes. -/
theorem replace_write {io : ReplaceIO} {regexReplace : RegexReplace} {regerrno : Int}
    {fs fs' : FileSystem} {fl regex path : CStr} (hpath : fs path = none)
    (hnew : ¬ bytes ".new" <:+ path) (content : List UInt8)
    (h : replace io regexReplace regerrno fs fl regex = some (0, fs')) :
    replace io regexReplace regerrno (fs.write path content) fl regex
      = some (0, fs'.write path content) := by
  have hout : path ≠ fwdslash fl ++ bytes ".new" := by
    rintro rfl
    exact hnew (List.suffix_append _ _)
  rcases replace_cases h with ⟨hfailed, -⟩ | ⟨-, ⟨hopens, string, text, e, hfile, halloc, hreg,
    hwritten⟩, -⟩
  · exact absurd rfl hfailed
  -- the file it replaces in is there, and this one is not
  · have hne : path ≠ fwdslash fl := by
      rintro rfl
      rw [hpath] at hfile
      cases hfile
    -- what it leaves where nothing fails
    have hrun : ∀ fs : FileSystem, fs (fwdslash fl) = some string →
        replace io regexReplace regerrno fs fl regex
          = some (OK, (fs.write (fwdslash fl ++ bytes ".new")
            ((text ++ [0]).take (text.length + 1))).remove (fwdslash fl)) := by
      intro fs hfile
      simp [replace, hopens, hfile, halloc, hreg, hwritten]
    have hthere : fs.write path content (fwdslash fl) = some string :=
      (FileSystem.write_of_ne fs content (Ne.symm hne)).trans hfile
    have hleft := (hrun fs hfile).symm.trans h
    injection hleft with hleft
    injection hleft with _ hleft
    rw [hrun _ hthere, ← hleft, write_comm fs hout, remove_write _ hne]
    rfl

section Found

variable {r : MainRun} {fs : FileSystem} {c path : CStr} {content : List UInt8} {d : Launch}

/-- **A run that is cleared** stays so with one more file, and replaces in the
same one. -/
theorem cleared_write (hpath : fs path = none) (hnew : ¬ bytes ".new" <:+ path)
    (hini : (r.finds (fs.write path content) (some c)).iniFile ≠ none)
    (h : Cleared (r.finds fs (some c)) d) :
    Cleared (r.finds (fs.write path content) (some c))
      { d with files := d.files.map (Effect.mapFiles (·.write path content)) } := by
  obtain ⟨⟨hmode, ⟨-, hdownload, hopened, hcfg, hlog, hhelp, hprefix⟩, hparsed, hselected, hfound,
    hchosen, hcommand, hdefault, text, htext, hthere⟩, hreplaced, hpadded, hquery, hcmd, hprecmd,
    hexe⟩ := h
  have hmust : FileThere (r.finds (fs.write path content) (some c)) d.parsed.nvquery d.config := by
    refine ⟨text, htext, ?_⟩
    rcases hthere with hempty | ⟨file, hfile, hexists⟩
    · exact Or.inl hempty
    · exact Or.inr ⟨file, hfile, isSome_write path content hexists⟩
  have hfiles : Replaces (r.finds (fs.write path content) (some c)) d.parsed.nvquery d.config
      (d.files.map (Effect.mapFiles (·.write path content))) := by
    generalize d.files = files at hreplaced
    cases hreplaced with
    | none hempty => exact .none hempty
    | file htext hne hregex hfile hreplace =>
        exact .file htext hne hregex hfile (replace_write hpath hnew content hreplace)
  exact ⟨⟨hmode, ⟨hini, hdownload, hopened, hcfg, hlog, hhelp, hprefix⟩, hparsed, hselected, hfound,
    hchosen, hcommand, hdefault, hmust⟩, hfiles, hpadded, hquery, hcmd, hprecmd, hexe⟩

theorem mapFiles_starts (f : FileSystem → FileSystem) (p : Platform) (config : Configuration)
    (precmd cmd : CStr) :
    (startEffects p config precmd cmd).map (Effect.mapFiles f)
      = startEffects p config precmd cmd := by
  unfold startEffects
  split
  · split <;> rfl
  · rfl

end Found

/-! ## §3. Before and behind `encode_file`. -/

/-- `ph.dat` comes first. -/
theorem iniFile_finds {r : MainRun} (hconfig : r.configArg = none) (fs : FileSystem)
    (ini_content : Option CStr) :
    (r.finds fs ini_content).iniFile
      = if (fs (r.dir ++ bytes "ph.dat")).isSome = true then some (r.dir ++ bytes "ph.dat")
        else if (fs (r.dir ++ bytes "ph.ini")).isSome = true then some (r.dir ++ bytes "ph.ini")
        else none := by
  have hfound : (r.finds fs ini_content).configArg = none := hconfig
  unfold MainRun.iniFile
  rw [hfound]
  rfl

/-- Without it there is `ph.ini`. -/
theorem iniFile_plain {r : MainRun} (hconfig : r.configArg = none) {fs : FileSystem} {c : CStr}
    (hini : fs (r.dir ++ bytes "ph.ini") = some c) (hdat : fs (r.dir ++ bytes "ph.dat") = none)
    (ini_content : Option CStr) :
    (r.finds fs ini_content).iniFile = some (r.dir ++ bytes "ph.ini") := by
  rw [iniFile_finds hconfig, if_neg (by rw [hdat]; decide), if_pos (by rw [hini]; rfl)]

/-- What `main` reads from `ph.ini`, with a NUL behind the block. -/
theorem on_plain {r : MainRun} (hconfig : r.configArg = none) {fs : FileSystem} {c : CStr}
    (hini : fs (r.dir ++ bytes "ph.ini") = some c) (hdat : fs (r.dir ++ bytes "ph.dat") = none)
    (hc : IsCStr c) (hplain : ¬ xorMagic <+: c) {behind : List UInt8}
    (hzero : behind.head?.getD 0 = 0) : r.on fs behind = r.finds fs (some c) := by
  have hfile := iniFile_plain hconfig hini hdat none
  have hload : loadConfig behind encodek c = some c := by
    rw [loadConfig_plain (not_magic_of_zero hplain hzero), (cstr_append_eq_iff hc).mpr hzero]
  unfold MainRun.on
  rw [hfile, Option.bind_some, hini, Option.bind_some, hload]

/-- What `encode_file` writes for a text. -/
def encodedText (c : CStr) : List UInt8 := xorMagic ++ xorBytes c encodek c.length

/-- What `main` reads from `ph.dat`, whatever is behind the block. -/
theorem on_encoded {r : MainRun} (hconfig : r.configArg = none) {fs : FileSystem} {c : CStr}
    (hdat : fs (r.dir ++ bytes "ph.dat") = some (encodedText c)) (hc : IsCStr c)
    (behind : List UInt8) :
    r.on fs behind = r.finds fs (some c) ∧ (r.finds fs (some c)).iniFile ≠ none := by
  have hfile : ∀ content, (r.finds fs content).iniFile = some (r.dir ++ bytes "ph.dat") := by
    intro content
    rw [iniFile_finds hconfig, if_pos (by rw [hdat]; rfl)]
  have hload : loadConfig behind encodek (encodedText c) = some c :=
    loadConfig_encoded (by decide) hc behind
  refine ⟨?_, by rw [hfile]; exact Option.some_ne_none _⟩
  unfold MainRun.on
  rw [hfile, Option.bind_some, hdat, Option.bind_some, hload]

theorem encodedName_ini (dir : CStr) :
    encodedName (dir ++ bytes "ph.ini") = some (dir ++ bytes "ph.dat") := by
  have hini : dir ++ bytes "ph.ini" = (dir ++ bytes "ph") ++ bytes ".ini" := by
    rw [List.append_assoc]
    rfl
  have hdat : dir ++ bytes "ph.dat" = (dir ++ bytes "ph") ++ bytes ".dat" := by
    rw [List.append_assoc]
    rfl
  have hlen : (bytes ".ini").length = 4 := rfl
  unfold encodedName
  rw [hini, hdat, List.length_append, hlen, if_neg (by omega), Nat.add_sub_cancel,
    List.take_left]

/-- What `encode_file` leaves. -/
theorem encodeMode_ok {writeOut : WriteOut} {behind : List UInt8} {fs fs' : FileSystem}
    {dir c : CStr} (hini : fs (dir ++ bytes "ph.ini") = some c) (hplain : ¬ xorMagic <+: c)
    (hwrite : writeOut (dir ++ bytes "ph.dat") (encodedText c) = some (encodedText c))
    (h : encodeMode writeOut behind fs (dir ++ bytes "ph.ini") none = some (0, fs')) :
    fs' = fs.write (dir ++ bytes "ph.dat") (encodedText c) := by
  unfold encodeMode at h
  rw [Option.none_or, encodedName_ini, Option.bind_some, hini] at h
  dsimp only at h
  unfold encodeFile at h
  by_cases hmagic : xorMagic <+: c ++ behind
  · -- the block of a text that begins like a magic may not be read as a whole
    rw [transcodeStr_short hplain hmagic] at h
    cases h
  · rw [transcodeStr_encode (by decide) hmagic] at h
    change (writeOut _ (encodedText c)).map _ = _ at h
    rw [hwrite] at h
    injection h with h
    injection h with _ h
    exact h.symm

/-- How the name of a file in a directory does not end. -/
theorem not_suffix_dir (dir : CStr) {tail name : CStr} (hlen : tail.length ≤ name.length)
    (h : ¬ tail <:+ name) : ¬ tail <:+ dir ++ name := fun hsuffix =>
  h (List.suffix_of_suffix_length_le hsuffix (List.suffix_append dir name) hlen)

/-! ## §4. The stages with the other file. -/

/-- The state of `main`, with other files. -/
def MainState.onFiles (s : MainState) (fs : FileSystem) : MainState :=
  { s with run := s.run.finds fs s.run.iniContent }

/-- What most stages read and store does not depend on the files. -/
theorem sound_onFiles {k : MainStage} (hk : k ≠ .readConfig) (hk' : k ≠ .replaceInFile)
    (s : MainState) (fs : FileSystem) : k.sound (s.onFiles fs) = k.sound s := by
  cases k with
  | readConfig => exact absurd rfl hk
  | replaceInFile => exact absurd rfl hk'
  | checkMode | expandLogPath | expandPrefixHelp | expandPrefixCmd | openLog | startLog
    | parseUri | readSection | checkSection | chooseCmd | expandDefaultPath | expandReplaceFile
    | expandFileMustExist | checkFile | transformQuery | expandCmd | expandPrecmd | checkExe
    | cleanLogfile => rfl

/-- Nor does the room that their texts need. -/
theorem fits_onFiles {k : MainStage} (hk : k ≠ .startLog) (hk' : k ≠ .replaceInFile)
    (s : MainState) (fs : FileSystem) : k.Fits (s.onFiles fs) ↔ k.Fits s := by
  cases k with
  | startLog => exact absurd rfl hk
  | replaceInFile => exact absurd rfl hk'
  | checkMode | readConfig | expandLogPath | expandPrefixHelp | expandPrefixCmd | openLog
    | parseUri | readSection | checkSection | chooseCmd | expandDefaultPath | expandReplaceFile
    | expandFileMustExist | checkFile | transformQuery | expandCmd | expandPrecmd | checkExe
    | cleanLogfile => exact Iff.rfl

/-- Nor what they check and change. -/
theorem passed_onFiles {k : MainStage} (hk : k ≠ .readConfig) (hk' : k ≠ .checkFile)
    (hk'' : k ≠ .replaceInFile) {s t : MainState} (h : k.Passed s t) (fs : FileSystem) :
    k.Passed (s.onFiles fs) (t.onFiles fs) := by
  cases k with
  | readConfig => exact absurd rfl hk
  | checkFile => exact absurd rfl hk'
  | replaceInFile => exact absurd rfl hk''
  | startLog => exact congrArg (MainState.onFiles · fs) h
  | expandLogPath | expandPrefixHelp | expandPrefixCmd | expandDefaultPath | expandReplaceFile
    | expandFileMustExist | expandCmd =>
      obtain ⟨x, hx, hret, rfl⟩ := h
      exact ⟨x, hx, hret, rfl⟩
  | checkMode | openLog | readSection | checkSection | transformQuery | checkExe
    | cleanLogfile =>
      obtain ⟨hcheck, rfl⟩ := h
      exact ⟨hcheck, rfl⟩
  | parseUri =>
      obtain ⟨parsed, hparsed, rfl⟩ := h
      exact ⟨parsed, hparsed, rfl⟩
  | chooseCmd =>
      obtain ⟨runCmd, preRunCmd, hchosen, hne, rfl⟩ := h
      exact ⟨runCmd, preRunCmd, hchosen, hne, rfl⟩
  | expandPrecmd =>
      rcases h with ⟨hempty, rfl⟩ | ⟨hne, x, hx, hret, rfl⟩
      · exact Or.inl ⟨hempty, rfl⟩
      · exact Or.inr ⟨hne, x, hx, hret, rfl⟩

/-- A stage leaves what the program is started with. -/
theorem passed_run {k : MainStage} {s t : MainState} (h : k.Passed s t) : t.run = s.run := by
  cases k with
  | startLog => exact congrArg MainState.run h
  | readConfig =>
      obtain ⟨-, -, _, -, -, rfl⟩ := h
      rfl
  | expandLogPath | expandPrefixHelp | expandPrefixCmd | expandDefaultPath | expandReplaceFile
    | expandFileMustExist | expandCmd =>
      obtain ⟨_, -, -, rfl⟩ := h
      rfl
  | checkMode | openLog | readSection | checkSection | transformQuery | checkExe
    | cleanLogfile =>
      obtain ⟨-, rfl⟩ := h
      rfl
  | parseUri =>
      obtain ⟨_, -, rfl⟩ := h
      rfl
  | chooseCmd =>
      obtain ⟨_, _, -, -, rfl⟩ := h
      rfl
  | expandPrecmd =>
      rcases h with ⟨-, rfl⟩ | ⟨-, _, -, -, rfl⟩ <;> rfl
  | checkFile =>
      rcases h with ⟨-, rfl⟩ | ⟨-, _, -, -, rfl⟩ <;> rfl
  | replaceInFile =>
      rcases h with ⟨-, rfl⟩ | ⟨-, -, _, _, -, -, rfl⟩ <;> rfl

section Found

variable {r : MainRun} {fs : FileSystem} {c : CStr} {s t : MainState}

theorem run_onFiles (hs : s.run = r.finds fs (some c)) (fs' : FileSystem) :
    (s.onFiles fs').run = r.finds fs' (some c) := by
  show s.run.finds fs' s.run.iniContent = _
  rw [hs]
  rfl

/-- The configuration is found in the encoded file. -/
theorem iniFile_onFiles (hconfig : r.configArg = none) (hs : s.run = r.finds fs (some c))
    (content : List UInt8) :
    (s.onFiles (fs.write (r.dir ++ bytes "ph.dat") content)).run.iniFile
      = some (r.dir ++ bytes "ph.dat") := by
  have hthere : fs.write (r.dir ++ bytes "ph.dat") content (r.dir ++ bytes "ph.dat")
      = some content := if_pos rfl
  rw [run_onFiles hs, iniFile_finds hconfig, if_pos (by rw [hthere]; rfl)]

/-- The configuration is read. -/
theorem readConfig_encoded (hconfig : r.configArg = none) (hs : s.run = r.finds fs (some c))
    (hsound : MainStage.sound .readConfig s = true) (h : MainStage.Passed .readConfig s t)
    (content : List UInt8) :
    let fs' := fs.write (r.dir ++ bytes "ph.dat") content
    MainStage.sound .readConfig (s.onFiles fs') = true
      ∧ MainStage.Passed .readConfig (s.onFiles fs') (t.onFiles fs') := by
  intro fs'
  obtain ⟨hthere, hdownload, text, htext, hret, rfl⟩ := h
  obtain ⟨hnamed, hroom⟩ := (Bool.and_eq_true _ _).mp hsound
  -- the stage has not ended the run, so the directives of `_global` were logged
  have hglobal : s.run.globalLogged = true := by
    rcases (Bool.or_eq_true _ _).mp hroom with hends | hglobal
    · rcases of_decide_eq_true hends with hnone | ⟨hremote, hfailed⟩
      · exact absurd hnone hthere
      · exact absurd (hdownload hremote) hfailed
    · exact hglobal
  have hfile : (s.onFiles fs').run.iniFile ≠ none := by
    rw [iniFile_onFiles hconfig hs content]
    exact Option.some_ne_none _
  exact ⟨(Bool.and_eq_true _ _).mpr ⟨hnamed, (Bool.or_eq_true _ _).mpr (Or.inr hglobal)⟩, hfile,
    hdownload, text, htext, hret, rfl⟩

/-- The name that is logged is as long as it was. -/
theorem startLog_encoded (hconfig : r.configArg = none)
    (hini : fs (r.dir ++ bytes "ph.ini") = some c) (hdat : fs (r.dir ++ bytes "ph.dat") = none)
    (hs : s.run = r.finds fs (some c)) (h : MainStage.Fits .startLog s) (content : List UInt8) :
    MainStage.Fits .startLog (s.onFiles (fs.write (r.dir ++ bytes "ph.dat") content)) := by
  obtain ⟨hline, hdump, hdir, hname⟩ := h
  refine ⟨hline, hdump, hdir, ?_⟩
  have hlen : (bytes "ph.ini").length = 6 := rfl
  have hlen' : (bytes "ph.dat").length = 6 := rfl
  rw [hs, iniFile_plain hconfig hini hdat, Option.getD_some, List.length_append, hlen] at hname
  rw [iniFile_onFiles hconfig hs content, Option.getD_some, List.length_append, hlen']
  exact hname

/-- A file that has to be there still is. -/
theorem checkFile_encoded (hs : s.run = r.finds fs (some c))
    (h : MainStage.Passed .checkFile s t) (path : CStr) (content : List UInt8) :
    MainStage.Passed .checkFile (s.onFiles (fs.write path content))
      (t.onFiles (fs.write path content)) := by
  rcases h with ⟨hempty, rfl⟩ | ⟨hne, file, hunquoted, hexists, rfl⟩
  · exact Or.inl ⟨hempty, rfl⟩
  · rw [hs] at hexists
    exact Or.inr ⟨hne, file, hunquoted, isSome_write path content hexists, rfl⟩

/-- The same file is replaced in. -/
theorem replaceInFile_encoded (hdat : fs (r.dir ++ bytes "ph.dat") = none)
    (hs : s.run = r.finds fs (some c)) (hfits : MainStage.Fits .replaceInFile s)
    (h : MainStage.Passed .replaceInFile s t) (content : List UInt8) :
    let fs' := fs.write (r.dir ++ bytes "ph.dat") content
    MainStage.sound .replaceInFile (s.onFiles fs') = true
      ∧ MainStage.Fits .replaceInFile (s.onFiles fs')
      ∧ MainStage.Passed .replaceInFile (s.onFiles fs') (t.onFiles fs') := by
  intro fs'
  rcases h with ⟨hempty, rfl⟩ | ⟨hne, hregex, file, left, hunquoted, hreplace, rfl⟩
  · exact ⟨(Bool.or_eq_true _ _).mpr (Or.inl (decide_eq_true (Or.inl hempty))),
      fun hne => absurd hempty hne, Or.inl ⟨hempty, rfl⟩⟩
  · have hnew : ¬ bytes ".new" <:+ r.dir ++ bytes "ph.dat" :=
      not_suffix_dir r.dir (by decide) (by decide)
    rw [hs] at hreplace
    have hleft : replace (s.onFiles fs').run.io (s.onFiles fs').run.regexReplace
        (s.onFiles fs').run.regerrno (s.onFiles fs').run.fs file
        (s.onFiles fs').config.replaceRegex
          = some (0, left.write (r.dir ++ bytes "ph.dat") content) := by
      rw [run_onFiles hs]
      exact replace_write hdat hnew content hreplace
    have hcall : (s.onFiles fs').replaceCall
        = some (0, left.write (r.dir ++ bytes "ph.dat") content) := by
      have hasked : ¬ ((s.onFiles fs').config.replaceFile = []
          ∨ (s.onFiles fs').config.replaceRegex = []) := not_or.mpr ⟨hne, hregex⟩
      unfold MainState.replaceCall
      rw [if_neg hasked]
      exact Option.bind_eq_some_iff.mpr ⟨file, hunquoted, hleft⟩
    refine ⟨?_, fun hne' => ⟨(hfits hne).1, ?_⟩, Or.inr ⟨hne, hregex, file, _, hunquoted, hleft,
      rfl⟩⟩
    · have hsome : (s.onFiles fs').replaceCall.isSome = true := by rw [hcall]; rfl
      exact (Bool.or_eq_true _ _).mpr (Or.inr hsome)
    · -- the call does not fail
      intro _ file' ret left' hunquoted' hreplace' hret
      obtain rfl : file = file' := Option.some.inj (hunquoted.symm.trans hunquoted')
      rw [hleft] at hreplace'
      injection hreplace' with hreplace'
      injection hreplace' with hzero _
      exact absurd hzero.symm hret

/-- **A stage that goes through** and is defined is so with the encoded file. -/
theorem stage_encoded (hconfig : r.configArg = none)
    (hini : fs (r.dir ++ bytes "ph.ini") = some c) (hdat : fs (r.dir ++ bytes "ph.dat") = none)
    {k : MainStage} (hs : s.run = r.finds fs (some c)) (hdefined : k.defined s = true)
    (h : k.Passed s t) (content : List UInt8) :
    let fs' := fs.write (r.dir ++ bytes "ph.dat") content
    k.defined (s.onFiles fs') = true ∧ k.Passed (s.onFiles fs') (t.onFiles fs') := by
  intro fs'
  obtain ⟨hsound, hlogged⟩ := (Bool.and_eq_true _ _).mp hdefined
  have hfits := (logged_exec_iff k s).mp hlogged
  have hboth : k.sound (s.onFiles fs') = true ∧ k.Fits (s.onFiles fs')
      ∧ k.Passed (s.onFiles fs') (t.onFiles fs') := by
    -- four stages look at the files, or log the name of one
    by_cases hread : k = .readConfig
    · subst hread
      obtain ⟨hsound', hpassed⟩ := readConfig_encoded hconfig hs hsound h content
      exact ⟨hsound', trivial, hpassed⟩
    by_cases hstart : k = .startLog
    · subst hstart
      exact ⟨rfl, startLog_encoded hconfig hini hdat hs hfits content,
        passed_onFiles (by decide) (by decide) (by decide) h fs'⟩
    by_cases hcheck : k = .checkFile
    · subst hcheck
      exact ⟨(sound_onFiles (by decide) (by decide) s fs').trans hsound, trivial,
        checkFile_encoded hs h _ content⟩
    by_cases hreplace : k = .replaceInFile
    · subst hreplace
      exact replaceInFile_encoded hdat hs hfits h content
    · exact ⟨(sound_onFiles hread hreplace s fs').trans hsound,
        (fits_onFiles hstart hreplace s fs').mpr hfits, passed_onFiles hread hcheck hreplace h fs'⟩
  obtain ⟨hsound', hfits', hpassed⟩ := hboth
  exact ⟨(Bool.and_eq_true _ _).mpr ⟨hsound', (logged_exec_iff k _).mpr hfits'⟩, hpassed⟩

end Found

/-- **ALL STAGES** are defined with the encoded file, if they were without it and
a command is started. -/
theorem checked_encoded (p : Platform) {r : MainRun} (hconfig : r.configArg = none)
    {fs : FileSystem} {c : CStr} (hini : fs (r.dir ++ bytes "ph.ini") = some c)
    (hdat : fs (r.dir ++ bytes "ph.dat") = none) {d : Launch}
    (hd : Cleared (r.finds fs (some c)) d)
    (hchecked : Stages.Checked (LaunchStage.act p) (LaunchStage.defined p) launchStages
      ⟨(r.finds fs (some c)).init, []⟩) (content : List UInt8) :
    Stages.Checked (LaunchStage.act p) (LaunchStage.defined p) launchStages
      ⟨(r.finds (fs.write (r.dir ++ bytes "ph.dat") content) (some c)).init, []⟩ := by
  let fs' := fs.write (r.dir ++ bytes "ph.dat") content
  obtain ⟨t, hfront, -⟩ := front_of_cleared (p := p) hd
  have hok : (Stages.run (LaunchStage.act p) (frontStages.map .of)
      ⟨(r.finds fs (some c)).init, []⟩).2 = .ok t := by rw [hfront]
  rw [launchStages_split, Stages.checked_append] at hchecked ⊢
  obtain ⟨hchecked, hlast⟩ := hchecked
  -- up to the launch the states are told apart by the files only
  have hstep : ∀ k ∈ frontStages.map LaunchStage.of, ∀ s s' u : LaunchState,
      s.main.run = r.finds fs (some c) ∧ s' = ⟨s.main.onFiles fs', s.precmd⟩ →
      k.defined p s = true → (k.act p s).2 = .ok u →
      k.defined p s' = true ∧ ∃ u', (k.act p s').2 = .ok u'
        ∧ u.main.run = r.finds fs (some c) ∧ u' = ⟨u.main.onFiles fs', u.precmd⟩ := by
    rintro k hk s _ u ⟨hs, rfl⟩ hdefined hexec
    obtain ⟨k, -, rfl⟩ := List.mem_map.mp hk
    obtain ⟨hpassed, hprecmd⟩ := (of_ok_iff k s u).mp hexec
    obtain ⟨hdefined', hpassed'⟩ :=
      stage_encoded hconfig hini hdat hs hdefined hpassed content
    exact ⟨hdefined', ⟨u.main.onFiles fs', u.precmd⟩, (of_ok_iff k _ _).mpr ⟨hpassed', hprecmd⟩,
      (passed_run hpassed).trans hs, rfl⟩
  have hinit : (r.finds fs (some c)).init.run = r.finds fs (some c)
      ∧ (⟨(r.finds fs' (some c)).init, []⟩ : LaunchState)
        = ⟨(r.finds fs (some c)).init.onFiles fs', []⟩ := ⟨rfl, rfl⟩
  obtain ⟨hchecked', t', hok', -, rfl⟩ := Stages.checked_forward hstep hinit hchecked hok
  refine ⟨hchecked', fun u hu => ?_⟩
  rw [hok'] at hu
  injection hu with hu
  subst hu
  have hlaunch : LaunchStage.launch.defined p t = true :=
    (Stages.checked_cons.mp (hlast t hok)).1
  refine Stages.checked_cons.mpr ⟨hlaunch, fun v _ => ?_⟩
  exact Stages.checked_cons.mpr
    ⟨clean_defined p v, fun w _ k u hk => absurd hk Stages.entered_nil⟩

/-- An installation with a section of one command. -/
def installed : FileSystem := fun path =>
  if path = bytes "C:/ph/ph.ini" then some (bytes "[h]\ncmd=run\n") else none

def installedRun : MainRun := { plainRun (bytes "a:h") with isExecutable := fun _ => true }

end Protohand
