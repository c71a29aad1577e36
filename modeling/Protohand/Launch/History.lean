/-
  Protohand.Launch.History
  ────────────────────────
  **WHAT BECOMES OF A FILE** over many launches.

  `replace` writes the new text next to the file and removes the file; the
  rename behind that is commented out.  So a launch that replaces in a file can
  be followed by another one only after somebody else has put the file back.

  A launch writes other files as well: its log, the configuration it downloads,
  and the examples where there is no configuration (`MainRun.written`).  What it
  leaves in these is a parameter of a history.

    • `replace_files` — the files behind one call of `replace`,
    • `launch_files`  — those behind one launch,
    • `replaced_once` — those along a history of launches and other changes.
-/
import Protohand.Launch.Cleared
import Protohand.Lib.History
import Protohand.Messages.Fit

namespace Protohand

/-! ## §1. Histories. -/

/-- The files that an effect leaves, if it is about files. -/
def Effect.files : Effect → Option FileSystem
  | .replaced fs => some fs
  | .system _ | .runcmd _ _ | .spawn _ _ | .undefined => none

/-- The files that `replace` leaves of `fs`. -/
def filesAfter (fs : FileSystem) (effects : List Effect) : FileSystem :=
  (effects.filterMap Effect.files).getLastD fs

/-- What `create_ini` writes besides `ph.ini`, where the program is started. -/
def exampleNames (p : Platform) : List CStr :=
  bytes "README.txt" :: (match p with | .mingw => [bytes "ph.reg"] | .posix => [])
    ++ [bytes "error.html"]

/-- The log file, if the run comes to open it. -/
def MainRun.logName (r : MainRun) : Option CStr :=
  r.iniContent.bind fun ini_content =>
    let cfg := (iniParseString globalHandler ini_content defaultGconfig).2
    (r.init.expand .logPath (nvlistCreate 0) cfg.logPath).bind fun x => r.logFile x.str

/-- The files that a launch writes, those of `replace` aside. -/
def MainRun.written (p : Platform) (r : MainRun) : List CStr :=
  if r.iniFile = none then (r.dir ++ bytes "ph.ini") :: exampleNames p
  else (if r.IsRemote then [r.tempfile] else []) ++ r.logName.toList

/-- The program is started, or somebody else changes the files. -/
inductive Move where
  /-- `contents` are what the launch leaves in the files it writes. -/
  | launch (p : Platform) (r : MainRun) (contents : FileSystem)
  | outside (change : FileSystem → FileSystem)

/-- A launch is by a URI, and the file is none of those it writes; nobody else
makes a file of that name where there is none. -/
def Move.Leaves (path : CStr) : Move → Prop
  | .launch p r _ => path ∉ r.written p
      ∧ modeSwitches.any (fun mode => strcmp r.uri mode = 0) = false
  | .outside change => ∀ fs : FileSystem, fs path = none → change fs path = none

/-- A launch, with the files that it has found. -/
structure Launched where
  platform : Platform
  run : MainRun
  effects : List Effect
  contents : FileSystem

/-- The files behind a launch, if it is defined. -/
def Launched.files (x : Launched) : FileSystem := fun path =>
  if (x.run.written x.platform).contains path = true then x.contents path
  else filesAfter x.run.fs x.effects path

def Launched.Defined (x : Launched) : Prop := AllDefined x.effects

instance : DecidablePred Launched.Defined := fun x =>
  inferInstanceAs (Decidable (AllDefined x.effects))

section Launches

variable (curlEscape : CStr → CStr)

def Move.step (fs : FileSystem) : Move → Option Launched × FileSystem
  | .launch p r contents =>
      let found := { r with fs := fs }
      let x : Launched := ⟨p, found, (launchMain curlEscape p found).1, contents⟩
      (some x, x.files)
  | .outside change => (none, change fs)

/-- The launches of a history. -/
def launches (fs : FileSystem) (moves : List Move) : List Launched :=
  History.history (Move.step curlEscape) fs moves

end Launches

/-- The section of the run names a file to replace in. -/
def MainRun.AsksFor (r : MainRun) (path : CStr) : Prop :=
  ∃ d text file, Selected r d ∧ r.Becomes .replaceFile d.parsed.nvquery d.config.replaceFile text
    ∧ text ≠ [] ∧ cmdunquote text = some file ∧ fwdslash file = path

/-- The launch loses a file. -/
def Launched.Loses (x : Launched) (path : CStr) : Prop :=
  x.run.fs path ≠ none ∧ x.files path = none

/-- The launch starts a command, for which it had to replace in a file. -/
def Launched.StartsOn (x : Launched) (path : CStr) : Prop :=
  (∃ e ∈ x.effects, e.Starts) ∧ x.run.AsksFor path

/-! ## §2. One call of `replace`. -/

/-- **The files behind a call**: only the second file is written, and only the
first one is removed. -/
theorem replace_files {io : ReplaceIO} {regexReplace : RegexReplace} {regerrno : Int}
    {fs fs' : FileSystem} {fl regex : CStr} {ret : Nat}
    (h : replace io regexReplace regerrno fs fl regex = some (ret, fs')) {path : CStr}
    (hnew : ¬ bytes ".new" <:+ path) :
    fs' path = fs path ∨ (fs' path = none ∧ path = fwdslash fl) := by
  have hne : path ≠ fwdslash fl ++ bytes ".new" := by
    rintro rfl
    exact hnew (List.suffix_append _ _)
  dsimp only [replace] at h
  split at h
  · cases h; exact Or.inl rfl
  · split at h
    · cases h; exact Or.inl rfl
    · split at h
      · cases h
      · cases h; exact Or.inl rfl
      · split at h
        · cases h; exact Or.inl (FileSystem.write_of_ne _ _ hne)
        · cases h
          by_cases hpath : path = fwdslash fl
          · subst hpath
            exact Or.inr ⟨FileSystem.remove_self _ _, rfl⟩
          · left
            exact (if_neg hpath).trans (FileSystem.write_of_ne _ _ hne)

/-! ## §3. One launch. -/

theorem filesAfter_cases (fs : FileSystem) (effects : List Effect) :
    filesAfter fs effects = fs ∨ .replaced (filesAfter fs effects) ∈ effects := by
  unfold filesAfter
  cases hfiles : effects.filterMap Effect.files with
  | nil => exact Or.inl rfl
  | cons first rest =>
      right
      -- the last of the effects on files counts
      have hlast : (first :: rest).getLastD fs ∈ effects.filterMap Effect.files := by
        rw [hfiles, List.getLastD_cons]
        exact List.getLastD_mem_cons
      obtain ⟨e, he, hwritten⟩ := List.mem_filterMap.mp hlast
      cases e with
      | replaced fs' =>
          injection hwritten with hwritten
          rw [← hwritten]
          exact he
      | system line => cases hwritten
      | runcmd cmd mode => cases hwritten
      | spawn exe args => cases hwritten
      | undefined => cases hwritten

/-- What is started leaves the files as they are. -/
theorem startEffects_files (p : Platform) (config : Configuration) (precmd cmd : CStr) :
    ∀ e ∈ startEffects p config precmd cmd, e.files = none := by
  intro e he
  unfold startEffects at he
  split at he
  · rcases List.mem_append.mp he with he | he
    · split at he
      · cases he
      · rw [List.mem_singleton.mp he]
        rfl
    · rw [List.mem_singleton.mp he]
      rfl
  · rw [List.mem_singleton.mp he]
    rfl

theorem filesAfter_starts (fs fs' : FileSystem) (p : Platform) (config : Configuration)
    (precmd cmd : CStr) :
    filesAfter fs ([.replaced fs'] ++ startEffects p config precmd cmd) = fs' := by
  have hstarts : (startEffects p config precmd cmd).filterMap Effect.files = [] :=
    List.filterMap_eq_nil_iff.mpr (startEffects_files p config precmd cmd)
  unfold filesAfter
  rw [List.filterMap_append, hstarts, List.append_nil]
  rfl

/-- The stages behind `replace`. -/
def lastStages : List LaunchStage := commandStages.map .of ++ [.launch, .of .cleanLogfile]

theorem launchStages_replace :
    launchStages = checkingStages.map .of ++ (.of .replaceInFile :: lastStages) := rfl

/-- They leave the files alone. -/
theorem lastStages_files (p : Platform) (s : LaunchState) :
    ∀ e ∈ (Stages.run (LaunchStage.act p) lastStages s).1, e.files = none := by
  rw [Stages.run_writes_iff]
  intro k t hentered e he
  cases k with
  | of k =>
      have hne : k ≠ .replaceInFile := by
        rintro rfl
        exact absurd hentered.mem (by decide)
      change e ∈ k.effects t.main at he
      rw [effects_of_ne hne] at he
      cases he
  | launch => exact startEffects_files _ _ _ _ e he

/-- **The call of `replace`** that the stages leave files with. -/
theorem stages_files {p : Platform} {r : MainRun} {fs : FileSystem}
    (h : Effect.replaced fs ∈ (stagesAct p r).1) :
    ∃ d text file ret, Selected r d
      ∧ r.Becomes .replaceFile d.parsed.nvquery d.config.replaceFile text ∧ text ≠ []
      ∧ cmdunquote text = some file
      ∧ replace r.io r.regexReplace r.regerrno r.fs file d.config.replaceRegex
        = some (ret, fs) := by
  unfold stagesAct at h
  rw [launchStages_replace] at h
  cases hchecking : (Stages.run (LaunchStage.act p) (checkingStages.map .of) ⟨r.init, []⟩).2 with
  | error e =>
      rw [Stages.run_append_error _ hchecking, run_map_silent (by decide)] at h
      cases h
  | ok t =>
      obtain ⟨d, hselected, hat, -⟩ := checking_ok hchecking
      rw [Stages.run_append_ok _ hchecking, run_map_silent (by decide), List.nil_append,
        Stages.run] at h
      -- only the stage of `replace` is left
      have heffect : Effect.replaced fs ∈ MainStage.effects .replaceInFile t.main := by
        split at h
        · exact h
        · rcases List.mem_append.mp h with h | h
          · exact h
          · cases lastStages_files p _ _ h
      unfold MainStage.effects at heffect
      rw [if_pos rfl] at heffect
      obtain ⟨⟨ret, fs'⟩, hcall, hfs⟩ := List.mem_map.mp heffect
      injection hfs with hfs
      dsimp only at hfs
      subst hfs
      have hcall : t.main.replaceCall = some (ret, fs') := Option.mem_toList.mp hcall
      unfold MainState.replaceCall at hcall
      split at hcall
      · cases hcall
      · next hasked =>
          rw [not_or] at hasked
          obtain ⟨file, hfile, hreplace⟩ := Option.bind_eq_some_iff.mp hcall
          have htext := hat.replaceFile
          obtain ⟨⟨hrun, -, -, -, x, y, z, hconfig⟩, -⟩ := hat
          rw [hrun, hconfig] at hreplace
          exact ⟨d, _, file, ret, hselected, htext, hasked.1, hfile, hreplace⟩

/-- The same for a launch that is defined. -/
theorem launch_files {curlEscape : CStr → CStr} {p : Platform} {r : MainRun} {fs : FileSystem}
    (hdefined : AllDefined (launchMain curlEscape p r).1)
    (h : Effect.replaced fs ∈ (launchMain curlEscape p r).1) :
    ∃ d text file ret, Selected r d
      ∧ r.Becomes .replaceFile d.parsed.nvquery d.config.replaceFile text ∧ text ≠ []
      ∧ cmdunquote text = some file
      ∧ replace r.io r.regexReplace r.regerrno r.fs file d.config.replaceRegex
        = some (ret, fs) := by
  -- a launch that is defined runs its stages without their guards
  rcases stagesRun_outcome p r with ⟨-, hsame⟩ | ⟨files, hfiles, hstopped⟩
  · change _ ∈ (stagesRun p r).1 ++ pageEffects curlEscape p (stagesRun p r).2 at h
    rcases List.mem_append.mp h with h | hpage
    · rw [hsame] at h
      exact stages_files h
    · rcases pageEffects_cases curlEscape p (stagesRun p r).2 with ⟨-, hspawn⟩ | hundefined
      · obtain ⟨exe, args, hspawn⟩ := hspawn _ hpage
        cases hspawn
      · rw [hundefined] at hpage
        cases List.mem_singleton.mp hpage
  · exact absurd hdefined (launch_of_stopped curlEscape hfiles hstopped).not_allDefined

/-- A section is selected in one way. -/
theorem Selected.unique {r : MainRun} {d d' : Launch} (h : Selected r d) (h' : Selected r d') :
    d.parsed = d'.parsed ∧ d.config = d'.config := by
  have hparsed : d.parsed = d'.parsed := by
    have hsome := h.parsed.symm.trans h'.parsed
    injection hsome with hsome
    injection hsome
  have hcontent : d.content = d'.content := by
    have hsome := h.configured.opened.symm.trans h'.configured.opened
    injection hsome
  refine ⟨hparsed, ?_⟩
  have hselected := h.selected
  rw [hparsed, hcontent, h'.selected] at hselected
  injection hselected with _ hconfig
  exact hconfig.symm

section Launch

variable (curlEscape : CStr → CStr) (p : Platform) (r : MainRun) {path : CStr}

/-- **The log file** is the one `main` comes to open. -/
theorem logName_of_openLog {s : MainState}
    (h : (Stages.run MainStage.exec [.checkMode, .readConfig, .expandLogPath, .expandPrefixHelp,
      .expandPrefixCmd] r.init).2 = .ok s) : s.logFile = r.logName := by
  simp only [Stages.run_cons_ok, exec_ok_iff] at h
  obtain ⟨_, ⟨-, rfl⟩, _, ⟨-, -, content, hcontent, -, rfl⟩, _, ⟨xlog, hxlog, -, rfl⟩,
    _, ⟨xhelp, -, -, rfl⟩, _, ⟨xcmd, -, -, rfl⟩, h⟩ := h
  obtain rfl : _ = s := by injection h
  have hlog : r.init.expand .logPath (nvlistCreate 0)
      (iniParseString globalHandler content defaultGconfig).2.logPath = some xlog := hxlog
  unfold MainRun.logName
  rw [show r.iniContent = some content from hcontent, Option.bind_some]
  dsimp only
  rw [hlog]
  rfl

/-- **A launch keeps a file, or loses it**, and then it was asked for. -/
theorem launch_keeps_or_loses (hdefined : AllDefined (launchMain curlEscape p r).1)
    (hnew : ¬ bytes ".new" <:+ path) :
    filesAfter r.fs (launchMain curlEscape p r).1 path = r.fs path
      ∨ (filesAfter r.fs (launchMain curlEscape p r).1 path = none ∧ r.AsksFor path) := by
  rcases filesAfter_cases r.fs (launchMain curlEscape p r).1 with hsame | hreplaced
  · rw [hsame]
    exact Or.inl rfl
  · obtain ⟨d, text, file, ret, hselected, htext, hne, hfile, hreplace⟩ :=
      launch_files hdefined hreplaced
    rcases replace_files hreplace hnew with hkept | ⟨hgone, hpath⟩
    · exact Or.inl hkept
    · exact Or.inr ⟨hgone, d, text, file, hselected, htext, hne, hfile, hpath.symm⟩

variable {curlEscape} {p} {r}

/-- **A launch that starts a command** has lost the file it replaced in. -/
theorem loses_of_starts (hstarts : ∃ e ∈ (launchMain curlEscape p r).1, e.Starts)
    (hasks : r.AsksFor path) :
    r.fs path ≠ none ∧ filesAfter r.fs (launchMain curlEscape p r).1 path = none := by
  obtain ⟨d', text, file, hselected, htext, hne, hfile, rfl⟩ := hasks
  obtain ⟨d, hd, heffects⟩ := cleared_of_starts hstarts
  obtain ⟨hparsed, hconfig⟩ := hd.toSelected.unique hselected
  rw [← hparsed, ← hconfig] at htext
  have hreplaced := hd.replaced
  generalize d.files = files at hreplaced heffects
  cases hreplaced with
  | none hempty => exact absurd (htext.unique hempty) hne
  | @file text' file' fs htext' _ _ hfile' hreplace =>
      rw [← htext.unique htext', hfile] at hfile'
      obtain rfl := Option.some.inj hfile'
      rw [heffects, filesAfter_starts]
      -- a run that is cleared has got 0 from `replace`, and then the file is removed
      rcases replace_cases hreplace with ⟨hfailed, -⟩ | ⟨-, ⟨-, string, -, -, hthere, -⟩, hgone⟩
      · exact absurd rfl hfailed
      · rw [hthere]
        exact ⟨Option.some_ne_none string, hgone⟩

end Launch

/-! ## §4. A history. -/

section History

variable {curlEscape : CStr → CStr} {path : CStr}

/-- The files that a launch does not write itself. -/
theorem Launched.files_other (x : Launched) (h : path ∉ x.run.written x.platform) :
    x.files path = filesAfter x.run.fs x.effects path :=
  if_neg fun hwritten => h (List.contains_iff_mem.mp hwritten)

/-- What holds of one launch of a history. -/
theorem step_launched (hnew : ¬ bytes ".new" <:+ path) {move : Move} (hmove : move.Leaves path)
    (fs : FileSystem) :
    ∀ x ∈ (move.step curlEscape fs).1, x.Defined →
      x.run.fs = fs ∧ x.files = (move.step curlEscape fs).2
      ∧ (x.files path = x.run.fs path ∨ (x.Loses path ∧ x.run.AsksFor path))
      ∧ (x.StartsOn path → x.Loses path) := by
  intro x hx hdefined
  cases move with
  | launch p r contents =>
      injection hx with hx
      subst hx
      have hfiles := Launched.files_other
        ⟨p, { r with fs := fs }, (launchMain curlEscape p { r with fs := fs }).1, contents⟩ hmove.1
      refine ⟨rfl, rfl, ?_, ?_⟩
      · rcases launch_keeps_or_loses curlEscape p { r with fs := fs } hdefined hnew
          with hkept | ⟨hlost, hasked⟩
        · exact Or.inl (hfiles.trans hkept)
        · by_cases hthere : fs path = none
          · exact Or.inl ((hfiles.trans hlost).trans hthere.symm)
          · exact Or.inr ⟨⟨hthere, hfiles.trans hlost⟩, hasked⟩
      · rintro ⟨hstarts, hasked⟩
        obtain ⟨hthere, hlost⟩ := loses_of_starts hstarts hasked
        exact ⟨hthere, hfiles.trans hlost⟩
  | outside change => cases hx

/-- A file that is gone stays away. -/
theorem step_gone (hnew : ¬ bytes ".new" <:+ path) {move : Move} (hmove : move.Leaves path)
    {fs : FileSystem} (hdefined : ∀ x ∈ (move.step curlEscape fs).1, x.Defined)
    (hgone : fs path = none) : (move.step curlEscape fs).2 path = none := by
  cases move with
  | launch p r contents =>
      obtain ⟨-, -, hkept | ⟨hlost, -⟩, -⟩ := step_launched hnew hmove fs _ rfl (hdefined _ rfl)
      · exact hkept.trans hgone
      · exact hlost.2
  | outside change => exact hmove fs hgone

/-- **A FILE IS REPLACED IN ONCE**, as long as the launches are defined and nobody
else puts the file back.  A launch keeps every file that is none of those it
writes and whose name does not end in `.new`, or loses it, and then its section
has named it; a launch that starts a command has lost the file it was to replace
in; and behind a launch that has lost a file, no launch that is to replace in it
starts a command. -/
theorem replaced_once (curlEscape : CStr → CStr) {path : CStr} (hnew : ¬ bytes ".new" <:+ path)
    {moves : List Move} (hmoves : ∀ move ∈ moves, move.Leaves path) {fs : FileSystem}
    (hdefined : ∀ x ∈ launches curlEscape fs moves, x.Defined) :
    (∀ x ∈ launches curlEscape fs moves,
        (x.files path = x.run.fs path ∨ (x.Loses path ∧ x.run.AsksFor path))
          ∧ (x.StartsOn path → x.Loses path))
      ∧ (launches curlEscape fs moves).Pairwise fun x y => x.Loses path → ¬ y.StartsOn path := by
  refine ⟨?_, ?_⟩
  · exact History.mem_history (fun _ => True) Launched.Defined _
      (fun _ _ _ _ _ => trivial)
      (fun move hmem fs _ x hx hok => (step_launched hnew (hmoves move hmem) fs x hx hok).2.2)
      trivial hdefined
  -- behind the first loss the file is away, and without it nothing is started
  · refine History.pairwise_gone (fun fs => fs path = none) Launched.Defined _ _
      ?_ ?_ ?_ hdefined
    · intro move hmem fs hgone hok
      exact step_gone hnew (hmoves move hmem) hok hgone
    · intro move hmem fs x hx hok hlost
      obtain ⟨-, hfiles, -⟩ := step_launched hnew (hmoves move hmem) fs x hx hok
      rw [← hfiles]
      exact hlost.2
    · intro move hmem fs hgone x hx hok hstarts
      obtain ⟨hfound, -, -, hloses⟩ := step_launched hnew (hmoves move hmem) fs x hx hok
      have hthere := (hloses hstarts).1
      rw [hfound] at hthere
      exact hthere hgone

end History

/-- A run that is to replace in `a.txt`. -/
def replacingRun : MainRun := { plainRun (bytes "a:h") with
  iniContent := some (bytes "[h]\ncmd=run\nreplace_file=a.txt\nreplace_regex=/x/y/\n")
  isExecutable := fun _ => true }

/-- The first launch loses the file, and the second one starts nothing. -/
theorem replaced_once_twice :
    let found : FileSystem := fun p => if p = bytes "a.txt" then some (bytes "x") else none
    let move : Move := .launch .mingw replacingRun fun _ => some []
    ∃ x y, launches percentEscape found [move, move] = [x, y]
      ∧ (∃ e ∈ x.effects, e.Starts) ∧ x.Loses (bytes "a.txt") ∧ ¬ y.StartsOn (bytes "a.txt") := by
  intro found move
  have hleaves : move.Leaves (bytes "a.txt") := ⟨by decide +kernel, by decide +kernel⟩
  have honce := (@replaced_once percentEscape (bytes "a.txt") (by decide) [move, move]
    (by simpa using hleaves) found (by decide +kernel)).2
  refine ⟨_, _, rfl, by decide +kernel, ⟨by decide, by decide +kernel⟩, ?_⟩
  exact (List.pairwise_cons.mp honce).1 _ List.mem_cons_self ⟨by decide, by decide +kernel⟩

end Protohand
