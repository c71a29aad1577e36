/-
  Protohand.Launch.Cleared
  ────────────────────────
  **WHEN A RUN STARTS A COMMAND, AND WHICH ONE.**

  `Cleared r d` says what the configuration and the URI of a run come to,
  without stages and without a state: the section that is selected, the
  command that is chosen, its expansion, and every check on the way.  A run
  that does nothing undefined starts a command exactly if it is cleared for one.

    • `checking_ok`, `replace_ok`, `command_ok` — the stages in front of a launch,
      in three parts, and their converses,
    • `stagesAct_cases`, `stagesRun_outcome` — the stages, without their checks and
      with them,
    • `launch_cases` — when a command is started, and which.
-/
import Protohand.CmdParser.Lookup
import Protohand.Launch.Def
import Protohand.Messages.Room
import Protohand.Messages.Steps

namespace Protohand

/-! ## §1. What a run comes to. -/

/-- A launch: the texts and the tables it is made of. -/
structure Launch where
  content : CStr
  cfg : GlobalConfiguration
  parsed : TUri
  config : Configuration
  runCmd : CStr
  preRunCmd : CStr
  files : List Effect
  query : NvList
  cmd : CStr
  precmd : CStr

/-- `expand_vars` makes `out` of a text of the run. -/
def MainRun.Becomes (r : MainRun) (which : Expanded) (query : NvList) (str out : CStr) : Prop :=
  Protohand.Becomes (r.expandMem which) r.env query str out

/-- The name of the log file. -/
def MainRun.logFile (r : MainRun) (log_path : CStr) : Option CStr :=
  if log_path = [] then
    match r.env (bytes "APPDATA") with
    | some appdata => some (appdata ++ bytes "\\ph.log")
    | none => (r.env (bytes "HOME")).map (· ++ bytes "/.ph.log")
  else some log_path

/-- The configuration of the program is in order, and the log can be written. -/
structure Configured (r : MainRun) (content : CStr) (cfg : GlobalConfiguration) : Prop where
  iniFile : r.iniFile ≠ none
  download : r.IsRemote → r.downloadRet = 0
  opened : r.iniContent = some content
  parsed : iniParseString globalHandler content defaultGconfig = (0, cfg)
  log : ∃ log_path file, r.Becomes .logPath (nvlistCreate 0) cfg.logPath log_path
    ∧ r.logFile log_path = some file ∧ r.logOpens file = true
  help : ∃ out, r.Becomes .prefixHelp (nvlistCreate 0) cfg.prefixHelp out
  prefixCmd : ∃ out, r.Becomes .prefixCmd (nvlistCreate 0) cfg.prefixCmd out

/-- A file that has to be there, is. -/
def FileThere (r : MainRun) (query : NvList) (config : Configuration) : Prop :=
  ∃ text, r.Becomes .fileMustExist query config.fileMustExist text
    ∧ (text = [] ∨ ∃ file, cmdunquote text = some file ∧ r.fileExists file = true)

/-- What `replace` leaves, where a file is to be replaced. -/
inductive Replaces (r : MainRun) (query : NvList) (config : Configuration) : List Effect → Prop
  | none (h : r.Becomes .replaceFile query config.replaceFile []) : Replaces r query config []
  | file {text file : CStr} {fs : FileSystem}
      (htext : r.Becomes .replaceFile query config.replaceFile text) (hne : text ≠ [])
      (hregex : config.replaceRegex ≠ []) (hfile : cmdunquote text = some file)
      (hreplace : replace r.io r.regexReplace r.regerrno r.fs file config.replaceRegex
        = some (0, fs)) : Replaces r query config [.replaced fs]

/-- There is one way for it. -/
theorem Replaces.unique {r : MainRun} {query : NvList} {config : Configuration}
    {files files' : List Effect} (h : Replaces r query config files)
    (h' : Replaces r query config files') : files = files' := by
  cases h with
  | none hempty =>
      cases h' with
      | none _ => rfl
      | file htext hne _ _ _ => exact absurd (htext.unique hempty) hne
  | file htext hne hregex hfile hreplace =>
      cases h' with
      | none hempty => exact absurd (htext.unique hempty) hne
      | file htext' _ _ hfile' hreplace' =>
          rw [htext.unique htext', hfile'] at hfile
          rw [Option.some.inj hfile, hreplace] at hreplace'
          injection hreplace' with hsame
          injection hsame with _ hfs
          rw [hfs]

/-- At most one file is replaced, and nothing else is done. -/
def OneFile (effects : List Effect) : Prop :=
  effects.length ≤ 1 ∧ ∀ x ∈ effects, ∃ fs, x = Effect.replaced fs

theorem OneFile.initial {effects effects' : List Effect} (h : OneFile effects)
    (hinitial : effects' <+: effects) : OneFile effects' :=
  ⟨hinitial.length_le.trans h.1, fun x hx => h.2 x (hinitial.subset hx)⟩

theorem Replaces.files {r : MainRun} {query : NvList} {config : Configuration}
    {files : List Effect} (h : Replaces r query config files) : OneFile files := by
  cases h with
  | none _ => exact ⟨Nat.zero_le 1, fun x hx => absurd hx List.not_mem_nil⟩
  | file _ _ _ _ _ => exact ⟨Nat.le_refl 1, fun x hx => ⟨_, List.mem_singleton.mp hx⟩⟩

/-- Its name is what the directive expands to. -/
theorem Replaces.text {r : MainRun} {query : NvList} {config : Configuration}
    {files : List Effect} (h : Replaces r query config files) :
    ∃ text, r.Becomes .replaceFile query config.replaceFile text := by
  cases h with
  | none hempty => exact ⟨[], hempty⟩
  | file htext _ _ _ _ => exact ⟨_, htext⟩

/-- A query behind the transforms of a section. -/
def transformedQuery (config : Configuration) (query : NvList) : TransformRun × NvList :=
  let run := transformStages (entries config.lpadzero) (entries config.ltrimzero) query.pairs
  (run, { query with
    items := run.pairs.map some ++ query.items.drop (run.pairs.map some).length })

/-- A section and its command are selected, and its file is there. -/
structure Selected (r : MainRun) (d : Launch) : Prop where
  mode : modeSwitches.any (fun mode => strcmp r.uri mode = 0) = false
  configured : Configured r d.content d.cfg
  parsed : uriparseParse r.uriMem r.uri (uriparseCreate r.uri) = some (0, d.parsed)
  selected : lookupSection r.fresh d.parsed d.content = (0, d.config)
  found : d.config.found ≠ 0
  chosen : Chooses r.env d.parsed.nvquery d.config d.runCmd d.preRunCmd
  command : d.runCmd ≠ []
  defaultPath : ∃ out, r.Becomes .defaultPath d.parsed.nvquery d.config.defaultPath out
  fileThere : FileThere r d.parsed.nvquery d.config

/-- **The run is cleared for a launch.** -/
structure Cleared (r : MainRun) (d : Launch) : Prop extends Selected r d where
  replaced : Replaces r d.parsed.nvquery d.config d.files
  padded : (transformedQuery d.config d.parsed.nvquery).1.ret = 0
  query : d.query = (transformedQuery d.config d.parsed.nvquery).2
  cmd : r.Becomes .cmd d.query d.runCmd d.cmd
  precmd : if d.preRunCmd = [] then d.precmd = []
    else r.Becomes .precmd d.query d.preRunCmd d.precmd
  executable : r.isExecutable (getexe d.cmd) = true

/-! ## §2. The stages in front of a launch. -/

section Front

variable {p : Platform}

/-- A stage of `main` in the launch. -/
theorem of_ok_iff (k : MainStage) (s t : LaunchState) :
    ((LaunchStage.of k).act p s).2 = .ok t
      ↔ k.Passed s.main t.main ∧ t.precmd = s.precmdAfter k := by
  show (k.exec s.main).2.map _ = .ok t ↔ _
  rw [← exec_ok_iff]
  cases hexec : (k.exec s.main).2 with
  | error e =>
      constructor
      · intro h
        cases h
      · intro h
        cases h.1
  | ok main =>
      obtain ⟨main', precmd⟩ := t
      constructor
      · intro h
        injection h with h
        injection h with hmain hprecmd
        exact ⟨by rw [hmain], hprecmd.symm⟩
      · rintro ⟨h, hprecmd⟩
        injection h with h
        show Except.ok _ = Except.ok _
        rw [h, ← hprecmd]

theorem run_of_ok_iff {k : MainStage} {ks : List LaunchStage} {main : MainState} {precmd : CStr}
    {t : LaunchState} :
    (Stages.run (LaunchStage.act p) (.of k :: ks) ⟨main, precmd⟩).2 = .ok t
      ↔ ∃ main', k.Passed main main' ∧ (Stages.run (LaunchStage.act p) ks
          ⟨main', LaunchState.precmdAfter k ⟨main, precmd⟩⟩).2 = .ok t := by
  rw [Stages.run_cons_ok]
  constructor
  · rintro ⟨⟨main', precmd'⟩, hu, hrest⟩
    obtain ⟨hpassed, hprecmd⟩ := (of_ok_iff k _ _).mp hu
    exact ⟨main', hpassed, hprecmd ▸ hrest⟩
  · rintro ⟨main', hpassed, hrest⟩
    exact ⟨_, (of_ok_iff k _ _).mpr ⟨hpassed, rfl⟩, hrest⟩

/-- The expansions of a run, whatever the globals are. -/
theorem expand_iff (s : MainState) (which : Expanded) (query : NvList) (str out : CStr) :
    (∃ x, s.expand which query str = some x ∧ x.ret = 0 ∧ x.str = out)
      ↔ s.run.Becomes which query str out :=
  (becomes_iff s.globals).symm

/-- The state of `main` when a section and its command are selected; some of
the directives are expanded by then. -/
structure AtCommand (r : MainRun) (d : Launch) (s : MainState) : Prop where
  run : s.run = r
  parsed : s.uriParsed = d.parsed
  runCmd : s.runCmd = d.runCmd
  preRunCmd : s.preRunCmd = d.preRunCmd
  config : ∃ x y z, s.config
    = { d.config with defaultPath := x, replaceFile := y, fileMustExist := z }

/-- The state that the run comes to `replace` in. -/
structure AtReplace (r : MainRun) (d : Launch) (s : MainState) : Prop extends
  AtCommand r d s where
  replaceFile : r.Becomes .replaceFile d.parsed.nvquery d.config.replaceFile s.config.replaceFile

/-- **THE CHECKS IN FRONT OF `replace`**, all at once. -/
theorem checking_ok {r : MainRun} {t : LaunchState}
    (h : (Stages.run (LaunchStage.act p) (checkingStages.map .of) ⟨r.init, []⟩).2 = .ok t) :
    ∃ d, Selected r d ∧ AtReplace r d t.main ∧ t.precmd = [] := by
  obtain ⟨_, ⟨hmode, rfl⟩, h⟩ := run_of_ok_iff.mp h
  obtain ⟨_, ⟨hfile, hdownload, content, hcontent, hret, rfl⟩, h⟩ := run_of_ok_iff.mp h
  -- the three directives of the program
  obtain ⟨_, ⟨xlog, hxlog, hlogret, rfl⟩, h⟩ := run_of_ok_iff.mp h
  obtain ⟨_, ⟨xhelp, hxhelp, hhelpret, rfl⟩, h⟩ := run_of_ok_iff.mp h
  obtain ⟨_, ⟨xcmd, hxcmd, hcmdret, rfl⟩, h⟩ := run_of_ok_iff.mp h
  obtain ⟨_, ⟨⟨file, hlog, hopens⟩, rfl⟩, h⟩ := run_of_ok_iff.mp h
  obtain ⟨_, rfl, h⟩ := run_of_ok_iff.mp h
  -- the URI and its section
  obtain ⟨_, ⟨parsed, hparsed, rfl⟩, h⟩ := run_of_ok_iff.mp h
  obtain ⟨_, ⟨hlookup, rfl⟩, h⟩ := run_of_ok_iff.mp h
  obtain ⟨_, ⟨hfound, rfl⟩, h⟩ := run_of_ok_iff.mp h
  obtain ⟨_, ⟨runCmd, preRunCmd, hchosen, hcommand, rfl⟩, h⟩ := run_of_ok_iff.mp h
  -- the directives of the section
  obtain ⟨_, ⟨xpath, hxpath, hpathret, rfl⟩, h⟩ := run_of_ok_iff.mp h
  obtain ⟨_, ⟨xrep, hxrep, hrepret, rfl⟩, h⟩ := run_of_ok_iff.mp h
  obtain ⟨_, ⟨xmust, hxmust, hmustret, rfl⟩, h⟩ := run_of_ok_iff.mp h
  obtain ⟨_, hthere, h⟩ := run_of_ok_iff.mp h
  obtain rfl : _ = t := by injection h
  have hexpand : ∀ {s : MainState} {which : Expanded} {query : NvList} {str : CStr}
      {x : ExpandResult}, s.run = r → s.expand which query str = some x → x.ret = 0 →
      r.Becomes which query str x.str := by
    rintro s which query str x rfl hx hret
    exact (expand_iff s which query str x.str).mp ⟨x, hx, hret, rfl⟩
  refine ⟨⟨content, (iniParseString globalHandler content defaultGconfig).2, parsed,
    (lookupSection r.fresh parsed content).2, runCmd, preRunCmd, [], ⟨[], 0, 0, 0⟩, [], []⟩,
    ⟨hmode, ⟨hfile, hdownload, hcontent, Prod.ext hret rfl,
      ⟨xlog.str, file, hexpand rfl hxlog hlogret, hlog, hopens⟩,
      ⟨_, hexpand rfl hxhelp hhelpret⟩, ⟨_, hexpand rfl hxcmd hcmdret⟩⟩,
      hparsed, Prod.ext hlookup rfl, hfound, hchosen, hcommand,
      ⟨_, hexpand rfl hxpath hpathret⟩, ⟨xmust.str, hexpand rfl hxmust hmustret, ?_⟩⟩, ?_, rfl⟩
  · rcases hthere with ⟨hempty, -⟩ | ⟨-, file, hunquoted, hexists, -⟩
    · exact Or.inl hempty
    · exact Or.inr ⟨file, hunquoted, hexists⟩
  · rcases hthere with ⟨-, rfl⟩ | ⟨-, file, -, -, rfl⟩
    · exact ⟨⟨rfl, rfl, rfl, rfl, _, _, _, rfl⟩, hexpand rfl hxrep hrepret⟩
    · exact ⟨⟨rfl, rfl, rfl, rfl, _, _, _, rfl⟩, hexpand rfl hxrep hrepret⟩

/-- What is expected of an expansion is what a run comes to. -/
theorem expand_of {r : MainRun} {s : MainState} (hs : s.run = r) {which : Expanded}
    {query : NvList} {str out : CStr} (h : r.Becomes which query str out) :
    ∃ x, s.expand which query str = some x ∧ x.ret = 0 ∧ x.str = out := by
  subst hs
  exact (expand_iff s which query str out).mpr h

/-- **A run for which a section is selected** comes to `replace`. -/
theorem checking_of_selected {r : MainRun} {d : Launch} (h : Selected r d) {text : CStr}
    (htext : r.Becomes .replaceFile d.parsed.nvquery d.config.replaceFile text) :
    ∃ t, (Stages.run (LaunchStage.act p) (checkingStages.map .of) ⟨r.init, []⟩).2 = .ok t
      ∧ AtReplace r d t.main ∧ t.precmd = [] := by
  obtain ⟨hmode, ⟨hfile, hdownload, hcontent, hcfg, ⟨log, file, hlog, hname, hopens⟩,
    ⟨help, hhelp⟩, ⟨prefixCmd, hprefix⟩⟩, hparsed, hlookup, hfound, hchosen, hcommand,
    ⟨path, hpath⟩, must, hmust, hthere⟩ := h
  obtain ⟨hcfgret, hcfg⟩ := Prod.ext_iff.mp hcfg
  obtain ⟨hret, hconfig⟩ := Prod.ext_iff.mp hlookup
  dsimp only at hcfgret hcfg hret hconfig
  -- the states in between, each from the one before it
  let s₂ : MainState := { r.init with iniContent := d.content, cfg := d.cfg }
  obtain ⟨xlog, hxlog, hxlogret, hxlogstr⟩ := expand_of (s := s₂) rfl hlog
  let s₃ := expandLogPath.set { s₂ with globals := xlog.globals } xlog.str
  obtain ⟨xhelp, hxhelp, hxhelpret, -⟩ := expand_of (s := s₃) rfl hhelp
  let s₄ := expandPrefixHelp.set { s₃ with globals := xhelp.globals } xhelp.str
  obtain ⟨xcmd, hxcmd, hxcmdret, -⟩ := expand_of (s := s₄) rfl hprefix
  let s₅ := expandPrefixCmd.set { s₄ with globals := xcmd.globals } xcmd.str
  let selectedBy (config : Configuration) : MainState := { s₅ with
    loglevel := configuredLevel s₅.cfg.logLevel
    uriParsed := d.parsed
    config := config }
  let s₈ : MainState := { selectedBy d.config with runCmd := d.runCmd, preRunCmd := d.preRunCmd }
  obtain ⟨xpath, hxpath, hxpathret, -⟩ := expand_of (s := s₈) rfl hpath
  let s₉ := expandDefaultPath.set { s₈ with globals := xpath.globals } xpath.str
  obtain ⟨xrep, hxrep, hxrepret, hxrepstr⟩ := expand_of (s := s₉) rfl htext
  let s₁₀ := expandReplaceFile.set { s₉ with globals := xrep.globals } xrep.str
  obtain ⟨xmust, hxmust, hxmustret, hxmuststr⟩ := expand_of (s := s₁₀) rfl hmust
  let s₁₁ := expandFileMustExist.set { s₁₀ with globals := xmust.globals } xmust.str
  have hlast : ∃ s₁₂, MainStage.Passed .checkFile s₁₁ s₁₂ ∧ AtReplace r d s₁₂ := by
    have hreplace : r.Becomes .replaceFile d.parsed.nvquery d.config.replaceFile xrep.str :=
      hxrepstr ▸ htext
    by_cases hempty : must = []
    · exact ⟨s₁₁, Or.inl ⟨hxmuststr.trans hempty, rfl⟩,
        ⟨rfl, rfl, rfl, rfl, _, _, _, rfl⟩, hreplace⟩
    · obtain ⟨file, hunquoted, hexists⟩ := hthere.resolve_left hempty
      exact ⟨{ s₁₁ with config := { s₁₁.config with fileMustExist := file } },
        Or.inr ⟨fun h => hempty (hxmuststr.symm.trans h), file,
          (congrArg cmdunquote hxmuststr).trans hunquoted, hexists, rfl⟩,
        ⟨rfl, rfl, rfl, rfl, _, _, _, rfl⟩, hreplace⟩
  obtain ⟨s₁₂, hpassed, hat⟩ := hlast
  refine ⟨⟨s₁₂, []⟩, ?_, hat, rfl⟩
  refine run_of_ok_iff.mpr ⟨_, ⟨hmode, rfl⟩, ?_⟩
  refine run_of_ok_iff.mpr ⟨s₂, ⟨hfile, hdownload, d.content, hcontent, hcfgret, ?_⟩, ?_⟩
  · rw [hcfg]
  refine run_of_ok_iff.mpr ⟨s₃, ⟨xlog, hxlog, hxlogret, rfl⟩, ?_⟩
  refine run_of_ok_iff.mpr ⟨s₄, ⟨xhelp, hxhelp, hxhelpret, rfl⟩, ?_⟩
  refine run_of_ok_iff.mpr ⟨s₅, ⟨xcmd, hxcmd, hxcmdret, rfl⟩, ?_⟩
  refine run_of_ok_iff.mpr ⟨_, ⟨⟨file, (congrArg r.logFile hxlogstr).trans hname, hopens⟩, rfl⟩, ?_⟩
  refine run_of_ok_iff.mpr ⟨_, rfl, ?_⟩
  refine run_of_ok_iff.mpr ⟨_, ⟨d.parsed, hparsed, rfl⟩, ?_⟩
  refine run_of_ok_iff.mpr ⟨selectedBy d.config, ⟨hret, congrArg selectedBy hconfig.symm⟩, ?_⟩
  refine run_of_ok_iff.mpr ⟨_, ⟨hfound, rfl⟩, ?_⟩
  refine run_of_ok_iff.mpr ⟨s₈, ⟨d.runCmd, d.preRunCmd, hchosen, hcommand, rfl⟩, ?_⟩
  refine run_of_ok_iff.mpr ⟨s₉, ⟨xpath, hxpath, hxpathret, rfl⟩, ?_⟩
  refine run_of_ok_iff.mpr ⟨s₁₀, ⟨xrep, hxrep, hxrepret, rfl⟩, ?_⟩
  refine run_of_ok_iff.mpr ⟨s₁₁, ⟨xmust, hxmust, hxmustret, rfl⟩, ?_⟩
  exact run_of_ok_iff.mpr ⟨s₁₂, hpassed, rfl⟩

/-- **The stage of `replace`** does what is to be done. -/
theorem replace_ok {r : MainRun} {d : Launch} {s u : MainState} (hs : AtReplace r d s)
    (hpassed : MainStage.Passed .replaceInFile s u) :
    Replaces r d.parsed.nvquery d.config (MainStage.effects .replaceInFile s)
      ∧ AtCommand r d u := by
  obtain ⟨⟨rfl, hparsed, hrun, hpre, x, y, z, hconfig⟩, htext⟩ := hs
  have hregex : s.config.replaceRegex = d.config.replaceRegex := by rw [hconfig]
  rcases hpassed with ⟨hempty, rfl⟩ | ⟨hne, hregex', file, fs, hfile, hreplace, rfl⟩
  · have hnone : MainStage.effects .replaceInFile u = [] := by
      show u.replaceCall.toList.map _ = []
      unfold MainState.replaceCall
      rw [if_pos (Or.inl hempty)]
      rfl
    rw [hnone]
    exact ⟨.none (hempty ▸ htext), rfl, hparsed, hrun, hpre, x, y, z, hconfig⟩
  · have hcall : MainStage.effects .replaceInFile s = [.replaced fs] := by
      show s.replaceCall.toList.map _ = _
      unfold MainState.replaceCall
      rw [if_neg (by simp [hne, hregex']), hfile, Option.bind_some, hreplace]
      rfl
    rw [hcall]
    refine ⟨.file htext hne (hregex ▸ hregex') hfile (hregex ▸ hreplace), rfl, hparsed, hrun, hpre,
      x, file, z, ?_⟩
    show { s.config with replaceFile := file } = _
    rw [hconfig]

theorem replace_of {r : MainRun} {d : Launch} {s : MainState} (hs : AtReplace r d s)
    {files : List Effect} (h : Replaces r d.parsed.nvquery d.config files) :
    ∃ u, MainStage.Passed .replaceInFile s u ∧ MainStage.effects .replaceInFile s = files
      ∧ AtCommand r d u := by
  have htext := hs.replaceFile
  obtain ⟨x, y, z, hconfig⟩ := hs.config
  have hregex : s.config.replaceRegex = d.config.replaceRegex := by rw [hconfig]
  have hrun := hs.run
  have hpassed : ∃ u, MainStage.Passed .replaceInFile s u := by
    cases h with
    | none hempty => exact ⟨s, Or.inl ⟨htext.unique hempty, rfl⟩⟩
    | file htext' hne hregex' hfile hreplace =>
        have hsame := htext.unique htext'
        exact ⟨_, Or.inr ⟨hsame ▸ hne, hregex ▸ hregex', _, _, hsame ▸ hfile,
          by rw [hrun, hregex]; exact hreplace, rfl⟩⟩
  obtain ⟨u, hu⟩ := hpassed
  obtain ⟨heffects, hat⟩ := replace_ok hs hu
  exact ⟨u, hu, heffects.unique h, hat⟩

/-- The state that the run comes to the launch in. -/
structure AtLaunch (d : Launch) (t : LaunchState) : Prop where
  cmd : t.main.cmd = d.cmd
  precmd : t.precmd = d.precmd
  mode : windowMode t.main.config = windowMode d.config

/-- What a run that is selected lacks to be cleared. -/
structure Commanded (r : MainRun) (d : Launch) : Prop where
  padded : (transformedQuery d.config d.parsed.nvquery).1.ret = 0
  query : d.query = (transformedQuery d.config d.parsed.nvquery).2
  cmd : r.Becomes .cmd d.query d.runCmd d.cmd
  precmd : if d.preRunCmd = [] then d.precmd = []
    else r.Becomes .precmd d.query d.preRunCmd d.precmd
  executable : r.isExecutable (getexe d.cmd) = true

/-- The transforms of a state are those of its section. -/
theorem AtCommand.transformed {r : MainRun} {d : Launch} {s : MainState} (hs : AtCommand r d s) :
    s.transforms = (transformedQuery d.config d.parsed.nvquery).1
      ∧ s.transformed = (transformedQuery d.config d.parsed.nvquery).2 := by
  obtain ⟨x, y, z, hconfig⟩ := hs.config
  unfold MainState.transformed MainState.transforms transformedQuery
  rw [hs.parsed, hconfig]
  exact ⟨rfl, rfl⟩

/-- The mode of the window is that of the section. -/
theorem AtCommand.mode {r : MainRun} {d : Launch} {s : MainState} (hs : AtCommand r d s) :
    windowMode s.config = windowMode d.config := by
  obtain ⟨x, y, z, hconfig⟩ := hs.config
  rw [hconfig]
  rfl

/-- **THE STAGES BETWEEN `replace` AND THE LAUNCH**, all at once. -/
theorem command_ok {r : MainRun} {d : Launch} {s : MainState} (hs : AtCommand r d s)
    {t : LaunchState}
    (h : (Stages.run (LaunchStage.act p) (commandStages.map .of) ⟨s, []⟩).2 = .ok t) :
    ∃ query cmd precmd, Commanded r { d with query := query, cmd := cmd, precmd := precmd }
      ∧ AtLaunch { d with query := query, cmd := cmd, precmd := precmd } t := by
  obtain ⟨_, ⟨hpadded, rfl⟩, h⟩ := run_of_ok_iff.mp h
  obtain ⟨_, ⟨xcmd, hxcmd, hcmdret, rfl⟩, h⟩ := run_of_ok_iff.mp h
  obtain ⟨u, hprecmd, h⟩ := run_of_ok_iff.mp h
  obtain ⟨_, ⟨hexe, rfl⟩, h⟩ := run_of_ok_iff.mp h
  obtain rfl : _ = t := by injection h
  obtain ⟨htransforms, hquery⟩ := hs.transformed
  obtain ⟨rfl, hparsed, hrun, hpre, hconfig⟩ := hs
  have hcmd : s.run.Becomes .cmd s.transformed s.runCmd xcmd.str :=
    (expand_iff _ .cmd _ _ _).mp ⟨xcmd, hxcmd, hcmdret, rfl⟩
  have hmode := AtCommand.mode ⟨rfl, hparsed, hrun, hpre, hconfig⟩
  rw [htransforms] at hpadded
  rw [hrun] at hcmd
  rcases hprecmd with ⟨hempty, rfl⟩ | ⟨hne, xpre, hxpre, hpreret, rfl⟩
  · refine ⟨_, xcmd.str, [], ⟨hpadded, hquery, hcmd, ?_, hexe⟩, rfl, if_pos hempty, hmode⟩
    exact (if_pos (hpre ▸ hempty)).mpr rfl
  · refine ⟨_, xcmd.str, xpre.str, ⟨hpadded, hquery, hcmd, ?_, hexe⟩, rfl, ?_, hmode⟩
    · have hexpands : s.run.Becomes .precmd s.transformed s.preRunCmd xpre.str :=
        (expand_iff { s with globals := xcmd.globals } .precmd _ _ _).mp ⟨xpre, hxpre, hpreret, rfl⟩
      rw [hpre] at hexpands hne
      exact (if_neg hne).mpr hexpands
    · show MainState.precmdExpanded _ = xpre.str
      unfold MainState.precmdExpanded
      rw [if_neg hne, hxpre]
      rfl

theorem command_of {r : MainRun} {d : Launch} {s : MainState} (hs : AtCommand r d s)
    (hd : Commanded r d) :
    ∃ t, (Stages.run (LaunchStage.act p) (commandStages.map .of) ⟨s, []⟩).2 = .ok t
      ∧ AtLaunch d t := by
  obtain ⟨htransforms, hquery⟩ := hs.transformed
  have hmode := hs.mode
  obtain ⟨hpadded, hdquery, hcmd, hprecmd, hexe⟩ := hd
  obtain ⟨rfl, hparsed, hrun, hpre, hconfig⟩ := hs
  rw [← htransforms] at hpadded
  rw [hdquery, ← hquery] at hcmd hprecmd
  rw [← hrun] at hcmd
  rw [← hpre] at hprecmd
  let s₁ : MainState := { s with uriParsed := { s.uriParsed with nvquery := s.transformed } }
  obtain ⟨xcmd, hxcmd, hcmdret, hxcmdstr⟩ := expand_of (s := s₁) rfl hcmd
  let s₂ : MainState := { s₁ with globals := xcmd.globals, cmd := xcmd.str }
  by_cases hempty : s.preRunCmd = []
  · rw [if_pos hempty] at hprecmd
    refine ⟨⟨s₂, s₂.precmdExpanded⟩, ?_, hxcmdstr, (if_pos hempty).trans hprecmd.symm, hmode⟩
    refine run_of_ok_iff.mpr ⟨s₁, ⟨hpadded, rfl⟩, ?_⟩
    refine run_of_ok_iff.mpr ⟨s₂, ⟨xcmd, hxcmd, hcmdret, rfl⟩, ?_⟩
    refine run_of_ok_iff.mpr ⟨s₂, Or.inl ⟨hempty, rfl⟩, ?_⟩
    exact run_of_ok_iff.mpr ⟨s₂, ⟨(congrArg (fun cmd => s.run.isExecutable (getexe cmd))
      hxcmdstr).trans hexe, rfl⟩, rfl⟩
  · rw [if_neg hempty] at hprecmd
    obtain ⟨xpre, hxpre, hpreret, hxprestr⟩ := expand_of (s := s₂) rfl hprecmd
    let s₃ : MainState := { s₂ with globals := xpre.globals }
    refine ⟨⟨s₃, s₂.precmdExpanded⟩, ?_, hxcmdstr, ?_, hmode⟩
    · refine run_of_ok_iff.mpr ⟨s₁, ⟨hpadded, rfl⟩, ?_⟩
      refine run_of_ok_iff.mpr ⟨s₂, ⟨xcmd, hxcmd, hcmdret, rfl⟩, ?_⟩
      refine run_of_ok_iff.mpr ⟨s₃, Or.inr ⟨hempty, xpre, hxpre, hpreret, rfl⟩, ?_⟩
      exact run_of_ok_iff.mpr ⟨s₃, ⟨(congrArg (fun cmd => s.run.isExecutable (getexe cmd))
        hxcmdstr).trans hexe, rfl⟩, rfl⟩
    · show MainState.precmdExpanded s₂ = d.precmd
      unfold MainState.precmdExpanded
      rw [if_neg hempty, hxpre]
      exact hxprestr

/-! ## §3. The whole run. -/

theorem effects_of_ne {k : MainStage} (hk : k ≠ .replaceInFile) (s : MainState) :
    k.effects s = [] := if_neg hk

/-- Stages without the one of `replace` do nothing. -/
theorem run_map_silent {ks : List MainStage} (hks : .replaceInFile ∉ ks) (s : LaunchState) :
    (Stages.run (LaunchStage.act p) (ks.map .of) s).1 = [] := by
  refine Stages.run_silent ?_ s
  intro k hk s
  obtain ⟨k, hmem, rfl⟩ := List.mem_map.mp hk
  exact effects_of_ne (fun h => hks (h ▸ hmem)) s.main

theorem frontStages_map : frontStages.map LaunchStage.of
    = checkingStages.map .of ++ ([.of .replaceInFile] ++ commandStages.map .of) := by
  unfold frontStages
  rw [List.map_append, List.map_append, List.append_assoc]
  rfl

theorem replaced_effects (s : MainState) : OneFile (MainStage.effects .replaceInFile s) := by
  show (s.replaceCall.toList.map _).length ≤ 1 ∧ ∀ e ∈ s.replaceCall.toList.map _, _
  cases s.replaceCall with
  | none => exact ⟨Nat.zero_le 1, fun e he => absurd he List.not_mem_nil⟩
  | some r => exact ⟨Nat.le_refl 1, fun e he => ⟨r.2, List.mem_singleton.mp he⟩⟩

/-- A run whose section is selected, at the launch. -/
theorem front_of_cleared {r : MainRun} {d : Launch} (h : Cleared r d) :
    ∃ t, Stages.run (LaunchStage.act p) (frontStages.map .of) ⟨r.init, []⟩ = (d.files, .ok t)
      ∧ AtLaunch d t := by
  obtain ⟨text, htext⟩ := h.replaced.text
  obtain ⟨⟨s, precmd⟩, hrun, hat, rfl⟩ := checking_of_selected (p := p) h.toSelected htext
  obtain ⟨u, hpassed, heffects, hcommand⟩ := replace_of hat h.replaced
  obtain ⟨t, hlast, hlaunch⟩ := command_of (p := p) hcommand
    ⟨h.padded, h.query, h.cmd, h.precmd, h.executable⟩
  refine ⟨t, ?_, hlaunch⟩
  have hreplace : ((LaunchStage.of .replaceInFile).act p ⟨s, []⟩).2 = .ok ⟨u, []⟩ :=
    (of_ok_iff _ _ _).mpr ⟨hpassed, rfl⟩
  have hrest : Stages.run (LaunchStage.act p) ([.of .replaceInFile] ++ commandStages.map .of)
      ⟨s, []⟩ = (d.files, .ok t) := by
    rw [List.singleton_append, Stages.run, hreplace]
    dsimp only
    rw [hlast, run_map_silent (by decide), List.append_nil]
    exact congrArg (·, Except.ok t) heffects
  rw [frontStages_map, Stages.run_append_ok _ hrun, run_map_silent (by decide), hrest]
  rfl

/-- **THE STAGES IN FRONT OF A LAUNCH**: they go through for a run that is
cleared, and otherwise at most a file is replaced. -/
theorem front_cases (p : Platform) (r : MainRun) :
    (∃ d t, Cleared r d ∧ AtLaunch d t ∧ Stages.run (LaunchStage.act p) (frontStages.map .of)
        ⟨r.init, []⟩ = (d.files, .ok t))
      ∨ ∃ files e, OneFile files
        ∧ Stages.run (LaunchStage.act p) (frontStages.map .of) ⟨r.init, []⟩
          = (files, .error e) := by
  rw [frontStages_map]
  cases hchecking : (Stages.run (LaunchStage.act p) (checkingStages.map .of) ⟨r.init, []⟩).2 with
  | error e =>
      refine Or.inr ⟨[], e, ⟨Nat.zero_le 1, fun x hx => absurd hx List.not_mem_nil⟩, ?_⟩
      rw [Stages.run_append_error _ hchecking, run_map_silent (by decide)]
  | ok t =>
      obtain ⟨d, hselected, hat, hprecmd⟩ := checking_ok hchecking
      obtain ⟨s, precmd⟩ := t
      dsimp only at hat hprecmd
      subst hprecmd
      rw [Stages.run_append_ok _ hchecking, run_map_silent (by decide), List.nil_append,
        List.singleton_append, Stages.run]
      cases hreplace : ((LaunchStage.of .replaceInFile).act p ⟨s, []⟩).2 with
      | error e =>
          exact Or.inr ⟨_, e, replaced_effects s, rfl⟩
      | ok u =>
          obtain ⟨hpassed, hprecmd⟩ := (of_ok_iff _ _ _).mp hreplace
          obtain ⟨hreplaces, hcommand⟩ := replace_ok hat hpassed
          obtain ⟨u, precmd⟩ := u
          obtain rfl : precmd = [] := hprecmd
          dsimp only at hcommand ⊢
          rw [run_map_silent (by decide), List.append_nil]
          cases hlast : (Stages.run (LaunchStage.act p) (commandStages.map .of) ⟨u, []⟩).2 with
          | error e =>
              exact Or.inr ⟨_, e, replaced_effects s, rfl⟩
          | ok t =>
              obtain ⟨query, cmd, precmd, hcommanded, hlaunch⟩ := command_ok hcommand hlast
              left
              refine ⟨{ d with
                files := MainStage.effects .replaceInFile s
                query := query
                cmd := cmd
                precmd := precmd }, t, ?_, ⟨hlaunch.cmd, hlaunch.precmd, hlaunch.mode⟩, rfl⟩
              exact {
                mode := hselected.mode
                configured := hselected.configured
                parsed := hselected.parsed
                selected := hselected.selected
                found := hselected.found
                chosen := hselected.chosen
                command := hselected.command
                defaultPath := hselected.defaultPath
                fileThere := hselected.fileThere
                replaced := hreplaces
                padded := hcommanded.padded
                query := hcommanded.query
                cmd := hcommanded.cmd
                precmd := hcommanded.precmd
                executable := hcommanded.executable }

end Front

/-- What is started depends on the section only for the mode of the window. -/
theorem startEffects_congr (p : Platform) {config config' : Configuration}
    (h : windowMode config = windowMode config') (precmd cmd : CStr) :
    startEffects p config precmd cmd = startEffects p config' precmd cmd := by
  cases p with
  | mingw => exact congrArg (fun mode => _ ++ [Effect.runcmd cmd mode]) h
  | posix => rfl

/-- The log is cleaned behind a launch, and no error is displayed. -/
theorem clean_run (p : Platform) (t : LaunchState) :
    Stages.run (LaunchStage.act p) [.of .cleanLogfile] t
        = ([], ((LaunchStage.of .cleanLogfile).act p t).2)
      ∧ ∀ call, ((LaunchStage.of .cleanLogfile).act p t).2 ≠ .error (some call) := by
  refine ⟨?_, ?_⟩
  · rw [Stages.run]
    cases ((LaunchStage.of .cleanLogfile).act p t).2 with
    | error e => rfl
    | ok u => rfl
  · intro call
    show (cleanLogfile t.main).2.map _ ≠ _
    unfold cleanLogfile
    split <;> intro h <;> cases h

/-- The stages of a run that comes to a launch. -/
theorem acts_of_front {p : Platform} {r : MainRun} {d : Launch} {t : LaunchState}
    (hlaunch : AtLaunch d t)
    (hfront : Stages.run (LaunchStage.act p) (frontStages.map .of) ⟨r.init, []⟩
      = (d.files, .ok t)) :
    (stagesAct p r).1 = d.files ++ startEffects p d.config d.precmd d.cmd
      ∧ ∀ call, (stagesAct p r).2 ≠ .error (some call) := by
  have hact : LaunchStage.launch.act p t
      = (startEffects p t.main.config t.precmd t.main.cmd, .ok t) := rfl
  obtain ⟨hclean, hend⟩ := clean_run p t
  have hok : (Stages.run (LaunchStage.act p) (frontStages.map .of) ⟨r.init, []⟩).2 = .ok t := by
    rw [hfront]
  have hstages : stagesAct p r = (d.files ++ startEffects p d.config d.precmd d.cmd,
      ((LaunchStage.of .cleanLogfile).act p t).2) := by
    unfold stagesAct
    rw [launchStages_split, Stages.run_append_ok _ hok, hfront, Stages.run, hact]
    dsimp only
    rw [hclean, List.append_nil, hlaunch.cmd, hlaunch.precmd,
      startEffects_congr p hlaunch.mode]
  rw [hstages]
  exact ⟨rfl, hend⟩

/-- The stages of a run that is cleared. -/
theorem acts_of_cleared (p : Platform) {r : MainRun} {d : Launch} (h : Cleared r d) :
    (stagesAct p r).1 = d.files ++ startEffects p d.config d.precmd d.cmd
      ∧ ∀ call, (stagesAct p r).2 ≠ .error (some call) := by
  obtain ⟨t, hfront, hlaunch⟩ := front_of_cleared (p := p) h
  exact acts_of_front hlaunch hfront

/-- **THE STAGES WITHOUT THEIR CHECKS**: a run that is cleared starts its command,
any other one replaces a file at most, and exits. -/
theorem stagesAct_cases (p : Platform) (r : MainRun) :
    (∃ d, Cleared r d ∧ (stagesAct p r).1 = d.files ++ startEffects p d.config d.precmd d.cmd
        ∧ ∀ call, (stagesAct p r).2 ≠ .error (some call))
      ∨ (∀ d, ¬ Cleared r d) ∧ ∃ files e, OneFile files ∧ stagesAct p r = (files, .error e) := by
  rcases front_cases p r with ⟨d, t, hcleared, hlaunch, hfront⟩ | ⟨files, e, hfiles, hfront⟩
  · exact Or.inl ⟨d, hcleared, acts_of_front hlaunch hfront⟩
  · refine Or.inr ⟨?_, files, e, hfiles, ?_⟩
    · intro d hd
      obtain ⟨t, hok, -⟩ := front_of_cleared (p := p) hd
      rw [hfront] at hok
      injection hok with _ hok
      cases hok
    · have herror : (Stages.run (LaunchStage.act p) (frontStages.map .of) ⟨r.init, []⟩).2
          = .error e := by rw [hfront]
      unfold stagesAct
      rw [launchStages_split, Stages.run_append_error _ herror, hfront]

/-! ## §4. What is not defined. -/

/-- When there is room for the texts of a stage. -/
theorem logged_exec_iff (k : MainStage) (s : MainState) :
    logged (k.exec s).1 = true ↔ k.Fits s := by
  rw [← exec_short_iff]
  unfold logged
  rw [List.all_eq_true]
  simp only [decide_eq_true_eq]
  exact Iff.rfl

/-- The cleaning of the log is defined. -/
theorem clean_defined (p : Platform) (s : LaunchState) :
    (LaunchStage.of .cleanLogfile).defined p s = true := by
  show (true && logged (MainStage.exec .cleanLogfile s.main).1) = true
  rw [Bool.true_and]
  exact (logged_exec_iff .cleanLogfile s.main).mpr trivial

/-- The stages in front of a launch replace a file at most, up to any of them. -/
theorem front_oneFile (p : Platform) (r : MainRun) {ks : List LaunchStage}
    (h : ks <+: frontStages.map .of) :
    OneFile (Stages.run (LaunchStage.act p) ks ⟨r.init, []⟩).1 := by
  have hall : OneFile (Stages.run (LaunchStage.act p) (frontStages.map .of) ⟨r.init, []⟩).1 := by
    rcases front_cases p r with ⟨d, t, hcleared, -, hfront⟩ | ⟨files, e, hfiles, hfront⟩
    · rw [hfront]
      exact hcleared.replaced.files
    · rw [hfront]
      exact hfiles
  obtain ⟨ks', hks⟩ := h
  rw [← hks] at hall
  exact hall.initial (Stages.run_writes_initial ks ks' _)

/-- **THE STAGES WITH THEIR CHECKS**: they are those without, or they end at one
that is not defined, in front of the launch. -/
theorem stagesRun_outcome (p : Platform) (r : MainRun) :
    (Stages.Checked (LaunchStage.act p) (LaunchStage.defined p) launchStages ⟨r.init, []⟩
        ∧ stagesRun p r = stagesAct p r)
      ∨ ∃ files, OneFile files ∧ stagesRun p r = (files ++ [.undefined], .error none) := by
  rcases stagesRun_cases p r with hchecked | ⟨ks, k, ks', t, hsplit, -, hfails, hrun⟩
  · exact Or.inl hchecked
  · refine Or.inr ⟨_, front_oneFile p r ?_, hrun⟩
    -- the last stage is always defined
    have hne : ks' ≠ [] := by
      rintro rfl
      have hlast := congrArg List.getLast? hsplit
      rw [List.getLast?_concat] at hlast
      obtain rfl : LaunchStage.of .cleanLogfile = k := Option.some.inj hlast
      rw [clean_defined] at hfails
      cases hfails
    have hlen : ks.length ≤ (frontStages.map LaunchStage.of).length := by
      have htotal := congrArg List.length hsplit
      rw [launchStages_split, List.length_append, List.length_append, List.length_cons] at htotal
      have hpos := List.length_pos_iff.mpr hne
      simp only [List.length_cons, List.length_nil] at htotal
      omega
    have hinitial : ks <+: launchStages := ⟨k :: ks', hsplit.symm⟩
    have hfront : frontStages.map .of <+: launchStages := ⟨_, launchStages_split.symm⟩
    exact List.prefix_of_prefix_length_le hinitial hfront hlen

theorem errorPage_cases (curlEscape : CStr → CStr) (p : Platform) (call : ErrorCall) :
    (errorPage curlEscape p call).length ≤ 1
      ∧ ∀ e ∈ errorPage curlEscape p call, ∃ exe args, e = .spawn exe args := by
  have hnil : ([] : List Effect).length ≤ 1
      ∧ ∀ e ∈ ([] : List Effect), ∃ exe args, e = .spawn exe args :=
    ⟨Nat.zero_le 1, fun e he => absurd he List.not_mem_nil⟩
  unfold errorPage
  split
  · split
    · exact hnil
    · exact ⟨Nat.le_refl 1, fun e he => ⟨_, _, List.mem_singleton.mp he⟩⟩
  · exact hnil

/-- A page at most is opened, where this is defined. -/
theorem pageEffects_cases (curlEscape : CStr → CStr) (p : Platform)
    (x : Except (Option ErrorCall) LaunchState) :
    ((pageEffects curlEscape p x).length ≤ 1
        ∧ ∀ e ∈ pageEffects curlEscape p x, ∃ exe args, e = .spawn exe args)
      ∨ pageEffects curlEscape p x = [.undefined] := by
  have hnil : ([] : List Effect).length ≤ 1
      ∧ ∀ e ∈ ([] : List Effect), ∃ exe args, e = .spawn exe args :=
    ⟨Nat.zero_le 1, fun e he => absurd he List.not_mem_nil⟩
  cases x with
  | ok s => exact Or.inl hnil
  | error call =>
      cases call with
      | none => exact Or.inl hnil
      | some call =>
          show _ ∨ call.effects curlEscape p = [.undefined]
          cases hdefined : call.defined curlEscape p with
          | false => exact Or.inr (if_neg (ne_true_of_eq_false hdefined))
          | true =>
              have heffects : pageEffects curlEscape p (.error (some call))
                  = errorPage curlEscape p call := if_pos hdefined
              rw [heffects]
              exact Or.inl (errorPage_cases curlEscape p call)

/-! ## §5. The whole run. -/

/-- What a run does that starts nothing. -/
def StartsNothing (effects : List Effect) : Prop :=
  ∃ files page, effects = files ++ page ∧ OneFile files
    ∧ page.length ≤ 1 ∧ ∀ x ∈ page, ∃ exe args, x = Effect.spawn exe args

theorem StartsNothing.not_starts {effects : List Effect} (h : StartsNothing effects) :
    ¬ ∃ e ∈ effects, e.Starts := by
  obtain ⟨files, page, rfl, hfiles, -, hpage⟩ := h
  rintro ⟨e, he, hstarts⟩
  rcases List.mem_append.mp he with he | he
  · obtain ⟨fs, rfl⟩ := hfiles.2 e he
    exact hstarts
  · obtain ⟨exe, args, rfl⟩ := hpage e he
    exact hstarts

/-- What a run does up to a step that is not defined. -/
def StopsUndefined (effects : List Effect) : Prop :=
  ∃ files, effects = files ++ [.undefined] ∧ OneFile files

theorem StopsUndefined.not_starts {effects : List Effect} (h : StopsUndefined effects) :
    ¬ ∃ e ∈ effects, e.Starts := by
  obtain ⟨files, rfl, hfiles⟩ := h
  rintro ⟨e, he, hstarts⟩
  rcases List.mem_append.mp he with he | he
  · obtain ⟨fs, rfl⟩ := hfiles.2 e he
    exact hstarts
  · obtain rfl := List.mem_singleton.mp he
    exact hstarts

theorem StopsUndefined.not_allDefined {effects : List Effect} (h : StopsUndefined effects) :
    ¬ AllDefined effects := by
  obtain ⟨files, rfl, -⟩ := h
  exact fun hall => hall.not_mem (List.mem_append_right _ List.mem_cons_self)

section Run

variable (curlEscape : CStr → CStr) {p : Platform} {r : MainRun}

/-- A run whose stages end at one that is not defined. -/
theorem launch_of_stopped {files : List Effect} (hfiles : OneFile files)
    (h : stagesRun p r = (files ++ [.undefined], .error none)) :
    StopsUndefined (launchMain curlEscape p r).1 := by
  refine ⟨files, ?_, hfiles⟩
  unfold launchMain
  rw [h]
  exact List.append_nil _

/-- A run whose stages go through, without a call of `display_error`. -/
theorem launch_of_stages {x : LaunchResult} (h : stagesRun p r = x)
    (hend : ∀ call, x.2 ≠ .error (some call)) : launchMain curlEscape p r = x := by
  unfold launchMain
  rw [h]
  obtain ⟨effects, outcome⟩ := x
  cases outcome with
  | ok s => exact congrArg (·, Except.ok s) (List.append_nil effects)
  | error call =>
      cases call with
      | none => exact congrArg (·, Except.error none) (List.append_nil effects)
      | some call => exact absurd rfl (hend call)

/-- **A run that is cleared** starts its command, if all of it is defined. -/
theorem launch_of_cleared {d : Launch} (h : Cleared r d)
    (hdefined : AllDefined (launchMain curlEscape p r).1) :
    (launchMain curlEscape p r).1 = d.files ++ startEffects p d.config d.precmd d.cmd
      ∧ ∀ call, (launchMain curlEscape p r).2 ≠ .error (some call) := by
  obtain ⟨hacts, hend⟩ := acts_of_cleared p h
  rcases stagesRun_outcome p r with ⟨-, hsame⟩ | ⟨files, hfiles, hstopped⟩
  · rw [launch_of_stages curlEscape hsame hend]
    exact ⟨hacts, hend⟩
  · exact absurd hdefined (launch_of_stopped curlEscape hfiles hstopped).not_allDefined

/-- **WHEN A COMMAND IS STARTED, AND WHICH.**  A run that is cleared replaces its
file if it has one and starts its `precmd` and its command, and no error is
displayed.  A run that is not starts nothing: it replaces at most one file and
opens at most one error page.  The runs besides come to a step that is not
defined, and have replaced at most one file by then. -/
theorem launch_cases (p : Platform) (r : MainRun) :
    (∃ d, Cleared r d
        ∧ (launchMain curlEscape p r).1 = d.files ++ startEffects p d.config d.precmd d.cmd
        ∧ ∀ call, (launchMain curlEscape p r).2 ≠ .error (some call))
      ∨ ((∀ d, ¬ Cleared r d) ∧ StartsNothing (launchMain curlEscape p r).1)
      ∨ StopsUndefined (launchMain curlEscape p r).1 := by
  rcases stagesRun_outcome p r with ⟨-, hsame⟩ | ⟨files, hfiles, hstopped⟩
  · rcases stagesAct_cases p r with ⟨d, hd, hacts, hend⟩ | ⟨hno, files, e, hfiles, hacts⟩
    · rw [launch_of_stages curlEscape hsame hend]
      exact Or.inl ⟨d, hd, hacts, hend⟩
    · have heffects : (launchMain curlEscape p r).1
          = files ++ pageEffects curlEscape p (.error e) := by
        unfold launchMain
        rw [hsame, hacts]
      rw [heffects]
      rcases pageEffects_cases curlEscape p (.error e) with hpage | hundefined
      · exact Or.inr (Or.inl ⟨hno, files, _, rfl, hfiles, hpage⟩)
      · rw [hundefined]
        exact Or.inr (Or.inr ⟨files, rfl, hfiles⟩)
  · exact Or.inr (Or.inr (launch_of_stopped curlEscape hfiles hstopped))

variable {curlEscape}

/-- **A run that starts a command** is cleared, and all its stages are defined. -/
theorem cleared_of_starts (h : ∃ e ∈ (launchMain curlEscape p r).1, e.Starts) :
    ∃ d, Cleared r d
      ∧ (launchMain curlEscape p r).1 = d.files ++ startEffects p d.config d.precmd d.cmd := by
  rcases launch_cases curlEscape p r with ⟨d, hd, heffects, -⟩ | ⟨-, hnothing⟩ | hundefined
  · exact ⟨d, hd, heffects⟩
  · exact absurd h hnothing.not_starts
  · exact absurd h hundefined.not_starts

theorem checked_of_starts (h : ∃ e ∈ (launchMain curlEscape p r).1, e.Starts) :
    Stages.Checked (LaunchStage.act p) (LaunchStage.defined p) launchStages ⟨r.init, []⟩ := by
  rcases stagesRun_outcome p r with ⟨hchecked, -⟩ | ⟨files, hfiles, hstopped⟩
  · exact hchecked
  · exact absurd h (launch_of_stopped curlEscape hfiles hstopped).not_starts

end Run

end Protohand
