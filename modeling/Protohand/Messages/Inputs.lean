/-
  Protohand.Messages.Inputs
  ─────────────────────────
  **WHAT A RUN OF `main` HAS TO BE GIVEN** for its texts to fit into `logbuffer`.

  `MainStage.Room` asks a stage for what it is given: the URI, the names of the
  files, the values of the configuration as they are read, the lengths of the
  values a template names.  What the stages take from the URI asks for nothing:
  a URI that fits into the start line has no part, no pair and no section that
  is too long, unless a part is read from the memory (`TUri.Within`).

    • `fits_iff_room`    — one stage, in a state the run comes to it in,
    • `fits_iff_hasRoom` — all of them.
-/
import Protohand.Messages.Room
import Protohand.Messages.Steps
import Protohand.UriParse.Lengths
import Protohand.CmdParser.Outcome

namespace Protohand

open Text Printf

/-! ## §1. What the stages are given. -/

/-- A URI that is refused is logged once more, behind the reason. -/
structure RefusalRoom (mem : UriMem) (uri : CStr) : Prop where
  proto : ¬ HasScheme uri → uri.length ≤ 4036
  authority : HasScheme uri → after (ascii ':') uri = [] → uri.length ≤ 4046
  query : ∀ u : UriParts, u.Scanned → u.render = uri → after (ascii ':') uri ≠ [] →
    QueryRefused (u.queryRead mem) → uri.length ≤ 4048

/-- The URI is accepted. -/
def UriTaken (mem : UriMem) (uri : CStr) : Prop :=
  after (ascii ':') uri ≠ [] ∧ ∃ u : UriParts, u.Scanned ∧ u.render = uri
    ∧ QueryTaken (u.queryRead mem)

/-- The texts of the memory that stand for an empty query and an empty fragment
at the end of the URI. -/
structure MemoryRoom (mem : UriMem) (uri : CStr) : Prop where
  query : EndsInQuery (scannedText uri) → mem.query.length ≤ 4082
  fragment : EndsInFragment (scannedText uri) → mem.fragment.length ≤ 4082

/-- What a directive comes to fits behind its label. -/
def Expansion.Room (e : Expansion) (room : Nat) (s : MainState) : Prop :=
  1 < s.loglevel → ∀ n, ComesTo (s.run.expandMem e.which) s.run.env (e.query s) (e.get s) n →
    n ≤ room

/-- What a command comes to fits, or the name that is not found in it. -/
structure CommandRoom (which : Expanded) (str : CStr) (room : Nat) (s : MainState) : Prop where
  name : ∀ name, EndsAtName (s.run.expandMem which) s.run.env s.uriParsed.nvquery str name →
    name.length ≤ 4044
  text : 1 < s.loglevel →
    ∀ n, ComesTo (s.run.expandMem which) s.run.env s.uriParsed.nvquery str n → n ≤ room

/-- `replace` gives an error. -/
def MainState.ReplaceFails (s : MainState) : Prop :=
  ∃ file ret fs, cmdunquote s.config.replaceFile = some file
    ∧ replace s.run.io s.run.regexReplace s.run.regerrno s.run.fs file s.config.replaceRegex
      = some (ret, fs) ∧ ret ≠ 0

/-- The quotes that `cmdunquote` takes away. -/
def quotesAround (str : CStr) : Nat := if isquoted str ≠ ascii '"' then 0 else 2

/-- The path of the executable ends within `n` characters of the command: at the
next quote if it is quoted, else at the next blank. -/
def ProgramWithin (n : Nat) (cmd : CStr) : Prop :=
  let tmp := trim cmd
  if tmp.head? = some (ascii '"') then
    ascii '"' ∈ (tmp.drop 1).take (n + 1) ∨ (tmp.drop 1).length ≤ n
  else ascii ' ' ∈ tmp.take (n + 1) ∨ tmp.length ≤ n

/-- The room a stage is given, in the state it starts from. -/
def MainStage.Room : MainStage → MainState → Prop
  | startLog, s =>
      (decimal 32 (s.run.tm.year + 1900)).length + s.run.uri.length ≤ 4064
        ∧ (2 < s.loglevel → GlobalRoom s.cfg)
        ∧ s.run.dir.length ≤ 4074 ∧ (s.run.iniFile.getD []).length ≤ 4074
  | parseUri, s =>
      RefusalRoom s.run.uriMem s.run.uri
        ∧ (2 < s.loglevel → UriTaken s.run.uriMem s.run.uri →
          MemoryRoom s.run.uriMem s.run.uri)
  | checkSection, s =>
      2 < s.loglevel → ConfigRoom s.config
        ∧ (3 < s.loglevel → ArrayRoom s.config.lpadzero ∧ ArrayRoom s.config.ltrimzero)
  | chooseCmd, s => s.config.userParam ≠ [] →
      match s.userPair with
      | none => s.config.userParam.length ≤ 4049
      -- only a query of the memory has a longer pair
      | some pair => EndsInQuery (scannedText s.run.uri) →
          pair.key.length + pair.value.length ≤ 4079
  | expandDefaultPath, s => Protohand.expandDefaultPath.Room 4072 s
  | expandReplaceFile, s => Protohand.expandReplaceFile.Room 4072 s
  | expandFileMustExist, s => Protohand.expandFileMustExist.Room 4069 s
  | replaceInFile, s => s.config.replaceFile ≠ [] →
      (1 < s.loglevel → s.config.replaceRegex.length ≤ 4087)
        ∧ (s.config.replaceRegex ≠ [] → s.ReplaceFails →
          s.config.replaceFile.length + s.config.replaceRegex.length
            ≤ 4068 + quotesAround s.config.replaceFile)
  | transformQuery, s => EndsInQuery (scannedText s.run.uri) →
      ∀ p, s.uriParsed.nvquery.pairs.find?
        (fun p => decide (TooLong 10 (entries s.config.lpadzero) p)) = some p →
      p.value.length ≤ 4060
  | expandCmd, s => CommandRoom .cmd s.runCmd 4081 s
  | expandPrecmd, s => s.preRunCmd ≠ [] → CommandRoom .precmd s.preRunCmd 4078 s
  | checkExe, s =>
      if s.run.isExecutable (getexe s.cmd) = true then ProgramWithin 4076 s.cmd
      else ProgramWithin 4077 s.cmd
  | checkMode, _ | readConfig, _ | expandLogPath, _ | expandPrefixHelp, _ | expandPrefixCmd, _
  | openLog, _ | readSection, _ | checkFile, _ | cleanLogfile, _ => True

/-! ## §2. The stages, one by one. -/

theorem length_before_le_iff (c : UInt8) (s : CStr) (n : Nat) :
    (before c s).length ≤ n ↔ c ∈ s.take (n + 1) ∨ s.length ≤ n := by
  by_cases hc : c ∈ s
  · have hcut : before c s ++ c :: after c s = s := before_append_after hc
    have hfree : c ∉ before c s := not_mem_before c s
    constructor
    · intro h
      left
      rw [← hcut, List.mem_take_iff_getElem]
      refine ⟨(before c s).length, by rw [List.length_append, List.length_cons]; omega, ?_⟩
      simp
    · intro h
      by_contra hlong
      rcases h with h | h
      · rw [← hcut, List.take_append_of_le_length (by omega)] at h
        exact hfree (List.mem_of_mem_take h)
      · have hlen := congrArg List.length hcut
        rw [List.length_append, List.length_cons] at hlen
        omega
  · rw [before_of_not_mem hc]
    exact ⟨Or.inr, fun h => h.resolve_left fun hmem => hc (List.mem_of_mem_take hmem)⟩

/-- How long the path of the executable is. -/
theorem length_getexe_le_iff (n : Nat) (cmd : CStr) :
    (getexe cmd).length ≤ n ↔ ProgramWithin n cmd := by
  unfold getexe ProgramWithin
  dsimp only
  split
  · exact length_before_le_iff _ _ _
  · exact length_before_le_iff _ _ _

theorem length_cmdunquote {str file : CStr} (h : cmdunquote str = some file) :
    file.length + quotesAround str = str.length := by
  unfold cmdunquote at h
  unfold quotesAround
  split at h
  · next hquote =>
    obtain rfl : str = file := Option.some.inj h
    rw [if_pos hquote]
    rfl
  · next hquote =>
    rw [if_neg hquote]
    split at h
    · cases h
    · obtain rfl : (str.drop 1).take (str.length - 2) = file := Option.some.inj h
      rw [List.length_take, List.length_drop]
      omega

theorem expansion_fits_iff (e : Expansion) (room : Nat) (s : MainState) :
    e.Fits room s ↔ e.Room room s := by
  unfold Expansion.Fits Expansion.Room MainState.expand
  constructor
  · intro h hlevel n hn
    obtain ⟨r, hr, hret, rfl⟩ := (expandVars_length_iff s.globals _ n).mpr hn
    exact h r hr hret hlevel
  · intro h r hr hret hlevel
    exact h hlevel _ ((expandVars_length_iff s.globals _ _).mp ⟨r, hr, hret, rfl⟩)

/-- A command, in a run that has reported no name yet. -/
theorem command_fits_iff {which : Expanded} {str : CStr} {room : Nat} {s : MainState}
    (hnone : s.globals.expandvarErrVarName = []) :
    CommandFits which str room s ↔ CommandRoom which str room s := by
  have hname : (errstr (EXP_ERR_QUERYNVVAR_NOT_FOUND + 32)).length = 41 := by decide +kernel
  have hblock : (errstr (EXP_ERR_REALLOC + 32)).length = 75 := by decide +kernel
  unfold CommandFits MainState.expand
  constructor
  · intro h
    constructor
    · intro name hstops
      obtain ⟨r, hr, hret, rfl⟩ := expandVars_stops s.globals hstops
      have hfits := h r hr
      rw [if_pos (by rw [hret]; decide), hret, hname] at hfits
      omega
    · intro hlevel n hn
      obtain ⟨r, hr, hret, rfl⟩ := (expandVars_length_iff s.globals str n).mpr hn
      have hfits := h r hr
      rw [if_neg (not_not_intro hret)] at hfits
      exact hfits hlevel
  · intro h r hr
    by_cases hret : r.ret = 0
    · rw [if_neg (not_not_intro hret)]
      intro hlevel
      exact h.text hlevel _ ((expandVars_length_iff s.globals str _).mp ⟨r, hr, hret, rfl⟩)
    · rw [if_pos hret]
      -- a name is reported only with the first of the two codes
      rcases expandVars_ret hr hret with ⟨hcode, hstops⟩ | ⟨hcode, hsame⟩
      · have hlen := h.name _ hstops
        rw [hcode, hname]
        omega
      · rw [hcode, hblock, hsame, hnone, List.length_nil]
        omega

/-- A value that is too long to be padded, and the text about it. -/
theorem transform_fits_iff (s : MainState) :
    MainStage.transformQuery.Fits s
      ↔ ∀ p, s.uriParsed.nvquery.pairs.find?
          (fun p => decide (TooLong 10 (entries s.config.lpadzero) p)) = some p →
        p.value.length ≤ 4060 := by
  show (s.transforms.ret ≠ 0 → s.transforms.lastPadded.length ≤ 4060) ↔ _
  cases hfind : s.uriParsed.nvquery.pairs.find?
      (fun p => decide (TooLong 10 (entries s.config.lpadzero) p)) with
  | none =>
      have hnone : ∀ p ∈ s.uriParsed.nvquery.pairs, ¬ TooLong 10 (entries s.config.lpadzero) p := by
        intro p hp
        simpa using List.find?_eq_none.mp hfind p hp
      obtain ⟨calls, hcalls⟩ := (lpad_stage (entries s.config.lpadzero) _ ([], [])).1 hnone
      have hret : s.transforms.ret = 0 := by
        unfold MainState.transforms transformStages lpadzeroStage stage
        rw [hcalls]
        dsimp only
        split <;> rfl
      exact iff_of_true (fun h => absurd hret h) (fun p hp => by cases hp)
  | some p =>
      obtain ⟨calls, hcalls⟩ := lpad_stage_first (entries s.config.lpadzero) _ ([], []) hfind
      have hrun : s.transforms = ⟨FAILED_TO_ZEROPAD, s.uriParsed.nvquery.pairs,
          calls ++ [⟨p.value, ⟨[], [0]⟩⟩], []⟩ := by
        unfold MainState.transforms transformStages lpadzeroStage stage
        rw [hcalls]
      have hlast : s.transforms.lastPadded = p.value := by
        unfold TransformRun.lastPadded
        rw [hrun]
        simp
      rw [hlast, hrun]
      simp [FAILED_TO_ZEROPAD]

/-! ## §3. The states of a run. -/

/-- What no stage changes. -/
structure MainState.Of (r : MainRun) (s : MainState) : Prop where
  run : s.run = r
  sect : s.cfg.sect = defaultGconfig.sect
  errVarName : s.globals.expandvarErrVarName = []

theorem globalParse_sect (content : CStr) :
    (iniParseString globalHandler content defaultGconfig).2.sect = defaultGconfig.sect := by
  rw [parse_directives]
  refine Cell.foldl_invariant (fun cfg : GlobalConfiguration => cfg.sect = defaultGconfig.sect)
    ?_ _ rfl
  intro cfg d hs
  exact (callback_sect globalBranches_lawful cfg ⟨d.event, ⟨[], 0⟩⟩).trans hs

section States

variable {r : MainRun}

theorem expansion_of {e : Expansion} {s t : MainState} (hs : s.Of r) (h : e.Passed s t)
    (hrun : ∀ s value, (e.set s value).run = s.run)
    (hsect : ∀ s value, (e.set s value).cfg.sect = s.cfg.sect)
    (hglobals : ∀ s value, (e.set s value).globals = s.globals) : t.Of r := by
  obtain ⟨x, hx, hret, rfl⟩ := h
  refine ⟨(hrun _ _).trans hs.run, (hsect _ _).trans hs.sect, ?_⟩
  rw [hglobals]
  exact (expandVars_errVarName hx hret).trans hs.errVarName

/-- One stage. -/
theorem exec_of {k : MainStage} {s t : MainState} (hs : s.Of r) (h : (k.exec s).2 = .ok t) :
    t.Of r := by
  have hpassed := (exec_ok_iff k s t).mp h
  cases k with
  | checkMode | checkSection | checkExe | cleanLogfile =>
      obtain ⟨-, rfl⟩ := hpassed
      exact hs
  | readConfig =>
      obtain ⟨-, -, content, -, -, rfl⟩ := hpassed
      exact ⟨hs.run, globalParse_sect content, hs.errVarName⟩
  | expandLogPath | expandPrefixHelp | expandPrefixCmd | expandDefaultPath | expandReplaceFile
  | expandFileMustExist =>
      exact expansion_of hs hpassed (fun _ _ => rfl) (fun _ _ => rfl) (fun _ _ => rfl)
  | openLog | transformQuery | readSection =>
      obtain ⟨-, rfl⟩ := hpassed
      exact ⟨hs.run, hs.sect, hs.errVarName⟩
  | startLog =>
      obtain rfl : t = s := hpassed
      exact hs
  | parseUri =>
      obtain ⟨parsed, -, rfl⟩ := hpassed
      exact ⟨hs.run, hs.sect, hs.errVarName⟩
  | chooseCmd =>
      obtain ⟨runCmd, preRunCmd, -, -, rfl⟩ := hpassed
      exact ⟨hs.run, hs.sect, hs.errVarName⟩
  | checkFile =>
      rcases hpassed with ⟨-, rfl⟩ | ⟨-, file, -, -, rfl⟩
      · exact hs
      · exact ⟨hs.run, hs.sect, hs.errVarName⟩
  | replaceInFile =>
      rcases hpassed with ⟨-, rfl⟩ | ⟨-, -, file, fs, -, -, rfl⟩
      · exact hs
      · exact ⟨hs.run, hs.sect, hs.errVarName⟩
  | expandCmd =>
      obtain ⟨x, hx, hret, rfl⟩ := hpassed
      exact ⟨hs.run, hs.sect, (expandVars_errVarName hx hret).trans hs.errVarName⟩
  | expandPrecmd =>
      rcases hpassed with ⟨-, rfl⟩ | ⟨-, x, hx, hret, rfl⟩
      · exact hs
      · exact ⟨hs.run, hs.sect, (expandVars_errVarName hx hret).trans hs.errVarName⟩

theorem init_of (r : MainRun) : r.init.Of r := ⟨rfl, rfl, rfl⟩

/-- **Every state of a run** is one of its own. -/
theorem entered_of {k : MainStage} {s : MainState}
    (h : Stages.Entered MainStage.exec mainStages r.init k s) : s.Of r :=
  Stages.entered_keeps (fun s => s.Of r) (fun _ _ _ _ hs ht => exec_of hs ht) (init_of r) h

/-- The URI of the run is accepted, and these are its parts. -/
def MainState.Parsed (r : MainRun) (s : MainState) : Prop :=
  uriparseParse r.uriMem r.uri (uriparseCreate r.uri) = some (0, s.uriParsed)

/-- The stages that leave the parts of the URI alone. -/
theorem exec_uriParsed {k : MainStage} (hk : k ≠ .parseUri) (hk' : k ≠ .transformQuery)
    {s t : MainState} (h : (k.exec s).2 = .ok t) : t.uriParsed = s.uriParsed := by
  have hpassed := (exec_ok_iff k s t).mp h
  cases k with
  | checkMode | openLog | checkSection | checkExe | cleanLogfile | readSection =>
      obtain ⟨-, rfl⟩ := hpassed
      rfl
  | readConfig =>
      obtain ⟨-, -, content, -, -, rfl⟩ := hpassed
      rfl
  | expandLogPath | expandPrefixHelp | expandPrefixCmd | expandDefaultPath | expandReplaceFile
  | expandFileMustExist | expandCmd =>
      obtain ⟨x, -, -, rfl⟩ := hpassed
      rfl
  | startLog =>
      obtain rfl : t = s := hpassed
      rfl
  | parseUri => exact absurd rfl hk
  | transformQuery => exact absurd rfl hk'
  | chooseCmd =>
      obtain ⟨runCmd, preRunCmd, -, -, rfl⟩ := hpassed
      rfl
  | checkFile =>
      rcases hpassed with ⟨-, rfl⟩ | ⟨-, file, -, -, rfl⟩ <;> rfl
  | replaceInFile =>
      rcases hpassed with ⟨-, rfl⟩ | ⟨-, -, file, fs, -, -, rfl⟩ <;> rfl
  | expandPrecmd =>
      rcases hpassed with ⟨-, rfl⟩ | ⟨-, x, -, -, rfl⟩ <;> rfl

/-- The stages up to the URI, and from there up to the transforms. -/
def openingStages : List MainStage :=
  [.checkMode, .readConfig, .expandLogPath, .expandPrefixHelp, .expandPrefixCmd, .openLog,
    .startLog]

def parsedStages : List MainStage :=
  [.readSection, .checkSection, .chooseCmd, .expandDefaultPath, .expandReplaceFile,
    .expandFileMustExist, .checkFile, .replaceInFile]

theorem mainStages_parsed : mainStages = openingStages ++ .parseUri :: (parsedStages
    ++ .transformQuery :: [.expandCmd, .expandPrecmd, .checkExe, .cleanLogfile]) := rfl

/-- **The parts of the URI**, at the stages that format some of them. -/
theorem entered_parsed {k : MainStage} (hk : k ∈ parsedStages ∨ k = .transformQuery)
    {s : MainState} (h : Stages.Entered MainStage.exec mainStages r.init k s) : s.Parsed r := by
  have hopening : k ∉ openingStages ∧ k ≠ .parseUri
      ∧ k ∉ [MainStage.expandCmd, .expandPrecmd, .checkExe, .cleanLogfile] := by
    revert hk
    cases k <;> decide
  rw [mainStages_parsed, Stages.entered_append] at h
  rcases h with h | ⟨u, hu, h⟩
  · exact absurd h.mem hopening.1
  rcases Stages.entered_cons.mp h with ⟨hsame, -⟩ | ⟨v, hv, h⟩
  · exact absurd hsame hopening.2.1
  -- `parseUri` leaves its parts, and nothing touches them up to the transforms
  have huOf : u.Of r := Stages.run_keeps (fun s => s.Of r) (fun _ _ _ _ hs ht => exec_of hs ht)
    (init_of r) hu
  have hvParsed : v.Parsed r := by
    obtain ⟨parsed, hparsed, rfl⟩ := (exec_ok_iff .parseUri u v).mp hv
    rw [huOf.run] at hparsed
    exact hparsed
  have hkeeps : ∀ k ∈ parsedStages, ∀ s t, MainState.Parsed r s → (k.exec s).2 = .ok t →
      MainState.Parsed r t := by
    intro k hk s t hs ht
    have hother : k ≠ .parseUri ∧ k ≠ .transformQuery := by
      revert hk
      cases k <;> decide
    unfold MainState.Parsed
    rw [exec_uriParsed hother.1 hother.2 ht]
    exact hs
  rcases Stages.entered_append.mp h with h | ⟨w, hw, h⟩
  · exact Stages.entered_keeps (MainState.Parsed r) hkeeps hvParsed h
  · rcases Stages.entered_cons.mp h with ⟨-, rfl⟩ | ⟨x, -, h⟩
    · exact Stages.run_keeps (MainState.Parsed r) hkeeps hvParsed hw
    · exact absurd h.mem hopening.2.2

/-- Behind `startLog` the URI has fitted into its line. -/
theorem startLog_entered {k : MainStage} (hk : k ∉ openingStages) {s : MainState}
    (h : Stages.Entered MainStage.exec mainStages r.init k s) :
    ∃ u, Stages.Entered MainStage.exec mainStages r.init .startLog u := by
  have hsplit : mainStages = [.checkMode, .readConfig, .expandLogPath, .expandPrefixHelp,
      .expandPrefixCmd, .openLog] ++ .startLog :: .parseUri :: (parsedStages
        ++ [.transformQuery, .expandCmd, .expandPrecmd, .checkExe, .cleanLogfile]) := rfl
  rw [hsplit, Stages.entered_append] at h
  rcases h with h | ⟨u, hu, -⟩
  · refine absurd ?_ hk
    have hopening : openingStages = [.checkMode, .readConfig, .expandLogPath, .expandPrefixHelp,
        .expandPrefixCmd, .openLog] ++ [.startLog] := rfl
    rw [hopening]
    exact List.mem_append_left _ h.mem
  · exact ⟨u, Stages.entered_of_run hu .startLog _⟩

/-- Behind `readSection` the section that is looked up is that of the URI. -/
theorem entered_checkSection {s : MainState}
    (h : Stages.Entered MainStage.exec mainStages r.init .checkSection s) :
    s.config.sect = sectionName s.uriParsed := by
  have hsplit : mainStages = (openingStages ++ [.parseUri]) ++ .readSection :: .checkSection ::
      [.chooseCmd, .expandDefaultPath, .expandReplaceFile, .expandFileMustExist, .checkFile,
        .replaceInFile, .transformQuery, .expandCmd, .expandPrecmd, .checkExe, .cleanLogfile] := rfl
  rw [hsplit, Stages.entered_append] at h
  rcases h with h | ⟨u, -, h⟩
  · exact absurd h.mem (by decide)
  rcases Stages.entered_cons.mp h with ⟨hsame, -⟩ | ⟨v, hv, h⟩
  · cases hsame
  obtain ⟨-, rfl⟩ := (exec_ok_iff .readSection u v).mp hv
  rcases Stages.entered_cons.mp h with ⟨-, rfl⟩ | ⟨w, -, h⟩
  · show (lookupSection _ _ _).2.sect = _
    rw [lookupSection_run]
    exact run_sect iniBranches_lawful _ _
  · exact absurd h.mem (by decide)

/-- Between its expansion and its use, nothing touches the name of the file. -/
theorem entered_replaceInFile {s : MainState}
    (h : Stages.Entered MainStage.exec mainStages r.init .replaceInFile s) :
    ∃ u x, Stages.Entered MainStage.exec mainStages r.init .expandReplaceFile u
      ∧ u.expand .replaceFile u.uriParsed.nvquery u.config.replaceFile = some x ∧ x.ret = 0
      ∧ s.config.replaceFile = x.str ∧ s.loglevel = u.loglevel := by
  have hsplit : mainStages = (openingStages ++ [.parseUri, .readSection, .checkSection, .chooseCmd,
      .expandDefaultPath]) ++ .expandReplaceFile :: ([.expandFileMustExist, .checkFile]
        ++ .replaceInFile :: [.transformQuery, .expandCmd, .expandPrecmd, .checkExe,
          .cleanLogfile]) := rfl
  rw [hsplit] at h ⊢
  rcases Stages.entered_append.mp h with h | ⟨u, hu, h⟩
  · exact absurd h.mem (by decide)
  rcases Stages.entered_cons.mp h with ⟨hsame, -⟩ | ⟨v, hv, h⟩
  · cases hsame
  obtain ⟨x, hx, hret, rfl⟩ := (exec_ok_iff .expandReplaceFile u v).mp hv
  refine ⟨u, x, Stages.entered_of_run hu _ _, hx, hret, ?_⟩
  have hkeeps : ∀ k ∈ [MainStage.expandFileMustExist, .checkFile], ∀ s t : MainState,
      s.config.replaceFile = x.str ∧ s.loglevel = u.loglevel → (k.exec s).2 = .ok t →
      t.config.replaceFile = x.str ∧ t.loglevel = u.loglevel := by
    intro k hk s t hs ht
    rcases List.mem_pair.mp hk with rfl | rfl
    · obtain ⟨y, -, -, rfl⟩ := (exec_ok_iff .expandFileMustExist s t).mp ht
      exact hs
    · rcases (exec_ok_iff .checkFile s t).mp ht with ⟨-, rfl⟩ | ⟨-, file, -, -, rfl⟩
      · exact hs
      · exact hs
  rw [Stages.entered_at (by decide) (by decide)] at h
  refine Stages.run_keeps (fun s : MainState => s.config.replaceFile = x.str
    ∧ s.loglevel = u.loglevel) hkeeps ?_ h
  exact ⟨rfl, rfl⟩

/-! ## §4. The stages of a run. -/

/-- A run whose start line has fitted, and whose `replace_file` fits where it is logged. -/
structure MainRun.Opened (r : MainRun) (k : MainStage) : Prop where
  uri : k ∉ openingStages → r.uri.length ≤ 4063
  replaceFile : ∀ u, Stages.Entered MainStage.exec mainStages r.init .expandReplaceFile u →
    Protohand.expandReplaceFile.Fits 4072 u

theorem uriRoom_within {mem : UriMem} {uri : CStr} {parsed : TUri} (hin : parsed.Within mem uri)
    (huri : uri.length ≤ 4063) : UriRoom parsed ↔ MemoryRoom mem uri := by
  constructor
  · intro h
    constructor
    · intro hends
      exact hin.queryRead hends ▸ h.query
    · intro hends
      exact hin.fragmentRead hends ▸ h.fragment
  · intro h
    constructor
    · exact hin.proto.trans (by omega)
    · exact hin.authority.trans (by omega)
    · exact hin.path.trans (by omega)
    · by_cases hends : EndsInQuery (scannedText uri)
      · rw [hin.queryRead hends]
        exact h.query hends
      · rcases hin.query hends with hnil | hlen
        · rw [hnil]
          exact Nat.zero_le _
        · omega
    · by_cases hends : EndsInFragment (scannedText uri)
      · rw [hin.fragmentRead hends]
        exact h.fragment hends
      · exact (hin.fragment hends).trans (by omega)

/-- A query has at most 512 pairs, so that their numbers take three digits. -/
theorem queryRoom_within {mem : UriMem} {uri : CStr} {parsed : TUri}
    (hin : parsed.Within mem uri) (hquery : parsed.query.length ≤ 4082) :
    QueryRoom parsed.nvquery := by
  intro pi hpi
  obtain ⟨hindex, hpair⟩ := List.mem_zipIdx' hpi
  have hcount := hin.count
  -- the number of a pair is below 512
  have hnumber : (decimal 32 pi.2).length ≤ 3 := by
    have hsame : (pi.2 : Int).bmod (2 ^ 32) = pi.2 := by
      unfold strArrayMax at hcount
      rw [Int.bmod_eq_of_le] <;> omega
    unfold decimal
    simp only [hsame]
    rw [if_neg (by omega), Int.natAbs_natCast, length_digits_le (by decide)]
    unfold strArrayMax at hcount
    omega
  have hwithin := (hin.pairs pi.1 (hpair ▸ List.getElem_mem _)).1
  omega

theorem refusal_length {n : Nat} (hn : n = foundProto ∨ n = foundAuthority ∨ n = foundQuery) :
    (decimal 32 n).length + (uriErrorText n).length
      = if n = foundProto then 38 else if n = foundAuthority then 28 else 26 := by
  rcases hn with rfl | rfl | rfl <;> decide +kernel

/-- What is logged for an answer of the parser. -/
def AnswerFits (uri : CStr) (level : Int) (r : Nat × TUri) : Prop :=
  if r.1 ≠ 0 then (decimal 32 r.1).length + (uriErrorText r.1).length + uri.length ≤ 4074
  else 2 < level → UriRoom r.2 ∧ (3 < level → QueryRoom r.2.nvquery)

/-- A URI that is refused: the reason and its code leave the rest to it. -/
theorem answerFits_refused {n : Nat}
    (hn : n = foundProto ∨ n = foundAuthority ∨ n = foundQuery) (uri : CStr) (level : Int)
    (parsed : TUri) :
    AnswerFits uri level (n, parsed)
      ↔ (if n = foundProto then 38 else if n = foundAuthority then 28 else 26) + uri.length
        ≤ 4074 := by
  have hne : n ≠ 0 := by
    rcases hn with rfl | rfl | rfl <;> decide
  unfold AnswerFits
  rw [if_pos hne, refusal_length hn]

/-- **An answer is logged** in the room there is behind its reason. -/
theorem answerFits_iff (mem : UriMem) {uri : CStr} (huri : uri.length ≤ 4063) (level : Int) :
    (∀ r, uriparseParse mem uri (uriparseCreate uri) = some r → AnswerFits uri level r)
      ↔ RefusalRoom mem uri ∧ (2 < level → UriTaken mem uri → MemoryRoom mem uri) := by
  have hproto : ∀ parsed, AnswerFits uri level (foundProto, parsed) ↔ uri.length ≤ 4036 := by
    intro parsed
    rw [answerFits_refused (Or.inl rfl), if_pos rfl]
    omega
  have hauthority : ∀ parsed, AnswerFits uri level (foundAuthority, parsed)
      ↔ uri.length ≤ 4046 := by
    intro parsed
    rw [answerFits_refused (Or.inr (Or.inl rfl)), if_neg (by decide), if_pos rfl]
    omega
  have hquery : ∀ parsed, AnswerFits uri level (foundQuery, parsed) ↔ uri.length ≤ 4048 := by
    intro parsed
    rw [answerFits_refused (Or.inr (Or.inr rfl)), if_neg (by decide), if_neg (by decide)]
    omega
  constructor
  · intro h
    refine ⟨⟨?_, ?_, ?_⟩, ?_⟩
    · intro hs
      obtain ⟨parsed, hrun⟩ := uriparseParse_no_scheme hs mem
      exact (hproto parsed).mp (h _ hrun)
    · intro hs hrest
      obtain ⟨parsed, hrun⟩ := uriparseParse_bare_scheme hs hrest mem
      exact (hauthority parsed).mp (h _ hrun)
    · rintro u hu rfl hrest hrefused
      obtain ⟨parsed, hrun⟩ := uriparseParse_refused hu hrest hrefused
      exact (hquery parsed).mp (h _ hrun)
    · rintro hlevel ⟨hrest, u, hu, rfl, htaken⟩
      obtain ⟨parsed, hrun⟩ := uriparseParse_taken hu hrest htaken
      have hfits := h _ hrun
      exact (uriRoom_within (accepted_lengths hrun) huri).mp (hfits hlevel).1
  · intro ⟨hrefusal, hmemory⟩ r hr
    -- more than 512 parts have no answer
    rcases uriparseParse_cases mem uri with ⟨hs, parsed, hrun⟩ | ⟨hs, hrest, parsed, hrun⟩
      | ⟨u, hu, rfl, hrest, hrun⟩
    · obtain rfl : (foundProto, parsed) = r := Option.some.inj (hrun ▸ hr)
      exact (hproto parsed).mpr (hrefusal.proto hs)
    · obtain rfl : (foundAuthority, parsed) = r := Option.some.inj (hrun ▸ hr)
      exact (hauthority parsed).mpr (hrefusal.authority hs hrest)
    · rcases query_cases (u.queryRead mem) with htaken | hrefused | hparts
      · obtain ⟨parsed, hrun⟩ := uriparseParse_taken hu hrest htaken
        obtain rfl : (0, parsed) = r := Option.some.inj (hrun ▸ hr)
        have hin := accepted_lengths hrun
        show 2 < level → UriRoom parsed ∧ (3 < level → QueryRoom parsed.nvquery)
        intro hlevel
        have hroom : UriRoom parsed :=
          (uriRoom_within hin huri).mpr (hmemory hlevel ⟨hrest, u, hu, rfl, htaken⟩)
        exact ⟨hroom, fun _ => queryRoom_within hin hroom.query⟩
      · obtain ⟨parsed, hrun⟩ := uriparseParse_refused hu hrest hrefused
        obtain rfl : (foundQuery, parsed) = r := Option.some.inj (hrun ▸ hr)
        exact (hquery parsed).mpr (hrefusal.query u hu rfl hrest hrefused)
      · rw [hrun, (parseQuery_code _).2.2 hparts] at hr
        cases hr

theorem mem_userPair {s : MainState} {pair : NvPair} (h : s.userPair = some pair) :
    pair ∈ s.uriParsed.nvquery.pairs := by
  unfold MainState.userPair at h
  obtain ⟨i, -, hi⟩ := Option.bind_eq_some_iff.mp h
  exact List.mem_of_getElem? hi

theorem chooseCmd_fits_iff {s : MainState} (hin : s.uriParsed.Within s.run.uriMem s.run.uri)
    (huri : s.run.uri.length ≤ 4063) :
    MainStage.chooseCmd.Fits s ↔ MainStage.chooseCmd.Room s := by
  unfold MainStage.Fits MainStage.Room
  refine forall_congr' fun _ => ?_
  cases hpair : s.userPair with
  | none => exact Iff.rfl
  | some pair =>
      dsimp only
      refine ⟨fun h _ => h, fun h => ?_⟩
      by_cases hends : EndsInQuery (scannedText s.run.uri)
      · exact h hends
      · have hwithin := (hin.pairs pair (mem_userPair hpair)).1
        rcases hin.query hends with hnil | hlen
        · rw [hnil, List.length_nil] at hwithin
          omega
        · omega

theorem transformQuery_fits_iff {s : MainState} (hin : s.uriParsed.Within s.run.uriMem s.run.uri)
    (huri : s.run.uri.length ≤ 4063) :
    MainStage.transformQuery.Fits s ↔ MainStage.transformQuery.Room s := by
  rw [transform_fits_iff]
  refine ⟨fun h _ => h, fun h p hp => ?_⟩
  by_cases hends : EndsInQuery (scannedText s.run.uri)
  · exact h hends p hp
  · -- the pair leaves its `=`, the query its `:` and its `?`
    obtain ⟨hshort, hvalue⟩ := hin.pairs p (List.mem_of_find?_eq_some hp)
    rcases hin.query hends with hnil | hlen
    · rw [hnil, List.length_nil] at hshort
      omega
    · by_cases hnone : p.value = []
      · rw [hnone]
        exact Nat.zero_le _
      · have hpair := hvalue hnone
        omega

theorem checkSection_fits_iff {s : MainState} (hsect : s.config.sect = sectionName s.uriParsed)
    (hname : (sectionName s.uriParsed).length ≤ 4063) :
    MainStage.checkSection.Fits s ↔ MainStage.checkSection.Room s := by
  unfold MainStage.Fits MainStage.Room
  dsimp only
  rw [hsect]
  constructor
  · intro h hlevel
    exact ⟨(h.1 hlevel).1.2, (h.1 hlevel).2⟩
  · intro h
    refine ⟨fun hlevel => ⟨⟨by omega, (h hlevel).1⟩, (h hlevel).2⟩, fun _ => by omega⟩

theorem replaceInFile_fits_iff {s : MainState}
    (hfile : 1 < s.loglevel → s.config.replaceFile.length ≤ 4077) :
    MainStage.replaceInFile.Fits s ↔ MainStage.replaceInFile.Room s := by
  unfold MainStage.Fits MainStage.Room
  refine forall_congr' fun _ => ?_
  constructor
  · intro h
    refine ⟨fun hlevel => (h.1 hlevel).2, ?_⟩
    rintro hregex ⟨file, ret, fs, hunquote, hreplace, hret⟩
    have hfits := h.2 hregex file ret fs hunquote hreplace hret
    have hlen := length_cmdunquote hunquote
    omega
  · intro h
    refine ⟨fun hlevel => ⟨hfile hlevel, h.1 hlevel⟩, ?_⟩
    intro hregex file ret fs hunquote hreplace hret
    have hroom := h.2 hregex ⟨file, ret, fs, hunquote, hreplace, hret⟩
    have hlen := length_cmdunquote hunquote
    omega

/-- **One stage of a run**: its texts fit exactly if it is given room. -/
theorem fits_iff_room {k : MainStage} {s : MainState}
    (hs : Stages.Entered MainStage.exec mainStages r.init k s) (hopened : r.Opened k) :
    k.Fits s ↔ k.Room s := by
  have hof := entered_of hs
  have hin : k ∈ parsedStages ∨ k = .transformQuery → s.uriParsed.Within s.run.uriMem s.run.uri := by
    intro hk
    rw [hof.run]
    exact accepted_lengths (entered_parsed hk hs)
  have huri : k ∉ openingStages → s.run.uri.length ≤ 4063 := by
    rw [hof.run]
    exact hopened.uri
  cases k with
  | checkMode | readConfig | expandLogPath | expandPrefixHelp | expandPrefixCmd | openLog
  | checkFile | cleanLogfile => exact Iff.rfl
  | startLog =>
      unfold MainStage.Fits MainStage.Room
      -- the section of the globals is a constant
      have hsect : s.cfg.sect.length ≤ 4086 := by
        rw [hof.sect]
        decide
      exact and_congr_right' (and_congr_left' (forall_congr' fun _ => and_iff_right hsect))
  | parseUri =>
      have huri' : s.run.uri.length ≤ 4063 := huri (by decide)
      exact answerFits_iff s.run.uriMem huri' s.loglevel
  | readSection =>
      have hlen := (hin (by decide)).sect
      have huri' := huri (by decide)
      refine iff_of_true ?_ trivial
      show (sectionName s.uriParsed).length ≤ 4072
      omega
  | checkSection =>
      exact checkSection_fits_iff (entered_checkSection hs)
        ((hin (by decide)).sect.trans (huri (by decide)))
  | chooseCmd => exact chooseCmd_fits_iff (hin (by decide)) (huri (by decide))
  | expandDefaultPath => exact expansion_fits_iff _ _ _
  | expandReplaceFile => exact expansion_fits_iff _ _ _
  | expandFileMustExist => exact expansion_fits_iff _ _ _
  | replaceInFile =>
      refine replaceInFile_fits_iff ?_
      intro hlevel
      obtain ⟨u, x, hu, hx, hret, hfile, hsame⟩ := entered_replaceInFile hs
      have hfits := hopened.replaceFile u hu x hx hret (hsame ▸ hlevel)
      rw [hfile]
      -- the same text was logged behind a longer label
      exact hfits.trans (by decide)
  | transformQuery => exact transformQuery_fits_iff (hin (by decide)) (huri (by decide))
  | expandCmd => exact command_fits_iff hof.errVarName
  | expandPrecmd =>
      exact forall_congr' fun _ => command_fits_iff hof.errVarName
  | checkExe =>
      unfold MainStage.Fits MainStage.Room
      dsimp only
      split_ifs
      · exact length_getexe_le_iff _ _
      · exact length_getexe_le_iff _ _

/-! ## §5. All stages. -/

/-- Every stage is given room, in the state the run comes to it in. -/
def MainRun.HasRoom (r : MainRun) : Prop :=
  ∀ k s, Stages.Entered MainStage.exec mainStages r.init k s → k.Room s

/-- What a start line that fits and a `replace_file` that fits leave to the others. -/
theorem opened_of (k : MainStage)
    (hline : ∀ u, Stages.Entered MainStage.exec mainStages r.init .startLog u →
      (decimal 32 (u.run.tm.year + 1900)).length + u.run.uri.length ≤ 4064)
    (hfile : ∀ u, Stages.Entered MainStage.exec mainStages r.init .expandReplaceFile u →
      Protohand.expandReplaceFile.Fits 4072 u) {s : MainState}
    (hs : Stages.Entered MainStage.exec mainStages r.init k s) : r.Opened k := by
  refine ⟨fun hk => ?_, hfile⟩
  obtain ⟨u, hu⟩ := startLog_entered hk hs
  have hroom := hline u hu
  have hyear := length_decimal_pos 32 (u.run.tm.year + 1900)
  rw [(entered_of hu).run] at hroom hyear
  omega

/-- **The texts of a run fit exactly if its stages are given room.** -/
theorem fits_iff_hasRoom :
    (∀ k s, Stages.Entered MainStage.exec mainStages r.init k s → k.Fits s) ↔ r.HasRoom := by
  constructor
  · intro h k s hs
    have hopened := opened_of k (fun u hu => (h .startLog u hu).1)
      (fun u hu => h .expandReplaceFile u hu) hs
    exact (fits_iff_room hs hopened).mp (h k s hs)
  · intro h k s hs
    have hopened := opened_of k (fun u hu => (h .startLog u hu).1)
      (fun u hu => (expansion_fits_iff _ _ _).mpr (h .expandReplaceFile u hu)) hs
    exact (fits_iff_room hs hopened).mpr (h k s hs)

end States

end Protohand
