/-
  Protohand.Launch.Codes
  ──────────────────────
  **THE CODES `main` CALLS `display_error` WITH**, stage by stage.

  `MainStage.codes` is a table of them, and `main_code` says that it is
  complete.  All of them have a message but the one of a replacement that is
  not written as a whole (`main_message_iff`).
-/
import Protohand.Messages.Main

namespace Protohand

/-! ## §1. Codes of the functions below. -/

/-- The codes `expand_vars` returns early with. -/
def ExitCode : ExpandExit → Prop
  | .crash => True
  | .ret code _ _ => code = EXP_ERR_QUERYNVVAR_NOT_FOUND ∨ code = EXP_ERR_REALLOC

theorem expandAppend_exitCode {mem : RoundMem} {s : ExpandBuf} {append : CStr} {e : ExpandExit}
    (h : expandAppend mem s append = .error e) : ExitCode e := by
  unfold expandAppend at h
  split at h
  · cases h
    trivial
  · dsimp only at h
    split at h
    · cases h
      exact Or.inr rfl
    · cases h

theorem expandOpen_exitCode {mem : RoundMem} {s : ExpandBuf} {e : ExpandExit}
    (h : expandOpen mem s = .error e) : ExitCode e := by
  unfold expandOpen at h
  split at h
  · cases h
    trivial
  · cases h

theorem tokenStep_exitCode {mem : Nat → RoundMem} {getenv : Env} {query : NvList} {s : ExpandBuf}
    {t : Token} {e : ExpandExit} (h : tokenStep mem getenv query s t = .error e) : ExitCode e := by
  cases t with
  | put i c => exact expandAppend_exitCode h
  | opn i => exact expandOpen_exitCode h
  | fault => cases h; trivial
  | close i varname isCond =>
      change expandClose (mem i) getenv query varname isCond s = .error e at h
      unfold expandClose at h
      dsimp only at h
      split at h
      · split at h
        · cases h; trivial
        · split at h
          · exact expandAppend_exitCode h
          · cases h
      · split at h
        · cases h; exact Or.inl rfl
        · exact expandAppend_exitCode h

/-- What `expand_vars` returns. -/
theorem expandVars_code {mem : Nat → RoundMem} {getenv : Env} {query : NvList} {g : ExpandGlobals}
    {str : CStr} {r : ExpandResult} (h : expandVars mem getenv query g str = some r) :
    r.ret = 0 ∨ r.ret = EXP_ERR_QUERYNVVAR_NOT_FOUND ∨ r.ret = EXP_ERR_REALLOC := by
  rw [expandVars_eq_scan] at h
  cases hrun : expandRun mem getenv query g str with
  | ok s =>
      rw [hrun] at h
      obtain ⟨out, -, rfl⟩ := Option.map_eq_some_iff.mp h
      exact Or.inl rfl
  | error e =>
      have hcode : ExitCode e := Loop.foldlM_error ExitCode (tokenStep mem getenv query)
        (scan str) _ (fun _ _ _ _ hstep => tokenStep_exitCode hstep) hrun
      rw [hrun] at h
      cases e with
      | crash => cases h
      | ret code lastvar name =>
          cases h
          exact Or.inr hcode

theorem uriparseParse_code {mem : UriMem} {uri : CStr} {uri_parsed parsed : TUri} {res : Nat}
    (h : uriparseParse mem uri uri_parsed = some (res, parsed)) :
    res = 0 ∨ res = foundProto ∨ res = foundAuthority ∨ res = foundQuery := by
  unfold uriparseParse at h
  dsimp only at h
  split at h
  · cases h; exact Or.inr (Or.inl rfl)
  · split at h
    · cases h; exact Or.inr (Or.inr (Or.inl rfl))
    · split at h
      · cases h
      · injection h with h
        injection h with hres
        split at hres
        · exact Or.inr (Or.inr (Or.inr hres.symm))
        · exact Or.inl hres.symm

/-- What `replace` returns for a file that is not written as a whole. -/
def notWritten : Nat := 127

theorem replace_code {io : ReplaceIO} {regexReplace : RegexReplace} {regerrno : Int}
    {fs fs' : FileSystem} {fl regex : CStr} {ret : Nat}
    (h : replace io regexReplace regerrno fs fl regex = some (ret, fs')) :
    ret = OK ∨ ret ∈ [FAILED_TO_OPEN_REPLACE_FILE, FAILED_TO_ALLOC_MEM_FOR_FILE,
      FAILED_TO_PARSE_REGEX, notWritten] := by
  dsimp only [replace] at h
  split at h
  · cases h; exact Or.inr (by decide)
  · split at h
    · cases h; exact Or.inr (by decide)
    · split at h
      · cases h
      · cases h; exact Or.inr (by decide)
      · split at h
        · cases h; exact Or.inr (by decide)
        · cases h; exact Or.inl rfl

/-! ## §2. Codes of the stages. -/

/-- The codes that a stage may end with. -/
def MainStage.codes : MainStage → List Nat
  | .readConfig => [FAILED_TO_DOWNLOAD_CONFIG, FAILED_TO_OPEN_CONFIG, INI_PARSE_ERR]
  | .expandLogPath | .expandPrefixHelp | .expandPrefixCmd => [FAILED_TO_EXPAND_ENV]
  | .openLog => [ERR_NO_USERDIR, FAILED_TO_OPEN_LOGFILE]
  | .parseUri => [127 + foundProto, 127 + foundAuthority, 127 + foundQuery]
  | .readSection => [INI_PARSE_ERR]
  | .checkSection => [NO_INI_SECTION_FOUND]
  | .chooseCmd => [NO_CMD_DIRECTIVE, NO_USER_PARAM_FOUND]
  | .expandDefaultPath | .expandReplaceFile | .expandFileMustExist => [FAILED_TO_EXPAND_ENV]
  | .checkFile => [FILE_NOT_FOUND]
  | .replaceInFile => [MISSING_REGEX, FAILED_TO_OPEN_REPLACE_FILE, FAILED_TO_ALLOC_MEM_FOR_FILE,
      FAILED_TO_PARSE_REGEX, notWritten]
  | .transformQuery => [FAILED_TO_ZEROPAD]
  | .expandCmd | .expandPrecmd => [EXP_ERR_QUERYNVVAR_NOT_FOUND + 32, EXP_ERR_REALLOC + 32]
  | .checkExe => [NOT_EXECUTABLE]
  | .checkMode | .startLog | .cleanLogfile => []

/-- A stage ends without a call, or with one of these codes. -/
def EndsWith (codes : List Nat) (e : Option ErrorCall) : Prop := ∀ call ∈ e, call.code ∈ codes

theorem endsWith_none (codes : List Nat) : EndsWith codes none := by
  intro call hcall
  cases hcall

theorem endsWith_failWith {s : MainState} {code : Nat} {errorString : Option CStr}
    {codes : List Nat} {e : Option ErrorCall} (hcode : code ∈ codes)
    (h : s.failWith code errorString = .error e) : EndsWith codes e := by
  injection h with h
  intro call hcall
  rw [← h] at hcall
  rw [← Option.some.inj hcall]
  exact hcode

theorem expansion_code {x : Expansion} {s : MainState} {e : Option ErrorCall}
    (h : (x.exec s).2 = .error e) : EndsWith [FAILED_TO_EXPAND_ENV] e := by
  unfold Expansion.exec at h
  split at h
  · cases h; exact endsWith_none _
  · dsimp only at h
    split at h
    · exact endsWith_failWith (by decide) h
    · cases h

theorem expandCommand_code {which : Expanded} {label : String} {str : CStr}
    {set : MainState → CStr → MainState} {s : MainState} {e : Option ErrorCall}
    (h : (expandCommand which label str set s).2 = .error e) :
    EndsWith [EXP_ERR_QUERYNVVAR_NOT_FOUND + 32, EXP_ERR_REALLOC + 32] e := by
  unfold expandCommand at h
  split at h
  · cases h; exact endsWith_none _
  · next r hr =>
      dsimp only at h
      split at h
      · next hret =>
          refine endsWith_failWith ?_ h
          -- 32 is added to the code of `expand_vars`
          rcases expandVars_code hr with hzero | hcode | hcode
          · exact absurd hzero hret
          · rw [hcode]; decide
          · rw [hcode]; decide
      · cases h

/-- **The table of the codes** is complete. -/
theorem exec_codes (k : MainStage) (s : MainState) {e : Option ErrorCall}
    (h : (k.exec s).2 = .error e) : EndsWith k.codes e := by
  cases k with
  | checkMode =>
      change (checkMode s).2 = .error e at h
      unfold checkMode at h
      split at h
      · cases h; exact endsWith_none _
      · cases h
  | readConfig =>
      change (readConfig s).2 = .error e at h
      unfold readConfig at h
      split at h
      · cases h; exact endsWith_none _
      · split at h
        · exact endsWith_failWith (by decide) h
        · split at h
          · exact endsWith_failWith (by decide) h
          · dsimp only at h
            split at h
            · exact endsWith_failWith (by decide) h
            · cases h
  | expandLogPath => exact expansion_code h
  | expandPrefixHelp => exact expansion_code h
  | expandPrefixCmd => exact expansion_code h
  | openLog =>
      change (openLog s).2 = .error e at h
      unfold openLog at h
      split at h
      · exact endsWith_failWith (by decide) h
      · split at h
        · cases h
        · exact endsWith_failWith (by decide) h
  | startLog => cases h
  | parseUri =>
      change (parseUri s).2 = .error e at h
      unfold parseUri at h
      split at h
      · cases h; exact endsWith_none _
      · next res parsed hparse =>
          split at h
          · next hres =>
              refine endsWith_failWith ?_ h
              -- and 127 to the one of `uriparse_parse`
              rcases uriparseParse_code hparse with hcode | rfl | rfl | rfl
              · exact absurd hcode hres
              · decide
              · decide
              · decide
          · cases h
  | readSection =>
      change (readSection s).2 = .error e at h
      unfold readSection at h
      dsimp only at h
      split at h
      · exact endsWith_failWith (by decide) h
      · cases h
  | checkSection =>
      change (checkSection s).2 = .error e at h
      unfold checkSection at h
      dsimp only at h
      split at h
      · exact endsWith_failWith (by decide) h
      · cases h
  | chooseCmd =>
      have hchosen : ∀ {texts : List CStr} {runCmd preRunCmd : CStr},
          (chosen s texts runCmd preRunCmd).2 = .error e →
          EndsWith (MainStage.codes .chooseCmd) e := by
        intro texts runCmd preRunCmd h
        unfold chosen at h
        split at h
        · exact endsWith_failWith (by decide) h
        · cases h
      change (chooseCmd s).2 = .error e at h
      unfold chooseCmd at h
      split at h
      · exact hchosen h
      · split at h
        · exact endsWith_failWith (by decide) h
        · dsimp only at h
          split at h
          · cases h; exact endsWith_none _
          · split at h
            · exact hchosen h
            · exact hchosen h
  | expandDefaultPath => exact expansion_code h
  | expandReplaceFile => exact expansion_code h
  | expandFileMustExist => exact expansion_code h
  | checkFile =>
      change (checkFile s).2 = .error e at h
      unfold checkFile at h
      split at h
      · cases h
      · split at h
        · cases h; exact endsWith_none _
        · split at h
          · cases h
          · exact endsWith_failWith (by decide) h
  | replaceInFile =>
      change (replaceInFile s).2 = .error e at h
      unfold replaceInFile at h
      split at h
      · cases h
      · dsimp only at h
        split at h
        · exact endsWith_failWith (by decide) h
        · split at h
          · cases h; exact endsWith_none _
          · split at h
            · cases h; exact endsWith_none _
            · next ret fs hreplace =>
                split at h
                · next hret =>
                    refine endsWith_failWith ?_ h
                    -- the code of `replace` is handed on as it is
                    exact List.mem_cons_of_mem _ ((replace_code hreplace).resolve_left hret)
                · cases h
  | transformQuery =>
      change (transformQuery s).2 = .error e at h
      unfold transformQuery at h
      split at h
      · exact endsWith_failWith (by decide) h
      · cases h
  | expandCmd => exact expandCommand_code h
  | expandPrecmd =>
      change (expandPrecmd s).2 = .error e at h
      unfold expandPrecmd at h
      split at h
      · cases h
      · exact expandCommand_code h
  | checkExe =>
      change (checkExe s).2 = .error e at h
      unfold checkExe at h
      split at h
      · cases h
      · exact endsWith_failWith (by decide) h
  | cleanLogfile =>
      change (cleanLogfile s).2 = .error e at h
      unfold cleanLogfile at h
      split at h
      · cases h; exact endsWith_none _
      · cases h

/-- The codes of all stages. -/
def mainCodes : List Nat := mainStages.flatMap MainStage.codes

/-- **The codes of a run** are those of its stages. -/
theorem main_code {r : MainRun} {call : ErrorCall} (h : (main r).2 = .error (some call)) :
    call.code ∈ mainCodes := by
  have hall : ∀ k : MainStage, k ∈ mainStages := by
    intro k
    -- no stage is left out of the list
    cases k <;> decide
  have hends : EndsWith mainCodes (some call) :=
    Stages.run_exit (fun _ => True) (EndsWith mainCodes) (fun _ _ _ _ _ => trivial)
      (fun k s e _ he call hcall =>
        List.mem_flatMap.mpr ⟨k, hall k, exec_codes k s he call hcall⟩) trivial h
  exact hends call rfl

/-- The size of the array `errstr`. -/
def errstrSize : Nat := 255

/-- **EVERY CODE HAS A MESSAGE**, but the one of a file that is not written; and
no code leads out of the array of the messages. -/
theorem main_message_iff {r : MainRun} {call : ErrorCall} (h : (main r).2 = .error (some call)) :
    call.code < errstrSize ∧ (errorMessages.lookup call.code = none ↔ call.code = notWritten) := by
  have hall : ∀ code ∈ mainCodes,
      code < errstrSize ∧ (errorMessages.lookup code = none ↔ code = notWritten) := by
    decide +kernel
  exact hall call.code (main_code h)

end Protohand
