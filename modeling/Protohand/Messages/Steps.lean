/-
  Protohand.Messages.Steps
  ────────────────────────
  **WHAT EACH STAGE OF `main` CHECKS AND CHANGES**, said once.

  `MainStage.Passed k s t` is everything that is known of a stage `k` that goes
  through from `s` to `t`: the checks that have not failed, and the variables
  that are written.  All that is proved about whole runs is read from it
  (`exec_ok_iff`).
-/
import Protohand.Messages.Main

namespace Protohand

/-! ## §1. The commands that may be chosen. -/

/-- The choice of `main` between the commands of a section. -/
inductive Chooses (env : Env) (query : NvList) (config : Configuration) : CStr → CStr → Prop
  | plain (h : config.userParam = []) : Chooses env query config config.cmd config.precmd
  | usermatch {i : Nat} {pair : NvPair} {username : CStr} (h : config.userParam ≠ [])
      (hfind : findUserParam config.userParam query = some i) (hpair : query.pairs[i]? = some pair)
      (hname : env (bytes "USERNAME") = some username)
      (hmatch : strcmpLcase username pair.value = 0) :
      Chooses env query config config.cmdUsermatch config.precmdUsermatch
  | nousermatch {i : Nat} {pair : NvPair} {username : CStr} (h : config.userParam ≠ [])
      (hfind : findUserParam config.userParam query = some i) (hpair : query.pairs[i]? = some pair)
      (hname : env (bytes "USERNAME") = some username)
      (hmatch : strcmpLcase username pair.value ≠ 0) :
      Chooses env query config config.cmdNousermatch config.precmdNousermatch

/-! ## §2. What a stage that goes through has checked. -/

/-- A directive that is expanded in its place. -/
def Expansion.Passed (e : Expansion) (s t : MainState) : Prop :=
  ∃ r, s.expand e.which (e.query s) (e.get s) = some r ∧ r.ret = 0
    ∧ t = e.set { s with globals := r.globals } r.str

/-- The query behind the transforms. -/
def MainState.transformed (s : MainState) : NvList :=
  { s.uriParsed.nvquery with
    items := s.transforms.pairs.map some
      ++ s.uriParsed.nvquery.items.drop (s.transforms.pairs.map some).length }

def MainStage.Passed : MainStage → MainState → MainState → Prop
  | .checkMode, s, t =>
      modeSwitches.any (fun mode => strcmp s.run.uri mode = 0) = false ∧ t = s
  | .readConfig, s, t =>
      s.run.iniFile ≠ none ∧ (s.run.IsRemote → s.run.downloadRet = 0)
        ∧ ∃ content, s.run.iniContent = some content
          ∧ (iniParseString globalHandler content defaultGconfig).1 = 0
          ∧ t = { s with
              iniContent := content
              cfg := (iniParseString globalHandler content defaultGconfig).2 }
  | .expandLogPath, s, t => Protohand.expandLogPath.Passed s t
  | .expandPrefixHelp, s, t => Protohand.expandPrefixHelp.Passed s t
  | .expandPrefixCmd, s, t => Protohand.expandPrefixCmd.Passed s t
  | .openLog, s, t =>
      (∃ file, s.logFile = some file ∧ s.run.logOpens file = true)
        ∧ t = { s with loglevel := configuredLevel s.cfg.logLevel }
  | .startLog, s, t => t = s
  | .parseUri, s, t =>
      ∃ parsed, uriparseParse s.run.uriMem s.run.uri (uriparseCreate s.run.uri) = some (0, parsed)
        ∧ t = { s with uriParsed := parsed }
  | .readSection, s, t =>
      (lookupSection s.run.fresh s.uriParsed s.iniContent).1 = 0
        ∧ t = { s with config := (lookupSection s.run.fresh s.uriParsed s.iniContent).2 }
  | .checkSection, s, t => s.config.found ≠ 0 ∧ t = s
  | .chooseCmd, s, t =>
      ∃ runCmd preRunCmd, Chooses s.run.env s.uriParsed.nvquery s.config runCmd preRunCmd
        ∧ runCmd ≠ [] ∧ t = { s with runCmd := runCmd, preRunCmd := preRunCmd }
  | .expandDefaultPath, s, t => Protohand.expandDefaultPath.Passed s t
  | .expandReplaceFile, s, t => Protohand.expandReplaceFile.Passed s t
  | .expandFileMustExist, s, t => Protohand.expandFileMustExist.Passed s t
  | .checkFile, s, t =>
      (s.config.fileMustExist = [] ∧ t = s)
        ∨ (s.config.fileMustExist ≠ [] ∧ ∃ file, cmdunquote s.config.fileMustExist = some file
          ∧ s.run.fileExists file = true
          ∧ t = { s with config := { s.config with fileMustExist := file } })
  | .replaceInFile, s, t =>
      (s.config.replaceFile = [] ∧ t = s)
        ∨ (s.config.replaceFile ≠ [] ∧ s.config.replaceRegex ≠ []
          ∧ ∃ file fs, cmdunquote s.config.replaceFile = some file
            ∧ replace s.run.io s.run.regexReplace s.run.regerrno s.run.fs file
              s.config.replaceRegex = some (0, fs)
            ∧ t = { s with config := { s.config with replaceFile := file } })
  | .transformQuery, s, t =>
      s.transforms.ret = 0
        ∧ t = { s with uriParsed := { s.uriParsed with nvquery := s.transformed } }
  | .expandCmd, s, t =>
      ∃ r, s.expand .cmd s.uriParsed.nvquery s.runCmd = some r ∧ r.ret = 0
        ∧ t = { s with globals := r.globals, cmd := r.str }
  | .expandPrecmd, s, t =>
      (s.preRunCmd = [] ∧ t = s)
        ∨ (s.preRunCmd ≠ [] ∧ ∃ r, s.expand .precmd s.uriParsed.nvquery s.preRunCmd = some r
          ∧ r.ret = 0 ∧ t = { s with globals := r.globals })
  | .checkExe, s, t => s.run.isExecutable (getexe s.cmd) = true ∧ t = s
  | .cleanLogfile, s, t => s.loglevel ≠ 0 ∧ t = s

/-! ## §3. The stages, one by one. -/

theorem not_ok_failWith (s t : MainState) (code : Nat) (errorString : Option CStr) :
    ¬ s.failWith code errorString = .ok t := by
  intro h
  cases h

theorem not_ok_fail (s t : MainState) (code : Nat) : ¬ s.fail code = .ok t :=
  not_ok_failWith s t code none

theorem ok_iff {s t : MainState} :
    (Except.ok s : Except (Option ErrorCall) MainState) = .ok t ↔ t = s :=
  ⟨fun h => by injection h with h; exact h.symm, fun h => by rw [h]⟩

theorem expansion_ok_iff (e : Expansion) (s t : MainState) :
    (e.exec s).2 = .ok t ↔ e.Passed s t := by
  unfold Expansion.exec Expansion.Passed
  cases hexpand : s.expand e.which (e.query s) (e.get s) with
  | none => simp
  | some r =>
      dsimp only
      by_cases hret : r.ret = 0
      · rw [if_neg (not_not.mpr hret)]
        simp [hret, @eq_comm _ t]
      · rw [if_pos hret]
        simp [hret, not_ok_fail]

theorem readConfig_ok_iff (s t : MainState) :
    (readConfig s).2 = .ok t ↔ MainStage.Passed .readConfig s t := by
  unfold readConfig
  dsimp only [MainStage.Passed]
  by_cases hfile : s.run.iniFile = none
  · simp [hfile]
  · rw [if_neg hfile]
    by_cases hremote : s.run.IsRemote ∧ s.run.downloadRet ≠ 0
    · rw [if_pos hremote]
      simp only [not_ok_fail, false_iff, not_and]
      exact fun _ h => absurd (h hremote.1) hremote.2
    · rw [if_neg hremote]
      have hdownload : s.run.IsRemote → s.run.downloadRet = 0 := by
        intro h
        by_contra hret
        exact hremote ⟨h, hret⟩
      cases hcontent : s.run.iniContent with
      | none => simp [not_ok_fail]
      | some content =>
          dsimp only
          by_cases hret : (iniParseString globalHandler content defaultGconfig).1 = 0
          · rw [if_neg (not_not.mpr hret)]
            simp only [hfile, hret, not_false_eq_true, true_and, Option.some.injEq, exists_eq_left',
              and_iff_right hdownload, Except.ok.injEq, @eq_comm _ t, ne_eq]
          · rw [if_pos hret]
            simp [hret, not_ok_fail]

theorem openLog_ok_iff (s t : MainState) :
    (openLog s).2 = .ok t ↔ MainStage.Passed .openLog s t := by
  unfold openLog
  dsimp only [MainStage.Passed]
  cases hfile : s.logFile with
  | none => simp [not_ok_fail]
  | some file =>
      dsimp only
      by_cases hopens : s.run.logOpens file = true
      · rw [if_pos hopens]
        simp [hopens, @eq_comm _ t]
      · rw [if_neg hopens]
        simp [hopens, not_ok_fail]

theorem parseUri_ok_iff (s t : MainState) :
    (parseUri s).2 = .ok t ↔ MainStage.Passed .parseUri s t := by
  unfold parseUri
  dsimp only [MainStage.Passed]
  cases hparse : uriparseParse s.run.uriMem s.run.uri (uriparseCreate s.run.uri) with
  | none => simp
  | some x =>
      obtain ⟨res, parsed⟩ := x
      dsimp only
      by_cases hres : res = 0
      · rw [if_neg (not_not.mpr hres)]
        simp [hres, @eq_comm _ t]
      · rw [if_pos hres]
        simp [hres, not_ok_fail]

theorem chosen_ok_iff (s t : MainState) (texts : List CStr) (runCmd preRunCmd : CStr) :
    (chosen s texts runCmd preRunCmd).2 = .ok t
      ↔ runCmd ≠ [] ∧ t = { s with runCmd := runCmd, preRunCmd := preRunCmd } := by
  unfold chosen
  by_cases hcmd : runCmd = []
  · simp [hcmd, not_ok_fail]
  · simp [hcmd, @eq_comm _ t]

theorem chooseCmd_ok_iff (s t : MainState) :
    (chooseCmd s).2 = .ok t ↔ MainStage.Passed .chooseCmd s t := by
  unfold chooseCmd
  dsimp only [MainStage.Passed]
  by_cases hparam : s.config.userParam = []
  · rw [if_pos hparam, chosen_ok_iff]
    constructor
    · exact fun h => ⟨_, _, .plain hparam, h⟩
    · rintro ⟨runCmd, preRunCmd, hchooses, h⟩
      cases hchooses with
      | plain _ => exact h
      | usermatch hno _ _ _ _ => exact absurd hparam hno
      | nousermatch hno _ _ _ _ => exact absurd hparam hno
  · rw [if_neg hparam]
    have huser : s.userPair
        = (findUserParam s.config.userParam s.uriParsed.nvquery).bind
          (fun i => s.uriParsed.nvquery.pairs[i]?) := rfl
    cases hpair : s.userPair with
    | none =>
        -- no choice without the pair
        simp only [not_ok_fail, false_iff, not_exists, not_and]
        intro runCmd preRunCmd hchooses
        rw [huser] at hpair
        cases hchooses with
        | plain h => exact absurd h hparam
        | usermatch _ hfind hget _ _ => simp [hfind, hget] at hpair
        | nousermatch _ hfind hget _ _ => simp [hfind, hget] at hpair
    | some pair =>
        rw [huser] at hpair
        obtain ⟨i, hfind, hget⟩ := Option.bind_eq_some_iff.mp hpair
        -- the loop stops at one pair, so every choice is made for this one
        have hsame : ∀ {j : Nat} {pair' : NvPair},
            findUserParam s.config.userParam s.uriParsed.nvquery = some j →
            s.uriParsed.nvquery.pairs[j]? = some pair' → pair' = pair := by
          intro j pair' hj hpair'
          rw [hfind] at hj
          rw [← Option.some.inj hj, hget] at hpair'
          exact (Option.some.inj hpair').symm
        dsimp only
        cases hname : s.run.env (bytes "USERNAME") with
        | none =>
            simp only [reduceCtorEq, false_iff, not_exists, not_and]
            intro runCmd preRunCmd hchooses
            cases hchooses with
            | plain h => exact absurd h hparam
            | usermatch _ _ _ hn _ => rw [hname] at hn; cases hn
            | nousermatch _ _ _ hn _ => rw [hname] at hn; cases hn
        | some username =>
            dsimp only
            by_cases hmatch : strcmpLcase username pair.value = 0
            · rw [if_pos hmatch, chosen_ok_iff]
              constructor
              · exact fun h => ⟨_, _, .usermatch hparam hfind hget hname hmatch, h⟩
              · rintro ⟨runCmd, preRunCmd, hchooses, h⟩
                cases hchooses with
                | plain h' => exact absurd h' hparam
                | usermatch _ _ _ _ _ => exact h
                | nousermatch _ hj hget' hn hno =>
                    rw [hname] at hn
                    rw [← Option.some.inj hn, hsame hj hget'] at hno
                    exact absurd hmatch hno
            · rw [if_neg hmatch, chosen_ok_iff]
              constructor
              · exact fun h => ⟨_, _, .nousermatch hparam hfind hget hname hmatch, h⟩
              · rintro ⟨runCmd, preRunCmd, hchooses, h⟩
                cases hchooses with
                | plain h' => exact absurd h' hparam
                | usermatch _ hj hget' hn hyes =>
                    rw [hname] at hn
                    rw [← Option.some.inj hn, hsame hj hget'] at hyes
                    exact absurd hyes hmatch
                | nousermatch _ _ _ _ _ => exact h

theorem checkFile_ok_iff (s t : MainState) :
    (checkFile s).2 = .ok t ↔ MainStage.Passed .checkFile s t := by
  unfold checkFile
  dsimp only [MainStage.Passed]
  by_cases hempty : s.config.fileMustExist = []
  · simp [hempty, @eq_comm _ t]
  · rw [if_neg hempty]
    cases hfile : cmdunquote s.config.fileMustExist with
    | none => simp [hempty]
    | some file =>
        dsimp only
        by_cases hexists : s.run.fileExists file = true
        · rw [if_pos hexists]
          simp [hempty, hexists, @eq_comm _ t]
        · rw [if_neg hexists]
          simp [hempty, hexists, not_ok_failWith]

theorem replaceInFile_ok_iff (s t : MainState) :
    (replaceInFile s).2 = .ok t ↔ MainStage.Passed .replaceInFile s t := by
  unfold replaceInFile
  dsimp only [MainStage.Passed]
  by_cases hempty : s.config.replaceFile = []
  · simp [hempty, @eq_comm _ t]
  · rw [if_neg hempty]
    by_cases hregex : s.config.replaceRegex = []
    · simp [hempty, hregex, not_ok_fail]
    · rw [if_neg hregex]
      cases hfile : cmdunquote s.config.replaceFile with
      | none => simp [hempty]
      | some file =>
          dsimp only
          cases hreplace : replace s.run.io s.run.regexReplace s.run.regerrno s.run.fs file
              s.config.replaceRegex with
          | none => simp [hempty, hreplace]
          | some x =>
              obtain ⟨ret, fs⟩ := x
              dsimp only
              by_cases hret : ret = 0
              · rw [if_neg (not_not.mpr hret)]
                subst hret
                simp [hempty, hregex, hreplace, @eq_comm _ t]
              · rw [if_pos hret]
                simp [hempty, hreplace, hret, not_ok_fail]

theorem expandCommand_ok_iff (which : Expanded) (label : String) (str : CStr)
    (set : MainState → CStr → MainState) (s t : MainState) :
    (expandCommand which label str set s).2 = .ok t
      ↔ ∃ r, s.expand which s.uriParsed.nvquery str = some r ∧ r.ret = 0
        ∧ t = set { s with globals := r.globals } r.str := by
  unfold expandCommand
  cases hexpand : s.expand which s.uriParsed.nvquery str with
  | none => simp
  | some r =>
      dsimp only
      by_cases hret : r.ret = 0
      · rw [if_neg (not_not.mpr hret)]
        simp [hret, @eq_comm _ t]
      · rw [if_pos hret]
        simp [hret, not_ok_fail]

/-- **WHAT A STAGE HAS CHECKED** when it goes through, and what it leaves. -/
theorem exec_ok_iff (k : MainStage) (s t : MainState) : (k.exec s).2 = .ok t ↔ k.Passed s t := by
  cases k with
  | checkMode =>
      show (checkMode s).2 = .ok t ↔ _ = false ∧ t = s
      unfold checkMode
      by_cases hmode : modeSwitches.any (fun mode => strcmp s.run.uri mode = 0) = true
      · rw [if_pos hmode, hmode]
        simp
      · rw [if_neg hmode, Bool.eq_false_of_not_eq_true hmode]
        simp [@eq_comm _ t]
  | readConfig => exact readConfig_ok_iff s t
  | expandLogPath => exact expansion_ok_iff _ s t
  | expandPrefixHelp => exact expansion_ok_iff _ s t
  | expandPrefixCmd => exact expansion_ok_iff _ s t
  | openLog => exact openLog_ok_iff s t
  | startLog => exact ok_iff
  | parseUri => exact parseUri_ok_iff s t
  | readSection =>
      show (readSection s).2 = .ok t ↔ _ = 0 ∧ _
      unfold readSection
      by_cases hret : (lookupSection s.run.fresh s.uriParsed s.iniContent).1 = 0
      · simp [hret, @eq_comm _ t]
      · simp [hret, not_ok_fail]
  | checkSection =>
      show (checkSection s).2 = .ok t ↔ _ ≠ 0 ∧ t = s
      unfold checkSection
      by_cases hfound : s.config.found = 0
      · simp [hfound, not_ok_fail]
      · simp [hfound, @eq_comm _ t]
  | chooseCmd => exact chooseCmd_ok_iff s t
  | expandDefaultPath => exact expansion_ok_iff _ s t
  | expandReplaceFile => exact expansion_ok_iff _ s t
  | expandFileMustExist => exact expansion_ok_iff _ s t
  | checkFile => exact checkFile_ok_iff s t
  | replaceInFile => exact replaceInFile_ok_iff s t
  | transformQuery =>
      show (transformQuery s).2 = .ok t ↔ _ = 0 ∧ _
      unfold transformQuery MainState.transformed
      by_cases hret : s.transforms.ret = 0
      · simp [hret, @eq_comm _ t]
      · simp [hret, not_ok_fail]
  | expandCmd => exact expandCommand_ok_iff _ _ _ _ s t
  | expandPrecmd =>
      show (expandPrecmd s).2 = .ok t ↔ _
      unfold expandPrecmd
      dsimp only [MainStage.Passed]
      by_cases hempty : s.preRunCmd = []
      · simp [hempty, @eq_comm _ t]
      · rw [if_neg hempty, expandCommand_ok_iff]
        simp [hempty]
  | checkExe =>
      show (checkExe s).2 = .ok t ↔ _ = true ∧ t = s
      unfold checkExe
      by_cases hexe : s.run.isExecutable (getexe s.cmd) = true
      · simp [hexe, @eq_comm _ t]
      · simp [hexe, not_ok_fail]
  | cleanLogfile =>
      show (cleanLogfile s).2 = .ok t ↔ _ ≠ 0 ∧ t = s
      unfold cleanLogfile
      by_cases hlevel : s.loglevel = 0
      · simp [hlevel]
      · simp [hlevel, @eq_comm _ t]

end Protohand
