/-
  Protohand.Launch.Def
  ────────────────────
  **WHAT A RUN OF `main` DOES TO THE OUTSIDE**: the file it replaces, the
  commands it starts, and the error page it opens.

  `launchMain` runs the stages of `main` with the text of the log left out and
  these effects in its place; the stage `launch`, where the commands are
  started, stands in front of the log cleaning.  A stage that is not defined is
  marked (`Effect.undefined`), and nothing is said about the run behind it.

    • `acts_follow_main`   — the stages go through the states of `main`,
    • `launch_follows_main` — a run without a mark ends as `main` does.
-/
import Protohand.Launch.Defined

namespace Protohand

/-! ## §1. Effects. -/

/-- `__MINGW32__`, or not. -/
inductive Platform where
  | mingw | posix
  deriving DecidableEq, Repr

/-- The modes `main` gives to `runcmd`. -/
inductive WindowMode where
  | SW_SHOWNORMAL | SW_SHOWMINNOACTIVE | SW_HIDE
  deriving DecidableEq, Repr

inductive Effect where
  /-- `replace` leaves these files. -/
  | replaced (fs : FileSystem)
  /-- `system`. -/
  | system (line : CStr)
  /-- `CreateProcess` in `runcmd`. -/
  | runcmd (cmd : CStr) (mode : WindowMode)
  /-- `spawnve` in `display_error`. -/
  | spawn (exe : CStr) (args : List CStr)
  /-- Behind this anything may happen. -/
  | undefined

/-- The effect starts a command of the configuration. -/
def Effect.Starts : Effect → Prop
  | .system _ => True
  | .runcmd _ _ => True
  | .replaced _ => False
  | .spawn _ _ => False
  | .undefined => False

instance : DecidablePred Effect.Starts
  | .system _ | .runcmd _ _ => .isTrue trivial
  | .replaced _ | .spawn _ _ | .undefined => .isFalse id

/-- The effect is the mark of a step that is not defined. -/
def Effect.IsUndefined : Effect → Prop
  | .undefined => True
  | .replaced _ | .system _ | .runcmd _ _ | .spawn _ _ => False

instance : DecidablePred Effect.IsUndefined
  | .undefined => .isTrue trivial
  | .replaced _ | .system _ | .runcmd _ _ | .spawn _ _ => .isFalse id

/-- No step is marked. -/
def AllDefined (effects : List Effect) : Prop := ∀ e ∈ effects, ¬ e.IsUndefined

instance (effects : List Effect) : Decidable (AllDefined effects) :=
  inferInstanceAs (Decidable (∀ e ∈ effects, ¬ e.IsUndefined))

theorem AllDefined.not_mem {effects : List Effect} (h : AllDefined effects) :
    .undefined ∉ effects := fun hmem => h .undefined hmem trivial

/-- `mode`: hidden, where both are asked for. -/
def windowMode (config : Configuration) : WindowMode :=
  if strcmp config.startHidden (bytes "1") = 0 then .SW_HIDE
  else if strcmp config.startMinimized (bytes "1") = 0 then .SW_SHOWMINNOACTIVE
  else .SW_SHOWNORMAL

/-- `exe`, where there is no `__MINGW32__`, and the size of its array. -/
def shellLine (cmd : CStr) : CStr := bytes "/usr/bin/env sh -c '" ++ cmd ++ bytes "' &"
def exeSize : Nat := 4096

/-- What is started.  Without `__MINGW32__` there is no `precmd`. -/
def startEffects (p : Platform) (config : Configuration) (precmd cmd : CStr) : List Effect :=
  match p with
  | .mingw => (if precmd = [] then [] else [.system precmd]) ++ [.runcmd cmd (windowMode config)]
  | .posix => [.system (shellLine cmd)]

/-! ## §2. The stages. -/

/-- The state of `main`, and `precmd` once it is expanded. -/
structure LaunchState where
  main : MainState
  precmd : CStr

inductive LaunchStage where
  | of (k : MainStage)
  | launch
  deriving DecidableEq, Repr

/-- `precmd`, behind its expansion. -/
def MainState.precmdExpanded (s : MainState) : CStr :=
  if s.preRunCmd = [] then []
  else ((s.expand .precmd s.uriParsed.nvquery s.preRunCmd).map ExpandResult.str).getD []

def MainStage.effects (k : MainStage) (s : MainState) : List Effect :=
  if k = .replaceInFile then s.replaceCall.toList.map fun r => .replaced r.2 else []

/-- `precmd` behind a stage. -/
def LaunchState.precmdAfter (k : MainStage) (s : LaunchState) : CStr :=
  if k = .expandPrecmd then s.main.precmdExpanded else s.precmd

/-- What a stage of the launch does, and the state it leaves. -/
abbrev LaunchResult := List Effect × Except (Option ErrorCall) LaunchState

def LaunchStage.act (p : Platform) : LaunchStage → LaunchState → LaunchResult
  | .of k, s => (k.effects s.main, (k.exec s.main).2.map fun main => ⟨main, s.precmdAfter k⟩)
  | .launch, s => (startEffects p s.main.config s.precmd s.main.cmd, .ok s)

/-- A stage of the launch is defined: the command line has room in `exe`. -/
def LaunchStage.defined (p : Platform) : LaunchStage → LaunchState → Bool
  | .of k, s => k.defined s.main
  | .launch, s => decide (p = .mingw ∨ (shellLine s.main.cmd).length < exeSize)

/-- A stage, if it is defined. -/
def LaunchStage.exec (p : Platform) : LaunchStage → LaunchState → LaunchResult :=
  Stages.guard (LaunchStage.act p) (LaunchStage.defined p) .undefined none

/-- The stages up to `replace`, and those up to the launch. -/
def checkingStages : List MainStage :=
  [.checkMode, .readConfig, .expandLogPath, .expandPrefixHelp, .expandPrefixCmd, .openLog,
    .startLog, .parseUri, .readSection, .checkSection, .chooseCmd, .expandDefaultPath,
    .expandReplaceFile, .expandFileMustExist, .checkFile]

def commandStages : List MainStage := [.transformQuery, .expandCmd, .expandPrecmd, .checkExe]

def launchStages : List LaunchStage :=
  checkingStages.map .of ++ [.of .replaceInFile] ++ commandStages.map .of
    ++ [.launch, .of .cleanLogfile]

/-- The stages of `main`, up to a launch. -/
def stagesRun (p : Platform) (r : MainRun) : LaunchResult :=
  Stages.run (LaunchStage.exec p) launchStages ⟨r.init, []⟩

/-- The same without the checks. -/
def stagesAct (p : Platform) (r : MainRun) : LaunchResult :=
  Stages.run (LaunchStage.act p) launchStages ⟨r.init, []⟩

/-! ## §3. The error page. -/

section Page

variable (curlEscape : CStr → CStr)

/-- What `display_error` starts.  It puts no comma behind `/C`. -/
def errorPage (p : Platform) (call : ErrorCall) : List Effect :=
  match p, call.getenv (bytes "windir") with
  | .mingw, some windir =>
      if (call.quotedParams curlEscape).length > CMD_MAX - 15 then []
      else [.spawn (windir ++ bytes "\\System32\\cmd.exe")
        [bytes "/C" ++ bytes "hh.exe", bytes "-800", call.quotedParams curlEscape]]
  | _, _ => []

instance : DecidablePred Formatted.Fits
  | .logbuffer _ => inferInstanceAs (Decidable (_ < _))
  | .params _ => inferInstanceAs (Decidable (_ < _))

/-- A call of `display_error` is defined: what it formats fits, and where it
starts a page there is a `windir`, with room for it in `exe`. -/
def ErrorCall.defined (p : Platform) (call : ErrorCall) : Bool :=
  (displayError curlEscape call).1.all (fun text => decide text.Fits)
    && (decide (p = .posix ∨ (call.quotedParams curlEscape).length > CMD_MAX - 15)
      || (call.getenv (bytes "windir")).any fun windir =>
          decide ((windir ++ bytes "\\System32\\cmd.exe").length < exeSize))

/-- What a call of `display_error` does. -/
def ErrorCall.effects (p : Platform) (call : ErrorCall) : List Effect :=
  if call.defined curlEscape p = true then errorPage curlEscape p call else [.undefined]

/-- The page of a run that ends with a call of `display_error`. -/
def pageEffects (p : Platform) : Except (Option ErrorCall) LaunchState → List Effect
  | .error (some call) => call.effects curlEscape p
  | .error none => []
  | .ok _ => []

/-- `main`, as the outside sees it. -/
def launchMain (p : Platform) (r : MainRun) : LaunchResult :=
  let x := stagesRun p r
  (x.1 ++ pageEffects curlEscape p x.2, x.2)

end Page

/-! ## §4. The launch follows `main`. -/

/-- The stages in front of a launch. -/
def frontStages : List MainStage := checkingStages ++ [.replaceInFile] ++ commandStages

theorem mainStages_split : mainStages = frontStages ++ [.cleanLogfile] := rfl

theorem launchStages_split :
    launchStages = frontStages.map .of ++ [.launch, .of .cleanLogfile] := rfl

/-- One stage, in `main` and in the launch. -/
theorem of_follows (p : Platform) (k : MainStage) (s : LaunchState) (t : MainState)
    (hs : s.main = t) :
    Stages.Agree (fun _ _ => True) (fun s t => s.main = t) Eq
      ((LaunchStage.of k).act p s) (k.exec t) := by
  subst hs
  show Stages.Agree _ _ _ (k.effects s.main, (k.exec s.main).2.map _) (k.exec s.main)
  cases hexec : k.exec s.main with
  | mk texts outcome =>
      cases outcome with
      | error e => exact .error trivial rfl
      | ok t => exact .ok trivial rfl

/-- **Stages of `main`** in a row. -/
theorem map_of_follows (p : Platform) (ks : List MainStage) (s : LaunchState) :
    Stages.Agree (fun _ _ => True) (fun s t => s.main = t) Eq
      (Stages.run (LaunchStage.act p) (ks.map .of) s) (Stages.run MainStage.exec ks s.main) := by
  have hmap : Stages.run (LaunchStage.act p) (ks.map .of) s
      = Stages.run (fun k s => (LaunchStage.of k).act p s) ks s := by
    induction ks generalizing s with
    | nil => rfl
    | cons k ks ih =>
        rw [List.map_cons, Stages.run, Stages.run]
        cases ((LaunchStage.of k).act p s).2 with
        | error e => rfl
        | ok t =>
            dsimp only
            rw [ih t]
  rw [hmap]
  exact Stages.run_lockstep trivial (fun _ _ _ _ _ _ => trivial)
    (fun k _ s t hs => of_follows p k s t hs) rfl

/-- What agrees in its states ends alike. -/
theorem end_of_follows {x : LaunchResult} {y : StageResult}
    (h : Stages.Agree (fun _ _ => True) (fun s t => s.main = t) Eq x y) :
    x.2.map LaunchState.main = y.2 := by
  cases h with
  | ok _ hs => exact congrArg Except.ok hs
  | error _ he => exact congrArg Except.error he

/-- **THE STAGES FOLLOW `main`**: both come to the same state or the same exit. -/
theorem acts_follow_main (p : Platform) (r : MainRun) :
    (stagesAct p r).2.map LaunchState.main = (main r).2 := by
  have hfront := map_of_follows p frontStages ⟨r.init, []⟩
  unfold stagesAct main
  rw [launchStages_split, mainStages_split]
  cases hx : (Stages.run (LaunchStage.act p) (frontStages.map .of) ⟨r.init, []⟩).2 with
  | error e =>
      obtain ⟨e', he', rfl⟩ := hfront.error_left hx
      rw [Stages.run_append_error _ hx, Stages.run_append_error _ he']
      rfl
  | ok s =>
      obtain ⟨t, ht, rfl⟩ := hfront.ok_left hx
      rw [Stages.run_append_ok _ hx, Stages.run_append_ok _ ht]
      -- the launch leaves the state as it is
      have hlast := end_of_follows (map_of_follows p [.cleanLogfile] s)
      exact hlast

/-- **A run** is the run without the checks, or that up to the first stage that
is not defined. -/
theorem stagesRun_cases (p : Platform) (r : MainRun) :
    (Stages.Checked (LaunchStage.act p) (LaunchStage.defined p) launchStages ⟨r.init, []⟩
        ∧ stagesRun p r = stagesAct p r)
      ∨ ∃ ks k ks' t, launchStages = ks ++ k :: ks'
        ∧ (Stages.run (LaunchStage.act p) ks ⟨r.init, []⟩).2 = .ok t ∧ k.defined p t = false
        ∧ stagesRun p r = ((Stages.run (LaunchStage.act p) ks ⟨r.init, []⟩).1 ++ [.undefined],
            .error none) :=
  Stages.run_guard_cases launchStages (⟨r.init, []⟩ : LaunchState)

/-- **THE LAUNCH FOLLOWS `main`**, unless a stage is not defined. -/
theorem launch_follows_main (p : Platform) (r : MainRun) :
    (stagesRun p r).2.map LaunchState.main = (main r).2
      ∨ (.undefined ∈ (stagesRun p r).1 ∧ (stagesRun p r).2 = .error none) := by
  rcases stagesRun_cases p r with ⟨-, hsame⟩ | ⟨ks, k, ks', t, -, -, -, hrun⟩
  · rw [hsame]
    exact Or.inl (acts_follow_main p r)
  · rw [hrun]
    exact Or.inr ⟨List.mem_append_right _ List.mem_cons_self, rfl⟩

end Protohand
