/-
  Protohand.Launch.Programs
  ─────────────────────────
  **WHAT THE COMMANDS OF LINKS BEGIN WITH** is in the configuration.

  A link chooses the section, the user and the values of the placeholders.  Where
  every command of the configuration begins with a program in which there is no
  placeholder but for the environment, every command that is started begins with
  one of them: it is the word that `getexe` reads.  Nothing is said about what
  stands behind that word, where a value may hold more commands for a shell.

    • `entered_cmd`, `entered_precmd` — the calls of `expand_vars` for a launch,
    • `program_of_becomes` — a command keeps its program when it is expanded,
    • `field_stands`       — a command of a launch stands in the configuration,
    • `programs_confined`  — what is started.
-/
import Protohand.Launch.Reading
import Protohand.Messages.Fit

namespace Protohand

/-! ## §1. The programs of a configuration. -/

/-- The directives that hold a command. -/
def commandDirectives : List Directive :=
  [.cmd, .cmdUsermatch, .cmdNousermatch, .precmd, .precmdUsermatch, .precmdNousermatch]

/-- The command begins with this program, whatever the query is. -/
def NamesProgram (env : Env) (command program : CStr) : Prop :=
  ∃ exe segs, command = template segs ∧ SegsOk none segs ∧ CmdTemplate env exe segs
    ∧ EnvOnly exe ∧ ascii '"' ∉ envText env exe ∧ program = envText env exe

/-- Every command of the configuration begins with one of these programs. -/
def Confined (env : Env) (ds : List Standing) (programs : CStr → Prop) : Prop :=
  ∀ s ∈ ds, (∃ x ∈ commandDirectives, strcmpLcase s.name x.name = 0) → s.value ≠ [] →
    ∃ program, NamesProgram env s.value program ∧ programs program

/-- The effect runs the command. -/
inductive Effect.Runs : Platform → CStr → Effect → Prop
  | runcmd (cmd : CStr) (mode : WindowMode) : Runs .mingw cmd (.runcmd cmd mode)
  | precmd (cmd : CStr) : Runs .mingw cmd (.system cmd)
  | shell (cmd : CStr) : Runs .posix cmd (.system (shellLine cmd))

/-! ## §2. The expansions of a launch. -/

section Entered

variable {p : Platform} {r : MainRun} {d : Launch}

/-- The state that the command is expanded in. -/
structure AtExpansion (r : MainRun) (d : Launch) (s : MainState) : Prop where
  run : s.run = r
  query : s.uriParsed.nvquery = d.query
  runCmd : s.runCmd = d.runCmd
  preRunCmd : s.preRunCmd = d.preRunCmd

/-- The stages in front of the expansion of the command. -/
def preparingStages : List LaunchStage :=
  checkingStages.map .of ++ [.of .replaceInFile, .of .transformQuery]

theorem launchStages_cmd : launchStages = preparingStages
    ++ .of .expandCmd :: .of .expandPrecmd :: [.of .checkExe, .launch, .of .cleanLogfile] := rfl

/-- **A run that is cleared** comes to its command. -/
theorem preparing_of_cleared (h : Cleared r d) : ∃ s,
    (Stages.run (LaunchStage.act p) preparingStages ⟨r.init, []⟩).2 = .ok ⟨s, []⟩
      ∧ AtExpansion r d s := by
  obtain ⟨text, htext⟩ := h.replaced.text
  obtain ⟨⟨s, precmd⟩, hrun, hat, rfl⟩ := checking_of_selected (p := p) h.toSelected htext
  obtain ⟨u, hpassed, -, hcommand⟩ := replace_of hat h.replaced
  obtain ⟨htransforms, hquery⟩ := hcommand.transformed
  have hpadded : u.transforms.ret = 0 := by
    rw [htransforms]
    exact h.padded
  refine ⟨{ u with uriParsed := { u.uriParsed with nvquery := u.transformed } }, ?_,
    ⟨hcommand.run, hquery.trans h.query.symm, hcommand.runCmd, hcommand.preRunCmd⟩⟩
  unfold preparingStages
  rw [Stages.run_append_ok _ hrun]
  exact run_of_ok_iff.mpr ⟨u, hpassed, run_of_ok_iff.mpr ⟨_, ⟨hpadded, rfl⟩, rfl⟩⟩

theorem entered_cmd (h : Cleared r d) : ∃ s, AtExpansion r d s
    ∧ Stages.Entered (LaunchStage.act p) launchStages ⟨r.init, []⟩ (.of .expandCmd) ⟨s, []⟩ := by
  obtain ⟨s, hrun, hat⟩ := preparing_of_cleared (p := p) h
  refine ⟨s, hat, ?_⟩
  rw [launchStages_cmd]
  exact Stages.entered_of_run hrun _ _

theorem entered_precmd (h : Cleared r d) : ∃ s, AtExpansion r d s
    ∧ Stages.Entered (LaunchStage.act p) launchStages ⟨r.init, []⟩ (.of .expandPrecmd) ⟨s, []⟩ := by
  obtain ⟨s, hrun, hat⟩ := preparing_of_cleared (p := p) h
  obtain ⟨x, hx, hret, -⟩ := expand_of hat.run h.cmd
  rw [← hat.query, ← hat.runCmd] at hx
  refine ⟨{ s with globals := x.globals, cmd := x.str }, ⟨hat.run, hat.query, hat.runCmd,
    hat.preRunCmd⟩, ?_⟩
  have hcmd : (Stages.run (LaunchStage.act p) (preparingStages ++ [.of .expandCmd])
      ⟨r.init, []⟩).2 = .ok ⟨{ s with globals := x.globals, cmd := x.str }, []⟩ := by
    rw [Stages.run_append_ok _ hrun]
    exact run_of_ok_iff.mpr ⟨_, ⟨x, hx, hret, rfl⟩, rfl⟩
  have hentered := Stages.entered_of_run hcmd (.of .expandPrecmd)
    [.of .checkExe, .launch, .of .cleanLogfile]
  rwa [List.append_assoc] at hentered

/-- **The buffers of the commands** are kept, where the run is defined. -/
theorem commands_kept (h : Cleared r d)
    (hchecked : Stages.Checked (LaunchStage.act p) (LaunchStage.defined p) launchStages
      ⟨r.init, []⟩) :
    KeepsBuffer (r.expandMem .cmd) r.env d.query d.runCmd
      ∧ (d.preRunCmd ≠ [] → KeepsBuffer (r.expandMem .precmd) r.env d.query d.preRunCmd) := by
  constructor
  · obtain ⟨s, hat, hentered⟩ := entered_cmd (p := p) h
    have hdefined := hchecked _ _ hentered
    obtain ⟨hsound, -⟩ := (Bool.and_eq_true _ _).mp hdefined
    rw [← hat.run, ← hat.query, ← hat.runCmd]
    exact keepsBuffer_of_defined hsound
  · intro hne
    obtain ⟨s, hat, hentered⟩ := entered_precmd (p := p) h
    have hdefined := hchecked _ _ hentered
    obtain ⟨hsound, -⟩ := (Bool.and_eq_true _ _).mp hdefined
    rw [← hat.run, ← hat.query]
    rw [← hat.preRunCmd] at hne ⊢
    have hexpands : (decide (s.preRunCmd = [])
        || s.expandDefined .precmd s.uriParsed.nvquery s.preRunCmd) = true := hsound
    rw [decide_eq_false hne, Bool.false_or] at hexpands
    exact keepsBuffer_of_defined hexpands

end Entered

/-! ## §3. One command. -/

/-- **An expanded command** begins with its program. -/
theorem program_of_becomes {mem : Nat → RoundMem} {env : Env} {query : NvList}
    {command program out : CStr} (h : NamesProgram env command program)
    (hkeeps : KeepsBuffer mem env query command) (hout : Becomes mem env query command out) :
    getexe out = program := by
  obtain ⟨exe, segs, rfl, hok, htemplate, henv, hquote, rfl⟩ := h
  obtain ⟨x, hrun, hret, rfl⟩ := hout
  rw [expandVars_template hok hkeeps hrun hret]
  exact getexe_of_template htemplate henv hquote mem query

/-- **A text of the section** stands in the configuration. -/
theorem field_stands {r : MainRun} {d : Launch} (h : Selected r d) {x : Directive}
    (hx : ¬ x.IsList) {value : CStr} (hget : x.get d.config = .text value) (hne : value ≠ []) :
    ∃ s ∈ iniDirectives d.content, strcmpLcase s.name x.name = 0 ∧ s.value = value := by
  have hread := read_text r.fresh d.parsed d.content hx
  rw [h.selected] at hread
  have hlast := hget.symm.trans hread
  injection hlast with hlast
  cases hvalue : lastRead (iniDirectives d.content) (sectionName d.parsed) x with
  | none =>
      rw [hvalue] at hlast
      exact absurd hlast hne
  | some v =>
      rw [hvalue] at hlast
      obtain rfl : value = v := hlast
      unfold lastRead at hvalue
      obtain ⟨s, hs, hsv⟩ := List.mem_map.mp (List.mem_of_getLast? hvalue)
      obtain ⟨hmem, hreadAs⟩ := List.mem_filter.mp hs
      exact ⟨s, hmem, (of_decide_eq_true hreadAs).2, hsv⟩

section Confined

variable {r : MainRun} {d : Launch} {programs : CStr → Prop}

/-- Such a command begins with one of the programs. -/
theorem field_named (h : Selected r d) (hconf : Confined r.env (iniDirectives d.content) programs)
    {x : Directive} (hx : x ∈ commandDirectives) {value : CStr}
    (hget : x.get d.config = .text value) (hne : value ≠ []) :
    ∃ program, NamesProgram r.env value program ∧ programs program := by
  have hlist : ¬ x.IsList := by
    revert hx
    cases x <;> decide
  obtain ⟨s, hs, hname, rfl⟩ := field_stands h hlist hget hne
  exact hconf s hs ⟨x, hx, hname⟩ hne

/-- **The commands that are chosen** begin with some of the programs. -/
theorem chosen_named (h : Selected r d)
    (hconf : Confined r.env (iniDirectives d.content) programs) :
    (∃ program, NamesProgram r.env d.runCmd program ∧ programs program)
      ∧ (d.preRunCmd ≠ [] →
        ∃ program, NamesProgram r.env d.preRunCmd program ∧ programs program) := by
  have hrun := h.command
  have hchosen := h.chosen
  generalize d.runCmd = runCmd at hrun hchosen
  generalize d.preRunCmd = preRunCmd at hchosen
  cases hchosen with
  | plain _ =>
      exact ⟨field_named (x := .cmd) h hconf (by decide) rfl hrun,
        fun hpre => field_named (x := .precmd) h hconf (by decide) rfl hpre⟩
  | usermatch _ _ _ _ _ =>
      exact ⟨field_named (x := .cmdUsermatch) h hconf (by decide) rfl hrun,
        fun hpre => field_named (x := .precmdUsermatch) h hconf (by decide) rfl hpre⟩
  | nousermatch _ _ _ _ _ =>
      exact ⟨field_named (x := .cmdNousermatch) h hconf (by decide) rfl hrun,
        fun hpre => field_named (x := .precmdNousermatch) h hconf (by decide) rfl hpre⟩

/-! ## §4. The launch. -/

/-- What is started by a run that is cleared. -/
theorem startEffects_named (h : Cleared r d)
    (hconf : Confined r.env (iniDirectives d.content) programs) {p : Platform}
    (hchecked : Stages.Checked (LaunchStage.act p) (LaunchStage.defined p) launchStages
      ⟨r.init, []⟩) :
    ∀ e ∈ startEffects p d.config d.precmd d.cmd,
      ∃ cmd, Effect.Runs p cmd e ∧ programs (getexe cmd) := by
  obtain ⟨⟨program, hprogram, hallowed⟩, hpre⟩ := chosen_named h.toSelected hconf
  obtain ⟨hcmdKept, hpreKept⟩ := commands_kept h hchecked
  have hcmd : programs (getexe d.cmd) := by
    rw [program_of_becomes hprogram hcmdKept h.cmd]
    exact hallowed
  intro e he
  cases p with
  | posix =>
      rw [List.mem_singleton.mp he]
      exact ⟨d.cmd, .shell d.cmd, hcmd⟩
  | mingw =>
      rcases List.mem_append.mp he with he | he
      · split at he
        · cases he
        · next hne =>
            have hexpanded := h.precmd
            -- without a `precmd` of the section there is none to start
            have hasked : d.preRunCmd ≠ [] := by
              intro hempty
              rw [if_pos hempty] at hexpanded
              exact hne hexpanded
            rw [if_neg hasked] at hexpanded
            obtain ⟨program', hprogram', hallowed'⟩ := hpre hasked
            rw [List.mem_singleton.mp he]
            refine ⟨d.precmd, .precmd d.precmd, ?_⟩
            rw [program_of_becomes hprogram' (hpreKept hasked) hexpanded]
            exact hallowed'
      · rw [List.mem_singleton.mp he]
        exact ⟨d.cmd, .runcmd d.cmd _, hcmd⟩

end Confined

/-- A link whose parameter closes the quotes. -/
def quotedRun : MainRun := { plainRun (bytes "a:h?n=%22+y.exe") with
  iniContent := some (bytes "[h]\ncmd=\"C:/x.exe\" $\x7bn\x7d\n")
  isExecutable := fun _ => true }

end Protohand
