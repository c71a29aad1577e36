/-
  Protohand.Config
  ────────────────
  **THE TWO CONFIGURATIONS OF ph.c**, and the callbacks that fill them in.

  `ini_callback` and `global_callback` are the same chain of `MATCH`es over
  two tables of directives: `Branches.callback` is that chain, and a table
  that is `Lawful` stores each directive in a field of its own.  What such a
  chain does to a configuration over a whole run is said once (`run_last_wins`,
  `run_found`, `callback_cases`), and the two callbacks are instances: the
  global one always takes effect, the other one while its lists fit into the
  block of `str_array_split_p` (`callbacks_takeEffect_iff`).
-/
import Protohand.StringLib
import Protohand.Lib.Cell
import Mathlib.Data.List.Nodup

namespace Protohand

open Text

/-! ## §1. The chain of `MATCH`es. -/

/-- What the ini parser delivers. -/
structure IniEvent where
  sect : CStr
  name : CStr
  value : CStr
  deriving DecidableEq, Repr

/-- One call of a callback: an event, and what the memory for a `str_array`
holds: when `malloc` returns it, and behind stores that have left its block. -/
structure IniCall extends IniEvent where
  fresh : StrArray
  deriving DecidableEq, Repr

/-- A callback: the section a configuration asks for, and the branches of the
chain in the order of the source. -/
structure Branches (σ D : Type) where
  sect : σ → CStr
  chain : List D
  name : D → CStr
  branch : D → σ → IniCall → σ

section Chain

variable {σ D : Type} (b : Branches σ D)

/-- The first branch whose `MATCH` holds. -/
def Branches.matched (call : IniCall) : Option D :=
  b.chain.find? (fun d => strcmpLcase call.name (b.name d) = 0)

/-- One call: its result, and the configuration afterwards. -/
def Branches.callback (config : σ) (call : IniCall) : Int × σ :=
  if strcmpLcase (b.sect config) call.sect = 0 then
    match b.matched call with
    | some d => (1, b.branch d config call)
    -- unknown directive
    | none => (0, config)
  else (1, config)

/-- The configuration after all calls of a callback. -/
def foldCalls (callback : σ → IniCall → Int × σ) (init : σ) (calls : List IniCall) : σ :=
  calls.foldl (fun config call => (callback config call).2) init

/-- The same for the chain. -/
def Branches.run (init : σ) (calls : List IniCall) : σ := foldCalls b.callback init calls

theorem run_concat (init : σ) (calls : List IniCall) (call : IniCall) :
    b.run init (calls ++ [call]) = (b.callback (b.run init calls) call).2 := by
  unfold Branches.run foldCalls
  rw [List.foldl_append]
  rfl

/-- Names that are all different name one directive each. -/
theorem directive_eq_of_nodup (hall : ∀ d, d ∈ b.chain)
    (hnames : (b.chain.map (fun d => (b.name d).map tolower)).Nodup) (d d' : D)
    (h : (b.name d).map tolower = (b.name d').map tolower) : d = d' :=
  List.inj_on_of_nodup_map hnames (hall d) (hall d') h

end Chain

/-! ## §2. `configuration`. -/

/-- `struct configuration`. -/
structure Configuration where
  sect : CStr
  defaultPath : CStr
  allowedParams : CStr
  pathParams : CStr
  replaceFile : CStr
  replaceRegex : CStr
  cmd : CStr
  found : Int
  ltrimzero : Option StrArray
  lpadzero : Option StrArray
  cmdNousermatch : CStr
  cmdUsermatch : CStr
  userParam : CStr
  precmd : CStr
  precmdNousermatch : CStr
  precmdUsermatch : CStr
  startHidden : CStr
  startMinimized : CStr
  fileMustExist : CStr
  fileMustExistError : CStr
  deriving DecidableEq, Repr

/-- `DEFAULT_CONFIG`. -/
def defaultConfig : Configuration :=
  ⟨[], [], [], [], [], [], [], 0, none, none, [], [], [], [], [], [], [], [], [], []⟩

/-- The directives `ini_callback` knows, in the order of its branches. -/
inductive Directive where
  | defaultPath | allowedParams | pathParams | cmd
  | cmdNousermatch | cmdUsermatch | userParam
  | replaceFile | replaceRegex
  | ltrimzero | lpadzero
  | precmd | precmdUsermatch | precmdNousermatch
  | startHidden | startMinimized
  | fileMustExist | fileMustExistError
  deriving DecidableEq, Repr

/-- The order in which `ini_callback` tries them. -/
def Directive.all : List Directive :=
  [defaultPath, allowedParams, pathParams, cmd, cmdNousermatch, cmdUsermatch, userParam,
    replaceFile, replaceRegex, ltrimzero, lpadzero, precmd, precmdUsermatch, precmdNousermatch,
    startHidden, startMinimized, fileMustExist, fileMustExistError]

/-- The name in its `MATCH`. -/
def Directive.name : Directive → CStr
  | defaultPath => bytes "default_path"
  | allowedParams => bytes "allowed_params"
  | pathParams => bytes "path_params"
  | cmd => bytes "cmd"
  | cmdNousermatch => bytes "cmd_nousermatch"
  | cmdUsermatch => bytes "cmd_usermatch"
  | userParam => bytes "user_param"
  | replaceFile => bytes "replace_file"
  | replaceRegex => bytes "replace_regex"
  | ltrimzero => bytes "ltrimzero"
  | lpadzero => bytes "lpadzero"
  | precmd => bytes "precmd"
  | precmdUsermatch => bytes "precmd_usermatch"
  | precmdNousermatch => bytes "precmd_nousermatch"
  | startHidden => bytes "start_hidden"
  | startMinimized => bytes "start_minimized"
  | fileMustExist => bytes "file_must_exist"
  | fileMustExistError => bytes "file_must_exist_error"

/-- The list that a branch stores.  Where its items do not fit into the block, they
have been written over what is behind it. -/
def IniCall.list (call : IniCall) : StrArray :=
  (strArraySplitP call.fresh call.value (bytes ",")).getD call.fresh

/-- Its branch. -/
def Directive.branch (d : Directive) (config : Configuration) (call : IniCall) : Configuration :=
  let value := call.value
  match d with
  | defaultPath => { config with defaultPath := value, found := 1 }
  | allowedParams => { config with allowedParams := value, found := 1 }
  | pathParams => { config with pathParams := value, found := 1 }
  | cmd => { config with cmd := value, found := 1 }
  | cmdNousermatch => { config with cmdNousermatch := value, found := 1 }
  | cmdUsermatch => { config with cmdUsermatch := value, found := 1 }
  | userParam => { config with userParam := value, found := 1 }
  | replaceFile => { config with replaceFile := value, found := 1 }
  | replaceRegex => { config with replaceRegex := value, found := 1 }
  | ltrimzero => { config with ltrimzero := some call.list, found := 1 }
  | lpadzero => { config with lpadzero := some call.list, found := 1 }
  | precmd => { config with precmd := value, found := 1 }
  | precmdUsermatch => { config with precmdUsermatch := value, found := 1 }
  | precmdNousermatch => { config with precmdNousermatch := value, found := 1 }
  | startHidden => { config with startHidden := value, found := 1 }
  | startMinimized => { config with startMinimized := value, found := 1 }
  | fileMustExist => { config with fileMustExist := value, found := 1 }
  | fileMustExistError => { config with fileMustExistError := value, found := 1 }

/-- The chain of `ini_callback`. -/
def iniBranches : Branches Configuration Directive :=
  ⟨Configuration.sect, Directive.all, Directive.name, Directive.branch⟩

/-- `ini_callback`. -/
def iniCallback (config : Configuration) (call : IniCall) : Int × Configuration :=
  iniBranches.callback config call

/-! ## §3. `global_configuration`. -/

/-- `struct global_configuration`. -/
structure GlobalConfiguration where
  sect : CStr
  logPath : CStr
  logLevel : CStr
  prefixHelp : CStr
  prefixCmd : CStr
  maxLogSizeBytes : CStr
  found : Int
  deriving DecidableEq, Repr

/-- `DEFAULT_GCONFIG`. -/
def defaultGconfig : GlobalConfiguration :=
  ⟨bytes "_global", [], bytes "0", bytes "$\x7benv.windir\x7d\\cmd.exe /c hh.exe -800",
    bytes "$\x7benv.windir\x7d\\cmd.exe /c", bytes "10240000", 0⟩

/-- The directives `global_callback` knows. -/
inductive GlobalDirective where
  | logPath | logLevel | prefixHelp | prefixCmd | maxLogSizeBytes
  deriving DecidableEq, Repr

/-- The order in which `global_callback` tries them. -/
def GlobalDirective.all : List GlobalDirective :=
  [logPath, logLevel, prefixHelp, prefixCmd, maxLogSizeBytes]

/-- The name in its `MATCH`. -/
def GlobalDirective.name : GlobalDirective → CStr
  | logPath => bytes "log_path"
  | logLevel => bytes "log_level"
  | prefixHelp => bytes "prefix_help"
  | prefixCmd => bytes "prefix_cmd"
  | maxLogSizeBytes => bytes "max_log_size_bytes"

/-- Its branch. -/
def GlobalDirective.branch (d : GlobalDirective) (config : GlobalConfiguration) (call : IniCall) :
    GlobalConfiguration :=
  let value := call.value
  match d with
  | logPath => { config with logPath := value, found := 1 }
  | logLevel => { config with logLevel := value, found := 1 }
  | prefixHelp => { config with prefixHelp := value, found := 1 }
  | prefixCmd => { config with prefixCmd := value, found := 1 }
  | maxLogSizeBytes => { config with maxLogSizeBytes := value, found := 1 }

/-- The chain of `global_callback`. -/
def globalBranches : Branches GlobalConfiguration GlobalDirective :=
  ⟨GlobalConfiguration.sect, GlobalDirective.all, GlobalDirective.name, GlobalDirective.branch⟩

/-- `global_callback`. -/
def globalCallback (config : GlobalConfiguration) (call : IniCall) : Int × GlobalConfiguration :=
  globalBranches.callback config call

/-! ## §4. What a chain does to a configuration. -/

section Law

variable {σ D V : Type} [DecidableEq D] {b : Branches σ D}

/-- A table whose directives have names and fields of their own. -/
structure Branches.Lawful (b : Branches σ D) (get : D → σ → V) (stored : D → IniCall → V)
    (found : σ → Int) : Prop where
  complete : ∀ d, d ∈ b.chain
  distinct : ∀ d d', (b.name d).map tolower = (b.name d').map tolower → d = d'
  keeps_sect : ∀ d config call, b.sect (b.branch d config call) = b.sect config
  stores : ∀ d d' config call,
    get d (b.branch d' config call) = if d = d' then stored d' call else get d config
  finds : ∀ d config call, found (b.branch d config call) = 1

/-- The call is for the section `target`. -/
def IniCall.For (call : IniCall) (target : CStr) : Prop := strcmpLcase target call.sect = 0

instance (call : IniCall) (target : CStr) : Decidable (call.For target) :=
  inferInstanceAs (Decidable (_ = _))

/-- The call carries the directive `d`. -/
def Branches.Carries (b : Branches σ D) (d : D) (call : IniCall) : Prop :=
  strcmpLcase call.name (b.name d) = 0

instance (d : D) (call : IniCall) : Decidable (b.Carries d call) :=
  inferInstanceAs (Decidable (_ = _))

/-- The call carries a directive of the table. -/
def Branches.Known (b : Branches σ D) (call : IniCall) : Prop := ∃ d ∈ b.chain, b.Carries d call

instance (call : IniCall) : Decidable (b.Known call) :=
  inferInstanceAs (Decidable (∃ d ∈ b.chain, b.Carries d call))

variable {get : D → σ → V} {stored : D → IniCall → V} {found : σ → Int}

/-- At most one directive is carried, and the chain finds it. -/
theorem matched_iff (h : b.Lawful get stored found) (call : IniCall) (d : D) :
    b.matched call = some d ↔ b.Carries d call := by
  unfold Branches.matched Branches.Carries
  constructor
  · intro hfind
    simpa using List.find?_some hfind
  · intro hd
    cases hfind : b.chain.find? (fun d => strcmpLcase call.name (b.name d) = 0) with
    | none =>
        have hno := List.find?_eq_none.mp hfind d (h.complete d)
        exact absurd hd (by simpa using hno)
    | some d' =>
        -- the one that is found carries the same name, and names are distinct
        have hd' : strcmpLcase call.name (b.name d') = 0 := by simpa using List.find?_some hfind
        rw [strcmpLcase_eq_zero] at hd hd'
        rw [h.distinct d' d (hd'.symm.trans hd)]

/-- **What one call can do.** -/
theorem callback_cases (h : b.Lawful get stored found) (config : σ) (call : IniCall) :
    (¬ call.For (b.sect config) ∧ b.callback config call = (1, config))
      ∨ (call.For (b.sect config) ∧ ¬ b.Known call ∧ b.callback config call = (0, config))
      ∨ ∃ d, call.For (b.sect config) ∧ b.Carries d call
          ∧ b.callback config call = (1, b.branch d config call) := by
  by_cases hfor : call.For (b.sect config)
  · have hrun : b.callback config call = match b.matched call with
        | some d => (1, b.branch d config call)
        | none => (0, config) := if_pos hfor
    cases hmatch : b.matched call with
    | none =>
        refine Or.inr (Or.inl ⟨hfor, ?_, by rw [hrun, hmatch]⟩)
        rintro ⟨d, _, hd⟩
        rw [(matched_iff h call d).mpr hd] at hmatch
        cases hmatch
    | some d =>
        exact Or.inr (Or.inr ⟨d, hfor, (matched_iff h call d).mp hmatch, by rw [hrun, hmatch]⟩)
  · exact Or.inl ⟨hfor, if_neg hfor⟩

/-- What a call writes into the field of `d`, for a configuration of `target`. -/
def Branches.written (b : Branches σ D) (stored : D → IniCall → V) (target : CStr) (d : D)
    (call : IniCall) : Option V :=
  if call.For target ∧ b.Carries d call then some (stored d call) else none

/-- One call keeps the section. -/
theorem callback_sect (h : b.Lawful get stored found) (config : σ) (call : IniCall) :
    b.sect (b.callback config call).2 = b.sect config := by
  rcases callback_cases h config call with ⟨_, hrun⟩ | ⟨_, _, hrun⟩ | ⟨d, _, _, hrun⟩
  · rw [hrun]
  · rw [hrun]
  · rw [hrun]
    exact h.keeps_sect d config call

/-- One call writes what it carries. -/
theorem callback_get (h : b.Lawful get stored found) (config : σ) (call : IniCall) (d : D) :
    get d (b.callback config call).2
      = (b.written stored (b.sect config) d call).getD (get d config) := by
  unfold Branches.written
  rcases callback_cases h config call with ⟨hno, hrun⟩ | ⟨_, hunknown, hrun⟩ | ⟨d', hfor, hd', hrun⟩
  · rw [hrun, if_neg (fun hn => hno hn.1)]
    rfl
  · rw [hrun, if_neg (fun hn => hunknown ⟨d, h.complete d, hn.2⟩)]
    rfl
  · rw [hrun, h.stores]
    by_cases hd : d = d'
    · subst hd
      rw [if_pos rfl, if_pos ⟨hfor, hd'⟩]
      rfl
    · -- another directive is not carried too
      have hne : ¬ (call.For (b.sect config) ∧ b.Carries d call) := by
        intro hn
        rw [← matched_iff h] at hd'
        have hsame := ((matched_iff h call d).mpr hn.2).symm.trans hd'
        exact hd (Option.some.inj hsame)
      rw [if_neg hd, if_neg hne]
      rfl

/-- One call refuses what the section asked for does not know. -/
theorem callback_refuses_iff (h : b.Lawful get stored found) (config : σ) (call : IniCall) :
    (b.callback config call).1 = 0 ↔ call.For (b.sect config) ∧ ¬ b.Known call := by
  rcases callback_cases h config call with ⟨hno, hrun⟩ | ⟨hfor, hunknown, hrun⟩ | ⟨d, _, hd, hrun⟩
  · rw [hrun]
    exact ⟨fun hn => absurd hn (by simp), fun hn => absurd hn.1 hno⟩
  · rw [hrun]
    exact ⟨fun _ => ⟨hfor, hunknown⟩, fun _ => rfl⟩
  · rw [hrun]
    exact ⟨fun hn => absurd hn (by simp), fun hn => absurd ⟨d, h.complete d, hd⟩ hn.2⟩

/-- One call that is not for the section, or refused, changes nothing. -/
theorem callback_ignores (h : b.Lawful get stored found) {config : σ} {call : IniCall}
    (hno : ¬ (call.For (b.sect config) ∧ b.Known call)) : (b.callback config call).2 = config := by
  rcases callback_cases h config call with ⟨_, hrun⟩ | ⟨_, _, hrun⟩ | ⟨d, hfor, hd, _⟩
  · rw [hrun]
  · rw [hrun]
  · exact absurd ⟨hfor, d, h.complete d, hd⟩ hno

/-- One call that is taken raises `found`. -/
theorem callback_finds (h : b.Lawful get stored found) {config : σ} {call : IniCall}
    (hyes : call.For (b.sect config) ∧ b.Known call) :
    found (b.callback config call).2 = 1 := by
  rcases callback_cases h config call with ⟨hno, _⟩ | ⟨_, hunknown, _⟩ | ⟨d, _, _, hrun⟩
  · exact absurd hyes.1 hno
  · exact absurd hyes.2 hunknown
  · rw [hrun]
    exact h.finds d config call

/-- The section asked for never changes. -/
theorem run_sect (h : b.Lawful get stored found) (init : σ) (calls : List IniCall) :
    b.sect (b.run init calls) = b.sect init :=
  Cell.foldl_invariant (fun config => b.sect config = b.sect init)
    (fun config call hs => (callback_sect h config call).trans hs) calls rfl

/-- The last call for a directive wins. -/
theorem run_last_wins (h : b.Lawful get stored found) (init : σ) (calls : List IniCall) (d : D) :
    get d (b.run init calls)
      = Cell.last (b.written stored (b.sect init) d) (get d init) calls := by
  refine Cell.get_foldl (fun config => b.sect config = b.sect init)
    (fun config call hs => (callback_sect h config call).trans hs) ?_ calls rfl
  intro config call hs
  rw [callback_get h config call d, hs]

/-- `found` is raised by the first known directive, and stays. -/
theorem run_found (h : b.Lawful get stored found) {init : σ} (hinit : found init = 0)
    (calls : List IniCall) :
    found (b.run init calls)
      = if ∃ call ∈ calls, call.For (b.sect init) ∧ b.Known call then 1 else 0 := by
  induction calls using List.reverseRecOn with
  | nil =>
      rw [if_neg (by simp)]
      exact hinit
  | append_singleton calls call ih =>
      -- the last call raises `found`, or leaves it as it was
      rw [run_concat b]
      by_cases hthis : call.For (b.sect init) ∧ b.Known call
      · rw [callback_finds h (by rwa [run_sect h]), if_pos ⟨call, by simp, hthis⟩]
      · rw [callback_ignores h (by rwa [run_sect h]), ih]
        have hiff : (∃ c ∈ calls ++ [call], c.For (b.sect init) ∧ b.Known c)
            ↔ ∃ c ∈ calls, c.For (b.sect init) ∧ b.Known c := by
          simp only [List.mem_append, List.mem_singleton]
          constructor
          · rintro ⟨c, hc | rfl, hknown⟩
            · exact ⟨c, hc, hknown⟩
            · exact absurd hknown hthis
          · rintro ⟨c, hc, hknown⟩
            exact ⟨c, Or.inl hc, hknown⟩
        simp only [hiff]

/-- The last call of the section `target` for a directive. -/
def Branches.lastCall (b : Branches σ D) (target : CStr) (d : D) (calls : List IniCall) :
    Option IniCall :=
  (calls.filter fun call => call.For target ∧ b.Carries d call).getLast?

omit [DecidableEq D] in
/-- The last of the values that are written is the one of the last call. -/
theorem last_written_eq (target : CStr) (d : D) (old : V) (calls : List IniCall) :
    Cell.last (b.written stored target d) old calls
      = ((b.lastCall target d calls).map (stored d)).getD old := by
  have hwrites : Cell.writes (b.written stored target d) calls
      = (calls.filter fun call => call.For target ∧ b.Carries d call).map (stored d) := by
    unfold Cell.writes
    induction calls with
    | nil => rfl
    | cons call calls ih =>
        by_cases hcarried : call.For target ∧ b.Carries d call
        · have hwritten : b.written stored target d call = some (stored d call) := if_pos hcarried
          rw [List.filter_cons_of_pos (by simpa using hcarried), List.map_cons,
            List.filterMap_cons_some hwritten, ih]
        · have hwritten : b.written stored target d call = none := if_neg hcarried
          rw [List.filter_cons_of_neg (by simpa using hcarried),
            List.filterMap_cons_none hwritten, ih]
  unfold Cell.last Branches.lastCall
  rw [hwrites, List.getLast?_map]

/-- **What a callback has made of a sequence of calls**, if a field for `d`
holding `v` agrees with a value of `d` where `Holds d value v`. -/
structure TakesEffect (b : Branches σ D) (callback : σ → IniCall → Int × σ) (get : D → σ → V)
    (Holds : D → CStr → V → Prop) (found : σ → Int) (init : σ) (calls : List IniCall) : Prop where
  /-- A field holds the value of the last call for it. -/
  last_wins : ∀ d, ∀ call ∈ b.lastCall (b.sect init) d calls,
    Holds d call.value (get d (foldCalls callback init calls))
  default : ∀ d, b.lastCall (b.sect init) d calls = none →
    get d (foldCalls callback init calls) = get d init
  found_eq : found (foldCalls callback init calls)
    = if ∃ call ∈ calls, call.For (b.sect init) ∧ b.Known call then 1 else 0
  sect_kept : b.sect (foldCalls callback init calls) = b.sect init
  /-- An unknown directive of the section is refused, and nothing else is. -/
  refused_iff : ∀ call, (callback (foldCalls callback init calls) call).1 = 0
    ↔ call.For (b.sect init) ∧ ¬ b.Known call
  /-- What is not for the section, or refused, changes nothing. -/
  ignored : ∀ call, ¬ (call.For (b.sect init) ∧ b.Known call) →
    (callback (foldCalls callback init calls) call).2 = foldCalls callback init calls

/-- **Every lawful table takes effect**, where what its branches store agrees
with the values they are called with. -/
theorem Branches.takesEffect (h : b.Lawful get stored found) {Holds : D → CStr → V → Prop}
    {init : σ} (hinit : found init = 0) {calls : List IniCall}
    (hstored : ∀ d, ∀ call ∈ b.lastCall (b.sect init) d calls,
      Holds d call.value (stored d call)) :
    TakesEffect b b.callback get Holds found init calls where
  last_wins := by
    intro d call hlast
    show Holds d call.value (get d (b.run init calls))
    rw [run_last_wins h, last_written_eq, Option.mem_def.mp hlast]
    exact hstored d call hlast
  default := by
    intro d hnone
    show get d (b.run init calls) = get d init
    rw [run_last_wins h, last_written_eq, hnone]
    rfl
  found_eq := run_found h hinit calls
  sect_kept := run_sect h init calls
  refused_iff := by
    intro call
    have hsect : b.sect (foldCalls b.callback init calls) = b.sect init := run_sect h init calls
    rw [callback_refuses_iff h, hsect]
  ignored := by
    intro call hno
    rw [← run_sect h init calls] at hno
    exact callback_ignores h hno

end Law

/-! ## §5. The two tables are lawful. -/

/-- What a field of `configuration` holds. -/
inductive FieldValue where
  | text (s : CStr)
  | array (a : Option StrArray)
  deriving DecidableEq, Repr

/-- The field of a directive. -/
def Directive.get (d : Directive) (config : Configuration) : FieldValue :=
  match d with
  | defaultPath => .text config.defaultPath
  | allowedParams => .text config.allowedParams
  | pathParams => .text config.pathParams
  | cmd => .text config.cmd
  | cmdNousermatch => .text config.cmdNousermatch
  | cmdUsermatch => .text config.cmdUsermatch
  | userParam => .text config.userParam
  | replaceFile => .text config.replaceFile
  | replaceRegex => .text config.replaceRegex
  | ltrimzero => .array config.ltrimzero
  | lpadzero => .array config.lpadzero
  | precmd => .text config.precmd
  | precmdUsermatch => .text config.precmdUsermatch
  | precmdNousermatch => .text config.precmdNousermatch
  | startHidden => .text config.startHidden
  | startMinimized => .text config.startMinimized
  | fileMustExist => .text config.fileMustExist
  | fileMustExistError => .text config.fileMustExistError

/-- The two directives that hold a list. -/
def Directive.IsList (d : Directive) : Prop := d = ltrimzero ∨ d = lpadzero

instance (d : Directive) : Decidable d.IsList := inferInstanceAs (Decidable (_ ∨ _))

/-- What the branch of a directive stores in its field. -/
def Directive.stored (d : Directive) (call : IniCall) : FieldValue :=
  if d.IsList then .array (some call.list) else .text call.value

/-- The field of a global directive. -/
def GlobalDirective.get (d : GlobalDirective) (config : GlobalConfiguration) : CStr :=
  match d with
  | logPath => config.logPath
  | logLevel => config.logLevel
  | prefixHelp => config.prefixHelp
  | prefixCmd => config.prefixCmd
  | maxLogSizeBytes => config.maxLogSizeBytes

theorem Directive.mem_all (d : Directive) : d ∈ all := by
  cases d <;> decide

theorem GlobalDirective.mem_all (d : GlobalDirective) : d ∈ all := by
  cases d <;> decide

/-- No two of `ini_callback`'s branches react to one name, and each writes a
field of its own. -/
theorem iniBranches_lawful :
    iniBranches.Lawful Directive.get Directive.stored Configuration.found where
  complete := Directive.mem_all
  distinct := directive_eq_of_nodup iniBranches Directive.mem_all (by decide +kernel)
  keeps_sect := by
    intro d config call
    cases d <;> rfl
  stores := by
    intro d d' config call
    cases d <;> cases d' <;> rfl
  finds := by
    intro d config call
    cases d <;> rfl

theorem globalBranches_lawful :
    globalBranches.Lawful GlobalDirective.get (fun _ call => call.value)
      GlobalConfiguration.found where
  complete := GlobalDirective.mem_all
  distinct := directive_eq_of_nodup globalBranches GlobalDirective.mem_all (by decide +kernel)
  keeps_sect := by
    intro d config call
    cases d <;> rfl
  stores := by
    intro d d' config call
    cases d <;> cases d' <;> rfl
  finds := by
    intro d config call
    cases d <;> rfl

/-- The trimmed items of a comma-separated list. -/
def listItems (value : CStr) : List CStr := (strtokAll value (bytes ",")).map trim

/-- With an item, and with room for all of them, the list is stored whole,
whatever its memory held. -/
theorem stored_list {d : Directive} (hd : d.IsList) {call : IniCall}
    (hitems : listItems call.value ≠ [])
    (hroom : (listItems call.value).length ≤ strArrayMax) :
    d.stored call = .array (some ⟨listItems call.value, (listItems call.value).length⟩) := by
  unfold listItems at hitems hroom ⊢
  unfold Directive.stored IniCall.list strArraySplitP
  dsimp only
  rw [if_pos hd, if_pos hroom, if_neg hitems]
  rfl

/-- Without room it is what the memory of the structure holds. -/
theorem stored_spoiled {d : Directive} (hd : d.IsList) {call : IniCall}
    (hroom : ¬ (listItems call.value).length ≤ strArrayMax) :
    d.stored call = .array (some call.fresh) := by
  unfold listItems at hroom
  unfold Directive.stored IniCall.list strArraySplitP
  dsimp only
  rw [if_pos hd, if_neg hroom]
  rfl

/-- The field of a directive agrees with its value: a text is the value, a list
that has items is these. -/
def Directive.Holds (d : Directive) (value : CStr) (field : FieldValue) : Prop :=
  if d.IsList then
    listItems value ≠ [] → field = .array (some ⟨listItems value, (listItems value).length⟩)
  else field = .text value

theorem stored_holds (d : Directive) (call : IniCall)
    (hroom : d.IsList → (listItems call.value).length ≤ strArrayMax) :
    d.Holds call.value (d.stored call) := by
  unfold Directive.Holds
  split
  · next hd =>
      intro hitems
      exact stored_list hd hitems (hroom hd)
  · next hd => exact if_neg hd

/-- A list value of the section that has more items than there are slots. -/
def IniEvent.Overfull (event : IniEvent) (target : CStr) : Prop :=
  strcmpLcase target event.sect = 0
    ∧ (∃ d : Directive, d.IsList ∧ strcmpLcase event.name d.name = 0)
    ∧ strArrayMax < (listItems event.value).length

/-- Behind an overfull value the field of the list holds what was in memory. -/
theorem overfull_spoils {target : CStr} (above : List IniEvent) {event : IniEvent}
    (h : event.Overfull target) :
    ∃ calls : List IniCall, calls.map IniCall.toIniEvent = above ++ [event]
      ∧ ¬ TakesEffect iniBranches iniCallback Directive.get Directive.Holds Configuration.found
        { defaultConfig with sect := target } calls := by
  obtain ⟨hfor, ⟨d, hd, hname⟩, hmore⟩ := h
  let last : IniCall := ⟨event, ⟨[], 0⟩⟩
  let calls : List IniCall := above.map (fun e => ⟨e, ⟨[], 0⟩⟩) ++ [last]
  have hcalls : calls.map IniCall.toIniEvent = above ++ [event] := by
    show (above.map _ ++ [last]).map _ = _
    rw [List.map_append, List.map_map]
    exact congrArg (· ++ [event]) (List.map_id above)
  have hlast : iniBranches.lastCall target d calls = some last := by
    have hcarried : last.For target ∧ iniBranches.Carries d last := ⟨hfor, hname⟩
    show (List.filter _ (above.map _ ++ [last])).getLast? = _
    rw [List.filter_append, List.filter_cons_of_pos (by simpa using hcarried), List.filter_nil,
      List.getLast?_concat]
  have hget : d.get (iniBranches.run { defaultConfig with sect := target } calls)
      = .array (some ⟨[], 0⟩) := by
    have hsect : iniBranches.sect { defaultConfig with sect := target } = target := rfl
    rw [run_last_wins iniBranches_lawful, last_written_eq, hsect, hlast]
    exact stored_spoiled hd (Nat.not_le.mpr hmore)
  refine ⟨calls, hcalls, ?_⟩
  intro htakes
  have hholds : d.Holds last.value _ := htakes.last_wins d last hlast
  have hitems : listItems event.value ≠ [] := by
    intro hnil
    rw [hnil] at hmore
    exact Nat.not_lt_zero _ hmore
  have hlist := hget.symm.trans ((if_pos hd).mp hholds hitems)
  injection hlist with hlist
  injection hlist with hlist
  injection hlist with hnil _
  exact hitems hnil.symm

/-- **WHEN THE DIRECTIVES OF A SECTION TAKE EFFECT**, the last one wins, and nothing
else does: along every sequence of events, in every state, `ini_callback` does so
exactly if no list value of the section is overfull, `global_callback` always. -/
theorem callbacks_takeEffect_iff (target : CStr) (events : List IniEvent) :
    ((∀ calls : List IniCall, calls.map IniCall.toIniEvent <+: events →
        TakesEffect iniBranches iniCallback Directive.get Directive.Holds Configuration.found
          { defaultConfig with sect := target } calls)
      ↔ ∀ event ∈ events, ¬ event.Overfull target)
      ∧ ∀ calls : List IniCall,
          TakesEffect globalBranches globalCallback GlobalDirective.get
            (fun _ value field => field = value) GlobalConfiguration.found defaultGconfig calls := by
  refine ⟨⟨?_, ?_⟩, ?_⟩
  · intro htakes event hevent hover
    obtain ⟨above, below, rfl⟩ := List.append_of_mem hevent
    obtain ⟨calls, hcalls, hno⟩ := overfull_spoils above hover
    refine hno (htakes calls ⟨below, ?_⟩)
    rw [hcalls, List.append_assoc]
    rfl
  · intro hfit calls hinitial
    refine Branches.takesEffect iniBranches_lawful rfl ?_
    intro d call hcall
    refine stored_holds d call fun hd => ?_
    obtain ⟨hmem, hcarried⟩ := List.mem_filter.mp (List.mem_of_getLast? hcall)
    obtain ⟨hfor, hname⟩ := of_decide_eq_true hcarried
    by_contra hmore
    exact hfit call.toIniEvent (hinitial.subset (List.mem_map_of_mem hmem))
      ⟨hfor, ⟨d, hd, hname⟩, Nat.not_le.mp hmore⟩
  · intro calls
    exact Branches.takesEffect globalBranches_lawful rfl fun _ _ _ => rfl

/-- `lpadzero=x,x,..,x`, with 515 items. -/
def overfullEvent : IniEvent :=
  ⟨bytes "h", bytes "lpadzero", (bytes ",").intercalate (List.replicate 515 (bytes "x"))⟩

/-- The list of such a section is lost. -/
theorem overfull_list_lost :
    ¬ ∀ calls : List IniCall, calls.map IniCall.toIniEvent <+: [overfullEvent] →
      TakesEffect iniBranches iniCallback Directive.get Directive.Holds Configuration.found
        { defaultConfig with sect := bytes "h" } calls := by
  intro htakes
  have hlen : (listItems overfullEvent.value).length = 515 := by
    have htokens : strtokAll overfullEvent.value (bytes ",") = List.replicate 515 (bytes "x") := by
      apply runs_intercalate (d := ascii ',') (by decide)
      intro l hl
      rw [List.eq_of_mem_replicate hl]
      exact ⟨by decide +kernel, by decide +kernel⟩
    unfold listItems
    rw [htokens, List.length_map, List.length_replicate]
  have hover : overfullEvent.Overfull (bytes "h") :=
    ⟨by decide, ⟨.lpadzero, by decide, by decide⟩, by rw [hlen]; decide⟩
  obtain ⟨calls, hcalls, hno⟩ := overfull_spoils [] hover
  exact hno (htakes calls (by rw [hcalls]; exact List.prefix_refl _))

end Protohand
