/-
  Protohand.Launch.Defined
  ────────────────────────
  **WHAT IS DEFINED**: the stages of `main` that keep to their arrays.

  The program hardly ever compares a length with the size of its array, and it
  goes on with a buffer it has lost.  C says nothing about a run behind such a
  step.  `MainStage.defined` is the check that the step is none, from the state
  in front of it:

    • `tokensDefined`          — a call of `expand_vars`,
    • `MainState.transformsDefined` — the two stages of transforms,
    • `MainStage.sound`        — what a stage reads and stores besides its texts,
    • `keepsBuffer_of_defined` — a call of `expand_vars` that is defined keeps its
      buffer.
-/
import Protohand.CmdParser.Expand
import Protohand.CmdParser.Spans
import Protohand.Messages.Main
import Protohand.UriParse.Access

namespace Protohand

open Printf

/-! ## §1. Texts and files. -/

/-- The texts fit into `logbuffer`. -/
def logged (texts : List CStr) : Bool := texts.all fun text => decide (text.length < logbufferSize)

/-- What a callback formats for a directive, if it knows these names. -/
def callbackTexts (names : List CStr) (target : CStr) (event : IniEvent) : List CStr :=
  if strcmpLcase target event.sect = 0 then
    sprintf "%s => %s: %s [%s]\n" [.str event.sect, .str event.name, .str event.value, .str target]
      :: if names.any (fun name => strcmpLcase event.name name = 0) = true then []
        else [sprintf "Found unknown directive '%s' with value '%s' in ini file."
          [.str event.name, .str event.value]]
  else []

/-- `tempfilepath`. -/
def MainRun.tempfile (r : MainRun) : CStr :=
  (match r.getenv (bytes "TEMP") with
    | none | some [] => bytes "/tmp"
    | some temp => temp) ++ bytes "/ph.dat"

/-- The names of the configuration fit into `ini_file`. -/
def MainRun.iniNamed (r : MainRun) : Bool :=
  match r.configArg with
  | none => decide ((r.dir ++ bytes "ph.dat").length < r.pathMax)
  | some name => decide (name.length < r.pathMax)
      && (!decide r.IsRemote || decide (r.tempfile.length
        -- it is copied once the file is there
        < if r.downloadRet = 0 then r.pathMax else sizeofCharPtr * (r.pathMax + 1)))

/-- `global_callback` has room for what it formats. -/
def MainRun.globalLogged (r : MainRun) : Bool :=
  (iniDirectives (r.iniContent.getD [])).all fun d =>
    logged (callbackTexts (GlobalDirective.all.map GlobalDirective.name) defaultGconfig.sect d.event)

/-- A list value of the section has more items than there are slots. -/
instance (event : IniEvent) (target : CStr) : Decidable (event.Overfull target) :=
  decidable_of_iff (strcmpLcase target event.sect = 0
      ∧ (∃ d ∈ [Directive.ltrimzero, .lpadzero], strcmpLcase event.name d.name = 0)
      ∧ strArrayMax < (listItems event.value).length)
    (and_congr_right fun _ => and_congr_left fun _ => by
      constructor
      · rintro ⟨d, hd, hname⟩
        rcases List.mem_pair.mp hd with rfl | rfl
        · exact ⟨.ltrimzero, Or.inl rfl, hname⟩
        · exact ⟨.lpadzero, Or.inr rfl, hname⟩
      · rintro ⟨d, rfl | rfl, hname⟩
        · exact ⟨.ltrimzero, by decide, hname⟩
        · exact ⟨.lpadzero, by decide, hname⟩)

/-- `ini_callback` has room for the items of its lists, and for what it formats. -/
def MainState.sectionStored (s : MainState) : Bool :=
  let target := sectionName s.uriParsed
  (iniDirectives s.iniContent).all fun d =>
    !decide (d.event.Overfull target)
      && logged (callbackTexts (Directive.all.map Directive.name) target d.event)

/-! ## §2. Expansions. -/

section Expand

variable (mem : Nat → RoundMem) (getenv : Env) (query : NvList)

/-- A round has a `$` to take back, room for a name in `lastvar`, and leaves its
text to the next one. -/
def tokenDefined (s : ExpandBuf) (t : Token) : Bool :=
  (match t with
    | .opn _ => !s.out.isEmpty
    | .close _ varname _ => decide (varname.length < lastvarSize)
    | .put _ _ | .fault => true)
  && match tokenStep mem getenv query s t with
    | .ok s' => !s'.lost
    | .error .crash => false
    | .error (.ret _ _ _) => true

/-- The same for all rounds, up to one that returns. -/
def tokensDefined : List Token → ExpandBuf → Bool
  | [], _ => true
  | t :: ts, s => tokenDefined mem getenv query s t
      && match tokenStep mem getenv query s t with
        | .ok s' => tokensDefined ts s'
        | .error _ => true

end Expand

/-- A call of `expand_vars` is defined. -/
def MainState.expandDefined (s : MainState) (which : Expanded) (query : NvList) (str : CStr) :
    Bool :=
  tokensDefined (s.run.expandMem which) s.run.env query (scan str) (bufInit s.globals)

def Expansion.defined (e : Expansion) (s : MainState) : Bool :=
  s.expandDefined e.which (e.query s) (e.get s)

/-! ## §3. The URI and its transforms. -/

instance (length : Nat) : DecidablePred (UriAccess.InRange length)
  | .char _ => inferInstanceAs (Decidable (_ ∧ _))
  | .copy _ _ _ => inferInstanceAs (Decidable (_ ∧ _))
  | .cell _ _ => inferInstanceAs (Decidable (_ ∧ _))

/-- `uriparse_parse` keeps to its blocks. -/
def MainRun.uriDefined (r : MainRun) : Bool :=
  (uriparseParse r.uriMem r.uri (uriparseCreate r.uri)).isSome
    && (uriparseAccesses sizeofCharPtr r.uri).all fun a => decide (a.InRange r.uri.length)

/-- The items that a list counts are stored; without items it counts what memory
held. -/
def itemsStored (array : Option StrArray) : Bool :=
  array.all fun a => decide (a.length ≤ a.items.length)

/-- The stages of transforms read items that are stored, and store where they may:
into `out`, and not into the literal that is the value of a part without `=`. -/
def MainState.transformsDefined (s : MainState) : Bool :=
  let lpadzero := entries s.config.lpadzero
  let ltrimzero := entries s.config.ltrimzero
  let run := s.transforms
  s.uriParsed.nvquery.pairs.isEmpty
    || (itemsStored s.config.lpadzero
      && ((run.lpadCalls ++ run.ltrimCalls).all fun call => call.strout.stores.all fun i =>
          decide (i < outSize + s.run.outSlack))
      && (decide (run.ret ≠ 0) || (itemsStored s.config.ltrimzero
        && (queryParts s.uriParsed.query).all fun part =>
            let key := cstr (urldecode2 part)
            part.contains (ascii '=') || !ltrimzero.contains key || lpadzero.contains key)))

/-- The call of `replace`: what it is asked to replace in, and what it does. -/
def MainState.replaceCall (s : MainState) : Option (Nat × FileSystem) :=
  if s.config.replaceFile = [] ∨ s.config.replaceRegex = [] then none
  else (cmdunquote s.config.replaceFile).bind fun file =>
    replace s.run.io s.run.regexReplace s.run.regerrno s.run.fs file s.config.replaceRegex

/-! ## §4. Stages. -/

/-- What a stage reads and stores keeps to its array, but for its texts. -/
def MainStage.sound : MainStage → MainState → Bool
  | .checkMode, s => decide ((bytes "PH_HOME=" ++ s.run.dir).length < s.run.pathMax + 1 + 9)
  | .readConfig, s => s.run.iniNamed
      && (decide (s.run.iniFile = none ∨ s.run.IsRemote ∧ s.run.downloadRet ≠ 0)
        || s.run.globalLogged)
  | .expandLogPath, s => Protohand.expandLogPath.defined s
  | .expandPrefixHelp, s => Protohand.expandPrefixHelp.defined s
  | .expandPrefixCmd, s => Protohand.expandPrefixCmd.defined s
  | .openLog, s => s.logFile.all fun log_file => decide (log_file.length < s.run.pathMax)
  | .startLog, _ => true
  | .parseUri, s => s.run.uriDefined
  | .readSection, s => s.sectionStored
  | .checkSection, s => decide (s.loglevel ≤ 3)
      || (itemsStored s.config.lpadzero && itemsStored s.config.ltrimzero)
  | .chooseCmd, s => decide (s.config.userParam = []) || s.userPair.isNone
      || (s.run.env (bytes "USERNAME")).isSome
  | .expandDefaultPath, s => Protohand.expandDefaultPath.defined s
  | .expandReplaceFile, s => Protohand.expandReplaceFile.defined s
  | .expandFileMustExist, s => Protohand.expandFileMustExist.defined s
  | .checkFile, s => decide (s.config.fileMustExist = [])
      || (cmdunquote s.config.fileMustExist).isSome
  | .replaceInFile, s => decide (s.config.replaceFile = [] ∨ s.config.replaceRegex = [])
      || s.replaceCall.isSome
  | .transformQuery, s => s.transformsDefined
  | .expandCmd, s => s.expandDefined .cmd s.uriParsed.nvquery s.runCmd
  | .expandPrecmd, s => decide (s.preRunCmd = [])
      || s.expandDefined .precmd s.uriParsed.nvquery s.preRunCmd
  | .checkExe, _ => true
  | .cleanLogfile, _ => true

/-- A stage is defined. -/
def MainStage.defined (k : MainStage) (s : MainState) : Bool := k.sound s && logged (k.exec s).1

/-! ## §5. The buffer of an expansion. -/

/-- Rounds that are defined end with their text. -/
theorem tokensDefined_kept {mem : Nat → RoundMem} {getenv : Env} {query : NvList}
    (ts : List Token) {s s' : ExpandBuf} (hs : s.lost = false)
    (hdefined : tokensDefined mem getenv query ts s = true)
    (h : ts.foldlM (tokenStep mem getenv query) s = .ok s') : s'.lost = false := by
  induction ts generalizing s with
  | nil =>
      injection h with h
      exact h ▸ hs
  | cons t ts ih =>
      rw [List.foldlM_cons] at h
      rw [tokensDefined, Bool.and_eq_true] at hdefined
      obtain ⟨hfirst, hrest⟩ := hdefined
      cases hstep : tokenStep mem getenv query s t with
      | error e => rw [hstep] at h; cases h
      | ok s₁ =>
          rw [hstep] at h hrest
          unfold tokenDefined at hfirst
          rw [hstep, Bool.and_eq_true] at hfirst
          exact ih (by simpa using hfirst.2) hrest h

/-- **A call that is defined** keeps its buffer, whatever the globals are. -/
theorem keepsBuffer_of_defined {s : MainState} {which : Expanded} {query : NvList} {str : CStr}
    (h : s.expandDefined which query str = true) :
    KeepsBuffer (s.run.expandMem which) s.run.env query str := by
  intro g b hrun
  -- the sizes do not depend on the globals
  obtain ⟨b', hrun', hsize⟩ := (run_ok_iff (scan str) (bufInit s.globals) b.size).mpr
    ((run_ok_iff (scan str) (bufInit g) b.size).mp ⟨b, hrun, rfl⟩)
  have hkept := tokensDefined_kept (scan str) rfl h hrun'
  have hlost : b'.lost = b.lost := congrArg BufSize.lost hsize
  rw [← hlost, hkept]

end Protohand
