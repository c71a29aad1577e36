/-
  Protohand.Messages.Main
  ───────────────────────
  **`main`, STAGE BY STAGE**, with the texts it formats into `logbuffer`.

  The stages stand in the order of the source.  Most of them end in
  `return display_error(..)` when something fails (`MainState.fail`).
-/
import Protohand.Messages.Def

namespace Protohand

open Printf

/-! ## §1. The configuration of the program. -/

/-- The values of `argv[1]` for which `main` does something else. -/
def modeSwitches : List CStr :=
  [bytes "-e", bytes "-r", bytes "-h", bytes "--help", bytes "/h", bytes "/H", bytes "/?"]

def checkMode (s : MainState) : StageResult :=
  -- encoding a file, testing a regular expression and the help text end here
  if modeSwitches.any (fun mode => strcmp s.run.uri mode = 0) = true then ([], .error none)
  else ([], .ok s)

/-- The file of the configuration, by the name it is logged with. -/
def MainRun.iniFile (r : MainRun) : Option CStr :=
  match r.configArg with
  | some name => some name
  | none =>
      if r.fileExists (r.dir ++ bytes "ph.dat") = true then some (r.dir ++ bytes "ph.dat")
      else if r.fileExists (r.dir ++ bytes "ph.ini") = true then some (r.dir ++ bytes "ph.ini")
      else none

/-- The configuration has to be downloaded. -/
def MainRun.IsRemote (r : MainRun) : Prop :=
  ∃ name ∈ r.configArg, bytes "http" <+: name ∨ bytes "ftp" <+: name

instance (r : MainRun) : Decidable r.IsRemote := by
  unfold MainRun.IsRemote
  infer_instance

/-- `global_callback`, as the parser calls it. -/
def globalHandler (cfg : GlobalConfiguration) (event : IniEvent) : Int × GlobalConfiguration :=
  globalCallback cfg ⟨event, ⟨[], 0⟩⟩

def readConfig (s : MainState) : StageResult :=
  -- without a file an example is written, and `main` returns
  if s.run.iniFile = none then ([], .error none)
  else if s.run.IsRemote ∧ s.run.downloadRet ≠ 0 then ([], s.fail FAILED_TO_DOWNLOAD_CONFIG)
  else
    match s.run.iniContent with
    | none => ([], s.fail FAILED_TO_OPEN_CONFIG)
    | some ini_content =>
        -- the log is not open yet: this text goes to `stderr`
        let parsed := iniParseString globalHandler ini_content defaultGconfig
        if parsed.1 ≠ 0 then
          ([sprintf "error parsing ini file at line %d." [.int parsed.1]], s.fail INI_PARSE_ERR)
        else ([], .ok { s with iniContent := ini_content, cfg := parsed.2 })

/-- A directive that is expanded in its place: `main` gives up with
`FAILED_TO_EXPAND_ENV`, or logs what it has become. -/
structure Expansion where
  which : Expanded
  query : MainState → NvList
  get : MainState → CStr
  set : MainState → CStr → MainState
  label : Option String

/-- A call of `expand_vars`. -/
def MainState.expand (s : MainState) (which : Expanded) (query : NvList) (str : CStr) :
    Option ExpandResult :=
  expandVars (s.run.expandMem which) s.run.env query s.globals str

def Expansion.exec (e : Expansion) (s : MainState) : StageResult :=
  match s.expand e.which (e.query s) (e.get s) with
  | none => ([], .error none)
  | some r =>
      -- `display_error` reads the `lastvar` of this call
      let s := { s with globals := r.globals }
      if r.ret ≠ 0 then ([], s.fail FAILED_TO_EXPAND_ENV)
      else
        (s.above 1 (e.label.toList.map (fun label => sprintf label [.str r.str])),
          .ok (e.set s r.str))

def expandLogPath : Expansion where
  which := .logPath
  query _ := nvlistCreate 0
  get s := s.cfg.logPath
  set s value := { s with cfg := { s.cfg with logPath := value } }
  label := none

def expandPrefixHelp : Expansion where
  which := .prefixHelp
  query _ := nvlistCreate 0
  get s := s.cfg.prefixHelp
  set s value := { s with cfg := { s.cfg with prefixHelp := value } }
  label := none

def expandPrefixCmd : Expansion where
  which := .prefixCmd
  query _ := nvlistCreate 0
  get s := s.cfg.prefixCmd
  set s value := { s with cfg := { s.cfg with prefixCmd := value } }
  label := none

/-- `loglevel`: a text that is no number, or a negative one, gives 1. -/
def configuredLevel (log_level : CStr) : Int :=
  if strcmp log_level [] ≠ 0 then
    if strcmp (decimal 32 (atoi log_level)) log_level ≠ 0 ∨ atoi log_level < 0 then 1
    else atoi log_level
  else 0

/-- `log_file`. -/
def MainState.logFile (s : MainState) : Option CStr :=
  if s.cfg.logPath = [] then
    match s.run.env (bytes "APPDATA") with
    | some appdata => some (appdata ++ bytes "\\ph.log")
    | none => (s.run.env (bytes "HOME")).map (· ++ bytes "/.ph.log")
  else some s.cfg.logPath

def openLog (s : MainState) : StageResult :=
  match s.logFile with
  | none => ([], s.fail ERR_NO_USERDIR)
  | some log_file =>
      if s.run.logOpens log_file = true then
        ([], .ok { s with loglevel := configuredLevel s.cfg.logLevel })
      else ([], s.fail FAILED_TO_OPEN_LOGFILE)

/-! ## §2. The start of the log. -/

def startLine (tm : Tm) (uri : CStr) : CStr :=
  sprintf "\r\n===> %d-%02d-%02d %02d:%02d:%02d, URI: '%s'"
    [.int (tm.year + 1900), .int (tm.mon + 1 : Nat), .int tm.mday, .int tm.hour, .int tm.min,
      .int tm.sec, .str uri]

def globalDump (cfg : GlobalConfiguration) : List CStr :=
  [sprintf "section: %s" [.str cfg.sect],
   sprintf "log_path: %s" [.str cfg.logPath],
   sprintf "log_level: %s" [.str cfg.logLevel],
   sprintf "prefix_help: %s" [.str cfg.prefixHelp],
   sprintf "prefix_cmd: %s" [.str cfg.prefixCmd],
   sprintf "max_log_size_bytes: %s" [.str cfg.maxLogSizeBytes],
   sprintf "found: %d" [.int cfg.found]]

def startLog (s : MainState) : StageResult :=
  ([startLine s.run.tm s.run.uri] ++ s.above 2 (globalDump s.cfg)
    ++ [sprintf "Current working dir: %s" [.str s.run.dir],
        sprintf "Current ini file:    %s" [.str (s.run.iniFile.getD [])]], .ok s)

/-! ## §3. The URI and its section. -/

def uriDump (parsed : TUri) : List CStr :=
  [sprintf "Start      [%d]" [.int parsed.pos.start],
   sprintf "Proto      [%d]" [.int parsed.pos.proto],
   sprintf "Authority  [%d]" [.int parsed.pos.authority],
   sprintf "Path       [%d]" [.int parsed.pos.path],
   sprintf "Query      [%d]" [.int parsed.pos.query],
   sprintf "Fragment   [%d]" [.int parsed.pos.fragment],
   sprintf "End        [%d]" [.int parsed.pos.fend],
   sprintf "proto:     '%s'" [.str parsed.proto],
   sprintf "authority: '%s'" [.str parsed.authority],
   sprintf "path:      '%s'" [.str parsed.path],
   sprintf "query:     '%s'" [.str parsed.query],
   sprintf "fragment:  '%s'" [.str parsed.fragment]]

def queryDump (nvquery : NvList) : List CStr :=
  nvquery.pairs.zipIdx.map (fun pi =>
    sprintf "[%d] '%s'='%s'" [.int pi.2, .str pi.1.key, .str pi.1.value])

def parseUri (s : MainState) : StageResult :=
  match uriparseParse s.run.uriMem s.run.uri (uriparseCreate s.run.uri) with
  | none => ([], .error none)
  | some (res, parsed) =>
      if res ≠ 0 then
        -- the whole URI once more, at every level of the log
        ([sprintf "URI Parser Error %d, %s, %s"
            [.int res, .str (uriErrorText res), .str s.run.uri]], s.fail (127 + res))
      else
        (s.above 2 (uriDump parsed ++ s.above 3 (queryDump parsed.nvquery)),
          .ok { s with uriParsed := parsed })

def readSection (s : MainState) : StageResult :=
  let looked := lookupSection s.run.fresh s.uriParsed s.iniContent
  let texts := [sprintf "Reading ini section: [%s]" [.str (sectionName s.uriParsed)],
    sprintf "ini_parse() return code: %d" [.int looked.1]]
  if looked.1 ≠ 0 then (texts, s.fail INI_PARSE_ERR)
  else (texts, .ok { s with config := looked.2 })

def configDump (config : Configuration) : List CStr :=
  [sprintf "section: %s" [.str config.sect],
   sprintf "allowed_params: %s" [.str config.allowedParams],
   sprintf "path_params: %s" [.str config.pathParams],
   sprintf "replace_file: %s" [.str config.replaceFile],
   sprintf "replace_regex: %s" [.str config.replaceRegex],
   sprintf "cmd: %s" [.str config.cmd],
   sprintf "user_param: %s" [.str config.userParam],
   sprintf "cmd_usermatch: %s" [.str config.cmdUsermatch],
   sprintf "cmd_nousermatch: %s" [.str config.cmdNousermatch],
   sprintf "file_must_exist: %s" [.str config.fileMustExist],
   sprintf "file_must_exist_error: %s" [.str config.fileMustExistError],
   sprintf "found: %d" [.int config.found]]

/-- A list that is not NULL; the check for NULL inside of it comes too late. -/
def arrayDump (label : String) (array : Option StrArray) : List CStr :=
  match array with
  | none => []
  | some a =>
      sprintf label [.int a.length]
        :: a.elems.zipIdx.map (fun item => sprintf "[%d] '%s'" [.int item.2, .str item.1])

def checkSection (s : MainState) : StageResult :=
  let texts := s.above 2 (configDump s.config
    ++ s.above 3 (arrayDump "lpadzero: %d" s.config.lpadzero
      ++ arrayDump "ltrimzero: %d" s.config.ltrimzero))
  if s.config.found = 0 then
    (texts ++ [sprintf "Ini section '%s' not found " [.str (sectionName s.uriParsed)]],
      s.fail NO_INI_SECTION_FOUND)
  else (texts, .ok s)

/-! ## §4. The command that is chosen. -/

/-- A command that is empty is not configured. -/
def chosen (s : MainState) (texts : List CStr) (runCmd preRunCmd : CStr) : StageResult :=
  if runCmd = [] then (texts, s.fail NO_CMD_DIRECTIVE)
  else (texts, .ok { s with runCmd := runCmd, preRunCmd := preRunCmd })

/-- The pair of the query that `user_param` names. -/
def MainState.userPair (s : MainState) : Option NvPair :=
  (findUserParam s.config.userParam s.uriParsed.nvquery).bind
    (fun i => s.uriParsed.nvquery.pairs[i]?)

def chooseCmd (s : MainState) : StageResult :=
  if s.config.userParam = [] then chosen s [] s.config.cmd s.config.precmd
  else
    match s.userPair with
    | none =>
        ([sprintf "config value user_param '%s' not found in query." [.str s.config.userParam]],
          s.fail NO_USER_PARAM_FOUND)
    | some pair =>
        let texts := [sprintf "user_param '%s'='%s'" [.str pair.key, .str pair.value]]
        match s.run.env (bytes "USERNAME") with
        -- `strcmp_lcase` is given NULL
        | none => (texts, .error none)
        | some username =>
            if strcmpLcase username pair.value = 0 then
              chosen s texts s.config.cmdUsermatch s.config.precmdUsermatch
            else chosen s texts s.config.cmdNousermatch s.config.precmdNousermatch

/-! ## §5. The files of the configuration. -/

def expandDefaultPath : Expansion where
  which := .defaultPath
  query s := s.uriParsed.nvquery
  get s := s.config.defaultPath
  set s value := { s with config := { s.config with defaultPath := value } }
  label := some "default_path expanded: %s"

def expandReplaceFile : Expansion where
  which := .replaceFile
  query s := s.uriParsed.nvquery
  get s := s.config.replaceFile
  set s value := { s with config := { s.config with replaceFile := value } }
  label := some "replace_file expanded: %s"

def expandFileMustExist : Expansion where
  which := .fileMustExist
  query s := s.uriParsed.nvquery
  get s := s.config.fileMustExist
  set s value := { s with config := { s.config with fileMustExist := value } }
  label := some "file_must_exist expanded: %s"

def checkFile (s : MainState) : StageResult :=
  if s.config.fileMustExist = [] then ([], .ok s)
  else
    match cmdunquote s.config.fileMustExist with
    -- a single quote is stored in front of its string
    | none => ([], .error none)
    | some file =>
        if s.run.fileExists file = true then
          ([], .ok { s with config := { s.config with fileMustExist := file } })
        else ([], s.failWith FILE_NOT_FOUND (some s.config.fileMustExistError))

def replaceInFile (s : MainState) : StageResult :=
  if s.config.replaceFile = [] then ([], .ok s)
  else
    let texts := s.above 1 [sprintf "Regex replace in: %s" [.str s.config.replaceFile],
      sprintf "Regex : %s" [.str s.config.replaceRegex]]
    if s.config.replaceRegex = [] then
      (texts ++ [sprintf "Missing regex." []], s.fail MISSING_REGEX)
    else
      match cmdunquote s.config.replaceFile with
      | none => (texts, .error none)
      | some file =>
          match replace s.run.io s.run.regexReplace s.run.regerrno s.run.fs file
              s.config.replaceRegex with
          | none => (texts, .error none)
          | some (ret, _) =>
              -- the name is logged without its quotes
              if ret ≠ 0 then
                (texts ++ [sprintf "Error regex replacing %s in %s."
                  [.str file, .str s.config.replaceRegex]], s.fail ret)
              else (texts, .ok { s with config := { s.config with replaceFile := file } })

/-! ## §6. The command. -/

/-- The entries of a list, none if it is NULL. -/
def entries (array : Option StrArray) : List CStr := (array.map StrArray.elems).getD []

/-- The two stages of transforms, on the pairs of the query. -/
def MainState.transforms (s : MainState) : TransformRun :=
  transformStages (entries s.config.lpadzero) (entries s.config.ltrimzero)
    s.uriParsed.nvquery.pairs

/-- The value that `transform_lpadzero` was given last. -/
def TransformRun.lastPadded (run : TransformRun) : CStr :=
  (run.lpadCalls.getLast?.map TransformCall.strin).getD []

def transformQuery (s : MainState) : StageResult :=
  if s.transforms.ret ≠ 0 then
    ([sprintf "Error while zeropadding %s, too long." [.str s.transforms.lastPadded]],
      s.fail FAILED_TO_ZEROPAD)
  else
    -- the values are replaced in their places
    let nvquery := s.uriParsed.nvquery
    let items := s.transforms.pairs.map some
    ([], .ok { s with uriParsed := { s.uriParsed with
      nvquery := { nvquery with items := items ++ nvquery.items.drop items.length } } })

/-- A command that is expanded: `main` returns the code of `expand_vars`, or
logs what the command has become. -/
def expandCommand (which : Expanded) (label : String) (str : CStr)
    (set : MainState → CStr → MainState) (s : MainState) : StageResult :=
  match s.expand which s.uriParsed.nvquery str with
  | none => ([], .error none)
  | some r =>
      let s := { s with globals := r.globals }
      if r.ret ≠ 0 then
        ([sprintf "%s, varname=%s"
            [.str (errstr (r.ret + 32)), .str r.globals.expandvarErrVarName]],
          s.fail (r.ret + 32))
      else (s.above 1 [sprintf label [.str r.str]], .ok (set s r.str))

def expandCmd (s : MainState) : StageResult :=
  expandCommand .cmd "cmd expanded: %s" s.runCmd (fun s cmd => { s with cmd := cmd }) s

def expandPrecmd (s : MainState) : StageResult :=
  if s.preRunCmd = [] then ([], .ok s)
  else expandCommand .precmd "precmd expanded: %s" s.preRunCmd (fun s _ => s) s

def checkExe (s : MainState) : StageResult :=
  if s.run.isExecutable (getexe s.cmd) = true then
    ([sprintf "Executable file: '%s'" [.str (getexe s.cmd)]], .ok s)
  else ([sprintf "Not executable: '%s'" [.str (getexe s.cmd)]], s.fail NOT_EXECUTABLE)

/-- The command runs in front of this stage. -/
def cleanLogfile (s : MainState) : StageResult :=
  if s.loglevel = 0 then ([], .error none)
  else
    (s.above 2 ([sprintf "logfile size: %ld" [.long s.run.logSize]]
      ++ if s.run.logSize > logLength s.cfg.maxLogSizeBytes then
          [sprintf "Truncating logfile" []] else []), .ok s)

/-! ## §7. The stages. -/

inductive MainStage where
  | checkMode | readConfig | expandLogPath | expandPrefixHelp | expandPrefixCmd
  | openLog | startLog
  | parseUri | readSection | checkSection | chooseCmd
  | expandDefaultPath | expandReplaceFile | expandFileMustExist | checkFile | replaceInFile
  | transformQuery | expandCmd | expandPrecmd | checkExe | cleanLogfile
  deriving DecidableEq, Repr

def MainStage.exec : MainStage → MainState → StageResult
  | checkMode => Protohand.checkMode
  | readConfig => Protohand.readConfig
  | expandLogPath => Protohand.expandLogPath.exec
  | expandPrefixHelp => Protohand.expandPrefixHelp.exec
  | expandPrefixCmd => Protohand.expandPrefixCmd.exec
  | openLog => Protohand.openLog
  | startLog => Protohand.startLog
  | parseUri => Protohand.parseUri
  | readSection => Protohand.readSection
  | checkSection => Protohand.checkSection
  | chooseCmd => Protohand.chooseCmd
  | expandDefaultPath => Protohand.expandDefaultPath.exec
  | expandReplaceFile => Protohand.expandReplaceFile.exec
  | expandFileMustExist => Protohand.expandFileMustExist.exec
  | checkFile => Protohand.checkFile
  | replaceInFile => Protohand.replaceInFile
  | transformQuery => Protohand.transformQuery
  | expandCmd => Protohand.expandCmd
  | expandPrecmd => Protohand.expandPrecmd
  | checkExe => Protohand.checkExe
  | cleanLogfile => Protohand.cleanLogfile

def mainStages : List MainStage :=
  [.checkMode, .readConfig, .expandLogPath, .expandPrefixHelp, .expandPrefixCmd, .openLog,
    .startLog, .parseUri, .readSection, .checkSection, .chooseCmd, .expandDefaultPath,
    .expandReplaceFile, .expandFileMustExist, .checkFile, .replaceInFile, .transformQuery,
    .expandCmd, .expandPrecmd, .checkExe, .cleanLogfile]

/-- `main`: the texts it formats into `logbuffer`, and how it ends. -/
def main (r : MainRun) : StageResult := Stages.run MainStage.exec mainStages r.init

end Protohand
