/-
  Protohand.Messages.Def
  ──────────────────────
  **THE TEXTS `main` AND `display_error` FORMAT** into the arrays `logbuffer`
  and `params`.

  `main` is a list of stages (`mainStages`): each formats its texts and leaves a
  state for the next one, or returns, most often through `display_error`
  (`ErrorCall`).  What a stage takes from another file of the program is the
  function modelled there.
-/
import Protohand.Casing
import Protohand.Getexe
import Protohand.Lib.Printf
import Protohand.Lib.Stages
import Protohand.LogClean
import Protohand.Replace
import Protohand.Section
import Protohand.SplitArg

namespace Protohand

open Printf

/-! ## §1. Constants. -/

/-- The sizes of `logbuffer` and `params`, and `CMD_MAX`. -/
def logbufferSize : Nat := 4096
def paramsSize : Nat := 4000
def CMD_MAX : Nat := 2047

def INI_PARSE_ERR : Nat := 5
def MISSING_REGEX : Nat := 12
def NO_INI_SECTION_FOUND : Nat := 13
def FAILED_TO_EXPAND_ENV : Nat := 14
def NO_CMD_DIRECTIVE : Nat := 15
def ERR_NO_USERDIR : Nat := 18
def FAILED_TO_OPEN_CONFIG : Nat := 19
def FAILED_TO_OPEN_LOGFILE : Nat := 20
def FAILED_TO_DOWNLOAD_CONFIG : Nat := 21
def NOT_EXECUTABLE : Nat := 23
def NO_USER_PARAM_FOUND : Nat := 24
def FILE_NOT_FOUND : Nat := 25

/-- `define_error_messages`. -/
def errorMessages : List (Nat × String) :=
  [(0, "Ok"),
   (1, "Argument 1 missing."),
   (2, "Failed to find current directory. getcwd() or realpath() failed to resolve the app directory."),
   (3, "Failed to create ph.ini, permission denied."),
   (4, "Failed to create ph.ini, unable to write to file."),
   (5, "Failed to parse ini file."),
   (6, "Wrong path or program is not executable."),
   (7, "No inisection found."),
   (8, "While generating the commandline string, too many arguments were passed in via query and/or configuration. The limit is: MAX_PARAMS."),
   (9, "Failed to open file for replacement."),
   (10, "Failed to parse regular expression."),
   (11, "Could not allocate enough memmory to read the file into RAM for replacement."),
   (12, "replace_file set but replace_regex empty or missing."),
   (13, "Failed to find ini Section."),
   (14, "Failed to expand environment variable."),
   (15, "Missing `cmd` directive in ini file."),
   (16, "Failed to delete log file."),
   (17, "Failed to rename log file."),
   (18, "Failed to find userdir (APPDATA/HOME) in environment variables."),
   (19, "Failed to open config file."),
   (20, "Failed to open log file."),
   (21, "Failed to download config file."),
   (22, "Failed to zeropad an url parameter, string too long."),
   (23, "cmd file not executable."),
   (24, "`user_param` not found in url query."),
   (25, "File not found. Most probably an application is not installed."),
   (33, "No equal sign found in expression expansion."),
   (34, "No colon found in expression expansion."),
   (35, "Failed to dynamically allocate memmory while expanding variables (malloc)."),
   (36, "Ennvironment variable not found while trying to expand."),
   (37, "Query parameter not found while expaning."),
   (38, "Failed to dynamically allocate memmory while expanding variables (realloc)."),
   (128, "Failed to parse URI, protocol missing."),
   (129, "Failed to parse URI, authority missing."),
   (130, "Failed to parse URI, error in query string."),
   (131, "Failed to parse URI, error in fragment.")]

/-- `errstr[code]`, as `%s` prints it: `(null)` where nothing is stored. -/
def errstr (code : Nat) : CStr := bytes ((errorMessages.lookup code).getD "(null)")

/-- The text `err` for a part of the URI that was not found. -/
def uriErrorText (res : Nat) : CStr :=
  if res = foundProto then bytes "Failed to find protocol delimiter ':'"
  else if res = foundAuthority then bytes "Failed to extract authority"
  else if res = foundPath then bytes "Failed to find the path"
  else if res = foundQuery then bytes "Failed to parse the query"
  else if res = foundFragment then bytes "Failed to parse the fragment"
  else bytes "Failed to find the end"

/-! ## §2. `display_error`. -/

/-- A call of `display_error`, with the globals and the environment it reads. -/
structure ErrorCall where
  code : Nat
  url : Option CStr
  errorString : Option CStr
  lastvar : CStr
  phHome : CStr
  getenv : Env

/-- An array, and what is formatted into it. -/
inductive Formatted where
  | logbuffer (text : CStr)
  | params (text : CStr)
  deriving DecidableEq, Repr

/-- The text is shorter than its array. -/
def Formatted.Fits : Formatted → Prop
  | logbuffer text => text.length < logbufferSize
  | params text => text.length < paramsSize

/-- `hostname`. -/
def ErrorCall.hostname (call : ErrorCall) : CStr :=
  ((call.getenv (bytes "HOSTNAME")).or (call.getenv (bytes "COMPUTERNAME"))).getD
    (bytes "unknown")

/-- `proto`. -/
def ErrorCall.proto (call : ErrorCall) : CStr :=
  if bytes "//" <+: call.phHome then bytes "file:" else []

/-- Whether the name of a variable goes into the command line. -/
def ErrorCall.namesVariable (call : ErrorCall) : Bool :=
  call.code == FAILED_TO_EXPAND_ENV || call.code == EXP_ERR_QUERYNVVAR_NOT_FOUND

section Display

variable (curlEscape : CStr → CStr)

/-- `params` after the `sprintf`. -/
def ErrorCall.params (call : ErrorCall) : CStr :=
  sprintf "\"%s%serror.html?code=%d&url=%s&str=%s&hostname=%s&var="
    [.str call.proto, .str call.phHome, .int call.code,
      .str ((call.url.map curlEscape).getD []), .str ((call.errorString.map curlEscape).getD []),
      .str (curlEscape call.hostname)]

/-- `params` with the name of the variable. -/
def ErrorCall.namedParams (call : ErrorCall) : CStr :=
  call.params curlEscape ++ (if call.namesVariable = true then call.lastvar else [])

/-- `params` with the closing quote. -/
def ErrorCall.quotedParams (call : ErrorCall) : CStr :=
  call.namedParams curlEscape ++ bytes "\""

/-- `display_error`: what it formats, in order, and what it returns. -/
def displayError (call : ErrorCall) : List Formatted × Nat :=
  let params := call.quotedParams curlEscape
  -- both arrays are written before the length is looked at
  let formatted : List Formatted := [.params (call.params curlEscape),
    .params (call.namedParams curlEscape), .params params,
    .logbuffer (sprintf "Error string: %s" [.str params])]
  if params.length > CMD_MAX - 15 then (formatted, 127)
  else
    (formatted ++
      [.logbuffer (sprintf "Error: %d, %s" [.int call.code, .str (errstr call.code)])], call.code)

end Display

/-! ## §3. The state of `main`. -/

/-- `struct tm`, as `localtime` fills it in. -/
structure Tm where
  year : Int
  mon : Nat
  mday : Nat
  hour : Nat
  min : Nat
  sec : Nat
  mon_lt : mon < 12
  mday_le : mday ≤ 31
  hour_lt : hour < 24
  min_lt : min < 60
  sec_le : sec ≤ 60

/-- The calls of `expand_vars` in `main`. -/
inductive Expanded where
  | logPath | prefixHelp | prefixCmd | defaultPath | replaceFile | fileMustExist | cmd | precmd
  deriving DecidableEq, Repr

/-- What `main` is started with, and how its calls of the outside go. -/
structure MainRun where
  /-- `argv[1]`. -/
  uri : CStr
  /-- `argv[2]`, if `argc` is 3. -/
  configArg : Option CStr
  /-- What `exedir` finds, and `PH_HOME` is set to. -/
  dir : CStr
  getenv : Env
  fileExists : CStr → Bool
  /-- The result of `getfile`. -/
  downloadRet : Int
  /-- What is read from the file of the configuration, decoded; `none` if it cannot be opened. -/
  iniContent : Option CStr
  /-- Whether `fopen` opens the log file. -/
  logOpens : CStr → Bool
  tm : Tm
  /-- What the blocks hold that are not cleared. -/
  fresh : Nat → StrArray
  uriMem : UriMem
  expandMem : Expanded → Nat → RoundMem
  /-- What `replace` works with. -/
  io : ReplaceIO
  regexReplace : RegexReplace
  regerrno : Int
  fs : FileSystem
  isExecutable : CStr → Bool
  /-- What `ftell` returns at the end of the log file. -/
  logSize : Int
  /-- `PATH_MAX`, the size of the arrays for paths. -/
  pathMax : Nat
  /-- The bytes behind the array `out` of the transforms that nothing stands in. -/
  outSlack : Nat

/-- The environment, after the `putenv`. -/
def MainRun.env (r : MainRun) : Env := fun name =>
  if name = bytes "PH_HOME" then some r.dir else r.getenv name

/-- The variables of `main`. -/
structure MainState where
  run : MainRun
  iniContent : CStr
  cfg : GlobalConfiguration
  loglevel : Int
  globals : ExpandGlobals
  uriParsed : TUri
  config : Configuration
  runCmd : CStr
  preRunCmd : CStr
  cmd : CStr

/-- The variables before anything is done. -/
def MainRun.init (r : MainRun) : MainState :=
  ⟨r, [], defaultGconfig, 0, ⟨[], []⟩, uriparseCreate r.uri, defaultConfig, [], [], []⟩

/-- What a stage formats into `logbuffer`, and the state it leaves, or the call
of `display_error` that `main` returns with; `none` returns without one, or is
not defined in C. -/
abbrev StageResult := List CStr × Except (Option ErrorCall) MainState

/-- `return display_error(code)`, with `error_string` as it is. -/
def MainState.failWith (s : MainState) (code : Nat) (errorString : Option CStr) :
    Except (Option ErrorCall) MainState :=
  .error (some ⟨code, some s.run.uri, errorString, s.globals.lastvar, s.run.dir, s.run.env⟩)

/-- `return display_error(code)`. -/
def MainState.fail (s : MainState) (code : Nat) : Except (Option ErrorCall) MainState :=
  s.failWith code none

/-- The texts that are formatted where the level of the log is above `level`. -/
def MainState.above (s : MainState) (level : Int) (texts : List CStr) : List CStr :=
  if s.loglevel > level then texts else []

end Protohand
