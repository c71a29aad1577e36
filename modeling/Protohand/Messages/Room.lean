/-
  Protohand.Messages.Room
  ───────────────────────
  **HOW MUCH ROOM THE TEXTS OF `main` HAVE** in `logbuffer`.

    • `short_str`      — what is left for a string behind its label,
    • `exec_short_iff` — under which condition all texts of a stage fit
      (`MainStage.Fits`).
-/
import Protohand.Messages.Main

namespace Protohand

open Printf

/-! ## §1. One text. -/

/-- The text fits into `logbuffer`. -/
def Short (text : CStr) : Prop := text.length < logbufferSize

theorem length_int (n : Int) : (decimal 32 n).length ≤ 11 :=
  length_decimal_le (k := 10) (by decide) (by decide) n

/-- A text without conversions. -/
theorem short_fixed {fmt : List Char} {k : Nat} (hfmt : layout fmt = (k, []))
    (hk : k < logbufferSize) : Short (sprintf (String.ofList fmt) []) := by
  unfold Short
  rw [length_sprintf hfmt]
  simpa using hk

/-- An integer always fits. -/
theorem short_int {fmt : List Char} {k : Nat} (hfmt : layout fmt = (k, [.int]))
    (hk : k + 11 < logbufferSize) (n : Int) : Short (sprintf (String.ofList fmt) [.int n]) := by
  have hwidth := length_int n
  unfold Short
  rw [length_sprintf hfmt]
  show k + ((decimal 32 n).length + 0) < logbufferSize
  omega

theorem short_long {fmt : List Char} {k : Nat} (hfmt : layout fmt = (k, [.long]))
    (hk : k + 20 < logbufferSize) (n : Int) : Short (sprintf (String.ofList fmt) [.long n]) := by
  have hwidth : (decimal 64 n).length ≤ 20 :=
    length_decimal_le (k := 19) (by decide) (by decide) n
  unfold Short
  rw [length_sprintf hfmt]
  show k + ((decimal 64 n).length + 0) < logbufferSize
  omega

/-- **A string** has the room that the fixed characters leave. -/
theorem short_str {fmt : List Char} {k room : Nat} (hfmt : layout fmt = (k, [.str]))
    (hroom : k + room + 1 = logbufferSize) {v : CStr} :
    Short (sprintf (String.ofList fmt) [.str v]) ↔ v.length ≤ room := by
  unfold Short
  rw [length_sprintf hfmt]
  show k + (v.length + 0) < logbufferSize ↔ _
  omega

/-- Two strings share the room. -/
theorem short_str_str {fmt : List Char} {k room : Nat} (hfmt : layout fmt = (k, [.str, .str]))
    (hroom : k + room + 1 = logbufferSize) {v w : CStr} :
    Short (sprintf (String.ofList fmt) [.str v, .str w]) ↔ v.length + w.length ≤ room := by
  unfold Short
  rw [length_sprintf hfmt]
  show k + (v.length + (w.length + 0)) < logbufferSize ↔ _
  omega

theorem short_int_str {fmt : List Char} {k room : Nat} (hfmt : layout fmt = (k, [.int, .str]))
    (hroom : k + room + 1 = logbufferSize) {n : Int} {v : CStr} :
    Short (sprintf (String.ofList fmt) [.int n, .str v]) ↔ (decimal 32 n).length + v.length ≤ room := by
  unfold Short
  rw [length_sprintf hfmt]
  show k + ((decimal 32 n).length + (v.length + 0)) < logbufferSize ↔ _
  omega

theorem short_int_str_str {fmt : List Char} {k room : Nat}
    (hfmt : layout fmt = (k, [.int, .str, .str])) (hroom : k + room + 1 = logbufferSize)
    {n : Int} {v w : CStr} :
    Short (sprintf (String.ofList fmt) [.int n, .str v, .str w])
      ↔ (decimal 32 n).length + v.length + w.length ≤ room := by
  unfold Short
  rw [length_sprintf hfmt]
  show k + ((decimal 32 n).length + (v.length + (w.length + 0))) < logbufferSize ↔ _
  omega

/-- The start line, for any date. -/
theorem length_startFormat (year mon mday hour min sec : Int) (uri : CStr) :
    (sprintf "\r\n===> %d-%02d-%02d %02d:%02d:%02d, URI: '%s'"
        [.int year, .int mon, .int mday, .int hour, .int min, .int sec, .str uri]).length
      = 21 + ((decimal 32 year).length + ((pad2 (decimal 32 mon)).length
        + ((pad2 (decimal 32 mday)).length + ((pad2 (decimal 32 hour)).length
        + ((pad2 (decimal 32 min)).length + ((pad2 (decimal 32 sec)).length
        + uri.length)))))) := by
  exact length_sprintf rfl _

/-- **The start line**: all but the year and the URI is of one width. -/
theorem short_startLine (tm : Tm) (uri : CStr) :
    Short (startLine tm uri)
      ↔ (decimal 32 (tm.year + 1900)).length + uri.length ≤ 4064 := by
  -- `localtime` gives numbers of two digits
  have hmon := length_pad2 (n := tm.mon + 1) (by have := tm.mon_lt; omega)
  have hmday := length_pad2 (n := tm.mday) (by have := tm.mday_le; omega)
  have hhour := length_pad2 (n := tm.hour) (by have := tm.hour_lt; omega)
  have hmin := length_pad2 (n := tm.min) (by have := tm.min_lt; omega)
  have hsec := length_pad2 (n := tm.sec) (by have := tm.sec_le; omega)
  unfold Short startLine logbufferSize
  rw [length_startFormat, hmon, hmday, hhour, hmin, hsec]
  omega

/-! ## §2. Several texts. -/

theorem short_cons {t : CStr} {texts : List CStr} {p q : Prop} (ht : Short t ↔ p)
    (htexts : (∀ t ∈ texts, Short t) ↔ q) : (∀ t' ∈ t :: texts, Short t') ↔ p ∧ q :=
  List.forall_mem_cons.trans (and_congr ht htexts)

theorem short_skip {t : CStr} {texts : List CStr} {q : Prop} (ht : Short t)
    (htexts : (∀ t ∈ texts, Short t) ↔ q) : (∀ t' ∈ t :: texts, Short t') ↔ q := by
  rw [List.forall_mem_cons, htexts]
  exact and_iff_right ht

theorem short_append {texts texts' : List CStr} {p q : Prop} (h : (∀ t ∈ texts, Short t) ↔ p)
    (h' : (∀ t ∈ texts', Short t) ↔ q) : (∀ t ∈ texts ++ texts', Short t) ↔ p ∧ q :=
  List.forall_mem_append.trans (and_congr h h')

theorem short_nil : (∀ t ∈ ([] : List CStr), Short t) ↔ True :=
  iff_of_true (by simp) trivial

theorem short_single {t : CStr} {p : Prop} (ht : Short t ↔ p) :
    (∀ t' ∈ [t], Short t') ↔ p := by
  rw [List.forall_mem_singleton]
  exact ht

theorem short_above (s : MainState) (level : Int) {texts : List CStr} {p : Prop}
    (h : (∀ t ∈ texts, Short t) ↔ p) :
    (∀ t ∈ s.above level texts, Short t) ↔ (level < s.loglevel → p) := by
  unfold MainState.above
  by_cases hlevel : s.loglevel > level
  · rw [if_pos hlevel, h]
    exact ⟨fun hp _ => hp, fun hp => hp hlevel⟩
  · rw [if_neg hlevel]
    exact iff_of_true (by simp) (fun hlt => absurd hlt hlevel)

/-! ## §3. The dumps. -/

/-- The values of `global_configuration` fit behind their labels, but for the section. -/
structure GlobalRoom (cfg : GlobalConfiguration) : Prop where
  logPath : cfg.logPath.length ≤ 4085
  logLevel : cfg.logLevel.length ≤ 4084
  prefixHelp : cfg.prefixHelp.length ≤ 4082
  prefixCmd : cfg.prefixCmd.length ≤ 4083
  maxLogSizeBytes : cfg.maxLogSizeBytes.length ≤ 4075

/-- The parts of the URI fit. -/
structure UriRoom (parsed : TUri) : Prop where
  proto : parsed.proto.length ≤ 4082
  authority : parsed.authority.length ≤ 4082
  path : parsed.path.length ≤ 4082
  query : parsed.query.length ≤ 4082
  fragment : parsed.fragment.length ≤ 4082

/-- Every pair of the query fits, with its number. -/
def QueryRoom (nvquery : NvList) : Prop :=
  ∀ pi ∈ nvquery.pairs.zipIdx,
    (decimal 32 pi.2).length + pi.1.key.length + pi.1.value.length ≤ 4087

/-- The values of `configuration` fit behind their labels, but for the section. -/
structure ConfigRoom (config : Configuration) : Prop where
  allowedParams : config.allowedParams.length ≤ 4079
  pathParams : config.pathParams.length ≤ 4082
  replaceFile : config.replaceFile.length ≤ 4081
  replaceRegex : config.replaceRegex.length ≤ 4080
  cmd : config.cmd.length ≤ 4090
  userParam : config.userParam.length ≤ 4083
  cmdUsermatch : config.cmdUsermatch.length ≤ 4080
  cmdNousermatch : config.cmdNousermatch.length ≤ 4078
  fileMustExist : config.fileMustExist.length ≤ 4078
  fileMustExistError : config.fileMustExistError.length ≤ 4072

/-- Every entry of a list fits, with its number. -/
def ArrayRoom (array : Option StrArray) : Prop :=
  ∀ a ∈ array, ∀ item ∈ a.elems.zipIdx, (decimal 32 item.2).length + item.1.length ≤ 4090

theorem globalDump_short (cfg : GlobalConfiguration) :
    (∀ t ∈ globalDump cfg, Short t) ↔ cfg.sect.length ≤ 4086 ∧ GlobalRoom cfg := by
  have hdump : (∀ t ∈ globalDump cfg, Short t) ↔ cfg.sect.length ≤ 4086
      ∧ cfg.logPath.length ≤ 4085 ∧ cfg.logLevel.length ≤ 4084 ∧ cfg.prefixHelp.length ≤ 4082
      ∧ cfg.prefixCmd.length ≤ 4083 ∧ cfg.maxLogSizeBytes.length ≤ 4075 ∧ True :=
    short_cons (short_str rfl rfl) <| short_cons (short_str rfl rfl) <|
    short_cons (short_str rfl rfl) <| short_cons (short_str rfl rfl) <|
    short_cons (short_str rfl rfl) <| short_cons (short_str rfl rfl) <|
    short_skip (short_int rfl (by decide) cfg.found) short_nil
  rw [hdump]
  constructor
  · intro ⟨hsect, hpath, hlevel, hhelp, hcmd, hmax, _⟩
    exact ⟨hsect, hpath, hlevel, hhelp, hcmd, hmax⟩
  · intro ⟨hsect, h⟩
    exact ⟨hsect, h.logPath, h.logLevel, h.prefixHelp, h.prefixCmd, h.maxLogSizeBytes, trivial⟩

theorem uriDump_short (parsed : TUri) : (∀ t ∈ uriDump parsed, Short t) ↔ UriRoom parsed := by
  -- the positions always fit
  have hdump : (∀ t ∈ uriDump parsed, Short t) ↔ parsed.proto.length ≤ 4082
      ∧ parsed.authority.length ≤ 4082 ∧ parsed.path.length ≤ 4082 ∧ parsed.query.length ≤ 4082
      ∧ parsed.fragment.length ≤ 4082 ∧ True :=
    short_skip (short_int rfl (by decide) parsed.pos.start) <|
    short_skip (short_int rfl (by decide) parsed.pos.proto) <|
    short_skip (short_int rfl (by decide) parsed.pos.authority) <|
    short_skip (short_int rfl (by decide) parsed.pos.path) <|
    short_skip (short_int rfl (by decide) parsed.pos.query) <|
    short_skip (short_int rfl (by decide) parsed.pos.fragment) <|
    short_skip (short_int rfl (by decide) parsed.pos.fend) <|
    short_cons (short_str rfl rfl) <| short_cons (short_str rfl rfl) <|
    short_cons (short_str rfl rfl) <| short_cons (short_str rfl rfl) <|
    short_cons (short_str rfl rfl) short_nil
  rw [hdump]
  constructor
  · intro ⟨hproto, hauthority, hpath, hquery, hfragment, _⟩
    exact ⟨hproto, hauthority, hpath, hquery, hfragment⟩
  · intro h
    exact ⟨h.proto, h.authority, h.path, h.query, h.fragment, trivial⟩

theorem queryDump_short (nvquery : NvList) :
    (∀ t ∈ queryDump nvquery, Short t) ↔ QueryRoom nvquery := by
  unfold queryDump QueryRoom
  rw [List.forall_mem_map]
  constructor
  · intro h pi hpi
    exact (short_int_str_str rfl rfl).mp (h pi hpi)
  · intro h pi hpi
    exact (short_int_str_str rfl rfl).mpr (h pi hpi)

theorem configDump_short (config : Configuration) :
    (∀ t ∈ configDump config, Short t) ↔ config.sect.length ≤ 4086 ∧ ConfigRoom config := by
  have hdump : (∀ t ∈ configDump config, Short t) ↔ config.sect.length ≤ 4086
      ∧ config.allowedParams.length ≤ 4079 ∧ config.pathParams.length ≤ 4082
      ∧ config.replaceFile.length ≤ 4081 ∧ config.replaceRegex.length ≤ 4080
      ∧ config.cmd.length ≤ 4090 ∧ config.userParam.length ≤ 4083
      ∧ config.cmdUsermatch.length ≤ 4080 ∧ config.cmdNousermatch.length ≤ 4078
      ∧ config.fileMustExist.length ≤ 4078 ∧ config.fileMustExistError.length ≤ 4072 ∧ True :=
    short_cons (short_str rfl rfl) <| short_cons (short_str rfl rfl) <|
    short_cons (short_str rfl rfl) <| short_cons (short_str rfl rfl) <|
    short_cons (short_str rfl rfl) <| short_cons (short_str rfl rfl) <|
    short_cons (short_str rfl rfl) <| short_cons (short_str rfl rfl) <|
    short_cons (short_str rfl rfl) <| short_cons (short_str rfl rfl) <|
    short_cons (short_str rfl rfl) <|
    short_skip (short_int rfl (by decide) config.found) short_nil
  rw [hdump]
  constructor
  · intro ⟨hsect, hallowed, hpath, hfile, hregex, hcmd, huser, hmatch, hnomatch, hexist, herror,
      _⟩
    exact ⟨hsect, hallowed, hpath, hfile, hregex, hcmd, huser, hmatch, hnomatch, hexist, herror⟩
  · intro ⟨hsect, h⟩
    exact ⟨hsect, h.allowedParams, h.pathParams, h.replaceFile, h.replaceRegex, h.cmd,
      h.userParam, h.cmdUsermatch, h.cmdNousermatch, h.fileMustExist, h.fileMustExistError,
      trivial⟩

theorem arrayDump_short {label : List Char} {k : Nat} (hlabel : layout label = (k, [.int]))
    (hk : k + 11 < logbufferSize) (array : Option StrArray) :
    (∀ t ∈ arrayDump (String.ofList label) array, Short t) ↔ ArrayRoom array := by
  unfold arrayDump ArrayRoom
  cases array with
  | none => exact iff_of_true (by simp) (by simp)
  | some a =>
      dsimp only
      rw [List.forall_mem_cons, List.forall_mem_map, and_iff_right (short_int hlabel hk a.length)]
      constructor
      · intro h a' ha' item hitem
        obtain rfl := Option.some.inj ha'
        exact (short_int_str rfl rfl).mp (h item hitem)
      · intro h item hitem
        exact (short_int_str rfl rfl).mpr (h a rfl item hitem)

/-! ## §4. The stages. -/

/-- What a directive is expanded to fits behind its label. -/
def Expansion.Fits (e : Expansion) (room : Nat) (s : MainState) : Prop :=
  ∀ r, s.expand e.which (e.query s) (e.get s) = some r → r.ret = 0 → 1 < s.loglevel →
    r.str.length ≤ room

/-- What a command is expanded to fits, or the name that could not be expanded. -/
def CommandFits (which : Expanded) (str : CStr) (room : Nat) (s : MainState) : Prop :=
  ∀ r, s.expand which s.uriParsed.nvquery str = some r →
    if r.ret ≠ 0 then
      (errstr (r.ret + 32)).length + r.globals.expandvarErrVarName.length ≤ 4085
    else 1 < s.loglevel → r.str.length ≤ room

/-- The texts of a stage fit, in the state it starts from. -/
def MainStage.Fits : MainStage → MainState → Prop
  | startLog, s =>
      (decimal 32 (s.run.tm.year + 1900)).length + s.run.uri.length ≤ 4064
        ∧ (2 < s.loglevel → s.cfg.sect.length ≤ 4086 ∧ GlobalRoom s.cfg)
        ∧ s.run.dir.length ≤ 4074 ∧ (s.run.iniFile.getD []).length ≤ 4074
  | parseUri, s => ∀ r, uriparseParse s.run.uriMem s.run.uri (uriparseCreate s.run.uri) = some r →
      if r.1 ≠ 0 then
        (decimal 32 r.1).length + (uriErrorText r.1).length + s.run.uri.length ≤ 4074
      else 2 < s.loglevel → UriRoom r.2 ∧ (3 < s.loglevel → QueryRoom r.2.nvquery)
  | readSection, s => (sectionName s.uriParsed).length ≤ 4072
  | checkSection, s =>
      (2 < s.loglevel → (s.config.sect.length ≤ 4086 ∧ ConfigRoom s.config)
        ∧ (3 < s.loglevel → ArrayRoom s.config.lpadzero ∧ ArrayRoom s.config.ltrimzero))
        ∧ (s.config.found = 0 → (sectionName s.uriParsed).length ≤ 4070)
  | chooseCmd, s => s.config.userParam ≠ [] →
      match s.userPair with
      | none => s.config.userParam.length ≤ 4049
      | some pair => pair.key.length + pair.value.length ≤ 4079
  | expandDefaultPath, s => Protohand.expandDefaultPath.Fits 4072 s
  | expandReplaceFile, s => Protohand.expandReplaceFile.Fits 4072 s
  | expandFileMustExist, s => Protohand.expandFileMustExist.Fits 4069 s
  | replaceInFile, s => s.config.replaceFile ≠ [] →
      (1 < s.loglevel →
        s.config.replaceFile.length ≤ 4077 ∧ s.config.replaceRegex.length ≤ 4087)
        ∧ (s.config.replaceRegex ≠ [] → ∀ file ret fs,
          cmdunquote s.config.replaceFile = some file →
          replace s.run.io s.run.regexReplace s.run.regerrno s.run.fs file
            s.config.replaceRegex = some (ret, fs) →
          ret ≠ 0 → file.length + s.config.replaceRegex.length ≤ 4068)
  | transformQuery, s => s.transforms.ret ≠ 0 → s.transforms.lastPadded.length ≤ 4060
  | expandCmd, s => CommandFits .cmd s.runCmd 4081 s
  | expandPrecmd, s => s.preRunCmd ≠ [] → CommandFits .precmd s.preRunCmd 4078 s
  | checkExe, s =>
      if s.run.isExecutable (getexe s.cmd) = true then (getexe s.cmd).length ≤ 4076
      else (getexe s.cmd).length ≤ 4077
  | checkMode, _ | readConfig, _ | expandLogPath, _ | expandPrefixHelp, _ | expandPrefixCmd, _
  | openLog, _ | checkFile, _ | cleanLogfile, _ => True

theorem expansion_short {e : Expansion} {label : List Char} {k room : Nat}
    (hlabel : e.label = some (String.ofList label)) (hfmt : layout label = (k, [.str]))
    (hroom : k + room + 1 = logbufferSize) (s : MainState) :
    (∀ t ∈ (e.exec s).1, Short t) ↔ e.Fits room s := by
  unfold Expansion.exec Expansion.Fits
  rw [hlabel]
  cases hexpand : s.expand e.which (e.query s) (e.get s) with
  | none => exact iff_of_true (by simp) (by simp)
  | some r =>
      dsimp only
      by_cases hret : r.ret = 0
      · rw [if_neg (not_not_intro hret)]
        show (∀ t ∈ MainState.above _ 1 [sprintf (String.ofList label) [.str r.str]], Short t) ↔ _
        rw [short_above _ 1 (short_single (short_str hfmt hroom))]
        constructor
        · intro h r' hr' _
          exact Option.some.inj hr' ▸ h
        · intro h
          exact h r rfl hret
      · -- a failed expansion is not logged
        rw [if_pos hret]
        refine iff_of_true (by simp) ?_
        intro r' hr' hret'
        exact absurd (Option.some.inj hr' ▸ hret') hret

/-- Without a label nothing is formatted. -/
theorem expansion_silent {e : Expansion} (hlabel : e.label = none) (s : MainState) :
    ∀ t ∈ (e.exec s).1, Short t := by
  unfold Expansion.exec
  rw [hlabel]
  cases s.expand e.which (e.query s) (e.get s) with
  | none => simp
  | some r =>
      dsimp only
      split_ifs <;> simp [MainState.above]

theorem command_short {which : Expanded} {label : List Char} {k room : Nat}
    (hfmt : layout label = (k, [.str])) (hroom : k + room + 1 = logbufferSize) (str : CStr)
    (set : MainState → CStr → MainState) (s : MainState) :
    (∀ t ∈ (expandCommand which (String.ofList label) str set s).1, Short t)
      ↔ CommandFits which str room s := by
  unfold expandCommand CommandFits
  cases hexpand : s.expand which s.uriParsed.nvquery str with
  | none => exact iff_of_true (by simp) (by simp)
  | some r =>
      simp only [Option.some.injEq, forall_eq']
      by_cases hret : r.ret = 0
      · rw [if_neg (not_not_intro hret), if_neg (not_not_intro hret)]
        exact short_above _ 1 (short_single (short_str hfmt hroom))
      · rw [if_pos hret, if_pos hret]
        exact short_single (short_str_str rfl rfl)

theorem startLog_short (s : MainState) :
    (∀ t ∈ (startLog s).1, Short t) ↔ MainStage.startLog.Fits s := by
  have hstart := short_single (short_startLine s.run.tm s.run.uri)
  have hdump := short_above s 2 (globalDump_short s.cfg)
  have hfiles : (∀ t ∈ [sprintf "Current working dir: %s" [.str s.run.dir],
      sprintf "Current ini file:    %s" [.str (s.run.iniFile.getD [])]], Short t)
      ↔ s.run.dir.length ≤ 4074 ∧ (s.run.iniFile.getD []).length ≤ 4074 :=
    short_cons (short_str rfl rfl) (short_single (short_str rfl rfl))
  unfold startLog MainStage.Fits
  rw [short_append (short_append hstart hdump) hfiles, and_assoc]

theorem parseUri_short (s : MainState) :
    (∀ t ∈ (parseUri s).1, Short t) ↔ MainStage.parseUri.Fits s := by
  unfold parseUri MainStage.Fits
  dsimp only
  cases hparse : uriparseParse s.run.uriMem s.run.uri (uriparseCreate s.run.uri) with
  | none => exact iff_of_true (by simp) (by simp)
  | some result =>
      obtain ⟨res, parsed⟩ := result
      simp only [Option.some.injEq, forall_eq']
      by_cases hres : res = 0
      · rw [if_neg (not_not_intro hres), if_neg (not_not_intro hres)]
        exact short_above s 2 (short_append (uriDump_short parsed)
          (short_above s 3 (queryDump_short parsed.nvquery)))
      · rw [if_pos hres, if_pos hres]
        exact short_single (short_int_str_str rfl rfl)

theorem readSection_short (s : MainState) :
    (∀ t ∈ (readSection s).1, Short t) ↔ MainStage.readSection.Fits s := by
  have hreading : Short (sprintf "Reading ini section: [%s]" [.str (sectionName s.uriParsed)])
      ↔ (sectionName s.uriParsed).length ≤ 4072 := short_str rfl rfl
  have hreturn : ∀ n : Int, Short (sprintf "ini_parse() return code: %d" [.int n]) :=
    short_int rfl (by decide)
  have htexts : ∀ n : Int, (∀ t ∈ [sprintf "Reading ini section: [%s]"
      [.str (sectionName s.uriParsed)], sprintf "ini_parse() return code: %d" [.int n]], Short t)
      ↔ (sectionName s.uriParsed).length ≤ 4072 := by
    intro n
    exact (short_cons hreading (short_skip (hreturn n) short_nil)).trans (and_iff_left trivial)
  unfold readSection MainStage.Fits
  dsimp only
  split_ifs
  · exact htexts _
  · exact htexts _

theorem checkSection_short (s : MainState) :
    (∀ t ∈ (checkSection s).1, Short t) ↔ MainStage.checkSection.Fits s := by
  have hlpad : (∀ t ∈ arrayDump "lpadzero: %d" s.config.lpadzero, Short t)
      ↔ ArrayRoom s.config.lpadzero := arrayDump_short rfl (by decide) s.config.lpadzero
  have hltrim : (∀ t ∈ arrayDump "ltrimzero: %d" s.config.ltrimzero, Short t)
      ↔ ArrayRoom s.config.ltrimzero := arrayDump_short rfl (by decide) s.config.ltrimzero
  have hlists := short_above s 3 (short_append hlpad hltrim)
  have hdump := short_above s 2 (short_append (configDump_short s.config) hlists)
  unfold checkSection MainStage.Fits
  dsimp only
  by_cases hfound : s.config.found = 0
  · rw [if_pos hfound, forall_prop_of_true hfound]
    exact short_append hdump (short_single (short_str rfl rfl))
  · rw [if_neg hfound, hdump]
    exact (and_iff_left (fun h => absurd h hfound)).symm

theorem chosen_texts (s : MainState) (texts : List CStr) (runCmd preRunCmd : CStr) :
    (chosen s texts runCmd preRunCmd).1 = texts := by
  unfold chosen
  split_ifs <;> rfl

theorem chooseCmd_short (s : MainState) :
    (∀ t ∈ (chooseCmd s).1, Short t) ↔ MainStage.chooseCmd.Fits s := by
  unfold chooseCmd MainStage.Fits
  by_cases huser : s.config.userParam = []
  · -- without a `user_param` nothing is formatted
    rw [if_pos huser, chosen_texts]
    exact iff_of_true (by simp) (fun h => absurd huser h)
  · rw [if_neg huser]
    refine Iff.trans ?_ ⟨fun h _ => h, fun h => h huser⟩
    cases s.userPair with
    | none => exact short_single (short_str rfl rfl)
    | some pair =>
        have htexts : (∀ t ∈ [sprintf "user_param '%s'='%s'" [.str pair.key, .str pair.value]],
            Short t) ↔ pair.key.length + pair.value.length ≤ 4079 :=
          short_single (short_str_str rfl rfl)
        dsimp only
        cases s.run.env (bytes "USERNAME") with
        | none => exact htexts
        | some username =>
            dsimp only
            split_ifs
            · rw [chosen_texts]
              exact htexts
            · rw [chosen_texts]
              exact htexts

theorem replaceInFile_short (s : MainState) :
    (∀ t ∈ (replaceInFile s).1, Short t) ↔ MainStage.replaceInFile.Fits s := by
  have hin : Short (sprintf "Regex replace in: %s" [.str s.config.replaceFile])
      ↔ s.config.replaceFile.length ≤ 4077 := short_str rfl rfl
  have hregexp : Short (sprintf "Regex : %s" [.str s.config.replaceRegex])
      ↔ s.config.replaceRegex.length ≤ 4087 := short_str rfl rfl
  have hdump := short_above s 1 (short_cons hin (short_single hregexp))
  unfold replaceInFile MainStage.Fits
  by_cases hfile : s.config.replaceFile = []
  · rw [if_pos hfile]
    exact iff_of_true (by simp) (fun h => absurd hfile h)
  · rw [if_neg hfile]
    refine Iff.trans ?_ ⟨fun h _ => h, fun h => h hfile⟩
    dsimp only
    by_cases hregex : s.config.replaceRegex = []
    · rw [if_pos hregex, short_append hdump (short_skip (short_fixed rfl (by decide)) short_nil)]
      exact and_congr_right' (iff_of_true trivial (fun h => absurd hregex h))
    · rw [if_neg hregex]
      cases hunquote : cmdunquote s.config.replaceFile with
      | none => exact hdump.trans (and_iff_left (by simp)).symm
      | some file =>
          dsimp only
          cases hreplace : replace s.run.io s.run.regexReplace s.run.regerrno s.run.fs file
              s.config.replaceRegex with
          | none =>
              refine hdump.trans (and_iff_left ?_).symm
              intro _ file' ret fs hfile' hreplace'
              rw [← Option.some.inj hfile', hreplace] at hreplace'
              cases hreplace'
          | some result =>
              obtain ⟨ret, fs⟩ := result
              dsimp only
              by_cases hret : ret = 0
              · -- only a code that is not 0 makes a third text
                rw [if_neg (not_not_intro hret)]
                refine hdump.trans (and_iff_left ?_).symm
                intro _ file' ret' fs' hfile' hreplace' hret'
                rw [← Option.some.inj hfile', hreplace] at hreplace'
                injection hreplace' with hreplace'
                injection hreplace' with hsame
                exact absurd (hsame ▸ hret) hret'
              · have herror : Short (sprintf "Error regex replacing %s in %s."
                    [.str file, .str s.config.replaceRegex])
                    ↔ file.length + s.config.replaceRegex.length ≤ 4068 := short_str_str rfl rfl
                rw [if_pos hret, short_append hdump (short_single herror)]
                refine and_congr_right' ⟨?_, fun h => h hregex file ret fs rfl hreplace hret⟩
                intro h _ file' ret' fs' hfile' _ _
                exact Option.some.inj hfile' ▸ h

theorem transformQuery_short (s : MainState) :
    (∀ t ∈ (transformQuery s).1, Short t) ↔ MainStage.transformQuery.Fits s := by
  unfold transformQuery MainStage.Fits
  dsimp only
  by_cases hret : s.transforms.ret = 0
  · rw [if_neg (not_not_intro hret)]
    exact iff_of_true (by simp) (fun h => absurd hret h)
  · rw [if_pos hret, forall_prop_of_true hret]
    exact short_single (short_str rfl rfl)

theorem expandPrecmd_short (s : MainState) :
    (∀ t ∈ (expandPrecmd s).1, Short t) ↔ MainStage.expandPrecmd.Fits s := by
  unfold expandPrecmd MainStage.Fits
  dsimp only
  by_cases hpre : s.preRunCmd = []
  · rw [if_pos hpre]
    exact iff_of_true (by simp) (fun h => absurd hpre h)
  · rw [if_neg hpre, forall_prop_of_true hpre]
    exact command_short rfl rfl s.preRunCmd (fun s _ => s) s

theorem checkExe_short (s : MainState) :
    (∀ t ∈ (checkExe s).1, Short t) ↔ MainStage.checkExe.Fits s := by
  unfold checkExe MainStage.Fits
  dsimp only
  split_ifs
  · exact short_single (short_str rfl rfl)
  · exact short_single (short_str rfl rfl)

theorem readConfig_short (s : MainState) : ∀ t ∈ (readConfig s).1, Short t := by
  unfold readConfig
  split_ifs
  · simp
  · simp
  · cases s.run.iniContent with
    | none => simp
    | some ini_content =>
        dsimp only
        split_ifs
        · exact (short_skip (short_int rfl (by decide) _) short_nil).mpr trivial
        · simp

theorem cleanLogfile_short (s : MainState) : ∀ t ∈ (cleanLogfile s).1, Short t := by
  have hsize : ∀ t ∈ [sprintf "logfile size: %ld" [.long s.run.logSize]], Short t :=
    (short_skip (short_long rfl (by decide) _) short_nil).mpr trivial
  have htruncate : ∀ t ∈ (if s.run.logSize > logLength s.cfg.maxLogSizeBytes then
      [sprintf "Truncating logfile" []] else []), Short t := by
    split_ifs
    · exact (short_skip (short_fixed rfl (by decide)) short_nil).mpr trivial
    · simp
  unfold cleanLogfile
  by_cases hlevel : s.loglevel = 0
  · rw [if_pos hlevel]
    simp
  · rw [if_neg hlevel]
    exact (short_above s 2 (short_append (iff_true_intro hsize) (iff_true_intro htruncate))).mpr
      (fun _ => ⟨trivial, trivial⟩)

/-- **One stage**: what it formats has to fit behind its labels. -/
theorem exec_short_iff (k : MainStage) (s : MainState) :
    (∀ t ∈ (k.exec s).1, Short t) ↔ k.Fits s := by
  cases k with
  | checkMode =>
      refine iff_of_true ?_ trivial
      show ∀ t ∈ (checkMode s).1, Short t
      unfold checkMode
      split_ifs <;> simp
  | readConfig => exact iff_of_true (readConfig_short s) trivial
  | expandLogPath => exact iff_of_true (expansion_silent rfl s) trivial
  | expandPrefixHelp => exact iff_of_true (expansion_silent rfl s) trivial
  | expandPrefixCmd => exact iff_of_true (expansion_silent rfl s) trivial
  | openLog =>
      refine iff_of_true ?_ trivial
      show ∀ t ∈ (openLog s).1, Short t
      unfold openLog
      split
      · simp
      · split_ifs <;> simp
  | startLog => exact startLog_short s
  | parseUri => exact parseUri_short s
  | readSection => exact readSection_short s
  | checkSection => exact checkSection_short s
  | chooseCmd => exact chooseCmd_short s
  | expandDefaultPath => exact expansion_short rfl rfl rfl s
  | expandReplaceFile => exact expansion_short rfl rfl rfl s
  | expandFileMustExist => exact expansion_short rfl rfl rfl s
  | checkFile =>
      refine iff_of_true ?_ trivial
      show ∀ t ∈ (checkFile s).1, Short t
      unfold checkFile
      split_ifs
      · simp
      · split
        · simp
        · split_ifs <;> simp
  | replaceInFile => exact replaceInFile_short s
  | transformQuery => exact transformQuery_short s
  | expandCmd => exact command_short rfl rfl s.runCmd _ s
  | expandPrecmd => exact expandPrecmd_short s
  | checkExe => exact checkExe_short s
  | cleanLogfile => exact iff_of_true (cleanLogfile_short s) trivial

end Protohand
