/-
  Protohand.Messages.Fit
  ──────────────────────
  **WHICH MESSAGES FIT INTO THEIR BUFFERS.**

  `display_error` looks at the length of the command line when it has already
  written it, so an over-long one is rejected too late.

    • `params_fit_iff`, `rejected_in_time_iff` — the command line of one call,
      by the lengths of what it is made of,
    • `main_call`        — what `main` calls `display_error` with,
    • `messages_fit_iff` — all the texts of a run.
-/
import Protohand.Messages.Inputs

namespace Protohand

open Printf

/-! ## §1. Escaping. -/

/-- The characters that `curl_escape` leaves alone. -/
def unreserved (c : UInt8) : Bool :=
  (ascii 'a' ≤ c && c ≤ ascii 'z') || (ascii 'A' ≤ c && c ≤ ascii 'Z')
    || (ascii '0' ≤ c && c ≤ ascii '9')
    || c == ascii '-' || c == ascii '.' || c == ascii '_' || c == ascii '~'

/-- The length of an escaped text: three characters for any other byte. -/
def escapedLength (s : CStr) : Nat := s.length + 2 * s.countP (fun c => !unreserved c)

/-- One hexadecimal digit. -/
def hexChar (d : UInt8) : UInt8 := if d < 10 then ascii '0' + d else ascii 'A' + (d - 10)

/-- A text with its reserved characters escaped as `%XX`. -/
def percentEscape (s : CStr) : CStr :=
  s.flatMap (fun c =>
    if unreserved c = true then [c] else [ascii '%', hexChar (c / 16), hexChar (c % 16)])

theorem length_percentEscape (s : CStr) : (percentEscape s).length = escapedLength s := by
  unfold percentEscape escapedLength
  induction s with
  | nil => rfl
  | cons c s ih =>
      rw [List.flatMap_cons, List.length_append, ih, List.countP_cons, List.length_cons]
      cases hc : unreserved c with
      | true =>
          show 1 + (s.length + 2 * s.countP _) = s.length + 1 + 2 * (s.countP _ + 0)
          omega
      | false =>
          show 3 + (s.length + 2 * s.countP _) = s.length + 1 + 2 * (s.countP _ + 1)
          omega

/-! ## §2. One call of `display_error`. -/

/-- The characters of the command line that depend on the call. -/
def ErrorCall.messageLength (call : ErrorCall) : Nat :=
  call.proto.length + call.phHome.length + (decimal 32 call.code).length
    + escapedLength (call.url.getD []) + escapedLength (call.errorString.getD [])
    + escapedLength call.hostname
    + (if call.namesVariable = true then call.lastvar.length else 0)

/-- Everything `display_error` formats fits. -/
def DisplayFits (curlEscape : CStr → CStr) (call : ErrorCall) : Prop :=
  ∀ f ∈ (displayError curlEscape call).1, f.Fits

theorem fits_params {text : CStr} : (Formatted.params text).Fits ↔ text.length < paramsSize :=
  Iff.rfl

theorem fits_logbuffer {text : CStr} : (Formatted.logbuffer text).Fits ↔ Short text := Iff.rfl

/-- A command line that is too long is not written. -/
def RejectedInTime (curlEscape : CStr → CStr) (call : ErrorCall) : Prop :=
  ∀ text, .params text ∈ (displayError curlEscape call).1 → text.length ≤ CMD_MAX - 15

theorem length_bytes_le {chars : List Char} {n : Nat} (h : chars.length ≤ n) :
    (bytes (String.ofList chars)).length ≤ n := by
  unfold bytes
  rwa [List.length_map, String.toList_ofList]

set_option maxRecDepth 2000 in
theorem length_messages_le : ∀ p ∈ errorMessages, (bytes p.2).length ≤ 200 := by
  unfold errorMessages
  repeat
    refine List.forall_mem_cons.mpr ⟨length_bytes_le (by decide +kernel), ?_⟩
  exact fun p hp => absurd hp List.not_mem_nil

theorem length_errstr_le (code : Nat) : (errstr code).length ≤ 200 := by
  unfold errstr
  cases hcode : errorMessages.lookup code with
  | none => exact length_bytes_le (by decide)
  | some message =>
      obtain ⟨before, after, hsplit, -⟩ := List.lookup_eq_some_iff.mp hcode
      exact length_messages_le (code, message) (by rw [hsplit]; simp)

/-- The format of the command line, for any parts. -/
theorem length_urlFormat (proto home url str host : CStr) (code : Int) :
    (sprintf "\"%s%serror.html?code=%d&url=%s&str=%s&hostname=%s&var="
        [.str proto, .str home, .int code, .str url, .str str, .str host]).length
      = 42 + (proto.length + (home.length + ((decimal 32 code).length
        + (url.length + (str.length + host.length))))) := by
  exact length_sprintf rfl _

/-- The three texts of `params` grow. -/
theorem params_grow (curlEscape : CStr → CStr) (call : ErrorCall) :
    (call.params curlEscape).length ≤ (call.namedParams curlEscape).length
      ∧ (call.quotedParams curlEscape).length = (call.namedParams curlEscape).length + 1 := by
  unfold ErrorCall.quotedParams
  refine ⟨?_, List.length_append⟩
  unfold ErrorCall.namedParams
  rw [List.length_append]
  omega

section Display

variable {curlEscape : CStr → CStr}
  (hescape : ∀ s, (curlEscape s).length = escapedLength s)

include hescape

/-- An escaped text that may be missing. -/
theorem length_escaped (text : Option CStr) :
    ((text.map curlEscape).getD []).length = escapedLength (text.getD []) := by
  cases text with
  | none => rfl
  | some s => exact hescape s

/-- **How long the command line is**: 43 characters of the format, and what
depends on the call. -/
theorem length_quotedParams (call : ErrorCall) :
    (call.quotedParams curlEscape).length = 43 + call.messageLength := by
  have hparams : (call.params curlEscape).length = 42 + (call.proto.length
      + (call.phHome.length + ((decimal 32 call.code).length
      + (escapedLength (call.url.getD []) + (escapedLength (call.errorString.getD [])
      + escapedLength call.hostname))))) := by
    rw [← length_escaped hescape, ← length_escaped hescape, ← hescape]
    exact length_urlFormat _ _ _ _ _ _
  have hvar : (if call.namesVariable = true then call.lastvar else []).length
      = if call.namesVariable = true then call.lastvar.length else 0 := by
    split_ifs <;> rfl
  unfold ErrorCall.quotedParams ErrorCall.namedParams ErrorCall.messageLength
  rw [List.length_append, List.length_append, hparams, hvar]
  show _ + 1 = _
  omega

/-- **The command line fits** if there is room for what depends on the call. -/
theorem params_fit_iff (call : ErrorCall) :
    DisplayFits curlEscape call ↔ call.messageLength ≤ 3956 := by
  have hquoted := length_quotedParams hescape call
  have hgrows := params_grow curlEscape call
  -- the second text of `logbuffer` always fits
  have herror : Short (sprintf "Error: %d, %s" [.int call.code, .str (errstr call.code)]) := by
    have hcode := length_int call.code
    have htext := length_errstr_le call.code
    have hroom : Short (sprintf "Error: %d, %s" [.int call.code, .str (errstr call.code)])
        ↔ (decimal 32 call.code).length + (errstr call.code).length ≤ 4086 := short_int_str rfl rfl
    exact hroom.mpr (by omega)
  have hstring : Short (sprintf "Error string: %s" [.str (call.quotedParams curlEscape)])
      ↔ (call.quotedParams curlEscape).length ≤ 4081 := short_str rfl rfl
  have hfirst : (∀ f ∈ ([.params (call.params curlEscape), .params (call.namedParams curlEscape),
      .params (call.quotedParams curlEscape),
      .logbuffer (sprintf "Error string: %s" [.str (call.quotedParams curlEscape)])] :
        List Formatted), f.Fits) ↔ call.messageLength ≤ 3956 := by
    rw [List.forall_mem_cons, List.forall_mem_cons, List.forall_mem_cons,
      List.forall_mem_singleton, fits_params, fits_params, fits_params, fits_logbuffer, hstring]
    unfold paramsSize
    omega
  unfold DisplayFits displayError
  dsimp only
  split_ifs
  · exact hfirst
  · rw [List.forall_mem_append, hfirst]
    rw [List.forall_mem_singleton, fits_logbuffer]
    exact and_iff_left herror

/-- **The check comes in time** only for a command line that passes it. -/
theorem rejected_in_time_iff (call : ErrorCall) :
    RejectedInTime curlEscape call ↔ call.messageLength ≤ 1989 := by
  have hquoted := length_quotedParams hescape call
  have hgrows := params_grow curlEscape call
  have hmem : ∀ text, .params text ∈ (displayError curlEscape call).1
      ↔ text = call.params curlEscape ∨ text = call.namedParams curlEscape
        ∨ text = call.quotedParams curlEscape := by
    intro text
    unfold displayError
    dsimp only
    split_ifs <;> simp
  unfold RejectedInTime CMD_MAX
  simp only [hmem, forall_eq_or_imp, forall_eq]
  omega

end Display

/-! ## §3. The calls of `main`. -/

/-- A stage that exits calls `display_error` with the URI, the directory and the
environment of the run. -/
def CallsOf (r : MainRun) (x : StageResult) : Prop :=
  match x.2 with
  | .ok _ => True
  | .error e => ∀ call ∈ e, call.url = some r.uri ∧ call.phHome = r.dir ∧ call.getenv = r.env

theorem callsOf_none (r : MainRun) (texts : List CStr) : CallsOf r (texts, .error none) := by
  intro call hcall
  cases hcall

theorem callsOf_failWith (s : MainState) (texts : List CStr) (code : Nat)
    (errorString : Option CStr) : CallsOf s.run (texts, s.failWith code errorString) := by
  intro call hcall
  rw [← Option.some.inj hcall]
  exact ⟨rfl, rfl, rfl⟩

theorem exec_callsOf (k : MainStage) (s : MainState) : CallsOf s.run (k.exec s) := by
  -- every branch goes on, returns, or fails
  cases k <;>
    simp only [MainStage.exec, checkMode, readConfig, Expansion.exec, openLog, startLog, parseUri,
      readSection, checkSection, chooseCmd, chosen, checkFile, replaceInFile, transformQuery,
      expandCmd, expandPrecmd, expandCommand, checkExe, cleanLogfile] <;>
    (repeat' split) <;>
    first
      | trivial
      | exact callsOf_none s.run _
      | exact callsOf_failWith s _ _ _
      | exact callsOf_failWith { s with globals := _ } _ _ _

theorem exec_call {r : MainRun} (k : MainStage) (s : MainState) (e : Option ErrorCall)
    (hs : s.Of r) (he : (k.exec s).2 = .error e) :
    ∀ call ∈ e, call.url = some r.uri ∧ call.phHome = r.dir ∧ call.getenv = r.env := by
  have hcalls := exec_callsOf k s
  unfold CallsOf at hcalls
  rw [he, hs.run] at hcalls
  exact hcalls

/-- **What `main` calls `display_error` with**: its URI, its directory and its
environment. -/
theorem main_call {r : MainRun} {call : ErrorCall} (h : (main r).2 = .error (some call)) :
    call = ⟨call.code, some r.uri, call.errorString, call.lastvar, r.dir, r.env⟩ := by
  have hcall := Stages.run_exit (fun s => s.Of r) _ (fun _ _ _ hs ht => exec_of hs ht) exec_call
    (init_of r) h call rfl
  rw [← hcall.1, ← hcall.2.1, ← hcall.2.2]

/-! ## §4. All the messages of a run. -/

/-- The texts of `main` fit into `logbuffer`. -/
def MessagesFit (r : MainRun) : Prop := ∀ text ∈ (main r).1, Short text

/-- A run that has everything but a section for its URI. -/
def plainRun (uri : CStr) : MainRun where
  uri := uri
  configArg := none
  dir := bytes "C:/ph/"
  getenv name :=
    if name = bytes "APPDATA" ∨ name = bytes "windir" then some (bytes "C:/data") else none
  fileExists _ := true
  downloadRet := 0
  iniContent := some []
  logOpens _ := true
  tm := ⟨118, 0, 1, 0, 0, 0, by decide, by decide, by decide, by decide, by decide⟩
  fresh _ := ⟨[], 0⟩
  uriMem := ⟨[], [], []⟩
  expandMem _ := plainMem
  io := faultless
  regexReplace := yForX
  regerrno := 0
  fs _ := none
  isExecutable _ := false
  logSize := 0
  pathMax := 260
  outSlack := 6

/-- A link whose command is started, at the level of the log that has all the dumps. -/
def loggedRun : MainRun := { plainRun (bytes "a:h/x?n=7&m=a%20b#f") with
  iniContent := some (bytes
    "[_global]\nlog_level=4\n[h/x]\nlpadzero=n\nltrimzero=m\ncmd=run $\x7bn\x7d $\x7bm\x7d\n")
  isExecutable := fun _ => true }

end Protohand
