/-
  Protohand.Launch.Page
  ─────────────────────
  **THE ERROR PAGE**: what `display_error` writes into its URL, and what the
  script of error.html reads there.

    • `location_eq`    — the URL, in parts,
    • `shows_iff`      — when the page shows what the call was given,
    • `error_page_iff` — the pages of all runs.

  The name of a variable is written behind `var=` as it is; all other texts are
  escaped.  It is also written with the code 5 (`namingCodes`).
-/
import Protohand.Launch.Codes
import Protohand.Launch.Def
import Protohand.Launch.Script
import Protohand.Messages.Fit

namespace Protohand

open Text Printf

/-! ## §1. The URL. -/

section Call

variable (curlEscape : CStr → CStr) (call : ErrorCall)

/-- The URL that stands between the quotes. -/
def ErrorCall.location : CStr := (call.namedParams curlEscape).drop 1

/-- The four parts in front of `var`. -/
def ErrorCall.parts : List CStr :=
  [bytes "code" ++ ascii '=' :: decimal 32 call.code,
    bytes "url" ++ ascii '=' :: (call.url.map curlEscape).getD [],
    bytes "str" ++ ascii '=' :: (call.errorString.map curlEscape).getD [],
    bytes "hostname" ++ ascii '=' :: curlEscape call.hostname]

/-- The value of `var`. -/
def ErrorCall.named : CStr := if call.namesVariable = true then call.lastvar else []

/-- A format, up to its next conversion. -/
theorem format_text (text : String) (ps : List Piece) (args : List Arg) :
    format (text.toList.map .char ++ ps) args = bytes text ++ format ps args := by
  unfold bytes
  induction text.toList with
  | nil => rfl
  | cons c cs ih => exact congrArg (c.toUInt8 :: ·) ih

theorem params_pieces :
    pieces "\"%s%serror.html?code=%d&url=%s&str=%s&hostname=%s&var=".toList
      = "\"".toList.map .char ++ (.conv .str :: .conv .str
        :: ("error.html?code=".toList.map .char ++ (.conv .int
        :: ("&url=".toList.map .char ++ (.conv .str :: ("&str=".toList.map .char ++ (.conv .str
        :: ("&hostname=".toList.map .char ++ (.conv .str
        :: ("&var=".toList.map .char ++ [])))))))))) := by
  decide +kernel

/-- The format of `params`, with any arguments. -/
theorem format_params (proto home : CStr) (code : Int) (url str hostname : CStr) :
    format (pieces "\"%s%serror.html?code=%d&url=%s&str=%s&hostname=%s&var=".toList)
        [.str proto, .str home, .int code, .str url, .str str, .str hostname]
      = bytes "\"" ++ (proto ++ (home ++ (bytes "error.html?code=" ++ (decimal 32 code
        ++ (bytes "&url=" ++ (url ++ (bytes "&str=" ++ (str ++ (bytes "&hostname=" ++ (hostname
        ++ (bytes "&var=" ++ []))))))))))) := by
  rw [params_pieces, format_text, format, format, format_text, format, format_text, format,
    format_text, format, format_text, format, format_text, format]
  rfl

/-- The same text, in parts. -/
theorem format_parts (quote mark amp equal : UInt8)
    (proto home page code c url u str s hostname h var v : CStr) :
    (([quote] ++ (proto ++ (home ++ ((page ++ mark :: (code ++ [equal])) ++ (c
        ++ ((amp :: (url ++ [equal])) ++ (u ++ ((amp :: (str ++ [equal])) ++ (s
        ++ ((amp :: (hostname ++ [equal])) ++ (h ++ ((amp :: var) ++ [])))))))))))) ++ v).drop 1
      = (proto ++ (home ++ page)) ++ mark :: ([code ++ equal :: c, url ++ equal :: u,
        str ++ equal :: s, hostname ++ equal :: h].flatMap (· ++ [amp]) ++ (var ++ v)) := by
  simp

theorem location_eq : call.location curlEscape
    = (call.proto ++ (call.phHome ++ bytes "error.html")) ++ ascii '?' ::
      ((call.parts curlEscape).flatMap (· ++ [ascii '&']) ++ (bytes "var=" ++ call.named)) := by
  have hcode : bytes "error.html?code="
      = bytes "error.html" ++ ascii '?' :: (bytes "code" ++ [ascii '=']) := rfl
  have hurl : bytes "&url=" = ascii '&' :: (bytes "url" ++ [ascii '=']) := rfl
  have hstr : bytes "&str=" = ascii '&' :: (bytes "str" ++ [ascii '=']) := rfl
  have hhost : bytes "&hostname=" = ascii '&' :: (bytes "hostname" ++ [ascii '=']) := rfl
  have hvar : bytes "&var=" = ascii '&' :: bytes "var=" := rfl
  have hquote : bytes "\"" = [ascii '"'] := rfl
  rw [ErrorCall.location, ErrorCall.namedParams, ErrorCall.params, sprintf, format_params, hcode,
    hurl, hstr, hhost, hvar, hquote]
  exact format_parts _ _ _ _ _ _ _ _ _ _ _ _ _ _ _ _ _

end Call

/-! ## §2. Escaped texts. -/

/-- What libcurl does: nothing of the syntax of a query is left, and decoding
gives the text back. -/
structure EscapesText (curlEscape : CStr → CStr) : Prop where
  plain : ∀ s, ∀ c ∈ curlEscape s, unreserved c = true ∨ c = ascii '%'
  decodes : ∀ s, percentDecode (curlEscape s) = some s

section Escaped

variable {curlEscape : CStr → CStr}

theorem EscapesText.free (h : EscapesText curlEscape) (o : Option CStr) {d : UInt8}
    (hd : d ∈ bytes "&=#") : d ∉ (o.map curlEscape).getD [] := by
  cases o with
  | none => exact List.not_mem_nil
  | some s =>
      intro hmem
      have hreserved : ∀ d ∈ bytes "&=#", unreserved d = false ∧ d ≠ ascii '%' := by
        decide +kernel
      rcases h.plain s d hmem with hplain | hpercent
      · rw [(hreserved d hd).1] at hplain
        cases hplain
      · exact (hreserved d hd).2 hpercent

theorem EscapesText.decode (h : EscapesText curlEscape) (o : Option CStr) :
    decodeURIComponent ((o.map curlEscape).getD [])
      = if Utf8 (o.getD []) then some (o.getD []) else none := by
  cases o with
  | none =>
      show decodeURIComponent [] = if Utf8 [] then some [] else none
      rw [if_pos utf8_nil, decode_plain List.not_mem_nil utf8_nil]
  | some s =>
      show (percentDecode (curlEscape s)).filter _ = if Utf8 s then some s else none
      rw [h.decodes, Option.filter_some]
      simp

/-- An empty text is left alone. -/
theorem EscapesText.nil_iff (h : EscapesText curlEscape) (o : Option CStr) :
    (o.map curlEscape).getD [] = [] ↔ o.getD [] = [] := by
  cases o with
  | none => exact Iff.rfl
  | some s =>
      show curlEscape s = [] ↔ s = []
      have hdecodes := h.decodes s
      constructor
      · intro hnil
        rw [hnil] at hdecodes
        exact (Option.some.inj hdecodes).symm
      · rintro rfl
        exact eq_nil_of_percentDecode hdecodes

section Rounds

variable (hescape : EscapesText curlEscape)

include hescape

/-- A value that was escaped, where an empty one is skipped. -/
theorem EscapesText.decodeIf {α : Type} (o : Option CStr) {f : CStr → α} {old : α}
    (hold : f [] = old) :
    Protohand.decodeIf (some ((o.map curlEscape).getD [])) f old
      = if Utf8 (o.getD []) then some (f (o.getD [])) else none := by
  rw [decodeIf_some]
  by_cases hnil : o.getD [] = []
  · rw [if_pos ((hescape.nil_iff o).mpr hnil), hnil, if_pos utf8_nil, hold]
  · rw [if_neg fun h => hnil ((hescape.nil_iff o).mp h), hescape.decode]
    split <;> rfl

theorem step_url (s : PageVars) (o : Option CStr) :
    pageStep s (bytes "url" ++ ascii '=' :: (o.map curlEscape).getD [])
      = if Utf8 (o.getD []) then some { s with url := o.getD [] } else none := by
  rw [pageStep_part s (by decide +kernel) (hescape.free o (by decide)), pageRound_url,
    hescape.decode]
  split <;> rfl

theorem step_str (s : PageVars) (hs : s.description = []) (o : Option CStr) :
    pageStep s (bytes "str" ++ ascii '=' :: (o.map curlEscape).getD [])
      = if Utf8 (o.getD []) then some { s with description := o.getD [] } else none := by
  rw [pageStep_part s (by decide +kernel) (hescape.free o (by decide)), pageRound_str,
    hescape.decodeIf o (by rw [← hs])]

theorem step_hostname (s : PageVars) (hs : s.hostname = []) (o : Option CStr) :
    pageStep s (bytes "hostname" ++ ascii '=' :: (o.map curlEscape).getD [])
      = if Utf8 (o.getD []) then some { s with hostname := o.getD [] } else none := by
  rw [pageStep_part s (by decide +kernel) (hescape.free o (by decide)), pageRound_hostname,
    hescape.decodeIf o (by rw [← hs])]

end Rounds

end Escaped

/-! ## §3. What the page shows. -/

section Shown

variable {curlEscape : CStr → CStr} {call : ErrorCall}

/-- What is put into the element `var`. -/
def ErrorCall.shownVar (call : ErrorCall) : Option CStr :=
  if call.named = [] then none else some call.named

/-- **The page shows what the call was given.** -/
def ErrorCall.Shows (curlEscape : CStr → CStr) (call : ErrorCall) : Prop :=
  pageVars (locationQuery (call.location curlEscape))
    = some ⟨decimal 32 call.code, call.url.getD [], call.errorString.getD [], call.hostname,
        call.shownVar⟩

/-- The texts that the page can show, and a name that goes through unescaped. -/
structure ErrorCall.Showable (call : ErrorCall) : Prop where
  home : ascii '#' ∉ call.phHome
  url : Utf8 (call.url.getD [])
  str : Utf8 (call.errorString.getD [])
  hostname : Utf8 call.hostname
  named : ∀ c ∈ bytes "&=#%", c ∉ call.named
  var : Utf8 call.named

theorem code_plain : ∀ code ∈ mainCodes, decimal 32 code ≠ bytes "0"
    ∧ ∀ c ∈ decimal 32 code, c.toNat < 128 ∧ c ∉ bytes "&=#%" := by
  decide +kernel

/-- The parts in front of `var` hold no delimiter. -/
theorem parts_free (hescape : EscapesText curlEscape) (hcode : call.code ∈ mainCodes) {d : UInt8}
    (hd : d = ascii '&' ∨ d = ascii '#') : ∀ part ∈ call.parts curlEscape, d ∉ part := by
  have hmem : d ∈ bytes "&=#" ∧ d ∈ bytes "&=#%" ∧ d ≠ ascii '=' := by
    rcases hd with rfl | rfl <;> decide
  have hnames : d ∉ bytes "code" ∧ d ∉ bytes "url" ∧ d ∉ bytes "str" ∧ d ∉ bytes "hostname" := by
    rcases hd with rfl | rfl <;> decide
  have hdecimal : d ∉ decimal 32 call.code := fun h =>
    ((code_plain call.code hcode).2 d h).2 hmem.2.1
  have hhost := hescape.free (some call.hostname) hmem.1
  have hone : ∀ {name value : CStr}, d ∉ name → d ∉ value → d ∉ name ++ ascii '=' :: value := by
    intro name value hname hvalue h
    rcases List.mem_append.mp h with h | h
    · exact hname h
    · exact (List.mem_cons.mp h).elim hmem.2.2 hvalue
  unfold ErrorCall.parts
  simp only [List.forall_mem_cons, List.not_mem_nil, false_imp_iff, implies_true, and_true]
  exact ⟨hone hnames.1 hdecimal, hone hnames.2.1 (hescape.free call.url hmem.1),
    hone hnames.2.2.1 (hescape.free call.errorString hmem.1), hone hnames.2.2.2 hhost⟩

theorem proto_free (call : ErrorCall) {d : UInt8} (hd : d = ascii '?' ∨ d = ascii '#') :
    d ∉ call.proto := by
  unfold ErrorCall.proto
  split
  · rcases hd with rfl | rfl <;> decide
  · exact List.not_mem_nil

/-- **What the script is given**, where the directory holds no delimiter. -/
theorem locationQuery_eq (hescape : EscapesText curlEscape) (hcode : call.code ∈ mainCodes)
    (hmark : ascii '?' ∉ call.phHome) (hhash : ascii '#' ∉ call.phHome) :
    locationQuery (call.location curlEscape)
      = (call.parts curlEscape).flatMap (· ++ [ascii '&'])
        ++ (bytes "var=" ++ before (ascii '#') call.named) := by
  have hfront : ∀ {d : UInt8}, d = ascii '?' ∨ d = ascii '#' → d ∉ call.phHome →
      d ∉ call.proto ++ (call.phHome ++ bytes "error.html") := by
    intro d hd hhome
    rw [List.mem_append, List.mem_append, not_or, not_or]
    exact ⟨proto_free call hd, hhome, by rcases hd with rfl | rfl <;> decide⟩
  have hparts : ascii '#' ∉ (call.parts curlEscape).flatMap (· ++ [ascii '&']) := by
    intro h
    obtain ⟨part, hpart, hin⟩ := List.mem_flatMap.mp h
    rcases List.mem_append.mp hin with hin | hin
    · exact parts_free hescape hcode (Or.inr rfl) part hpart hin
    · exact absurd (List.mem_singleton.mp hin) (by decide)
  -- the text in front of the first `#`
  have hbefore : ∀ {k : CStr}, ascii '#' ∉ k → ∀ s, before (ascii '#') (k ++ s)
      = k ++ before (ascii '#') s := by
    intro k hk s
    exact List.takeWhile_append_of_pos (bne_of_not_mem hk)
  unfold locationQuery
  rw [location_eq, hbefore (hfront (Or.inr rfl) hhash), ← List.singleton_append,
    hbefore (by decide), hbefore hparts, hbefore (by decide), List.singleton_append,
    after_append_cons (hfront (Or.inl rfl) hmark)]

/-- A `#` in the directory hides the query. -/
theorem locationQuery_hash (hmark : ascii '?' ∉ call.phHome) (hhash : ascii '#' ∈ call.phHome) :
    locationQuery (call.location curlEscape) = [] := by
  have hcut := before_append_after (List.mem_append_right call.proto hhash)
  have hfree : ascii '#' ∉ before (ascii '#') (call.proto ++ call.phHome) := fun h =>
    absurd (List.mem_takeWhile_imp h) (by simp)
  have hfirst : before (ascii '#') (call.location curlEscape)
      = before (ascii '#') (call.proto ++ call.phHome) := by
    rw [location_eq, ← List.append_assoc call.proto, ← hcut, List.append_assoc, List.append_assoc,
      List.cons_append, hcut]
    exact before_append_cons hfree _
  unfold locationQuery
  rw [hfirst]
  refine after_of_not_mem fun h => ?_
  rcases List.mem_append.mp ((List.takeWhile_subset _) h) with h | h
  · exact proto_free call (Or.inl rfl) h
  · exact hmark h

theorem step_code (s : PageVars) {code : Nat} (hcode : code ∈ mainCodes) :
    pageStep s (bytes "code" ++ ascii '=' :: decimal 32 code)
      = some { s with code := decimal 32 code } := by
  obtain ⟨-, hdecimal⟩ := code_plain code hcode
  have hequal : ascii '=' ∉ decimal 32 code := fun h => (hdecimal _ h).2 (by decide)
  have hpercent : ascii '%' ∉ decimal 32 code := fun h => (hdecimal _ h).2 (by decide)
  rw [pageStep_part s (by decide +kernel) hequal, pageRound_code,
    decode_plain hpercent (utf8_ascii fun c hc => (hdecimal c hc).1)]
  rfl

/-- **The first four rounds.** -/
theorem front_rounds (hescape : EscapesText curlEscape) (hcode : call.code ∈ mainCodes)
    (rest : List CStr) :
    (call.parts curlEscape ++ rest).foldlM pageStep pageInit
      = if Utf8 (call.url.getD []) ∧ Utf8 (call.errorString.getD []) ∧ Utf8 call.hostname then
          rest.foldlM pageStep ⟨decimal 32 call.code, call.url.getD [], call.errorString.getD [],
            call.hostname, none⟩
        else none := by
  have hparts : call.parts curlEscape ++ rest
      = (bytes "code" ++ ascii '=' :: decimal 32 call.code)
        :: (bytes "url" ++ ascii '=' :: (call.url.map curlEscape).getD [])
        :: (bytes "str" ++ ascii '=' :: (call.errorString.map curlEscape).getD [])
        :: (bytes "hostname" ++ ascii '=' :: ((some call.hostname).map curlEscape).getD [])
        :: rest := rfl
  rw [hparts, foldlM_cons_some (step_code pageInit hcode)]
  by_cases hurl : Utf8 (call.url.getD [])
  · rw [foldlM_cons_some ((step_url hescape _ call.url).trans (if_pos hurl))]
    by_cases hstr : Utf8 (call.errorString.getD [])
    · rw [foldlM_cons_some ((step_str hescape _ rfl call.errorString).trans (if_pos hstr))]
      by_cases hhost : Utf8 call.hostname
      · rw [foldlM_cons_some ((step_hostname hescape _ rfl (some call.hostname)).trans
          (if_pos hhost)), if_pos ⟨hurl, hstr, hhost⟩]
        dsimp only [pageInit, Option.getD_some]
      · rw [foldlM_cons_none ((step_hostname hescape _ rfl (some call.hostname)).trans
          (if_neg hhost)), if_neg fun h => hhost h.2.2]
    · rw [foldlM_cons_none ((step_str hescape _ rfl call.errorString).trans (if_neg hstr)),
        if_neg fun h => hstr h.2.1]
  · rw [foldlM_cons_none ((step_url hescape _ call.url).trans (if_neg hurl)),
      if_neg fun h => hurl h.1]

/-- The rounds behind the first four. -/
theorem pageVars_query (hescape : EscapesText curlEscape) (hcode : call.code ∈ mainCodes)
    (hmark : ascii '?' ∉ call.phHome) (hhash : ascii '#' ∉ call.phHome) :
    pageVars (locationQuery (call.location curlEscape))
      = if Utf8 (call.url.getD []) ∧ Utf8 (call.errorString.getD []) ∧ Utf8 call.hostname then
          ((bytes "var=" ++ before (ascii '#') call.named).splitOn (ascii '&')).foldlM pageStep
            ⟨decimal 32 call.code, call.url.getD [], call.errorString.getD [], call.hostname, none⟩
        else none := by
  unfold pageVars
  rw [locationQuery_eq hescape hcode hmark hhash,
    splitOn_flatMap (parts_free hescape hcode (Or.inl rfl)), front_rounds hescape hcode]

/-- **When the page shows what the call was given.** -/
theorem shows_iff (hescape : EscapesText curlEscape) (hcode : call.code ∈ mainCodes)
    (hmark : ascii '?' ∉ call.phHome) : call.Shows curlEscape ↔ call.Showable := by
  unfold ErrorCall.Shows
  constructor
  · intro h
    have hhash : ascii '#' ∉ call.phHome := by
      intro hhash
      rw [locationQuery_hash hmark hhash, pageVars_nil] at h
      have hzero := congrArg PageVars.code (Option.some.inj h)
      dsimp only [pageInit] at hzero
      -- the script would show its first value, and no code is written like that
      exact (code_plain call.code hcode).1 hzero.symm
    rw [pageVars_query hescape hcode hmark hhash] at h
    split at h
    · next hutf8 =>
        obtain ⟨hurl, hstr, hhost⟩ := hutf8
        by_cases hnil : call.named = []
        · refine ⟨hhash, hurl, hstr, hhost, ?_, ?_⟩
          · rw [hnil]
            exact fun c _ => List.not_mem_nil
          · rw [hnil]
            exact utf8_nil
        · have hshown : call.shownVar = some call.named := if_neg hnil
          -- `var` was set in some round, from a piece of the name
          rcases pageSteps_var h with hnone | ⟨part, hpart, value, hvalue, var, hvar, hset⟩
          · rw [hshown] at hnone
            cases hnone
          · -- decoding would shorten a piece, so the piece is the whole name
            rw [hshown] at hset
            obtain ⟨hdecode, hvar⟩ := decodeURIComponent_eq_some.mp hvar
            rw [← Option.some.inj hset] at hdecode hvar
            obtain ⟨hin, hamp, hequal⟩ := var_value hpart hvalue
            have hlen := length_percentDecode hdecode
            have hprefix : before (ascii '#') call.named <+: call.named :=
              List.takeWhile_prefix _
            have hcut := hprefix.length_le
            have hshort := hin.length_le
            have hwhole : value = before (ascii '#') call.named :=
              hin.eq_of_length (by omega)
            have hname : before (ascii '#') call.named = call.named :=
              hprefix.eq_of_length (by omega)
            have hfree : ascii '#' ∉ call.named := by
              intro hmem
              rw [← hname] at hmem
              exact absurd (List.mem_takeWhile_imp hmem) (by simp)
            rw [hwhole, hname] at hamp hequal
            refine ⟨hhash, hurl, hstr, hhost, ?_, hvar⟩
            have hpercent : ascii '%' ∉ call.named := by
              rw [← List.count_eq_zero, ← hname, ← hwhole]
              omega
            have hdelims : bytes "&=#%" = [ascii '&', ascii '=', ascii '#', ascii '%'] := rfl
            rw [hdelims]
            simp only [List.forall_mem_cons]
            exact ⟨hamp, hequal, hfree, hpercent, fun c hc => absurd hc List.not_mem_nil⟩
    · cases h
  · rintro ⟨hhash, hurl, hstr, hhost, hnamed, hvar⟩
    have hcut : before (ascii '#') call.named = call.named :=
      before_of_not_mem (hnamed _ (by decide))
    -- no delimiter, so there is one round more, and it reads the whole name
    have hamp : ascii '&' ∉ bytes "var=" ++ call.named := by
      rw [List.mem_append, not_or]
      exact ⟨by decide, hnamed _ (by decide)⟩
    rw [pageVars_query hescape hcode hmark hhash, if_pos ⟨hurl, hstr, hhost⟩, hcut,
      List.splitOn_eq_singleton hamp]
    have hstep := step_var ⟨decimal 32 call.code, call.url.getD [], call.errorString.getD [],
      call.hostname, none⟩ (hnamed (ascii '=') (by decide))
    rw [decodeIf_some, decode_plain (hnamed _ (by decide)) hvar] at hstep
    unfold ErrorCall.shownVar
    by_cases hnil : call.named = []
    · rw [if_pos hnil] at hstep
      rw [foldlM_cons_some hstep, if_pos hnil]
      rfl
    · rw [if_neg hnil, Option.map_some] at hstep
      dsimp only at hstep
      rw [foldlM_cons_some hstep, if_neg hnil, List.foldlM_nil]
      rfl

end Shown

/-! ## §4. The pages of all runs. -/

/-- A page is opened at its URL. -/
theorem errorPage_location {curlEscape : CStr → CStr} {p : Platform} {call : ErrorCall} {exe : CStr}
    {args : List CStr} (h : Effect.spawn exe args ∈ errorPage curlEscape p call) :
    args = [bytes "/C" ++ bytes "hh.exe", bytes "-800",
      bytes "\"" ++ (call.location curlEscape ++ bytes "\"")] := by
  have hquoted : call.quotedParams curlEscape
      = bytes "\"" ++ (call.location curlEscape ++ bytes "\"") := by
    have hquote : bytes "\"" = [ascii '"'] := rfl
    unfold ErrorCall.location ErrorCall.quotedParams ErrorCall.namedParams ErrorCall.params sprintf
    rw [format_params, hquote, List.singleton_append, List.cons_append, List.drop_one,
      List.tail_cons, List.cons_append, List.singleton_append]
  unfold errorPage at h
  split at h
  · split at h
    · cases h
    · rw [List.mem_singleton, Effect.spawn.injEq] at h
      rw [h.2, hquoted]
  · cases h

/-- A call of `display_error` opens its page, if any. -/
theorem callEffects_location {curlEscape : CStr → CStr} {p : Platform} {call : ErrorCall}
    {exe : CStr} {args : List CStr} (h : Effect.spawn exe args ∈ call.effects curlEscape p) :
    args = [bytes "/C" ++ bytes "hh.exe", bytes "-800",
      bytes "\"" ++ (call.location curlEscape ++ bytes "\"")] := by
  unfold ErrorCall.effects at h
  split at h
  · exact errorPage_location h
  · cases List.mem_singleton.mp h

/-- No stage opens a page. -/
theorem stages_not_spawn (p : Platform) (r : MainRun) :
    ∀ e ∈ (stagesRun p r).1, ∀ exe args, e ≠ .spawn exe args := by
  unfold stagesRun
  rw [Stages.run_writes_iff]
  intro k s hentered e he exe args hspawn
  subst hspawn
  cases hdefined : k.defined p s with
  | false =>
      have hexec : k.exec p s = ([.undefined], .error none) := Stages.guard_neg hdefined
      rw [hexec] at he
      cases List.mem_singleton.mp he
  | true =>
      have hexec : k.exec p s = k.act p s := Stages.guard_pos hdefined
      rw [hexec] at he
      cases k with
      | of k =>
          change _ ∈ k.effects s.main at he
          unfold MainStage.effects at he
          split at he
          · obtain ⟨r, -, hr⟩ := List.mem_map.mp he
            cases hr
          · cases he
      | launch =>
          change _ ∈ startEffects p s.main.config s.precmd s.main.cmd at he
          unfold startEffects at he
          split at he
          · rcases List.mem_append.mp he with he | he
            · split at he
              · cases he
              · cases List.mem_singleton.mp he
            · cases List.mem_singleton.mp he
          · cases List.mem_singleton.mp he

/-- What ends a launch ends `main`. -/
theorem main_of_launch {curlEscape : CStr → CStr} {p : Platform} {r : MainRun} {call : ErrorCall}
    (h : (launchMain curlEscape p r).2 = .error (some call)) :
    (main r).2 = .error (some call) := by
  change (stagesRun p r).2 = _ at h
  rcases launch_follows_main p r with hsame | ⟨-, hnone⟩
  · rw [← hsame, h]
    rfl
  · rw [h] at hnone
    cases hnone

/-- The codes that `main` names a variable with.  `INI_PARSE_ERR` is one of them,
as it is the number of `EXP_ERR_QUERYNVVAR_NOT_FOUND`, which `main` adds 32 to. -/
def namingCodes : List Nat := [FAILED_TO_EXPAND_ENV, INI_PARSE_ERR]

theorem named_of_mainCodes {call : ErrorCall} (hcode : call.code ∈ mainCodes) :
    call.named = if call.code ∈ namingCodes then call.lastvar else [] := by
  have hnames : ∀ code ∈ mainCodes,
      (code == FAILED_TO_EXPAND_ENV || code == EXP_ERR_QUERYNVVAR_NOT_FOUND) = true
        ↔ code ∈ namingCodes := by
    decide +kernel
  exact if_congr (hnames call.code hcode) rfl rfl

/-- **THE ERROR PAGES OF ALL RUNS.**  The only page a run may open is the one at
the URL of its error.  There the script shows what was reported exactly when
this is UTF-8, no `#` is in the directory, and no delimiter in the name of a
variable; and it has a message for it, unless a file was not written. -/
theorem error_page_iff {curlEscape : CStr → CStr} (hescape : EscapesText curlEscape)
    {p : Platform} {r : MainRun} (hmark : ascii '?' ∉ r.dir) {call : ErrorCall}
    (h : (launchMain curlEscape p r).2 = .error (some call)) :
    (∀ exe args, Effect.spawn exe args ∈ (launchMain curlEscape p r).1 →
        args = [bytes "/C" ++ bytes "hh.exe", bytes "-800",
          bytes "\"" ++ (call.location curlEscape ++ bytes "\"")])
      ∧ (pageVars (locationQuery (call.location curlEscape))
            = some ⟨decimal 32 call.code, r.uri, call.errorString.getD [], call.hostname,
                if call.code ∈ namingCodes ∧ call.lastvar ≠ [] then some call.lastvar
                else none⟩
          ↔ ascii '#' ∉ r.dir ∧ Utf8 r.uri ∧ Utf8 (call.errorString.getD []) ∧ Utf8 call.hostname
            ∧ (call.code ∈ namingCodes →
                (∀ c ∈ bytes "&=#%", c ∉ call.lastvar) ∧ Utf8 call.lastvar))
      ∧ (shownMessage (decimal 32 call.code) = none ↔ call.code = notWritten) := by
  have hmain := main_of_launch h
  have hcode := main_code hmain
  have hnamed := named_of_mainCodes hcode
  have hcall := main_call hmain
  have hurl : call.url = some r.uri := by rw [hcall]
  have hhome : call.phHome = r.dir := by rw [hcall]
  refine ⟨?_, ?_, ?_⟩
  · intro exe args hmem
    change _ ∈ (stagesRun p r).1 ++ pageEffects curlEscape p (stagesRun p r).2 at hmem
    rcases List.mem_append.mp hmem with hmem | hmem
    -- pages are opened behind the stages only
    · exact absurd rfl (stages_not_spawn p r _ hmem exe args)
    · change (stagesRun p r).2 = _ at h
      rw [h] at hmem
      exact callEffects_location hmem
  · have hshown : call.shownVar
        = if call.code ∈ namingCodes ∧ call.lastvar ≠ [] then some call.lastvar
          else none := by
      unfold ErrorCall.shownVar
      rw [hnamed]
      by_cases henv : call.code ∈ namingCodes
      · rw [if_pos henv]
        by_cases hnil : call.lastvar = []
        · rw [if_pos hnil, if_neg fun hboth => hboth.2 hnil]
        · rw [if_neg hnil, if_pos ⟨henv, hnil⟩]
      · rw [if_neg henv, if_pos rfl, if_neg fun hboth => henv hboth.1]
    have hiff := shows_iff hescape hcode (hhome ▸ hmark)
    unfold ErrorCall.Shows at hiff
    rw [hshown, hurl, Option.getD_some] at hiff
    refine hiff.trans ⟨?_, ?_⟩
    · rintro ⟨hhash, hutf8, hstr, hhost, hfree, hvar⟩
      rw [hurl, Option.getD_some] at hutf8
      refine ⟨hhome ▸ hhash, hutf8, hstr, hhost, fun henv => ?_⟩
      rw [hnamed, if_pos henv] at hfree hvar
      exact ⟨hfree, hvar⟩
    · rintro ⟨hhash, hutf8, hstr, hhost, hvar⟩
      have hboth : (∀ c ∈ bytes "&=#%", c ∉ call.named) ∧ Utf8 call.named := by
        rw [hnamed]
        by_cases henv : call.code ∈ namingCodes
        · rw [if_pos henv]
          exact hvar henv
        · rw [if_neg henv]
          exact ⟨fun c _ => List.not_mem_nil, utf8_nil⟩
      refine ⟨hhome ▸ hhash, ?_, hstr, hhost, hboth.1, hboth.2⟩
      rw [hurl, Option.getD_some]
      exact hutf8
  · have hmessage : ∀ code ∈ mainCodes, shownMessage (decimal 32 code) = none
        ↔ code = notWritten := by
      decide +kernel
    exact hmessage call.code hcode

/-! ## §5. A page with a variable. -/

/-- Escaping one character, and undoing it. -/
theorem escape_char (c : UInt8) :
    (isxdigit (hexChar (c / 16)) = true ∧ isxdigit (hexChar (c % 16)) = true)
      ∧ (unreserved (hexChar (c / 16)) = true ∧ unreserved (hexChar (c % 16)) = true)
      ∧ hexPair (hexChar (c / 16)) (hexChar (c % 16)) = c := by
  have hall : ∀ n < 256, let c := UInt8.ofNat n
      (isxdigit (hexChar (c / 16)) = true ∧ isxdigit (hexChar (c % 16)) = true)
        ∧ (unreserved (hexChar (c / 16)) = true ∧ unreserved (hexChar (c % 16)) = true)
        ∧ hexPair (hexChar (c / 16)) (hexChar (c % 16)) = c := by
    decide +kernel
  have hc := hall c.toNat c.toNat_lt
  rwa [UInt8.ofNat_toNat] at hc

theorem percentEscape_escapesText : EscapesText percentEscape where
  plain := by
    intro s c hc
    obtain ⟨x, -, hx⟩ := List.mem_flatMap.mp hc
    obtain ⟨-, hplain, -⟩ := escape_char x
    split at hx
    · next hunreserved =>
        rw [List.mem_singleton.mp hx]
        exact Or.inl hunreserved
    · rcases List.mem_cons.mp hx with rfl | hx
      · exact Or.inr rfl
      · rcases List.mem_pair.mp hx with rfl | rfl
        · exact Or.inl hplain.1
        · exact Or.inl hplain.2
  decodes := by
    intro s
    induction s with
    | nil => rfl
    | cons c s ih =>
        obtain ⟨hdigits, -, hpair⟩ := escape_char c
        have hcons : percentEscape (c :: s) = (if unreserved c = true then [c]
            else [ascii '%', hexChar (c / 16), hexChar (c % 16)]) ++ percentEscape s :=
          List.flatMap_cons
        rw [hcons]
        split
        · next hunreserved =>
            have hc : c ≠ ascii '%' := by
              rintro rfl
              exact absurd hunreserved (by decide)
            rw [List.singleton_append, percentDecode_cons hc, ih]
            rfl
        · rw [List.cons_append, List.cons_append, List.singleton_append,
            percentDecode_escape hdigits.1 hdigits.2, ih, hpair]
          rfl

/-- A run with a directive that `ini_callback` does not know. -/
def unknownRun : MainRun := { plainRun (bytes "a:h") with
  iniContent := some (bytes "[h]\ncmd=run\nnosuch=1\n") }

/-- What a run reports. -/
def reported : Except (Option ErrorCall) LaunchState → Option (Nat × Option CStr × CStr)
  | .error (some call) => some (call.code, call.errorString, call.lastvar)
  | _ => none

/-- The page names the variable that was expanded last, and was found. -/
theorem error_page_unknown : ∃ call,
    (launchMain percentEscape .mingw unknownRun).2 = .error (some call)
      ∧ pageVars (locationQuery (call.location percentEscape))
        = some ⟨bytes "5", bytes "a:h", [], bytes "unknown", some (bytes "env.windir")⟩ := by
  have hreported : reported (launchMain percentEscape .mingw unknownRun).2
      = some (5, none, bytes "env.windir") := by
    decide +kernel
  cases hend : (launchMain percentEscape .mingw unknownRun).2 with
  | ok s => rw [hend] at hreported; cases hreported
  | error e =>
      cases e with
      | none => rw [hend] at hreported; cases hreported
      | some call =>
          rw [hend] at hreported
          injection hreported with hreported
          injection hreported with hcode hreported
          injection hreported with hstr hvar
          have hhost : call.hostname = bytes "unknown" := by
            rw [main_call (main_of_launch hend)]
            show ((unknownRun.env (bytes "HOSTNAME")).or
              (unknownRun.env (bytes "COMPUTERNAME"))).getD (bytes "unknown") = _
            decide +kernel
          have hpage := error_page_iff percentEscape_escapesText
            (by decide : ascii '?' ∉ unknownRun.dir) hend
          rw [hcode, hstr, hvar, hhost] at hpage
          refine ⟨call, rfl, (hpage.2.1.mpr ?_).trans (by decide +kernel)⟩
          decide +kernel

end Protohand
