/-
  Protohand.Launch.Log
  ────────────────────
  **THE LOG, RUN AFTER RUN.**

  Every run that logs begins with the line `===>`, on a line of its own, and
  this line is what log cleaning looks for.  So a run that has not logged more
  than is kept finds its own line, and comes to an end.

    • `pieces_stop`  — the scan does not miss a marker at the start of a line,
    • `log_reached`  — what is known of every log that runs may leave,
    • `log_survives` — a run that is short enough ends, and keeps what it logged.
-/
import Protohand.LogClean
import Protohand.Messages.Fit

namespace Protohand

open Printf

/-! ## §1. Runs and their log. -/

/-- What a run does to the log: its directives, and what it logs behind the start
line.  It may end before log cleaning. -/
structure LogRun where
  log_level : CStr
  max_log_size_bytes : CStr
  tm : Tm
  uri : CStr
  rest : CStr
  cleans : Bool
  fresh : List UInt8
  uri_isCStr : IsCStr uri
  rest_isCStr : IsCStr rest

def LogRun.loglevel (x : LogRun) : Int := configuredLevel x.log_level
def LogRun.log_length (x : LogRun) : Int := logLength x.max_log_size_bytes

/-- The text of the run. -/
def LogRun.own (x : LogRun) : CStr :=
  writelog x.loglevel 1 (startLine x.tm x.uri) ++ if x.loglevel = 0 then [] else x.rest

/-- The log behind the run, if log cleaning ends within so many rounds. -/
def LogRun.exec (fuel : Nat) (x : LogRun) (log : List UInt8) : Option (List UInt8) :=
  if x.cleans = true then cleanLog x.fresh fuel x.loglevel x.log_length (log ++ x.own)
  else some (log ++ x.own)

/-- The logs that runs may leave, from a first one on. -/
inductive LogReached (log₀ : List UInt8) : List UInt8 → Prop
  | start : LogReached log₀ log₀
  | run {log log' : List UInt8} {fuel : Nat} (x : LogRun) (h : LogReached log₀ log)
      (hrun : x.exec fuel log = some log') : LogReached log₀ log'

/-- What the run adds, the notes of log cleaning included, is no more than what
log cleaning keeps. -/
def LogRun.Fits (x : LogRun) (log : List UInt8) : Prop :=
  x.cleans = true → ((truncatedLog x.loglevel (log ++ x.own)).length : Int)
    ≤ log.length + (x.log_length - 1024)

/-! ## §2. The start line. -/

theorem configuredLevel_nonneg (log_level : CStr) : 0 ≤ configuredLevel log_level := by
  unfold configuredLevel
  split_ifs <;> omega

/-- The format of the start line. -/
theorem startLine_pieces :
    pieces "\r\n===> %d-%02d-%02d %02d:%02d:%02d, URI: '%s'".toList
      = "\r\n===>".toList.map .char
        ++ pieces " %d-%02d-%02d %02d:%02d:%02d, URI: '%s'".toList := by
  decide +kernel

theorem startLine_mark (tm : Tm) (uri : CStr) :
    ∃ rest, startLine tm uri = ascii '\r' :: ascii '\n' :: (recordMark ++ rest) := by
  unfold startLine sprintf
  rw [startLine_pieces]
  exact ⟨_, rfl⟩

theorem startLine_isCStr (tm : Tm) {uri : CStr} (h : IsCStr uri) : IsCStr (startLine tm uri) := by
  intro hzero
  unfold startLine sprintf at hzero
  rcases zero_mem_format hzero with ⟨p, hp, hnul⟩ | ⟨s, hs, hnul⟩
  · have hformat : ∀ p ∈ pieces "\r\n===> %d-%02d-%02d %02d:%02d:%02d, URI: '%s'".toList,
        p.isNul = false := by
      decide +kernel
    rw [hformat p hp] at hnul
    cases hnul
  · -- the only text among the arguments is the URI
    have huri : s = uri := by simpa using hs
    exact h (huri ▸ hnul)

theorem own_isCStr (x : LogRun) : IsCStr x.own := by
  have hstart : IsCStr (writelog x.loglevel 1 (startLine x.tm x.uri)) :=
    writelog_isCStr (startLine_isCStr x.tm x.uri_isCStr)
  refine hstart.append ?_
  split
  · exact List.not_mem_nil
  · exact x.rest_isCStr

/-- A run that logs begins with a line break and a marker. -/
theorem own_mark {x : LogRun} (h : x.loglevel ≠ 0) :
    ∃ rest, x.own = ascii '\r' :: ascii '\n' :: (recordMark ++ rest) := by
  have hlevel := configuredLevel_nonneg x.log_level
  obtain ⟨line, hline⟩ := startLine_mark x.tm x.uri
  have hwrite : writelog x.loglevel 1 (startLine x.tm x.uri)
      = startLine x.tm x.uri ++ bytes "\r\n" := by
    unfold writelog
    rw [if_neg]
    · rfl
    · unfold LogRun.loglevel at h ⊢
      omega
  unfold LogRun.own
  rw [hwrite, hline]
  exact ⟨line ++ bytes "\r\n" ++ (if x.loglevel = 0 then [] else x.rest), by simp⟩

/-! ## §3. The scan. -/

/-- Only the last character of a piece is none of `=`. -/
theorem piece_of_plain {a w : List UInt8} {c : UInt8} (hc : c ≠ ascii '=')
    (h : SkippedPiece (a ++ c :: w)) : w = [] := by
  generalize hv : a ++ c :: w = v at h
  have hlast : ∀ {k : Nat} {d : UInt8}, a ++ c :: w = List.replicate k (ascii '=') ++ [d] →
      w = [] := by
    intro k d heq
    by_contra hne
    obtain ⟨front, last, rfl⟩ := (List.eq_nil_or_concat w).resolve_left hne
    have hfront : a ++ c :: front = List.replicate k (ascii '=') := by
      have happ : (a ++ c :: front) ++ [last] = List.replicate k (ascii '=') ++ [d] := by
        rw [← heq]
        simp
      exact (List.append_inj' happ rfl).1
    have hmem : c ∈ List.replicate k (ascii '=') := hfront ▸ by simp
    exact hc (List.eq_of_mem_replicate hmem)
  cases h with
  | char _ _ => exact hlast (k := 0) hv
  | one _ => exact hlast (k := 1) hv
  | two _ => exact hlast (k := 2) hv
  | three _ => exact hlast (k := 3) hv

/-- No piece is stepped over at a marker. -/
theorem piece_not_mark {w s r : List UInt8} (h : SkippedPiece w) : w ++ s ≠ recordMark ++ r := by
  intro heq
  have hmark : recordMark = [ascii '=', ascii '=', ascii '=', ascii '>'] := rfl
  rw [hmark] at heq
  cases h with
  | char _ hc => injection heq with h0; exact hc h0
  | one hc => injection heq with _ heq; injection heq with h1; exact hc h1
  | two hc =>
      injection heq with _ heq
      injection heq with _ heq
      injection heq with h2
      exact hc h2
  | three hc =>
      injection heq with _ heq
      injection heq with _ heq
      injection heq with _ heq
      injection heq with h3
      exact hc h3

/-- **The scan does not miss a marker** behind another character than `=`: it is
at the marker, or in front of it. -/
theorem pieces_stop {pieces : List (List UInt8)} (hpieces : ∀ w ∈ pieces, SkippedPiece w)
    {a r t : List UInt8} {c : UInt8} (hc : c ≠ ascii '=')
    (h : pieces.flatten ++ t = a ++ c :: (recordMark ++ r)) :
    pieces.flatten.length ≤ a.length + 1 := by
  induction pieces generalizing a with
  | nil => exact Nat.zero_le _
  | cons w pieces ih =>
      have hrest : ∀ w ∈ pieces, SkippedPiece w := fun v hv => hpieces v (List.mem_cons_of_mem w hv)
      have hw : SkippedPiece w := hpieces w List.mem_cons_self
      rw [List.flatten_cons, List.append_assoc] at h
      rw [List.flatten_cons, List.length_append]
      rcases List.append_eq_append_iff.mp h with ⟨v, rfl, hv⟩ | ⟨v, rfl, hv⟩
      · have hlater := ih hrest hv
        rw [List.length_append]
        omega
      · -- the piece ends in front of the character, or with it
        cases v with
        | nil =>
            have hlater := ih hrest (a := []) hv.symm
            rw [List.append_nil]
            rw [List.length_nil] at hlater
            omega
        | cons d v =>
            injection hv with hd hv
            subst hd
            obtain rfl := piece_of_plain hc hw
            -- behind it stands the marker
            cases pieces with
            | nil => simp
            | cons w' pieces =>
                have hmark : w' ++ (pieces.flatten ++ t) = recordMark ++ r := by
                  rw [← List.append_assoc, ← List.flatten_cons]
                  exact hv.symm
                exact absurd hmark (piece_not_mark (hrest w' List.mem_cons_self))

/-- **A line that begins with a marker** is found, whatever stands in front. -/
theorem scanEnds_line {c : UInt8} (hc : c ≠ ascii '=') (a r : List UInt8) :
    ScanEnds (a ++ c :: (recordMark ++ r)) := by
  induction hlen : a.length using Nat.strong_induction_on generalizing a with
  | _ n ih =>
      rcases piece_or_cutMark_or_stop (a ++ c :: (recordMark ++ r)) with
        ⟨w, t, hw, hcut⟩ | ⟨k, -, hcut⟩ | hstop
      · rw [hcut]
        refine ScanEnds.piece_append hw ?_
        rcases List.append_eq_append_iff.mp hcut.symm with ⟨v, hv, ht⟩ | ⟨v, hv, ht⟩
        · -- a piece is not empty, so there is less in front
          have hpos : 0 < w.length := by cases hw <;> exact Nat.succ_pos _
          have hshort : v.length < n := by
            rw [← hlen, hv, List.length_append]
            omega
          rw [ht]
          exact ih v.length hshort v rfl
        · cases v with
          | nil =>
              have hpos : 0 < w.length := by cases hw <;> exact Nat.succ_pos _
              rw [List.append_nil] at hv
              have hshort : 0 < n := by
                rw [← hlen, ← hv]
                exact hpos
              have hline := ih 0 hshort [] rfl
              rw [List.nil_append] at hline
              rw [List.nil_append] at ht
              rw [← ht]
              exact hline
          | cons d v =>
              injection ht with hd ht
              subst hd
              rw [hv] at hw
              obtain rfl := piece_of_plain hc hw
              exact scanEnds_of_stopsAt ⟨r, Or.inr ht.symm⟩
      · have hmem : c ∈ List.replicate k (ascii '=') := hcut ▸ by simp
        exact absurd (List.eq_of_mem_replicate hmem) hc
      · exact scanEnds_of_stopsAt hstop

/-- Behind the marker that is found stands all that is behind the line. -/
theorem mark_suffix {pieces : List (List UInt8)} (hpieces : ∀ w ∈ pieces, SkippedPiece w)
    {a r t : List UInt8} {c : UInt8} (hc : c ≠ ascii '=')
    (h : pieces.flatten ++ (recordMark ++ t) = a ++ c :: (recordMark ++ r)) :
    (bytes "==>" ++ r) <:+ (bytes "==>" ++ t) := by
  have hstop := pieces_stop hpieces hc h
  have hmark : recordMark = ascii '=' :: bytes "==>" := rfl
  have hline : a ++ c :: (recordMark ++ r) = (a ++ [c]) ++ (recordMark ++ r) := by simp
  rw [hline] at h
  rcases List.append_eq_append_iff.mp h with ⟨v, -, ht⟩ | ⟨v, hv, hr⟩
  · cases v with
    | nil => rw [List.append_cancel_left ht]
    | cons d v =>
        rw [hmark, List.cons_append, List.cons_append] at ht
        injection ht with _ ht
        rw [ht]
        exact ((List.suffix_cons _ _).trans (List.suffix_append v _))
  · have hnil : v = [] := by
      rw [hv, List.length_append, List.length_append, List.length_singleton] at hstop
      exact List.eq_nil_of_length_eq_zero (by omega)
    subst hnil
    rw [List.append_cancel_left hr]

/-! ## §4. One run. -/

section Run

variable {x : LogRun} {fuel : Nat} {log log' : List UInt8}

/-- How long the log is allowed to be behind log cleaning. -/
def LogRun.limit (x : LogRun) (log : List UInt8) : Int :=
  x.log_length + ((measuredLog x.loglevel (log ++ x.own)).length - (log ++ x.own).length)

theorem measuredLog_isCStr {loglevel : Int} {content : List UInt8} (h : IsCStr content) :
    IsCStr (measuredLog loglevel content) := by
  have htruncated : IsCStr (truncatedLog loglevel content) := truncatedLog_isCStr h
  exact htruncated.of_isInfix (List.prefix_append _ _).isInfix

theorem length_keptLog_le (fresh : List UInt8) (s : CleanState) :
    (keptLog fresh s).length ≤ s.newlen.toNat := by
  have hblock : s.newlen + 3 - 3 = s.newlen := by omega
  unfold keptLog
  dsimp only
  rw [hblock]
  exact (List.takeWhile_prefix _).length_le.trans (List.length_take_le _ _)

/-- **What a run leaves**: no NUL, and behind log cleaning no more than is
allowed. -/
theorem exec_bounded (hlog : IsCStr log) (h : x.exec fuel log = some log') :
    IsCStr log' ∧ (x.cleans = true → x.loglevel ≠ 0 → (log'.length : Int) ≤ x.limit log) := by
  have hown : IsCStr (log ++ x.own) := hlog.append (own_isCStr x)
  have hnote : (log ++ x.own).length ≤ (measuredLog x.loglevel (log ++ x.own)).length :=
    (List.prefix_append _ _).length_le
  unfold LogRun.exec at h
  split at h
  · next hcleans =>
      by_cases hlevel : x.loglevel = 0
      · unfold cleanLog at h
        rw [if_pos hlevel] at h
        obtain rfl := Option.some.inj h
        exact ⟨hown, fun _ hne => absurd hlevel hne⟩
      · by_cases hlong : x.log_length < (log ++ x.own).length
        · have hnul : 0 ∉ scanned x.loglevel x.log_length (log ++ x.own) :=
            (truncatedLog_isCStr hown).of_isInfix (List.drop_suffix _ _).isInfix
          obtain ⟨pieces, t, -, -, rfl⟩ := cleanLog_finds hlevel hlong hnul h
          refine ⟨Text.not_mem_before 0 _, fun _ _ => ?_⟩
          have hlength : 1024 < x.log_length := lt_logLength x.max_log_size_bytes
          have hkept := length_keptLog_le x.fresh
            ⟨bytes "==>" ++ t, x.log_length - 1024 - pieces.length - 1⟩
          unfold LogRun.limit
          dsimp only at hkept
          omega
        · unfold cleanLog at h
          rw [if_neg hlevel, if_neg hlong] at h
          obtain rfl := Option.some.inj h
          refine ⟨measuredLog_isCStr hown, fun _ _ => ?_⟩
          unfold LogRun.limit
          omega
  · next hcleans =>
      obtain rfl := Option.some.inj h
      exact ⟨hown, fun hyes => absurd hyes hcleans⟩

/-- What the scan of a run that fits goes over: the line of the run is in it. -/
theorem scanned_of_fits (hcleans : x.cleans = true) (hfits : x.Fits log)
    (hlevel : x.loglevel ≠ 0) :
    ∃ a rest notes, scanned x.loglevel x.log_length (log ++ x.own)
        = a ++ ascii '\n' :: (recordMark ++ (rest ++ notes))
      ∧ x.own = ascii '\r' :: ascii '\n' :: (recordMark ++ rest) := by
  obtain ⟨rest, hown⟩ := own_mark hlevel
  obtain ⟨notes, hnotes⟩ : ∃ notes, truncatedLog x.loglevel (log ++ x.own)
      = log ++ (x.own ++ notes) := by
    unfold truncatedLog measuredLog
    exact ⟨_, by simp only [List.append_assoc]; rfl⟩
  have hroom := hfits hcleans
  refine ⟨log.drop ((truncatedLog x.loglevel (log ++ x.own)).length
    - (x.log_length - 1024).toNat) ++ [ascii '\r'], rest, notes, ?_, hown⟩
  unfold scanned logTail
  rw [hnotes] at hroom ⊢
  rw [List.drop_append_of_le_length (by omega), hown]
  simp

/-- **A run that fits** ends, and keeps what it has logged. -/
theorem exec_of_fits (hlog : IsCStr log) (hfits : x.Fits log) :
    (∃ fuel log', x.exec fuel log = some log')
      ∧ ∀ fuel log', x.exec fuel log = some log' → x.own.drop 3 <:+: log' := by
  have hown : IsCStr (log ++ x.own) := hlog.append (own_isCStr x)
  have hplain : ∀ s, x.own.drop 3 <:+: log ++ x.own ++ s := by
    intro s
    rw [List.append_assoc]
    exact ((List.drop_suffix 3 x.own).isInfix.trans (List.prefix_append x.own s).isInfix).trans
      (List.suffix_append log _).isInfix
  by_cases hcleans : x.cleans = true
  · have hexec : ∀ fuel, x.exec fuel log
        = cleanLog x.fresh fuel x.loglevel x.log_length (log ++ x.own) := fun fuel =>
      if_pos hcleans
    by_cases hlevel : x.loglevel = 0
    · have hsame : ∀ fuel, x.exec fuel log = some (log ++ x.own) := by
        intro fuel
        rw [hexec, cleanLog, if_pos hlevel]
      refine ⟨⟨0, _, hsame 0⟩, fun fuel log' h => ?_⟩
      rw [hsame] at h
      rw [← Option.some.inj h, ← List.append_nil (log ++ x.own)]
      exact hplain []
    · by_cases hlong : x.log_length < (log ++ x.own).length
      · obtain ⟨a, rest, notes, hscan, htext⟩ := scanned_of_fits hcleans hfits hlevel
        have hbreak : ascii '\n' ≠ ascii '=' := by decide
        refine ⟨?_, fun fuel log' h => ?_⟩
        · have hends : ScanEnds (scanned x.loglevel x.log_length (log ++ x.own)) := by
            rw [hscan]
            exact scanEnds_line hbreak a _
          rw [← ends_cleanRound_iff _ (x.log_length - 1024),
            ← cleanLog_ends_iff x.fresh hlevel hlong] at hends
          obtain ⟨fuel, log', hclean⟩ := hends
          exact ⟨fuel, log', (hexec fuel).trans hclean⟩
        · have hnul : 0 ∉ scanned x.loglevel x.log_length (log ++ x.own) :=
            (truncatedLog_isCStr hown).of_isInfix (List.drop_suffix _ _).isInfix
          rw [hexec] at h
          have hlength : 1024 < x.log_length := lt_logLength x.max_log_size_bytes
          obtain ⟨pieces, t, hcut, hpieces, rfl⟩ := cleanLog_writes hlevel hlength hlong hnul h
          -- what is written back begins behind the first `=` of a marker
          have hfree : IsCStr (bytes "==>" ++ t) := by
            refine IsCStr.of_isInfix hnul ?_
            rw [hcut]
            exact (List.suffix_cons (ascii '=') (bytes "==>" ++ t)).isInfix.trans
              (List.suffix_append pieces.flatten (recordMark ++ t)).isInfix
          have hkept := mark_suffix hpieces hbreak (hcut.symm.trans hscan)
          have hdrop : x.own.drop 3 = bytes "==>" ++ rest := by
            rw [htext]
            rfl
          rw [hdrop]
          unfold cstr
          rw [List.append_assoc, ← List.append_assoc (bytes "==>"),
            List.takeWhile_append_of_pos (Text.bne_of_not_mem hfree)]
          rw [← List.append_assoc] at hkept
          exact ((List.prefix_append _ notes).isInfix.trans hkept.isInfix).trans
            (List.prefix_append _ _).isInfix
      · have hsame : ∀ fuel, x.exec fuel log = some (measuredLog x.loglevel (log ++ x.own)) := by
          intro fuel
          rw [hexec, cleanLog, if_neg hlevel, if_neg hlong]
        refine ⟨⟨0, _, hsame 0⟩, fun fuel log' h => ?_⟩
        rw [hsame] at h
        rw [← Option.some.inj h]
        exact hplain _
  · have hsame : ∀ fuel, x.exec fuel log = some (log ++ x.own) := fun fuel => if_neg hcleans
    refine ⟨⟨0, _, hsame 0⟩, fun fuel log' h => ?_⟩
    rw [hsame] at h
    rw [← Option.some.inj h, ← List.append_nil (log ++ x.own)]
    exact hplain []

end Run

/-! ## §5. All runs. -/

/-- **No run writes a NUL.** -/
theorem log_reached {log₀ log : List UInt8} (hlog₀ : IsCStr log₀) (h : LogReached log₀ log) :
    IsCStr log := by
  induction h with
  | start => exact hlog₀
  | run x _ hrun ih => exact (exec_bounded ih hrun).1

/-- **THE LOG SURVIVES**: from every log that runs may leave, a run that logs no
more than is kept comes to an end, with all that it has logged in the log, but
for the first character of its marker; and behind log cleaning the log is no
longer than it may be. -/
theorem log_survives {log₀ log : List UInt8} (hlog₀ : IsCStr log₀) (h : LogReached log₀ log)
    (x : LogRun) (hfits : x.Fits log) :
    (∃ fuel log', x.exec fuel log = some log')
      ∧ ∀ fuel log', x.exec fuel log = some log' →
        x.own.drop 3 <:+: log'
          ∧ (x.cleans = true → x.loglevel ≠ 0 → (log'.length : Int) ≤ x.limit log) := by
  have hlog := log_reached hlog₀ h
  obtain ⟨hends, hkeeps⟩ := exec_of_fits hlog hfits
  exact ⟨hends, fun fuel log' hrun =>
    ⟨hkeeps fuel log' hrun, (exec_bounded hlog hrun).2⟩⟩

theorem shortUri_isCStr : IsCStr (bytes "a:h") := by decide

/-- A short run, with a log of at most 1100 bytes. -/
def shortRun : LogRun where
  log_level := bytes "1"
  max_log_size_bytes := bytes "1100"
  tm := (plainRun []).tm
  uri := bytes "a:h"
  rest := []
  cleans := true
  fresh := []
  uri_isCStr := shortUri_isCStr
  rest_isCStr := List.not_mem_nil

/-- It ends behind a record that is too long for log cleaning. -/
theorem log_survives_short :
    (∃ fuel log', shortRun.exec fuel (sampleRecord 1100) = some log')
      ∧ ∀ fuel log', shortRun.exec fuel (sampleRecord 1100) = some log' →
        shortRun.own.drop 3 <:+: log' := by
  have hfits : shortRun.Fits (sampleRecord 1100) := fun _ => by decide +kernel
  obtain ⟨hends, hkeeps⟩ := log_survives (by decide +kernel) LogReached.start shortRun hfits
  exact ⟨hends, fun fuel log' h => (hkeeps fuel log' h).1⟩

end Protohand
