/-
  Protohand.LogClean
  ──────────────────
  **LOG CLEANING**: `writelog`, and the parts of `main` that settle how long
  the log may get and cut it down once it is longer.

  A log that is too long is scanned from its last `log_length - 1024` bytes
  on for the `===>` a record begins with.  The scan stops at that marker or
  at a NUL, and it reads past the end of the file for ever, so whether it
  ends is a matter of what these bytes are (`cleanLog_terminates_iff`).  What
  it then writes back never begins with a whole marker (`cleanLog_keeps_iff`).
-/
import Protohand.CString
import Protohand.Lib.While

namespace Protohand

/-! ## §1. The length of the log. -/

/-- `LOG_LENGTH`. -/
def defaultLogLength : Int := 1024 * 1000 * 1

/-- `main` (max_log_size_bytes): `log_length`. -/
def logLength (max_log_size_bytes : CStr) : Int :=
  if strcmp max_log_size_bytes [] ≠ 0 then
    if atoi max_log_size_bytes ≤ 1024 then defaultLogLength else atoi max_log_size_bytes
  else defaultLogLength

/-- Whatever is configured, the log may get longer than what is taken off. -/
theorem lt_logLength (max_log_size_bytes : CStr) : 1024 < logLength max_log_size_bytes := by
  unfold logLength defaultLogLength
  split_ifs <;> omega

/-! ## §2. The log file. -/

/-- `writelog`: what is added to the log. -/
def writelog (loglevel : Int) (level : Nat) (str : CStr) : List UInt8 :=
  if level = 0 ∨ loglevel < level then []
  else List.replicate (min level 19 - 1) (ascii '\t') ++ str ++ bytes "\r\n"

/-- The log after its length was taken, if it is not too long. -/
def measuredLog (loglevel : Int) (content : List UInt8) : List UInt8 :=
  content ++ writelog loglevel 3 (bytes "logfile size: " ++ bytes (toString content.length))

/-- The log that is opened again because it is too long. -/
def truncatedLog (loglevel : Int) (content : List UInt8) : List UInt8 :=
  measuredLog loglevel content ++ writelog loglevel 3 (bytes "Truncating logfile")

/-- What `fseek` to `-newlen` from the end leaves to be read. -/
def logTail (newlen : Int) (log : List UInt8) : List UInt8 :=
  log.drop (log.length - newlen.toNat)

/-! ## §3. The scan. -/

/-- `fgetc` into a `char`, and what is left to be read.  At the end of the
file this is `EOF`, of which the `char` keeps 0xFF. -/
def fgetcChar : List UInt8 → UInt8 × List UInt8
  | [] => (0xFF, [])
  | c :: unread => (c, unread)

/-- The record marker. -/
def recordMark : CStr := bytes "===>"

/-- The variables of the scan: the rest of the file, and `newlen`. -/
structure CleanState where
  unread : List UInt8
  newlen : Int
  deriving DecidableEq, Repr

/-- One round of the scan.  It ends with `none` at a NUL, and at a marker with
the state there. -/
def cleanRound (s : CleanState) : CleanState ⊕ Option CleanState :=
  let (tempchar, rest) := fgetcChar s.unread
  let newlen := s.newlen - 1
  if tempchar = 0 then .inr none
  else if tempchar = ascii '=' then
    let (tempchar1, rest1) := fgetcChar rest
    if tempchar1 ≠ ascii '=' then .inl ⟨rest1, newlen⟩
    else
      let (tempchar2, rest2) := fgetcChar rest1
      if tempchar2 ≠ ascii '=' then .inl ⟨rest2, newlen⟩
      else
        let (tempchar3, rest3) := fgetcChar rest2
        if tempchar3 ≠ ascii '>' then .inl ⟨rest3, newlen⟩
        -- three characters back, that is behind the first of the four
        else .inr (some ⟨rest, newlen⟩)
  else .inl ⟨rest, newlen⟩

/-- The beginning of a marker is gone with the character behind it. -/
example : cleanRound ⟨bytes "====> 2015", 40⟩ = .inl ⟨bytes "> 2015", 39⟩ := by decide

/-- What is written back from a marker on.  The block is `fresh` before it is
read into, and keeps that where the file is shorter than `newlen`. -/
def keptLog (fresh : List UInt8) (s : CleanState) : CStr :=
  let newlen := s.newlen + 3
  let length := (newlen - 3).toNat
  cstr ((s.unread ++ fresh.drop s.unread.length).take length)

/-- `main` (log cleaning) on a log of that `content`, with at most `fuel`
rounds of the scan: the log in the end, or `none` if there is none yet. -/
def cleanLog (fresh : List UInt8) (fuel : Nat) (loglevel log_length : Int)
    (content : List UInt8) : Option (List UInt8) :=
  if loglevel = 0 then some content
  else if log_length < content.length then
    let newlen := log_length - 1024
    let log := truncatedLog loglevel content
    (While.run cleanRound fuel ⟨logTail newlen log, newlen⟩).map
      (fun found => found.elim log (keptLog fresh))
  else some (measuredLog loglevel content)

/-! ## §4. One round.

A text is either stepped over in front, or it is over before the round is, or
it is what the scan looks for. -/

/-- What one round steps over: a character that no marker begins with, or the
beginning of a marker and the character that it breaks off at. -/
inductive SkippedPiece : List UInt8 → Prop
  | char {c : UInt8} : c ≠ 0 → c ≠ ascii '=' → SkippedPiece [c]
  | one {c : UInt8} : c ≠ ascii '=' → SkippedPiece [ascii '=', c]
  | two {c : UInt8} : c ≠ ascii '=' → SkippedPiece [ascii '=', ascii '=', c]
  | three {c : UInt8} : c ≠ ascii '>' → SkippedPiece [ascii '=', ascii '=', ascii '=', c]

/-- What the scan stops at: a NUL or a marker. -/
def StopsAt (l : List UInt8) : Prop := ∃ t, l = 0 :: t ∨ l = recordMark ++ t

/-- The beginning of a marker, with which the file is over. -/
def IsCutMark (l : List UInt8) : Prop := ∃ k < 4, l = List.replicate k (ascii '=')

theorem cleanRound_piece {w : List UInt8} (hw : SkippedPiece w) (l : List UInt8) (n : Int) :
    cleanRound ⟨w ++ l, n⟩ = .inl ⟨l, n - 1⟩ := by
  have hzero : ascii '=' ≠ 0 := by decide
  cases hw with
  | char h0 h1 => simp [cleanRound, fgetcChar, h0, h1]
  | one h1 => simp [cleanRound, fgetcChar, hzero, h1]
  | two h2 => simp [cleanRound, fgetcChar, hzero, h2]
  | three h3 => simp [cleanRound, fgetcChar, hzero, h3]

theorem cleanRound_cutMark {l : List UInt8} (hl : IsCutMark l) (n : Int) :
    cleanRound ⟨l, n⟩ = .inl ⟨[], n - 1⟩ := by
  obtain ⟨k, hk, rfl⟩ := hl
  obtain rfl | rfl | rfl | rfl : k = 0 ∨ k = 1 ∨ k = 2 ∨ k = 3 := by omega
  all_goals rfl

theorem cleanRound_stop {l : List UInt8} (hl : StopsAt l) (n : Int) :
    ∃ r, cleanRound ⟨l, n⟩ = .inr r := by
  obtain ⟨t, rfl | rfl⟩ := hl
  · exact ⟨none, rfl⟩
  · exact ⟨some ⟨bytes "==>" ++ t, n - 1⟩, rfl⟩

/-- There is nothing else that a text can begin with. -/
theorem piece_or_cutMark_or_stop (l : List UInt8) :
    (∃ w t, SkippedPiece w ∧ l = w ++ t) ∨ IsCutMark l ∨ StopsAt l := by
  rcases l with _ | ⟨c, l⟩
  · exact .inr (.inl ⟨0, by omega, rfl⟩)
  by_cases hzero : c = 0
  · exact .inr (.inr ⟨l, .inl (by rw [hzero])⟩)
  by_cases h : c = ascii '='
  case neg => exact .inl ⟨[c], l, .char hzero h, rfl⟩
  -- from here on every character either goes on with the marker or breaks it off
  subst h
  rcases l with _ | ⟨c, l⟩
  · exact .inr (.inl ⟨1, by omega, rfl⟩)
  by_cases h : c = ascii '='
  case neg => exact .inl ⟨[ascii '=', c], l, .one h, rfl⟩
  subst h
  rcases l with _ | ⟨c, l⟩
  · exact .inr (.inl ⟨2, by omega, rfl⟩)
  by_cases h : c = ascii '='
  case neg => exact .inl ⟨[ascii '=', ascii '=', c], l, .two h, rfl⟩
  subst h
  rcases l with _ | ⟨c, l⟩
  · exact .inr (.inl ⟨3, by omega, rfl⟩)
  by_cases h : c = ascii '>'
  case neg => exact .inl ⟨[ascii '=', ascii '=', ascii '=', c], l, .three h, rfl⟩
  subst h
  exact .inr (.inr ⟨l, .inr rfl⟩)

/-- **What a round can do**: step over a piece, come to the end of the file, or
end. -/
theorem cleanRound_cases (s : CleanState) :
    (∃ w t, SkippedPiece w ∧ s.unread = w ++ t ∧ cleanRound s = .inl ⟨t, s.newlen - 1⟩)
      ∨ cleanRound s = .inl ⟨[], s.newlen - 1⟩
      ∨ (StopsAt s.unread ∧ ∃ r, cleanRound s = .inr r) := by
  obtain ⟨l, n⟩ := s
  obtain ⟨w, t, hw, rfl⟩ | hl | hl := piece_or_cutMark_or_stop l
  · exact .inl ⟨w, t, hw, rfl, cleanRound_piece hw t n⟩
  · exact .inr (.inl (cleanRound_cutMark hl n))
  · exact .inr (.inr ⟨hl, cleanRound_stop hl n⟩)

/-! ## §5. The whole scan. -/

/-- The text is stepped over in pieces up to something the scan stops at. -/
def ScanEnds (l : List UInt8) : Prop :=
  ∃ (pieces : List (List UInt8)) (t : List UInt8),
    l = pieces.flatten ++ t ∧ (∀ w ∈ pieces, SkippedPiece w) ∧ StopsAt t

theorem scanEnds_of_stopsAt {l : List UInt8} (hl : StopsAt l) : ScanEnds l :=
  ⟨[], l, rfl, by simp, hl⟩

theorem ScanEnds.piece_append {w l : List UInt8} (hw : SkippedPiece w) (hl : ScanEnds l) :
    ScanEnds (w ++ l) := by
  obtain ⟨pieces, t, rfl, hpieces, ht⟩ := hl
  refine ⟨w :: pieces, t, by simp, ?_, ht⟩
  intro v hv
  obtain rfl | hv := List.mem_cons.mp hv
  · exact hw
  · exact hpieces v hv

/-- Without a `=` in front of it nothing is missed. -/
theorem ScanEnds.append_of_plain {p l : List UInt8} (hp : ∀ c ∈ p, c ≠ 0 ∧ c ≠ ascii '=')
    (hl : ScanEnds l) : ScanEnds (p ++ l) := by
  induction p with
  | nil => exact hl
  | cons c p ih =>
      have hc : SkippedPiece [c] := .char (hp c List.mem_cons_self).1 (hp c List.mem_cons_self).2
      show ScanEnds ([c] ++ (p ++ l))
      exact (ih (fun d hd => hp d (List.mem_cons_of_mem c hd))).piece_append hc

/-- Where the scan ends there is a NUL or a marker. -/
theorem ScanEnds.mem_or_infix {l : List UInt8} (hl : ScanEnds l) :
    0 ∈ l ∨ recordMark <:+: l := by
  obtain ⟨pieces, t, rfl, -, s, rfl | rfl⟩ := hl
  · exact .inl (by simp)
  · exact .inr ⟨pieces.flatten, s, by simp⟩

theorem not_scanEnds_nil : ¬ ScanEnds [] := by
  intro h
  obtain h | h := h.mem_or_infix
  · cases h
  · exact absurd (List.eq_nil_of_infix_nil h) (by decide)

/-- **The scan ends exactly where the text ahead of it does so.** -/
theorem ends_cleanRound_iff (l : List UInt8) (n : Int) :
    While.Ends cleanRound ⟨l, n⟩ ↔ ScanEnds l := by
  constructor
  · refine While.Ends.induct (P := fun s : CleanState => ScanEnds s.unread) ?_ ?_
    · intro s r hr
      obtain ⟨w, t, hw, hl, hround⟩ | hround | ⟨hl, -⟩ := cleanRound_cases s
      · cases hr.symm.trans hround
      · cases hr.symm.trans hround
      · exact scanEnds_of_stopsAt hl
    · intro s t ht ih
      obtain ⟨w, u, hw, hl, hround⟩ | hround | ⟨-, r, hround⟩ := cleanRound_cases s
      · obtain rfl := Sum.inl.inj (ht.symm.trans hround)
        exact hl ▸ ih.piece_append hw
      · -- from the end of the file the scan does not end
        obtain rfl := Sum.inl.inj (ht.symm.trans hround)
        exact absurd ih not_scanEnds_nil
      · cases ht.symm.trans hround
  · intro h
    obtain ⟨pieces, t, rfl, hpieces, ht⟩ := h
    induction pieces generalizing n with
    | nil =>
        obtain ⟨r, hr⟩ := cleanRound_stop ht n
        exact While.ends_of_exit hr
    | cons w pieces ih =>
        have hround := cleanRound_piece (hpieces w List.mem_cons_self) (pieces.flatten ++ t) n
        rw [List.flatten_cons, List.append_assoc, While.ends_iff_of_again hround]
        exact ih (n - 1) (fun v hv => hpieces v (List.mem_cons_of_mem w hv))

/-! ## §6. Whether log cleaning ends. -/

/-- The last bytes of a log that is to be cut down, where the scan begins. -/
def scanned (loglevel log_length : Int) (content : List UInt8) : List UInt8 :=
  logTail (log_length - 1024) (truncatedLog loglevel content)

theorem cleanLog_ends_iff (fresh : List UInt8) {loglevel log_length : Int} {content : List UInt8}
    (hlog : loglevel ≠ 0) (hlong : log_length < content.length) :
    (∃ fuel log, cleanLog fresh fuel loglevel log_length content = some log)
      ↔ While.Ends cleanRound ⟨scanned loglevel log_length content, log_length - 1024⟩ := by
  simp only [cleanLog, if_neg hlog, if_pos hlong]
  constructor
  · intro h
    obtain ⟨fuel, log, h⟩ := h
    obtain ⟨found, hrun, -⟩ := Option.map_eq_some_iff.mp h
    exact ⟨fuel, found, hrun⟩
  · intro h
    obtain ⟨fuel, found, hrun⟩ := h
    exact ⟨fuel, _, Option.map_eq_some_iff.mpr ⟨found, hrun, rfl⟩⟩

/-- **LOG CLEANING ENDS EXACTLY IF ITS SCAN DOES**: the last bytes of the log
are a row of pieces up to a marker or a NUL.  It does not end where there is no
marker (`ScanEnds.mem_or_infix`), and not where every marker is cut in two. -/
theorem cleanLog_terminates_iff (fresh : List UInt8) {loglevel log_length : Int}
    {content : List UInt8} (hlog : loglevel ≠ 0) (hlong : log_length < content.length) :
    (∃ fuel log, cleanLog fresh fuel loglevel log_length content = some log)
      ↔ ScanEnds (scanned loglevel log_length content) :=
  (cleanLog_ends_iff fresh hlog hlong).trans (ends_cleanRound_iff _ _)

/-- One record of a log, with a URI of some length. -/
def sampleRecord (length : Nat) : List UInt8 :=
  writelog 1 1 (bytes "\r\n===> 2015-03-01 12:00:00, URI: 'ph:" ++
    List.replicate length (ascii 'a') ++ bytes "'")

theorem sampleRecord_long : logLength (bytes "1100") < (sampleRecord 1100).length := by
  decide +kernel

/-- Two records, of which the second is within reach. -/
theorem cleanLog_terminates_iff_sample :
    ∃ fuel log, cleanLog [] fuel 1 (logLength (bytes "1100"))
      (sampleRecord 1100 ++ sampleRecord 1) = some log := by
  refine (cleanLog_terminates_iff [] (by decide) (by decide +kernel)).mpr ?_
  have htail : scanned 1 (logLength (bytes "1100")) (sampleRecord 1100 ++ sampleRecord 1)
      = (List.replicate 32 (ascii 'a') ++ bytes "'\r\n\r\n") ++ (recordMark
        ++ bytes " 2015-03-01 12:00:00, URI: 'ph:a'\r\n") := by decide +kernel
  rw [htail]
  exact ScanEnds.append_of_plain (by decide +kernel) (scanEnds_of_stopsAt ⟨_, .inr rfl⟩)

/-- A single record that is longer than the log may get has no marker at its end. -/
theorem longRecord_not_scanEnds :
    ¬ ScanEnds (scanned 1 (logLength (bytes "1100")) (sampleRecord 1100)) := by
  intro hends
  have hfree : 0 ∉ scanned 1 (logLength (bytes "1100")) (sampleRecord 1100)
      ∧ ascii '>' ∉ scanned 1 (logLength (bytes "1100")) (sampleRecord 1100) := by
    decide +kernel
  obtain hnul | hmark := hends.mem_or_infix
  · exact hfree.1 hnul
  · exact hfree.2 (hmark.subset (by decide))

/-- It is scanned for ever. -/
theorem longRecord_never_cleaned :
    ¬ ∃ fuel log, cleanLog [] fuel 1 (logLength (bytes "1100")) (sampleRecord 1100)
      = some log := by
  intro h
  have hscan := (cleanLog_ends_iff [] (by decide) sampleRecord_long).mp h
  exact longRecord_not_scanEnds ((ends_cleanRound_iff _ _).mp hscan)

/-! ## §7. What log cleaning keeps. -/

/-- What log cleaning is for: the log is cut in front of the first marker that
is within reach. -/
structure KeepsRecords (newlen : Int) (log new : List UInt8) : Prop where
  suffix : new <:+ log
  short : (new.length : Int) ≤ newlen
  marked : recordMark <+: new
  earliest : ∃ front, logTail newlen log = front ++ new
    ∧ ∀ before after, logTail newlen log = before ++ (recordMark ++ after) →
        front.length ≤ before.length

/-- What the scan from `s` on can end with: at a NUL with nothing, or behind
the first `=` of a marker, with one taken off `newlen` for each round. -/
def ScanFinds (s : CleanState) : Option CleanState → Prop
  | none => 0 ∈ s.unread
  | some found => ∃ (pieces : List (List UInt8)) (t : List UInt8),
      s.unread = pieces.flatten ++ (recordMark ++ t) ∧ (∀ w ∈ pieces, SkippedPiece w)
        ∧ found = ⟨bytes "==>" ++ t, s.newlen - pieces.length - 1⟩

theorem cleanRound_finds (s : CleanState) (r : Option CleanState) (h : cleanRound s = .inr r) :
    ScanFinds s r := by
  obtain ⟨w, t, -, -, hround⟩ | hround | ⟨⟨t, ht | ht⟩, -⟩ := cleanRound_cases s
  · cases h.symm.trans hround
  · cases h.symm.trans hround
  · obtain ⟨l, n⟩ := s
    obtain rfl : l = 0 :: t := ht
    obtain rfl : none = r := Sum.inr.inj h
    exact List.mem_cons_self
  · obtain ⟨l, n⟩ := s
    obtain rfl : l = recordMark ++ t := ht
    obtain rfl : some ⟨bytes "==>" ++ t, n - 1⟩ = r := Sum.inr.inj h
    exact ⟨[], t, rfl, by simp, by simp⟩

theorem ScanFinds.of_again (s t : CleanState) (r : Option CleanState)
    (h : cleanRound s = .inl t) (hr : ScanFinds t r) : ScanFinds s r := by
  obtain ⟨w, u, hw, hl, hround⟩ | hround | ⟨-, r', hround⟩ := cleanRound_cases s
  · obtain rfl := Sum.inl.inj (h.symm.trans hround)
    cases r with
    | none =>
        show (0 : UInt8) ∈ s.unread
        rw [hl]
        exact List.mem_append_right w hr
    | some found =>
        obtain ⟨pieces, v, hu, hpieces, hfound⟩ := hr
        refine ⟨w :: pieces, v, ?_, List.forall_mem_cons.mpr ⟨hw, hpieces⟩, ?_⟩
        · rw [hl, List.flatten_cons, List.append_assoc]
          exact congrArg (w ++ ·) hu
        · rw [hfound, List.length_cons, CleanState.mk.injEq]
          exact ⟨rfl, by push_cast; omega⟩
  · -- at the end of the file nothing is found
    obtain rfl := Sum.inl.inj (h.symm.trans hround)
    cases r with
    | none => cases hr
    | some found =>
        obtain ⟨pieces, v, hu, -⟩ := hr
        exact absurd hu.symm (by simp [recordMark, bytes])
  · cases h.symm.trans hround

/-- A log that is too long has as many bytes as are to be kept of it. -/
theorem length_scanned (loglevel : Int) {log_length : Int} {content : List UInt8}
    (hlen : 1024 < log_length) (hlong : log_length < content.length) :
    ((scanned loglevel log_length content).length : Int) = log_length - 1024 := by
  have hlog : content.length ≤ (truncatedLog loglevel content).length := by
    unfold truncatedLog measuredLog
    simp only [List.length_append]
    omega
  unfold scanned logTail
  rw [List.length_drop]
  omega

theorem length_le_flatten {pieces : List (List UInt8)} (h : ∀ w ∈ pieces, SkippedPiece w) :
    pieces.length ≤ pieces.flatten.length := by
  induction pieces with
  | nil => exact Nat.le_refl 0
  | cons w pieces ih =>
      have hw : 0 < w.length := by cases h w List.mem_cons_self <;> exact Nat.succ_pos _
      have hrest := ih (fun v hv => h v (List.mem_cons_of_mem w hv))
      rw [List.flatten_cons, List.length_append, List.length_cons]
      omega

/-- What a log that is too long is replaced by, after a scan without a NUL. -/
theorem cleanLog_finds {fresh : List UInt8} {fuel : Nat} {loglevel log_length : Int}
    {content new : List UInt8} (hlog : loglevel ≠ 0) (hlong : log_length < content.length)
    (hnul : 0 ∉ scanned loglevel log_length content)
    (h : cleanLog fresh fuel loglevel log_length content = some new) :
    ∃ (pieces : List (List UInt8)) (t : List UInt8),
      scanned loglevel log_length content = pieces.flatten ++ (recordMark ++ t)
        ∧ (∀ w ∈ pieces, SkippedPiece w)
        ∧ new = keptLog fresh ⟨bytes "==>" ++ t, log_length - 1024 - pieces.length - 1⟩ := by
  simp only [cleanLog, if_neg hlog, if_pos hlong] at h
  obtain ⟨found, hrun, hnew⟩ := Option.map_eq_some_iff.mp h
  have hfinds := While.run_relation cleanRound_finds ScanFinds.of_again hrun
  cases found with
  | none => exact absurd hfinds hnul
  | some found =>
      obtain ⟨pieces, t, hscan, hpieces, hfound⟩ := hfinds
      exact ⟨pieces, t, hscan, hpieces, by rw [← hfound]; exact hnew.symm⟩

/-- **What is written back**: what follows the first `=` of a marker, up to the
end of the log, and from behind that in the block a byte for each character
that a round read beyond its first.  Every configured length is long enough
(`lt_logLength`). -/
theorem cleanLog_writes {fresh : List UInt8} {fuel : Nat} {loglevel log_length : Int}
    {content new : List UInt8} (hlog : loglevel ≠ 0) (hlen : 1024 < log_length)
    (hlong : log_length < content.length) (hnul : 0 ∉ scanned loglevel log_length content)
    (h : cleanLog fresh fuel loglevel log_length content = some new) :
    ∃ (pieces : List (List UInt8)) (t : List UInt8),
      scanned loglevel log_length content = pieces.flatten ++ (recordMark ++ t)
        ∧ (∀ w ∈ pieces, SkippedPiece w)
        ∧ new = cstr (bytes "==>" ++ t ++ (fresh.drop (bytes "==>" ++ t).length).take
            (pieces.flatten.length - pieces.length)) := by
  obtain ⟨pieces, t, hscan, hpieces, rfl⟩ := cleanLog_finds hlog hlong hnul h
  refine ⟨pieces, t, hscan, hpieces, ?_⟩
  have hall := length_scanned loglevel hlen hlong
  -- a round takes one off `newlen`, whatever it has read
  have hle := length_le_flatten hpieces
  have hcount : (log_length - 1024 - pieces.length - 1 + 3 - 3).toNat
      = (bytes "==>" ++ t).length + (pieces.flatten.length - pieces.length) := by
    have hmark : recordMark.length = 4 := rfl
    have hrest : (bytes "==>").length = 3 := rfl
    rw [hscan, List.length_append, List.length_append, hmark] at hall
    rw [List.length_append, hrest]
    omega
  unfold keptLog
  dsimp only
  rw [hcount, List.take_length_add_append]

/-- The first `=` of the marker is lost. -/
theorem not_mark_prefix_keptLog (fresh t : List UInt8) (n : Int) :
    ¬ recordMark <+: keptLog fresh ⟨bytes "==>" ++ t, n⟩ := by
  intro h
  have hblock : recordMark <+: bytes "==>" ++ (t ++ fresh.drop (bytes "==>" ++ t).length) := by
    rw [← List.append_assoc]
    exact (h.trans (List.takeWhile_prefix _)).trans (List.take_prefix _ _)
  simp [recordMark, bytes] at hblock

theorem IsCStr.append {s t : CStr} (hs : IsCStr s) (ht : IsCStr t) : IsCStr (s ++ t) :=
  fun h => (List.mem_append.mp h).elim hs ht

/-- A number is written without a NUL. -/
theorem bytes_toString_isCStr (n : Nat) : IsCStr (bytes (toString n)) := by
  intro h
  obtain ⟨c, hc, hzero⟩ := List.mem_map.mp h
  have hdigit : c.isDigit = true := by
    rw [show toString n = n.repr from rfl, Nat.toList_repr] at hc
    exact Nat.isDigit_of_mem_toDigits (by omega) (by omega) hc
  have hcode : ascii c = ascii (Char.ofNat 0) := hzero
  rw [ascii_eq_iff] at hcode
  simp only [Char.isDigit, Bool.and_eq_true, decide_eq_true_eq, UInt32.le_iff_toNat_le] at hdigit
  have hlow : 48 ≤ c.toNat := hdigit.1
  have hhigh : c.toNat ≤ 57 := hdigit.2
  have hnul : (Char.ofNat 0).toNat = 0 := rfl
  omega

theorem writelog_isCStr {loglevel : Int} {level : Nat} {str : CStr} (h : IsCStr str) :
    IsCStr (writelog loglevel level str) := by
  unfold writelog
  split
  · exact List.not_mem_nil
  · have htabs : IsCStr (List.replicate (min level 19 - 1) (ascii '\t')) := by
      intro htab
      exact absurd (List.eq_of_mem_replicate htab) (by decide)
    exact (htabs.append h).append (by decide)

/-- The two notes of `main` have no NUL. -/
theorem truncatedLog_isCStr {loglevel : Int} {content : List UInt8} (h : IsCStr content) :
    IsCStr (truncatedLog loglevel content) := by
  have hsize : IsCStr (bytes "logfile size: " ++ bytes (toString content.length)) :=
    IsCStr.append (by decide) (bytes_toString_isCStr _)
  exact (h.append (writelog_isCStr hsize)).append (writelog_isCStr (by decide))

/-- **LOG CLEANING NEVER KEEPS WHOLE RECORDS**: whenever it rewrites the log,
what it writes does not begin with a marker. -/
theorem cleanLog_keeps_iff (fresh : List UInt8) {loglevel log_length : Int}
    {content : List UInt8} (hlog : loglevel ≠ 0) (hlong : log_length < content.length)
    (hnul : IsCStr content) :
    (∀ fuel new, cleanLog fresh fuel loglevel log_length content = some new →
        KeepsRecords (log_length - 1024) (truncatedLog loglevel content) new)
      ↔ ¬ ScanEnds (scanned loglevel log_length content) := by
  -- without a NUL the scan can only end at a marker
  have hfree : 0 ∉ scanned loglevel log_length content :=
    (truncatedLog_isCStr hnul).of_isInfix (List.drop_suffix _ _).isInfix
  constructor
  · intro hkeeps hends
    rw [← ends_cleanRound_iff _ (log_length - 1024), ← cleanLog_ends_iff fresh hlog hlong] at hends
    obtain ⟨fuel, new, hclean⟩ := hends
    obtain ⟨pieces, t, -, -, rfl⟩ := cleanLog_finds hlog hlong hfree hclean
    exact not_mark_prefix_keptLog fresh t _ (hkeeps fuel _ hclean).marked
  · intro hno fuel new hclean
    have hends := (cleanLog_ends_iff fresh hlog hlong).mp ⟨fuel, new, hclean⟩
    exact absurd ((ends_cleanRound_iff _ _).mp hends) hno

/-- The log with a single long record is not rewritten. -/
theorem cleanLog_keeps_iff_sample :
    ¬ ScanEnds (scanned 1 (logLength (bytes "1100")) (sampleRecord 1100))
      ∧ ∀ fuel new, cleanLog [] fuel 1 (logLength (bytes "1100")) (sampleRecord 1100) = some new →
        KeepsRecords (logLength (bytes "1100") - 1024) (truncatedLog 1 (sampleRecord 1100)) new := by
  exact ⟨longRecord_not_scanEnds,
    (cleanLog_keeps_iff [] (by decide) sampleRecord_long (by decide +kernel)).mpr
      longRecord_not_scanEnds⟩

/-- Of two records the second loses the first character of its marker. -/
theorem cleanLog_loses_mark :
    ∃ fuel new, cleanLog [] fuel 1 (logLength (bytes "1100"))
        (sampleRecord 1100 ++ sampleRecord 1) = some new
      ∧ new = bytes "==> 2015-03-01 12:00:00, URI: 'ph:a'\r\n"
      ∧ ¬ KeepsRecords (logLength (bytes "1100") - 1024)
          (truncatedLog 1 (sampleRecord 1100 ++ sampleRecord 1)) new := by
  refine ⟨40, _, by decide +kernel, rfl, ?_⟩
  intro h
  exact absurd h.marked (by decide)

end Protohand
