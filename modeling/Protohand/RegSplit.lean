/-
  Protohand.RegSplit
  ──────────────────
  **TAKING A REGEX DIRECTIVE APART.**

  The comment on `regreplace` asks for `/search/replace/modifiers`, with every
  `/` inside of a part written as `\/`.  The loop resolves these escapes by
  looking one character ahead of a backslash and one character behind a `/`.
  A backslash in front of another one is dropped, too, wherever it stands:

    • `regSplit_directive`       — of each run of backslashes the last is left,
    • `regSplit_roundtrip_iff`   — which directives come out as they went in,
    • `regreplace_rejects_iff`   — that a fifth part is never rejected.
-/
import Protohand.Reg
import Protohand.Lib.Text

namespace Protohand

open Text

/-! ## §1. One round. -/

/-- A `/` that ends a part: the first character, or one without a backslash
in front of it. -/
def IsSeparator (areg : CStr) (c : UInt8) (i : Nat) : Prop :=
  c = ascii '/' ∧ (i = 0 ∨ areg[i - 1]? ≠ some (ascii '\\'))

/-- A backslash that is not stored. -/
def IsDropped (areg : CStr) (c : UInt8) (i : Nat) : Prop :=
  c = ascii '\\' ∧ (areg[i + 1]? = some (ascii '/') ∨ areg[i + 1]? = some (ascii '\\'))

instance (areg : CStr) (c : UInt8) (i : Nat) : Decidable (IsSeparator areg c i) :=
  inferInstanceAs (Decidable (_ ∧ _))

instance (areg : CStr) (c : UInt8) (i : Nat) : Decidable (IsDropped areg c i) :=
  inferInstanceAs (Decidable (_ ∧ _))

/-- **ONE ROUND**, while the loop goes on: a part is ended, a backslash dropped,
or a character stored. -/
theorem regStep_cases {areg : CStr} {s : RegScan} (hpos : s.pos < 5) (c : UInt8) (i : Nat) :
    regStep areg s (c, i)
      = if IsSeparator areg c i then some { s with pos := s.pos + 1 }
        else if IsDropped areg c i then some s else s.store c := by
  have hslash : ascii '\\' ≠ ascii '/' := by decide
  unfold regStep IsSeparator IsDropped
  simp only
  rw [if_neg (by omega)]
  by_cases hc : c = ascii '/'
  · subst hc
    by_cases hi : i = 0
    · simp [hi]
    · simp [hi, hslash.symm]
  · by_cases hb : c = ascii '\\'
    · subst hb
      by_cases hone : areg[i + 1]? = some (ascii '/')
      · simp [hone, hslash]
      · simp [hone, hslash]
    · simp [hc, hb]

/-- The part that is being filled, with a text behind it. -/
def RegScan.add (s : RegScan) (t : CStr) : RegScan :=
  match s.pos with
  | 0 => { s with pre := s.pre ++ t }
  | 1 => { s with reg := s.reg ++ t }
  | 2 => { s with replace := s.replace ++ t }
  | 3 => { s with modifier := s.modifier ++ t }
  | _ => s

theorem RegScan.store_eq_add {s : RegScan} (h : s.pos ≤ 3) (c : UInt8) :
    s.store c = some (s.add [c]) := by
  obtain ⟨pos, pre, reg, replace, modifier⟩ := s
  match pos, h with
  | 0, _ | 1, _ | 2, _ | 3, _ => rfl

@[simp] theorem RegScan.add_pos (s : RegScan) (t : CStr) : (s.add t).pos = s.pos := by
  unfold RegScan.add
  split <;> rfl

@[simp] theorem RegScan.add_nil (s : RegScan) : s.add [] = s := by
  unfold RegScan.add
  split <;> simp

theorem RegScan.add_add (s : RegScan) (t u : CStr) : (s.add t).add u = s.add (t ++ u) := by
  obtain ⟨pos, pre, reg, replace, modifier⟩ := s
  match pos with
  | 0 | 1 | 2 | 3 => simp [RegScan.add]
  | _ + 4 => rfl

/-! ## §2. Escaped texts. -/

/-- Every `/` written as `\/`, and nothing else changed. -/
def escapeSlashes (t : CStr) : CStr :=
  t.flatMap (fun c => if c = ascii '/' then [ascii '\\', ascii '/'] else [c])

/-- A text whose backslashes cannot be taken for escapes of a `/`. -/
structure IsRegText (t : CStr) : Prop where
  no_slash : ¬ [ascii '\\', ascii '/'] <:+: t
  no_last : t.getLast? ≠ some (ascii '\\')

/-- Of each run of backslashes, the last one. -/
def lastOfRuns : CStr → CStr
  | [] => []
  | c :: t =>
      if c = ascii '\\' ∧ t.head? = some (ascii '\\') then lastOfRuns t else c :: lastOfRuns t

theorem length_lastOfRuns_le (t : CStr) : (lastOfRuns t).length ≤ t.length := by
  induction t with
  | nil => exact Nat.le_refl 0
  | cons c t ih =>
      rw [lastOfRuns]
      split
      · rw [List.length_cons]
        omega
      · rw [List.length_cons, List.length_cons]
        omega

/-- Nothing is lost of a text without two backslashes in a row. -/
theorem lastOfRuns_eq_self_iff (t : CStr) :
    lastOfRuns t = t ↔ ¬ [ascii '\\', ascii '\\'] <:+: t := by
  induction t with
  | nil => simp [lastOfRuns]
  | cons c t ih =>
      rw [lastOfRuns, pair_infix_cons, not_or, ← ih]
      -- a backslash that is dropped is missing for good: nothing is put in its place
      by_cases hrun : c = ascii '\\' ∧ t.head? = some (ascii '\\')
      · rw [if_pos hrun]
        refine iff_of_false ?_ (fun h => h.1 hrun)
        intro heq
        have hlen := length_lastOfRuns_le t
        rw [heq, List.length_cons] at hlen
        omega
      · rw [if_neg hrun, List.cons.injEq, and_iff_right rfl, and_iff_right hrun]

theorem escapeSlashes_slash (t : CStr) :
    escapeSlashes (ascii '/' :: t) = ascii '\\' :: ascii '/' :: escapeSlashes t := rfl

theorem escapeSlashes_cons {c : UInt8} (hc : c ≠ ascii '/') (t : CStr) :
    escapeSlashes (c :: t) = c :: escapeSlashes t := by
  unfold escapeSlashes
  rw [List.flatMap_cons, if_neg hc, List.singleton_append]

theorem escapeSlashes_of_free {t : CStr} (h : ascii '/' ∉ t) : escapeSlashes t = t := by
  induction t with
  | nil => rfl
  | cons c t ih =>
      rw [List.mem_cons, not_or] at h
      rw [escapeSlashes_cons (fun hc => h.1 hc.symm), ih h.2]

/-- Escaping keeps the last character. -/
theorem getLast?_escapeSlashes (t : CStr) : (escapeSlashes t).getLast? = t.getLast? := by
  induction t using List.reverseRecOn with
  | nil => rfl
  | append_singleton t c _ =>
      unfold escapeSlashes
      rw [List.flatMap_append, List.getLast?_append, List.getLast?_concat]
      by_cases hc : c = ascii '/'
      · simp [hc]
      · simp [hc]

/-- What is left of such a text is such a text, and a backslash is not followed
by a `/`. -/
theorem IsRegText.tail {c : UInt8} {t : CStr} (h : IsRegText (c :: t)) :
    IsRegText t ∧ (c = ascii '\\' → ∃ d rest, t = d :: rest ∧ d ≠ ascii '/') := by
  have hslash := h.no_slash
  rw [pair_infix_cons, not_or] at hslash
  cases t with
  | nil =>
      -- the last character is no backslash
      refine ⟨⟨hslash.2, by simp⟩, ?_⟩
      rintro rfl
      exact absurd rfl h.no_last
  | cons d rest =>
      refine ⟨⟨hslash.2, by simpa using h.no_last⟩, ?_⟩
      intro hc
      refine ⟨d, rest, rfl, ?_⟩
      rintro rfl
      exact hslash.1 ⟨hc, rfl⟩

/-! ## §3. The round trip. -/

section Split

variable {areg : CStr}

/-- The characters around an index behind a text. -/
theorem getElem?_behind {pre post : CStr} {c d : UInt8} (h : areg = pre ++ c :: d :: post) :
    areg[pre.length]? = some c ∧ areg[pre.length + 1]? = some d := by
  rw [h]
  constructor
  · rw [List.getElem?_append_right (Nat.le_refl _), Nat.sub_self]
    rfl
  · rw [List.getElem?_append_right (by omega), Nat.add_sub_cancel_left]
    rfl

/-- An escape: the backslash is dropped, and the `/` behind it stored. -/
theorem regStep_escape {pre post : CStr} {s : RegScan}
    (hareg : areg = pre ++ ascii '\\' :: ascii '/' :: post) (hpos : s.pos ≤ 3) :
    regStep areg s (ascii '\\', pre.length) = some s
      ∧ regStep areg s (ascii '/', pre.length + 1) = some (s.add [ascii '/']) := by
  obtain ⟨hback, hslash⟩ := getElem?_behind hareg
  have hsep : ¬ IsSeparator areg (ascii '/') (pre.length + 1) := by
    rintro ⟨_, hzero | hprev⟩
    · omega
    · exact hprev hback
  constructor
  · -- one character ahead
    rw [regStep_cases (by omega), if_neg (fun h => absurd h.1 (by decide)),
      if_pos ⟨rfl, Or.inl hslash⟩]
  · -- one character behind
    rw [regStep_cases (by omega), if_neg hsep, if_neg (fun h => absurd h.1 (by decide)),
      RegScan.store_eq_add hpos]

/-- Any other character of an escaped text is stored, but for a backslash in front
of another one. -/
theorem regStep_text {t pre post : CStr} {c : UInt8} {s : RegScan}
    (hareg : areg = pre ++ c :: (escapeSlashes t ++ post)) (hc : c ≠ ascii '/')
    (hnext : c = ascii '\\' → ∃ d rest, t = d :: rest ∧ d ≠ ascii '/') (hpos : s.pos ≤ 3) :
    regStep areg s (c, pre.length)
      = some (if c = ascii '\\' ∧ t.head? = some (ascii '\\') then s else s.add [c]) := by
  have hdropped : IsDropped areg c pre.length ↔ c = ascii '\\' ∧ t.head? = some (ascii '\\') := by
    constructor
    · rintro ⟨hb, hahead⟩
      -- the character behind a backslash stands there as it is, for it is no `/`
      obtain ⟨d, rest, rfl, hd⟩ := hnext hb
      rw [escapeSlashes_cons hd] at hareg
      rw [(getElem?_behind hareg).2, Option.some.injEq, Option.some.injEq, or_iff_right hd]
        at hahead
      exact ⟨hb, by rw [hahead]; rfl⟩
    · rintro ⟨hb, hahead⟩
      obtain ⟨rest, rfl⟩ := List.head?_eq_some_iff.mp hahead
      rw [escapeSlashes_cons (by decide)] at hareg
      exact ⟨hb, Or.inr (getElem?_behind hareg).2⟩
  have hsep : ¬ IsSeparator areg c pre.length := fun h => hc h.1
  rw [regStep_cases (by omega), if_neg hsep]
  by_cases hrun : c = ascii '\\' ∧ t.head? = some (ascii '\\')
  · rw [if_pos (hdropped.mpr hrun), if_pos hrun]
  · rw [if_neg (fun h => hrun (hdropped.mp h)), if_neg hrun, RegScan.store_eq_add hpos]

/-- **AN ESCAPED TEXT** is put into the part that is being filled, without the
backslashes that stand in front of another one. -/
theorem run_escaped : ∀ (t pre post : CStr) (s : RegScan),
    areg = pre ++ (escapeSlashes t ++ post) → IsRegText t → s.pos ≤ 3 →
      ((escapeSlashes t).zipIdx pre.length).foldlM (regStep areg) s = some (s.add (lastOfRuns t))
  | [], pre, post, s, _, _, _ => by
      rw [lastOfRuns, RegScan.add_nil]
      rfl
  | c :: t, pre, post, s, hareg, ht, hpos => by
      obtain ⟨htail, hnext⟩ := ht.tail
      by_cases hc : c = ascii '/'
      · subst hc
        have hareg' : areg = pre ++ ascii '\\' :: ascii '/' :: (escapeSlashes t ++ post) := hareg
        obtain ⟨hdrop, hstore⟩ := regStep_escape hareg' hpos
        have ih := run_escaped t (pre ++ [ascii '\\', ascii '/']) post (s.add [ascii '/'])
          (by rw [hareg', List.append_assoc]; rfl) htail (by rw [RegScan.add_pos]; exact hpos)
        rw [List.length_append, RegScan.add_add] at ih
        rw [escapeSlashes_slash, List.zipIdx_cons, List.foldlM_cons, hdrop]
        show List.foldlM (regStep areg) s ((ascii '/' :: escapeSlashes t).zipIdx (pre.length + 1)) = _
        rw [List.zipIdx_cons, List.foldlM_cons, hstore]
        exact ih
      · have hareg' : areg = pre ++ c :: (escapeSlashes t ++ post) := by
          rw [hareg, escapeSlashes_cons hc]
          rfl
        have ih : ∀ s' : RegScan, s'.pos ≤ 3 →
            ((escapeSlashes t).zipIdx (pre.length + 1)).foldlM (regStep areg) s'
              = some (s'.add (lastOfRuns t)) := by
          intro s' hs'
          have ih' := run_escaped t (pre ++ [c]) post s' (by rw [hareg', List.append_assoc]; rfl)
            htail hs'
          rwa [List.length_append] at ih'
        rw [escapeSlashes_cons hc, List.zipIdx_cons, List.foldlM_cons,
          regStep_text hareg' hc hnext hpos, lastOfRuns]
        by_cases hrun : c = ascii '\\' ∧ t.head? = some (ascii '\\')
        · rw [if_pos hrun, if_pos hrun]
          exact ih s hpos
        · rw [if_neg hrun, if_neg hrun]
          show List.foldlM (regStep areg) (s.add [c]) _ = _
          rw [ih (s.add [c]) (by rw [RegScan.add_pos]; exact hpos), RegScan.add_add]
          rfl

/-- A part and the `/` behind it, where no backslash stands in front of both. -/
theorem run_part {t pre post : CStr} {s : RegScan}
    (hareg : areg = pre ++ ((escapeSlashes t ++ [ascii '/']) ++ post)) (ht : IsRegText t)
    (hpre : pre.getLast? ≠ some (ascii '\\')) (hpos : s.pos ≤ 3) :
    (((escapeSlashes t ++ [ascii '/']) ++ post).zipIdx pre.length).foldlM (regStep areg) s
      = (post.zipIdx (pre ++ (escapeSlashes t ++ [ascii '/'])).length).foldlM (regStep areg)
          { s.add (lastOfRuns t) with pos := s.pos + 1 } := by
  have hareg' : areg = pre ++ (escapeSlashes t ++ (ascii '/' :: post)) := by
    rw [hareg, List.append_assoc]
    rfl
  have hcut : areg = (pre ++ escapeSlashes t) ++ ascii '/' :: post := by
    rw [hareg', List.append_assoc]
  have hsep : IsSeparator areg (ascii '/') (pre.length + (escapeSlashes t).length) := by
    refine ⟨rfl, ?_⟩
    by_cases hzero : pre.length + (escapeSlashes t).length = 0
    · exact Or.inl hzero
    · -- in front of it stands the end of the text, or of `pre` where the text is empty
      right
      rw [hcut, List.getElem?_append_left (by rw [List.length_append]; omega),
        ← List.length_append, ← List.getLast?_eq_getElem?, List.getLast?_append,
        getLast?_escapeSlashes]
      intro hback
      cases hlast : t.getLast? with
      | none => rw [hlast] at hback; exact hpre hback
      | some c => rw [hlast] at hback; exact ht.no_last (hlast.trans hback)
  have hend : pre.length + (escapeSlashes t).length + 1
      = (pre ++ (escapeSlashes t ++ [ascii '/'])).length := by
    rw [List.length_append, List.length_append, List.length_singleton, Nat.add_assoc]
  rw [List.append_assoc, List.zipIdx_append, List.foldlM_append,
    run_escaped t pre _ s hareg' ht hpos]
  show List.foldlM (regStep areg) (s.add (lastOfRuns t))
    ((ascii '/' :: post).zipIdx (pre.length + (escapeSlashes t).length)) = _
  rw [List.zipIdx_cons, List.foldlM_cons, regStep_cases (by rw [RegScan.add_pos]; omega),
    if_pos hsep, RegScan.add_pos, hend]
  rfl

end Split

/-- A directive, written as the comment on `regreplace` asks for. -/
def directive (s r m : CStr) : CStr :=
  ascii '/' :: ((escapeSlashes s ++ [ascii '/']) ++ ((escapeSlashes r ++ [ascii '/']) ++ m))

/-- **WHAT COMES OUT OF A DIRECTIVE.** -/
theorem regSplit_directive {s r m : CStr} (hs : IsRegText s) (hr : IsRegText r)
    (hslash : ascii '/' ∉ m) (hback : ascii '\\' ∉ m) :
    regSplit (directive s r m) = some ⟨3, [], lastOfRuns s, lastOfRuns r, m⟩ := by
  have hm : IsRegText m :=
    ⟨fun h => hback (h.subset (by simp)), fun h => hback (List.mem_of_getLast? h)⟩
  have hkept : lastOfRuns m = m :=
    (lastOfRuns_eq_self_iff m).mpr (fun h => hback (h.subset (by simp)))
  -- the first `/` ends the empty part in front of it
  have hfirst : regStep (directive s r m) ⟨0, [], [], [], []⟩ (ascii '/', 0)
      = some ⟨1, [], [], [], []⟩ := by
    rw [regStep_cases (by decide), if_pos ⟨rfl, Or.inl rfl⟩]
  have hmodifier : ((escapeSlashes m).zipIdx (([ascii '/'] ++ (escapeSlashes s ++ [ascii '/']))
      ++ (escapeSlashes r ++ [ascii '/'])).length).foldlM (regStep (directive s r m))
        ⟨3, [], lastOfRuns s, lastOfRuns r, []⟩
      = some ⟨3, [], lastOfRuns s, lastOfRuns r, [] ++ lastOfRuns m⟩ :=
    run_escaped m _ [] _ (by rw [escapeSlashes_of_free hslash]; simp [directive]) hm (Nat.le_refl 3)
  rw [escapeSlashes_of_free hslash, hkept] at hmodifier
  have hzip : (directive s r m).zipIdx = (ascii '/', 0) :: ((escapeSlashes s ++ [ascii '/'])
      ++ ((escapeSlashes r ++ [ascii '/']) ++ m)).zipIdx 1 := rfl
  calc regSplit (directive s r m)
      = (((escapeSlashes s ++ [ascii '/']) ++ ((escapeSlashes r ++ [ascii '/']) ++ m)).zipIdx
          [ascii '/'].length).foldlM (regStep (directive s r m)) ⟨1, [], [], [], []⟩ := by
        unfold regSplit
        rw [hzip, List.foldlM_cons, hfirst]
        rfl
    _ = (((escapeSlashes r ++ [ascii '/']) ++ m).zipIdx
          ([ascii '/'] ++ (escapeSlashes s ++ [ascii '/'])).length).foldlM
          (regStep (directive s r m)) ⟨2, [], lastOfRuns s, [], []⟩ :=
        run_part rfl hs (by decide) (Nat.le_succ_of_le (Nat.le_succ 1))
    _ = (m.zipIdx (([ascii '/'] ++ (escapeSlashes s ++ [ascii '/']))
          ++ (escapeSlashes r ++ [ascii '/'])).length).foldlM
          (regStep (directive s r m)) ⟨3, [], lastOfRuns s, lastOfRuns r, []⟩ :=
        run_part (by simp [directive]) hr
          (by rw [← List.append_assoc, List.getLast?_concat]; decide) (Nat.le_succ 2)
    _ = some ⟨3, [], lastOfRuns s, lastOfRuns r, m⟩ := hmodifier

/-- **WHICH DIRECTIVES COME OUT AS THEY WENT IN**: those without two backslashes
in a row. -/
theorem regSplit_roundtrip_iff {s r m : CStr} (hs : IsRegText s) (hr : IsRegText r)
    (hslash : ascii '/' ∉ m) (hback : ascii '\\' ∉ m) :
    (∃ parts, regSplit (directive s r m) = some parts
        ∧ parts.reg = s ∧ parts.replace = r ∧ parts.modifier = m)
      ↔ ¬ [ascii '\\', ascii '\\'] <:+: s ∧ ¬ [ascii '\\', ascii '\\'] <:+: r := by
  rw [regSplit_directive hs hr hslash hback, ← lastOfRuns_eq_self_iff, ← lastOfRuns_eq_self_iff]
  constructor
  · rintro ⟨parts, hparts, hreg, hreplace, _⟩
    obtain rfl := Option.some.inj hparts
    exact ⟨hreg, hreplace⟩
  · rintro ⟨hreg, hreplace⟩
    exact ⟨_, rfl, hreg, hreplace, rfl⟩

theorem regSplit_roundtrip_iff_sample :
    ∃ parts, regSplit (directive (bytes "a/(\\d)\\.") (bytes "/$1") (bytes "gi")) = some parts
      ∧ parts.reg = bytes "a/(\\d)\\." ∧ parts.replace = bytes "/$1"
      ∧ parts.modifier = bytes "gi" :=
  (regSplit_roundtrip_iff ⟨by decide, by decide⟩ ⟨by decide, by decide⟩ (by decide) (by decide)).mpr
    ⟨by decide, by decide⟩

/-- The backslash of a path, written as a regex has it, arrives as half an escape. -/
theorem path_backslash_lost :
    IsRegText (bytes "C:\\\\x") ∧ IsRegText (bytes "y")
      ∧ directive (bytes "C:\\\\x") (bytes "y") [] = bytes "/C:\\\\x/y/"
      ∧ regSplit (bytes "/C:\\\\x/y/") = some ⟨3, [], bytes "C:\\x", bytes "y", []⟩
      ∧ ¬ ∃ parts, regSplit (directive (bytes "C:\\\\x") (bytes "y") []) = some parts
          ∧ parts.reg = bytes "C:\\\\x" ∧ parts.replace = bytes "y" ∧ parts.modifier = [] := by
  have hrun : regSplit (bytes "/C:\\\\x/y/") = some ⟨3, [], bytes "C:\\x", bytes "y", []⟩ := by
    decide
  have hdirective : directive (bytes "C:\\\\x") (bytes "y") [] = bytes "/C:\\\\x/y/" := by decide
  refine ⟨⟨by decide, by decide⟩, ⟨by decide, by decide⟩, hdirective, hrun, ?_⟩
  rintro ⟨parts, hparts, hreg, _⟩
  rw [hdirective, hrun, Option.some.injEq] at hparts
  rw [← hparts] at hreg
  exact absurd hreg (by decide)

/-! ## §4. The number of parts. -/

/-- How many times the loop could end a part. -/
def separators (areg : CStr) : Nat := areg.zipIdx.countP (fun ci => IsSeparator areg ci.1 ci.2)

/-- The part that is being filled; the loop stores at its end. -/
def RegScan.filled (s : RegScan) : CStr :=
  match s.pos with
  | 0 => s.pre
  | 1 => s.reg
  | 2 => s.replace
  | 3 => s.modifier
  | _ => []

/-- The state in front of the character at index `n`. -/
def RegReached (areg : CStr) (n : Nat) (s : RegScan) : Prop :=
  (areg.zipIdx.take n).foldlM (regStep areg) ⟨0, [], [], [], []⟩ = some s

/-- Every character that is stored, and the terminator behind it, goes to one of
the four parts and into its block. -/
def StoresInRange (areg : CStr) : Prop :=
  ∀ n s c, RegReached areg n s → areg[n]? = some c →
    s.pos < 5 → ¬ IsSeparator areg c n → ¬ IsDropped areg c n →
      s.pos ≤ 3 ∧ s.filled.length + 1 ≤ areg.length

/-- More than four parts are answered with `NULL` and `regerrno = 1`. -/
def RejectsMore (areg : CStr) : Prop :=
  4 < separators areg + 1 →
    ∀ regexReplace regerrno str, regreplace regexReplace regerrno areg str = some (none, 1)

/-- All that is stored. -/
def RegScan.size (s : RegScan) : Nat :=
  s.pre.length + s.reg.length + s.replace.length + s.modifier.length

theorem RegScan.filled_le_size (s : RegScan) : s.filled.length ≤ s.size := by
  unfold RegScan.filled RegScan.size
  split
  · omega
  · omega
  · omega
  · omega
  · exact Nat.zero_le _

theorem RegScan.size_add (s : RegScan) (c : UInt8) : (s.add [c]).size ≤ s.size + 1 := by
  obtain ⟨pos, pre, reg, replace, modifier⟩ := s
  match pos with
  | 0 | 1 | 2 | 3 =>
      simp only [RegScan.add, RegScan.size, List.length_append, List.length_singleton]
      omega
  | _ + 4 => exact Nat.le_succ _

/-- **One round** with parts left: a separator is counted, and one character
stored at most. -/
theorem regStep_counts {areg : CStr} {s s' : RegScan} {c : UInt8} {i : Nat} (hpos : s.pos ≤ 3)
    (h : regStep areg s (c, i) = some s') :
    s'.pos = s.pos + (if IsSeparator areg c i then 1 else 0) ∧ s'.size ≤ s.size + 1 := by
  rw [regStep_cases (by omega)] at h
  by_cases hsep : IsSeparator areg c i
  · rw [if_pos hsep, Option.some.injEq] at h
    subst h
    rw [if_pos hsep]
    exact ⟨rfl, Nat.le_succ _⟩
  · rw [if_neg hsep] at h ⊢
    by_cases hdrop : IsDropped areg c i
    · rw [if_pos hdrop, Option.some.injEq] at h
      subst h
      exact ⟨rfl, Nat.le_succ _⟩
    · rw [if_neg hdrop, RegScan.store_eq_add hpos, Option.some.injEq] at h
      subst h
      exact ⟨s.add_pos [c], s.size_add c⟩

/-- **A run** counts the separators, as long as there are parts left. -/
theorem run_counts {areg : CStr} (l : List (UInt8 × Nat)) {s s' : RegScan}
    (h : l.foldlM (regStep areg) s = some s')
    (hfew : s.pos + l.countP (fun ci => IsSeparator areg ci.1 ci.2) ≤ 3) :
    s'.pos ≤ 3 ∧ s'.size ≤ s.size + l.length := by
  induction l generalizing s with
  | nil =>
      obtain rfl : s = s' := by injection h
      exact ⟨hfew, Nat.le_refl _⟩
  | cons ci l ih =>
      obtain ⟨c, i⟩ := ci
      rw [List.countP_cons] at hfew
      rw [List.foldlM_cons] at h
      cases hstep : regStep areg s (c, i) with
      | none => rw [hstep] at h; cases h
      | some t =>
          rw [hstep] at h
          obtain ⟨hcount, hsize⟩ := regStep_counts (by omega) hstep
          have hrest : t.pos + l.countP (fun ci => IsSeparator areg ci.1 ci.2) ≤ 3 := by
            rw [hcount]
            simp only [decide_eq_true_eq] at hfew
            omega
          obtain ⟨hpos', hsize'⟩ := ih h hrest
          refine ⟨hpos', ?_⟩
          rw [List.length_cons]
          omega

/-- Up to four parts, nothing is stored anywhere else. -/
theorem storesInRange_of_few {areg : CStr} (h : separators areg ≤ 3) : StoresInRange areg := by
  intro n s c hs hc _ _ _
  have hn : n < areg.length := (List.getElem?_eq_some_iff.mp hc).1
  have hfew : 0 + (areg.zipIdx.take n).countP (fun ci => IsSeparator areg ci.1 ci.2) ≤ 3 := by
    have hle := (List.take_sublist n areg.zipIdx).countP_le
      (p := fun ci => decide (IsSeparator areg ci.1 ci.2))
    unfold separators at h
    omega
  -- no more characters are stored than were read
  obtain ⟨hpos, hsize⟩ := run_counts _ hs hfew
  have hfilled := s.filled_le_size
  have htake : (areg.zipIdx.take n).length ≤ n := List.length_take_le n _
  refine ⟨hpos, ?_⟩
  show s.filled.length + 1 ≤ areg.length
  have hstart : (⟨0, [], [], [], []⟩ : RegScan).size = 0 := rfl
  omega

/-- No number of parts is rejected: the loop comes to its end, or stores through
`NULL`. -/
theorem not_rejectsMore {areg : CStr} (h : 4 < separators areg + 1) : ¬ RejectsMore areg := by
  intro hrejects
  have hnull := hrejects h (fun str _ _ => .ok str) 0 []
  unfold regreplace at hnull
  cases hsplit : regSplit areg with
  | none => rw [hsplit] at hnull; cases hnull
  | some parts =>
      rw [hsplit] at hnull
      injection hnull with hnull
      injection hnull with hnull _
      cases hnull

/-- **WHEN A DIRECTIVE IS TAKEN APART SAFELY, OR REJECTED**: exactly where there
is nothing to reject. -/
theorem regreplace_rejects_iff (areg : CStr) :
    (StoresInRange areg ∧ RejectsMore areg) ↔ separators areg ≤ 3 := by
  constructor
  · rintro ⟨_, hrejects⟩
    by_contra hmany
    exact not_rejectsMore (by omega) hrejects
  · intro hfew
    exact ⟨storesInRange_of_few hfew, fun hmany => by omega⟩

/-- Five parts: with a `/` behind the modifiers the directive is executed, and
one more character is stored through `NULL`. -/
theorem fifth_part_executed :
    4 < separators (bytes "/a/b/m/") + 1
      ∧ regreplace (fun _ _ replace => .ok replace) 0 (bytes "/a/b/m/") (bytes "a")
        = some (some (bytes "b"), 0)
      ∧ regSplit (bytes "/a/b/m/x") = none
      ∧ ¬ StoresInRange (bytes "/a/b/m/x")
      ∧ ¬ RejectsMore (bytes "/a/b/m/") := by
  have hrun : regreplace (fun _ _ replace => .ok replace) 0 (bytes "/a/b/m/") (bytes "a")
      = some (some (bytes "b"), 0) := by decide
  refine ⟨by decide, hrun, by decide, ?_, ?_⟩
  · intro hstores
    have hfour := hstores 7 ⟨4, [], bytes "a", bytes "b", bytes "m"⟩ (ascii 'x')
      (by unfold RegReached; decide) (by decide) (by decide) (by decide) (by decide)
    exact absurd hfour.1 (by decide)
  · intro hrejects
    have hnull := hrejects (by decide) (fun _ _ replace => .ok replace) 0 (bytes "a")
    rw [hrun] at hnull
    exact absurd hnull (by decide)

end Protohand
