/-
  Protohand.CmdParser.Verbatim
  ────────────────────────────
  **TEXT OUTSIDE OF PLACEHOLDERS.**

  A template without `${` is put into the buffer character by character, and
  below `BLOCKSIZE` the first block has room for it.  The scanner takes a `}`
  for the end of a placeholder even if none is open, and a `}` is never put:
  where no variable is defined, a template that holds one is not given back
  (`expandVars_verbatim_iff`).
-/
import Mathlib.Data.List.Count
import Protohand.CmdParser.Expand

namespace Protohand

/-- `expand_vars` gives the template back as it is. -/
def Verbatim (mem : Nat → RoundMem) (getenv : Env) (query : NvList) (g : ExpandGlobals)
    (str : CStr) : Prop :=
  ∃ r, expandVars mem getenv query g str = some r ∧ r.ret = 0 ∧ r.str = str

/-! ## §1. What is put. -/

section Put

variable {mem : Nat → RoundMem} {getenv : Env} {query : NvList}

/-- Whether a token puts a character. -/
def Token.isPut : Token → Bool
  | .put _ _ => true
  | _ => false

/-- One round puts no `}`. -/
theorem lexStep_puts (str : CStr) (s : ExpandFlags) (c : UInt8) (i : Nat) :
    (lexStep str s (c, i)).2.countP Token.isPut ≤ if c = ascii '}' then 0 else 1 := by
  unfold lexStep
  dsimp only
  split
  · simp [Token.isPut]
  · split
    · split
      · simp [Token.isPut]
      · simp [Token.isPut]
    · split
      · simp [Token.isPut]
      · simp

/-- The scan puts at most the characters that are no `}`. -/
theorem scan_puts (str : CStr) :
    (scan str).countP Token.isPut ≤ str.countP (· ≠ ascii '}') := by
  -- every round looks back into the whole text, so the induction is on a part of it
  have houts : ∀ (part : CStr) (i : Nat) (s : ExpandFlags),
      (Loop.outputs (lexStep str) s (part.zipIdx i)).countP Token.isPut
        ≤ part.countP (· ≠ ascii '}') := by
    intro part
    induction part with
    | nil => exact fun _ _ => Nat.le_refl 0
    | cons c part ih =>
        intro i s
        have hround := lexStep_puts str s c i
        have hrest := ih (i + 1) (lexStep str s (c, i)).1
        rw [List.zipIdx_cons, Loop.outputs_cons, List.countP_append, List.countP_cons]
        by_cases hc : c = ascii '}'
        · rw [if_pos hc] at hround
          omega
        · rw [if_neg hc] at hround
          rw [if_pos (decide_eq_true hc)]
          omega
  exact houts str 0 flagsInit

/-- No variable is defined. -/
def Undefined (getenv : Env) (query : NvList) : Prop :=
  ∀ varname, findVarValue getenv query varname = none

/-- A condition does not hold between undefined variables. -/
theorem condCompare_cmatch (hnone : Undefined getenv query) (c : Conditional) :
    (condCompare getenv query c).2.cmatch = c.cmatch := by
  unfold condCompare
  rw [hnone c.var1]

theorem parseConditional_cmatch (hnone : Undefined getenv query) {m : CondMem} {body : CStr}
    {r : Nat × Conditional} (h : parseConditional m getenv query body = some r) :
    r.2.cmatch = -1 := by
  obtain ⟨c, hc, rfl | rfl | rfl⟩ := parseConditional_cases h
  · exact hc
  · exact hc
  · rw [condCompare_cmatch hnone, hc]

/-- A token puts one character, or appends nothing. -/
theorem length_appended (hnone : Undefined getenv query) (t : Token) :
    ((appended mem getenv query t).getD []).length ≤ if t.isPut = true then 1 else 0 := by
  cases t with
  | put i c => exact Nat.le_refl 1
  | opn i => exact Nat.le_refl 0
  | fault => exact Nat.le_refl 0
  | close i varname isCond =>
      show ((appended mem getenv query (.close i varname isCond)).getD []).length ≤ 0
      unfold appended
      by_cases hcond : isCond = true
      · simp only [if_pos hcond]
        cases hparse : parseConditional (mem i).toCondMem getenv query varname with
        | none => exact Nat.le_refl 0
        | some r =>
            have hno : r.2.cmatch ≠ 1 := by rw [parseConditional_cmatch hnone hparse]; decide
            simp only [if_neg hno]
            exact Nat.le_refl 0
      · simp only [if_neg hcond, hnone varname]
        exact Nat.le_refl 0

/-- Where nothing is defined, a token puts one character, or makes the text no longer. -/
theorem length_edit_le (hnone : Undefined getenv query) (t : Token) (out : CStr) :
    ((edit mem getenv query t).apply out).length
      ≤ out.length + if t.isPut = true then 1 else 0 := by
  by_cases hopn : ∃ i, t = .opn i
  · -- a `${` takes one character back
    obtain ⟨i, rfl⟩ := hopn
    show out.dropLast.length ≤ out.length + 0
    rw [List.length_dropLast]
    omega
  · have hlen : ((appended mem getenv query t).getD []).length
        ≤ if t.isPut = true then 1 else 0 := length_appended hnone t
    rw [edit_apply (fun i h => hopn ⟨i, h⟩), List.length_append]
    omega

/-- **A run puts what it puts, and nothing else**, where nothing is defined. -/
theorem length_edits_le (hnone : Undefined getenv query) (ts : List Token) (out : CStr) :
    ((ts.map (edit mem getenv query)).foldl Edit.apply out).length
      ≤ out.length + ts.countP Token.isPut := by
  induction ts generalizing out with
  | nil => exact Nat.le_refl _
  | cons t ts ih =>
      have hone : ((edit mem getenv query t).apply out).length
          ≤ out.length + if t.isPut = true then 1 else 0 := length_edit_le hnone t out
      have hrest := ih ((edit mem getenv query t).apply out)
      rw [List.map_cons, List.foldl_cons, List.countP_cons]
      omega

end Put

/-! ## §2. Which texts are copied. -/

/-- A text without braces of a placeholder is copied. -/
theorem verbatim_of_free {str : CStr} (hlen : str.length < BLOCKSIZE) (hopen : ¬ openMark <:+: str)
    (hclose : ascii '}' ∉ str) (mem : Nat → RoundMem) (getenv : Env) (query : NvList)
    (g : ExpandGlobals) : Verbatim mem getenv query g str := by
  have hok : SegsOk none [.lit str] := ⟨hclose, hopen, trivial⟩
  have htemplate : template [.lit str] = str := List.append_nil str
  have hexpansion : expansion mem getenv query 0 [.lit str] = str := List.append_nil str
  obtain ⟨s, hrun, hkept, hout⟩ : ∃ s, expandRun mem getenv query g (template [.lit str]) = .ok s
      ∧ s.lost = false ∧ s.out = expansion mem getenv query 0 [.lit str] :=
    expandRun_roomy hok (sound_segTokens (fun b hb => by simp at hb) 0)
      (by rw [hexpansion]; exact hlen) g
  rw [htemplate] at hrun
  refine ⟨⟨0, s.out, { g with lastvar := s.lastvar }⟩, ?_, rfl, by rw [hout, hexpansion]⟩
  rw [expandVars_of_run hrun, outText_of_kept hkept]
  rfl

/-- A text with a `}` is not copied where nothing is defined, and nothing is found
in the place of a lost buffer. -/
theorem not_verbatim_of_mem {str : CStr} (hclose : ascii '}' ∈ str) {getenv : Env}
    {query : NvList} (hnone : Undefined getenv query) {mem : Nat → RoundMem}
    (hstale : (mem str.length).stale = none)
    (g : ExpandGlobals) : ¬ Verbatim mem getenv query g str := by
  intro h
  obtain ⟨r, hr, hret, hstr⟩ := h
  obtain ⟨s, hrun, hout⟩ := expandVars_ret_zero hr hret
  rw [hstr] at hout
  unfold outText at hout
  by_cases hlost : s.lost = true
  · -- the block is gone, and what is found instead is not the text
    rw [if_pos hlost] at hout
    rw [hstale] at hout
    cases hout
  · rw [if_neg hlost, Option.some.injEq] at hout
    have htext := (run_out (scan str) hrun (by simpa using hlost)).2
    have hle : (((scan str).map (edit mem getenv query)).foldl Edit.apply []).length
        ≤ 0 + (scan str).countP Token.isPut := length_edits_le hnone _ _
    -- too few characters are put for the text to come back
    have hputs := scan_puts str
    have hfewer : str.countP (· ≠ ascii '}') < str.length :=
      List.countP_lt_length_iff.mpr ⟨ascii '}', hclose, by simp⟩
    have hback : ((scan str).map (edit mem getenv query)).foldl Edit.apply [] = str :=
      htext.symm.trans hout
    rw [hback] at hle
    omega

/-- **WHICH TEXTS OUTSIDE OF PLACEHOLDERS ARE COPIED**: those without a `}`. -/
theorem expandVars_verbatim_iff {str : CStr} (hlen : str.length < BLOCKSIZE)
    (hopen : ¬ openMark <:+: str) :
    (∀ mem getenv query g, Verbatim mem getenv query g str) ↔ ascii '}' ∉ str := by
  constructor
  · intro h hclose
    have hnone : Undefined (fun _ => none) (nvlistCreate 1) := by
      intro varname
      unfold findVarValue
      split <;> rfl
    have hstale : (plainMem str.length).stale = none := rfl
    exact not_verbatim_of_mem hclose hnone hstale ⟨[], []⟩ (h _ _ _ _)
  · intro hclose mem getenv query g
    exact verbatim_of_free hlen hopen hclose mem getenv query g

/-- Braces that open, colons, equals signs and dollars are copied. -/
theorem expandVars_verbatim_iff_sample :
    (bytes "\x7b$a:=b\x7b $").length < BLOCKSIZE
      ∧ ¬ openMark <:+: bytes "\x7b$a:=b\x7b $"
      ∧ ∀ mem getenv query g, Verbatim mem getenv query g (bytes "\x7b$a:=b\x7b $") :=
  ⟨by decide, by decide, (expandVars_verbatim_iff (by decide) (by decide)).mpr (by decide)⟩

/-- The `}` of a GUID ends the run, for there is no variable `0C9A`. -/
theorem guid_not_copied :
    ¬ openMark <:+: bytes "\x7b0C9A\x7d"
      ∧ (expandVars plainMem (fun _ => none) (nvlistCreate 1) ⟨[], []⟩
          (bytes "\x7b0C9A\x7d")).map ExpandResult.ret = some EXP_ERR_QUERYNVVAR_NOT_FOUND
      ∧ ¬ Verbatim plainMem (fun _ => none) (nvlistCreate 1) ⟨[], []⟩
          (bytes "\x7b0C9A\x7d") := by
  have hrun : (expandVars plainMem (fun _ => none) (nvlistCreate 1) ⟨[], []⟩
      (bytes "\x7b0C9A\x7d")).map ExpandResult.ret = some EXP_ERR_QUERYNVVAR_NOT_FOUND := by
    decide +kernel
  refine ⟨by decide, hrun, ?_⟩
  intro h
  obtain ⟨r, hr, hret, -⟩ := h
  rw [hr, Option.map_some, hret] at hrun
  exact absurd hrun (by decide)

end Protohand
