/-
  Protohand.CmdParser.Outcome
  ───────────────────────────
  **HOW LONG AN EXPANSION BECOMES**, and at which name it ends, from the tokens
  of the template and the values they name.

    • `expandVars_length_iff` — the length of the text,
    • `expandVars_ret`, `expandVars_stops` — the name that is not found.
-/
import Protohand.CmdParser.Expand

namespace Protohand

section Outcome

variable (mem : Nat → RoundMem) (getenv : Env) (query : NvList)

/-- The text comes to `n` characters: no token asks for something impossible, and
that is what its edits add up to. -/
def ComesTo (str : CStr) (n : Nat) : Prop :=
  (∀ t ∈ scan str, Sound mem getenv query t)
    ∧ ∃ z, (scan str).foldlM (tokenSize mem getenv query) sizeInit = some z
      ∧ z.found (mem str.length) = some n

/-- The name is the first that is closed and not found, and nothing in front of
it ends the run. -/
def EndsAtName (str name : CStr) : Prop :=
  ∃ front i behind, scan str = front ++ Token.close i name false :: behind
    ∧ (∀ t ∈ front, Sound mem getenv query t)
    ∧ (∃ z, front.foldlM (tokenSize mem getenv query) sizeInit = some z)
    ∧ findVarValue getenv query name = none

variable {mem getenv query}

/-- **How long the text becomes.** -/
theorem expandVars_length_iff (g : ExpandGlobals) (str : CStr) (n : Nat) :
    (∃ r, expandVars mem getenv query g str = some r ∧ r.ret = 0 ∧ r.str.length = n)
      ↔ ComesTo mem getenv query str n := by
  have hrun : ∀ z, (∃ s, expandRun mem getenv query g str = .ok s ∧ s.size = z)
      ↔ (∀ t ∈ scan str, Sound mem getenv query t)
        ∧ (scan str).foldlM (tokenSize mem getenv query) sizeInit = some z :=
    fun z => run_ok_iff (scan str) (bufInit g) z
  constructor
  · intro ⟨r, hr, hret, hlen⟩
    obtain ⟨s, hs, hout⟩ := expandVars_ret_zero hr hret
    obtain ⟨hsound, hsize⟩ := (hrun s.size).mp ⟨s, hs, rfl⟩
    refine ⟨hsound, s.size, hsize, ?_⟩
    rw [found_size, hout, Option.map_some, hlen]
  · intro ⟨hsound, z, hsize, hfound⟩
    obtain ⟨s, hs, rfl⟩ := (hrun z).mpr ⟨hsound, hsize⟩
    rw [found_size] at hfound
    obtain ⟨out, hout, hlen⟩ := Option.map_eq_some_iff.mp hfound
    rw [expandVars_of_run hs, hout]
    exact ⟨_, rfl, rfl, hlen⟩

/-- An edit that ends the run with a code is an append without a block. -/
theorem editStep_ret {mem : RoundMem} {s : ExpandBuf} {e : Edit} {code : Nat} {lastvar : CStr}
    {errVarName : Option CStr} (h : editStep mem s e = .error (.ret code lastvar errVarName)) :
    code = EXP_ERR_REALLOC ∧ errVarName = none := by
  cases e with
  | keep => cases h
  | append a =>
      have happend : expandAppend mem s a = .error (.ret code lastvar errVarName) := h
      unfold expandAppend at happend
      cases hout : outText mem s with
      | none => rw [hout] at happend; cases happend
      | some string =>
          rw [hout] at happend
          dsimp only at happend
          split at happend
          · cases happend
            -- only the failed `realloc` has a code
            exact ⟨rfl, rfl⟩
          · cases happend
  | drop =>
      have hopen : expandOpen mem s = .error (.ret code lastvar errVarName) := h
      unfold expandOpen at hopen
      cases hout : outText mem s with
      | none => rw [hout] at hopen; cases hopen
      | some string => rw [hout] at hopen; cases hopen

/-- A token that ends the run with a code. -/
theorem tokenStep_ret {s : ExpandBuf} {t : Token} {code : Nat} {lastvar : CStr}
    {errVarName : Option CStr}
    (h : tokenStep mem getenv query s t = .error (.ret code lastvar errVarName)) :
    (∃ i name, t = .close i name false ∧ findVarValue getenv query name = none
        ∧ code = EXP_ERR_QUERYNVVAR_NOT_FOUND ∧ errVarName = some name)
      ∨ (code = EXP_ERR_REALLOC ∧ errVarName = none) := by
  by_cases hs : Sound mem getenv query t
  · rw [tokenStep_sound s hs] at h
    exact Or.inr (editStep_ret h)
  · left
    cases t with
    | put i c => exact absurd trivial hs
    | opn i => exact absurd trivial hs
    | fault => cases h
    | close i name isCond =>
        have hclose : expandClose (mem i) getenv query name isCond s
            = .error (.ret code lastvar errVarName) := h
        unfold expandClose at hclose
        cases isCond with
        | true =>
            cases hparse : parseConditional (mem i).toCondMem getenv query name with
            | none => simp [hparse] at hclose
            | some r =>
                -- the code of `parse_conditional` is dropped, so the round goes on
                have hsound : Sound mem getenv query (.close i name true) := ⟨r, hparse⟩
                exact absurd hsound hs
        | false =>
            cases hfind : findVarValue getenv query name with
            | none =>
                simp only [hfind, Bool.false_eq_true, if_false, Except.error.injEq,
                  ExpandExit.ret.injEq] at hclose
                exact ⟨i, name, rfl, hfind, hclose.1.symm, hclose.2.2.symm⟩
            | some v =>
                have hsound : Sound mem getenv query (.close i name false) := ⟨v, hfind⟩
                exact absurd hsound hs

/-- A run that ends with a code: which token it was, and how the sizes got there. -/
theorem run_ret (ts : List Token) {s : ExpandBuf} {code : Nat} {lastvar : CStr}
    {errVarName : Option CStr}
    (h : ts.foldlM (tokenStep mem getenv query) s = .error (.ret code lastvar errVarName)) :
    (∃ name, code = EXP_ERR_QUERYNVVAR_NOT_FOUND ∧ errVarName = some name
        ∧ ∃ front i behind, ts = front ++ Token.close i name false :: behind
          ∧ (∀ t ∈ front, Sound mem getenv query t)
          ∧ (∃ z, front.foldlM (tokenSize mem getenv query) s.size = some z)
          ∧ findVarValue getenv query name = none)
      ∨ (code = EXP_ERR_REALLOC ∧ errVarName = none) := by
  induction ts generalizing s with
  | nil => cases h
  | cons t ts ih =>
      rw [List.foldlM_cons] at h
      cases hstep : tokenStep mem getenv query s t with
      | error e =>
          rw [hstep] at h
          obtain rfl : e = .ret code lastvar errVarName := by injection h
          -- nothing stands in front of the token that ends the run
          rcases tokenStep_ret hstep with ⟨i, name, rfl, hfind, hcode, herr⟩ | hrealloc
          · exact Or.inl ⟨name, hcode, herr, [], i, ts, rfl, fun t ht => absurd ht List.not_mem_nil,
              ⟨s.size, rfl⟩, hfind⟩
          · exact Or.inr hrealloc
      | ok s₁ =>
          rw [hstep] at h
          rcases ih h with ⟨name, hcode, herr, front, i, behind, rfl, hsound, ⟨z, hz⟩, hfind⟩
            | hrealloc
          · refine Or.inl ⟨name, hcode, herr, t :: front, i, behind, rfl, ?_, ⟨z, ?_⟩, hfind⟩
            · exact List.forall_mem_cons.mpr ⟨(tokenStep_cases hstep).1, hsound⟩
            · rw [List.foldlM_cons, tokenStep_size hstep]
              exact hz
          · exact Or.inr hrealloc

/-- **WHERE AN EXPANSION ENDS**: at a name that is not found, or for a block. -/
theorem expandVars_ret {g : ExpandGlobals} {str : CStr} {r : ExpandResult}
    (h : expandVars mem getenv query g str = some r) (hret : r.ret ≠ 0) :
    (r.ret = EXP_ERR_QUERYNVVAR_NOT_FOUND
        ∧ EndsAtName mem getenv query str r.globals.expandvarErrVarName)
      ∨ (r.ret = EXP_ERR_REALLOC
        ∧ r.globals.expandvarErrVarName = g.expandvarErrVarName) := by
  rw [expandVars_eq_scan] at h
  cases hrun : expandRun mem getenv query g str with
  | ok s =>
      rw [hrun] at h
      obtain ⟨out, -, rfl⟩ := Option.map_eq_some_iff.mp h
      exact absurd rfl hret
  | error e =>
      rw [hrun] at h
      cases e with
      | crash => cases h
      | ret code lastvar errVarName =>
          cases h
          rcases run_ret (scan str) hrun with ⟨name, hcode, rfl, hstops⟩ | ⟨hcode, rfl⟩
          · exact Or.inl ⟨hcode, hstops⟩
          · exact Or.inr ⟨hcode, rfl⟩

/-- A call that returns `0` reports no name. -/
theorem expandVars_errVarName {g : ExpandGlobals} {str : CStr} {r : ExpandResult}
    (h : expandVars mem getenv query g str = some r) (hret : r.ret = 0) :
    r.globals.expandvarErrVarName = g.expandvarErrVarName := by
  obtain ⟨s, hs, -⟩ := expandVars_ret_zero h hret
  rw [expandVars_of_run hs] at h
  obtain ⟨out, -, rfl⟩ := Option.map_eq_some_iff.mp h
  rfl

/-- **The name that is not found** is the one that is reported. -/
theorem expandVars_stops {str name : CStr} (g : ExpandGlobals)
    (h : EndsAtName mem getenv query str name) :
    ∃ r, expandVars mem getenv query g str = some r ∧ r.ret = EXP_ERR_QUERYNVVAR_NOT_FOUND
      ∧ r.globals.expandvarErrVarName = name := by
  obtain ⟨front, i, behind, hscan, hsound, ⟨z, hz⟩, hfind⟩ := h
  obtain ⟨s, hfront, -⟩ := (run_ok_iff front (bufInit g) z).mpr ⟨hsound, hz⟩
  have hclose : tokenStep mem getenv query s (.close i name false)
      = .error (.ret EXP_ERR_QUERYNVVAR_NOT_FOUND name (some name)) := by
    show expandClose (mem i) getenv query name false s = _
    unfold expandClose
    dsimp only
    rw [if_neg Bool.false_ne_true, hfind]
  have hrun : expandRun mem getenv query g str
      = .error (.ret EXP_ERR_QUERYNVVAR_NOT_FOUND name (some name)) := by
    unfold expandRun
    rw [hscan, List.foldlM_append, hfront]
    show (Token.close i name false :: behind).foldlM (tokenStep mem getenv query) s = _
    rw [List.foldlM_cons, hclose]
    rfl
  rw [expandVars_eq_scan, hrun]
  exact ⟨_, rfl, rfl, rfl⟩

end Outcome

end Protohand
