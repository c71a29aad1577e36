/-
  Protohand.CmdParser.Buffer
  ──────────────────────────
  **WHAT A TOKEN DOES TO THE BUFFER.**

  A token asks for an edit of the buffer (`edit`), or for something impossible
  (it is not `Sound`).  The two say all about one step of the buffer:

    • `tokenStep_sound`   — a sound token makes its edit,
    • `tokenStep_unsound` — any other ends the run with a code,
    • `editStep_kept`     — what an edit does to the text, as long as the
      buffer is not lost,
    • `run_ok_iff`        — when a run goes through, in terms of sizes.
-/
import Protohand.CmdParser.Scan

namespace Protohand

open Text

/-! ## §1. Appending. -/

/-- Where there is room, the capacity stays. -/
theorem appendCapacity_room {string append : Nat} {bufflength : Int}
    (h : (string + append + 1 : Int) ≤ bufflength) :
    appendCapacity string append bufflength = bufflength := by
  show (if (string + append + 1 : Int) > bufflength then _ else bufflength) = _
  rw [if_neg (by omega)]

/-- Where one byte is missing, the capacity grows by a block. -/
theorem appendCapacity_grow {string append : Nat} {bufflength : Int} (hpos : 0 < bufflength)
    (h : (string + append + 1 : Int) = bufflength + 1) :
    appendCapacity string append bufflength = bufflength + BLOCKSIZE := by
  have hadd : Int.tdiv (bufflength - (string + append + 1)) BLOCKSIZE * BLOCKSIZE + BLOCKSIZE
      = (BLOCKSIZE : Int) := by
    rw [h]
    have hone : bufflength - (bufflength + 1) = -1 := by omega
    rw [hone]
    decide
  show (if (string + append + 1 : Int) > bufflength then
      if bufflength + (Int.tdiv (bufflength - (string + append + 1)) BLOCKSIZE * BLOCKSIZE
        + BLOCKSIZE) ≤ 0 then 0 else _ else bufflength) = _
  rw [if_pos (by omega), hadd, if_neg (by unfold BLOCKSIZE; omega)]

/-- Without a larger block nothing is lost. -/
theorem appendLoses_room {moves : Bool} {string append : Nat} {bufflength block : Int}
    (h : (string + append + 1 : Int) ≤ bufflength) :
    appendLoses moves string append bufflength block = false := by
  show (decide ((string + append + 1 : Int) > bufflength) && _) = false
  rw [decide_eq_false (by omega), Bool.false_and]

/-- The buffer with a text behind the one that was found at `out`. -/
def ExpandBuf.extend (moves : Bool) (s : ExpandBuf) (string append : CStr) : ExpandBuf :=
  { s with
    out := string ++ append
    bufferLength := appendCapacity string.length append.length s.bufferLength
    block := appendBlock string.length append.length s.bufferLength s.block
    lost := s.lost || appendLoses moves string.length append.length s.bufferLength s.block }

/-- An append, in terms of capacities. -/
theorem expandAppend_iff (mem : RoundMem) (s s' : ExpandBuf) (append : CStr) :
    expandAppend mem s append = .ok s'
      ↔ ∃ string, outText mem s = some string
        ∧ appendCapacity string.length append.length s.bufferLength ≠ 0
        ∧ s' = s.extend mem.moves string append := by
  unfold expandAppend
  cases outText mem s with
  | none => simp
  | some string =>
      unfold appendResize
      by_cases hzero : appendCapacity string.length append.length s.bufferLength = 0
      · simp [hzero]
      · simp only [if_neg hzero, Except.ok.injEq, Option.some.injEq]
        constructor
        · intro h
          exact ⟨string, rfl, hzero, h.symm⟩
        · rintro ⟨_, rfl, -, rfl⟩
          rfl

/-- As long as the buffer is not lost, its text is at `out`. -/
theorem outText_of_kept {mem : RoundMem} {s : ExpandBuf} (h : s.lost = false) :
    outText mem s = some s.out := by
  unfold outText
  rw [if_neg (by rw [h]; exact Bool.false_ne_true)]

/-- Where there is room for a text it is appended, and nothing else changes. -/
theorem expandAppend_room {mem : RoundMem} {s : ExpandBuf} {append : CStr}
    (hkept : s.lost = false) (h : (s.out.length + append.length + 1 : Int) ≤ s.bufferLength) :
    expandAppend mem s append = .ok { s with out := s.out ++ append } := by
  apply (expandAppend_iff mem s _ append).mpr
  refine ⟨s.out, outText_of_kept hkept, by rw [appendCapacity_room h]; omega, ?_⟩
  unfold ExpandBuf.extend appendBlock
  rw [appendCapacity_room h, appendLoses_room h, if_neg (by omega), Bool.or_false]

/-! ## §2. Edits. -/

/-- What a round asks of the buffer. -/
inductive Edit where
  | keep
  | append (text : CStr)
  | drop
  deriving DecidableEq, Repr

/-- The text behind an edit. -/
def Edit.apply (out : CStr) : Edit → CStr
  | .keep => out
  | .append a => out ++ a
  | .drop => out.dropLast

/-- An edit of the buffer. -/
def editStep (mem : RoundMem) (s : ExpandBuf) : Edit → Except ExpandExit ExpandBuf
  | .keep => .ok s
  | .append a => expandAppend mem s a
  | .drop => expandOpen mem s

theorem expandOpen_iff (mem : RoundMem) (s s' : ExpandBuf) :
    expandOpen mem s = .ok s'
      ↔ ∃ string, outText mem s = some string ∧ s' = { s with out := string.dropLast } := by
  unfold expandOpen
  cases outText mem s with
  | none => simp
  | some string => simp [eq_comm]

/-- **What is in the buffer after an edit**, as long as it is not lost: and then
it was not lost before. -/
theorem editStep_kept {mem : RoundMem} {s s' : ExpandBuf} {e : Edit}
    (h : editStep mem s e = .ok s') (hkept : s'.lost = false) :
    s.lost = false ∧ s'.out = e.apply s.out := by
  cases e with
  | keep =>
      obtain rfl : s = s' := by injection h
      exact ⟨hkept, rfl⟩
  | append a =>
      obtain ⟨string, hout, -, rfl⟩ := (expandAppend_iff mem s s' a).mp h
      have hbefore : s.lost = false := (Bool.or_eq_false_iff.mp hkept).1
      rw [outText_of_kept hbefore, Option.some.injEq] at hout
      subst hout
      exact ⟨hbefore, rfl⟩
  | drop =>
      obtain ⟨string, hout, rfl⟩ := (expandOpen_iff mem s s').mp h
      have hbefore : s.lost = false := hkept
      rw [outText_of_kept hbefore, Option.some.injEq] at hout
      subst hout
      exact ⟨hbefore, rfl⟩

/-- The sizes of a buffer. -/
structure BufSize where
  length : Nat
  bufferLength : Int
  block : Int
  lost : Bool
  deriving DecidableEq, Repr

def ExpandBuf.size (s : ExpandBuf) : BufSize := ⟨s.out.length, s.bufferLength, s.block, s.lost⟩

/-- The sizes before the first round. -/
def sizeInit : BufSize := ⟨0, BLOCKSIZE, sizeofCharPtr * BLOCKSIZE, false⟩

/-- The length of the text that a round finds. -/
def BufSize.found (mem : RoundMem) (z : BufSize) : Option Nat :=
  if z.lost = true then mem.stale.map List.length else some z.length

/-- The sizes after an edit, if it does not end the run. -/
def sizeStep (mem : RoundMem) (z : BufSize) : Edit → Option BufSize
  | .keep => some z
  | .append a =>
      (z.found mem).bind (fun n =>
        if appendCapacity n a.length z.bufferLength = 0 then none
        else some ⟨n + a.length, appendCapacity n a.length z.bufferLength,
          appendBlock n a.length z.bufferLength z.block,
          z.lost || appendLoses mem.moves n a.length z.bufferLength z.block⟩)
  | .drop => (z.found mem).map (fun n => { z with length := n - 1 })

theorem found_size (mem : RoundMem) (s : ExpandBuf) :
    s.size.found mem = (outText mem s).map List.length := by
  unfold BufSize.found outText ExpandBuf.size
  split <;> rfl

/-- The sizes say whether an edit goes through, and how they move. -/
theorem editStep_size (mem : RoundMem) (s : ExpandBuf) (e : Edit) :
    (editStep mem s e).toOption.map ExpandBuf.size = sizeStep mem s.size e := by
  cases e with
  | keep => rfl
  | append a =>
      show (expandAppend mem s a).toOption.map _ = (s.size.found mem).bind _
      rw [found_size]
      unfold expandAppend
      cases outText mem s with
      | none => rfl
      | some string =>
          unfold appendResize
          have hcap : s.size.bufferLength = s.bufferLength := rfl
          simp only [Option.map_some, Option.bind_some, hcap]
          by_cases hzero : appendCapacity string.length a.length s.bufferLength = 0
          · simp [hzero, Except.toOption]
          · simp [hzero, Except.toOption, ExpandBuf.size]
  | drop =>
      show (expandOpen mem s).toOption.map _ = (s.size.found mem).map _
      rw [found_size]
      unfold expandOpen
      cases outText mem s with
      | none => rfl
      | some string => simp [Except.toOption, ExpandBuf.size]

/-! ## §3. Tokens. -/

/-- The round a token belongs to. -/
def Token.index : Token → Nat
  | .put i _ => i
  | .opn i => i
  | .close i _ _ => i
  | .fault => 0

section Tokens

variable (mem : Nat → RoundMem) (getenv : Env) (query : NvList)

/-- The text a token appends, if it appends one. -/
def appended : Token → Option CStr
  | .put _ c => some [c]
  | .opn _ => none
  | .fault => none
  | .close i varname isCond =>
      if isCond = true then
        match parseConditional (mem i).toCondMem getenv query varname with
        | some (_, cond) => if cond.cmatch = 1 then some cond.replace else none
        | none => none
      else findVarValue getenv query varname

/-- The edit a token asks for. -/
def edit (t : Token) : Edit :=
  match t with
  | .opn _ => .drop
  | _ => (appended mem getenv query t).elim .keep .append

/-- A token that asks for nothing impossible: a plain name that is closed is
defined, a conditional one is parsed to some end. -/
def Sound : Token → Prop
  | .put _ _ => True
  | .opn _ => True
  | .fault => False
  | .close i varname isCond =>
      if isCond = true then
        ∃ r, parseConditional (mem i).toCondMem getenv query varname = some r
      else ∃ v, findVarValue getenv query varname = some v

end Tokens

/-- An early return has a code. -/
def HasCode : ExpandExit → Prop
  | .crash => True
  | .ret code _ _ => code ≠ 0

theorem editStep_hasCode {mem : RoundMem} {s : ExpandBuf} {e : Edit} {x : ExpandExit}
    (h : editStep mem s e = .error x) : HasCode x := by
  cases e with
  | keep => cases h
  | append a =>
      have happend : expandAppend mem s a = .error x := h
      unfold expandAppend at happend
      cases hout : outText mem s with
      | none =>
          rw [hout] at happend
          cases happend
          trivial
      | some string =>
          rw [hout] at happend
          simp only at happend
          split at happend
          · cases happend
            exact (by decide : EXP_ERR_REALLOC ≠ 0)
          · cases happend
  | drop =>
      have hopen : expandOpen mem s = .error x := h
      unfold expandOpen at hopen
      cases hout : outText mem s with
      | none =>
          rw [hout] at hopen
          cases hopen
          trivial
      | some string => rw [hout] at hopen; cases hopen

section Step

variable {mem : Nat → RoundMem} {getenv : Env} {query : NvList}

/-- The buffer a token edits: closing a name notes it in `lastvar`. -/
def noted (s : ExpandBuf) : Token → ExpandBuf
  | .close _ varname _ => { s with lastvar := varname }
  | _ => s

@[simp] theorem noted_size (s : ExpandBuf) (t : Token) : (noted s t).size = s.size := by
  cases t <;> rfl

@[simp] theorem noted_out (s : ExpandBuf) (t : Token) : (noted s t).out = s.out := by
  cases t <;> rfl

@[simp] theorem noted_lost (s : ExpandBuf) (t : Token) : (noted s t).lost = s.lost := by
  cases t <;> rfl

/-- A sound token makes its edit, and does nothing else. -/
theorem tokenStep_sound (s : ExpandBuf) {t : Token} (hs : Sound mem getenv query t) :
    tokenStep mem getenv query s t
      = editStep (mem t.index) (noted s t) (edit mem getenv query t) := by
  cases t with
  | put i c => rfl
  | opn i => rfl
  | fault => exact absurd hs (fun h => h)
  | close i varname isCond =>
      show expandClose (mem i) getenv query varname isCond s
        = editStep (mem i) { s with lastvar := varname }
          ((appended mem getenv query (.close i varname isCond)).elim .keep .append)
      unfold expandClose appended
      unfold Sound at hs
      by_cases hcond : isCond = true
      · simp only [if_pos hcond] at hs ⊢
        obtain ⟨⟨code, cond⟩, hparse⟩ := hs
        simp only [hparse]
        -- the code is not looked at, only whether the condition holds
        by_cases hmatch : cond.cmatch = 1
        · rw [if_pos hmatch, if_pos hmatch]
          rfl
        · rw [if_neg hmatch, if_neg hmatch]
          rfl
      · simp only [if_neg hcond] at hs ⊢
        obtain ⟨v, hfind⟩ := hs
        simp only [hfind]
        rfl

/-- A token that is not sound ends the run. -/
theorem tokenStep_unsound (s : ExpandBuf) {t : Token} (hs : ¬ Sound mem getenv query t) :
    ∃ e, tokenStep mem getenv query s t = .error e ∧ HasCode e := by
  cases t with
  | put i c => exact absurd trivial hs
  | opn i => exact absurd trivial hs
  | fault => exact ⟨.crash, rfl, trivial⟩
  | close i varname isCond =>
      show ∃ e, expandClose (mem i) getenv query varname isCond s = .error e ∧ HasCode e
      unfold Sound at hs
      unfold expandClose
      by_cases hcond : isCond = true
      · simp only [if_pos hcond] at hs ⊢
        cases hparse : parseConditional (mem i).toCondMem getenv query varname with
        | none => exact ⟨.crash, rfl, trivial⟩
        | some r => exact absurd ⟨r, hparse⟩ hs
      · simp only [if_neg hcond] at hs ⊢
        cases hfind : findVarValue getenv query varname with
        | none => exact ⟨_, rfl, (by decide : EXP_ERR_QUERYNVVAR_NOT_FOUND ≠ 0)⟩
        | some v => exact absurd ⟨v, hfind⟩ hs

/-- A step that is taken was asked for by a sound token, and makes its edit. -/
theorem tokenStep_cases {s s' : ExpandBuf} {t : Token}
    (h : tokenStep mem getenv query s t = .ok s') :
    Sound mem getenv query t
      ∧ editStep (mem t.index) (noted s t) (edit mem getenv query t) = .ok s' := by
  have hs : Sound mem getenv query t := by
    by_contra hs
    obtain ⟨e, he, _⟩ := tokenStep_unsound s hs
    rw [he] at h
    cases h
  rw [tokenStep_sound s hs] at h
  exact ⟨hs, h⟩

/-- **What is in the buffer after a token**, as long as it is not lost. -/
theorem tokenStep_out {s s' : ExpandBuf} {t : Token}
    (h : tokenStep mem getenv query s t = .ok s') (hkept : s'.lost = false) :
    s.lost = false ∧ s'.out = (edit mem getenv query t).apply s.out := by
  obtain ⟨hbefore, hout⟩ := editStep_kept (tokenStep_cases h).2 hkept
  rw [noted_lost] at hbefore
  rw [noted_out] at hout
  exact ⟨hbefore, hout⟩

theorem tokenStep_hasCode {s : ExpandBuf} {t : Token} {e : ExpandExit}
    (h : tokenStep mem getenv query s t = .error e) : HasCode e := by
  by_cases hs : Sound mem getenv query t
  · rw [tokenStep_sound s hs] at h
    exact editStep_hasCode h
  · obtain ⟨e', he, hcode⟩ := tokenStep_unsound s hs
    rw [he] at h
    cases h
    exact hcode

/-! ## §4. Runs. -/

/-- A run that is left early has a code. -/
theorem expandRun_hasCode {g : ExpandGlobals} {str : CStr} {e : ExpandExit}
    (h : expandRun mem getenv query g str = .error e) : HasCode e :=
  Loop.foldlM_error HasCode (tokenStep mem getenv query) (scan str) _
    (fun _ _ _ _ hstep => tokenStep_hasCode hstep) h

/-- **What is in the buffer after a run**, if it is not lost there. -/
theorem run_out (ts : List Token) {s s' : ExpandBuf}
    (h : ts.foldlM (tokenStep mem getenv query) s = .ok s') (hkept : s'.lost = false) :
    s.lost = false ∧ s'.out = (ts.map (edit mem getenv query)).foldl Edit.apply s.out := by
  induction ts generalizing s with
  | nil =>
      obtain rfl : s = s' := by injection h
      exact ⟨hkept, rfl⟩
  | cons t ts ih =>
      rw [List.foldlM_cons] at h
      cases hstep : tokenStep mem getenv query s t with
      | error e => rw [hstep] at h; cases h
      | ok s₁ =>
          rw [hstep] at h
          obtain ⟨hkept₁, hout⟩ := ih h
          obtain ⟨hkept₀, hout₁⟩ := tokenStep_out hstep hkept₁
          exact ⟨hkept₀, by rw [hout, hout₁]; rfl⟩

variable (mem getenv query) in
/-- The sizes after the edit of a token. -/
def tokenSize (z : BufSize) (t : Token) : Option BufSize :=
  sizeStep (mem t.index) z (edit mem getenv query t)

/-- A step that is taken moves the sizes as `tokenSize` says. -/
theorem tokenStep_size {s s' : ExpandBuf} {t : Token}
    (h : tokenStep mem getenv query s t = .ok s') :
    tokenSize mem getenv query s.size t = some s'.size := by
  have hsize := editStep_size (mem t.index) (noted s t) (edit mem getenv query t)
  rw [(tokenStep_cases h).2, noted_size] at hsize
  exact hsize.symm

/-- **A whole run**: the tokens are accepted exactly where each is sound and
the sizes fit. -/
theorem run_ok_iff (ts : List Token) (s : ExpandBuf) (z : BufSize) :
    (∃ s', ts.foldlM (tokenStep mem getenv query) s = .ok s' ∧ s'.size = z)
      ↔ (∀ t ∈ ts, Sound mem getenv query t)
        ∧ ts.foldlM (tokenSize mem getenv query) s.size = some z := by
  induction ts generalizing s with
  | nil => simp [pure, Except.pure]
  | cons t ts ih =>
      rw [List.foldlM_cons, List.foldlM_cons, List.forall_mem_cons]
      constructor
      · intro h
        obtain ⟨s', h, hz⟩ := h
        cases hone : tokenStep mem getenv query s t with
        | error e => rw [hone] at h; cases h
        | ok s₁ =>
            rw [hone] at h
            obtain ⟨hrest, hsize⟩ := (ih s₁).mp ⟨s', h, hz⟩
            refine ⟨⟨(tokenStep_cases hone).1, hrest⟩, ?_⟩
            rw [tokenStep_size hone]
            exact hsize
      · intro h
        obtain ⟨⟨hs, hrest⟩, hsize⟩ := h
        have hone := editStep_size (mem t.index) (noted s t) (edit mem getenv query t)
        rw [noted_size] at hone
        rw [tokenStep_sound s hs]
        cases hedit : editStep (mem t.index) (noted s t) (edit mem getenv query t) with
        | error e =>
            -- no sizes are left to go on with
            rw [hedit] at hone
            rw [show tokenSize mem getenv query s.size t = none from hone.symm] at hsize
            cases hsize
        | ok s₁ =>
            rw [hedit] at hone
            rw [show tokenSize mem getenv query s.size t = some s₁.size from hone.symm] at hsize
            exact (ih s₁).mpr ⟨hrest, hsize⟩

end Step

end Protohand
