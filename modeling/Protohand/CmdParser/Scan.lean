/-
  Protohand.CmdParser.Scan
  ────────────────────────
  **THE SCANNER WITHOUT THE BUFFER.**

  The loop of `expand_vars` does two things at once: it finds out where it is
  in the template, and it fills the buffer.  Only the first depends on the
  flags, and it never looks at the buffer.  This file separates them:

    • `lexStep`   — one round's effect on the flags, and the tokens it emits,
    • `tokenStep` — what a token does to the buffer,
    • `expandVars_eq_scan` — the loop is `tokenStep` run over `scan str`,

  and follows the flags through a literal text (`lex_text`) and through a
  placeholder (`lex_placeholder`), whatever stands around them.
-/
import Protohand.CmdParser.Def
import Protohand.Lib.Loop

namespace Protohand

open Text

/-! ## §1. Tokens. -/

/-- What the scan asks of the buffer. -/
inductive Token where
  /-- A character outside of a placeholder, at index `i`. -/
  | put (i : Nat) (c : UInt8)
  /-- `${` with its `{` at index `i`: its `$` is in the buffer already. -/
  | opn (i : Nat)
  /-- A `}` at index `i`, and the name it closes. -/
  | close (i : Nat) (varname : CStr) (isCond : Bool)
  /-- A `}` with a negative length in front of it. -/
  | fault
  deriving DecidableEq, Repr

/-- One round of the loop, as far as it does not concern the buffer. -/
def lexStep (str : CStr) (s : ExpandFlags) (ci : UInt8 × Nat) : ExpandFlags × List Token :=
  let (c, i) := ci
  if 0 < i ∧ c = ascii '{' ∧ str[i - 1]? = some (ascii '$') then
    (⟨true, i, false, false⟩, [.opn i])
  else if c = ascii '}' then
    (⟨false, s.start, false, false⟩,
      if i < s.start + 1 then [.fault]
      else [.close i ((str.drop (s.start + 1)).take (i - s.start - 1)) (s.hasColon && s.hasEqual)])
  else
    (⟨s.isOpen, s.start, s.hasColon || c == ascii ':', s.hasEqual || c == ascii '='⟩,
      if s.isOpen = false then [.put i c] else [])

/-- What a token does to the buffer. -/
def tokenStep (mem : Nat → RoundMem) (getenv : Env) (query : NvList) (s : ExpandBuf) :
    Token → Except ExpandExit ExpandBuf
  | .put i c => expandAppend (mem i) s [c]
  | .opn i => expandOpen (mem i) s
  | .close i varname isCond => expandClose (mem i) getenv query varname isCond s
  | .fault => .error .crash

/-- The flags before the first round. -/
def flagsInit : ExpandFlags := ⟨false, 0, false, false⟩

/-- The tokens of a template. -/
def scan (str : CStr) : List Token := Loop.outputs (lexStep str) flagsInit str.zipIdx

/-! ## §2. The loop is the buffer run over the tokens. -/

/-- One round: the flags move as `lexStep` says, the buffer as its tokens say. -/
theorem expandStep_factor (mem : Nat → RoundMem) (getenv : Env) (query : NvList) (str : CStr)
    (s : ExpandState) (ci : UInt8 × Nat) :
    (expandStep mem getenv query str s ci).map (fun t => (t.toExpandFlags, t.toExpandBuf))
      = ((lexStep str s.toExpandFlags ci).2.foldlM (tokenStep mem getenv query) s.toExpandBuf).map
          (fun t => ((lexStep str s.toExpandFlags ci).1, t)) := by
  obtain ⟨c, i⟩ := ci
  unfold expandStep lexStep
  by_cases hopen : 0 < i ∧ c = ascii '{' ∧ str[i - 1]? = some (ascii '$')
  · simp only [if_pos hopen, List.foldlM_cons, List.foldlM_nil, tokenStep]
    cases expandOpen (mem i) s.toExpandBuf <;> rfl
  · simp only [if_neg hopen]
    by_cases hclose : c = ascii '}'
    · simp only [if_pos hclose]
      by_cases hfault : i < s.start + 1
      · simp only [if_pos hfault]
        rfl
      · simp only [if_neg hfault, List.foldlM_cons, List.foldlM_nil, tokenStep]
        cases expandClose (mem i) getenv query ((str.drop (s.start + 1)).take (i - s.start - 1))
          (s.hasColon && s.hasEqual) s.toExpandBuf <;> rfl
    · simp only [if_neg hclose]
      by_cases hput : s.isOpen = false
      · simp only [if_pos hput, List.foldlM_cons, List.foldlM_nil, tokenStep]
        cases expandAppend (mem i) s.toExpandBuf [c] <;> rfl
      · simp only [if_neg hput, List.foldlM_nil]
        rfl

/-- A round that is taken: the flags of the scan, and its tokens on the buffer. -/
theorem expandStep_iff (mem : Nat → RoundMem) (getenv : Env) (query : NvList) (str : CStr)
    (s t : ExpandState) (ci : UInt8 × Nat) :
    expandStep mem getenv query str s ci = .ok t
      ↔ t.toExpandFlags = (lexStep str s.toExpandFlags ci).1
        ∧ (lexStep str s.toExpandFlags ci).2.foldlM (tokenStep mem getenv query) s.toExpandBuf
          = .ok t.toExpandBuf := by
  have hfactor := expandStep_factor mem getenv query str s ci
  cases hstep : expandStep mem getenv query str s ci with
  | error e =>
      rw [hstep] at hfactor
      cases hrun : (lexStep str s.toExpandFlags ci).2.foldlM (tokenStep mem getenv query)
          s.toExpandBuf with
      | error e' => simp
      | ok b => rw [hrun] at hfactor; cases hfactor
  | ok u =>
      rw [hstep] at hfactor
      cases hrun : (lexStep str s.toExpandFlags ci).2.foldlM (tokenStep mem getenv query)
          s.toExpandBuf with
      | error e' => rw [hrun] at hfactor; cases hfactor
      | ok b =>
          rw [hrun] at hfactor
          injection hfactor with hpair
          obtain ⟨hflags, hbuf⟩ := Prod.ext_iff.mp hpair
          dsimp only at hflags hbuf
          rw [Except.ok.injEq, Except.ok.injEq, ← hflags, ← hbuf]
          constructor
          · rintro rfl
            exact ⟨rfl, rfl⟩
          · intro h
            obtain ⟨uf, ub⟩ := u
            obtain ⟨tf, tb⟩ := t
            obtain ⟨rfl, rfl⟩ : tf = uf ∧ ub = tb := h
            rfl

/-- The buffer the loop of `expand_vars` ends with, or how it is left. -/
def expandRun (mem : Nat → RoundMem) (getenv : Env) (query : NvList) (g : ExpandGlobals)
    (str : CStr) : Except ExpandExit ExpandBuf :=
  (scan str).foldlM (tokenStep mem getenv query) (bufInit g)

/-- **`expand_vars` RUNS THE BUFFER OVER THE TOKENS.** -/
theorem expandVars_eq_scan (mem : Nat → RoundMem) (getenv : Env) (query : NvList)
    (g : ExpandGlobals) (str : CStr) :
    expandVars mem getenv query g str
      = match expandRun mem getenv query g str with
        | .ok s =>
            (outText (mem str.length) s).map (fun out => ⟨0, out, { g with lastvar := s.lastvar }⟩)
        | .error .crash => none
        | .error (.ret code lastvar errVarName) =>
            some ⟨code, str, ⟨lastvar, errVarName.getD g.expandvarErrVarName⟩⟩ := by
  have hfactor := Loop.foldlM_factor (lexStep str) (tokenStep mem getenv query)
    (expandStep mem getenv query str) ExpandState.toExpandFlags ExpandState.toExpandBuf
    (expandStep_factor mem getenv query str) str.zipIdx (expandInit g)
  have hrun : ((scan str).foldlM (tokenStep mem getenv query) (expandInit g).toExpandBuf)
      = expandRun mem getenv query g str := rfl
  have hscan : Loop.outputs (lexStep str) (expandInit g).toExpandFlags str.zipIdx = scan str := rfl
  rw [hscan, hrun] at hfactor
  -- both runs end with the same exit, or both go through
  unfold expandVars
  cases hboth : str.zipIdx.foldlM (expandStep mem getenv query str) (expandInit g) with
  | error e =>
      rw [hboth] at hfactor
      cases hbuf : expandRun mem getenv query g str with
      | error e' =>
          rw [hbuf] at hfactor
          simp only [Except.map, Except.error.injEq] at hfactor
          subst hfactor
          cases e with
          | crash => rfl
          | ret code lastvar errVarName => rfl
      | ok b => rw [hbuf] at hfactor; simp [Except.map] at hfactor
  | ok s =>
      rw [hboth] at hfactor
      cases hbuf : expandRun mem getenv query g str with
      | error e' => rw [hbuf] at hfactor; simp [Except.map] at hfactor
      | ok b =>
          rw [hbuf] at hfactor
          simp only [Except.map, Except.ok.injEq, Prod.mk.injEq] at hfactor
          rw [← hfactor.2]

/-! ## §3. The flags along a text. -/

/-- What opens a placeholder. -/
def openMark : CStr := [ascii '$', ascii '{']

/-- What closes a placeholder. -/
def closeMark : CStr := [ascii '}']

/-- A character that neither opens nor closes a placeholder. -/
theorem lexStep_plain {str : CStr} {c : UInt8} {i : Nat} (s : ExpandFlags)
    (hopen : ¬ (0 < i ∧ c = ascii '{' ∧ str[i - 1]? = some (ascii '$'))) (hclose : c ≠ ascii '}') :
    lexStep str s (c, i)
      = (⟨s.isOpen, s.start, s.hasColon || c == ascii ':', s.hasEqual || c == ascii '='⟩,
          if s.isOpen = false then [.put i c] else []) := by
  show (if _ then _ else _) = _
  rw [if_neg hopen, if_neg hclose]

/-- The `{` of a `${`. -/
theorem lexStep_opens {str : CStr} {c : UInt8} {i : Nat} (s : ExpandFlags)
    (hopen : 0 < i ∧ c = ascii '{' ∧ str[i - 1]? = some (ascii '$')) :
    lexStep str s (c, i) = (⟨true, i, false, false⟩, [.opn i]) := by
  show (if _ then _ else _) = _
  rw [if_pos hopen]

/-- A `}`, whether a placeholder is open or not. -/
theorem lexStep_closes (str : CStr) (s : ExpandFlags) (i : Nat) :
    lexStep str s (ascii '}', i)
      = (⟨false, s.start, false, false⟩,
          if i < s.start + 1 then [.fault]
          else [.close i ((str.drop (s.start + 1)).take (i - s.start - 1))
            (s.hasColon && s.hasEqual)]) := by
  show (if _ then _ else _) = _
  rw [if_neg (fun h => absurd h.2.1 (by simp)), if_pos rfl]

/-- A text that starts at index `i` is put. -/
def puts (i : Nat) (t : CStr) : List Token := (t.zipIdx i).map (fun ci => .put ci.2 ci.1)

@[simp] theorem puts_nil (i : Nat) : puts i [] = [] := rfl

theorem puts_cons (i : Nat) (c : UInt8) (t : CStr) :
    puts i (c :: t) = .put i c :: puts (i + 1) t := rfl

/-- The character in front of an index, in terms of the text in front of it. -/
theorem getElem?_before (pre rest : CStr) (h : 0 < pre.length) :
    (pre ++ rest)[pre.length - 1]? = pre.getLast? := by
  rw [List.getElem?_append_left (by omega), List.getLast?_eq_getElem?]

/-- **ALONG A TEXT** without `}` and without `${`, counting the character in
front of it: the two flags collect what they look for, and outside of a
placeholder every character is put. -/
theorem lex_text (str : CStr) :
    ∀ (part pre post : CStr) (s : ExpandFlags), str = pre ++ (part ++ post) →
      ascii '}' ∉ part → ¬ openMark <:+: pre.getLast?.toList ++ part →
      Loop.final (lexStep str) s (part.zipIdx pre.length)
          = ⟨s.isOpen, s.start, s.hasColon || decide (ascii ':' ∈ part),
              s.hasEqual || decide (ascii '=' ∈ part)⟩
        ∧ Loop.outputs (lexStep str) s (part.zipIdx pre.length)
          = if s.isOpen = false then puts pre.length part else []
  | [], pre, post, s, _, _, _ => by
      simp
  | c :: part, pre, post, s, hstr, hclose, hopen => by
      have hc : c ≠ ascii '}' := fun h => hclose (by rw [h]; exact List.mem_cons_self)
      -- a `{` here would have the `$` of the text in front of it
      have hno : ¬ (0 < pre.length ∧ c = ascii '{'
          ∧ str[pre.length - 1]? = some (ascii '$')) := by
        intro h
        obtain ⟨hpos, hbrace, hdollar⟩ := h
        rw [hstr, getElem?_before pre _ hpos] at hdollar
        apply hopen
        rw [hdollar, hbrace]
        exact ⟨[], part, rfl⟩
      have hnext : str = (pre ++ [c]) ++ (part ++ post) := by rw [hstr]; simp
      have hlen : (pre ++ [c]).length = pre.length + 1 := by simp
      have hopen' : ¬ openMark <:+: (pre ++ [c]).getLast?.toList ++ part := by
        intro h
        apply hopen
        rw [List.getLast?_concat] at h
        exact h.trans ⟨pre.getLast?.toList, [], by simp⟩
      have hstep := lexStep_plain s hno hc
      obtain ⟨hfinal, houts⟩ := lex_text str part (pre ++ [c]) post (lexStep str s (c, pre.length)).1
        hnext (fun h => hclose (List.mem_cons_of_mem _ h)) hopen'
      rw [hlen] at hfinal houts
      rw [List.zipIdx_cons, Loop.final_cons, Loop.outputs_cons, hfinal, houts, hstep]
      refine ⟨?_, ?_⟩
      · simp only [List.mem_cons, Bool.or_assoc, ExpandFlags.mk.injEq, true_and]
        refine ⟨?_, ?_⟩
        · grind
        · grind
      · cases s.isOpen with
        | false => rfl
        | true => rfl

/-! ## §4. The flags along a placeholder. -/

/-- The text of a placeholder. -/
def placeholder (body : CStr) : CStr := openMark ++ (body ++ closeMark)

/-- Whether a body is a conditional one: it holds a `:` and a `=`. -/
def isConditional (body : CStr) : Bool := decide (ascii ':' ∈ body) && decide (ascii '=' ∈ body)

/-- **ALONG `${`**, whatever stands in front of it and whatever the flags are
there: its `$` is put (outside of a placeholder), and a placeholder is open. -/
theorem lex_open (str pre rest : CStr) (s : ExpandFlags) (hstr : str = pre ++ (openMark ++ rest)) :
    Loop.final (lexStep str) s (openMark.zipIdx pre.length) = ⟨true, pre.length + 1, false, false⟩
      ∧ Loop.outputs (lexStep str) s (openMark.zipIdx pre.length)
        = (if s.isOpen = false then [.put pre.length (ascii '$')] else [])
          ++ [.opn (pre.length + 1)] := by
  have hdollar : lexStep str s (ascii '$', pre.length) = _ :=
    lexStep_plain s (fun h => absurd h.2.1 (by simp)) (by simp)
  have hprev : str[pre.length + 1 - 1]? = some (ascii '$') := by
    rw [hstr, Nat.add_sub_cancel, List.getElem?_append_right (Nat.le_refl _), Nat.sub_self]
    rfl
  have hbrace : ∀ t : ExpandFlags, lexStep str t (ascii '{', pre.length + 1)
      = (⟨true, pre.length + 1, false, false⟩, [.opn (pre.length + 1)]) := by
    intro t
    exact lexStep_opens t ⟨by omega, rfl, hprev⟩
  have hzip : openMark.zipIdx pre.length
      = [(ascii '$', pre.length), (ascii '{', pre.length + 1)] := rfl
  rw [hzip]
  refine ⟨?_, ?_⟩
  · rw [Loop.final_cons, Loop.final_cons, hbrace, Loop.final_nil]
  · rw [Loop.outputs_cons, Loop.outputs_cons, hbrace, Loop.outputs_nil, hdollar]
    rfl

/-- **AT THE `}` BEHIND A BODY**: it closes exactly this body. -/
theorem lexStep_close (pre body post : CStr) (hasColon hasEqual : Bool) :
    lexStep (pre ++ (placeholder body ++ post)) ⟨true, pre.length + 1, hasColon, hasEqual⟩
        (ascii '}', pre.length + 2 + body.length)
      = (⟨false, pre.length + 1, false, false⟩,
          [.close (pre.length + 2 + body.length) body (hasColon && hasEqual)]) := by
  have hcut : pre ++ (placeholder body ++ post)
      = (pre ++ openMark) ++ (body ++ (closeMark ++ post)) := by
    unfold placeholder
    simp
  have hlen : (pre ++ openMark).length = pre.length + 1 + 1 := by simp [openMark]
  have htake : pre.length + 2 + body.length - (pre.length + 1) - 1 = body.length := by omega
  rw [lexStep_closes]
  dsimp only
  rw [if_neg (show ¬ pre.length + 2 + body.length < pre.length + 1 + 1 by omega), htake, hcut,
    ← hlen, List.drop_left, List.take_left]

/-- **ALONG A PLACEHOLDER**: it opens, and its `}` closes exactly its body. -/
theorem lex_placeholder (str pre body post : CStr) (s : ExpandFlags)
    (hstr : str = pre ++ (placeholder body ++ post))
    (hclose : ascii '}' ∉ body) (hopen : ¬ openMark <:+: body) :
    Loop.final (lexStep str) s ((placeholder body).zipIdx pre.length)
        = ⟨false, pre.length + 1, false, false⟩
      ∧ Loop.outputs (lexStep str) s ((placeholder body).zipIdx pre.length)
        = (if s.isOpen = false then [.put pre.length (ascii '$')] else [])
          ++ [.opn (pre.length + 1),
            .close (pre.length + 2 + body.length) body (isConditional body)] := by
  obtain ⟨hfinal₁, houts₁⟩ := lex_open str pre (body ++ (closeMark ++ post)) s
    (by rw [hstr]; unfold placeholder; simp)
  -- the body, behind the `{`
  have hlen : (pre ++ openMark).length = pre.length + 2 := by simp [openMark]
  have hlast : (pre ++ openMark).getLast? = some (ascii '{') := by
    rw [List.getLast?_append]
    rfl
  have hbody : ¬ openMark <:+: (pre ++ openMark).getLast?.toList ++ body := by
    intro h
    rw [hlast] at h
    rcases pair_infix_cons.mp (show [ascii '$', ascii '{'] <:+: ascii '{' :: body from h)
      with ⟨h, _⟩ | h
    · exact absurd h (by simp)
    · exact hopen h
  obtain ⟨hfinal₂, houts₂⟩ := lex_text str body (pre ++ openMark) (closeMark ++ post)
    ⟨true, pre.length + 1, false, false⟩ (by rw [hstr]; unfold placeholder; simp) hclose hbody
  rw [hlen] at hfinal₂ houts₂
  -- the `}`
  have hend := lexStep_close pre body post (decide (ascii ':' ∈ body)) (decide (ascii '=' ∈ body))
  rw [← hstr] at hend
  have hzip : (placeholder body).zipIdx pre.length
      = openMark.zipIdx pre.length ++ (body.zipIdx (pre.length + 2)
          ++ [(ascii '}', pre.length + 2 + body.length)]) := by
    unfold placeholder
    rw [List.zipIdx_append, List.zipIdx_append]
    rfl
  rw [hzip]
  refine ⟨?_, ?_⟩
  · rw [Loop.final_append, hfinal₁, Loop.final_append, hfinal₂]
    simp only [Bool.false_or]
    rw [Loop.final_cons, hend, Loop.final_nil]
  · rw [Loop.outputs_append, hfinal₁, houts₁, Loop.outputs_append, hfinal₂, houts₂]
    simp only [Bool.false_or]
    rw [Loop.outputs_cons, hend, Loop.outputs_nil, List.append_assoc]
    rfl

end Protohand
