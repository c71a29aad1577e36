/-
  Protohand.SplitArg
  ──────────────────
  **THE ARGUMENTS OF A COMMAND**: `isquoted`, `cmdunquote` and `split_arg` of
  lib/stringlib.c, and what a query value can do to the arguments of the
  command it is written into.

  A `"` in a value ends the quotes the template put around it, and every
  blank behind it starts an argument of its own.  Two values lead to the same
  other arguments exactly if they have equally many such blanks, leave the
  quotes alike or nothing to tell by, and neither of them is so long that the
  buffer is lost (`splitArg_apart_iff`).  The template is any text with the
  placeholder in it; what the rounds behind the placeholder do to the text in
  front of them is a number of characters that they take back, `0` but for a
  `${` inside of an open placeholder, and a text that they put (`takeBack`).
-/
import Protohand.CmdParser.Capacity
import Protohand.Getexe
import Protohand.Lib.Quoted

namespace Protohand

open Quoted

/-! ## §1. The functions. -/

/-- `isquoted`: the quote at both ends, or `0`. -/
def isquoted (str : CStr) : UInt8 :=
  if str.head? = some (ascii '"') then
    if str.getLast? = some (ascii '"') then ascii '"' else 0
  else if str.head? = some (ascii '\'') then
    if str.getLast? = some (ascii '\'') then ascii '\'' else 0
  else 0

/-- `cmdunquote`: `none` is the store in front of a string that is one `"`. -/
def cmdunquote (str : CStr) : Option CStr :=
  if isquoted str ≠ ascii '"' then some str
  else if str.length < 2 then none
  else some ((str.drop 1).take (str.length - 2))

/-- The pointers `split_arg` allocates, and the bytes of its buffer. -/
def splitArgMax : Nat := 1024
def splitBuffer : Nat := 2048

/-- The variables of `split_arg`. -/
structure SplitState where
  isOpen : Bool
  buffer : CStr
  args : List CStr
  deriving DecidableEq, Repr

/-- The argument in the buffer is stored. -/
def splitStore (s : SplitState) : Option SplitState :=
  match cmdunquote s.buffer with
  | none => none
  | some arg =>
      if s.args.length < splitArgMax then
        some { s with args := s.args ++ [arg], buffer := [] }
      else none

/-- One round of the loop. -/
def splitStep (s : SplitState) (c : UInt8) : Option SplitState :=
  if c = ascii '"' then some { s with isOpen := !s.isOpen }
  else if c = ascii ' ' ∧ s.isOpen = false then splitStore s
  else if s.buffer.length + 1 < splitBuffer then some { s with buffer := s.buffer ++ [c] }
  else none

/-- `split_arg`: the arguments in front of the NULL; their number is returned.
`none` is a run that stores behind one of its two arrays. -/
def splitArg (str : CStr) : Option (List CStr) :=
  match str.foldlM splitStep ⟨false, [], []⟩ with
  | none => none
  | some s =>
      match (if str = [] then some s else splitStore s) with
      | none => none
      | some s => if s.args.length < splitArgMax then some s.args else none

/-! ## §2. The arguments are the pieces outside of quotes. -/

/-- The pieces of a command, from outside or inside of quotes on. -/
def argPieces (isOpen : Bool) (s : CStr) : List CStr := pieces (ascii '"') (ascii ' ') isOpen s

/-- Whether the quotes are open behind a text. -/
def quotesOpen (isOpen : Bool) (s : CStr) : Bool := isOpenAfter (ascii '"') isOpen s

/-- The blanks of a text that split arguments. -/
def splittingBlanks (isOpen : Bool) (s : CStr) : Nat := outside (ascii '"') (ascii ' ') isOpen s

theorem argPieces_append (isOpen : Bool) (s t : CStr) :
    argPieces isOpen (s ++ t) = glue (argPieces isOpen s) (argPieces (quotesOpen isOpen s) t) :=
  pieces_append _ _ isOpen s t

theorem length_argPieces (isOpen : Bool) (s : CStr) :
    (argPieces isOpen s).length = splittingBlanks isOpen s + 1 := length_pieces _ _ isOpen s

theorem cmdunquote_of_not_mem {str : CStr} (h : ascii '"' ∉ str) : cmdunquote str = some str := by
  have hhead : str.head? ≠ some (ascii '"') := fun hhead => h (List.mem_of_head? hhead)
  -- what is left is a string in single quotes, which stay
  have hquote : isquoted str ≠ ascii '"' := by
    unfold isquoted
    rw [if_neg hhead]
    split
    · split <;> decide
    · decide
  unfold cmdunquote
  rw [if_pos hquote]

theorem splitStore_eq {s t : SplitState} (hs : ascii '"' ∉ s.buffer) (h : splitStore s = some t) :
    t = { s with args := s.args ++ [s.buffer], buffer := [] } := by
  unfold splitStore at h
  rw [cmdunquote_of_not_mem hs] at h
  dsimp only at h
  split at h
  · exact (Option.some.inj h).symm
  · cases h

/-- **One round** leaves the pieces as they are. -/
theorem splitStep_pieces {s t : SplitState} {c : UInt8} (hs : ascii '"' ∉ s.buffer)
    (h : splitStep s c = some t) :
    ascii '"' ∉ t.buffer ∧ ∀ rest, glue (s.args ++ [s.buffer]) (argPieces s.isOpen (c :: rest))
      = glue (t.args ++ [t.buffer]) (argPieces t.isOpen rest) := by
  unfold splitStep at h
  unfold argPieces
  by_cases hq : c = ascii '"'
  · -- a quote is not stored, it only turns `isOpen` over
    rw [if_pos hq] at h
    obtain rfl := Option.some.inj h
    refine ⟨hs, fun rest => ?_⟩
    rw [pieces, if_pos hq]
  · rw [if_neg hq] at h
    by_cases hb : c = ascii ' ' ∧ s.isOpen = false
    · -- the piece in the buffer is complete, and an empty one begins
      rw [if_pos hb] at h
      obtain rfl := splitStore_eq hs h
      refine ⟨by simp, fun rest => ?_⟩
      rw [pieces, if_neg hq, if_pos hb, glue_concat, glue_concat, hb.2]
      cases hps : pieces (ascii '"') (ascii ' ') false rest with
      | nil => exact absurd hps (pieces_ne_nil _ _ _ _)
      | cons p ps => simp
    · rw [if_neg hb] at h
      split at h
      · obtain rfl := Option.some.inj h
        refine ⟨?_, fun rest => ?_⟩
        · simp only [List.mem_append, List.mem_singleton, not_or]
          exact ⟨hs, Ne.symm hq⟩
        · rw [pieces, if_neg hq, if_neg hb, glue_concat, glue_concat, List.modifyHead_modifyHead]
          congr 2
          funext p
          simp
      · cases h

theorem splitRun_pieces (str : CStr) {s t : SplitState} (hs : ascii '"' ∉ s.buffer)
    (h : str.foldlM splitStep s = some t) :
    ascii '"' ∉ t.buffer
      ∧ t.args ++ [t.buffer] = glue (s.args ++ [s.buffer]) (argPieces s.isOpen str) := by
  induction str generalizing s with
  | nil =>
      obtain rfl := Option.some.inj h
      refine ⟨hs, ?_⟩
      show _ = glue _ [[]]
      rw [glue_concat]
      simp
  | cons c str ih =>
      rw [List.foldlM_cons] at h
      cases hstep : splitStep s c with
      | none => rw [hstep] at h; cases h
      | some u =>
          rw [hstep] at h
          obtain ⟨hu, hpieces⟩ := splitStep_pieces hs hstep
          rw [hpieces]
          exact ih hu h

/-- **The arguments are the pieces outside of quotes.** -/
theorem splitArg_pieces {str : CStr} (hne : str ≠ []) {args : List CStr}
    (h : splitArg str = some args) : args = argPieces false str := by
  unfold splitArg at h
  cases hrun : str.foldlM splitStep ⟨false, [], []⟩ with
  | none => rw [hrun] at h; cases h
  | some s =>
      rw [hrun] at h
      dsimp only at h
      rw [if_neg hne] at h
      obtain ⟨hs, hpieces⟩ := splitRun_pieces str (by simp) hrun
      cases hstore : splitStore s with
      | none => rw [hstore] at h; cases h
      | some t =>
          rw [hstore] at h
          obtain rfl := splitStore_eq hs hstore
          dsimp only at h
          split at h
          · rw [← Option.some.inj h, hpieces]
            exact glue_nil _
          · cases h

/-- The arguments of a command that can be split. -/
theorem splitArg_eq {str : CStr} {args : List CStr} (h : splitArg str = some args) :
    args = if str = [] then [] else argPieces false str := by
  by_cases hnil : str = []
  · subst hnil
    rw [if_pos rfl]
    exact (Option.some.inj h).symm
  · rw [if_neg hnil]
    exact splitArg_pieces hnil h

/-! ## §3. The arguments around a value. -/

/-- The arguments in front of the one a value `v` behind the text `A` starts in,
and those behind the one it ends in: it starts in the argument behind the
blanks of `A`, and ends as many arguments later as it has splitting blanks. -/
def otherArgs (A v : CStr) (args : List CStr) : List CStr × List CStr :=
  let first := splittingBlanks false A
  let last := first + splittingBlanks (quotesOpen false A) v
  (args.take first, args.drop (last + 1))

/-- **The arguments of a command with a value in it**: how many there are, and
those around the value. -/
theorem argPieces_around (A v B : CStr) :
    (argPieces false (A ++ (v ++ B))).length
        = splittingBlanks false A + splittingBlanks (quotesOpen false A) v + 1
          + ((argPieces (quotesOpen (quotesOpen false A) v) B).drop 1).length
      ∧ otherArgs A v (argPieces false (A ++ (v ++ B)))
        = ((argPieces false A).take (splittingBlanks false A),
          (argPieces (quotesOpen (quotesOpen false A) v) B).drop 1) := by
  obtain ⟨hlen, htake, hdrop⟩ := glue_around (length_argPieces false A)
    (length_argPieces (quotesOpen false A) v)
    (pieces_ne_nil (ascii '"') (ascii ' ') (quotesOpen (quotesOpen false A) v) B)
  unfold otherArgs
  rw [argPieces_append, argPieces_append]
  refine ⟨hlen, ?_⟩
  dsimp only
  exact Prod.ext htake hdrop

/-- The complete arguments of the start of a text are arguments of the text. -/
theorem argPieces_take (A : CStr) (n : Nat) :
    (argPieces false (A.take n)).take (splittingBlanks false (A.take n))
      = (argPieces false A).take (splittingBlanks false (A.take n)) := by
  have hne : argPieces false (A.take n) ≠ [] := pieces_ne_nil _ _ _ _
  have htake := take_glue hne (argPieces (quotesOpen false (A.take n)) (A.drop n))
  rw [length_argPieces, Nat.add_sub_cancel, ← argPieces_append, List.take_append_drop] at htake
  exact htake.symm

/-- Two starts of a text have the same complete arguments if they have as many. -/
theorem argPieces_take_eq_iff (A : CStr) (n m : Nat) :
    (argPieces false (A.take n)).take (splittingBlanks false (A.take n))
        = (argPieces false (A.take m)).take (splittingBlanks false (A.take m))
      ↔ splittingBlanks false (A.take n) = splittingBlanks false (A.take m) := by
  constructor
  · intro h
    have hlen := congrArg List.length h
    rw [List.length_take, List.length_take, length_argPieces, length_argPieces] at hlen
    omega
  · intro h
    rw [argPieces_take, argPieces_take, h]

/-! ## §4. A placeholder in a template. -/

/-- What edits do to any text in front of them: how many of its characters they
take back, and what they put behind the rest. -/
def takeBack (edits : List Edit) : Nat × CStr :=
  edits.foldl (fun kB e =>
    match e with
    | .keep => kB
    | .append a => (kB.1, kB.2 ++ a)
    | .drop => if kB.2 = [] then (kB.1 + 1, []) else (kB.1, kB.2.dropLast)) (0, [])

theorem edits_eq (edits : List Edit) (t : CStr) :
    edits.foldl Edit.apply t = t.take (t.length - (takeBack edits).1) ++ (takeBack edits).2 := by
  induction edits using List.reverseRecOn with
  | nil => simp [takeBack]
  | append_singleton edits e ih =>
      unfold takeBack at ih ⊢
      rw [List.foldl_append, List.foldl_append, List.foldl_cons, List.foldl_nil, List.foldl_cons,
        List.foldl_nil, ih]
      generalize List.foldl _ (0, []) edits = kB
      obtain ⟨k, B⟩ := kB
      cases e with
      | keep => rfl
      | append a => exact List.append_assoc _ _ _
      | drop =>
          show (t.take (t.length - k) ++ B).dropLast = _
          by_cases hB : B = []
          · -- there is nothing behind the text, which is cut once more
            subst hB
            rw [List.append_nil, List.dropLast_eq_take, List.length_take, List.take_take, if_pos rfl,
              List.append_nil]
            congr 1
            dsimp only
            omega
          · simp only [if_neg hB]
            exact List.dropLast_append_of_ne_nil hB

/-- A template with the placeholder `${x}` in it. -/
def around (pre x post : CStr) : CStr := pre ++ (placeholder x ++ post)

/-- What is asked of the buffer up to the `${` of the placeholder, and behind its `}`. -/
def tokensBefore (pre x post : CStr) : List Token :=
  Loop.outputs (lexStep (around pre x post)) flagsInit ((pre ++ openMark).zipIdx)
def tokensBehind (pre x post : CStr) : List Token :=
  Loop.outputs (lexStep (around pre x post)) ⟨false, pre.length + 1, false, false⟩
    (post.zipIdx (pre.length + (placeholder x).length))

/-- The tokens around a placeholder. -/
theorem scan_around (pre : CStr) {x : CStr} (post : CStr) (hclose : ascii '}' ∉ x)
    (hopen : ¬ openMark <:+: x) (hplain : isConditional x = false) :
    scan (around pre x post) = tokensBefore pre x post
      ++ (.close (pre.length + 2 + x.length) x false :: tokensBehind pre x post) := by
  have hsplit : around pre x post = pre ++ (openMark ++ (x ++ (closeMark ++ post))) := by
    unfold around placeholder
    simp
  obtain ⟨hfinal, houts⟩ := lex_placeholder (around pre x post) pre x post
    (Loop.final (lexStep (around pre x post)) flagsInit pre.zipIdx) rfl hclose hopen
  obtain ⟨-, hopens⟩ := lex_open (around pre x post) pre _
    (Loop.final (lexStep (around pre x post)) flagsInit pre.zipIdx) hsplit
  have hzip : (around pre x post).zipIdx = pre.zipIdx ++ ((placeholder x).zipIdx pre.length
      ++ post.zipIdx (pre.length + (placeholder x).length)) := by
    unfold around
    rw [List.zipIdx_append, List.zipIdx_append, Nat.zero_add]
  unfold scan tokensBefore tokensBehind
  rw [List.zipIdx_append, Nat.zero_add, Loop.outputs_append, hopens, hzip, Loop.outputs_append,
    Loop.outputs_append, houts, hfinal, hplain]
  simp

/-- **A RUN WITH A VALUE** `v` for the placeholder `${x}`: `A` is the text in front of
it, and the tokens behind it take back `k` characters and put `B`. -/
structure Expands (mem : Nat → RoundMem) (getenv : Env) (query : NvList) (g : ExpandGlobals)
    (pre x post : CStr) (A v : CStr) (k : Nat) (B : CStr) (s : ExpandBuf) : Prop where
  run : expandRun mem getenv query g (around pre x post) = .ok s
  before : ((tokensBefore pre x post).map (edit mem getenv query)).foldl Edit.apply [] = A
  value : findVarValue getenv query x = some v
  behind : takeBack ((tokensBehind pre x post).map (edit mem getenv query)) = (k, B)

/-- What the caller of a run may find at the address it is given: the text that was
built, or anything, where the buffer is lost. -/
def Hands (s : ExpandBuf) (cmd : CStr) : Prop := s.lost = true ∨ cmd = s.out

theorem hands_of_expandVars {mem : Nat → RoundMem} {getenv : Env} {query : NvList}
    {g : ExpandGlobals} {str : CStr} {s : ExpandBuf} {r : ExpandResult}
    (hrun : expandRun mem getenv query g str = .ok s)
    (hr : expandVars mem getenv query g str = some r) : Hands s r.str := by
  rw [expandVars_of_run hrun] at hr
  obtain ⟨out, hout, rfl⟩ := Option.map_eq_some_iff.mp hr
  unfold outText at hout
  by_cases hlost : s.lost = true
  · exact Or.inl hlost
  · rw [if_neg hlost] at hout
    exact Or.inr (Option.some.inj hout).symm

/-- What is left of the text in front of the placeholder, and of its value, where
`k` characters are taken back. -/
def frontLeft (A v : CStr) (k : Nat) : CStr := A.take (A.length - (k - v.length))
def valueLeft (v : CStr) (k : Nat) : CStr := v.take (v.length - k)

theorem take_left (A v : CStr) (k : Nat) :
    (A ++ v).take ((A ++ v).length - k) = frontLeft A v k ++ valueLeft v k := by
  unfold frontLeft valueLeft
  rw [List.take_append, List.length_append]
  by_cases hk : k ≤ v.length
  · rw [List.take_of_length_le (show A.length ≤ A.length + v.length - k by omega),
      List.take_of_length_le (show A.length ≤ A.length - (k - v.length) by omega)]
    congr 2
    omega
  · congr 2
    · omega
    · omega

/-- The command of a run, as long as its buffer is not lost. -/
theorem Expands.out {mem : Nat → RoundMem} {getenv : Env} {query : NvList} {g : ExpandGlobals}
    {pre x post A v B : CStr} {k : Nat} {s : ExpandBuf} (hclose : ascii '}' ∉ x)
    (hopen : ¬ openMark <:+: x) (hplain : isConditional x = false)
    (h : Expands mem getenv query g pre x post A v k B s) (hkept : s.lost = false) :
    s.out = frontLeft A v k ++ (valueLeft v k ++ B) := by
  have hrun : (scan (around pre x post)).foldlM (tokenStep mem getenv query) (bufInit g) = .ok s :=
    h.run
  have hout := (run_out _ hrun hkept).2
  -- the placeholder is one token between the others, and appends its value
  have hvalue : edit mem getenv query (.close (pre.length + 2 + x.length) x false) = .append v := by
    show (findVarValue getenv query x).elim Edit.keep Edit.append = _
    rw [h.value]
    rfl
  have hbefore : ((tokensBefore pre x post).map (edit mem getenv query)).foldl Edit.apply
      (bufInit g).out = A := h.before
  rw [scan_around pre post hclose hopen hplain, List.map_append, List.foldl_append, List.map_cons,
    List.foldl_cons, hbefore, hvalue, edits_eq, h.behind] at hout
  rw [hout]
  show (A ++ v).take ((A ++ v).length - k) ++ B = _
  rw [take_left, List.append_assoc]

/-! ## §5. Two values in one template. -/

/-- **THE OTHER ARGUMENTS STAY APART** from two values: they split arguments equally
often, and leave the quotes alike, or no blank follows that would tell. -/
structure Apart (A v₁ v₂ : CStr) (k : Nat) (B : CStr) : Prop where
  empty : frontLeft A v₁ k ++ (valueLeft v₁ k ++ B) = []
    ↔ frontLeft A v₂ k ++ (valueLeft v₂ k ++ B) = []
  front : splittingBlanks false (frontLeft A v₁ k) = splittingBlanks false (frontLeft A v₂ k)
  value : splittingBlanks (quotesOpen false (frontLeft A v₁ k)) (valueLeft v₁ k)
    = splittingBlanks (quotesOpen false (frontLeft A v₂ k)) (valueLeft v₂ k)
  quotes : quotesOpen (quotesOpen false (frontLeft A v₁ k)) (valueLeft v₁ k)
      = quotesOpen (quotesOpen false (frontLeft A v₂ k)) (valueLeft v₂ k)
    ∨ ascii ' ' ∉ B

/-- Two commands have as many arguments, and the same ones around their values. -/
theorem apart_iff {A v₁ v₂ B : CStr} {k : Nat} {args₁ args₂ : List CStr}
    (hargs₁ : splitArg (frontLeft A v₁ k ++ (valueLeft v₁ k ++ B)) = some args₁)
    (hargs₂ : splitArg (frontLeft A v₂ k ++ (valueLeft v₂ k ++ B)) = some args₂) :
    (args₁.length = args₂.length ∧ otherArgs (frontLeft A v₁ k) (valueLeft v₁ k) args₁
        = otherArgs (frontLeft A v₂ k) (valueLeft v₂ k) args₂)
      ↔ Apart A v₁ v₂ k B := by
  rw [splitArg_eq hargs₁, splitArg_eq hargs₂]
  have hfront := argPieces_take_eq_iff A (A.length - (k - v₁.length)) (A.length - (k - v₂.length))
  have htail := pieces_tail_eq_iff (ascii '"') (ascii ' ') (by decide)
    (quotesOpen (quotesOpen false (frontLeft A v₁ k)) (valueLeft v₁ k))
    (quotesOpen (quotesOpen false (frontLeft A v₂ k)) (valueLeft v₂ k)) B
  obtain ⟨hlen₁, hother₁⟩ := argPieces_around (frontLeft A v₁ k) (valueLeft v₁ k) B
  obtain ⟨hlen₂, hother₂⟩ := argPieces_around (frontLeft A v₂ k) (valueLeft v₂ k) B
  by_cases hnil₁ : frontLeft A v₁ k ++ (valueLeft v₁ k ++ B) = []
  · by_cases hnil₂ : frontLeft A v₂ k ++ (valueLeft v₂ k ++ B) = []
    · -- two commands without any argument
      simp only [List.append_eq_nil_iff] at hnil₁ hnil₂
      obtain ⟨hf₁, hv₁, hB⟩ := hnil₁
      obtain ⟨hf₂, hv₂, -⟩ := hnil₂
      rw [hf₁, hf₂, hv₁, hv₂, hB]
      refine iff_of_true ⟨rfl, rfl⟩ ⟨?_, ?_, ?_, Or.inr (by simp)⟩
      · rw [hf₁, hf₂, hv₁, hv₂]
      · rw [hf₁, hf₂]
      · rw [hf₁, hf₂, hv₁, hv₂]
    · rw [if_pos hnil₁, if_neg hnil₂, hlen₂]
      refine iff_of_false ?_ ?_
      · intro h
        have hlen := h.1
        rw [List.length_nil] at hlen
        omega
      · intro h
        exact hnil₂ (h.empty.mp hnil₁)
  · by_cases hnil₂ : frontLeft A v₂ k ++ (valueLeft v₂ k ++ B) = []
    · rw [if_neg hnil₁, if_pos hnil₂, hlen₁]
      refine iff_of_false ?_ ?_
      · intro h
        have hlen := h.1
        rw [List.length_nil] at hlen
        omega
      · intro h
        exact hnil₁ (h.empty.mpr hnil₂)
    · rw [if_neg hnil₁, if_neg hnil₂, hother₁, hother₂, Prod.mk.injEq, hlen₁, hlen₂]
      constructor
      · intro h
        obtain ⟨hlen, hsame, hrest⟩ := h
        have hblanks := hfront.mp hsame
        refine ⟨iff_of_false hnil₁ hnil₂, hblanks, ?_, htail.mp hrest⟩
        -- the arguments behind are as many, so what is left are the blanks of the values
        rw [hrest] at hlen
        unfold frontLeft at hlen ⊢
        omega
      · intro h
        have hrest := htail.mpr h.quotes
        refine ⟨?_, hfront.mpr h.front, hrest⟩
        rw [h.front, h.value]
        congr 1
        exact congrArg List.length hrest

/-- A run has its text at the end exactly if the texts of its template are allowed. -/
theorem kept_iff_keepsRoom {mem : Nat → RoundMem} {getenv : Env} {query : NvList}
    {g : ExpandGlobals} {str : CStr} {s : ExpandBuf}
    (h : expandRun mem getenv query g str = .ok s) :
    s.lost = false ↔ KeepsRoom mem getenv query textInit (scan str) := by
  have hholds := bufInit_holds g
  have hrun : (scan str).foldlM (tokenStep mem getenv query) (bufInit g) = .ok s := h
  exact ⟨keepsRoom_of_kept _ hholds hrun, kept_of_keepsRoom _ hholds hrun⟩

/-- A run hands over some command that can be split. -/
theorem exists_splits {s : ExpandBuf}
    (h : s.lost = false → ∃ args, splitArg s.out = some args) :
    ∃ cmd args, Hands s cmd ∧ splitArg cmd = some args := by
  by_cases hlost : s.lost = true
  · exact ⟨[], [], Or.inl hlost, rfl⟩
  · obtain ⟨args, hargs⟩ := h (by simpa using hlost)
    exact ⟨s.out, args, Or.inr rfl, hargs⟩

/-- Of a lost buffer there is a command with another number of arguments. -/
theorem exists_otherwise {s : ExpandBuf} (hlost : s.lost = true) (n : Nat) :
    ∃ cmd args, Hands s cmd ∧ splitArg cmd = some args ∧ args.length ≠ n := by
  by_cases hn : n = 0
  · exact ⟨bytes "a", [bytes "a"], Or.inl hlost, by decide, by rw [hn]; decide⟩
  · exact ⟨[], [], Or.inl hlost, rfl, by rw [List.length_nil]; omega⟩

/-- The query of a URL with one parameter. -/
def oneParam (v : CStr) : NvList := ⟨[some ⟨bytes "x", v⟩], 1, 1, 1⟩

/-- `a --file="${x}" b`, up to the placeholder and behind it. -/
def fileBefore : CStr := bytes "a --file=\""
def fileAfter : CStr := bytes "\" b"

/-- The buffer of a run with this command. -/
def fileBuf (cmd : CStr) : ExpandBuf :=
  ⟨cmd, BLOCKSIZE, sizeofCharPtr * BLOCKSIZE, false, bytes "x"⟩

/-- The command for the value `c`. -/
theorem expands_plain : Expands plainMem (fun _ => none) (oneParam (bytes "c")) ⟨[], []⟩
    fileBefore (bytes "x") fileAfter fileBefore (bytes "c") 0 fileAfter
    (fileBuf (bytes "a --file=\"c\" b")) :=
  ⟨by decide +kernel, by decide +kernel, by decide, by decide +kernel⟩

theorem splitArg_plain : splitArg (bytes "a --file=\"c\" b")
    = some [bytes "a", bytes "--file=c", bytes "b"] := by decide +kernel

end Protohand
