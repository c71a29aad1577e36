/-
  Protohand.CmdParser.Expand
  ──────────────────────────
  **EXPANSION IS SUBSTITUTION.**

  A template is a sequence of literal texts and placeholders (`Seg`), and its
  expansion the concatenation of what they stand for (`expansion`).  Two
  facts about the buffer run over the tokens of a template carry everything:

    • whatever a run that succeeds started from, and as long as its buffer is
      not lost, it has appended exactly the expansion (`run_segs`) — values are
      copied, never scanned again,
    • a run with room for the expansion succeeds (`run_segs_ok`).
-/
import Protohand.CmdParser.Buffer

namespace Protohand

open Text

/-! ## §1. Templates as segments. -/

/-- A piece of a template. -/
inductive Seg where
  | lit (text : CStr)
  | ph (body : CStr)
  deriving DecidableEq, Repr

/-- How a piece is written. -/
def Seg.text : Seg → CStr
  | .lit t => t
  | .ph b => placeholder b

/-- How a template is written. -/
def template (segs : List Seg) : CStr := segs.flatMap Seg.text

/-- A body the scanner reads as a whole, and that fits `lastvar`. -/
structure BodyOk (body : CStr) : Prop where
  no_close : ascii '}' ∉ body
  no_open : ¬ openMark <:+: body
  short : body.length < 500

/-- No literal text closes or opens a placeholder.  `prev` is the character in
front of the pieces: a `$` at the end of one text and a `{` at the start of
the next would open one too. -/
def SegsOk : Option UInt8 → List Seg → Prop
  | _, [] => True
  | prev, .lit t :: segs =>
      ascii '}' ∉ t ∧ ¬ openMark <:+: prev.toList ++ t ∧ SegsOk (prev.toList ++ t).getLast? segs
  | _, .ph b :: segs => BodyOk b ∧ SegsOk (some (ascii '}')) segs

/-- The tokens of a template that starts at index `i`. -/
def segTokens : Nat → List Seg → List Token
  | _, [] => []
  | i, .lit t :: segs => puts i t ++ segTokens (i + t.length) segs
  | i, .ph b :: segs =>
      [.put i (ascii '$'), .opn (i + 1), .close (i + 2 + b.length) b (isConditional b)]
        ++ segTokens (i + (placeholder b).length) segs

theorem template_cons (seg : Seg) (segs : List Seg) :
    template (seg :: segs) = seg.text ++ template segs := rfl

/-- The last character of a text, where there may be nothing but its context. -/
theorem getLast?_context (pre t : CStr) :
    (pre ++ t).getLast? = (pre.getLast?.toList ++ t).getLast? := by
  rw [List.getLast?_append, List.getLast?_append]
  cases pre.getLast? <;> rfl

/-- **THE TOKENS OF A TEMPLATE**, wherever it stands in the scanned text. -/
theorem lex_segs (str : CStr) :
    ∀ (segs : List Seg) (pre post : CStr) (s : ExpandFlags),
      str = pre ++ (template segs ++ post) → SegsOk pre.getLast? segs → s.isOpen = false →
      Loop.outputs (lexStep str) s ((template segs).zipIdx pre.length) = segTokens pre.length segs
  | [], pre, post, s, _, _, _ => rfl
  | .lit t :: segs, pre, post, s, hstr, hok, hclosed => by
      obtain ⟨hclose, hopen, hrest⟩ := hok
      have hstr' : str = pre ++ (t ++ (template segs ++ post)) := by
        rw [hstr, template_cons, List.append_assoc]
        rfl
      have hnext : str = (pre ++ t) ++ (template segs ++ post) := by
        rw [hstr', List.append_assoc]
      obtain ⟨hfinal, houts⟩ := lex_text str t pre _ s hstr' hclose hopen
      rw [if_pos hclosed] at houts
      have ih := lex_segs str segs (pre ++ t) post
        (Loop.final (lexStep str) s (t.zipIdx pre.length)) hnext
        (by rw [getLast?_context]; exact hrest) (by rw [hfinal]; exact hclosed)
      rw [List.length_append] at ih
      show Loop.outputs _ s ((t ++ template segs).zipIdx pre.length) = _
      rw [List.zipIdx_append, Loop.outputs_append, houts, ih]
      rfl
  | .ph b :: segs, pre, post, s, hstr, hok, hclosed => by
      obtain ⟨hbody, hrest⟩ := hok
      have hstr' : str = pre ++ (placeholder b ++ (template segs ++ post)) := by
        rw [hstr, template_cons, List.append_assoc]
        rfl
      have hnext : str = (pre ++ placeholder b) ++ (template segs ++ post) := by
        rw [hstr', List.append_assoc]
      obtain ⟨hfinal, houts⟩ := lex_placeholder str pre b _ s hstr' hbody.no_close hbody.no_open
      rw [if_pos hclosed] at houts
      -- a literal text behind it only ever follows its `}`
      have hlast : (pre ++ placeholder b).getLast? = some (ascii '}') := by
        have hcut : pre ++ placeholder b = (pre ++ (openMark ++ b)) ++ [ascii '}'] := by
          unfold placeholder
          simp [openMark, closeMark]
        rw [hcut, List.getLast?_concat]
      have ih := lex_segs str segs (pre ++ placeholder b) post
        (Loop.final (lexStep str) s ((placeholder b).zipIdx pre.length)) hnext
        (by rw [hlast]; exact hrest) (by rw [hfinal])
      rw [List.length_append] at ih
      show Loop.outputs _ s ((placeholder b ++ template segs).zipIdx pre.length) = _
      rw [List.zipIdx_append, Loop.outputs_append, houts, ih]
      rfl

theorem scan_template {segs : List Seg} (hok : SegsOk none segs) :
    scan (template segs) = segTokens 0 segs :=
  lex_segs (template segs) segs [] [] flagsInit (by simp) hok rfl

/-! ## §2. What a template stands for. -/

/-- The text a placeholder is replaced by; `i` is the index of its `}`. -/
def segValue (mem : Nat → RoundMem) (getenv : Env) (query : NvList) (i : Nat) (body : CStr) :
    CStr :=
  if isConditional body = true then
    match parseConditional (mem i).toCondMem getenv query body with
    | some (_, cond) => if cond.cmatch = 1 then cond.replace else []
    | none => []
  else (findVarValue getenv query body).getD []

/-- **THE EXPANSION** of a template that starts at index `i`, from left to right. -/
def expansion (mem : Nat → RoundMem) (getenv : Env) (query : NvList) : Nat → List Seg → CStr
  | _, [] => []
  | i, .lit t :: segs => t ++ expansion mem getenv query (i + t.length) segs
  | i, .ph b :: segs =>
      segValue mem getenv query (i + 2 + b.length) b
        ++ expansion mem getenv query (i + (placeholder b).length) segs

/-! ## §3. The buffer run over a template. -/

section Run

variable {mem : Nat → RoundMem} {getenv : Env} {query : NvList}

/-- What the `}` of a placeholder appends is what the placeholder stands for. -/
theorem appended_close (i : Nat) (body : CStr) :
    (appended mem getenv query (.close i body (isConditional body))).getD []
      = segValue mem getenv query i body := by
  unfold appended segValue
  by_cases hcond : isConditional body = true
  · simp only [if_pos hcond]
    cases parseConditional (mem i).toCondMem getenv query body with
    | none => rfl
    | some r =>
        by_cases hmatch : r.2.cmatch = 1
        · simp only [if_pos hmatch]
          rfl
        · simp only [if_neg hmatch]
          rfl
  · simp only [if_neg hcond]

/-- A token that is no `${` puts its text behind the text. -/
theorem edit_apply {t : Token} (ht : ∀ i, t ≠ .opn i) (out : CStr) :
    (edit mem getenv query t).apply out = out ++ (appended mem getenv query t).getD [] := by
  have hedit : edit mem getenv query t
      = (appended mem getenv query t).elim .keep .append := by
    cases t with
    | opn i => exact absurd rfl (ht i)
    | put i c => rfl
    | fault => rfl
    | close i varname isCond => rfl
  rw [hedit]
  cases appended mem getenv query t with
  | none => exact (List.append_nil out).symm
  | some a => rfl

/-- The edits of a literal text append it. -/
theorem edits_puts (t : CStr) (i : Nat) (out : CStr) :
    ((puts i t).map (edit mem getenv query)).foldl Edit.apply out = out ++ t := by
  induction t generalizing i out with
  | nil => exact (List.append_nil out).symm
  | cons c t ih =>
      rw [puts_cons, List.map_cons, List.foldl_cons, ih]
      exact List.append_assoc out [c] t

/-- **The edits of a template** append its expansion: the `$` of a placeholder is
put and taken back. -/
theorem edits_segs : ∀ (segs : List Seg) (i : Nat) (out : CStr),
    ((segTokens i segs).map (edit mem getenv query)).foldl Edit.apply out
      = out ++ expansion mem getenv query i segs
  | [], i, out => (List.append_nil out).symm
  | .lit t :: segs, i, out => by
      rw [segTokens, List.map_append, List.foldl_append, edits_puts, edits_segs segs, expansion,
        List.append_assoc]
  | .ph b :: segs, i, out => by
      have hclose : (edit mem getenv query (.close (i + 2 + b.length) b (isConditional b))).apply out
          = out ++ (appended mem getenv query (.close (i + 2 + b.length) b _)).getD [] :=
        edit_apply (fun _ h => by cases h) out
      have hdollar : (out ++ [ascii '$']).dropLast = out := List.dropLast_concat
      rw [segTokens, List.map_append, List.foldl_append, edits_segs segs, expansion,
        ← List.append_assoc]
      congr 1
      show (edit mem getenv query _).apply ((out ++ [ascii '$']).dropLast) = _
      rw [hdollar, hclose, appended_close]

/-- **A RUN THAT SUCCEEDS HAS APPENDED THE EXPANSION**, whatever it started from,
if its buffer is not lost. -/
theorem run_segs {segs : List Seg} {i : Nat} {s s' : ExpandBuf}
    (h : (segTokens i segs).foldlM (tokenStep mem getenv query) s = .ok s')
    (hkept : s'.lost = false) : s'.out = s.out ++ expansion mem getenv query i segs := by
  rw [(run_out _ h hkept).2, edits_segs]

/-! ## §4. Runs with enough room. -/

/-- What the buffer of a run keeps: it is as long as a fresh one, or longer, and
a fresh one has room for another block. -/
structure Roomy (s : ExpandBuf) : Prop where
  kept : s.lost = false
  capacity : (BLOCKSIZE : Int) ≤ s.bufferLength
  spare : s.bufferLength = BLOCKSIZE → 2 * (BLOCKSIZE : Int) ≤ s.block

theorem bufInit_roomy (g : ExpandGlobals) : Roomy (bufInit g) where
  kept := rfl
  capacity := Int.le_refl _
  spare := fun _ => show 2 * (BLOCKSIZE : Int) ≤ sizeofCharPtr * BLOCKSIZE by decide

/-- A text that ends below `BLOCKSIZE` is appended. -/
theorem expandAppend_roomy {m : RoundMem} {s : ExpandBuf} (hs : Roomy s) {append : CStr}
    (h : s.out.length + append.length < BLOCKSIZE) :
    expandAppend m s append = .ok { s with out := s.out ++ append } := by
  have hcap := hs.capacity
  exact expandAppend_room hs.kept (by omega)

/-- The `$` of a placeholder may be the one byte too many: the first block has
room for it all the same. -/
theorem expandAppend_dollar {m : RoundMem} {s : ExpandBuf} (hs : Roomy s)
    (h : s.out.length < BLOCKSIZE) (c : UInt8) :
    ∃ s₁, expandAppend m s [c] = .ok s₁ ∧ Roomy s₁ ∧ s₁.out = s.out ++ [c] := by
  have hcap := hs.capacity
  have hblock : BLOCKSIZE = 4096 := rfl
  by_cases hroom : (s.out.length + [c].length + 1 : Int) ≤ s.bufferLength
  · exact ⟨_, expandAppend_room hs.kept hroom, ⟨hs.kept, hcap, hs.spare⟩, rfl⟩
  · -- the block is full up to its terminator, and grows
    rw [List.length_singleton] at hroom
    have hfull : s.bufferLength = BLOCKSIZE := by omega
    have hspare := hs.spare hfull
    have hgrow : appendCapacity s.out.length [c].length s.bufferLength = 2 * BLOCKSIZE := by
      rw [appendCapacity_grow (by omega) (by rw [List.length_singleton]; omega), hfull]
      omega
    have hlost : appendLoses m.moves s.out.length [c].length s.bufferLength s.block = false := by
      unfold appendLoses
      rw [hgrow, List.length_singleton]
      simp only [Bool.and_eq_false_iff, Bool.or_eq_false_iff, decide_eq_false_iff_not]
      omega
    refine ⟨s.extend m.moves s.out [c], (expandAppend_iff m s _ _).mpr
      ⟨s.out, outText_of_kept hs.kept, by omega, rfl⟩, ?_, rfl⟩
    unfold ExpandBuf.extend
    refine ⟨?_, ?_, ?_⟩
    · show (s.lost || _) = false
      rw [hs.kept, hlost]
      rfl
    · show (BLOCKSIZE : Int) ≤ appendCapacity _ _ _
      omega
    · intro h
      have hnew : appendCapacity s.out.length [c].length s.bufferLength = BLOCKSIZE := h
      omega

/-- In a body that does not start with `=`, a name stands in front of the operator. -/
theorem condOperator_pos (m : CondMem) {body : CStr} (h : body.head? ≠ some (ascii '='))
    {sign : Int} {pos : Nat} (hop : condOperator m body = some (sign, pos)) : 0 < pos := by
  unfold condOperator at hop
  by_cases heq : ascii '=' ∈ body
  · have hii : 0 < (before (ascii '=') body).length := by
      apply List.length_pos_of_ne_nil
      intro hnil
      have hcut := before_append_after heq
      rw [hnil] at hcut
      exact h (by rw [← hcut]; rfl)
    rw [if_pos heq, Option.some.injEq, Prod.mk.injEq] at hop
    rw [← hop.2]
    split <;> omega
  · rw [if_neg heq] at hop
    cases hop

/-- **The ends of a parse**: no `=`, no `:`, or a comparison.  No match is noted
before it. -/
theorem parseConditional_cases {m : CondMem} {body : CStr} {r : Nat × Conditional}
    (h : parseConditional m getenv query body = some r) :
    ∃ c, c.cmatch = -1 ∧ (r = (EXP_ERR_NO_EQUAL, c) ∨ r = (EXP_ERR_NO_COLON, c)
      ∨ r = condCompare getenv query c) := by
  unfold parseConditional at h
  cases hop : condOperator m body with
  | none =>
      rw [hop] at h
      exact ⟨condReset, rfl, Or.inl (Option.some.inj h).symm⟩
  | some op =>
      rw [hop] at h
      simp only at h
      split at h
      · cases h
      · split at h
        · exact ⟨_, rfl, Or.inr (Or.inr (Option.some.inj h).symm)⟩
        · exact ⟨_, rfl, Or.inr (Or.inl (Option.some.inj h).symm)⟩

/-- A body that does not start with `=` is parsed to some end. -/
theorem parseConditional_isSome (m : CondMem) {body : CStr} (h : body.head? ≠ some (ascii '=')) :
    ∃ r, parseConditional m getenv query body = some r := by
  unfold parseConditional
  cases hop : condOperator m body with
  | none => exact ⟨_, rfl⟩
  | some op =>
      obtain ⟨sign, pos⟩ := op
      -- so the length of the first name is not negative
      have hpos := condOperator_pos m h hop
      simp only
      rw [if_neg (fun hn => by omega)]
      split
      · exact ⟨_, rfl⟩
      · exact ⟨_, rfl⟩

/-- A sound token whose text ends below `BLOCKSIZE` is accepted. -/
theorem tokenStep_roomy {s : ExpandBuf} (hs : Roomy s) {t : Token}
    (hsound : Sound mem getenv query t) (ht : ∀ i, t ≠ .opn i)
    (hlen : s.out.length + ((appended mem getenv query t).getD []).length < BLOCKSIZE) :
    ∃ s', tokenStep mem getenv query s t = .ok s' ∧ Roomy s'
      ∧ s'.out = s.out ++ (appended mem getenv query t).getD [] := by
  have hs' : Roomy (noted s t) := by
    cases t <;> exact ⟨hs.kept, hs.capacity, hs.spare⟩
  have hedit : edit mem getenv query t
      = (appended mem getenv query t).elim .keep .append := by
    cases t with
    | opn i => exact absurd rfl (ht i)
    | put i c => rfl
    | fault => rfl
    | close i varname isCond => rfl
  rw [tokenStep_sound s hsound, hedit]
  cases happ : appended mem getenv query t with
  | none => exact ⟨_, rfl, hs', by rw [noted_out, Option.getD_none, List.append_nil]⟩
  | some a =>
      rw [happ, Option.getD_some, ← noted_out s t] at hlen
      refine ⟨_, expandAppend_roomy hs' hlen, ⟨hs'.kept, hs'.capacity, hs'.spare⟩, ?_⟩
      show (noted s t).out ++ a = _
      rw [noted_out]
      rfl

theorem run_text_ok (t : CStr) (i : Nat) (s : ExpandBuf) (hs : Roomy s)
    (hlen : s.out.length + t.length < BLOCKSIZE) :
    ∃ s', (puts i t).foldlM (tokenStep mem getenv query) s = .ok s' ∧ Roomy s'
      ∧ s'.out = s.out ++ t := by
  induction t generalizing i s with
  | nil => exact ⟨s, rfl, hs, (List.append_nil s.out).symm⟩
  | cons c t ih =>
      rw [List.length_cons] at hlen
      obtain ⟨s₁, hput, hs₁, hout⟩ : ∃ s₁, tokenStep mem getenv query s (.put i c) = .ok s₁
          ∧ Roomy s₁ ∧ s₁.out = s.out ++ [c] :=
        tokenStep_roomy hs trivial (fun _ h => by cases h)
          (show s.out.length + 1 < BLOCKSIZE by omega)
      have hlen₁ : s₁.out.length = s.out.length + 1 := by
        rw [hout]
        exact List.length_append
      obtain ⟨s', hrun, hs', hend⟩ := ih (i + 1) s₁ hs₁ (by omega)
      refine ⟨s', ?_, hs', ?_⟩
      · rw [puts_cons, List.foldlM_cons, hput]
        exact hrun
      · rw [hend, hout, List.append_assoc]
        rfl

/-- A placeholder: its `$` is put and taken back, and its `}` handled. -/
theorem run_placeholder_eq (i j : Nat) (body : CStr) {s : ExpandBuf} (hs : Roomy s)
    (hlen : s.out.length < BLOCKSIZE) :
    ∃ s₁, Roomy s₁ ∧ s₁.out = s.out
      ∧ [Token.put i (ascii '$'), .opn (i + 1), .close j body (isConditional body)].foldlM
          (tokenStep mem getenv query) s
        = tokenStep mem getenv query s₁ (.close j body (isConditional body)) := by
  obtain ⟨s₁, hput, hs₁, hout⟩ : ∃ s₁, expandAppend (mem i) s [ascii '$'] = .ok s₁ ∧ Roomy s₁
      ∧ s₁.out = s.out ++ [ascii '$'] := expandAppend_dollar hs hlen (ascii '$')
  refine ⟨{ s₁ with out := s₁.out.dropLast }, ⟨hs₁.kept, hs₁.capacity, hs₁.spare⟩, ?_, ?_⟩
  · show s₁.out.dropLast = s.out
    rw [hout, List.dropLast_concat]
  · have hopen : expandOpen (mem (i + 1)) s₁ = .ok { s₁ with out := s₁.out.dropLast } :=
      (expandOpen_iff _ _ _).mpr ⟨s₁.out, outText_of_kept hs₁.kept, rfl⟩
    rw [List.foldlM_cons, show tokenStep mem getenv query s (.put i (ascii '$')) = .ok s₁ from hput]
    show (expandOpen (mem (i + 1)) s₁ >>= _) = _
    rw [hopen]
    show (tokenStep mem getenv query _ (.close j body (isConditional body)) >>= fun t => pure t) = _
    rw [bind_pure]

theorem run_placeholder_ok {i j : Nat} {body : CStr} {s : ExpandBuf} (hs : Roomy s)
    (hsound : Sound mem getenv query (.close j body (isConditional body)))
    (hlen : s.out.length + (segValue mem getenv query j body).length < BLOCKSIZE) :
    ∃ s', [Token.put i (ascii '$'), .opn (i + 1), .close j body (isConditional body)].foldlM
        (tokenStep mem getenv query) s = .ok s' ∧ Roomy s'
      ∧ s'.out = s.out ++ segValue mem getenv query j body := by
  have hroom : s.out.length < BLOCKSIZE := by omega
  obtain ⟨s₁, hs₁, hout, hrun⟩ : ∃ s₁, Roomy s₁ ∧ s₁.out = s.out
      ∧ [Token.put i (ascii '$'), .opn (i + 1), .close j body (isConditional body)].foldlM
          (tokenStep mem getenv query) s = _ := run_placeholder_eq i j body hs hroom
  rw [hrun, ← appended_close, ← hout]
  exact tokenStep_roomy hs₁ hsound (fun _ h => by cases h)
    (by rw [hout, appended_close]; exact hlen)

/-- **One piece with room for the expansion**: the run goes on behind it, with room
for the rest. -/
theorem run_seg_ok {i : Nat} {s : ExpandBuf} (hs : Roomy s) (seg : Seg) (segs : List Seg)
    (hsound : ∀ b, seg = .ph b →
      Sound mem getenv query (.close (i + 2 + b.length) b (isConditional b)))
    (hlen : s.out.length + (expansion mem getenv query i (seg :: segs)).length < BLOCKSIZE) :
    ∃ s₁, Roomy s₁
      ∧ s₁.out.length + (expansion mem getenv query (i + seg.text.length) segs).length < BLOCKSIZE
      ∧ (segTokens i (seg :: segs)).foldlM (tokenStep mem getenv query) s
        = (segTokens (i + seg.text.length) segs).foldlM (tokenStep mem getenv query) s₁ := by
  cases seg with
  | lit t =>
      rw [expansion, List.length_append] at hlen
      obtain ⟨s₁, htext, hs₁, hout⟩ : ∃ s₁, (puts i t).foldlM (tokenStep mem getenv query) s
          = .ok s₁ ∧ Roomy s₁ ∧ s₁.out = s.out ++ t := run_text_ok t i s hs (by omega)
      refine ⟨s₁, hs₁, ?_, ?_⟩
      · rw [hout, List.length_append]
        show _ + (expansion mem getenv query (i + t.length) segs).length < _
        omega
      · rw [segTokens, List.foldlM_append, htext]
        rfl
  | ph b =>
      rw [expansion, List.length_append] at hlen
      obtain ⟨s₁, hph, hs₁, hout⟩ := run_placeholder_ok (i := i) hs (hsound b rfl) (by omega)
      refine ⟨s₁, hs₁, ?_, ?_⟩
      · rw [hout, List.length_append]
        show _ + (expansion mem getenv query (i + (placeholder b).length) segs).length < _
        omega
      · rw [segTokens, List.foldlM_append, hph]
        rfl

/-- The tokens of a template are sound where every `}` is. -/
theorem sound_segTokens {segs : List Seg}
    (h : ∀ b, .ph b ∈ segs → ∀ j, Sound mem getenv query (.close j b (isConditional b))) (i : Nat) :
    ∀ t ∈ segTokens i segs, Sound mem getenv query t := by
  induction segs generalizing i with
  | nil => exact fun t ht => absurd ht List.not_mem_nil
  | cons seg segs ih =>
      have hrest := fun j => ih (fun b hb => h b (List.mem_cons_of_mem _ hb)) j
      intro t ht
      cases seg with
      | lit text =>
          rcases List.mem_append.mp ht with ht | ht
          · obtain ⟨ci, -, rfl⟩ := List.mem_map.mp ht
            trivial
          · exact hrest _ t ht
      | ph b =>
          rcases List.mem_append.mp ht with ht | ht
          · simp only [List.mem_cons, List.not_mem_nil, or_false] at ht
            obtain rfl | rfl | rfl := ht
            · trivial
            · trivial
            · exact h b List.mem_cons_self _
          · exact hrest _ t ht

/-- **A RUN WITH ROOM FOR THE EXPANSION SUCCEEDS**, if every `}` is sound. -/
theorem run_segs_ok : ∀ (segs : List Seg) (i : Nat) (s : ExpandBuf), Roomy s →
    (∀ t ∈ segTokens i segs, Sound mem getenv query t) →
    s.out.length + (expansion mem getenv query i segs).length < BLOCKSIZE →
    ∃ s', (segTokens i segs).foldlM (tokenStep mem getenv query) s = .ok s' ∧ Roomy s'
  | [], i, s, hs, _, _ => ⟨s, rfl, hs⟩
  | seg :: segs, i, s, hs, hsound, hlen => by
      have hclose : ∀ b, seg = .ph b →
          Sound mem getenv query (.close (i + 2 + b.length) b (isConditional b)) := by
        rintro b rfl
        exact hsound _ (List.mem_append_left _ (by simp))
      have hrest : ∀ t ∈ segTokens (i + seg.text.length) segs, Sound mem getenv query t := by
        intro t ht
        cases seg with
        | lit text => exact hsound t (List.mem_append_right _ ht)
        | ph b => exact hsound t (List.mem_append_right _ ht)
      obtain ⟨s₁, hs₁, hlen₁, hrun⟩ := run_seg_ok hs seg segs hclose hlen
      obtain ⟨s', hgo, hs'⟩ := run_segs_ok segs (i + seg.text.length) s₁ hs₁ hrest hlen₁
      exact ⟨s', hrun.trans hgo, hs'⟩

end Run

/-! ## §5. `expand_vars` on a template. -/

/-- A run that goes through: its text is what its caller finds. -/
theorem expandVars_of_run {mem : Nat → RoundMem} {getenv : Env} {query : NvList}
    {g : ExpandGlobals} {str : CStr} {s : ExpandBuf}
    (hrun : expandRun mem getenv query g str = .ok s) :
    expandVars mem getenv query g str
      = (outText (mem str.length) s).map (fun out => ⟨0, out, { g with lastvar := s.lastvar }⟩) := by
  rw [expandVars_eq_scan, hrun]

/-- A call that returns `0` ran its buffer over all tokens. -/
theorem expandVars_ret_zero {mem : Nat → RoundMem} {getenv : Env} {query : NvList}
    {g : ExpandGlobals} {str : CStr} {r : ExpandResult}
    (hrun : expandVars mem getenv query g str = some r) (hret : r.ret = 0) :
    ∃ s, expandRun mem getenv query g str = .ok s
      ∧ outText (mem str.length) s = some r.str := by
  cases hbuf : expandRun mem getenv query g str with
  | ok s =>
      rw [expandVars_of_run hbuf] at hrun
      obtain ⟨out, hout, rfl⟩ := Option.map_eq_some_iff.mp hrun
      exact ⟨s, rfl, hout⟩
  | error e =>
      have hcode := expandRun_hasCode hbuf
      rw [expandVars_eq_scan, hbuf] at hrun
      cases e with
      | crash => cases hrun
      | ret code lastvar errVarName =>
          cases hrun
          exact absurd hret hcode

/-- **THE BUFFER IS NOT LOST**: a run that goes through ends with the block that
`out` points to. -/
def KeepsBuffer (mem : Nat → RoundMem) (getenv : Env) (query : NvList) (str : CStr) : Prop :=
  ∀ g s, expandRun mem getenv query g str = .ok s → s.lost = false

/-- A template whose expansion succeeds is replaced by what it stands for. -/
theorem expandVars_template {mem : Nat → RoundMem} {getenv : Env} {query : NvList}
    {g : ExpandGlobals} {segs : List Seg} (hok : SegsOk none segs)
    (hkeeps : KeepsBuffer mem getenv query (template segs)) {r : ExpandResult}
    (hrun : expandVars mem getenv query g (template segs) = some r) (hret : r.ret = 0) :
    r.str = expansion mem getenv query 0 segs := by
  obtain ⟨s, hbuf, hstr⟩ := expandVars_ret_zero hrun hret
  have hkept := hkeeps g s hbuf
  rw [outText_of_kept hkept, Option.some.injEq] at hstr
  unfold expandRun at hbuf
  rw [scan_template hok] at hbuf
  rw [← hstr, run_segs hbuf hkept]
  rfl

/-- A run with room for what its template stands for goes through, and keeps its buffer. -/
theorem expandRun_roomy {mem : Nat → RoundMem} {getenv : Env} {query : NvList} {segs : List Seg}
    (hok : SegsOk none segs) (hsound : ∀ t ∈ segTokens 0 segs, Sound mem getenv query t)
    (hlen : (expansion mem getenv query 0 segs).length < BLOCKSIZE) (g : ExpandGlobals) :
    ∃ s, expandRun mem getenv query g (template segs) = .ok s ∧ s.lost = false
      ∧ s.out = expansion mem getenv query 0 segs := by
  have hroom : (bufInit g).out.length + (expansion mem getenv query 0 segs).length < BLOCKSIZE := by
    show 0 + _ < BLOCKSIZE
    omega
  obtain ⟨s, hrun, hs⟩ := run_segs_ok segs 0 (bufInit g) (bufInit_roomy g) hsound hroom
  refine ⟨s, ?_, hs.kept, run_segs hrun hs.kept⟩
  unfold expandRun
  rw [scan_template hok, hrun]

/-- Below `BLOCKSIZE` no buffer is lost. -/
theorem keepsBuffer_of_length {mem : Nat → RoundMem} {getenv : Env} {query : NvList}
    {segs : List Seg} (hok : SegsOk none segs)
    (hlen : (expansion mem getenv query 0 segs).length < BLOCKSIZE) :
    KeepsBuffer mem getenv query (template segs) := by
  intro g s hrun
  have htokens : (scan (template segs)).foldlM (tokenStep mem getenv query) (bufInit g) = .ok s :=
    hrun
  rw [scan_template hok] at htokens
  obtain ⟨hsound, -⟩ := (run_ok_iff _ _ _).mp ⟨s, htokens, rfl⟩
  obtain ⟨s', hrun', hkept, -⟩ := expandRun_roomy hok hsound hlen g
  rw [hrun, Except.ok.injEq] at hrun'
  rw [hrun', hkept]

/-- **EXPANSION IS SUBSTITUTION**: every literal text unchanged, every plain
placeholder replaced by the value of its variable, every conditional one by
the text it holds or by nothing, from left to right and in one pass. -/
theorem expandVars_substitutes {segs : List Seg} (hok : SegsOk none segs)
    (hstart : ∀ b, .ph b ∈ segs → b.head? ≠ some (ascii '='))
    {getenv : Env} {query : NvList}
    (hdef : ∀ b, .ph b ∈ segs → isConditional b = false →
      (findVarValue getenv query b).isSome = true)
    (mem : Nat → RoundMem) (hlen : (expansion mem getenv query 0 segs).length < BLOCKSIZE)
    (g : ExpandGlobals) :
    ∃ r, expandVars mem getenv query g (template segs) = some r ∧ r.ret = 0
      ∧ r.str = expansion mem getenv query 0 segs := by
  have hsound : ∀ b, .ph b ∈ segs → ∀ j,
      Sound mem getenv query (.close j b (isConditional b)) := by
    intro b hb j
    show if isConditional b = true then _ else _
    by_cases hcond : isConditional b = true
    · rw [if_pos hcond]
      exact parseConditional_isSome (mem j).toCondMem (hstart b hb)
    · rw [if_neg hcond]
      exact Option.isSome_iff_exists.mp (hdef b hb (by simpa using hcond))
  obtain ⟨s, hrun, hkept, hout⟩ := expandRun_roomy hok (sound_segTokens hsound 0) hlen g
  refine ⟨⟨0, s.out, { g with lastvar := s.lastvar }⟩, ?_, rfl, hout⟩
  rw [expandVars_of_run hrun, outText_of_kept hkept]
  rfl

/-- A value that looks like a placeholder is copied, and a conditional holds. -/
theorem expandVars_substitutes_sample :
    let query : NvList := ⟨[some ⟨bytes "x", placeholder (bytes "y")⟩], 1, 1, 1⟩
    let segs : List Seg := [.lit (bytes "a "), .ph (bytes "x"), .ph (bytes "x=x: b=c ")]
    ∃ r, expandVars plainMem (fun _ => none) query ⟨[], []⟩ (template segs) = some r
      ∧ r.ret = 0 ∧ r.str = expansion plainMem (fun _ => none) query 0 segs := by
  intro query segs
  have hok : SegsOk none segs :=
    ⟨by decide, by decide, ⟨by decide, by decide, by decide⟩,
      ⟨by decide, by decide, by decide⟩, trivial⟩
  have hbody : ∀ b, .ph b ∈ segs → b = bytes "x" ∨ b = bytes "x=x: b=c " := by
    intro b hb
    simpa [segs] using hb
  apply expandVars_substitutes hok
  · intro b hb
    obtain rfl | rfl := hbody b hb
    · decide
    · decide
  · intro b hb
    obtain rfl | rfl := hbody b hb
    · decide
    · decide
  · decide

end Protohand
