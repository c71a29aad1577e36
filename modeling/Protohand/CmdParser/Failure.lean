/-
  Protohand.CmdParser.Failure
  ───────────────────────────
  **WHAT A FAILED EXPANSION REPORTS.**

  The run over a template with an undefined variable is a run over what stands
  in front of it, and one token more.  In front of it every plain name is
  defined and the text has room, so only one thing can come first: a
  conditional whose `=` is its first character, where `parse_conditional` looks
  at the byte in front of its argument (`NegativeName`).

    • `run_leftmost` — without such a conditional the leftmost name is reported,
    • `run_negative` — with one the call does not come back,
    • `expandVars_names_leftmost_iff` — so this is exactly when it is reported.
-/
import Protohand.CmdParser.Expand

namespace Protohand

open Text

/-! ## §1. The first length of a conditional. -/

/-- The `=` comes first, and the byte in front of the string is a `!`: the length
of the first name is -1. -/
def NegativeName (m : CondMem) (body : CStr) : Prop :=
  m.before = ascii '!' ∧ body.head? = some (ascii '=') ∧ body[1]? ≠ some (ascii '=')

section Parse

variable {getenv : Env} {query : NvList}

/-- A `=` behind nothing is the operator, and a second one is skipped. -/
theorem condOperator_first (m : CondMem) (rest : CStr) :
    condOperator m (ascii '=' :: rest)
      = some (if m.before = ascii '!' then -1 else 1,
          if rest.head? = some (ascii '=') then 1 else 0) := by
  have hnil : before (ascii '=') (ascii '=' :: rest) = [] := by simp [before]
  unfold condOperator
  rw [if_pos List.mem_cons_self]
  simp only [hnil, List.length_nil, if_pos, Nat.zero_add, List.getElem?_cons_succ,
    ← List.head?_eq_getElem?]

/-- A parse has no end where the length of the first name is negative. -/
theorem parseConditional_none (m : CondMem) (body : CStr) :
    parseConditional m getenv query body = none
      ↔ ∃ sign, condOperator m body = some (sign, 0) ∧ sign < 0 := by
  unfold parseConditional
  cases hop : condOperator m body with
  | none => simp
  | some op =>
      obtain ⟨sign, pos⟩ := op
      simp only [Option.some.injEq, Prod.mk.injEq]
      by_cases hneg : sign < 0 ∧ pos = 0
      · rw [if_pos hneg]
        exact iff_of_true rfl ⟨sign, ⟨rfl, hneg.2⟩, hneg.1⟩
      · rw [if_neg hneg]
        refine iff_of_false ?_ ?_
        · split <;> exact fun h => by cases h
        · intro h
          obtain ⟨sign', hop', hsign⟩ := h
          exact hneg ⟨hop'.1 ▸ hsign, hop'.2⟩

/-- **WHERE `parse_conditional` DOES NOT COME BACK.** -/
theorem parseConditional_none_iff (m : CondMem) (body : CStr) :
    parseConditional m getenv query body = none ↔ NegativeName m body := by
  rw [parseConditional_none]
  unfold NegativeName
  by_cases hhead : body.head? = some (ascii '=')
  · obtain ⟨rest, rfl⟩ := List.head?_eq_some_iff.mp hhead
    rw [condOperator_first]
    by_cases hbang : m.before = ascii '!'
    · by_cases hsecond : rest.head? = some (ascii '=')
      · -- the skipped `=` is the one whose index counts
        simp [hbang, hsecond, ← List.head?_eq_getElem?]
      · simp [hbang, hsecond, ← List.head?_eq_getElem?]
    · simp only [hbang, if_false, false_and, iff_false]
      intro h
      obtain ⟨sign, hsign, hneg⟩ := h
      rw [Option.some.injEq, Prod.mk.injEq] at hsign
      omega
  · -- in front of the operator stands a name
    refine iff_of_false ?_ (fun h => hhead h.2.1)
    intro h
    obtain ⟨sign, hop, _⟩ := h
    exact absurd (condOperator_pos m hhead hop) (Nat.lt_irrefl 0)

end Parse

/-! ## §2. What stands in front of the leftmost undefined name. -/

/-- The body of the first plain placeholder whose variable is not there. -/
def leftmostUndefined (getenv : Env) (query : NvList) : List Seg → Option CStr
  | [] => none
  | .lit _ :: segs => leftmostUndefined getenv query segs
  | .ph b :: segs =>
      if isConditional b = false ∧ findVarValue getenv query b = none then some b
      else leftmostUndefined getenv query segs

/-- No conditional in front of the leftmost undefined name makes
`parse_conditional` compute a negative length.  The template starts at index `i`. -/
def NamesReadable (mem : Nat → RoundMem) (getenv : Env) (query : NvList) : Nat → List Seg → Prop
  | _, [] => True
  | i, .lit t :: segs => NamesReadable mem getenv query (i + t.length) segs
  | i, .ph b :: segs =>
      if isConditional b = true then
        ¬ NegativeName (mem (i + 2 + b.length)).toCondMem b
          ∧ NamesReadable mem getenv query (i + (placeholder b).length) segs
      else findVarValue getenv query b ≠ none →
        NamesReadable mem getenv query (i + (placeholder b).length) segs

section Leftmost

variable {mem : Nat → RoundMem} {getenv : Env} {query : NvList}

theorem leftmostUndefined_eq_some {segs : List Seg} {b : CStr} (hb : .ph b ∈ segs)
    (hplain : isConditional b = false) (hundef : findVarValue getenv query b = none) :
    ∃ b, leftmostUndefined getenv query segs = some b := by
  induction segs with
  | nil => cases hb
  | cons seg segs ih =>
      cases seg with
      | lit t =>
          obtain ⟨b', hb'⟩ := ih (by simpa using hb)
          exact ⟨b', hb'⟩
      | ph c =>
          unfold leftmostUndefined
          by_cases hc : isConditional c = false ∧ findVarValue getenv query c = none
          · exact ⟨c, by rw [if_pos hc]⟩
          · rw [if_neg hc]
            rcases List.mem_cons.mp hb with h | h
            · injection h with h
              exact absurd ⟨h ▸ hplain, h ▸ hundef⟩ hc
            · exact ih h

/-! ## §3. The run up to the leftmost undefined name. -/

/-- A placeholder whose `}` ends the run. -/
theorem run_placeholder_stops {i j : Nat} {body : CStr} {s : ExpandBuf} {e : ExpandExit}
    (hs : Roomy s) (hlen : s.out.length < BLOCKSIZE)
    (hclose : ∀ s₁, tokenStep mem getenv query s₁ (.close j body (isConditional body)) = .error e) :
    [Token.put i (ascii '$'), .opn (i + 1), .close j body (isConditional body)].foldlM
      (tokenStep mem getenv query) s = .error e := by
  obtain ⟨s₁, -, -, hrun⟩ : ∃ s₁, Roomy s₁ ∧ s₁.out = s.out
      ∧ [Token.put i (ascii '$'), .opn (i + 1), .close j body (isConditional body)].foldlM
          (tokenStep mem getenv query) s = _ := run_placeholder_eq i j body hs hlen
  rw [hrun]
  exact hclose s₁

theorem close_undefined {i : Nat} {body : CStr} (s : ExpandBuf)
    (hplain : isConditional body = false) (hundef : findVarValue getenv query body = none) :
    tokenStep mem getenv query s (.close i body (isConditional body))
      = .error (.ret EXP_ERR_QUERYNVVAR_NOT_FOUND body (some body)) := by
  show expandClose (mem i) getenv query body (isConditional body) s = _
  unfold expandClose
  simp only [hplain, Bool.false_eq_true, if_false, hundef]

theorem close_negative {i : Nat} {body : CStr} (s : ExpandBuf)
    (hcond : isConditional body = true) (hneg : NegativeName (mem i).toCondMem body) :
    tokenStep mem getenv query s (.close i body (isConditional body)) = .error .crash := by
  show expandClose (mem i) getenv query body (isConditional body) s = _
  unfold expandClose
  simp only [hcond, if_true, (parseConditional_none_iff (mem i).toCondMem body).mpr hneg]

/-- A conditional is sound where it has a first name, a plain name where it is defined. -/
theorem sound_close_iff (i : Nat) (body : CStr) :
    Sound mem getenv query (.close i body (isConditional body))
      ↔ if isConditional body = true then ¬ NegativeName (mem i).toCondMem body
        else findVarValue getenv query body ≠ none := by
  show (if _ then _ else _) ↔ _
  by_cases hcond : isConditional body = true
  · have hneg : parseConditional (mem i).toCondMem getenv query body = none ↔ NegativeName (mem i).toCondMem body :=
      parseConditional_none_iff (mem i).toCondMem body
    rw [if_pos hcond, if_pos hcond, ← hneg, ← ne_eq, Option.ne_none_iff_exists']
  · rw [if_neg hcond, if_neg hcond, Option.ne_none_iff_exists']

/-- **THE RUN ENDS AT THE LEFTMOST UNDEFINED NAME**, and nowhere before it. -/
theorem run_leftmost {b : CStr} : ∀ (segs : List Seg) (i : Nat) (s : ExpandBuf), Roomy s →
    s.out.length + (expansion mem getenv query i segs).length < BLOCKSIZE →
    leftmostUndefined getenv query segs = some b → NamesReadable mem getenv query i segs →
    (segTokens i segs).foldlM (tokenStep mem getenv query) s
      = .error (.ret EXP_ERR_QUERYNVVAR_NOT_FOUND b (some b))
  | [], _, _, _, _, hleft, _ => by cases hleft
  | .lit t :: segs, i, s, hs, hlen, hleft, hread => by
      obtain ⟨s₁, hs₁, hlen₁, hrun⟩ := run_seg_ok hs (.lit t) segs (fun b hb => by cases hb) hlen
      rw [hrun]
      exact run_leftmost segs (i + t.length) s₁ hs₁ hlen₁ hleft hread
  | .ph c :: segs, i, s, hs, hlen, hleft, hread => by
      unfold leftmostUndefined at hleft
      unfold NamesReadable at hread
      by_cases hc : isConditional c = false ∧ findVarValue getenv query c = none
      · -- this is the name
        rw [if_pos hc, Option.some.injEq] at hleft
        subst hleft
        rw [segTokens, List.foldlM_append, run_placeholder_stops hs (by omega)
          (fun s₁ => close_undefined s₁ hc.1 hc.2)]
        rfl
      · -- what stands in front of the name can be expanded
        rw [if_neg hc] at hleft
        have hgo : Sound mem getenv query (.close (i + 2 + c.length) c (isConditional c))
            ∧ NamesReadable mem getenv query (i + (placeholder c).length) segs := by
          rw [sound_close_iff]
          by_cases hcond : isConditional c = true
          · rw [if_pos hcond] at hread ⊢
            exact hread
          · rw [if_neg hcond] at hread ⊢
            have hdef : findVarValue getenv query c ≠ none :=
              fun h => hc ⟨by simpa using hcond, h⟩
            exact ⟨hdef, hread hdef⟩
        obtain ⟨s₁, hs₁, hlen₁, hrun⟩ := run_seg_ok hs (.ph c) segs
          (fun b hb => by injection hb with hb; rw [← hb]; exact hgo.1) hlen
        rw [hrun]
        exact run_leftmost segs _ s₁ hs₁ hlen₁ hleft hgo.2

/-- **THE RUN ENDS BEFORE IT** at a conditional without a first length. -/
theorem run_negative : ∀ (segs : List Seg) (i : Nat) (s : ExpandBuf), Roomy s →
    s.out.length + (expansion mem getenv query i segs).length < BLOCKSIZE →
    ¬ NamesReadable mem getenv query i segs →
    (segTokens i segs).foldlM (tokenStep mem getenv query) s = .error .crash
  | [], _, _, _, _, hread => absurd trivial hread
  | .lit t :: segs, i, s, hs, hlen, hread => by
      obtain ⟨s₁, hs₁, hlen₁, hrun⟩ := run_seg_ok hs (.lit t) segs (fun b hb => by cases hb) hlen
      rw [hrun]
      exact run_negative segs (i + t.length) s₁ hs₁ hlen₁ hread
  | .ph c :: segs, i, s, hs, hlen, hread => by
      unfold NamesReadable at hread
      by_cases hneg : isConditional c = true ∧ NegativeName (mem (i + 2 + c.length)).toCondMem c
      · rw [segTokens, List.foldlM_append, run_placeholder_stops hs (by omega)
          (fun s₁ => close_negative s₁ hneg.1 hneg.2)]
        rfl
      · -- an undefined name would leave nothing behind it to read
        have hgo : Sound mem getenv query (.close (i + 2 + c.length) c (isConditional c))
            ∧ ¬ NamesReadable mem getenv query (i + (placeholder c).length) segs := by
          rw [sound_close_iff]
          by_cases hcond : isConditional c = true
          · rw [if_pos hcond] at hread ⊢
            have hname := fun h => hneg ⟨hcond, h⟩
            exact ⟨hname, fun h => hread ⟨hname, h⟩⟩
          · rw [if_neg hcond] at hread ⊢
            rw [Classical.not_imp] at hread
            exact hread
        obtain ⟨s₁, hs₁, hlen₁, hrun⟩ := run_seg_ok hs (.ph c) segs
          (fun b hb => by injection hb with hb; rw [← hb]; exact hgo.1) hlen
        rw [hrun]
        exact run_negative segs _ s₁ hs₁ hlen₁ hgo.2

end Leftmost

/-! ## §4. `expand_vars` on a template with an undefined variable. -/

/-- **WHEN A FAILED EXPANSION NAMES THE RIGHT VARIABLE**: the code, the template
as it was, and both globals on the leftmost undefined name — unless a
conditional in front of it has its `=` first and a `!` in front of that. -/
theorem expandVars_names_leftmost_iff {segs : List Seg} (hok : SegsOk none segs)
    {getenv : Env} {query : NvList}
    (hundef : ∃ b, .ph b ∈ segs ∧ isConditional b = false ∧ findVarValue getenv query b = none)
    (mem : Nat → RoundMem) (hlen : (expansion mem getenv query 0 segs).length < BLOCKSIZE)
    (g : ExpandGlobals) :
    (∃ b, leftmostUndefined getenv query segs = some b
        ∧ expandVars mem getenv query g (template segs)
          = some ⟨EXP_ERR_QUERYNVVAR_NOT_FOUND, template segs, ⟨b, b⟩⟩)
      ↔ NamesReadable mem getenv query 0 segs := by
  have hroomy := bufInit_roomy g
  have hroom : (bufInit g).out.length + (expansion mem getenv query 0 segs).length < BLOCKSIZE := by
    show 0 + _ < BLOCKSIZE
    omega
  rw [expandVars_eq_scan]
  unfold expandRun
  rw [scan_template hok]
  constructor
  · intro h
    obtain ⟨b, hleft, hrun⟩ := h
    by_contra hread
    -- the conditional would have ended the run before any name
    rw [run_negative segs 0 _ hroomy hroom hread] at hrun
    cases hrun
  · intro hread
    obtain ⟨c, hc, hplain, hnone⟩ := hundef
    obtain ⟨b, hleft⟩ := leftmostUndefined_eq_some hc hplain hnone
    refine ⟨b, hleft, ?_⟩
    rw [run_leftmost segs 0 _ hroomy hroom hleft hread]
    rfl

/-- Two undefined names behind a conditional on undefined variables: the first
of them is reported. -/
theorem expandVars_names_leftmost_sample :
    let segs : List Seg := [.lit (bytes "a "), .ph (bytes "u=v:w"), .ph (bytes "x"), .ph (bytes "y")]
    ∃ b, leftmostUndefined (fun _ => none) (nvlistCreate 1) segs = some b
      ∧ expandVars plainMem (fun _ => none) (nvlistCreate 1) ⟨[], []⟩ (template segs)
        = some ⟨EXP_ERR_QUERYNVVAR_NOT_FOUND, template segs, ⟨b, b⟩⟩ := by
  intro segs
  have hok : SegsOk none segs :=
    ⟨by decide, by decide, ⟨by decide, by decide, by decide⟩, ⟨by decide, by decide, by decide⟩,
      ⟨by decide, by decide, by decide⟩, trivial⟩
  refine (expandVars_names_leftmost_iff hok ⟨bytes "x", ?_, by decide, rfl⟩ plainMem
    (by decide) ⟨[], []⟩).mpr ?_
  · simp [segs]
  · refine ⟨?_, fun h => absurd rfl h⟩
    exact fun h => absurd h.1 (by decide)

/-- A conditional that starts with its `=`, behind a `!` in memory, is where the
call ends. -/
theorem expandVars_loses_name :
    let segs : List Seg := [.ph (bytes "=a:b"), .ph (bytes "x")]
    SegsOk none segs
      ∧ leftmostUndefined (fun _ => none) (nvlistCreate 1) segs = some (bytes "x")
      ∧ (expansion (fun _ => ⟨⟨ascii '!', []⟩, false, none⟩) (fun _ => none) (nvlistCreate 1) 0 segs).length
        < BLOCKSIZE
      ∧ expandVars (fun _ => ⟨⟨ascii '!', []⟩, false, none⟩) (fun _ => none) (nvlistCreate 1) ⟨[], []⟩
          (template segs) = none := by
  refine ⟨⟨⟨by decide, by decide, by decide⟩, ⟨by decide, by decide, by decide⟩, trivial⟩,
    by decide, by decide, by decide⟩

end Protohand
