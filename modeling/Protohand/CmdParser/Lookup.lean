/-
  Protohand.CmdParser.Lookup
  ──────────────────────────
  **A TEMPLATE SEES A QUERY ONLY THROUGH ITS LOOKUPS.**

  `Casing` compares two spellings of a template; here the template stays and
  the query changes.  Where every name that a template uses has the same value
  in both queries (`LooksUpSame`), `expand_vars` ends alike, whatever the
  globals hold before it (`expandVars_agree`).
-/
import Protohand.Casing

namespace Protohand

/-- The names have the same values. -/
def LooksUpSame (getenv : Env) (query query' : NvList) (names : CStr → Prop) : Prop :=
  ∀ n, bytes "env." <+: n ∨ names n →
    findVarValue getenv query n = findVarValue getenv query' n

section Agree

variable {getenv : Env} {query query' : NvList} {names : CStr → Prop}

/-- A comparison of names that have the same values. -/
theorem condCompare_agree (hlook : LooksUpSame getenv query query' names) {c : Conditional}
    (huses : (bytes "env." <+: c.var1 ∨ names c.var1) ∧ (bytes "env." <+: c.var2 ∨ names c.var2)) :
    condCompare getenv query c = condCompare getenv query' c := by
  unfold condCompare
  rw [hlook _ huses.1, hlook _ huses.2]

/-- **A placeholder is closed alike.** -/
theorem expandClose_agree (hlook : LooksUpSame getenv query query' names) {mem : RoundMem}
    {isCond : Bool} {body : CStr} (huses : BodyUses mem.toCondMem names isCond body)
    {s s' : ExpandBuf} (h : BufAlike s s') :
    Loop.Alike BufAlike ExitAlike (expandClose mem getenv query body isCond s)
      (expandClose mem getenv query' body isCond s') := by
  have hnoted : BufAlike { s with lastvar := body } { s' with lastvar := body } :=
    ⟨h.out, h.bufferLength, h.block, h.lost⟩
  unfold BodyUses at huses
  unfold expandClose
  dsimp only
  by_cases hcond : isCond = true
  · rw [if_pos hcond] at huses
    -- a conditional is parsed without a lookup; only the comparison at the end makes one
    have hparse : parseConditional mem.toCondMem getenv query body
        = parseConditional mem.toCondMem getenv query' body := by
      rw [parseConditional_eq mem.toCondMem getenv query,
        parseConditional_eq mem.toCondMem getenv query']
      cases hparse : condParse mem.toCondMem body with
      | none => rfl
      | some r =>
          obtain ⟨code, c⟩ := r
          simp only [Option.map_some]
          by_cases hend : code = EXP_ERR_QUERYNVVAR_NOT_FOUND
          · rw [if_pos hend, if_pos hend,
              condCompare_agree hlook (huses c (by rw [hparse, hend]))]
          · rw [if_neg hend, if_neg hend]
    rw [if_pos hcond, if_pos hcond, hparse]
    split
    · trivial
    · split
      · exact expandAppend_alike hnoted mem _
      · exact hnoted
  · rw [if_neg hcond] at huses
    rw [if_neg hcond, if_neg hcond, hlook body huses]
    split
    · exact rfl
    · exact expandAppend_alike hnoted mem _

theorem tokenStep_agree (hlook : LooksUpSame getenv query query' names) {mem : Nat → RoundMem}
    {s s' : ExpandBuf} {t : Token} (h : BufAlike s s') (huses : TokenUses mem names t) :
    Loop.Alike BufAlike ExitAlike (tokenStep mem getenv query s t)
      (tokenStep mem getenv query' s' t) := by
  cases t with
  | put i c => exact expandAppend_alike h (mem i) [c]
  | opn i => exact expandOpen_alike h (mem i)
  | fault => trivial
  | close i body isCond => exact expandClose_agree hlook huses h

/-- **`expand_vars` sees a query only through the names it looks up**, and the
globals not at all. -/
theorem expandVars_agree (hlook : LooksUpSame getenv query query' names) {mem : Nat → RoundMem}
    (g g' : ExpandGlobals) {str : CStr} (huses : TemplateUses mem names str) :
    SameResult (expandVars mem getenv query g str) (expandVars mem getenv query' g' str) := by
  have hrun : Loop.Alike BufAlike ExitAlike (expandRun mem getenv query g str)
      (expandRun mem getenv query' g' str) :=
    Loop.foldlM_lockstep (fun t t' => TokenUses mem names t ∧ t = t') BufAlike ExitAlike
      (fun _ _ _ _ hs ht => ht.2 ▸ tokenStep_agree hlook hs ht.1)
      ((List.forall₂_and_left _ _).mpr ⟨huses, List.forall₂_same.mpr fun _ _ => rfl⟩)
      ⟨rfl, rfl, rfl, rfl⟩
  exact sameResult_of_alike hrun rfl

end Agree

/-! ## What a text expands to. -/

/-- `expand_vars` makes `out` of a text. -/
def Becomes (mem : Nat → RoundMem) (getenv : Env) (query : NvList) (str out : CStr) : Prop :=
  ∃ r, expandVars mem getenv query ⟨[], []⟩ str = some r ∧ r.ret = 0 ∧ r.str = out

theorem SameResult.becomes {r r' : Option ExpandResult} (h : SameResult r r') {out : CStr} :
    (∃ x, r = some x ∧ x.ret = 0 ∧ x.str = out) → ∃ x, r' = some x ∧ x.ret = 0 ∧ x.str = out := by
  rintro ⟨x, rfl, hret, hout⟩
  cases r' with
  | none => exact h.elim
  | some x' => exact ⟨x', rfl, h.1 ▸ hret, (h.2 hret) ▸ hout⟩

/-- Every template uses some names. -/
theorem templateUses_any (mem : Nat → RoundMem) (str : CStr) :
    TemplateUses mem (fun _ => True) str := by
  intro t _
  cases t with
  | put i c => trivial
  | opn i => trivial
  | fault => trivial
  | close i body isCond =>
      show BodyUses (mem i).toCondMem (fun _ => True) isCond body
      unfold BodyUses
      split
      · exact fun c _ => ⟨Or.inr trivial, Or.inr trivial⟩
      · exact Or.inr trivial

/-- What the globals hold does not matter. -/
theorem becomes_iff {mem : Nat → RoundMem} {getenv : Env} {query : NvList} (g : ExpandGlobals)
    {str out : CStr} :
    Becomes mem getenv query str out
      ↔ ∃ r, expandVars mem getenv query g str = some r ∧ r.ret = 0 ∧ r.str = out := by
  have hsame : LooksUpSame getenv query query (fun _ => True) := fun _ _ => rfl
  have huses := templateUses_any mem str
  exact ⟨(expandVars_agree hsame _ g huses).becomes, (expandVars_agree hsame g _ huses).becomes⟩

/-- A text that uses names of the same values expands to the same. -/
theorem Becomes.agree {mem : Nat → RoundMem} {getenv : Env} {query query' : NvList}
    {names : CStr → Prop} (hlook : LooksUpSame getenv query query' names) {str out : CStr}
    (huses : TemplateUses mem names str) (h : Becomes mem getenv query str out) :
    Becomes mem getenv query' str out :=
  (expandVars_agree hlook _ _ huses).becomes h

/-- A text expands to one text at most. -/
theorem Becomes.unique {mem : Nat → RoundMem} {getenv : Env} {query : NvList}
    {str out out' : CStr} (h : Becomes mem getenv query str out)
    (h' : Becomes mem getenv query str out') : out = out' := by
  obtain ⟨r, hr, -, rfl⟩ := h
  obtain ⟨r', hr', -, rfl⟩ := h'
  rw [hr] at hr'
  rw [Option.some.inj hr']

end Protohand
