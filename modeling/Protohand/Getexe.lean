/-
  Protohand.Getexe
  ────────────────
  **lib/getexe.c**: the path of the executable in an expanded command, which
  `main` looks up before it runs the command.

  The command is half written by the URL: the values of the query go wherever
  the template puts them.  What stands in front of the first of them is fixed
  by the configuration and the environment, and so is the path that is
  checked (`getexe_of_template`, `getexe_ignores_query`).
-/
import Protohand.CmdParser.Expand

namespace Protohand

open Text

/-! ## §1. The function. -/

/-- `getexe`: the string it stores in `*exe`; it always returns `0`. -/
def getexe (cmd : CStr) : CStr :=
  let tmp := trim cmd
  -- a quote is skipped, and ends the path where it comes again
  if tmp.head? = some (ascii '"') then before (ascii '"') (tmp.drop 1)
  else before (ascii ' ') tmp

/-- A quoted path, behind blanks: the closing quote ends it. -/
theorem getexe_quoted {ws exe : CStr} (hws : ∀ c ∈ ws, isspace c = true)
    (hexe : ascii '"' ∉ exe) (rest : CStr) :
    getexe (ws ++ (ascii '"' :: (exe ++ ascii '"' :: rest))) = exe := by
  have hquote : isspace (ascii '"') = false := by decide
  have htrim : trim (ws ++ (ascii '"' :: (exe ++ ascii '"' :: rest)))
      = ascii '"' :: (exe ++ ascii '"' :: rest.rdropWhile isspace) := by
    unfold trim
    rw [strip_append_cons hquote hws, rdropWhile_append_cons hquote]
  unfold getexe
  simp only [htrim]
  rw [List.head?_cons, if_pos rfl]
  exact before_append_cons hexe _

/-- An unquoted path without blanks: the next blank ends it, or the end. -/
theorem getexe_unquoted {exe : CStr} (hne : exe ≠ []) (hquote : ascii '"' ∉ exe)
    (hfree : ∀ c ∈ exe, isspace c = false) {rest : CStr}
    (hrest : ∀ c ∈ rest.head?, c = ascii ' ') : getexe (exe ++ rest) = exe := by
  have htrim : trim (exe ++ rest) = exe ++ rest.rdropWhile isspace :=
    strip_append_of_free hne hfree rest
  have hblank : ascii ' ' ∉ exe := by
    intro hmem
    exact absurd (hfree _ hmem) (by decide)
  have hhead : (exe ++ rest.rdropWhile isspace).head? ≠ some (ascii '"') := by
    obtain ⟨x, tail, rfl⟩ := List.exists_cons_of_ne_nil hne
    intro h
    exact hquote (by rw [Option.some.inj h]; exact List.mem_cons_self)
  -- whatever the trimming left of `rest` still starts with its blank
  have hstart : ∀ c ∈ (rest.rdropWhile isspace).head?, c = ascii ' ' := by
    intro c hc
    obtain ⟨tail, htail⟩ := List.head?_eq_some_iff.mp hc
    obtain ⟨more, hmore⟩ := List.rdropWhile_prefix isspace rest
    apply hrest c
    rw [← hmore, htail]
    rfl
  unfold getexe
  simp only [htrim]
  rw [if_neg hhead]
  exact before_append hblank hstart

/-! ## §2. What the query cannot change. -/

/-- Literal texts and plain placeholders of environment variables. -/
def EnvOnly (segs : List Seg) : Prop :=
  ∀ b, .ph b ∈ segs → bytes "env." <+: b ∧ isConditional b = false

/-- The text they stand for. -/
def envText (getenv : Env) (segs : List Seg) : CStr :=
  segs.flatMap (fun seg =>
    match seg with
    | .lit t => t
    | .ph b => (getenv (b.drop 4)).getD [])

/-- It is their expansion, for every query. -/
theorem expansion_envOnly (mem : Nat → RoundMem) (getenv : Env) (query : NvList) :
    ∀ (segs : List Seg) (i : Nat), EnvOnly segs →
      expansion mem getenv query i segs = envText getenv segs
  | [], _, _ => rfl
  | .lit t :: segs, i, h => by
      show t ++ expansion mem getenv query (i + t.length) segs = t ++ envText getenv segs
      rw [expansion_envOnly mem getenv query segs _ (fun b hb => h b (List.mem_cons_of_mem _ hb))]
  | .ph b :: segs, i, h => by
      obtain ⟨henv, hplain⟩ := h b List.mem_cons_self
      have hvalue : segValue mem getenv query (i + 2 + b.length) b = (getenv (b.drop 4)).getD [] := by
        unfold segValue findVarValue
        rw [if_neg (by simp [hplain]), if_pos henv]
      show segValue mem getenv query (i + 2 + b.length) b
        ++ expansion mem getenv query (i + (placeholder b).length) segs
          = (getenv (b.drop 4)).getD [] ++ envText getenv segs
      rw [hvalue,
        expansion_envOnly mem getenv query segs _ (fun b' hb => h b' (List.mem_cons_of_mem _ hb))]

theorem expansion_append (mem : Nat → RoundMem) (getenv : Env) (query : NvList) :
    ∀ (segs segs' : List Seg) (i : Nat),
      expansion mem getenv query i (segs ++ segs')
        = expansion mem getenv query i segs
          ++ expansion mem getenv query (i + (template segs).length) segs'
  | [], segs', i => rfl
  | seg :: segs, segs', i => by
      have hlen : i + (template (seg :: segs)).length
          = i + seg.text.length + (template segs).length := by
        rw [template_cons, List.length_append]
        omega
      rw [List.cons_append, hlen]
      cases seg with
      | lit t =>
          rw [expansion, expansion, expansion_append mem getenv query segs segs', List.append_assoc]
          rfl
      | ph b =>
          rw [expansion, expansion, expansion_append mem getenv query segs segs', List.append_assoc]
          rfl

/-- The command templates with a fixed executable `exe`, and anything after it. -/
inductive CmdTemplate (getenv : Env) (exe : List Seg) : List Seg → Prop where
  | quoted (ws : CStr) (rest : List Seg) (hws : ∀ c ∈ ws, isspace c = true) :
      CmdTemplate getenv exe (.lit ws :: .lit (bytes "\"") :: (exe ++ .lit (bytes "\"") :: rest))
  | bare (hne : envText getenv exe ≠ []) (hfree : ∀ c ∈ envText getenv exe, isspace c = false) :
      CmdTemplate getenv exe exe
  | blank (rest : List Seg) (hne : envText getenv exe ≠ [])
      (hfree : ∀ c ∈ envText getenv exe, isspace c = false) :
      CmdTemplate getenv exe (exe ++ .lit (bytes " ") :: rest)

/-- **The path of one expanded command** is the text of its `exe`. -/
theorem getexe_of_template {getenv : Env} {exe segs : List Seg}
    (htemplate : CmdTemplate getenv exe segs) (henv : EnvOnly exe)
    (hquote : ascii '"' ∉ envText getenv exe) (mem : Nat → RoundMem) (query : NvList) :
    getexe (expansion mem getenv query 0 segs) = envText getenv exe := by
  cases htemplate with
  | quoted ws rest hws =>
      show getexe (ws ++ (ascii '"' :: expansion mem getenv query (0 + ws.length + 1)
        (exe ++ .lit (bytes "\"") :: rest))) = _
      rw [expansion_append, expansion_envOnly mem getenv query exe _ henv]
      exact getexe_quoted hws hquote _
  | bare hne hfree =>
      rw [expansion_envOnly mem getenv query exe 0 henv]
      have h : getexe (envText getenv exe ++ ([] : CStr)) = _ :=
        getexe_unquoted hne hquote hfree (by simp)
      rw [List.append_nil] at h
      exact h
  | blank rest hne hfree =>
      rw [expansion_append, expansion_envOnly mem getenv query exe 0 henv]
      apply getexe_unquoted hne hquote hfree
      intro c hc
      exact (Option.some.inj hc).symm

/-- **NO QUERY CHANGES WHICH EXECUTABLE IS CHECKED.**  Two successful
expansions of a command template that stay below `BLOCKSIZE`, under any two
queries, give `getexe` the same path. -/
theorem getexe_ignores_query {getenv : Env} {exe segs : List Seg}
    (htemplate : CmdTemplate getenv exe segs) (hok : SegsOk none segs) (henv : EnvOnly exe)
    (hquote : ascii '"' ∉ envText getenv exe)
    {mem₁ mem₂ : Nat → RoundMem} {query₁ query₂ : NvList} {g₁ g₂ : ExpandGlobals}
    {r₁ r₂ : ExpandResult}
    (hlen₁ : (expansion mem₁ getenv query₁ 0 segs).length < BLOCKSIZE)
    (hlen₂ : (expansion mem₂ getenv query₂ 0 segs).length < BLOCKSIZE)
    (hrun₁ : expandVars mem₁ getenv query₁ g₁ (template segs) = some r₁) (hret₁ : r₁.ret = 0)
    (hrun₂ : expandVars mem₂ getenv query₂ g₂ (template segs) = some r₂) (hret₂ : r₂.ret = 0) :
    getexe r₁.str = getexe r₂.str ∧ getexe r₁.str = envText getenv exe := by
  have h₁ : getexe r₁.str = envText getenv exe := by
    rw [expandVars_template hok (keepsBuffer_of_length hok hlen₁) hrun₁ hret₁]
    exact getexe_of_template htemplate henv hquote mem₁ query₁
  have h₂ : getexe r₂.str = envText getenv exe := by
    rw [expandVars_template hok (keepsBuffer_of_length hok hlen₂) hrun₂ hret₂]
    exact getexe_of_template htemplate henv hquote mem₂ query₂
  exact ⟨h₁.trans h₂.symm, h₁⟩

/-- A value that closes the quotes and names another program. -/
theorem getexe_ignores_query_sample :
    let getenv : Env := fun name => if name = bytes "W" then some (bytes "C:/W in") else none
    let query (v : CStr) : NvList := ⟨[some ⟨bytes "q", v⟩], 1, 1, 1⟩
    let exe : List Seg := [.ph (bytes "env.W"), .lit (bytes "/x.exe")]
    let segs : List Seg := .lit (bytes " ") :: .lit (bytes "\"")
      :: (exe ++ .lit (bytes "\"") :: [.lit (bytes " "), .ph (bytes "q")])
    ∃ r₁ r₂, expandVars plainMem getenv (query (bytes "\" \"y.exe")) ⟨[], []⟩
          (template segs) = some r₁
      ∧ expandVars plainMem getenv (query (bytes "1  ")) ⟨[], []⟩ (template segs) = some r₂
      ∧ getexe r₁.str = getexe r₂.str ∧ getexe r₁.str = envText getenv exe := by
  intro getenv query exe segs
  have hrun₁ : expandVars plainMem getenv (query (bytes "\" \"y.exe")) ⟨[], []⟩
      (template segs) = some ⟨0, bytes " \"C:/W in/x.exe\" \" \"y.exe", ⟨bytes "q", []⟩⟩ := by
    decide +kernel
  have hrun₂ : expandVars plainMem getenv (query (bytes "1  ")) ⟨[], []⟩
      (template segs) = some ⟨0, bytes " \"C:/W in/x.exe\" 1  ", ⟨bytes "q", []⟩⟩ := by
    decide +kernel
  have hok : SegsOk none segs :=
    ⟨by decide, by decide, by decide, by decide, ⟨by decide, by decide, by decide⟩,
      by decide, by decide, by decide, by decide, by decide, by decide,
      ⟨by decide, by decide, by decide⟩, trivial⟩
  have henv : EnvOnly exe := by
    intro b hb
    have hbody : b = bytes "env.W" := by simpa [exe] using hb
    rw [hbody]
    exact ⟨by decide, by decide⟩
  exact ⟨_, _, hrun₁, hrun₂, getexe_ignores_query (.quoted (bytes " ") _ (by decide +kernel)) hok henv
    (by decide +kernel) (by decide +kernel) (by decide +kernel) hrun₁ rfl hrun₂ rfl⟩

end Protohand
