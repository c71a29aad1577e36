/-
  Protohand.Casing
  ────────────────
  **THE LETTER CASE OF PARAMETER NAMES.**

  Four loops look a parameter up by its name.  Only the one for `user_param`
  compares with `strcmp_lcase`; `find_var_value` and the two transform stages
  compare with `strcmp`.  So the case of a name can matter where it has a letter
  and is, ignoring case, a key of the query (`CaseMatters`).

    • `rewritten_recased_iff` — when a list of names notices the case,
    • `expandVars_recased`    — `expand_vars` does not, where nothing it looks up
      up to the end of its run is such a name.
-/
import Mathlib.Data.List.Find
import Mathlib.Data.List.Forall2
import Protohand.CmdParser.Buffer
import Protohand.Transform

namespace Protohand

/-! ## §1. Letters. -/

/-- An ASCII letter. -/
def isLetter (c : UInt8) : Bool :=
  (ascii 'A' ≤ c && c ≤ ascii 'Z') || (ascii 'a' ≤ c && c ≤ ascii 'z')

/-- The other case of a letter. -/
def swapCase (c : UInt8) : UInt8 :=
  if ascii 'A' ≤ c ∧ c ≤ ascii 'Z' then c + 32
  else if ascii 'a' ≤ c ∧ c ≤ ascii 'z' then c - 32
  else c

/-- What `tolower` and the letters have to do with each other. -/
theorem tolower_cases (c : UInt8) :
    isLetter (tolower c) = isLetter c ∧ (isLetter c = false → tolower c = c)
      ∧ tolower (swapCase c) = tolower c ∧ (isLetter c = true → swapCase c ≠ c) := by
  have key : ∀ n < 256, isLetter (tolower (UInt8.ofNat n)) = isLetter (UInt8.ofNat n)
      ∧ (isLetter (UInt8.ofNat n) = false → tolower (UInt8.ofNat n) = UInt8.ofNat n)
      ∧ tolower (swapCase (UInt8.ofNat n)) = tolower (UInt8.ofNat n)
      ∧ (isLetter (UInt8.ofNat n) = true → swapCase (UInt8.ofNat n) ≠ UInt8.ofNat n) := by
    decide +kernel
  have hc := key c.toNat c.toNat_lt_size
  rwa [UInt8.ofNat_toNat] at hc

/-- A text without letters. -/
def NoLetter (s : CStr) : Prop := ∀ c ∈ s, isLetter c = false

instance (s : CStr) : Decidable (NoLetter s) :=
  inferInstanceAs (Decidable (∀ c ∈ s, isLetter c = false))

/-- Without letters there is nothing to re-case. -/
theorem NoLetter.eq_of_strcmpLcase {s t : CStr} (hs : NoLetter s) (h : strcmpLcase s t = 0) :
    s = t := by
  rw [strcmpLcase_eq_zero] at h
  induction s generalizing t with
  | nil => exact (List.map_eq_nil_iff.mp h.symm).symm
  | cons c s ih =>
      cases t with
      | nil => simp at h
      | cons d t =>
          rw [List.map_cons, List.map_cons, List.cons.injEq] at h
          have hc := hs c List.mem_cons_self
          obtain ⟨hletter, hsame, -⟩ := tolower_cases c
          obtain ⟨hletter', hsame', -⟩ := tolower_cases d
          rw [← h.1, hletter, hc] at hletter'
          rw [hsame hc, hsame' hletter'.symm] at h
          rw [h.1, ih (fun x hx => hs x (List.mem_cons_of_mem _ hx)) h.2]

/-- With a letter there is another way to write the text. -/
theorem exists_recased {s : CStr} (hs : ¬ NoLetter s) : ∃ t, strcmpLcase s t = 0 ∧ t ≠ s := by
  refine ⟨s.map swapCase, ?_, ?_⟩
  · rw [strcmpLcase_eq_zero, List.map_map]
    apply List.map_congr_left
    exact fun c _ => (tolower_cases c).2.2.1.symm
  · intro heq
    apply hs
    intro c hc
    cases hletter : isLetter c with
    | false => rfl
    | true =>
        have hfix : ∀ x ∈ s, swapCase x = x := by
          apply List.map_inj_left.mp
          rw [heq, List.map_id']
        exact absurd (hfix c hc) ((tolower_cases c).2.2.2 hletter)

/-- **A name meets a key** in one spelling and in another, if it meets it in
none or the key has no letter. -/
theorem key_eq_iff {key key' n n' : CStr} (hkey : strcmpLcase key key' = 0)
    (hn : strcmpLcase n n' = 0) (h : strcmpLcase n key = 0 → NoLetter key) :
    key = n ↔ key' = n' := by
  by_cases hmeet : strcmpLcase n key = 0
  · have hno := h hmeet
    rw [strcmpLcase_eq_zero] at hmeet hn
    have hkn : key = n := hno.eq_of_strcmpLcase ((strcmpLcase_eq_zero _ _).mpr hmeet.symm)
    have hkn' : key = n' :=
      hno.eq_of_strcmpLcase ((strcmpLcase_eq_zero _ _).mpr (hmeet.symm.trans hn))
    rw [← hno.eq_of_strcmpLcase hkey]
    exact ⟨fun _ => hkn', fun _ => hkn⟩
  · rw [strcmpLcase_eq_zero] at hmeet hkey hn
    constructor
    · rintro rfl
      exact absurd rfl hmeet
    · rintro rfl
      exact absurd (hn.trans hkey.symm) hmeet

/-! ## §2. Re-casing. -/

/-- The loop of `main` that looks for `user_param`: the index it stops at. -/
def findUserParam (user_param : CStr) (query : NvList) : Option Nat :=
  query.pairs.findIdx? (fun p => strcmpLcase user_param p.key = 0)

/-- A stage gives the value of the pair to its transform. -/
def Rewritten (transform : CStr → Int × StrOut) (list : List CStr) (p : NvPair) : Prop :=
  callsOf (stagePair transform list ([], []) p) ≠ []

/-- What `parse_conditional` makes of a body before it looks anything up. -/
def condParse (mem : CondMem) (body : CStr) : Option (Nat × Conditional) :=
  parseConditional mem (fun _ => none) ⟨[], 0, 0, 0⟩ body

/-- The case of a name that is looked up differs; an environment variable keeps
its name. -/
structure NameRecased (n n' : CStr) : Prop where
  same : strcmpLcase n n' = 0
  env : bytes "env." <+: n ∨ bytes "env." <+: n' → n = n'

/-- Two conditionals, as parsed, that differ in the case of their names. -/
structure CondRecased (c c' : Conditional) : Prop where
  var1 : NameRecased c.var1 c'.var1
  var2 : NameRecased c.var2 c'.var2
  sign : c.sign = c'.sign
  replace : c.replace = c'.replace
  cmatch : c.cmatch = c'.cmatch

/-- Two placeholders that differ in the case of their names. -/
def BodyRecased (mem : CondMem) (isCond : Bool) (body body' : CStr) : Prop :=
  if isCond = true then
    match condParse mem body, condParse mem body' with
    | none, none => True
    | some (code, c), some (code', c') => code = code' ∧ CondRecased c c'
    | _, _ => False
  else NameRecased body body'

/-- Two tokens of a template that differ in the case of names. -/
def TokenRecased (mem : Nat → RoundMem) : Token → Token → Prop
  | .close i body isCond, .close i' body' isCond' =>
      i = i' ∧ isCond = isCond' ∧ BodyRecased (mem i).toCondMem isCond body body'
  | t, t' => t = t'

/-- Two templates that differ in the case of the names in their placeholders. -/
structure TemplateRecased (mem : Nat → RoundMem) (str str' : CStr) : Prop where
  same : strcmpLcase str str' = 0
  tokens : List.Forall₂ (TokenRecased mem) (scan str) (scan str')

/-- Two lists of names that differ in their case. -/
def ListRecased (list list' : List CStr) : Prop :=
  List.Forall₂ (fun n n' => strcmpLcase n n' = 0) list list'

/-- Two queries that differ in the case of their keys. -/
def QueryRecased (query query' : NvList) : Prop :=
  List.Forall₂ (fun p p' => strcmpLcase p.key p'.key = 0 ∧ p.value = p'.value)
    query.pairs query'.pairs

/-- Two runs of `expand_vars` that return the same, and the same string on
success. -/
def SameResult : Option ExpandResult → Option ExpandResult → Prop
  | none, none => True
  | some r, some r' => r.ret = r'.ret ∧ (r.ret = 0 → r.str = r'.str)
  | _, _ => False

/-- The stage rewrites the values at the same places of two queries. -/
def SameRewritten (transform : CStr → Int × StrOut) (list list' : List CStr)
    (query query' : NvList) : Prop :=
  List.Forall₂ (fun p p' => Rewritten transform list p ↔ Rewritten transform list' p')
    query.pairs query'.pairs

/-- What a placeholder looks up are environment variables, and some of the names. -/
def BodyUses (mem : CondMem) (names : CStr → Prop) (isCond : Bool) (body : CStr) : Prop :=
  if isCond = true then
    ∀ c, condParse mem body = some (EXP_ERR_QUERYNVVAR_NOT_FOUND, c) →
      (bytes "env." <+: c.var1 ∨ names c.var1) ∧ (bytes "env." <+: c.var2 ∨ names c.var2)
  else bytes "env." <+: body ∨ names body

/-- What a token looks up. -/
def TokenUses (mem : Nat → RoundMem) (names : CStr → Prop) : Token → Prop
  | .close i body isCond => BodyUses (mem i).toCondMem names isCond body
  | _ => True

/-- A template that looks up no other parameters. -/
def TemplateUses (mem : Nat → RoundMem) (names : CStr → Prop) (str : CStr) : Prop :=
  ∀ t ∈ scan str, TokenUses mem names t

/-- The value of a variable, as the documentation has it: the case of a parameter's
name is not looked at. -/
def documentedValue (getenv : Env) (query : NvList) (n : CStr) : Option CStr :=
  if bytes "env." <+: n then getenv (n.drop 4)
  else (query.pairs.find? (fun p => strcmpLcase n p.key = 0)).map NvPair.value

/-- **The case of a name matters**: it has a letter, and it names a parameter. -/
def CaseMatters (getenv : Env) (query : NvList) (n : CStr) : Prop :=
  ¬ bytes "env." <+: n ∧ ¬ NoLetter n ∧ documentedValue getenv query n ≠ none

instance (getenv : Env) (query : NvList) (n : CStr) : Decidable (CaseMatters getenv query n) :=
  inferInstanceAs (Decidable (_ ∧ _ ∧ _))

/-- In every spelling the run ends at this token. -/
def Halts (mem : Nat → RoundMem) (getenv : Env) (query : NvList) : Token → Prop
  | .fault => True
  | .close i body isCond =>
      if isCond = true then condParse (mem i).toCondMem body = none
      else documentedValue getenv query body = none
  | _ => False

/-- The case matters for no name that is looked up, up to a token at which the
run ends. -/
def InertTo (mem : Nat → RoundMem) (getenv : Env) (query : NvList) : List Token → Prop
  | [] => True
  | t :: ts => TokenUses mem (fun n => ¬ CaseMatters getenv query n) t
      ∧ (Halts mem getenv query t ∨ InertTo mem getenv query ts)

/-- **PARAMETER NAMES ARE CASE-INSENSITIVE** for a query, a template, the lists of
the transforms and `user_param`: no change of case changes what comes of them. -/
structure CaseInsensitive (mem : Nat → RoundMem) (getenv : Env) (query : NvList) (str : CStr)
    (lpadzero ltrimzero : List CStr) (user_param : CStr) : Prop where
  expand : ∀ g str' query', TemplateRecased mem str str' → QueryRecased query query' →
    SameResult (expandVars mem getenv query g str) (expandVars mem getenv query' g str')
  lpadzero : ∀ list' query', ListRecased lpadzero list' → QueryRecased query query' →
    SameRewritten (fun value => transformLpadzero value 10) lpadzero list' query query'
  ltrimzero : ∀ list' query', ListRecased ltrimzero list' → QueryRecased query query' →
    SameRewritten (fun value => (0, transformLtrimzero value)) ltrimzero list' query query'
  userParam : ∀ user_param' query', strcmpLcase user_param user_param' = 0 →
    QueryRecased query query' → findUserParam user_param query = findUserParam user_param' query'

/-! ## §3. Names and lists. -/

/-- The lookup of `user_param` notices no change of case, in any query. -/
theorem findUserParam_recased {user_param user_param' : CStr} {query query' : NvList}
    (hname : strcmpLcase user_param user_param' = 0) (hquery : QueryRecased query query') :
    findUserParam user_param query = findUserParam user_param' query' := by
  unfold findUserParam
  unfold QueryRecased at hquery
  rw [strcmpLcase_eq_zero] at hname
  generalize query.pairs = pairs at hquery ⊢
  generalize query'.pairs = pairs' at hquery ⊢
  induction hquery with
  | nil => rfl
  | @cons p p' ps ps' hp _ ih =>
      have hkey := (strcmpLcase_eq_zero _ _).mp hp.1
      have hsame : strcmpLcase user_param p.key = 0 ↔ strcmpLcase user_param' p'.key = 0 := by
        rw [strcmpLcase_eq_zero, strcmpLcase_eq_zero, hname, hkey]
      rw [List.findIdx?_cons, List.findIdx?_cons, ih]
      simp only [hsame]

/-- A listed pair is given to the transform. -/
theorem calls_of_listed (transform : CStr → Int × StrOut) : ∀ (list : List CStr) (p : NvPair),
    p.key ∈ list → callsOf (list.foldlM (stageEntry transform) (p, [])) ≠ []
  | item :: list, p, hmem => by
      rw [List.foldlM_cons]
      by_cases hitem : item = p.key
      · rw [hitem, stageEntry_same]
        split
        · exact List.append_ne_nil_of_right_ne_nil _ (by simp)
        · -- the call that was made stays in the record
          have hkept := foldlM_calls (@stageEntry_calls transform) list
            ({ p with value := (transform p.value).2.text }, [] ++ [⟨p.value, (transform p.value).2⟩])
          exact hkept.ne_nil (by simp)
      · rw [stageEntry_other hitem]
        exact calls_of_listed transform list p (List.mem_of_ne_of_mem (Ne.symm hitem) hmem)

/-- **A pair goes through a transform exactly if it is listed**, letter by letter. -/
theorem rewritten_iff (transform : CStr → Int × StrOut) (list : List CStr) (p : NvPair) :
    Rewritten transform list p ↔ p.key ∈ list := by
  have hcalls : callsOf (stagePair transform list ([], []) p)
      = callsOf (list.foldlM (stageEntry transform) (p, [])) := by
    unfold stagePair
    cases list.foldlM (stageEntry transform) (p, []) <;> rfl
  unfold Rewritten
  rw [hcalls]
  constructor
  · intro h
    by_contra hno
    rw [stageEntries_unlisted list (p, []) hno] at h
    exact h rfl
  · exact calls_of_listed transform list p

/-- No name of a list that has a letter is, ignoring case, a key of the query. -/
def NoLetterMet (query : NvList) (list : List CStr) : Prop :=
  ∀ n ∈ list, ∀ p ∈ query.pairs, strcmpLcase n p.key = 0 → NoLetter p.key

theorem QueryRecased.refl (query : NvList) : QueryRecased query query := by
  apply List.forall₂_same.mpr
  exact fun p _ => ⟨(strcmpLcase_eq_zero _ _).mpr rfl, rfl⟩

/-- A key is listed in one spelling of a list and in another. -/
theorem mem_recased {key key' : CStr} (hkey : strcmpLcase key key' = 0) {list list' : List CStr}
    (hmet : ∀ n ∈ list, strcmpLcase n key = 0 → NoLetter key) (h : ListRecased list list') :
    key ∈ list ↔ key' ∈ list' := by
  induction h with
  | nil => simp
  | @cons n n' ns ns' hn _ ih =>
      rw [List.mem_cons, List.mem_cons, key_eq_iff hkey hn (hmet n List.mem_cons_self),
        ih (fun m hm => hmet m (List.mem_cons_of_mem _ hm))]

/-- One name of a list is spelled another way, where it occurs. -/
theorem listRecased_map {a b : CStr} (h : strcmpLcase a b = 0) (list : List CStr) :
    ListRecased list (list.map fun m => if m = a then b else m) := by
  unfold ListRecased
  rw [List.forall₂_map_right_iff, List.forall₂_same]
  intro m _
  split
  · next heq => exact heq ▸ h
  · exact (strcmpLcase_eq_zero _ _).mpr rfl

/-- **WHEN A LIST NOTICES THE CASE**: exactly if one of its names that has a letter
is, ignoring case, a key of the query. -/
theorem rewritten_recased_iff (transform : CStr → Int × StrOut) (list : List CStr)
    (query : NvList) :
    (∀ list' query', ListRecased list list' → QueryRecased query query' →
        SameRewritten transform list list' query query')
      ↔ NoLetterMet query list := by
  constructor
  · intro h n hn p hp hmeet
    by_contra hletter
    have hsame : ∀ list', ListRecased list list' → (p.key ∈ list ↔ p.key ∈ list') := by
      intro list' hlist
      have hiff := List.forall₂_same.mp (h list' query hlist (.refl query)) p hp
      rwa [rewritten_iff, rewritten_iff] at hiff
    by_cases hkey : p.key ∈ list
    · -- the key is listed, and then spelled another way wherever it is
      obtain ⟨other, hother, hne⟩ := exists_recased hletter
      have hmem := (hsame _ (listRecased_map hother list)).mp hkey
      obtain ⟨m, -, hm⟩ := List.mem_map.mp hmem
      split at hm
      · exact hne hm
      · next hno => exact hno hm
    · -- the key is another spelling, and that one could be listed
      refine hkey ((hsame _ (listRecased_map hmeet list)).mpr ?_)
      exact List.mem_map.mpr ⟨n, hn, if_pos rfl⟩
  · intro h list' query' hlist hquery
    have hmet : ∀ p ∈ query.pairs, ∀ n ∈ list, strcmpLcase n p.key = 0 → NoLetter p.key :=
      fun p hp n hn => h n hn p hp
    apply ((List.forall₂_and_left _ _).mpr ⟨hmet, hquery⟩).imp
    intro p p' hp
    rw [rewritten_iff, rewritten_iff]
    exact mem_recased hp.2.1 hp.1 hlist

/-! ## §4. Templates. -/

section Expand

variable {getenv : Env} {query query' : NvList}

/-- A change of case that no lookup of one of the names notices. -/
def LooksUpAlike (getenv : Env) (query query' : NvList) (names : CStr → Prop) : Prop :=
  ∀ n n', bytes "env." <+: n ∨ names n → NameRecased n n' →
    findVarValue getenv query n = findVarValue getenv query' n'

/-- **A change of case** is noticed by no lookup of a name whose case does not matter. -/
theorem looksUpAlike_recased (hquery : QueryRecased query query') :
    LooksUpAlike getenv query query' fun n => ¬ CaseMatters getenv query n := by
  intro n n' huses hn
  unfold findVarValue
  by_cases henv : bytes "env." <+: n ∨ bytes "env." <+: n'
  · obtain rfl := hn.env henv
    have hpre : bytes "env." <+: n := henv.elim id id
    rw [if_pos hpre, if_pos hpre]
  · rw [not_or] at henv
    rw [if_neg henv.1, if_neg henv.2]
    have hmet : ∀ p ∈ query.pairs, strcmpLcase n p.key = 0 → NoLetter p.key := by
      intro p hp hmeet
      by_contra hletter
      refine huses.resolve_left henv.1 ⟨henv.1, ?_, ?_⟩
      · intro hno
        exact hletter (hno.eq_of_strcmpLcase hmeet ▸ hno)
      · unfold documentedValue
        rw [if_neg henv.1, ne_eq, Option.map_eq_none_iff]
        intro hnone
        exact List.find?_eq_none.mp hnone p hp (decide_eq_true hmeet)
    have hpairs := (List.forall₂_and_left _ _).mpr ⟨hmet, hquery⟩
    generalize query.pairs = pairs at hpairs ⊢
    generalize query'.pairs = pairs' at hpairs ⊢
    -- the two lists of pairs, in parallel
    induction hpairs with
    | nil => rfl
    | @cons p p' ps ps' hp _ ih =>
        have hiff := key_eq_iff hp.2.1 hn.same hp.1
        rw [List.find?_cons, List.find?_cons]
        by_cases hkey : p.key = n
        · simp [hkey, hiff.mp hkey, hp.2.2]
        · have hmiss : decide (strcmp p.key n = 0) = false := by simpa using hkey
          have hmiss' : decide (strcmp p'.key n' = 0) = false := by
            simpa using fun heq => hkey (hiff.mpr heq)
          rw [hmiss, hmiss']
          exact ih

/-- What is not found without regard to case is not found at all. -/
theorem findVarValue_none {n : CStr} (h : documentedValue getenv query n = none) :
    findVarValue getenv query n = none := by
  unfold documentedValue at h
  unfold findVarValue
  split at h
  · next henv => rw [if_pos henv, h]
  · next henv =>
      rw [if_neg henv, Option.map_eq_none_iff, List.find?_eq_none]
      intro p hp hkey
      rw [Option.map_eq_none_iff, List.find?_eq_none] at h
      have hsame : p.key = n := (strcmp_eq_zero _ _).mp (of_decide_eq_true hkey)
      exact h p hp (decide_eq_true ((strcmpLcase_eq_zero _ _).mpr (by rw [hsame])))

/-- Where nothing is defined, no comparison is made. -/
theorem condCompare_undefined (cond : Conditional) :
    condCompare (fun _ => none) ⟨[], 0, 0, 0⟩ cond = (EXP_ERR_QUERYNVVAR_NOT_FOUND, cond) := by
  have hnone : ∀ n, findVarValue (fun _ => none) ⟨[], 0, 0, 0⟩ n = none := by
    intro n
    unfold findVarValue
    split <;> rfl
  unfold condCompare
  rw [hnone, hnone]

/-- **Parsing, then looking up.** -/
theorem parseConditional_eq (mem : CondMem) (getenv : Env) (query : NvList) (body : CStr) :
    parseConditional mem getenv query body = (condParse mem body).map (fun r =>
      if r.1 = EXP_ERR_QUERYNVVAR_NOT_FOUND then condCompare getenv query r.2 else r) := by
  unfold condParse parseConditional
  cases condOperator mem body with
  | none => rfl
  | some op =>
      obtain ⟨sign, pos⟩ := op
      dsimp only
      split
      · rfl
      · split
        · rw [condCompare_undefined]
          rfl
        · rfl

/-- The comparison of two conditionals whose names are looked up alike. -/
theorem condCompare_recased {names : CStr → Prop} (hlook : LooksUpAlike getenv query query' names)
    {c c' : Conditional} (h : CondRecased c c')
    (huses : (bytes "env." <+: c.var1 ∨ names c.var1) ∧ (bytes "env." <+: c.var2 ∨ names c.var2)) :
    (condCompare getenv query c).2.cmatch = (condCompare getenv query' c').2.cmatch
      ∧ (condCompare getenv query c).2.replace = (condCompare getenv query' c').2.replace := by
  unfold condCompare
  rw [hlook _ _ huses.1 h.var1, hlook _ _ huses.2 h.var2, h.sign]
  split
  · split
    · exact ⟨rfl, h.replace⟩
    · exact ⟨h.cmatch, h.replace⟩
  · exact ⟨h.cmatch, h.replace⟩

/-- Two buffers that differ in the name noted last. -/
structure BufAlike (s s' : ExpandBuf) : Prop where
  out : s.out = s'.out
  bufferLength : s.bufferLength = s'.bufferLength
  block : s.block = s'.block
  lost : s.lost = s'.lost

theorem BufAlike.outText_eq {s s' : ExpandBuf} (h : BufAlike s s') (mem : RoundMem) :
    outText mem s = outText mem s' := by
  unfold outText
  rw [h.lost, h.out]

/-- Two early exits with the same code. -/
def ExitAlike : ExpandExit → ExpandExit → Prop
  | .crash, .crash => True
  | .ret code _ _, .ret code' _ _ => code = code'
  | _, _ => False

theorem expandAppend_alike {s s' : ExpandBuf} (h : BufAlike s s') (mem : RoundMem)
    (append : CStr) :
    Loop.Alike BufAlike ExitAlike (expandAppend mem s append) (expandAppend mem s' append) := by
  unfold expandAppend
  rw [h.outText_eq mem, h.bufferLength, h.block, h.lost]
  cases outText mem s' with
  | none => trivial
  | some string =>
      dsimp only
      split
      · exact rfl
      · exact ⟨rfl, rfl, rfl, rfl⟩

theorem expandOpen_alike {s s' : ExpandBuf} (h : BufAlike s s') (mem : RoundMem) :
    Loop.Alike BufAlike ExitAlike (expandOpen mem s) (expandOpen mem s') := by
  unfold expandOpen
  rw [h.outText_eq mem]
  cases outText mem s' with
  | none => trivial
  | some string => exact ⟨rfl, h.bufferLength, h.block, h.lost⟩

/-- **Two names that are closed alike.** -/
theorem expandClose_alike {names : CStr → Prop} (hlook : LooksUpAlike getenv query query' names)
    {mem : RoundMem} {isCond : Bool} {body body' : CStr}
    (huses : BodyUses mem.toCondMem names isCond body)
    (hbody : BodyRecased mem.toCondMem isCond body body') {s s' : ExpandBuf} (h : BufAlike s s') :
    Loop.Alike BufAlike ExitAlike (expandClose mem getenv query body isCond s)
      (expandClose mem getenv query' body' isCond s') := by
  have hnoted : BufAlike { s with lastvar := body } { s' with lastvar := body' } :=
    ⟨h.out, h.bufferLength, h.block, h.lost⟩
  unfold BodyRecased at hbody
  unfold BodyUses at huses
  unfold expandClose
  dsimp only
  by_cases hcond : isCond = true
  · -- parsing looks nothing up, so both bodies are parsed alike first
    rw [if_pos hcond] at hbody huses
    rw [if_pos hcond, if_pos hcond, parseConditional_eq mem.toCondMem getenv query,
      parseConditional_eq mem.toCondMem getenv query']
    cases hparse : condParse mem.toCondMem body with
    | none =>
        cases hparse' : condParse mem.toCondMem body' with
        | none => trivial
        | some r' => rw [hparse, hparse'] at hbody; exact hbody.elim
    | some r =>
        cases hparse' : condParse mem.toCondMem body' with
        | none => rw [hparse, hparse'] at hbody; exact hbody.elim
        | some r' =>
            obtain ⟨code, c⟩ := r
            obtain ⟨code', c'⟩ := r'
            rw [hparse, hparse'] at hbody
            obtain ⟨hcode, hc⟩ := hbody
            simp only [Option.map_some, ← hcode]
            by_cases hend : code = EXP_ERR_QUERYNVVAR_NOT_FOUND
            · have hnames := huses c (by rw [hparse, hend])
              obtain ⟨hmatch, hreplace⟩ := condCompare_recased hlook hc hnames
              rw [if_pos hend, if_pos hend, hmatch, hreplace]
              split
              · exact expandAppend_alike hnoted mem _
              · exact hnoted
            · rw [if_neg hend, if_neg hend, hc.cmatch, hc.replace]
              split
              · exact expandAppend_alike hnoted mem _
              · exact hnoted
  · rw [if_neg hcond] at hbody huses
    rw [if_neg hcond, if_neg hcond, hlook body body' huses hbody]
    split
    · exact rfl
    · exact expandAppend_alike hnoted mem _

/-- One token. -/
theorem tokenStep_alike {names : CStr → Prop} (hlook : LooksUpAlike getenv query query' names)
    {mem : Nat → RoundMem} {s s' : ExpandBuf} {t t' : Token} (h : BufAlike s s')
    (huses : TokenUses mem names t) (ht : TokenRecased mem t t') :
    Loop.Alike BufAlike ExitAlike (tokenStep mem getenv query s t)
      (tokenStep mem getenv query' s' t') := by
  cases t with
  | put i c =>
      obtain rfl : Token.put i c = t' := by cases t' <;> exact ht
      exact expandAppend_alike h (mem i) [c]
  | opn i =>
      obtain rfl : Token.opn i = t' := by cases t' <;> exact ht
      exact expandOpen_alike h (mem i)
  | fault =>
      obtain rfl : Token.fault = t' := by cases t' <;> exact ht
      trivial
  | close i body isCond =>
      cases t' with
      | put i' c => exact absurd ht (by simp [TokenRecased])
      | opn i' => exact absurd ht (by simp [TokenRecased])
      | fault => exact absurd ht (by simp [TokenRecased])
      | close i' body' isCond' =>
          obtain ⟨rfl, rfl, hbody⟩ := ht
          exact expandClose_alike hlook huses hbody h

/-- Two runs over texts of one length that end alike have the same result. -/
theorem sameResult_of_alike {mem : Nat → RoundMem} {getenv : Env} {query query' : NvList}
    {g g' : ExpandGlobals} {str str' : CStr}
    (hrun : Loop.Alike BufAlike ExitAlike (expandRun mem getenv query g str)
      (expandRun mem getenv query' g' str')) (hlen : str.length = str'.length) :
    SameResult (expandVars mem getenv query g str) (expandVars mem getenv query' g' str') := by
  rw [expandVars_eq_scan, expandVars_eq_scan]
  cases hleft : expandRun mem getenv query g str with
  | ok s =>
      cases hright : expandRun mem getenv query' g' str' with
      | ok s' =>
          rw [hleft, hright] at hrun
          have hout : outText (mem str.length) s = outText (mem str'.length) s' := by
            rw [hlen]
            exact BufAlike.outText_eq hrun _
          dsimp only
          rw [hout]
          cases outText (mem str'.length) s' with
          | none => trivial
          | some out => exact ⟨rfl, fun _ => rfl⟩
      | error e' => rw [hleft, hright] at hrun; exact hrun.elim
  | error e =>
      cases hright : expandRun mem getenv query' g' str' with
      | ok s' => rw [hleft, hright] at hrun; exact hrun.elim
      | error e' =>
          rw [hleft, hright] at hrun
          cases e with
          | crash =>
              cases e' with
              | crash => trivial
              | ret code' lastvar' name' => exact hrun.elim
          | ret code lastvar name =>
              cases e' with
              | crash => exact hrun.elim
              | ret code' lastvar' name' =>
                  -- no early exit is a success, so the texts are not compared
                  have hcode : code ≠ 0 := expandRun_hasCode hleft
                  exact ⟨hrun, fun hzero => absurd hzero hcode⟩

theorem TemplateRecased.length_eq {mem : Nat → RoundMem} {str str' : CStr}
    (h : TemplateRecased mem str str') : str.length = str'.length := by
  have hmap := congrArg List.length ((strcmpLcase_eq_zero _ _).mp h.same)
  rwa [List.length_map, List.length_map] at hmap

/-- A token at which the run ends in every spelling ends it. -/
theorem Halts.error {mem : Nat → RoundMem} {t : Token} (h : Halts mem getenv query t)
    (s : ExpandBuf) : ∃ e, tokenStep mem getenv query s t = .error e := by
  cases t with
  | put i c => exact h.elim
  | opn i => exact h.elim
  | fault => exact ⟨_, rfl⟩
  | close i body isCond =>
      change if isCond = true then _ else _ at h
      show ∃ e, expandClose (mem i) getenv query body isCond s = .error e
      unfold expandClose
      dsimp only
      split at h
      · next hcond =>
          rw [if_pos hcond, parseConditional_eq, h]
          exact ⟨_, rfl⟩
      · next hcond =>
          rw [if_neg hcond, findVarValue_none h]
          exact ⟨_, rfl⟩

/-- **Two runs** over tokens that differ in the case of names end alike, if the
case matters for none that is looked up. -/
theorem run_recased {mem : Nat → RoundMem} (hquery : QueryRecased query query') :
    ∀ {ts ts' : List Token}, List.Forall₂ (TokenRecased mem) ts ts' →
      InertTo mem getenv query ts → ∀ {s s' : ExpandBuf}, BufAlike s s' →
      Loop.Alike BufAlike ExitAlike (ts.foldlM (tokenStep mem getenv query) s)
        (ts'.foldlM (tokenStep mem getenv query') s')
  | _, _, .nil, _, _, _, hs => hs
  | t :: ts, t' :: ts', .cons ht hts, ⟨huses, hrest⟩, s, s', hs => by
      have hstep := tokenStep_alike (looksUpAlike_recased hquery) hs huses ht
      rw [List.foldlM_cons, List.foldlM_cons]
      cases hleft : tokenStep mem getenv query s t with
      | error e =>
          cases hright : tokenStep mem getenv query' s' t' with
          | error e' => rw [hleft, hright] at hstep; exact hstep
          | ok b' => rw [hleft, hright] at hstep; exact hstep.elim
      | ok b =>
          cases hright : tokenStep mem getenv query' s' t' with
          | error e' => rw [hleft, hright] at hstep; exact hstep.elim
          | ok b' =>
              rw [hleft, hright] at hstep
              -- the run does not end here, so what is behind is inert too
              have hgo : ¬ Halts mem getenv query t := by
                intro hhalts
                obtain ⟨e, he⟩ := hhalts.error s
                rw [hleft] at he
                cases he
              exact run_recased hquery hts (hrest.resolve_left hgo) hstep

/-- **`expand_vars` notices no change of case** where none of its lookups does. -/
theorem expandVars_recased {mem : Nat → RoundMem} (g : ExpandGlobals) {str str' : CStr}
    (hinert : InertTo mem getenv query (scan str)) (h : TemplateRecased mem str str')
    (hquery : QueryRecased query query') :
    SameResult (expandVars mem getenv query g str) (expandVars mem getenv query' g str') :=
  sameResult_of_alike (run_recased hquery h.tokens hinert ⟨rfl, rfl, rfl, rfl⟩) h.length_eq

end Expand

end Protohand
