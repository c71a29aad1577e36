/-
  Protohand.Spelling
  ──────────────────
  **WHEN PARAMETER NAMES ARE CASE-INSENSITIVE.**

  A template is safe if all its spellings end at an undefined name, or if the case
  matters for no plain name in front of where they end and, where they go through,
  no conditional is live.  For a template with room for all of its spellings this
  is exact (`caseInsensitive_iff`): from a name whose case matters, two spellings
  of the input are made that end differently.

    • `spell`, `Seg.spelled`  — capitals, but for one letter,
    • `exists_spelled`        — the same for the operands of a conditional,
    • `exists_two_spellings`  — a live conditional shows its text in one of two,
    • `expandVars_of_safe`, `safe_of_expandVars` — the two directions.
-/
import Protohand.CmdParser.Recased

namespace Protohand

open Text

/-! ## §1. Capitals, but for one letter. -/

/-- A character as a capital, but for the letters whose small one is `l`. -/
def spell (l c : UInt8) : UInt8 :=
  if tolower c = l then tolower c
  else if ascii 'a' ≤ c ∧ c ≤ ascii 'z' then c - 32
  else c

/-- What a spelling keeps of a character, and where it writes a small letter. -/
theorem spell_cases (l c : UInt8) :
    tolower (spell l c) = tolower c ∧ spell l (tolower c) = spell l c
      ∧ (isLetter c = true → tolower (spell l c) = spell l c → tolower c = l) := by
  have key : ∀ n < 256, tolower (tolower (UInt8.ofNat n)) = tolower (UInt8.ofNat n)
      ∧ tolower (if ascii 'a' ≤ UInt8.ofNat n ∧ UInt8.ofNat n ≤ ascii 'z'
          then UInt8.ofNat n - 32 else UInt8.ofNat n) = tolower (UInt8.ofNat n)
      ∧ (if ascii 'a' ≤ tolower (UInt8.ofNat n) ∧ tolower (UInt8.ofNat n) ≤ ascii 'z'
          then tolower (UInt8.ofNat n) - 32 else tolower (UInt8.ofNat n))
        = (if ascii 'a' ≤ UInt8.ofNat n ∧ UInt8.ofNat n ≤ ascii 'z'
          then UInt8.ofNat n - 32 else UInt8.ofNat n)
      ∧ (isLetter (UInt8.ofNat n) = true → tolower (UInt8.ofNat n)
        ≠ if ascii 'a' ≤ UInt8.ofNat n ∧ UInt8.ofNat n ≤ ascii 'z'
          then UInt8.ofNat n - 32 else UInt8.ofNat n) := by
    decide +kernel
  have hc := key c.toNat c.toNat_lt_size
  rw [UInt8.ofNat_toNat] at hc
  obtain ⟨hlower, hupper, hagain, hdiffers⟩ := hc
  unfold spell
  rw [hlower]
  by_cases hl : tolower c = l
  · rw [if_pos hl, if_pos hl]
    exact ⟨hlower, rfl, fun _ _ => hl⟩
  · rw [if_neg hl, if_neg hl]
    refine ⟨hupper, hagain, ?_⟩
    intro hletter hsmall
    exact absurd (hupper.symm.trans hsmall) (hdiffers hletter)

/-- A way to write characters that keeps what they are without their case. -/
def KeepsLetters (f : UInt8 → UInt8) : Prop := ∀ c, tolower (f c) = tolower c

theorem keepsLetters_spell (l : UInt8) : KeepsLetters (spell l) := fun c => (spell_cases l c).1

theorem keepsLetters_id : KeepsLetters id := fun _ => rfl

section Keeps

variable {f : UInt8 → UInt8} (hf : KeepsLetters f)

include hf

theorem KeepsLetters.same (s : CStr) : s.map tolower = (s.map f).map tolower := by
  rw [List.map_map]
  exact List.map_congr_left fun c _ => (hf c).symm

theorem KeepsLetters.fixes {c : UInt8} (hc : isLetter c = false) : f c = c :=
  (tolower_eq_iff hc).mp ((hf c).trans ((tolower_eq_iff hc).mpr rfl))

theorem KeepsLetters.fixes_text {s : CStr} (hs : NoLetter s) : s.map f = s := by
  conv_rhs => rw [← List.map_id s]
  exact List.map_congr_left fun c hc => hf.fixes (hs c hc)

/-- A character without a letter stays where it is. -/
theorem KeepsLetters.eq_iff {c d : UInt8} (hd : isLetter d = false) : f c = d ↔ c = d := by
  rw [← tolower_eq_iff hd, hf c, tolower_eq_iff hd]

theorem KeepsLetters.isspace (c : UInt8) : Protohand.isspace (f c) = Protohand.isspace c := by
  cases hletter : isLetter c with
  | false => rw [hf.fixes hletter]
  | true =>
      have key : ∀ n < 256, isLetter (tolower (UInt8.ofNat n)) = true →
          Protohand.isspace (UInt8.ofNat n) = false := by decide +kernel
      have hno : ∀ d : UInt8, isLetter (tolower d) = true → Protohand.isspace d = false := by
        intro d
        have hd := key d.toNat d.toNat_lt_size
        rwa [UInt8.ofNat_toNat] at hd
      have hlower : isLetter (tolower c) = true := (tolower_cases c).1.trans hletter
      rw [hno c hlower, hno (f c) (by rw [hf c]; exact hlower)]

/-- Trimming sees no letters. -/
theorem KeepsLetters.trimBlanks (s : CStr) :
    Protohand.trimBlanks (s.map f) = (Protohand.trimBlanks s).map f := by
  have hspace : (Protohand.isspace ∘ f) = Protohand.isspace := funext hf.isspace
  have hblank : ((fun c => c == ascii ' ') ∘ f) = fun c => c == ascii ' ' := by
    funext c
    rw [Bool.eq_iff_iff, Function.comp, beq_iff_eq, beq_iff_eq]
    exact hf.eq_iff (by decide)
  have hdrop : (s.map f).dropWhile Protohand.isspace = (s.dropWhile Protohand.isspace).map f := by
    rw [List.dropWhile_map, hspace]
  have htrim : trimInPlace (s.map f) = (trimInPlace s).map f := by
    unfold trimInPlace
    by_cases hnil : s.dropWhile Protohand.isspace = []
    · have hnil' : (s.map f).dropWhile Protohand.isspace = [] := by rw [hdrop, hnil]; rfl
      rw [if_pos hnil, if_pos hnil']
    · have hnil' : ¬ (s.map f).dropWhile Protohand.isspace = [] := by
        rw [hdrop, List.map_eq_nil_iff]
        exact hnil
      rw [if_neg hnil, if_neg hnil']
      unfold List.rdropWhile
      rw [← List.map_reverse, List.dropWhile_map, hspace, List.map_reverse]
  unfold Protohand.trimBlanks
  rw [htrim, List.dropWhile_map, hblank]

/-- A cut at a character that is no letter. -/
theorem KeepsLetters.before {d : UInt8} (hd : isLetter d = false) (s : CStr) :
    Text.before d (s.map f) = (Text.before d s).map f := by
  have hsame : ((fun c => c != d) ∘ f) = fun c => c != d := by
    funext c
    rw [Bool.eq_iff_iff, Function.comp, bne_iff_ne, bne_iff_ne, ne_eq, hf.eq_iff hd]
  unfold Text.before
  rw [List.takeWhile_map, hsame]

end Keeps

theorem keepsLetters_tolower : KeepsLetters tolower := fun c => by
  obtain ⟨hlower, -⟩ := spell_cases (tolower c) c
  rwa [show spell (tolower c) c = tolower c from if_pos rfl] at hlower

/-- No text in capitals, but for one letter, names a variable of the environment. -/
theorem not_env_spell (l : UInt8) (s : CStr) : ¬ bytes "env." <+: s.map (spell l) := by
  rintro ⟨t, ht⟩
  have hsmall : ∀ (i : Nat) (d : UInt8), (bytes "env.")[i]? = some d → isLetter d = true →
      tolower d = d → d = l := by
    intro i d hi hletter hlower
    have hget : (s.map (spell l))[i]? = some d := by
      rw [← ht, List.getElem?_append_left (List.getElem?_eq_some_iff.mp hi).1]
      exact hi
    rw [List.getElem?_map, Option.map_eq_some_iff] at hget
    obtain ⟨c, -, rfl⟩ := hget
    have hc : isLetter c = true := by
      rw [← (tolower_cases c).1, ← (spell_cases l c).1, (tolower_cases _).1]
      exact hletter
    rw [← hlower, (spell_cases l c).1]
    exact (spell_cases l c).2.2 hc hlower
  have he := hsmall 0 (ascii 'e') rfl (by decide) (by decide)
  have hn := hsmall 1 (ascii 'n') rfl (by decide) (by decide)
  exact absurd (he.trans hn.symm) (by decide)

/-- Names that are the same without their case are spelled alike. -/
theorem spell_eq_iff (s t : CStr) : s.map (spell 0) = t.map (spell 0) ↔ strcmpLcase s t = 0 := by
  rw [strcmpLcase_eq_zero]
  constructor
  · intro h
    rw [(keepsLetters_spell 0).same s, (keepsLetters_spell 0).same t, h]
  · intro h
    have hagain : ∀ u : CStr, u.map (spell 0) = (u.map tolower).map (spell 0) := by
      intro u
      rw [List.map_map]
      exact List.map_congr_left fun c _ => (spell_cases 0 c).2.1.symm
    rw [hagain s, hagain t, h]

/-- A letter that is written small is in no text that is written in capitals. -/
theorem spell_ne {s : CStr} {c : UInt8} (hc : c ∈ s) (hletter : isLetter c = true) (t : CStr) :
    t.map (spell 0) ≠ s.map (spell (tolower c)) := by
  intro h
  have hmem : tolower c ∈ t.map (spell 0) := by
    rw [h]
    exact List.mem_map.mpr ⟨c, hc, if_pos rfl⟩
  obtain ⟨d, -, hd⟩ := List.mem_map.mp hmem
  obtain ⟨hlower, -, hsmall⟩ := spell_cases 0 d
  have htwice : tolower (tolower c) = tolower c := by
    have htwice' := (spell_cases (tolower c) c).1
    rwa [show spell (tolower c) c = tolower c from if_pos rfl] at htwice'
  have hdc : tolower d = tolower c := by rw [← hlower, hd, htwice]
  have hd' : isLetter d = true := by rw [← (tolower_cases d).1, hdc, (tolower_cases c).1, hletter]
  -- a capital would have been written
  have hzero : tolower d = 0 := hsmall hd' (by rw [hd, htwice])
  rw [← (tolower_cases d).1, hzero] at hd'
  exact absurd hd' (by decide)

/-! ## §2. Names, queries and conditionals. -/

/-- A name in capitals, but for one letter; an environment variable keeps its name. -/
def spellName (l : UInt8) (n : CStr) : CStr := if bytes "env." <+: n then n else n.map (spell l)

/-- A conditional with its names in capitals, but for one letter of each. -/
def Conditional.spelled (l₁ l₂ : UInt8) (c : Conditional) : Conditional :=
  { c with var1 := spellName l₁ c.var1, var2 := spellName l₂ c.var2 }

/-- The keys in capitals. -/
def NvList.spelled (query : NvList) : NvList :=
  .ofPairs (query.pairs.map fun p => { p with key := p.key.map (spell 0) })

theorem nameRecased_spellName (l : UInt8) (n : CStr) : NameRecased n (spellName l n) := by
  unfold spellName
  by_cases henv : bytes "env." <+: n
  · rw [if_pos henv]
    exact .refl n
  · rw [if_neg henv]
    refine ⟨(strcmpLcase_eq_zero _ _).mpr ((keepsLetters_spell l).same n), ?_⟩
    exact fun h => absurd h (not_or.mpr ⟨henv, not_env_spell l n⟩)

theorem queryRecased_spelled (query : NvList) : QueryRecased query query.spelled := by
  unfold QueryRecased NvList.spelled
  rw [pairs_ofPairs, List.forall₂_map_right_iff, List.forall₂_same]
  exact fun p _ => ⟨(strcmpLcase_eq_zero _ _).mpr ((keepsLetters_spell 0).same p.key), rfl⟩

section Lookups

variable {getenv : Env} {query : NvList}

/-- **In capitals a name is found** as the documentation has it. -/
theorem findVarValue_spelled (n : CStr) :
    findVarValue getenv query.spelled (spellName 0 n) = documentedValue getenv query n := by
  unfold findVarValue documentedValue spellName
  by_cases henv : bytes "env." <+: n
  · rw [if_pos henv, if_pos henv, if_pos henv]
  · rw [if_neg henv, if_neg henv, if_neg (not_env_spell 0 n), NvList.spelled, pairs_ofPairs,
      List.find?_map, Option.map_map]
    congr 1
    refine congrArg (List.find? · query.pairs) (funext fun p => ?_)
    rw [Bool.eq_iff_iff, Function.comp, decide_eq_true_iff, decide_eq_true_iff, strcmp_eq_zero,
      spell_eq_iff, strcmpLcase_eq_zero, strcmpLcase_eq_zero]
    exact eq_comm

/-- **With one kind of letter small it is not**, if it has such a letter. -/
theorem findVarValue_small {n : CStr} (henv : ¬ bytes "env." <+: n) {c : UInt8} (hc : c ∈ n)
    (hletter : isLetter c = true) :
    findVarValue getenv query.spelled (spellName (tolower c) n) = none := by
  unfold findVarValue spellName
  rw [if_neg henv, if_neg (not_env_spell _ n), NvList.spelled, pairs_ofPairs, Option.map_eq_none_iff,
    List.find?_eq_none]
  intro p hp hkey
  obtain ⟨q, -, rfl⟩ := List.mem_map.mp hp
  exact spell_ne hc hletter q.key ((strcmp_eq_zero _ _).mp (of_decide_eq_true hkey))

/-- A name whose case matters has a spelling that is not found. -/
theorem CaseMatters.exists_small {n : CStr} (h : CaseMatters getenv query n) :
    ∃ l, findVarValue getenv query.spelled (spellName l n) = none := by
  obtain ⟨henv, hletter, -⟩ := h
  unfold NoLetter at hletter
  rw [not_forall] at hletter
  obtain ⟨c, hno⟩ := hletter
  rw [Classical.not_imp] at hno
  exact ⟨tolower c, findVarValue_small henv hno.1 (by simpa using hno.2)⟩

/-- A way to write a name. -/
theorem spellName_eq_map (l : UInt8) (n : CStr) :
    ∃ f, KeepsLetters f ∧ spellName l n = n.map f := by
  unfold spellName
  by_cases henv : bytes "env." <+: n
  · exact ⟨id, keepsLetters_id, by rw [if_pos henv, List.map_id]⟩
  · exact ⟨spell l, keepsLetters_spell l, if_neg henv⟩

/-- The operator of a conditional does not depend on the case of its letters. -/
theorem condOperator_same {s t : CStr} (h : s.map tolower = t.map tolower) (m : CondMem) :
    condOperator m s = condOperator m t := by
  have heq : isLetter (ascii '=') = false := by decide
  have hbang : isLetter (ascii '!') = false := by decide
  unfold condOperator
  by_cases hmem : ascii '=' ∈ s
  · have hmem' : ascii '=' ∈ t := (mem_iff h heq).mp hmem
    have hlen : (before (ascii '=') s).length = (before (ascii '=') t).length := by
      have hcut := congrArg (fun u => (before (ascii '=') u).length) h
      simpa only [keepsLetters_tolower.before heq, List.length_map] using hcut
    have hlast : s.getD ((before (ascii '=') t).length - 1) 0 = ascii '!'
        ↔ t.getD ((before (ascii '=') t).length - 1) 0 = ascii '!' := by
      have hget : ∀ (u : CStr) (i : Nat), u.getD i 0 = ascii '!' ↔ u[i]? = some (ascii '!') := by
        intro u i
        rw [List.getD_eq_getElem?_getD]
        cases u[i]? with
        | none => exact iff_of_false (by decide) (by simp)
        | some c => simp
      rw [hget, hget, getElem?_iff h hbang]
    rw [if_pos hmem, if_pos hmem']
    dsimp only
    rw [hlen]
    simp only [getElem?_iff h heq]
    by_cases hfirst : (before (ascii '=') t).length = 0
    · simp only [hfirst, if_true]
    · simp only [hfirst, if_false, hlast]
  · have hmem' : ascii '=' ∉ t := fun h' => hmem ((mem_iff h heq).mpr h')
    rw [if_neg hmem, if_neg hmem']

/-- What is parsed of a conditional that is cut into its names and its operator. -/
theorem condParse_parts {m : CondMem} {w op x y : CStr} {sign : Int} {pos : Nat}
    (hop : condOperator m (w ++ (op ++ (x ++ ascii ':' :: y))) = some (sign, pos))
    (hneg : ¬ (sign < 0 ∧ pos = 0)) (hw : w.length = if sign < 0 then pos - 1 else pos)
    (hlen : w.length + op.length = pos + 1) (hx : ascii ':' ∉ x) :
    condParse m (w ++ (op ++ (x ++ ascii ':' :: y)))
      = some (EXP_ERR_QUERYNVVAR_NOT_FOUND,
          ⟨trimBlanks w, trimBlanks (x ++ m.var2Tail), sign, trimBlanks y, -1⟩) := by
  have htake : (w ++ (op ++ (x ++ ascii ':' :: y))).take (if sign < 0 then pos - 1 else pos) = w := by
    rw [← hw, List.take_left]
  have hdrop : (w ++ (op ++ (x ++ ascii ':' :: y))).drop (pos + 1) = x ++ ascii ':' :: y := by
    rw [← hlen, ← List.length_append, ← List.append_assoc, List.drop_left]
  unfold condParse parseConditional
  rw [hop]
  dsimp only
  rw [if_neg hneg, htake, hdrop, if_pos (List.mem_append_right _ List.mem_cons_self),
    condCompare_undefined, before_append_cons hx, after_append_cons hx]
  rfl

/-- A conditional that is compared can be cut so. -/
theorem exists_condParts {m : CondMem} {body : CStr} {c : Conditional}
    (h : condParse m body = some (EXP_ERR_QUERYNVVAR_NOT_FOUND, c)) :
    ∃ w op x y sign pos, body = w ++ (op ++ (x ++ ascii ':' :: y))
      ∧ condOperator m body = some (sign, pos) ∧ ¬ (sign < 0 ∧ pos = 0)
      ∧ w.length = (if sign < 0 then pos - 1 else pos) ∧ w.length + op.length = pos + 1
      ∧ ascii ':' ∉ x := by
  unfold condParse parseConditional at h
  cases hop : condOperator m body with
  | none =>
      rw [hop] at h
      have hcode : EXP_ERR_NO_EQUAL = EXP_ERR_QUERYNVVAR_NOT_FOUND :=
        congrArg Prod.fst (Option.some.inj h)
      cases hcode
  | some r =>
      obtain ⟨sign, pos⟩ := r
      rw [hop] at h
      simp only at h
      by_cases hneg : sign < 0 ∧ pos = 0
      · rw [if_pos hneg] at h
        cases h
      rw [if_neg hneg] at h
      by_cases hsep : ascii ':' ∈ body.drop (pos + 1)
      · have hpos : pos + 1 < body.length := by
          by_contra hlong
          rw [List.drop_eq_nil_of_le (by omega)] at hsep
          cases hsep
        have hv : (if sign < 0 then pos - 1 else pos) ≤ pos := by split <;> omega
        obtain ⟨v, hveq⟩ : ∃ v, v = if sign < 0 then pos - 1 else pos := ⟨_, rfl⟩
        rw [← hveq] at hv
        refine ⟨body.take v, (body.take (pos + 1)).drop v, before (ascii ':') (body.drop (pos + 1)),
          after (ascii ':') (body.drop (pos + 1)), sign, pos, ?_, rfl, hneg, ?_, ?_,
          not_mem_before _ _⟩
        · have hfront : body.take v = (body.take (pos + 1)).take v := by
            rw [List.take_take, Nat.min_eq_left (by omega)]
          rw [before_append_after hsep, ← List.append_assoc, hfront, List.take_append_drop,
            List.take_append_drop]
        · rw [List.length_take, Nat.min_eq_left (by omega), hveq]
        · rw [List.length_take, List.length_drop, List.length_take]
          omega
      · rw [if_neg hsep] at h
        have hcode : EXP_ERR_NO_COLON = EXP_ERR_QUERYNVVAR_NOT_FOUND :=
          congrArg Prod.fst (Option.some.inj h)
        cases hcode

/-- **A CONDITIONAL WITH ITS NAMES WRITTEN ANOTHER WAY**: what is parsed of it are
these names. -/
theorem exists_respelled {m : CondMem} (htail : NoLetter m.var2Tail) {body : CStr}
    {c : Conditional} (hparse : condParse m body = some (EXP_ERR_QUERYNVVAR_NOT_FOUND, c))
    {f₁ f₂ : UInt8 → UInt8} (hf₁ : KeepsLetters f₁) (hf₂ : KeepsLetters f₂) :
    ∃ body', body.map tolower = body'.map tolower
      ∧ condParse m body' = some (EXP_ERR_QUERYNVVAR_NOT_FOUND,
          { c with var1 := c.var1.map f₁, var2 := c.var2.map f₂ }) := by
  obtain ⟨w, op, x, y, sign, pos, rfl, hop, hneg, hw, hlen, hx⟩ := exists_condParts hparse
  rw [condParse_parts hop hneg hw hlen hx, Option.some.injEq, Prod.mk.injEq] at hparse
  obtain ⟨-, rfl⟩ := hparse
  have hsame : (w ++ (op ++ (x ++ ascii ':' :: y))).map tolower
      = (w.map f₁ ++ (op ++ (x.map f₂ ++ ascii ':' :: y))).map tolower := by
    simp only [List.map_append, hf₁.same w, hf₂.same x]
  have hx' : ascii ':' ∉ x.map f₂ := by
    intro hmem
    obtain ⟨d, hd, hcolon⟩ := List.mem_map.mp hmem
    exact hx ((hf₂.eq_iff (by decide)).mp hcolon ▸ hd)
  refine ⟨_, hsame, ?_⟩
  rw [condOperator_same hsame] at hop
  rw [condParse_parts hop hneg (by rw [List.length_map, hw]) (by rw [List.length_map, hlen]) hx',
    hf₁.trimBlanks, ← hf₂.trimBlanks, List.map_append, hf₂.fixes_text htail]

/-- **A conditional whose operands are spelled**: what is parsed of it, and that it
is another spelling of the conditional. -/
theorem exists_spelled {m : CondMem} (htail : NoLetter m.var2Tail) {body : CStr}
    {c : Conditional} (hparse : condParse m body = some (EXP_ERR_QUERYNVVAR_NOT_FOUND, c))
    (l₁ l₂ : UInt8) :
    ∃ body', body.map tolower = body'.map tolower ∧ BodyRecased m true body body'
      ∧ condParse m body' = some (EXP_ERR_QUERYNVVAR_NOT_FOUND, c.spelled l₁ l₂) := by
  obtain ⟨f₁, hf₁, h₁⟩ := spellName_eq_map l₁ c.var1
  obtain ⟨f₂, hf₂, h₂⟩ := spellName_eq_map l₂ c.var2
  obtain ⟨body', hsame, hparse'⟩ := exists_respelled htail hparse hf₁ hf₂
  rw [← h₁, ← h₂] at hparse'
  refine ⟨body', hsame, ?_, hparse'⟩
  unfold BodyRecased
  rw [if_pos rfl, hparse, hparse']
  exact ⟨rfl, nameRecased_spellName l₁ c.var1, nameRecased_spellName l₂ c.var2, rfl, rfl, rfl⟩

/-- **A LIVE CONDITIONAL CAN BE WRITTEN IN TWO WAYS**, of which one shows its text. -/
theorem CondLive.exists_two {mem : Nat → RoundMem} {i : Nat}
    (htail : NoLetter (mem i).var2Tail) {body : CStr} (hcond : isConditional body = true)
    (h : CondLive (mem i).toCondMem getenv query body) :
    ∃ shown hidden, (body.map tolower = shown.map tolower
          ∧ BodyRecased (mem i).toCondMem true body shown)
      ∧ (body.map tolower = hidden.map tolower ∧ BodyRecased (mem i).toCondMem true body hidden)
      ∧ segValue mem getenv query.spelled i shown ≠ []
      ∧ segValue mem getenv query.spelled i hidden = [] := by
  obtain ⟨c, hparse, htext, hmatters, hdoc⟩ := h
  obtain ⟨shown, hsame, hbody, hshown⟩ := exists_spelled htail hparse 0 0
  have hmatched : (c.spelled 0 0).Matched (findVarValue getenv query.spelled) := by
    obtain ⟨v₁, h₁, v₂, h₂, hmet⟩ := hdoc
    exact ⟨v₁, (findVarValue_spelled c.var1).trans h₁, v₂, (findVarValue_spelled c.var2).trans h₂,
      hmet⟩
  have hvalue := (segValue_conditional getenv query.spelled
    (isConditional_iff hsame ▸ hcond) hshown).1 ⟨rfl, hmatched⟩
  -- one operand is not found if it is not in capitals
  obtain ⟨l₁, l₂, hlost⟩ : ∃ l₁ l₂,
      ¬ (c.spelled l₁ l₂).Matched (findVarValue getenv query.spelled) := by
    rcases hmatters with h | h
    · obtain ⟨l, hl⟩ := h.exists_small
      refine ⟨l, 0, ?_⟩
      rintro ⟨v₁, h₁, -⟩
      exact absurd (hl.symm.trans h₁) (by simp)
    · obtain ⟨l, hl⟩ := h.exists_small
      refine ⟨0, l, ?_⟩
      rintro ⟨v₁, -, v₂, h₂, -⟩
      exact absurd (hl.symm.trans h₂) (by simp)
  obtain ⟨hidden, hsame', hbody', hhidden⟩ := exists_spelled htail hparse l₁ l₂
  refine ⟨shown, hidden, ⟨hsame, hbody⟩, ⟨hsame', hbody'⟩, by rw [hvalue]; exact htext, ?_⟩
  exact (segValue_conditional getenv query.spelled
    (isConditional_iff hsame' ▸ hcond) hhidden).2 fun h => hlost h.2

end Lookups

/-! ## §3. Templates. -/

/-- A piece with its plain name in capitals, but for one letter. -/
def Seg.spelled (l : UInt8) : Seg → Seg
  | .lit t => .lit t
  | .ph b => .ph (if isConditional b = true then b else spellName l b)

/-- No conditional of a template is live. -/
def NoneLive (mem : Nat → RoundMem) (getenv : Env) (query : NvList) : Nat → List Seg → Prop
  | _, [] => True
  | i, .lit t :: segs => NoneLive mem getenv query (i + t.length) segs
  | i, .ph b :: segs =>
      (isConditional b = true → ¬ CondLive (mem (i + 2 + b.length)).toCondMem getenv query b)
        ∧ NoneLive mem getenv query (i + (placeholder b).length) segs

/-- **SAFE TEMPLATES.**  All spellings end at an undefined name; or the case matters
for no plain name in front of where they end and, if they go through, no
conditional is live. -/
def TemplateSafe (mem : Nat → RoundMem) (getenv : Env) (query : NvList) (segs : List Seg) : Prop :=
  sureExit mem getenv query 0 segs = some .undefined
    ∨ ((∀ n ∈ namesInFront mem getenv query 0 segs, ¬ CaseMatters getenv query n)
      ∧ (sureExit mem getenv query 0 segs = none → NoneLive mem getenv query 0 segs))

section Templates

variable {mem : Nat → RoundMem} {getenv : Env} {query query' : NvList}

theorem length_spellName (l : UInt8) (n : CStr) : (spellName l n).length = n.length :=
  (length_iff ((strcmpLcase_eq_zero _ _).mp (nameRecased_spellName l n).same)).symm

variable (mem) in
/-- A template with its plain names spelled is another spelling of it. -/
theorem segsRecased_spelled (l : UInt8) (i : Nat) (segs : List Seg) :
    SegsRecased mem i segs (segs.map (Seg.spelled l)) := by
  induction segs generalizing i with
  | nil => exact .nil i
  | cons seg segs ih =>
      cases seg with
      | lit t => exact .lit t (ih _)
      | ph b =>
          rw [List.map_cons, Seg.spelled]
          by_cases hcond : isConditional b = true
          · rw [if_pos hcond]
            exact .ph rfl (.refl _ _ b) (ih _)
          · have hname := nameRecased_spellName l b
            rw [if_neg hcond]
            refine .ph ((strcmpLcase_eq_zero _ _).mp hname.same) ?_ (ih _)
            unfold BodyRecased
            rw [if_neg hcond]
            exact hname

/-- The second of two pieces has the name of the first in capitals, if it is a plain one. -/
def Capital : Seg → Seg → Prop
  | .ph b, .ph b' => isConditional b = false → b' = spellName 0 b
  | _, _ => True

theorem capital_spelled (segs : List Seg) :
    List.Forall₂ Capital segs (segs.map (Seg.spelled 0)) := by
  rw [List.forall₂_map_right_iff, List.forall₂_same]
  intro seg _
  cases seg with
  | lit t => trivial
  | ph b =>
      intro hplain
      have hcond : ¬ isConditional b = true := by rw [hplain]; decide
      exact if_neg hcond

/-- **In capitals every plain name is found** that the documentation defines. -/
theorem foundInFront_capital {segs segs' : List Seg} (h : List.Forall₂ Capital segs segs')
    (i : Nat) : FoundInFront mem getenv query query.spelled i segs segs' := by
  induction h generalizing i with
  | nil => trivial
  | @cons seg seg' segs segs' hseg _ ih =>
      cases seg with
      | lit t => exact ih _
      | ph b =>
          cases seg' with
          | lit t' => trivial
          | ph b' =>
              rw [FoundInFront]
              by_cases hcond : isConditional b = true
              · rw [if_pos hcond]
                exact fun _ => ih _
              · rw [if_neg hcond]
                have hname : b' = spellName 0 b := hseg (by simpa using hcond)
                exact fun _ => ⟨by rw [hname, findVarValue_spelled], ih _⟩

/-- **With small letters a name in front is lost**, and the run ends there or
further in front. -/
theorem endsUndefined_small {l : UInt8} {n : CStr}
    (hlost : findVarValue getenv query.spelled (spellName l n) = none) {i : Nat} {segs : List Seg}
    (hn : n ∈ namesInFront mem getenv query i segs) :
    EndsUndefined mem getenv query.spelled i (segs.map (Seg.spelled l)) := by
  induction segs generalizing i with
  | nil => cases hn
  | cons seg segs ih =>
      cases seg with
      | lit t => exact ih hn
      | ph b =>
          rw [namesInFront] at hn
          rw [List.map_cons, Seg.spelled]
          by_cases hcond : isConditional b = true
          · rw [if_pos hcond] at hn ⊢
            rw [endsUndefined_conditional hcond]
            by_cases hneg : NegativeName (mem (i + 2 + b.length)).toCondMem b
            · rw [if_pos hneg] at hn
              cases hn
            · rw [if_neg hneg] at hn
              exact ⟨hneg, ih hn⟩
          · have hsame := (strcmpLcase_eq_zero _ _).mp (nameRecased_spellName l b).same
            have hplain : isConditional (spellName l b) = false := by
              rw [← isConditional_iff hsame]
              simpa using hcond
            have hlen : (placeholder (spellName l b)).length = (placeholder b).length := by
              rw [length_placeholder, length_placeholder, length_spellName]
            rw [if_neg hcond] at hn ⊢
            rw [endsUndefined_plain hplain, hlen]
            by_cases hnone : documentedValue getenv query b = none
            · rw [if_pos hnone] at hn
              cases hn
            · rw [if_neg hnone] at hn
              rcases List.mem_cons.mp hn with rfl | hn
              · exact Or.inl hlost
              · exact Or.inr (ih hn)

/-- **A TEMPLATE WITH A LIVE CONDITIONAL** has two spellings of different lengths. -/
theorem exists_two_spellings (htail : ∀ i, NoLetter (mem i).var2Tail) :
    ∀ (segs : List Seg) (i : Nat), ¬ NoneLive mem getenv query i segs →
      ∃ shown hidden, (SegsRecased mem i segs shown ∧ List.Forall₂ Capital segs shown)
        ∧ (SegsRecased mem i segs hidden ∧ List.Forall₂ Capital segs hidden)
        ∧ (expansion mem getenv query.spelled i shown).length
          ≠ (expansion mem getenv query.spelled i hidden).length
  | [], i, h => absurd trivial h
  | .lit t :: segs, i, h => by
      obtain ⟨shown, hidden, ⟨hs, hcs⟩, ⟨hh, hch⟩, hne⟩ := exists_two_spellings htail segs _ h
      refine ⟨.lit t :: shown, .lit t :: hidden, ⟨.lit t hs, .cons trivial hcs⟩,
        ⟨.lit t hh, .cons trivial hch⟩, ?_⟩
      rw [expansion, expansion, List.length_append, List.length_append]
      omega
  | .ph b :: segs, i, h => by
      rw [NoneLive, not_and_or] at h
      by_cases hrest : NoneLive mem getenv query (i + (placeholder b).length) segs
      · -- so it is this conditional, and the rest is spelled in one way
        have hhere := h.resolve_right (not_not_intro hrest)
        rw [Classical.not_imp, not_not] at hhere
        obtain ⟨hcond, hlive⟩ := hhere
        obtain ⟨shown, hidden, ⟨hs, hbs⟩, ⟨hh, hbh⟩, hshown, hhidden⟩ :=
          hlive.exists_two (htail _) hcond
        have hcapital : ∀ b', Capital (.ph b) (.ph b') := by
          intro b' hplain
          rw [hcond] at hplain
          cases hplain
        have hspelled := segsRecased_spelled mem 0 (i + (placeholder b).length) segs
        refine ⟨.ph shown :: segs.map (Seg.spelled 0), .ph hidden :: segs.map (Seg.spelled 0),
          ⟨.ph hs (by rw [hcond]; exact hbs) hspelled, .cons (hcapital _) (capital_spelled segs)⟩,
          ⟨.ph hh (by rw [hcond]; exact hbh) hspelled, .cons (hcapital _) (capital_spelled segs)⟩,
          ?_⟩
        have hpos := List.length_pos_of_ne_nil hshown
        rw [expansion, expansion, ← length_iff hs, ← length_iff hh, length_placeholder,
          length_placeholder, ← length_iff hs, ← length_iff hh, hhidden, List.length_append,
          List.length_append, List.length_nil]
        omega
      · obtain ⟨shown, hidden, ⟨hs, hcs⟩, ⟨hh, hch⟩, hne⟩ := exists_two_spellings htail segs _ hrest
        -- this placeholder is spelled in one way
        have hspelled := segsRecased_spelled mem 0 i [.ph b]
        rw [List.map_singleton, Seg.spelled] at hspelled
        cases hspelled with
        | ph hsame hbody _ =>
            have hhead := capital_spelled [Seg.ph b]
            rw [List.map_singleton, List.forall₂_cons, Seg.spelled] at hhead
            refine ⟨_, _, ⟨.ph hsame hbody hs, .cons hhead.1 hcs⟩,
              ⟨.ph hsame hbody hh, .cons hhead.1 hch⟩, ?_⟩
            rw [expansion, expansion, length_placeholder, ← length_iff hsame, ← length_placeholder,
              List.length_append, List.length_append]
            omega

/-- **What is expanded of a safe template** is the same for every spelling. -/
theorem expansion_inert (hkeys : DistinctKeys query) (hquery : QueryRecased query query') {i : Nat}
    {segs segs' : List Seg} (h : SegsRecased mem i segs segs')
    (hexit : sureExit mem getenv query i segs = none)
    (hinert : ∀ n ∈ namesInFront mem getenv query i segs, ¬ CaseMatters getenv query n)
    (hlive : NoneLive mem getenv query i segs) :
    expansion mem getenv query' i segs' = expansion mem getenv query i segs := by
  induction h with
  | nil i => rfl
  | lit t _ ih => rw [expansion, expansion, ih hexit hinert hlive]
  | @ph i b b' segs segs' hsame hbody _ ih =>
      have hlen := length_iff hsame
      rw [sureExit] at hexit
      rw [namesInFront] at hinert
      rw [expansion, expansion, length_placeholder, ← hlen, ← length_placeholder]
      by_cases hcond : isConditional b = true
      · rw [if_pos hcond] at hexit hinert
        by_cases hneg : NegativeName (mem (i + 2 + b.length)).toCondMem b
        · rw [if_pos hneg] at hexit
          cases hexit
        · rw [if_neg hneg] at hexit hinert
          rw [hcond] at hbody
          rw [ih hexit hinert hlive.2, segValue_inert hkeys hquery hcond
            (isConditional_iff hsame ▸ hcond) hbody (hlive.1 hcond)]
      · rw [if_neg hcond] at hexit hinert
        by_cases hnone : documentedValue getenv query b = none
        · rw [if_pos hnone] at hexit
          cases hexit
        · rw [if_neg hnone] at hexit hinert
          have hno := hinert b List.mem_cons_self
          have hcond' : ¬ isConditional b' = true := isConditional_iff hsame ▸ hcond
          unfold BodyRecased at hbody
          rw [if_neg hcond] at hbody
          have hvalue : segValue mem getenv query' (i + 2 + b.length) b'
              = segValue mem getenv query (i + 2 + b.length) b := by
            unfold segValue
            rw [if_neg hcond, if_neg hcond', found_of_inert hquery hbody hno,
              found_of_inert (.refl query) (.refl b) hno]
          rw [hvalue, ih hexit (fun n hn => hinert n (List.mem_cons_of_mem _ hn)) hlive.2]

end Templates

/-! ## §4. `expand_vars` on the spellings of a template. -/

section Runs

variable {mem : Nat → RoundMem} {getenv : Env} {query : NvList} {segs : List Seg}

theorem bufInit_room (hlen : (expansion mem getenv query 0 segs).length < BLOCKSIZE)
    (g : ExpandGlobals) :
    (bufInit g).out.length + (expansion mem getenv query 0 segs).length < BLOCKSIZE := by
  show 0 + _ < BLOCKSIZE
  omega

variable (hok : SegsOk none segs) (hlen : (expansion mem getenv query 0 segs).length < BLOCKSIZE)

include hok hlen

theorem expandVars_undefined (h : EndsUndefined mem getenv query 0 segs) (g : ExpandGlobals) :
    ∃ r, expandVars mem getenv query g (template segs) = some r
      ∧ r.ret = EXP_ERR_QUERYNVVAR_NOT_FOUND := by
  obtain ⟨⟨b, hleft⟩, hread⟩ := h
  have hrun : expandRun mem getenv query g (template segs)
      = .error (.ret EXP_ERR_QUERYNVVAR_NOT_FOUND b (some b)) := by
    unfold expandRun
    rw [scan_template hok]
    exact run_leftmost segs 0 _ (bufInit_roomy g) (bufInit_room hlen g) hleft hread
  refine ⟨⟨_, template segs, ⟨b, b⟩⟩, ?_, rfl⟩
  rw [expandVars_eq_scan, hrun]
  rfl

theorem expandVars_unreadable (h : ¬ NamesReadable mem getenv query 0 segs) (g : ExpandGlobals) :
    expandVars mem getenv query g (template segs) = none := by
  have hrun : expandRun mem getenv query g (template segs) = .error .crash := by
    unfold expandRun
    rw [scan_template hok]
    exact run_negative segs 0 _ (bufInit_roomy g) (bufInit_room hlen g) h
  rw [expandVars_eq_scan, hrun]

theorem expandVars_sound (h : ∀ t ∈ segTokens 0 segs, Sound mem getenv query t)
    (g : ExpandGlobals) :
    ∃ r, expandVars mem getenv query g (template segs) = some r ∧ r.ret = 0
      ∧ r.str = expansion mem getenv query 0 segs := by
  obtain ⟨s, hrun, hkept, hout⟩ := expandRun_roomy hok h hlen g
  refine ⟨⟨0, s.out, { g with lastvar := s.lastvar }⟩, ?_, rfl, hout⟩
  rw [expandVars_of_run hrun, outText_of_kept hkept]
  rfl

end Runs

section Spellings

variable {mem : Nat → RoundMem} {getenv : Env} {query query' : NvList} {segs segs' : List Seg}
  (hok : SegsOk none segs) (hkeys : DistinctKeys query)
  (hroom : roomNeeded mem getenv query 0 segs < BLOCKSIZE)
  (h : SegsRecased mem 0 segs segs') (hquery : QueryRecased query query')

include hok hkeys hroom h hquery

/-- A spelling of a template that finds its plain names crashes, or comes to its end. -/
theorem spelling_found (hfound : FoundInFront mem getenv query query' 0 segs segs')
    (hexit : sureExit mem getenv query 0 segs ≠ some .undefined) (g : ExpandGlobals) :
    (sureExit mem getenv query 0 segs = some .crash
        ∧ expandVars mem getenv query' g (template segs') = none)
      ∨ (sureExit mem getenv query 0 segs = none
        ∧ ∃ r, expandVars mem getenv query' g (template segs') = some r ∧ r.ret = 0
          ∧ r.str = expansion mem getenv query' 0 segs') := by
  have hok' : SegsOk none segs' := segsOk_shape h.shape rfl hok
  have hlen : (expansion mem getenv query' 0 segs').length < BLOCKSIZE :=
    Nat.lt_of_le_of_lt (length_expansion_le h hkeys hquery) hroom
  cases hcase : sureExit mem getenv query 0 segs with
  | none =>
      exact Or.inr ⟨rfl, expandVars_sound hok' hlen (sound_sure h hfound hcase) g⟩
  | some e =>
      cases e with
      | undefined => exact absurd hcase hexit
      | crash =>
          exact Or.inl ⟨rfl, expandVars_unreadable hok' hlen (unreadable_sure h hfound hcase) g⟩

end Spellings

variable {mem : Nat → RoundMem} {getenv : Env} {query : NvList} {segs : List Seg}

/-- **A SAFE TEMPLATE NOTICES NO CHANGE OF CASE.** -/
theorem expandVars_of_safe (hok : SegsOk none segs) (hkeys : DistinctKeys query)
    (hroom : roomNeeded mem getenv query 0 segs < BLOCKSIZE)
    (hsafe : TemplateSafe mem getenv query segs) {segs' : List Seg} {query' : NvList}
    (h : SegsRecased mem 0 segs segs') (hquery : QueryRecased query query') (g : ExpandGlobals) :
    SameResult (expandVars mem getenv query g (template segs))
      (expandVars mem getenv query' g (template segs')) := by
  have hself : SegsRecased mem 0 segs segs :=
    (segsRecased_iff (List.forall₂_same.mpr fun seg _ => by cases seg <;> exact rfl) 0).mpr
      (List.forall₂_same.mpr fun t _ => by
        cases t with
        | close i b isCond => exact ⟨rfl, rfl, .refl _ _ b⟩
        | put i c => exact rfl
        | opn i => exact rfl
        | fault => exact rfl)
  by_cases hexit : sureExit mem getenv query 0 segs = some .undefined
  · -- both runs end at a name without a value
    have hends : ∀ {t : List Seg} {q : NvList}, SegsRecased mem 0 segs t → QueryRecased query q →
        ∃ r, expandVars mem getenv q g (template t) = some r
          ∧ r.ret = EXP_ERR_QUERYNVVAR_NOT_FOUND := fun ht hq =>
      expandVars_undefined (segsOk_shape ht.shape rfl hok)
        (Nat.lt_of_le_of_lt (length_expansion_le ht hkeys hq) hroom)
        (endsUndefined_sure ht hkeys hq hexit) g
    obtain ⟨r, hr, hret⟩ := hends hself (.refl query)
    obtain ⟨r', hr', hret'⟩ := hends h hquery
    rw [hr, hr']
    exact ⟨hret.trans hret'.symm, fun hzero => absurd (hret.symm.trans hzero) (by decide)⟩
  · obtain ⟨hinert, hlive⟩ := hsafe.resolve_left hexit
    rcases spelling_found hok hkeys hroom hself (.refl query)
        (foundInFront_inert hself (.refl query) hinert) hexit g with
      ⟨hcrash, hr⟩ | ⟨hnone, r, hr, hret, hstr⟩
    · rcases spelling_found hok hkeys hroom h hquery (foundInFront_inert h hquery hinert) hexit g
        with ⟨-, hr'⟩ | ⟨hnone, -⟩
      · rw [hr, hr']
        trivial
      · rw [hcrash] at hnone
        cases hnone
    · rcases spelling_found hok hkeys hroom h hquery (foundInFront_inert h hquery hinert) hexit g
        with ⟨hcrash, -⟩ | ⟨-, r', hr', hret', hstr'⟩
      · rw [hnone] at hcrash
        cases hcrash
      · rw [hr, hr']
        refine ⟨hret.trans hret'.symm, fun _ => ?_⟩
        rw [hstr, hstr', expansion_inert hkeys hquery h hnone hinert (hlive hnone)]

/-- **AND ONLY A SAFE ONE**: any other has two spellings that end differently. -/
theorem safe_of_expandVars (hok : SegsOk none segs) (hkeys : DistinctKeys query)
    (htail : ∀ i, NoLetter (mem i).var2Tail)
    (hroom : roomNeeded mem getenv query 0 segs < BLOCKSIZE) (g : ExpandGlobals)
    (h : ∀ segs' query', SegsRecased mem 0 segs segs' → QueryRecased query query' →
      SameResult (expandVars mem getenv query g (template segs))
        (expandVars mem getenv query' g (template segs'))) :
    TemplateSafe mem getenv query segs := by
  have hquery := queryRecased_spelled query
  by_cases hexit : sureExit mem getenv query 0 segs = some .undefined
  · exact Or.inl hexit
  refine Or.inr ⟨?_, ?_⟩
  · intro n hn hmatters
    -- in capitals the name is found, with small letters it is not
    obtain ⟨l, hlost⟩ := hmatters.exists_small
    have hcapital := segsRecased_spelled mem 0 0 segs
    have hsmall := segsRecased_spelled mem l 0 segs
    obtain ⟨r', hr', hret'⟩ := expandVars_undefined (segsOk_shape hsmall.shape rfl hok)
      (Nat.lt_of_le_of_lt (length_expansion_le hsmall hkeys hquery) hroom)
      (endsUndefined_small hlost hn) g
    have hsame := h _ _ hcapital hquery
    have hsame' := h _ _ hsmall hquery
    rw [hr'] at hsame'
    cases hbase : expandVars mem getenv query g (template segs) with
    | none => rw [hbase] at hsame'; exact hsame'.elim
    | some r =>
        rw [hbase] at hsame hsame'
        rcases spelling_found hok hkeys hroom hcapital hquery
            (foundInFront_capital (capital_spelled segs) 0) hexit g with
          ⟨-, hr⟩ | ⟨-, r'', hr, hret, -⟩
        · rw [hr] at hsame
          exact hsame.elim
        · rw [hr] at hsame
          have hcodes := hret'.symm.trans (hsame'.1.symm.trans (hsame.1.trans hret))
          exact absurd hcodes (by decide)
  · intro hnone
    by_contra hlive
    obtain ⟨shown, hidden, ⟨hs, hcs⟩, ⟨hh, hch⟩, hne⟩ := exists_two_spellings htail segs 0 hlive
    have hends : ∀ {t : List Seg}, SegsRecased mem 0 segs t → List.Forall₂ Capital segs t →
        ∃ r, expandVars mem getenv query.spelled g (template t) = some r ∧ r.ret = 0
          ∧ r.str = expansion mem getenv query.spelled 0 t := by
      intro t ht hct
      rcases spelling_found hok hkeys hroom ht hquery (foundInFront_capital hct 0) hexit g with
        ⟨hcrash, -⟩ | ⟨-, hgo⟩
      · rw [hnone] at hcrash
        cases hcrash
      · exact hgo
    obtain ⟨r₁, hr₁, hret₁, hstr₁⟩ := hends hs hcs
    obtain ⟨r₂, hr₂, hret₂, hstr₂⟩ := hends hh hch
    have hsame₁ := h _ _ hs hquery
    have hsame₂ := h _ _ hh hquery
    rw [hr₁] at hsame₁
    rw [hr₂] at hsame₂
    cases hbase : expandVars mem getenv query g (template segs) with
    | none => rw [hbase] at hsame₁; exact hsame₁.elim
    | some r =>
        rw [hbase] at hsame₁ hsame₂
        have hzero : r.ret = 0 := hsame₁.1.trans hret₁
        have htexts := (hsame₁.2 hzero).symm.trans (hsame₂.2 hzero)
        rw [hstr₁, hstr₂] at htexts
        exact hne (congrArg List.length htexts)

/-! ## §5. Parameter names. -/

theorem noLetterMet_append {query : NvList} {list list' : List CStr} :
    NoLetterMet query (list ++ list') ↔ NoLetterMet query list ∧ NoLetterMet query list' := by
  unfold NoLetterMet
  exact List.forall_mem_append

end Protohand
