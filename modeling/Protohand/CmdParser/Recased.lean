/-
  Protohand.CmdParser.Recased
  ───────────────────────────
  **TEMPLATES THAT DIFFER IN THE CASE OF NAMES**, piece by piece.

  `Casing` compares the tokens of two texts.  Here both are templates, and what
  their pieces stand for is compared with what the documentation says of a name
  (`documentedValue`).

    • `templateRecased_iff`  — the spellings of a template are templates,
    • `documented_of_found`  — what any spelling finds is the documented value,
    • `segValue_inert`       — a conditional that is not live says the same,
    • `EndsUndefined`        — when a run ends at an undefined name.
-/
import Mathlib.Data.List.Nodup
import Protohand.Casing
import Protohand.CmdParser.Failure

namespace Protohand

open Text

/-! ## §1. Texts without their case. -/

theorem tolower_eq_iff {c d : UInt8} (hd : isLetter d = false) : tolower c = d ↔ c = d := by
  obtain ⟨hletter, hsame, -⟩ := tolower_cases c
  obtain ⟨-, hfix, -⟩ := tolower_cases d
  constructor
  · rintro rfl
    exact (hsame (hletter ▸ hd)).symm
  · rintro rfl
    exact hfix hd

/-- A text without letters stands in a text wherever it stands in its lower case. -/
theorem infix_tolower {w : CStr} (hw : NoLetter w) (s : CStr) :
    w <:+: s.map tolower ↔ w <:+: s := by
  have hlower : w.map tolower = w := by
    conv_rhs => rw [← List.map_id w]
    exact List.map_congr_left fun c hc => (tolower_eq_iff (hw c hc)).mpr rfl
  constructor
  · rintro ⟨a, b, hab⟩
    obtain ⟨l, b', rfl, hl, -⟩ := List.map_eq_append_iff.mp hab.symm
    obtain ⟨a', w', rfl, -, hw'⟩ := List.map_eq_append_iff.mp hl
    refine ⟨a', b', ?_⟩
    rw [hw.eq_of_strcmpLcase ((strcmpLcase_eq_zero _ _).mpr (hlower.trans hw'.symm))]
  · intro h
    exact hlower ▸ h.map tolower

section SameCase

variable {s t : CStr} (h : s.map tolower = t.map tolower)

include h

theorem infix_iff {w : CStr} (hw : NoLetter w) : w <:+: s ↔ w <:+: t := by
  rw [← infix_tolower hw s, ← infix_tolower hw t, h]

theorem mem_iff {d : UInt8} (hd : isLetter d = false) : d ∈ s ↔ d ∈ t := by
  have hw : NoLetter [d] := by simpa [NoLetter] using hd
  rw [← List.singleton_infix_iff, infix_iff h hw, List.singleton_infix_iff]

theorem length_iff : s.length = t.length := by
  simpa using congrArg List.length h

theorem getElem?_iff {d : UInt8} (hd : isLetter d = false) (i : Nat) :
    s[i]? = some d ↔ t[i]? = some d := by
  have hget : (s.map tolower)[i]? = (t.map tolower)[i]? := by rw [h]
  rw [List.getElem?_map, List.getElem?_map] at hget
  have hkey : ∀ x : Option UInt8, x = some d ↔ x.map tolower = some d := by
    intro x
    cases x with
    | none => simp
    | some c => simp [tolower_eq_iff hd]
  rw [hkey s[i]?, hget, ← hkey]

theorem isConditional_iff : isConditional s = isConditional t := by
  unfold isConditional
  rw [Bool.eq_iff_iff]
  have hcolon : isLetter (ascii ':') = false := by decide
  have hequal : isLetter (ascii '=') = false := by decide
  simp only [Bool.and_eq_true, decide_eq_true_eq, mem_iff h hcolon, mem_iff h hequal]

theorem negativeName_iff (m : CondMem) : NegativeName m s ↔ NegativeName m t := by
  have heq : isLetter (ascii '=') = false := by decide
  unfold NegativeName
  rw [List.head?_eq_getElem?, List.head?_eq_getElem?, getElem?_iff h heq, ne_eq,
    getElem?_iff h heq]

theorem bodyOk_iff (hok : BodyOk s) : BodyOk t where
  no_close := fun hmem => hok.no_close ((mem_iff h (by decide)).mpr hmem)
  no_open := fun hin => hok.no_open ((infix_iff h (by decide +kernel)).mpr hin)
  short := length_iff h ▸ hok.short

end SameCase

/-! ## §2. The spellings of a template. -/

/-- Two pieces of a template that read the same without their case. -/
def SameShape : Seg → Seg → Prop
  | .lit t, .lit t' => t.map tolower = t'.map tolower
  | .ph b, .ph b' => b.map tolower = b'.map tolower
  | _, _ => False

/-- Pieces of a template that starts at index `i`, that differ in the case of
the names in their placeholders. -/
inductive SegsRecased (mem : Nat → RoundMem) : Nat → List Seg → List Seg → Prop
  | nil (i : Nat) : SegsRecased mem i [] []
  | lit {i : Nat} (t : CStr) {segs segs' : List Seg}
      (h : SegsRecased mem (i + t.length) segs segs') :
      SegsRecased mem i (.lit t :: segs) (.lit t :: segs')
  | ph {i : Nat} {b b' : CStr} {segs segs' : List Seg} (hsame : b.map tolower = b'.map tolower)
      (hbody : BodyRecased (mem (i + 2 + b.length)).toCondMem (isConditional b) b b')
      (h : SegsRecased mem (i + (placeholder b).length) segs segs') :
      SegsRecased mem i (.ph b :: segs) (.ph b' :: segs')

section Spellings

variable {mem : Nat → RoundMem}

theorem length_placeholder (b : CStr) : (placeholder b).length = b.length + 3 := by
  unfold placeholder openMark closeMark
  simp

theorem SegsRecased.shape {i : Nat} {segs segs' : List Seg} (h : SegsRecased mem i segs segs') :
    List.Forall₂ SameShape segs segs' := by
  induction h with
  | nil i => exact .nil
  | lit t _ ih => exact .cons rfl ih
  | ph hsame _ _ ih => exact .cons hsame ih

/-- What a template is made of does not depend on the case of its letters. -/
theorem segsOk_shape {segs segs' : List Seg} (h : List.Forall₂ SameShape segs segs')
    {prev prev' : Option UInt8} (hprev : prev.map tolower = prev'.map tolower)
    (hok : SegsOk prev segs) : SegsOk prev' segs' := by
  induction h generalizing prev prev' with
  | nil => trivial
  | @cons seg seg' segs segs' hseg _ ih =>
      cases seg with
      | lit t =>
          cases seg' with
          | ph b' => exact hseg.elim
          | lit t' =>
              obtain ⟨hclose, hopen, hrest⟩ := hok
              have hcontext : (prev.toList ++ t).map tolower = (prev'.toList ++ t').map tolower := by
                rw [List.map_append, List.map_append, show t.map tolower = t'.map tolower from hseg]
                congr 1
                cases prev <;> cases prev' <;> simp_all
              refine ⟨fun hmem => hclose ((mem_iff hseg (by decide)).mpr hmem),
                fun hin => hopen ((infix_iff hcontext (by decide +kernel)).mpr hin), ih ?_ hrest⟩
              rw [← List.getLast?_map, ← List.getLast?_map, hcontext]
      | ph b =>
          cases seg' with
          | lit t' => exact hseg.elim
          | ph b' => exact ⟨bodyOk_iff hseg hok.1, ih rfl hok.2⟩

/-- A text that reads like a template without its case is one. -/
theorem exists_shape : ∀ (segs : List Seg) (str' : CStr),
    (template segs).map tolower = str'.map tolower →
    ∃ segs', str' = template segs' ∧ List.Forall₂ SameShape segs segs'
  | [], str', h => by
      refine ⟨[], ?_, .nil⟩
      exact List.map_eq_nil_iff.mp h.symm
  | seg :: segs, str', h => by
      rw [template_cons, List.map_append] at h
      obtain ⟨front, rest, rfl, hfront, hrest⟩ := List.map_eq_append_iff.mp h.symm
      obtain ⟨segs', rfl, hshape⟩ := exists_shape segs rest hrest.symm
      cases seg with
      | lit t => exact ⟨.lit front :: segs', rfl, .cons hfront.symm hshape⟩
      | ph b =>
          -- the marks of the placeholder have no letters
          have hmarks : (Seg.ph b).text.map tolower
              = openMark ++ (b.map tolower ++ closeMark) := by
            show (openMark ++ (b ++ closeMark)).map tolower = _
            rw [List.map_append, List.map_append]
            rfl
          rw [hmarks] at hfront
          obtain ⟨o, l, rfl, ho, hl⟩ := List.map_eq_append_iff.mp hfront
          obtain ⟨b', c, rfl, hb, hc⟩ := List.map_eq_append_iff.mp hl
          have hopen : openMark = o :=
            NoLetter.eq_of_strcmpLcase (by decide +kernel) ((strcmpLcase_eq_zero _ _).mpr ho.symm)
          have hclose : closeMark = c :=
            NoLetter.eq_of_strcmpLcase (by decide +kernel) ((strcmpLcase_eq_zero _ _).mpr hc.symm)
          refine ⟨.ph b' :: segs', ?_, .cons hb.symm hshape⟩
          rw [← hopen, ← hclose]
          rfl

/-- A text whose characters are put one by one is the same in both. -/
theorem eq_of_puts : ∀ {t t' : CStr} {i : Nat} {ts ts' : List Token}, t.length = t'.length →
    List.Forall₂ (TokenRecased mem) (puts i t ++ ts) (puts i t' ++ ts') →
    t = t' ∧ List.Forall₂ (TokenRecased mem) ts ts'
  | [], [], _, _, _, _, h => ⟨rfl, h⟩
  | c :: t, c' :: t', i, ts, ts', hlen, h => by
      rw [puts_cons, puts_cons, List.cons_append, List.cons_append] at h
      obtain ⟨hput, hrest⟩ := List.forall₂_cons.mp h
      have hsame : Token.put i c = Token.put i c' := hput
      injection hsame with _ hc
      obtain ⟨ht, hts⟩ := eq_of_puts (by simpa using hlen) hrest
      exact ⟨by rw [hc, ht], hts⟩
  | [], _ :: _, _, _, _, hlen, _ => by simp at hlen
  | _ :: _, [], _, _, _, hlen, _ => by simp at hlen

/-- **Spellings by their tokens**, where the texts read the same. -/
theorem segsRecased_iff {segs segs' : List Seg} (hshape : List.Forall₂ SameShape segs segs')
    (i : Nat) : SegsRecased mem i segs segs'
      ↔ List.Forall₂ (TokenRecased mem) (segTokens i segs) (segTokens i segs') := by
  induction hshape generalizing i with
  | nil => exact iff_of_true (.nil i) .nil
  | @cons seg seg' segs segs' hseg hsegs ih =>
      cases seg with
      | lit t =>
          cases seg' with
          | ph b' => exact hseg.elim
          | lit t' =>
              have hlen : t.length = t'.length := length_iff hseg
              constructor
              · intro h
                cases h with
                | lit _ h =>
                    refine List.rel_append ?_ ((ih _).mp h)
                    exact List.forall₂_same.mpr fun tok htok => by
                      obtain ⟨ci, -, rfl⟩ := List.mem_map.mp htok
                      exact rfl
              · intro h
                obtain ⟨rfl, hrest⟩ := eq_of_puts hlen h
                exact .lit t ((ih _).mpr hrest)
      | ph b =>
          cases seg' with
          | lit t' => exact hseg.elim
          | ph b' =>
              have hlen : b.length = b'.length := length_iff hseg
              have hcond : isConditional b = isConditional b' := isConditional_iff hseg
              have hnext : i + (placeholder b').length = i + (placeholder b).length := by
                rw [length_placeholder, length_placeholder, hlen]
              constructor
              · intro h
                cases h with
                | ph hsame hbody h =>
                    refine .cons rfl (.cons rfl (.cons ⟨by rw [hlen], hcond, hbody⟩ ?_))
                    show List.Forall₂ _ _ (segTokens (i + (placeholder b').length) segs')
                    rw [hnext]
                    exact (ih _).mp h
              · intro h
                obtain ⟨-, h⟩ := List.forall₂_cons.mp h
                obtain ⟨-, h⟩ := List.forall₂_cons.mp h
                obtain ⟨hclose, h⟩ := List.forall₂_cons.mp h
                obtain ⟨-, -, hbody⟩ := hclose
                change List.Forall₂ _ _ (segTokens (i + (placeholder b').length) segs') at h
                rw [hnext] at h
                exact .ph hseg hbody ((ih _).mpr h)

theorem template_shape {segs segs' : List Seg} (h : List.Forall₂ SameShape segs segs') :
    (template segs).map tolower = (template segs').map tolower := by
  induction h with
  | nil => rfl
  | @cons seg seg' segs segs' hseg _ ih =>
      rw [template_cons, template_cons, List.map_append, List.map_append, ih]
      congr 1
      cases seg with
      | lit t =>
          cases seg' with
          | lit t' => exact hseg
          | ph b' => exact hseg.elim
      | ph b =>
          cases seg' with
          | lit t' => exact hseg.elim
          | ph b' =>
              show (openMark ++ (b ++ closeMark)).map tolower
                = (openMark ++ (b' ++ closeMark)).map tolower
              rw [List.map_append, List.map_append, List.map_append, List.map_append,
                show b.map tolower = b'.map tolower from hseg]

/-- **THE SPELLINGS OF A TEMPLATE** are the templates whose pieces differ in the case
of their names. -/
theorem templateRecased_iff {segs : List Seg} (hok : SegsOk none segs) (str' : CStr) :
    TemplateRecased mem (template segs) str'
      ↔ ∃ segs', str' = template segs' ∧ SegsRecased mem 0 segs segs' := by
  constructor
  · intro h
    obtain ⟨segs', rfl, hshape⟩ := exists_shape segs str' ((strcmpLcase_eq_zero _ _).mp h.same)
    refine ⟨segs', rfl, (segsRecased_iff hshape 0).mpr ?_⟩
    have htokens := h.tokens
    rwa [scan_template hok, scan_template (segsOk_shape hshape rfl hok)] at htokens
  · rintro ⟨segs', rfl, h⟩
    refine ⟨(strcmpLcase_eq_zero _ _).mpr (template_shape h.shape), ?_⟩
    rw [scan_template hok, scan_template (segsOk_shape h.shape rfl hok)]
    exact (segsRecased_iff h.shape 0).mp h

end Spellings

/-! ## §3. What a spelling finds. -/

/-- No two keys of the query are the same without their case. -/
def DistinctKeys (query : NvList) : Prop := (query.pairs.map fun p => p.key.map tolower).Nodup

instance (query : NvList) : Decidable (DistinctKeys query) :=
  inferInstanceAs (Decidable (List.Nodup _))

section Values

variable {getenv : Env} {query query' : NvList}

theorem NameRecased.refl (n : CStr) : NameRecased n n :=
  ⟨(strcmpLcase_eq_zero _ _).mpr rfl, fun _ => rfl⟩

/-- A pair of one spelling of a query is a pair of the other. -/
theorem QueryRecased.mem (h : QueryRecased query query') {p' : NvPair} (hp : p' ∈ query'.pairs) :
    ∃ p ∈ query.pairs, strcmpLcase p.key p'.key = 0 ∧ p.value = p'.value := by
  unfold QueryRecased at h
  generalize query.pairs = pairs at h ⊢
  generalize query'.pairs = pairs' at h hp
  induction h with
  | nil => cases hp
  | @cons p q ps qs hpq _ ih =>
      rcases List.mem_cons.mp hp with rfl | hp
      · exact ⟨p, List.mem_cons_self, hpq⟩
      · obtain ⟨p, hmem, hp⟩ := ih hp
        exact ⟨p, List.mem_cons_of_mem _ hmem, hp⟩

/-- **What any spelling finds** is the documented value. -/
theorem documented_of_found (hkeys : DistinctKeys query) (hquery : QueryRecased query query')
    {n n' v : CStr} (hn : NameRecased n n') (h : findVarValue getenv query' n' = some v) :
    documentedValue getenv query n = some v := by
  unfold findVarValue at h
  unfold documentedValue
  by_cases henv : bytes "env." <+: n ∨ bytes "env." <+: n'
  · obtain rfl := hn.env henv
    have hpre : bytes "env." <+: n := henv.elim id id
    rw [if_pos hpre] at h ⊢
    exact h
  · rw [not_or] at henv
    rw [if_neg henv.2] at h
    rw [if_neg henv.1]
    obtain ⟨p', hfind, rfl⟩ := Option.map_eq_some_iff.mp h
    have hkey : p'.key = n' := by simpa using List.find?_some hfind
    obtain ⟨p, hp, hsame, hvalue⟩ := hquery.mem (List.mem_of_find?_eq_some hfind)
    rw [strcmpLcase_eq_zero, hkey] at hsame
    have hname := (strcmpLcase_eq_zero _ _).mp hn.same
    have hmeet : strcmpLcase n p.key = 0 := (strcmpLcase_eq_zero _ _).mpr (hname.trans hsame.symm)
    -- no other key is met
    cases hfirst : query.pairs.find? (fun p => strcmpLcase n p.key = 0) with
    | none => exact absurd (decide_eq_true hmeet) (List.find?_eq_none.mp hfirst p hp)
    | some q =>
        have hq : strcmpLcase n q.key = 0 := by simpa using List.find?_some hfirst
        have heq : q = p := List.inj_on_of_nodup_map hkeys (List.mem_of_find?_eq_some hfirst) hp
          (((strcmpLcase_eq_zero _ _).mp hq).symm.trans ((strcmpLcase_eq_zero _ _).mp hmeet))
        rw [Option.map_some, heq, hvalue]

/-- A name whose case does not matter is found in every spelling. -/
theorem found_of_inert (hquery : QueryRecased query query') {n n' : CStr} (hn : NameRecased n n')
    (hinert : ¬ CaseMatters getenv query n) :
    findVarValue getenv query' n' = documentedValue getenv query n := by
  rw [← looksUpAlike_recased hquery n n' (Or.inr hinert) hn]
  by_cases hnone : documentedValue getenv query n = none
  · rw [hnone, findVarValue_none hnone]
  · unfold findVarValue documentedValue
    split
    · rfl
    · next henv =>
        -- it has no letter, so there is one way to write it
        have hno : NoLetter n := by
          by_contra hletter
          exact hinert ⟨henv, hletter, hnone⟩
        congr 1
        refine congrArg (List.find? · query.pairs) (funext fun p => ?_)
        rw [Bool.eq_iff_iff, decide_eq_true_iff, decide_eq_true_iff, strcmp_eq_zero]
        constructor
        · rintro rfl
          exact (strcmpLcase_eq_zero _ _).mpr rfl
        · intro h
          exact (hno.eq_of_strcmpLcase h).symm

/-- The comparison of a conditional comes out. -/
def CondMet (sign : Int) (v1 v2 : CStr) : Prop :=
  (sign = 1 ∧ strcmpLcase v1 v2 = 0) ∨ (sign = -1 ∧ strcmpLcase v1 v2 ≠ 0)

instance (sign : Int) (v1 v2 : CStr) : Decidable (CondMet sign v1 v2) :=
  inferInstanceAs (Decidable (_ ∨ _))

/-- Both variables are found, and the comparison comes out. -/
def Conditional.Matched (c : Conditional) (value : CStr → Option CStr) : Prop :=
  ∃ v1 ∈ value c.var1, ∃ v2 ∈ value c.var2, CondMet c.sign v1 v2

variable (getenv query) in
/-- A parse without lookups notes no match, and a comparison notes it where there is one. -/
theorem condCompare_matched (c : Conditional) (hc : c.cmatch = -1) :
    ((condCompare getenv query c).2.cmatch = 1 ↔ c.Matched (findVarValue getenv query))
      ∧ (condCompare getenv query c).2.replace = c.replace := by
  unfold condCompare Conditional.Matched CondMet
  cases h1 : findVarValue getenv query c.var1 with
  | none => simp [hc]
  | some v1 =>
      cases h2 : findVarValue getenv query c.var2 with
      | none => simp [hc]
      | some v2 =>
          simp only [Option.mem_def, Option.some.injEq, exists_eq_left']
          split
          · next hmet => exact ⟨iff_of_true rfl hmet, rfl⟩
          · next hmet => exact ⟨iff_of_false (by rw [hc]; decide) hmet, rfl⟩

theorem condParse_cmatch {m : CondMem} {body : CStr} {r : Nat × Conditional}
    (h : condParse m body = some r) : r.2.cmatch = -1 := by
  obtain ⟨c, hc, hr⟩ := parseConditional_cases h
  rcases hr with rfl | rfl | rfl
  · exact hc
  · exact hc
  · rw [condCompare_undefined]
    exact hc

variable {mem : Nat → RoundMem}

variable (getenv query) in
/-- **What a conditional stands for**: its text where it matches, else nothing. -/
theorem segValue_conditional {i : Nat} {body : CStr} (hcond : isConditional body = true)
    {code : Nat} {c : Conditional} (hparse : condParse (mem i).toCondMem body = some (code, c)) :
    (code = EXP_ERR_QUERYNVVAR_NOT_FOUND ∧ c.Matched (findVarValue getenv query) →
        segValue mem getenv query i body = c.replace)
      ∧ (¬ (code = EXP_ERR_QUERYNVVAR_NOT_FOUND ∧ c.Matched (findVarValue getenv query)) →
        segValue mem getenv query i body = []) := by
  have hc : c.cmatch = -1 := condParse_cmatch hparse
  obtain ⟨hmatch, hreplace⟩ := condCompare_matched getenv query c hc
  unfold segValue
  rw [if_pos hcond, parseConditional_eq, hparse, Option.map_some]
  by_cases hcode : code = EXP_ERR_QUERYNVVAR_NOT_FOUND
  · dsimp only
    rw [if_pos hcode, hreplace, and_iff_right hcode, ← hmatch]
    exact ⟨fun h => if_pos h, fun h => if_neg h⟩
  · have hno : ¬ c.cmatch = 1 := by rw [hc]; decide
    dsimp only
    rw [if_neg hcode]
    exact ⟨fun h => absurd h.1 hcode, fun _ => if_neg hno⟩

theorem segValue_unparsed {i : Nat} {body : CStr} (hcond : isConditional body = true)
    (hparse : condParse (mem i).toCondMem body = none) : segValue mem getenv query i body = [] := by
  unfold segValue
  rw [if_pos hcond, parseConditional_eq, hparse]
  rfl

/-- **A conditional is live**: its names have values that make it show a text, and
the case of one of them matters. -/
def CondLive (mem : CondMem) (getenv : Env) (query : NvList) (body : CStr) : Prop :=
  ∃ c, condParse mem body = some (EXP_ERR_QUERYNVVAR_NOT_FOUND, c) ∧ c.replace ≠ []
    ∧ (CaseMatters getenv query c.var1 ∨ CaseMatters getenv query c.var2)
    ∧ c.Matched (documentedValue getenv query)

/-- What is parsed of one spelling of a conditional, from another. -/
theorem BodyRecased.parsed {m : CondMem} {b b' : CStr} (h : BodyRecased m true b b') {code : Nat}
    {c : Conditional} (hparse : condParse m b = some (code, c)) :
    ∃ c', condParse m b' = some (code, c') ∧ CondRecased c c' := by
  unfold BodyRecased at h
  rw [if_pos rfl, hparse] at h
  cases hparse' : condParse m b' with
  | none => rw [hparse'] at h; exact h.elim
  | some r' =>
      obtain ⟨code', c'⟩ := r'
      rw [hparse'] at h
      obtain ⟨rfl, hc⟩ := h
      exact ⟨c', rfl, hc⟩

theorem BodyRecased.unparsed {m : CondMem} {b b' : CStr} (h : BodyRecased m true b b')
    (hparse : condParse m b = none) : condParse m b' = none := by
  unfold BodyRecased at h
  rw [if_pos rfl, hparse] at h
  cases hparse' : condParse m b' with
  | none => rfl
  | some r' => rw [hparse'] at h; exact h.elim

theorem BodyRecased.refl (m : CondMem) (isCond : Bool) (b : CStr) : BodyRecased m isCond b b := by
  unfold BodyRecased
  split
  · cases condParse m b with
    | none => trivial
    | some r => exact ⟨rfl, .refl _, .refl _, rfl, rfl, rfl⟩
  · exact .refl b

/-- A match in any spelling is one for the documentation. -/
theorem Conditional.Matched.documented (hkeys : DistinctKeys query)
    (hquery : QueryRecased query query') {c c' : Conditional} (hc : CondRecased c c')
    (h : c'.Matched (findVarValue getenv query')) : c.Matched (documentedValue getenv query) := by
  obtain ⟨v1, h1, v2, h2, hmet⟩ := h
  exact ⟨v1, documented_of_found hkeys hquery hc.var1 h1, v2,
    documented_of_found hkeys hquery hc.var2 h2, hc.sign ▸ hmet⟩

/-- **A conditional that is not live** says the same in every spelling. -/
theorem segValue_inert (hkeys : DistinctKeys query) (hquery : QueryRecased query query') {i : Nat}
    {b b' : CStr} (hcond : isConditional b = true) (hcond' : isConditional b' = true)
    (hbody : BodyRecased (mem i).toCondMem true b b')
    (hlive : ¬ CondLive (mem i).toCondMem getenv query b) :
    segValue mem getenv query' i b' = segValue mem getenv query i b := by
  cases hparse : condParse (mem i).toCondMem b with
  | none =>
      rw [segValue_unparsed hcond hparse, segValue_unparsed hcond' (hbody.unparsed hparse)]
  | some r =>
      obtain ⟨code, c⟩ := r
      obtain ⟨c', hparse', hc⟩ := hbody.parsed hparse
      obtain ⟨hshown', hhidden'⟩ :=
        segValue_conditional getenv query' hcond' hparse'
      obtain ⟨hshown, hhidden⟩ :=
        segValue_conditional getenv query hcond hparse
      by_cases hempty : c.replace = []
      · -- it has nothing to show
        have hnil : segValue mem getenv query i b = [] := by
          by_cases h : code = EXP_ERR_QUERYNVVAR_NOT_FOUND ∧ c.Matched (findVarValue getenv query)
          · rw [hshown h, hempty]
          · exact hhidden h
        rw [hnil]
        by_cases h : code = EXP_ERR_QUERYNVVAR_NOT_FOUND ∧ c'.Matched (findVarValue getenv query')
        · rw [hshown' h, ← hc.replace, hempty]
        · exact hhidden' h
      · have hsame : code = EXP_ERR_QUERYNVVAR_NOT_FOUND →
            (c'.Matched (findVarValue getenv query') ↔ c.Matched (findVarValue getenv query)) := by
          intro hcode
          have hself : CondRecased c c := ⟨.refl _, .refl _, rfl, rfl, rfl⟩
          by_cases hdoc : c.Matched (documentedValue getenv query)
          · -- so the case of neither name matters
            have hneither : ¬ (CaseMatters getenv query c.var1 ∨ CaseMatters getenv query c.var2) :=
              fun h => hlive ⟨c, hcode ▸ hparse, hempty, h, hdoc⟩
            rw [not_or] at hneither
            have hfound : ∀ {q : NvList} {d : Conditional}, QueryRecased query q →
                CondRecased c d → d.Matched (findVarValue getenv q) := by
              intro q d hq hd
              obtain ⟨v1, h1, v2, h2, hmet⟩ := hdoc
              exact ⟨v1, (found_of_inert hq hd.var1 hneither.1).trans h1, v2,
                (found_of_inert hq hd.var2 hneither.2).trans h2, hd.sign ▸ hmet⟩
            exact iff_of_true (hfound hquery hc) (hfound (.refl query) hself)
          · exact iff_of_false (fun h => hdoc (h.documented hkeys hquery hc))
              (fun h => hdoc (h.documented hkeys (.refl query) hself))
        by_cases h : code = EXP_ERR_QUERYNVVAR_NOT_FOUND ∧ c.Matched (findVarValue getenv query)
        · rw [hshown h, hshown' ⟨h.1, (hsame h.1).mpr h.2⟩, hc.replace]
        · rw [hhidden h, hhidden' fun h' => h ⟨h'.1, (hsame h'.1).mp h'.2⟩]

end Values

/-! ## §4. How the spellings end. -/

section Ends

variable (mem : Nat → RoundMem) (getenv : Env) (query : NvList)

/-- How every spelling ends, if one with all its names found does not go through:
at a plain name without a documented value, or at a conditional without a
first length. -/
inductive SureExit where
  | undefined | crash
  deriving DecidableEq, Repr

instance (m : CondMem) (body : CStr) : Decidable (NegativeName m body) :=
  inferInstanceAs (Decidable (_ ∧ _ ∧ _))

def sureExit : Nat → List Seg → Option SureExit
  | _, [] => none
  | i, .lit t :: segs => sureExit (i + t.length) segs
  | i, .ph b :: segs =>
      if isConditional b = true then
        if NegativeName (mem (i + 2 + b.length)).toCondMem b then some .crash
        else sureExit (i + (placeholder b).length) segs
      else if documentedValue getenv query b = none then some .undefined
      else sureExit (i + (placeholder b).length) segs

/-- The plain names in front of it. -/
def namesInFront : Nat → List Seg → List CStr
  | _, [] => []
  | i, .lit t :: segs => namesInFront (i + t.length) segs
  | i, .ph b :: segs =>
      if isConditional b = true then
        if NegativeName (mem (i + 2 + b.length)).toCondMem b then []
        else namesInFront (i + (placeholder b).length) segs
      else if documentedValue getenv query b = none then []
      else b :: namesInFront (i + (placeholder b).length) segs

/-- The bytes a placeholder shows at most. -/
def longestValue (i : Nat) (body : CStr) : Nat :=
  if isConditional body = true then
    ((condParse (mem i).toCondMem body).map fun r => r.2.replace.length).getD 0
  else ((documentedValue getenv query body).map List.length).getD 0

/-- The room that a template needs, in any spelling. -/
def roomNeeded : Nat → List Seg → Nat
  | _, [] => 0
  | i, .lit t :: segs => t.length + roomNeeded (i + t.length) segs
  | i, .ph b :: segs =>
      longestValue mem getenv query (i + 2 + b.length) b
        + roomNeeded (i + (placeholder b).length) segs

/-- The run over a template ends at its leftmost undefined name. -/
def EndsUndefined (i : Nat) (segs : List Seg) : Prop :=
  (∃ b, leftmostUndefined getenv query segs = some b) ∧ NamesReadable mem getenv query i segs

/-- Another spelling finds each plain name in front of the sure exit. -/
def FoundInFront (query' : NvList) : Nat → List Seg → List Seg → Prop
  | i, .lit t :: segs, _ :: segs' => FoundInFront query' (i + t.length) segs segs'
  | i, .ph b :: segs, .ph b' :: segs' =>
      if isConditional b = true then
        ¬ NegativeName (mem (i + 2 + b.length)).toCondMem b →
          FoundInFront query' (i + (placeholder b).length) segs segs'
      else documentedValue getenv query b ≠ none →
        findVarValue getenv query' b' = documentedValue getenv query b
          ∧ FoundInFront query' (i + (placeholder b).length) segs segs'
  | _, _, _ => True

variable {mem getenv query} {query' : NvList}

/-- A plain name comes first in what ends a run, undefined or not. -/
theorem endsUndefined_plain {i : Nat} {b : CStr} {segs : List Seg}
    (hplain : isConditional b = false) :
    EndsUndefined mem getenv query i (.ph b :: segs)
      ↔ findVarValue getenv query b = none
        ∨ EndsUndefined mem getenv query (i + (placeholder b).length) segs := by
  have hno : ¬ isConditional b = true := by rw [hplain]; decide
  unfold EndsUndefined
  rw [leftmostUndefined, NamesReadable, if_neg hno]
  by_cases hundef : findVarValue getenv query b = none
  · rw [if_pos ⟨hplain, hundef⟩]
    exact iff_of_true ⟨⟨b, rfl⟩, fun h => absurd hundef h⟩ (Or.inl hundef)
  · rw [if_neg fun h => hundef h.2, or_iff_right hundef]
    exact and_congr_right fun _ => ⟨fun h => h hundef, fun h _ => h⟩

theorem endsUndefined_conditional {i : Nat} {b : CStr} {segs : List Seg}
    (hcond : isConditional b = true) :
    EndsUndefined mem getenv query i (.ph b :: segs)
      ↔ ¬ NegativeName (mem (i + 2 + b.length)).toCondMem b
        ∧ EndsUndefined mem getenv query (i + (placeholder b).length) segs := by
  have hno : ¬ (isConditional b = false ∧ findVarValue getenv query b = none) := by
    rw [hcond]
    exact fun h => absurd h.1 (by decide)
  unfold EndsUndefined
  rw [leftmostUndefined, NamesReadable, if_pos hcond, if_neg hno]
  exact and_left_comm

section Spelled

variable {i : Nat} {segs segs' : List Seg} (h : SegsRecased mem i segs segs')

include h

/-- **No spelling gets past a name without a value.** -/
theorem endsUndefined_sure (hkeys : DistinctKeys query) (hquery : QueryRecased query query')
    (hexit : sureExit mem getenv query i segs = some .undefined) :
    EndsUndefined mem getenv query' i segs' := by
  induction h with
  | nil i => cases hexit
  | lit t _ ih => exact ih hexit
  | @ph i b b' segs segs' hsame hbody _ ih =>
      have hlen := length_iff hsame
      have hnext : (placeholder b').length = (placeholder b).length := by
        rw [length_placeholder, length_placeholder, hlen]
      rw [sureExit] at hexit
      by_cases hcond : isConditional b = true
      · rw [if_pos hcond] at hexit
        by_cases hneg : NegativeName (mem (i + 2 + b.length)).toCondMem b
        · rw [if_pos hneg] at hexit
          cases hexit
        · rw [if_neg hneg] at hexit
          rw [endsUndefined_conditional (isConditional_iff hsame ▸ hcond), ← hlen, hnext,
            ← negativeName_iff hsame]
          exact ⟨hneg, ih hexit⟩
      · have hplain : isConditional b = false := by simpa using hcond
        rw [if_neg hcond] at hexit
        rw [endsUndefined_plain (isConditional_iff hsame ▸ hplain), hnext]
        by_cases hnone : documentedValue getenv query b = none
        · -- nothing is found in any spelling
          left
          unfold BodyRecased at hbody
          rw [if_neg hcond] at hbody
          cases hfound : findVarValue getenv query' b' with
          | none => rfl
          | some v =>
              rw [documented_of_found hkeys hquery hbody hfound] at hnone
              cases hnone
        · rw [if_neg hnone] at hexit
          exact Or.inr (ih hexit)

/-- **A spelling that finds its names** comes to the conditional it crashes at. -/
theorem unreadable_sure (hfound : FoundInFront mem getenv query query' i segs segs')
    (hexit : sureExit mem getenv query i segs = some .crash) :
    ¬ NamesReadable mem getenv query' i segs' := by
  induction h with
  | nil i => cases hexit
  | lit t _ ih => exact ih hfound hexit
  | @ph i b b' segs segs' hsame hbody _ ih =>
      have hlen := length_iff hsame
      have hnext : (placeholder b').length = (placeholder b).length := by
        rw [length_placeholder, length_placeholder, hlen]
      rw [sureExit] at hexit
      rw [FoundInFront] at hfound
      rw [NamesReadable, ← isConditional_iff hsame, ← hlen, hnext, ← negativeName_iff hsame]
      by_cases hcond : isConditional b = true
      · rw [if_pos hcond] at hexit hfound ⊢
        by_cases hneg : NegativeName (mem (i + 2 + b.length)).toCondMem b
        · exact fun hread => hread.1 hneg
        · rw [if_neg hneg] at hexit
          exact fun hread => ih (hfound hneg) hexit hread.2
      · rw [if_neg hcond] at hexit hfound ⊢
        by_cases hnone : documentedValue getenv query b = none
        · rw [if_pos hnone] at hexit
          cases hexit
        · rw [if_neg hnone] at hexit
          obtain ⟨hvalue, hrest⟩ := hfound hnone
          exact fun hread => ih hrest hexit (hread (hvalue ▸ hnone))

/-- **A spelling that finds its names** goes through, where nothing ends every one. -/
theorem sound_sure (hfound : FoundInFront mem getenv query query' i segs segs')
    (hexit : sureExit mem getenv query i segs = none) :
    ∀ t ∈ segTokens i segs', Sound mem getenv query' t := by
  induction h with
  | nil i => exact fun t ht => absurd ht List.not_mem_nil
  | lit text _ ih =>
      intro t ht
      rcases List.mem_append.mp ht with ht | ht
      · obtain ⟨ci, -, rfl⟩ := List.mem_map.mp ht
        trivial
      · exact ih hfound hexit t ht
  | @ph i b b' segs segs' hsame hbody _ ih =>
      have hlen := length_iff hsame
      have hnext : (placeholder b').length = (placeholder b).length := by
        rw [length_placeholder, length_placeholder, hlen]
      rw [sureExit] at hexit
      rw [FoundInFront] at hfound
      have hgo : Sound mem getenv query' (.close (i + 2 + b'.length) b' (isConditional b'))
          ∧ ∀ t ∈ segTokens (i + (placeholder b').length) segs', Sound mem getenv query' t := by
        rw [sound_close_iff, ← isConditional_iff hsame, ← hlen, hnext, ← negativeName_iff hsame]
        by_cases hcond : isConditional b = true
        · rw [if_pos hcond] at hexit hfound ⊢
          by_cases hneg : NegativeName (mem (i + 2 + b.length)).toCondMem b
          · rw [if_pos hneg] at hexit
            cases hexit
          · rw [if_neg hneg] at hexit
            exact ⟨hneg, ih (hfound hneg) hexit⟩
        · rw [if_neg hcond] at hexit hfound ⊢
          by_cases hnone : documentedValue getenv query b = none
          · rw [if_pos hnone] at hexit
            cases hexit
          · rw [if_neg hnone] at hexit
            obtain ⟨hvalue, hrest⟩ := hfound hnone
            exact ⟨hvalue ▸ hnone, ih hrest hexit⟩
      intro t ht
      rcases List.mem_append.mp ht with ht | ht
      · simp only [List.mem_cons, List.not_mem_nil, or_false] at ht
        obtain rfl | rfl | rfl := ht
        · trivial
        · trivial
        · exact hgo.1
      · exact hgo.2 t ht

/-- Names whose case does not matter are found in every spelling. -/
theorem foundInFront_inert (hquery : QueryRecased query query')
    (hinert : ∀ b ∈ namesInFront mem getenv query i segs, ¬ CaseMatters getenv query b) :
    FoundInFront mem getenv query query' i segs segs' := by
  induction h with
  | nil i => trivial
  | lit t _ ih => exact ih hinert
  | @ph i b b' segs segs' hsame hbody _ ih =>
      rw [namesInFront] at hinert
      rw [FoundInFront]
      by_cases hcond : isConditional b = true
      · rw [if_pos hcond] at hinert ⊢
        intro hneg
        rw [if_neg hneg] at hinert
        exact ih hinert
      · unfold BodyRecased at hbody
        rw [if_neg hcond] at hinert hbody ⊢
        intro hnone
        rw [if_neg hnone] at hinert
        exact ⟨found_of_inert hquery hbody (hinert b List.mem_cons_self),
          ih fun n hn => hinert n (List.mem_cons_of_mem _ hn)⟩

/-- **No spelling needs more room.** -/
theorem length_expansion_le (hkeys : DistinctKeys query) (hquery : QueryRecased query query') :
    (expansion mem getenv query' i segs').length ≤ roomNeeded mem getenv query i segs := by
  induction h with
  | nil i => exact Nat.le_refl 0
  | lit t _ ih =>
      rw [expansion, List.length_append]
      exact Nat.add_le_add_left ih _
  | @ph i b b' segs segs' hsame hbody _ ih =>
      have hlen := length_iff hsame
      have hnext : (placeholder b').length = (placeholder b).length := by
        rw [length_placeholder, length_placeholder, hlen]
      rw [expansion, List.length_append, ← hlen, hnext]
      refine Nat.add_le_add ?_ ih
      unfold longestValue
      by_cases hcond : isConditional b = true
      · have hcond' : isConditional b' = true := isConditional_iff hsame ▸ hcond
        rw [hcond] at hbody
        rw [if_pos hcond]
        cases hparse : condParse (mem (i + 2 + b.length)).toCondMem b with
        | none =>
            rw [segValue_unparsed hcond' (hbody.unparsed hparse)]
            exact Nat.zero_le _
        | some r =>
            obtain ⟨code, c⟩ := r
            obtain ⟨c', hparse', hc⟩ := hbody.parsed hparse
            obtain ⟨hshown, hhidden⟩ :=
              segValue_conditional getenv query' hcond' hparse'
            by_cases hshows : code = EXP_ERR_QUERYNVVAR_NOT_FOUND
                ∧ c'.Matched (findVarValue getenv query')
            · rw [hshown hshows, ← hc.replace]
              exact Nat.le_refl _
            · rw [hhidden hshows]
              exact Nat.zero_le _
      · have hcond' : ¬ isConditional b' = true := isConditional_iff hsame ▸ hcond
        unfold BodyRecased at hbody
        unfold segValue
        rw [if_neg hcond] at hbody ⊢
        rw [if_neg hcond']
        cases hfound : findVarValue getenv query' b' with
        | none => exact Nat.zero_le _
        | some v =>
            rw [documented_of_found hkeys hquery hbody hfound]
            exact Nat.le_refl _

end Spelled

end Ends

end Protohand
