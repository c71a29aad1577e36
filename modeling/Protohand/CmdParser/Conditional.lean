/-
  Protohand.CmdParser.Conditional
  ───────────────────────────────
  **CONDITIONALS**, as their schema documents them:

      var[ \t]*[!]=[ \t]*var[ \t]*:[ \t]*value[ \t]*

  The first `=` ends the first name.  A second `=` behind it is skipped, but
  the length of the first name is counted from the last character of the
  operator, so a doubled operator leaves a character in the name.  Behind the
  operator and the `:` only blanks are skipped, not tabs.  The second name is
  copied without its terminator.

    • `parseConditional_at`             — the parse, for any operator,
    • `parseConditional_documented_iff` — when it is the documented one,
    • `conditionals_complementary`      — `=` against `!=`, through `expand_vars`,
    • `parseConditional_depends`        — on the memory behind the second name.
-/
import Protohand.CmdParser.Expand

namespace Protohand

open Text

/-! ## §1. Trimming. -/

/-- What the schema allows around the names: `[ \t]`. -/
def isBlank (c : UInt8) : Bool := c == ascii ' ' || c == ascii '\t'

theorem isspace_of_isBlank {c : UInt8} (h : isBlank c = true) : isspace c = true := by
  unfold isBlank at h
  obtain h | h := Bool.or_eq_true_iff.mp h
  · rw [eq_of_beq h]
    decide
  · rw [eq_of_beq h]
    decide

/-- A text with a character that is no white space is trimmed at its end. -/
theorem trimInPlace_of_mem {s : CStr} {c : UInt8} (hmem : c ∈ s) (hc : isspace c = false) :
    trimInPlace s = s.rdropWhile isspace := by
  unfold trimInPlace
  rw [if_neg]
  intro hnil
  have hall := List.dropWhile_eq_nil_iff.mp hnil c hmem
  rw [hc] at hall
  cases hall

/-- A text with blanks in front of it and white space behind it. -/
theorem trimBlanks_around {p w q : CStr} {c : UInt8} (hp : ∀ x ∈ p, x = ascii ' ')
    (hhead : w.head? ≠ some (ascii ' ')) (hlast : w.getLast? = some c) (hc : isspace c = false)
    (hq : ∀ x ∈ q, isspace x = true) : trimBlanks (p ++ (w ++ q)) = w := by
  obtain ⟨init, rfl⟩ := List.getLast?_eq_some_iff.mp hlast
  have hshield : p ++ ((init ++ [c]) ++ q) = (p ++ init) ++ c :: q := by simp
  have htrim : trimInPlace (p ++ ((init ++ [c]) ++ q)) = p ++ (init ++ [c]) := by
    rw [trimInPlace_of_mem (by simp) hc, hshield, rdropWhile_append_cons hc,
      List.rdropWhile_eq_nil_iff.mpr hq, List.append_assoc]
  unfold trimBlanks
  rw [htrim, List.dropWhile_append_of_pos (fun x hx => by simp [hp x hx])]
  exact List.dropWhile_beq_eq_self_of_head?_ne hhead

/-- The value texts whose white space is what the schema allows around a value:
no tab behind the blanks in front, and no other white space at the end. -/
def PlainValue (text : CStr) : Prop :=
  let d := text.dropWhile (· == ascii ' ')
  d.head? ≠ some (ascii '\t')
    ∧ if text.all isspace = true then d.getLast?.any isBlank = false
      else (d.rdropWhile isBlank).getLast?.any isspace = false

instance (text : CStr) : Decidable (PlainValue text) :=
  inferInstanceAs (Decidable (_ ∧ if text.all isspace = true then _ = false else _ = false))

/-- Where no tab follows the blanks in front, they are all there is to strip there. -/
theorem dropWhile_isBlank {text : CStr}
    (h : (text.dropWhile (· == ascii ' ')).head? ≠ some (ascii '\t')) :
    text.dropWhile isBlank = text.dropWhile (· == ascii ' ') := by
  induction text with
  | nil => rfl
  | cons c text ih =>
      by_cases hc : c = ascii ' '
      · subst hc
        exact ih h
      · have hstay : ¬ (c == ascii ' ') = true := by simpa using hc
        rw [List.dropWhile_cons, if_neg hstay] at h
        rw [List.dropWhile_cons, List.dropWhile_cons, if_neg hstay, if_neg]
        simpa [isBlank, hc] using h

/-- The blanks in front of a text that is not all white space leave a character
that is none. -/
theorem exists_word_dropWhile {text : CStr} (h : ¬ text.all isspace = true) :
    ∃ c ∈ text.dropWhile (· == ascii ' '), isspace c = false := by
  by_contra hnone
  apply h
  rw [List.all_eq_true]
  intro c hc
  rw [← List.takeWhile_append_dropWhile (p := (· == ascii ' ')) (l := text)] at hc
  rcases List.mem_append.mp hc with hc | hc
  · have hblank : c = ascii ' ' := by simpa using List.mem_takeWhile_imp (p := (· == ascii ' ')) hc
    rw [hblank]
    decide
  · by_contra hns
    exact hnone ⟨c, hc, by simpa using hns⟩

/-- The two ways a text is trimmed: `trim` leaves a text of white space alone. -/
theorem trimBlanks_cases (text : CStr) :
    trimBlanks text = if text.all isspace = true then text.dropWhile (· == ascii ' ')
      else (text.dropWhile (· == ascii ' ')).rdropWhile isspace := by
  have hnil : text.dropWhile isspace = [] ↔ text.all isspace = true := by
    rw [List.dropWhile_eq_nil_iff, List.all_eq_true]
  unfold trimBlanks trimInPlace
  by_cases hall : text.all isspace = true
  · rw [if_pos (hnil.mpr hall), if_pos hall]
  · rw [if_neg (fun h => hall (hnil.mp h)), if_neg hall]
    have hblanks : ∀ x ∈ text.takeWhile (· == ascii ' '), (x == ascii ' ') = true :=
      fun x hx => List.mem_takeWhile_imp (p := (· == ascii ' ')) hx
    -- a character that is no white space stands behind the blanks
    have hword := exists_word_dropWhile hall
    calc (text.rdropWhile isspace).dropWhile (· == ascii ' ')
        = ((text.takeWhile (· == ascii ' ') ++ text.dropWhile (· == ascii ' ')).rdropWhile
            isspace).dropWhile (· == ascii ' ') := by rw [List.takeWhile_append_dropWhile]
      _ = ((text.dropWhile (· == ascii ' ')).rdropWhile isspace).dropWhile (· == ascii ' ') := by
          rw [rdropWhile_append hword, List.dropWhile_append_of_pos hblanks]
      _ = (text.dropWhile (· == ascii ' ')).rdropWhile isspace := by
          apply List.dropWhile_beq_eq_self_of_head?_ne
          rw [head?_rdropWhile hword]
          intro hhead
          have hnot := List.head?_dropWhile_not (· == ascii ' ') text
          rw [hhead] at hnot
          exact absurd hnot (by decide)

/-- **WHICH VALUES ARE STRIPPED AS THE SCHEMA HAS IT.** -/
theorem trimBlanks_eq_strip_iff (text : CStr) :
    trimBlanks text = strip isBlank text ↔ PlainValue text := by
  unfold PlainValue
  simp only
  by_cases htab : (text.dropWhile (· == ascii ' ')).head? = some (ascii '\t')
  · -- the tab stays, and nothing stripped starts with one
    have hkept : (trimBlanks text).head? = some (ascii '\t') := by
      rw [trimBlanks_cases]
      split
      · exact htab
      next hall => rw [head?_rdropWhile (exists_word_dropWhile hall), htab]
    constructor
    · intro heq
      rw [heq] at hkept
      exact absurd (head?_strip _ hkept) (by decide)
    · intro h
      exact absurd htab h.1
  · have hstrip : strip isBlank text = (text.dropWhile (· == ascii ' ')).rdropWhile isBlank := by
      rw [strip, dropWhile_isBlank htab]
    rw [and_iff_right htab, trimBlanks_cases, hstrip]
    by_cases hall : text.all isspace = true
    · rw [if_pos hall, if_pos hall, eq_comm, rdropWhile_eq_self_iff_getLast?]
    · rw [if_neg hall, if_neg hall, ← rdropWhile_eq_self_iff_getLast?,
        rdropWhile_rdropWhile (fun _ => isspace_of_isBlank)]

/-- A name: no white space, and none of the characters of the operators. -/
structure IsName (name : CStr) : Prop where
  nonempty : name ≠ []
  plain : ∀ c ∈ name, isspace c = false ∧ c ≠ ascii '=' ∧ c ≠ ascii '!' ∧ c ≠ ascii ':'

/-- The last character of a name is no white space. -/
theorem IsName.exists_last {name : CStr} (h : IsName name) :
    ∃ c, name.getLast? = some c ∧ isspace c = false :=
  ⟨_, List.getLast?_eq_some_getLast h.nonempty, (h.plain _ (List.getLast_mem h.nonempty)).1⟩

/-- A name is what is left of it between blanks and white space. -/
theorem IsName.trimBlanks_eq {name p q : CStr} (h : IsName name) (hp : ∀ x ∈ p, x = ascii ' ')
    (hq : ∀ x ∈ q, isspace x = true) : trimBlanks (p ++ (name ++ q)) = name := by
  obtain ⟨c, hlast, hc⟩ := h.exists_last
  refine trimBlanks_around hp ?_ hlast hc hq
  intro hblank
  exact absurd (h.plain _ (List.mem_of_head? hblank)).1 (by decide)

/-! ## §2. The parse, for any operator. -/

/-- The operators: `=` and `!=`, and each with a second `=`. -/
structure CondOp where
  negated : Bool
  doubled : Bool
  deriving DecidableEq, Repr

/-- How an operator is written. -/
def CondOp.text (op : CondOp) : CStr :=
  (if op.negated = true then [ascii '!'] else [])
    ++ ascii '=' :: (if op.doubled = true then [ascii '='] else [])

/-- The sign that `parse_conditional` gives it. -/
def CondOp.sign (op : CondOp) : Int := if op.negated = true then -1 else 1

/-- What is left of it in the first name. -/
def CondOp.spill (op : CondOp) : CStr :=
  if op.doubled = true then [if op.negated = true then ascii '!' else ascii '='] else []

section Parse

variable {mem : CondMem} {getenv : Env} {query : NvList}

/-- What the first `=` gives, and what stands in front of it. -/
theorem condOperator_append_cons {k : CStr} (hk : ascii '=' ∉ k) (v : CStr) :
    condOperator mem (k ++ ascii '=' :: v)
      = some (if k.getLast?.getD mem.before = ascii '!' then -1 else 1,
          if v.head? = some (ascii '=') then k.length + 1 else k.length) := by
  have hlast : (if k.length = 0 then mem.before else (k ++ ascii '=' :: v).getD (k.length - 1) 0)
      = k.getLast?.getD mem.before := by
    by_cases hne : k.length = 0
    · -- `varname[-1]` is read
      rw [if_pos hne, List.length_eq_zero_iff.mp hne]
      rfl
    · have hlt : k.length - 1 < k.length := by omega
      rw [if_neg hne, List.getD_eq_getElem?_getD, List.getElem?_append_left hlt,
        List.getLast?_eq_getElem?, List.getElem?_eq_getElem hlt]
      rfl
  have hnext : (k ++ ascii '=' :: v)[k.length + 1]? = v.head? := by
    rw [List.getElem?_append_right (by omega), List.head?_eq_getElem?]
    show (ascii '=' :: v)[k.length + 1 - k.length]? = v[0]?
    rw [Nat.add_sub_cancel_left]
    rfl
  unfold condOperator
  rw [if_pos (by simp)]
  simp only [before_append_cons hk, hlast, hnext]

/-- The operator behind a text without `=`. -/
theorem condOperator_at (op : CondOp) {front rest : CStr} (hne : front ≠ [])
    (hfront : ascii '=' ∉ front) (hlast : front.getLast? ≠ some (ascii '!'))
    (hrest : rest.head? ≠ some (ascii '=')) :
    condOperator mem (front ++ (op.text ++ rest))
      = some (op.sign, (front ++ op.text).length - 1) := by
  have hsign : front.getLast?.getD mem.before ≠ ascii '!' := by
    rw [List.getLast?_eq_some_getLast hne] at hlast ⊢
    simpa using hlast
  -- a `!` counts as the last character in front of the `=`
  have hbang : ascii '=' ∉ front ++ [ascii '!'] := by simp [hfront]
  obtain ⟨negated, doubled⟩ := op
  cases negated with
  | false =>
      cases doubled with
      | false =>
          show condOperator mem (front ++ ascii '=' :: rest) = _
          rw [condOperator_append_cons hfront, if_neg hsign, if_neg hrest]
          simp [CondOp.sign, CondOp.text]
      | true =>
          show condOperator mem (front ++ ascii '=' :: (ascii '=' :: rest)) = _
          rw [condOperator_append_cons hfront, if_neg hsign]
          simp [CondOp.sign, CondOp.text]
  | true =>
      have hcut : ∀ v, front ++ ascii '!' :: v = (front ++ [ascii '!']) ++ v := by simp
      cases doubled with
      | false =>
          show condOperator mem (front ++ ascii '!' :: (ascii '=' :: rest)) = _
          rw [hcut, condOperator_append_cons hbang, if_neg hrest]
          simp [CondOp.sign, CondOp.text]
      | true =>
          show condOperator mem (front ++ ascii '!' :: (ascii '=' :: (ascii '=' :: rest))) = _
          rw [hcut, condOperator_append_cons hbang]
          simp [CondOp.sign, CondOp.text]

/-- The first name reaches into a doubled operator, but not to its end. -/
theorem CondOp.text_length (op : CondOp) :
    op.text.length - 1 = if op.sign < 0 then op.spill.length + 1 else op.spill.length := by
  obtain ⟨negated, doubled⟩ := op
  cases negated <;> cases doubled <;> rfl

theorem CondOp.spill_prefix (op : CondOp) : op.spill <+: op.text := by
  obtain ⟨negated, doubled⟩ := op
  cases negated <;> cases doubled <;> decide

theorem CondOp.text_ne_nil (op : CondOp) : op.text ≠ [] := by
  obtain ⟨negated, doubled⟩ := op
  cases negated <;> cases doubled <;> decide

/-- **THE PARSE**, for any operator. -/
theorem parseConditional_at (op : CondOp) {front rest : CStr} (hne : front ≠ [])
    (hfront : ascii '=' ∉ front) (hlast : front.getLast? ≠ some (ascii '!'))
    (hrest : rest.head? ≠ some (ascii '=')) (hcolon : ascii ':' ∈ rest) :
    parseConditional mem getenv query (front ++ (op.text ++ rest))
      = some (condCompare getenv query
          ⟨trimBlanks (front ++ op.spill), trimBlanks (before (ascii ':') rest ++ mem.var2Tail),
            op.sign, trimBlanks (after (ascii ':') rest), -1⟩) := by
  have hfrontPos : 0 < front.length := List.length_pos_of_ne_nil hne
  have htextPos : 0 < op.text.length := List.length_pos_of_ne_nil op.text_ne_nil
  have hpos : (front ++ op.text).length - 1 = front.length + (op.text.length - 1) := by
    rw [List.length_append]
    omega
  -- the length `v1l`: a doubled operator is counted up to its second `=`
  have hv1l : (if op.sign < 0 then (front ++ op.text).length - 1 - 1
      else (front ++ op.text).length - 1) = (front ++ op.spill).length := by
    rw [hpos, op.text_length, List.length_append]
    split <;> omega
  have hvar1 : (front ++ (op.text ++ rest)).take (front ++ op.spill).length
      = front ++ op.spill := by
    obtain ⟨t, ht⟩ := op.spill_prefix
    rw [← ht, ← List.append_assoc, ← List.append_assoc, List.append_assoc _ t, List.take_left]
  have hdrop : (front ++ (op.text ++ rest)).drop ((front ++ op.text).length - 1 + 1) = rest := by
    have hlen : (front ++ op.text).length - 1 + 1 = (front ++ op.text).length := by
      rw [List.length_append]
      omega
    rw [hlen, ← List.append_assoc, List.drop_left]
  unfold parseConditional
  rw [condOperator_at op hne hfront hlast hrest]
  simp only
  rw [if_neg (by omega), hv1l, hvar1, hdrop, if_pos hcolon]
  rfl

/-- Blanks where the schema allows them. -/
def IsPad (p : CStr) : Prop := ∀ c ∈ p, isBlank c = true

theorem IsPad.isspace {p : CStr} (h : IsPad p) : ∀ c ∈ p, isspace c = true :=
  fun c hc => isspace_of_isBlank (h c hc)

theorem IsPad.not_mem {p : CStr} (h : IsPad p) {d : UInt8} (hd : isBlank d = false) : d ∉ p := by
  intro hmem
  rw [h d hmem] at hd
  cases hd

/-- Two names, with blanks around each of them. -/
theorem parseConditional_names (op : CondOp) {p0 n1 p1 p2 n2 p3 : CStr} (h1 : IsName n1)
    (h2 : IsName n2) (hp0 : IsPad p0) (hp1 : IsPad p1) (hp2 : IsPad p2) (hp3 : IsPad p3)
    (text : CStr) :
    parseConditional mem getenv query
        ((p0 ++ (n1 ++ p1)) ++ (op.text ++ ((p2 ++ (n2 ++ p3)) ++ ascii ':' :: text)))
      = some (condCompare getenv query
          ⟨trimBlanks (p0 ++ (n1 ++ p1) ++ op.spill), trimBlanks (p2 ++ (n2 ++ p3) ++ mem.var2Tail),
            op.sign, trimBlanks text, -1⟩) := by
  -- what ends a name stands neither in one nor in the blanks around it
  have hfree : ∀ {d p n q}, isBlank d = false → d ∉ n → IsPad p → IsPad q →
      d ∉ p ++ (n ++ q) := by
    intro d p n q hd hn hp hq hmem
    rcases List.mem_append.mp hmem with hmem | hmem
    · exact hp.not_mem hd hmem
    · rcases List.mem_append.mp hmem with hmem | hmem
      · exact hn hmem
      · exact hq.not_mem hd hmem
  have hfront : ascii '=' ∉ p0 ++ (n1 ++ p1) :=
    hfree (by decide) (fun hm => (h1.plain _ hm).2.1 rfl) hp0 hp1
  have hbang : ascii '!' ∉ p0 ++ (n1 ++ p1) :=
    hfree (by decide) (fun hm => (h1.plain _ hm).2.2.1 rfl) hp0 hp1
  have hequal : ascii '=' ∉ p2 ++ (n2 ++ p3) :=
    hfree (by decide) (fun hm => (h2.plain _ hm).2.1 rfl) hp2 hp3
  have hcolon : ascii ':' ∉ p2 ++ (n2 ++ p3) :=
    hfree (by decide) (fun hm => (h2.plain _ hm).2.2.2 rfl) hp2 hp3
  have hne : p0 ++ (n1 ++ p1) ≠ [] := by simp [h1.nonempty]
  have hhead : ((p2 ++ (n2 ++ p3)) ++ ascii ':' :: text).head? ≠ some (ascii '=') := by
    rw [List.head?_append_of_ne_nil _ (by simp [h2.nonempty])]
    exact fun hh => hequal (List.mem_of_head? hh)
  rw [parseConditional_at op hne hfront (fun hl => hbang (List.mem_of_getLast? hl)) hhead
    (by simp), before_append_cons hcolon, after_append_cons hcolon]

end Parse

/-! ## §3. The documented parse. -/

section Documented

variable {getenv : Env} {query : NvList}

/-- The three texts are never changed by the comparison. -/
theorem condCompare_texts (getenv : Env) (query : NvList) (cond : Conditional) :
    (condCompare getenv query cond).2.var1 = cond.var1
      ∧ (condCompare getenv query cond).2.var2 = cond.var2
      ∧ (condCompare getenv query cond).2.replace = cond.replace := by
  unfold condCompare
  split
  · split
    · exact ⟨rfl, rfl, rfl⟩
    · exact ⟨rfl, rfl, rfl⟩
  · exact ⟨rfl, rfl, rfl⟩

/-- What an operator says about two values. -/
def CondOp.Holds (op : CondOp) (v1 v2 : CStr) : Prop :=
  if op.negated = true then v1.map tolower ≠ v2.map tolower else v1.map tolower = v2.map tolower

instance (op : CondOp) (v1 v2 : CStr) : Decidable (op.Holds v1 v2) :=
  inferInstanceAs (Decidable (if op.negated = true then _ ≠ _ else _ = _))

/-- Where both names are defined, the match is the one the operator asks for. -/
theorem condCompare_defined {cond : Conditional} (op : CondOp) (hsign : cond.sign = op.sign)
    {v1 v2 : CStr} (h1 : findVarValue getenv query cond.var1 = some v1)
    (h2 : findVarValue getenv query cond.var2 = some v2) :
    condCompare getenv query cond
      = (0, { cond with cmatch := if op.Holds v1 v2 then 1 else cond.cmatch }) := by
  have hholds : (cond.sign = 1 ∧ strcmpLcase v1 v2 = 0) ∨ (cond.sign = -1 ∧ strcmpLcase v1 v2 ≠ 0)
      ↔ op.Holds v1 v2 := by
    rw [hsign]
    obtain ⟨negated, doubled⟩ := op
    cases negated <;> simp [CondOp.sign, CondOp.Holds, strcmpLcase_eq_zero]
  unfold condCompare
  rw [h1, h2]
  simp only [hholds]
  split <;> rfl

/-- A conditional as the schema has it.  The blanks around the value are part
of its text. -/
def condBody (n1 p1 : CStr) (op : CondOp) (p2 n2 p3 text : CStr) : CStr :=
  n1 ++ p1 ++ op.text ++ p2 ++ n2 ++ p3 ++ ascii ':' :: text

/-- What the schema makes of it, for the values of the two names. -/
structure ParsedAs (op : CondOp) (n1 n2 text v1 v2 : CStr) (r : Nat × Conditional) : Prop where
  ret : r.1 = 0
  var1 : r.2.var1 = n1
  var2 : r.2.var2 = n2
  replace : r.2.replace = strip isBlank text
  cmatch : r.2.cmatch = 1 ↔ op.Holds v1 v2

/-- What is left of a doubled operator makes another name. -/
theorem trimBlanks_spill_iff (op : CondOp) {n1 p1 : CStr} (h1 : IsName n1) (hp1 : IsPad p1) :
    trimBlanks (n1 ++ p1 ++ op.spill) = n1 ↔ op.doubled = false := by
  obtain ⟨negated, doubled⟩ := op
  cases doubled with
  | false =>
      have hclean : trimBlanks ([] ++ (n1 ++ p1)) = n1 := h1.trimBlanks_eq (by simp) hp1.isspace
      show trimBlanks (n1 ++ p1 ++ []) = n1 ↔ _
      rw [List.append_nil]
      exact iff_of_true hclean rfl
  | true =>
      have hspill : ∃ x, CondOp.spill ⟨negated, true⟩ = [x] ∧ isspace x = false := by
        cases negated
        · exact ⟨ascii '=', rfl, by decide⟩
        · exact ⟨ascii '!', rfl, by decide⟩
      obtain ⟨x, hx, hword⟩ := hspill
      have hhead : (n1 ++ p1 ++ [x]).head? ≠ some (ascii ' ') := by
        rw [List.append_assoc, List.head?_append_of_ne_nil _ h1.nonempty]
        intro hblank
        exact absurd (h1.plain _ (List.mem_of_head? hblank)).1 (by decide)
      have hkept : trimBlanks ([] ++ (n1 ++ p1 ++ [x] ++ [])) = n1 ++ p1 ++ [x] :=
        trimBlanks_around (by simp) hhead List.getLast?_concat hword (by simp)
      rw [List.append_nil, List.nil_append] at hkept
      rw [hx, hkept]
      refine iff_of_false ?_ (by simp)
      intro heq
      -- one character too many
      have hlen := congrArg List.length heq
      rw [List.length_append, List.length_append, List.length_singleton] at hlen
      omega

/-- A tab in front of the second name stays in it. -/
theorem trimBlanks_pad_iff {p2 n2 p3 : CStr} (h2 : IsName n2) (hp2 : IsPad p2) (hp3 : IsPad p3) :
    trimBlanks (p2 ++ (n2 ++ p3)) = n2 ↔ ∀ c ∈ p2, c = ascii ' ' := by
  constructor
  · intro heq
    -- the loop `while (*s == ' ')` stops in front of the first tab
    obtain ⟨a, r, rfl, ha, hcut⟩ := exists_cut (fun c => c != ascii ' ') p2
    have hblanks : ∀ x ∈ a, x = ascii ' ' := fun x hx => by simpa using ha x hx
    obtain rfl | ⟨c, t, rfl, hc⟩ := hcut
    · simpa using hblanks
    · obtain ⟨d, hlast, hd⟩ := h2.exists_last
      have hkept : trimBlanks (a ++ ((c :: t ++ n2) ++ p3)) = c :: t ++ n2 := by
        refine trimBlanks_around hblanks (by simpa using hc) ?_ hd hp3.isspace
        rw [List.getLast?_append, hlast]
        rfl
      rw [List.append_assoc, ← List.append_assoc (c :: t), hkept] at heq
      have hlen := congrArg List.length heq
      rw [List.length_append, List.length_cons] at hlen
      omega
  · intro hblanks
    exact h2.trimBlanks_eq hblanks hp3.isspace

/-- **WHEN A CONDITIONAL IS PARSED AS DOCUMENTED**: where the operator is not
doubled, no tab stands in front of the second name, and the white space around
the value is what the schema allows. -/
theorem parseConditional_documented_iff (op : CondOp) {n1 n2 p1 p2 p3 : CStr} (h1 : IsName n1)
    (h2 : IsName n2) (hp1 : IsPad p1) (hp2 : IsPad p2) (hp3 : IsPad p3) (text : CStr)
    {v1 v2 : CStr} (hv1 : findVarValue getenv query n1 = some v1)
    (hv2 : findVarValue getenv query n2 = some v2) (before : UInt8) :
    (∃ r, parseConditional ⟨before, []⟩ getenv query (condBody n1 p1 op p2 n2 p3 text) = some r
        ∧ ParsedAs op n1 n2 text v1 v2 r)
      ↔ op.doubled = false ∧ (∀ c ∈ p2, c = ascii ' ') ∧ PlainValue text := by
  have hbody : condBody n1 p1 op p2 n2 p3 text
      = ([] ++ (n1 ++ p1)) ++ (op.text ++ ((p2 ++ (n2 ++ p3)) ++ ascii ':' :: text)) := by
    simp [condBody]
  have hparse : parseConditional ⟨before, []⟩ getenv query (condBody n1 p1 op p2 n2 p3 text)
      = some (condCompare getenv query ⟨trimBlanks ([] ++ (n1 ++ p1) ++ op.spill),
          trimBlanks (p2 ++ (n2 ++ p3) ++ []), op.sign, trimBlanks text, -1⟩) := by
    rw [hbody]
    -- in the schema nothing stands in front of the first name
    exact parseConditional_names op h1 h2 (by simp [IsPad]) hp1 hp2 hp3 text
  rw [List.append_nil, List.nil_append] at hparse
  rw [hparse, ← trimBlanks_spill_iff op h1 hp1,
    ← trimBlanks_pad_iff h2 hp2 hp3, ← trimBlanks_eq_strip_iff]
  constructor
  · rintro ⟨r, hr, hparsed⟩
    obtain ⟨hvar1, hvar2, hreplace⟩ := condCompare_texts getenv query
      ⟨trimBlanks (n1 ++ p1 ++ op.spill), trimBlanks (p2 ++ (n2 ++ p3)), op.sign,
        trimBlanks text, -1⟩
    rw [Option.some.inj hr] at hvar1 hvar2 hreplace
    exact ⟨hvar1.symm.trans hparsed.var1, hvar2.symm.trans hparsed.var2,
      hreplace.symm.trans hparsed.replace⟩
  · rintro ⟨hvar1, hvar2, hreplace⟩
    rw [hvar1, hvar2, hreplace, condCompare_defined op rfl hv1 hv2]
    refine ⟨_, rfl, rfl, rfl, rfl, rfl, ?_⟩
    by_cases hholds : op.Holds v1 v2
    · simp [hholds]
    · simp [hholds]

/-- Tabs around the first name, and a line break inside of the value. -/
theorem parseConditional_documented_iff_sample :
    ∃ r, parseConditional ⟨0, []⟩ (fun _ => some (bytes "v")) (nvlistCreate 1)
        (condBody (bytes "env.a") (bytes "\t ") ⟨true, false⟩ (bytes " ") (bytes "env.b")
          (bytes "\t") (bytes " x\ny\t")) = some r
      ∧ ParsedAs ⟨true, false⟩ (bytes "env.a") (bytes "env.b") (bytes " x\ny\t") (bytes "v")
          (bytes "v") r :=
  (parseConditional_documented_iff ⟨true, false⟩ ⟨by decide, by decide +kernel⟩
    ⟨by decide, by decide +kernel⟩ (by unfold IsPad; decide +kernel)
    (by unfold IsPad; decide +kernel) (by unfold IsPad; decide +kernel) _ rfl rfl 0).mpr
    ⟨rfl, by decide +kernel, by decide +kernel⟩

/-- Of `==`, one `=` is left in the first name, and no variable is called so. -/
theorem doubled_operator_undefined :
    let query : NvList := ⟨[some ⟨bytes "a", bytes "v"⟩, some ⟨bytes "b", bytes "v"⟩], 2, 2, 1⟩
    let body := condBody (bytes "a") [] ⟨false, true⟩ [] (bytes "b") [] (bytes "x")
    body = bytes "a==b:x"
      ∧ findVarValue (fun _ => none) query (bytes "a") = some (bytes "v")
      ∧ findVarValue (fun _ => none) query (bytes "b") = some (bytes "v")
      ∧ (parseConditional ⟨0, []⟩ (fun _ => none) query body).map (fun r => (r.1, r.2.var1))
          = some (EXP_ERR_QUERYNVVAR_NOT_FOUND, bytes "a=")
      ∧ ¬ ∃ r, parseConditional ⟨0, []⟩ (fun _ => none) query body = some r
          ∧ ParsedAs ⟨false, true⟩ (bytes "a") (bytes "b") (bytes "x") (bytes "v") (bytes "v") r := by
  intro query body
  have hrun : (parseConditional ⟨0, []⟩ (fun _ => none) query body).map (fun r => (r.1, r.2.var1))
      = some (EXP_ERR_QUERYNVVAR_NOT_FOUND, bytes "a=") := by decide
  refine ⟨by decide, by decide, by decide, hrun, ?_⟩
  rintro ⟨r, hr, hparsed⟩
  rw [hr, Option.map_some, hparsed.ret] at hrun
  exact absurd (Prod.mk.inj (Option.some.inj hrun)).1 (by decide)

end Documented

/-! ## §4. The two operators, through `expand_vars`. -/

/-- A name that neither opens nor closes a placeholder. -/
structure IsVarName (name : CStr) : Prop extends IsName name where
  unmarked : ∀ c ∈ name, c ≠ ascii '$' ∧ c ≠ ascii '{' ∧ c ≠ ascii '}'

/-- A text without white space at its ends that a template can hold as a value. -/
structure IsValue (x : CStr) : Prop where
  nonempty : x ≠ []
  no_close : ascii '}' ∉ x
  no_open : ¬ openMark <:+: x
  head : ∀ c ∈ x.head?, isspace c = false
  last : ∀ c ∈ x.getLast?, isspace c = false

/-- How many spaces stand where. -/
structure Gaps where
  front : Nat
  beforeOp : Nat
  afterOp : Nat
  beforeColon : Nat
  afterColon : Nat
  tail : Nat
  deriving DecidableEq, Repr

def blanks (n : Nat) : CStr := List.replicate n (ascii ' ')

/-- The body of `${p=q:x}`, or of `${p!=q:x}`, with its spaces. -/
def Gaps.body (gs : Gaps) (negated : Bool) (p q x : CStr) : CStr :=
  (blanks gs.front ++ (p ++ blanks gs.beforeOp))
    ++ ((CondOp.mk negated false).text
      ++ ((blanks gs.afterOp ++ (q ++ blanks gs.beforeColon))
        ++ ascii ':' :: (blanks gs.afterColon ++ (x ++ blanks gs.tail))))

/-- The template `${body}` is replaced by `value`. -/
def ExpandsTo (mem : Nat → RoundMem) (getenv : Env) (query : NvList) (g : ExpandGlobals)
    (body value : CStr) : Prop :=
  ∃ r, expandVars mem getenv query g (placeholder body) = some r ∧ r.ret = 0 ∧ r.str = value

theorem blanks_eq (n : Nat) : ∀ c ∈ blanks n, c = ascii ' ' := fun _ hc => List.eq_of_mem_replicate hc

theorem blanks_isPad (n : Nat) : IsPad (blanks n) := by
  intro c hc
  rw [blanks_eq n c hc]
  decide

/-- No marks of a placeholder stand in front of the value. -/
theorem Gaps.front_free (gs : Gaps) (negated : Bool) {p q : CStr} {d : UInt8} (hp : d ∉ p)
    (hq : d ∉ q) (hblank : isBlank d = false) (hop : d ∉ [ascii '!', ascii '=', ascii ':']) :
    d ∉ (blanks gs.front ++ (p ++ blanks gs.beforeOp)) ++ ((CondOp.mk negated false).text
      ++ ((blanks gs.afterOp ++ (q ++ blanks gs.beforeColon))
        ++ ascii ':' :: blanks gs.afterColon)) := by
  have hgap : ∀ n, d ∉ blanks n := fun n => (blanks_isPad n).not_mem hblank
  have htext : d ∉ (CondOp.mk negated false).text := by
    intro hmem
    cases negated
    · simp [CondOp.text] at hmem hop
      exact hop.2.1 hmem
    · simp [CondOp.text] at hmem hop
      rcases hmem with hmem | hmem
      · exact hop.1 hmem
      · exact hop.2.1 hmem
  simp only [List.mem_cons, List.not_mem_nil, or_false, not_or] at hop
  simp [hp, hq, hgap, htext, hop]

theorem Gaps.body_ok (gs : Gaps) (negated : Bool) {p q x : CStr} (hp : IsVarName p)
    (hq : IsVarName q) (hx : IsValue x) (hshort : (gs.body negated p q x).length < 500) :
    BodyOk (gs.body negated p q x) := by
  have hcut : gs.body negated p q x
      = ((blanks gs.front ++ (p ++ blanks gs.beforeOp)) ++ ((CondOp.mk negated false).text
          ++ ((blanks gs.afterOp ++ (q ++ blanks gs.beforeColon))
            ++ ascii ':' :: blanks gs.afterColon))) ++ (x ++ blanks gs.tail) := by
    simp [Gaps.body]
  have htail : ∀ {d}, isBlank d = false → d ∉ blanks gs.tail :=
    fun hd => (blanks_isPad gs.tail).not_mem hd
  refine ⟨?_, ?_, hshort⟩
  · -- a `}` could only stand in the value
    have hfront := gs.front_free negated (fun hm => (hp.unmarked _ hm).2.2 rfl)
      (fun hm => (hq.unmarked _ hm).2.2 rfl) (d := ascii '}') (by decide) (by decide)
    rw [hcut]
    simp only [List.mem_append, not_or] at hfront ⊢
    exact ⟨hfront, hx.no_close, htail (by decide)⟩
  · -- and so could a `${`: no `$` in front of it, no `{` behind it
    have hfront := gs.front_free negated (fun hm => (hp.unmarked _ hm).1 rfl)
      (fun hm => (hq.unmarked _ hm).1 rfl) (d := ascii '$') (by decide) (by decide)
    rw [hcut]
    intro hopen
    exact hx.no_open (pair_infix_of_append_right (htail (by decide))
      (pair_infix_of_append_left hfront hopen))

/-- A body does not start with its operator. -/
theorem Gaps.head_body (gs : Gaps) (negated : Bool) {p q x : CStr} (hp : IsVarName p) :
    (gs.body negated p q x).head? ≠ some (ascii '=') := by
  rw [Gaps.body, List.head?_append_of_ne_nil _ (by simp [hp.nonempty])]
  intro hh
  have hmem := List.mem_of_head? hh
  simp only [List.mem_append] at hmem
  rcases hmem with hm | hm | hm
  · exact absurd (blanks_eq _ _ hm) (by decide)
  · exact (hp.plain _ hm).2.1 rfl
  · exact absurd (blanks_eq _ _ hm) (by decide)

section Complementary

variable {getenv : Env} {query : NvList}

/-- Spaces are trimmed off everywhere. -/
theorem Gaps.parse (gs : Gaps) (negated : Bool) {p q x : CStr} (hp : IsVarName p)
    (hq : IsVarName q) (hx : IsValue x) {v1 v2 : CStr}
    (hv1 : findVarValue getenv query p = some v1) (hv2 : findVarValue getenv query q = some v2)
    {mem : CondMem} (hmem : mem.var2Tail = []) :
    parseConditional mem getenv query (gs.body negated p q x)
      = some (0, ⟨p, q, (CondOp.mk negated false).sign, x,
          if (CondOp.mk negated false).Holds v1 v2 then 1 else -1⟩) := by
  have hvar1 : trimBlanks (blanks gs.front ++ (p ++ blanks gs.beforeOp)) = p :=
    hp.trimBlanks_eq (blanks_eq _) (blanks_isPad _).isspace
  have hvar2 : trimBlanks (blanks gs.afterOp ++ (q ++ blanks gs.beforeColon)) = q :=
    hq.trimBlanks_eq (blanks_eq _) (blanks_isPad _).isspace
  have hvalue : trimBlanks (blanks gs.afterColon ++ (x ++ blanks gs.tail)) = x := by
    refine trimBlanks_around (blanks_eq _) ?_ (List.getLast?_eq_some_getLast hx.nonempty)
      (hx.last _ (List.getLast_mem_getLast? _)) (blanks_isPad _).isspace
    intro hblank
    exact absurd (hx.head _ hblank) (by decide)
  rw [Gaps.body, parseConditional_names _ hp.toIsName hq.toIsName (blanks_isPad _)
    (blanks_isPad _) (blanks_isPad _) (blanks_isPad _), hmem, List.append_nil]
  show some (condCompare getenv query ⟨trimBlanks (_ ++ []), _, _, _, _⟩) = _
  rw [List.append_nil, hvar1, hvar2, hvalue, condCompare_defined ⟨negated, false⟩ rfl hv1 hv2]

/-- **ONE CONDITIONAL**: the value where its operator holds, else nothing. -/
theorem expandVars_conditional (negated : Bool) {p q x : CStr} (hp : IsVarName p)
    (hq : IsVarName q) (hx : IsValue x) {v1 v2 : CStr}
    (hv1 : findVarValue getenv query p = some v1) (hv2 : findVarValue getenv query q = some v2)
    (gs : Gaps) (hshort : (gs.body negated p q x).length < 500) {mem : Nat → RoundMem}
    (hmem : ∀ i, (mem i).var2Tail = []) (g : ExpandGlobals) :
    ExpandsTo mem getenv query g (gs.body negated p q x)
      (if (CondOp.mk negated false).Holds v1 v2 then x else []) := by
  have hcond : isConditional (gs.body negated p q x) = true := by
    simp [isConditional, Gaps.body, CondOp.text]
  have hexp : expansion mem getenv query 0 [.ph (gs.body negated p q x)]
      = if (CondOp.mk negated false).Holds v1 v2 then x else [] := by
    rw [expansion, expansion, List.append_nil, segValue, if_pos hcond,
      gs.parse negated hp hq hx hv1 hv2 (hmem _)]
    simp only
    split <;> rfl
  have hroom : (if (CondOp.mk negated false).Holds v1 v2 then x else []).length < BLOCKSIZE := by
    have hlen : x.length ≤ (gs.body negated p q x).length := by
      simp only [Gaps.body, List.length_append, List.length_cons]
      omega
    unfold BLOCKSIZE
    split
    · omega
    · simp
  have honly : ∀ b, .ph b ∈ [Seg.ph (gs.body negated p q x)] → b = gs.body negated p q x := by
    intro b hb
    simpa using hb
  have hok : SegsOk none [.ph (gs.body negated p q x)] :=
    ⟨gs.body_ok negated hp hq hx hshort, trivial⟩
  obtain ⟨r, hr, hret, hstr⟩ := expandVars_substitutes hok
    (fun b hb => honly b hb ▸ gs.head_body negated hp)
    (fun b hb hplain => by rw [honly b hb, hcond] at hplain; cases hplain) mem
    (by rw [hexp]; exact hroom) g
  refine ⟨r, ?_, hret, hstr.trans hexp⟩
  simpa [template, Seg.text] using hr

end Complementary

/-- **THE OPERATORS ARE COMPLEMENTARY**: one of `=` and `!=` leaves the value and
the other one nothing, and it is the same one with the names exchanged. -/
theorem conditionals_complementary {a b x : CStr} (ha : IsVarName a) (hb : IsVarName b)
    (hx : IsValue x) {getenv : Env} {query : NvList} {v1 v2 : CStr}
    (hv1 : findVarValue getenv query a = some v1) (hv2 : findVarValue getenv query b = some v2) :
    ∃ value : Bool → CStr,
      ((value false = x ∧ value true = []) ∨ (value false = [] ∧ value true = x))
        ∧ ∀ (p q : CStr), (p = a ∧ q = b) ∨ (p = b ∧ q = a) →
          ∀ (negated : Bool) (gs : Gaps), (gs.body negated p q x).length < 500 →
            ∀ (mem : Nat → RoundMem), (∀ i, (mem i).var2Tail = []) → ∀ g,
              ExpandsTo mem getenv query g (gs.body negated p q x) (value negated) := by
  -- each operator leaves the value where it holds, and the other one where it does not
  refine ⟨fun negated => if (CondOp.mk negated false).Holds v1 v2 then x else [], ?_, ?_⟩
  · by_cases heq : v1.map tolower = v2.map tolower
    · left
      simp [CondOp.Holds, heq]
    · right
      simp [CondOp.Holds, heq]
  · intro p q hpq negated gs hshort mem hmem g
    rcases hpq with ⟨rfl, rfl⟩ | ⟨rfl, rfl⟩
    · exact expandVars_conditional negated ha hb hx hv1 hv2 gs hshort hmem g
    · have hcomm : (CondOp.mk negated false).Holds v1 v2 ↔ (CondOp.mk negated false).Holds v2 v1 := by
        unfold CondOp.Holds
        cases negated
        · exact eq_comm
        · exact ne_comm
      simp only [hcomm]
      exact expandVars_conditional negated hb ha hx hv2 hv1 gs hshort hmem g

/-- Values that differ in case only: `=` holds, for a text with `:` and `=` in it. -/
theorem conditionals_complementary_sample :
    let query : NvList := ⟨[some ⟨bytes "a", bytes "Abc"⟩, some ⟨bytes "b", bytes "aBC"⟩], 2, 2, 1⟩
    ∃ value : Bool → CStr,
      ((value false = bytes "/u:x = y" ∧ value true = [])
          ∨ (value false = [] ∧ value true = bytes "/u:x = y"))
        ∧ ∀ (p q : CStr), (p = bytes "a" ∧ q = bytes "b") ∨ (p = bytes "b" ∧ q = bytes "a") →
          ∀ (negated : Bool) (gs : Gaps), (gs.body negated p q (bytes "/u:x = y")).length < 500 →
            ∀ (mem : Nat → RoundMem), (∀ i, (mem i).var2Tail = []) → ∀ g,
              ExpandsTo mem (fun _ => none) query g (gs.body negated p q (bytes "/u:x = y"))
                (value negated) :=
  conditionals_complementary ⟨⟨by decide, by decide +kernel⟩, by decide +kernel⟩
    ⟨⟨by decide, by decide +kernel⟩, by decide +kernel⟩
    ⟨by decide, by decide +kernel, by decide +kernel, by decide +kernel, by decide +kernel⟩ rfl rfl

/-! ## §5. Memory that was not written. -/

/-- More text, and a character that is not dropped, leaves more. -/
theorem length_dropWhile_lt {p : UInt8 → Bool} {x : UInt8} (hx : p x = false) (s u : CStr) :
    (s.dropWhile p).length < ((s ++ (u ++ [x])).dropWhile p).length := by
  induction s with
  | nil =>
      show 0 < ((u ++ [x]).dropWhile p).length
      apply List.length_pos_of_ne_nil
      intro hnil
      have hall := List.dropWhile_eq_nil_iff.mp hnil x (by simp)
      rw [hx] at hall
      cases hall
  | cons c s ih =>
      rw [List.cons_append, List.dropWhile_cons, List.dropWhile_cons]
      split
      · exact ih
      · simp

/-- A trimmed text is shorter than one that ends in a character more. -/
theorem length_trimBlanks_lt {x : UInt8} (hx : isspace x = false) (s : CStr) :
    (trimBlanks s).length < (trimBlanks (s ++ [x])).length := by
  have hprefix : ∃ u, s = trimInPlace s ++ u := by
    unfold trimInPlace
    split
    · exact ⟨[], (List.append_nil s).symm⟩
    · obtain ⟨u, hu⟩ := List.rdropWhile_prefix isspace s
      exact ⟨u, hu.symm⟩
  obtain ⟨u, hu⟩ := hprefix
  have hword : (x == ascii ' ') = false := by
    rw [beq_eq_false_iff_ne]
    rintro rfl
    exact absurd hx (by decide)
  have hkept : trimInPlace (s ++ [x]) = s ++ [x] := by
    rw [trimInPlace_of_mem (by simp) hx, List.rdropWhile_concat_neg _ _ _ (by simp [hx])]
  have hlt := length_dropWhile_lt (p := (· == ascii ' ')) hword (trimInPlace s) u
  unfold trimBlanks
  rw [hkept]
  rwa [← List.append_assoc, ← hu] at hlt

/-- Where both separators are found, the second name is what stands between them
and the memory behind its copy. -/
theorem parseConditional_var2 {mem : CondMem} {getenv : Env} {query : NvList} {body : CStr}
    {sign : Int} {pos : Nat} (hop : condOperator mem body = some (sign, pos))
    (hpos : ¬ (sign < 0 ∧ pos = 0)) (hcolon : ascii ':' ∈ body.drop (pos + 1)) :
    ∃ r, parseConditional mem getenv query body = some r
      ∧ r.2.var2 = trimBlanks (before (ascii ':') (body.drop (pos + 1)) ++ mem.var2Tail) := by
  unfold parseConditional
  rw [hop]
  simp only
  rw [if_neg hpos, if_pos hcolon]
  exact ⟨_, rfl, (condCompare_texts getenv query _).2.1⟩

/-- Where the body has an `=` with a `:` behind it, both are found; `0` in front of
the body is no `!`. -/
theorem exists_condOperator {body : CStr} (heq : ascii '=' ∈ body)
    (hcolon : ascii ':' ∈ after (ascii '=') body) :
    ∃ (sign : Int) (pos : Nat), (∀ tail, condOperator ⟨0, tail⟩ body = some (sign, pos))
      ∧ ¬ (sign < 0 ∧ pos = 0) ∧ ascii ':' ∈ body.drop (pos + 1) := by
  have hcut := before_append_after heq
  have hfree := not_mem_before (ascii '=') body
  generalize before (ascii '=') body = k at hcut hfree
  generalize after (ascii '=') body = v at hcut hcolon
  subst hcut
  refine ⟨if k.getLast?.getD 0 = ascii '!' then -1 else 1,
    if v.head? = some (ascii '=') then k.length + 1 else k.length,
    fun tail => condOperator_append_cons hfree v, ?_, ?_⟩
  · rintro ⟨hsign, hpos⟩
    have hnil : k = [] := by
      apply List.length_eq_zero_iff.mp
      split at hpos <;> omega
    rw [hnil, if_neg (by decide)] at hsign
    omega
  · have hdrop : ∀ n, (k ++ ascii '=' :: v).drop (k.length + (n + 1)) = v.drop n := by
      intro n
      rw [← List.drop_drop, List.drop_left, List.drop_succ_cons]
    split
    next hdouble =>
      -- the second `=` is skipped, and is no `:`
      obtain ⟨rest, rfl⟩ := List.head?_eq_some_iff.mp hdouble
      rw [Nat.add_assoc, hdrop]
      simpa using hcolon
    next => rw [hdrop]; exact hcolon

/-- **EVERY CONDITIONAL DEPENDS ON UNWRITTEN MEMORY.** -/
theorem parseConditional_depends {body : CStr} (heq : ascii '=' ∈ body)
    (hcolon : ascii ':' ∈ after (ascii '=') body) (getenv : Env) (query : NvList) :
    ¬ ∀ m m' : CondMem, parseConditional m getenv query body
      = parseConditional m' getenv query body := by
  intro hsame
  obtain ⟨sign, pos, hop, hpos, hrest⟩ := exists_condOperator heq hcolon
  -- the texts `""` and `"x"` behind the copy are enough to tell two runs apart
  have hread : ∀ tail, ∃ r, parseConditional ⟨0, tail⟩ getenv query body = some r
      ∧ r.2.var2 = trimBlanks (before (ascii ':') (body.drop (pos + 1)) ++ tail) :=
    fun tail => parseConditional_var2 (hop tail) hpos hrest
  obtain ⟨r, hr, hvar2⟩ := hread []
  obtain ⟨r', hr', hvar2'⟩ := hread [ascii 'x']
  have hlt := length_trimBlanks_lt (x := ascii 'x') (by decide)
    (before (ascii ':') (body.drop (pos + 1)))
  rw [hsame _ ⟨0, [ascii 'x']⟩, hr', Option.some.injEq] at hr
  rw [← hvar2', hr, hvar2, List.append_nil] at hlt
  omega

theorem parseConditional_depends_sample :
    ¬ ∀ m m' : CondMem, parseConditional m (fun _ => none) (nvlistCreate 1) (bytes "a=b:y")
      = parseConditional m' (fun _ => none) (nvlistCreate 1) (bytes "a=b:y") :=
  parseConditional_depends (by decide) (by decide) _ _

/-- Two variables with one value: equal with a zero behind the second name, and
not found with an `x` there. -/
theorem unterminated_name_undefined :
    let query : NvList := ⟨[some ⟨bytes "a", bytes "v"⟩, some ⟨bytes "b", bytes "v"⟩], 2, 2, 1⟩
    parseConditional ⟨0, []⟩ (fun _ => none) query (bytes "a=b:y")
        = some (0, ⟨bytes "a", bytes "b", 1, bytes "y", 1⟩)
      ∧ parseConditional ⟨0, bytes "x"⟩ (fun _ => none) query (bytes "a=b:y")
        = some (EXP_ERR_QUERYNVVAR_NOT_FOUND, ⟨bytes "a", bytes "bx", 1, bytes "y", -1⟩)
      ∧ parseConditional ⟨0, []⟩ (fun _ => none) query (bytes "a=b:y")
        ≠ parseConditional ⟨0, bytes "x"⟩ (fun _ => none) query (bytes "a=b:y") := by
  decide

end Protohand
