/-
  Protohand.UriParse.QueryError
  ─────────────────────────────
  **WHEN `parse_query` TAKES ITS ERROR PATH.**

  A comment in `parse_query` says that `nvlist_addstr` finds the `=`, since
  the loop has seen one.  The loop looks into the raw part, `nvlist_addstr`
  into the decoded one, and this ends at its first NUL: a `%00` in front of
  every `=` hides them all (`HidesEqual`).

    • `equal_mem_cstr_iff`  — the decoded part has an `=` unless one is hidden,
    • `parseQueryStep_ok`, `parseQueryStep_error` — one round,
    • `parseQuery_answer`   — the whole loop,
    • `queryAccepted_iff`   — when the error path is not taken.
-/
import Protohand.UriParse.Query

namespace Protohand

open Text

/-! ## §1. Hidden delimiters. -/

/-- The part has an `=`, and a `%00` in front of every `=` it spells. -/
def HidesEqual (part : CStr) : Prop :=
  ascii '=' ∈ part ∧ ∃ u v, part = u ++ (bytes "%00" ++ v) ∧ ascii '=' ∉ u ∧ ¬ HasEscapedEqual u

/-- Nothing behind a NUL belongs to a C string. -/
theorem cstr_append_zero (s t : List UInt8) : cstr (s ++ 0 :: t) = cstr s := by
  unfold cstr
  induction s with
  | nil => simp
  | cons x s ih =>
      rw [List.cons_append, List.takeWhile_cons, List.takeWhile_cons, ih]

/-- What is decoded in front of a `%00` is all that `nvlist_addstr` can see. -/
theorem cstr_urldecode2 (u v : CStr) :
    cstr (urldecode2 (u ++ (bytes "%00" ++ v))) = cstr (urldecode2 u) := by
  have hdec : urldecode2 (u ++ (bytes "%00" ++ v)) = urldecode2 u ++ 0 :: urldecode2 v :=
    urldecode2_append_escape (by decide) (by decide) u v
  rw [hdec, cstr_append_zero]

/-- **THE DECODED PART HAS AN `=`** unless a `%00` hides every one. -/
theorem equal_mem_cstr_iff {part : CStr} (hraw : IsCStr part) (heq : ascii '=' ∈ part) :
    ascii '=' ∈ cstr (urldecode2 part) ↔ ¬ HidesEqual part := by
  constructor
  · intro h hhides
    obtain ⟨_, u, v, hcut, hno, hesc⟩ := hhides
    rw [hcut, cstr_urldecode2] at h
    have hmem : ascii '=' ∈ urldecode2 u := (List.takeWhile_prefix _).subset h
    exact hesc ((equal_mem_urldecode2_iff hno).mp hmem)
  · intro hhides
    by_cases hnul : bytes "%00" <:+: part
    · -- in front of the first `%00` nothing decodes to a NUL
      obtain ⟨u, v, hcut, hfirst⟩ := exists_first_infix (by decide) hnul
      have hu : IsCStr u := hraw.of_isInfix ⟨[], bytes "%00" ++ v, by rw [hcut]; rfl⟩
      rw [hcut, cstr_urldecode2, cstr_of_isCStr (isCStr_urldecode2 hu hfirst)]
      by_contra hno
      have hplain : ascii '=' ∉ u := fun h => hno (equal_mem_urldecode2 h)
      have hesc : ¬ HasEscapedEqual u := fun h => hno ((equal_mem_urldecode2_iff hplain).mpr h)
      exact hhides ⟨heq, u, v, hcut, hplain, hesc⟩
    · rw [cstr_of_isCStr (isCStr_urldecode2 hraw hnul)]
      exact equal_mem_urldecode2 heq

/-! ## §2. The loop over the parts. -/

/-- A round on a part with an `=` is the call of `nvlist_addstr`. -/
theorem parseQueryStep_equal (nvquery : NvList) {part : CStr} (heq : ascii '=' ∈ part) :
    parseQueryStep nvquery part
      = if (nvlistAddstr nvquery (cstr (urldecode2 part)) (ascii '=')).1 < 0 then
          .error (nvlistAddstr nvquery (cstr (urldecode2 part)) (ascii '='))
        else .ok (nvlistAddstr nvquery (cstr (urldecode2 part)) (ascii '=')).2 := by
  unfold parseQueryStep
  rw [if_pos heq]

/-- The part loses its `=` where it is decoded. -/
def LosesEqual (part : CStr) : Prop := ascii '=' ∈ part ∧ ascii '=' ∉ cstr (urldecode2 part)

/-- In a C string that is a part which hides it. -/
theorem losesEqual_iff {part : CStr} (hraw : IsCStr part) :
    LosesEqual part ↔ HidesEqual part := by
  constructor
  · intro ⟨heq, hmem⟩
    by_contra hhides
    exact hmem ((equal_mem_cstr_iff hraw heq).mpr hhides)
  · intro hhides
    exact ⟨hhides.1, fun hmem => (equal_mem_cstr_iff hraw hhides.1).mp hmem hhides⟩

/-- One round on a part that keeps its `=`: `nvlist_addstr` does not refuse it. -/
theorem parseQueryStep_ok {nvquery : NvList} (hwf : nvquery.WF) {part : CStr}
    (h : ¬ LosesEqual part) :
    ∃ nvquery', parseQueryStep nvquery part = .ok nvquery' ∧ nvquery'.WF := by
  by_cases heq : ascii '=' ∈ part
  · have hmem : ascii '=' ∈ cstr (urldecode2 part) := by
      by_contra hmem
      exact h ⟨heq, hmem⟩
    obtain ⟨hret, hwf', _⟩ := nvlistAddstr_spec hwf hmem
    rw [parseQueryStep_equal nvquery heq, if_neg (by omega)]
    exact ⟨_, rfl, hwf'⟩
  · unfold parseQueryStep
    rw [if_neg heq]
    exact ⟨_, rfl, (nvlistAddpair_spec hwf _ _).2.1⟩

/-- One round on a part that loses its `=`: the loop is left with `-1`. -/
theorem parseQueryStep_error (nvquery : NvList) {part : CStr} (h : LosesEqual part) :
    parseQueryStep nvquery part = .error (-1, nvquery) := by
  have hadd : nvlistAddstr nvquery (cstr (urldecode2 part)) (ascii '=') = (-1, nvquery) :=
    if_neg h.2
  rw [parseQueryStep_equal nvquery h.1, hadd]
  rfl

/-- **The run over all parts** goes through exactly if none loses its `=`. -/
theorem parseQuery_run_iff (parts : List CStr) {nvquery : NvList} (hwf : nvquery.WF) :
    ((∃ nvquery', parts.foldlM parseQueryStep nvquery = .ok nvquery')
        ↔ ∀ part ∈ parts, ¬ LosesEqual part)
      ∧ ∀ nvquery', parts.foldlM parseQueryStep nvquery = .ok nvquery' → nvquery'.WF := by
  apply Loop.foldlM_ok_iff NvList.WF (fun part => ¬ LosesEqual part) parts
  · intro part _ nvquery hwf h
    exact parseQueryStep_ok hwf h
  · intro part _ nvquery _ h
    exact ⟨_, parseQueryStep_error nvquery (not_not.mp h)⟩
  · exact hwf

/-- A run that is left has a negative code. -/
theorem parseQuery_run_error {parts : List CStr} {nvquery : NvList} {e : Int × NvList}
    (h : parts.foldlM parseQueryStep nvquery = .error e) : e.1 < 0 := by
  apply Loop.foldlM_error (fun e : Int × NvList => e.1 < 0) parseQueryStep parts nvquery ?_ h
  intro part _ nvquery e he
  by_cases heq : ascii '=' ∈ part
  · rw [parseQueryStep_equal nvquery heq] at he
    split at he
    · next hneg =>
      injection he with he
      rwa [he] at hneg
    · cases he
  · unfold parseQueryStep at he
    rw [if_neg heq] at he
    cases he

/-! ## §3. `parse_query` and `uriparse_parse`. -/

/-- The trimmed parts of a C string are C strings. -/
theorem isCStr_parts {query : CStr} (hc : IsCStr query) :
    ∀ part ∈ (queryParts query).map trim, IsCStr part := by
  intro part hpart
  obtain ⟨raw, hraw, rfl⟩ := List.mem_map.mp hpart
  exact hc.of_isInfix ((strip_isInfix isspace raw).trans (mem_runs hraw).2.2)

/-- **`parse_query` RETURNS 0** exactly if no part hides its `=`. -/
theorem parseQuery_zero_iff {query : CStr} (hc : IsCStr query)
    (hparts : (queryParts query).length ≤ strArrayMax) {nvquery : NvList} (hwf : nvquery.WF) :
    (∃ nvquery', parseQuery query nvquery = some (0, nvquery'))
      ↔ ∀ part ∈ queryParts query, ¬ HidesEqual (trim part) := by
  have hwf₀ := (nvlistResize_spec hwf (queryParts query).length).1
  have hrun := (parseQuery_run_iff ((queryParts query).map trim) hwf₀).1
  have hhides : (∀ part ∈ (queryParts query).map trim, ¬ LosesEqual part)
      ↔ ∀ part ∈ queryParts query, ¬ HidesEqual (trim part) := by
    rw [List.forall_mem_map]
    refine forall₂_congr fun part hpart => not_congr ?_
    exact losesEqual_iff (isCStr_parts hc _ (List.mem_map_of_mem hpart))
  rw [parseQuery_answer hparts, ← hhides, ← hrun]
  by_cases hnil : queryParts query = []
  · rw [if_pos hnil, hnil]
    exact iff_of_true ⟨nvquery, rfl⟩ ⟨_, rfl⟩
  · rw [if_neg hnil]
    cases hloop : ((queryParts query).map trim).foldlM parseQueryStep
        (nvlistResize nvquery (queryParts query).length).2 with
    | ok t => exact iff_of_true ⟨t, rfl⟩ ⟨t, rfl⟩
    | error e =>
        refine iff_of_false ?_ ?_
        · intro h
          obtain ⟨nvquery', h⟩ := h
          have hneg := parseQuery_run_error hloop
          rw [Option.some.inj h] at hneg
          exact Int.lt_irrefl 0 hneg
        · intro h
          obtain ⟨t, ht⟩ := h
          cases ht

/-- **THE ERROR PATH IS NOT TAKEN**: no call of `nvlist_addstr` in the loop answers
a negative number, `parse_query` returns 0, and `uriparse_parse` does not
answer `FOUND_QUERY` for a URI with this query. -/
structure QueryAccepted (query : CStr) : Prop where
  calls : ∀ pre part post nvquery, (queryParts query).map trim = pre ++ part :: post →
    pre.foldlM parseQueryStep (nvlistResize (nvlistCreate 1) (queryParts query).length).2
      = .ok nvquery →
    ascii '=' ∈ part → 0 ≤ (nvlistAddstr nvquery (cstr (urldecode2 part)) (ascii '=')).1
  returns : ∃ nvquery, parseQuery query (nvlistCreate 1) = some (0, nvquery)
  parse : ∀ mem uri ret parsed, uriparseParse mem uri (uriparseCreate uri) = some (ret, parsed) →
    parsed.query = query → ret ≠ foundQuery

/-- `uriparse_parse` answers `FOUND_QUERY` only for a query that is refused. -/
theorem uriparseParse_ne_foundQuery {query : CStr} {nvquery : NvList}
    (h : parseQuery query (nvlistCreate 1) = some (0, nvquery)) {mem : UriMem} {uri : CStr}
    {ret : Nat} {parsed : TUri}
    (hparse : uriparseParse mem uri (uriparseCreate uri) = some (ret, parsed))
    (hquery : parsed.query = query) : ret ≠ foundQuery := by
  unfold uriparseParse at hparse
  simp only at hparse
  split at hparse
  · -- there is no scheme
    cases hparse
    decide
  · split at hparse
    · cases hparse
      decide
    · split at hparse
      · cases hparse
      · next ret' nvquery' hrun =>
        cases hparse
        subst hquery
        have hfirst : parseQuery _ (nvlistCreate 1) = some (ret', nvquery') := hrun
        rw [hfirst, Option.some.injEq, Prod.mk.injEq] at h
        rw [h.1]
        decide

/-- **WHEN THE ERROR PATH IS NOT TAKEN**: exactly if no part has a `%00` in front
of every `=` it spells. -/
theorem queryAccepted_iff {query : CStr} (hc : IsCStr query)
    (hparts : (queryParts query).length ≤ strArrayMax) :
    QueryAccepted query ↔ ∀ part ∈ queryParts query, ¬ HidesEqual (trim part) := by
  have hwf := nvlistCreate_wf 1
  have hzero := parseQuery_zero_iff hc hparts hwf
  constructor
  · intro h
    exact hzero.mp h.returns
  · intro h
    obtain ⟨nvquery, hrun⟩ := hzero.mpr h
    refine ⟨?_, ⟨nvquery, hrun⟩, fun mem uri ret parsed => uriparseParse_ne_foundQuery hrun⟩
    intro pre part post nvquery hcut hreach heq
    -- the list that a call is made on keeps its invariant
    have hraw := isCStr_parts hc
    rw [hcut] at hraw
    have hwf₀ := (nvlistResize_spec hwf (queryParts query).length).1
    have hreached : nvquery.WF :=
      (parseQuery_run_iff pre hwf₀).2 nvquery hreach
    have hmem : part ∈ (queryParts query).map trim := by
      rw [hcut]
      simp
    have hhides : ¬ HidesEqual part := by
      obtain ⟨raw, hin, rfl⟩ := List.mem_map.mp hmem
      exact h raw hin
    exact (nvlistAddstr_spec hreached
      ((equal_mem_cstr_iff (hraw part (by simp)) heq).mpr hhides)).1

/-- A `%00` behind an `=`, or in a part without one, does no harm. -/
theorem queryAccepted_iff_sample :
    QueryAccepted (bytes "a=%00&b%00&c%3D%00=d")
      ↔ ∀ part ∈ queryParts (bytes "a=%00&b%00&c%3D%00=d"), ¬ HidesEqual (trim part) :=
  queryAccepted_iff (by decide) (by decide)

/-- A `%00` in front of the only `=`. -/
theorem queryAccepted_fails :
    (parseQuery (bytes "a%00=b") (nvlistCreate 1)).map Prod.fst = some (-1)
      ∧ (uriparseParse ⟨[], [], []⟩ (bytes "p:h?a%00=b") (uriparseCreate (bytes "p:h?a%00=b"))).map
          (fun r => (r.1, r.2.query)) = some (foundQuery, bytes "a%00=b")
      ∧ ¬ QueryAccepted (bytes "a%00=b") := by
  have hparse : (parseQuery (bytes "a%00=b") (nvlistCreate 1)).map Prod.fst = some (-1) := by
    decide +kernel
  refine ⟨hparse, by decide +kernel, ?_⟩
  intro h
  obtain ⟨nvquery, hret⟩ := h.returns
  rw [hret, Option.map_some, Option.some.injEq] at hparse
  have hzero : (0 : Int) = -1 := hparse
  omega

end Protohand
