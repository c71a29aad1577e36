/-
  Protohand.UriParse.Lengths
  ──────────────────────────
  **HOW LONG THE PARTS OF A URI ARE**: no longer than the URI, unless its query
  or its fragment is empty and ends it, for then the part is what the memory
  holds.

    • `parseQuery_lengths` — the pairs of a query, against its text,
    • `accepted_lengths`   — the parts of a URI, the name of its section and the
      pairs of its query,
    • `uriparseParse_cases` — which URIs are refused, and with which code.
-/
import Protohand.UriParse.QueryError
import Protohand.UriParse.Leak

namespace Protohand

open Text

/-! ## §1. The pairs of a query. -/

/-- Decoding makes no text longer. -/
theorem length_urldecode2_le (src : CStr) : (urldecode2 src).length ≤ src.length := by
  fun_induction urldecode2 src with
  | case1 => exact Nat.le_refl _
  | case2 c => exact Nat.le_refl _
  | case3 c d => exact Nat.le_refl _
  | case4 c a b src _ ih =>
      simp only [List.length_cons]
      omega
  | case5 c a b src _ ih =>
      simp only [List.length_cons] at ih ⊢
      omega

theorem length_cstr_le (block : List UInt8) : (cstr block).length ≤ block.length :=
  (List.takeWhile_prefix _).length_le

/-- The pair takes no more than the text, and one character less for its `=`
where there is a value. -/
def NvPair.Within (p : NvPair) (n : Nat) : Prop :=
  p.key.length + p.value.length ≤ n ∧ (p.value ≠ [] → p.key.length + p.value.length + 1 ≤ n)

theorem NvPair.Within.mono {p : NvPair} {m n : Nat} (h : p.Within m) (hmn : m ≤ n) : p.Within n :=
  ⟨h.1.trans hmn, fun hne => (h.2 hne).trans hmn⟩

theorem within_cut {s : CStr} {d : UInt8} (hd : d ∈ s) :
    (NvPair.mk (before d s) (after d s)).Within s.length := by
  have hlen := congrArg List.length (before_append_after hd)
  rw [List.length_append, List.length_cons] at hlen
  constructor
  · dsimp only
    omega
  · intro _
    dsimp only
    omega

/-- What a round of the loop stores is a pair of its part. -/
theorem parseQueryStep_within {nvquery nvquery' : NvList} (hwf : nvquery.WF) {part : CStr}
    (h : parseQueryStep nvquery part = .ok nvquery') :
    nvquery'.WF ∧ ∃ p : NvPair, nvquery'.pairs = nvquery.pairs ++ [p] ∧ p.Within part.length := by
  have hdecoded : (cstr (urldecode2 part)).length ≤ part.length :=
    (length_cstr_le _).trans (length_urldecode2_le part)
  by_cases heq : ascii '=' ∈ part
  -- the `=` is looked for before decoding, and again in the decoded pair
  · rw [parseQueryStep_equal nvquery heq] at h
    by_cases hmem : ascii '=' ∈ cstr (urldecode2 part)
    · obtain ⟨hret, hwf', hpairs⟩ := nvlistAddstr_spec hwf hmem
      rw [if_neg (by omega)] at h
      obtain rfl : (nvlistAddstr nvquery (cstr (urldecode2 part)) (ascii '=')).2 = nvquery' := by
        injection h
      exact ⟨hwf', _, hpairs, (within_cut hmem).mono hdecoded⟩
    · -- without a `=` the answer is negative
      have hadd : nvlistAddstr nvquery (cstr (urldecode2 part)) (ascii '=') = (-1, nvquery) :=
        if_neg hmem
      rw [hadd] at h
      cases h
  · unfold parseQueryStep at h
    rw [if_neg heq] at h
    obtain rfl : (nvlistAddpair nvquery (cstr (urldecode2 part)) []).2 = nvquery' := by injection h
    obtain ⟨-, hwf', hpairs⟩ := nvlistAddpair_spec hwf (cstr (urldecode2 part)) []
    exact ⟨hwf', _, hpairs, hdecoded, fun hne => absurd rfl hne⟩

/-- The loop over the parts: a pair for each. -/
theorem parseQuery_loop_within {n : Nat} (parts : List CStr) {nvquery nvquery' : NvList}
    (hwf : nvquery.WF) (hparts : ∀ part ∈ parts, part.length ≤ n)
    (h : parts.foldlM parseQueryStep nvquery = .ok nvquery') :
    ∃ ps : List NvPair, nvquery'.pairs = nvquery.pairs ++ ps ∧ ps.length = parts.length
      ∧ ∀ p ∈ ps, p.Within n := by
  induction parts generalizing nvquery with
  | nil =>
      obtain rfl : nvquery = nvquery' := by injection h
      exact ⟨[], (List.append_nil _).symm, rfl, fun p hp => absurd hp List.not_mem_nil⟩
  | cons part parts ih =>
      rw [List.foldlM_cons] at h
      cases hstep : parseQueryStep nvquery part with
      | error e => rw [hstep] at h; cases h
      | ok nv =>
          rw [hstep] at h
          obtain ⟨hwf', p, hpairs, hp⟩ := parseQueryStep_within hwf hstep
          obtain ⟨ps, hrest, hlen, hps⟩ := ih hwf' (List.forall_mem_cons.mp hparts).2 h
          refine ⟨p :: ps, ?_, by rw [List.length_cons, List.length_cons, hlen], ?_⟩
          · rw [hrest, hpairs, List.append_assoc]
            rfl
          · have hhead : part.length ≤ n := (List.forall_mem_cons.mp hparts).1
            exact List.forall_mem_cons.mpr ⟨hp.mono hhead, hps⟩

/-- **The pairs of a query**: at most 512, and none longer than the query. -/
theorem parseQuery_lengths {query : CStr} {ret : Int} {nvquery : NvList}
    (h : parseQuery query (nvlistCreate 1) = some (ret, nvquery)) (hret : ¬ ret < 0) :
    nvquery.pairs.length ≤ strArrayMax ∧ ∀ p ∈ nvquery.pairs, p.Within query.length := by
  have hcreated : (nvlistCreate 1).pairs = [] := rfl
  by_cases hparts : (queryParts query).length ≤ strArrayMax
  · rw [parseQuery_answer hparts] at h
    by_cases hnil : queryParts query = []
    · rw [if_pos hnil] at h
      cases h
      rw [hcreated]
      exact ⟨Nat.zero_le _, fun p hp => absurd hp List.not_mem_nil⟩
    · rw [if_neg hnil] at h
      obtain ⟨hwf, hresized, -⟩ := nvlistResize_spec (nvlistCreate_wf 1) (queryParts query).length
      cases hloop : ((queryParts query).map trim).foldlM parseQueryStep
          (nvlistResize (nvlistCreate 1) (queryParts query).length).2 with
      | error e =>
          rw [hloop] at h
          obtain rfl : e = (ret, nvquery) := Option.some.inj h
          exact absurd (parseQuery_run_error hloop) hret
      | ok nv =>
          rw [hloop] at h
          obtain rfl : nv = nvquery := congrArg Prod.snd (Option.some.inj h)
          obtain ⟨ps, hpairs, hlen, hps⟩ := parseQuery_loop_within (n := query.length) _ hwf
            (List.forall_mem_map.mpr fun raw hraw =>
              (strip_isInfix isspace raw).length_le.trans (mem_runs hraw).2.2.length_le) hloop
          rw [hresized, hcreated, List.nil_append] at hpairs
          rw [hpairs, hlen, List.length_map]
          exact ⟨hparts, hps⟩
  · -- more parts than `str_array_split` has room for
    have hsplit : strArraySplit query (bytes "&") = none := by
      refine if_neg ?_
      rw [List.length_map]
      exact hparts
    unfold parseQuery at h
    rw [hsplit] at h
    cases h

/-! ## §2. The queries that are refused. -/

/-- The parts fit into the array, and one of them loses its `=`. -/
def QueryRefused (query : CStr) : Prop :=
  (queryParts query).length ≤ strArrayMax ∧ ∃ part ∈ queryParts query, LosesEqual (trim part)

/-- The parts fit into the array, and all of them keep their `=`. -/
def QueryTaken (query : CStr) : Prop :=
  (queryParts query).length ≤ strArrayMax ∧ ∀ part ∈ queryParts query, ¬ LosesEqual (trim part)

/-- **What `parse_query` answers.** -/
theorem parseQuery_code (query : CStr) :
    (QueryTaken query → ∃ nvquery, parseQuery query (nvlistCreate 1) = some (0, nvquery))
      ∧ (QueryRefused query →
        ∃ e : Int × NvList, parseQuery query (nvlistCreate 1) = some e ∧ e.1 < 0)
      ∧ (strArrayMax < (queryParts query).length → parseQuery query (nvlistCreate 1) = none) := by
  have hwf := (nvlistResize_spec (nvlistCreate_wf 1) (queryParts query).length).1
  have hrun := (parseQuery_run_iff ((queryParts query).map trim) hwf).1
  rw [List.forall_mem_map] at hrun
  refine ⟨?_, ?_, ?_⟩
  · intro ⟨hparts, hkeep⟩
    obtain ⟨nv, hloop⟩ := hrun.mpr hkeep
    rw [parseQuery_answer hparts, hloop]
    split
    · exact ⟨_, rfl⟩
    · exact ⟨_, rfl⟩
  · intro ⟨hparts, part, hpart, hloses⟩
    have hne : queryParts query ≠ [] := List.ne_nil_of_mem hpart
    rw [parseQuery_answer hparts, if_neg hne]
    cases hloop : ((queryParts query).map trim).foldlM parseQueryStep
        (nvlistResize (nvlistCreate 1) (queryParts query).length).2 with
    | ok nv => exact absurd hloses (hrun.mp ⟨nv, hloop⟩ part hpart)
    | error e => exact ⟨e, rfl, parseQuery_run_error hloop⟩
  · intro hparts
    have hsplit : strArraySplit query (bytes "&") = none := by
      refine if_neg ?_
      rw [List.length_map]
      exact Nat.not_le.mpr hparts
    unfold parseQuery
    rw [hsplit]
    rfl

theorem query_cases (query : CStr) :
    QueryTaken query ∨ QueryRefused query ∨ strArrayMax < (queryParts query).length := by
  by_cases hparts : (queryParts query).length ≤ strArrayMax
  · by_cases hloses : ∃ part ∈ queryParts query, LosesEqual (trim part)
    · exact Or.inr (Or.inl ⟨hparts, hloses⟩)
    · exact Or.inl ⟨hparts, fun part hpart hlost => hloses ⟨part, hpart, hlost⟩⟩
  · exact Or.inr (Or.inr (Nat.not_le.mp hparts))

/-! ## §3. The parts. -/

/-- What the parser reads as the query: the text of the memory where an empty
one ends the URI. -/
def UriParts.queryRead (u : UriParts) (mem : UriMem) : CStr :=
  if u.query = some [] ∧ u.fragment = none then mem.query else u.queryField

/-- The same for the fragment. -/
def UriParts.fragmentRead (u : UriParts) (mem : UriMem) : CStr :=
  if u.fragment = some [] then mem.fragment else u.fragment.getD []

theorem chopped_query_read (u : UriParts) (mem : UriMem) :
    (u.chopped mem).query = u.queryRead mem := by
  unfold UriParts.queryRead
  by_cases hbare : u.query = some [] ∧ u.fragment = none
  · rw [if_pos hbare]
    exact chopped_query_bare u mem hbare.1 hbare.2
  · rw [if_neg hbare]
    exact chopped_query u mem fun hq hf => hbare ⟨hq, hf⟩

theorem chopped_fragment_read (u : UriParts) (mem : UriMem) :
    (u.chopped mem).fragment = u.fragmentRead mem := by
  unfold UriParts.fragmentRead
  by_cases hbare : u.fragment = some []
  · have hlast := positions_fragment_last u hbare
    have hchop : (u.chopped mem).fragment = if u.positions.fragment ≠ -1 then
        chop mem.fragment u.render u.positions.fragment (u.render.length - u.positions.fragment)
      else [] := rfl
    rw [if_pos hbare, hchop, hlast, if_pos (by omega)]
    unfold chop
    rw [if_neg (by omega)]
  · rw [if_neg hbare]
    refine chopped_fragment u mem ?_
    intro f hf hnil
    exact hbare (hnil ▸ hf)

theorem length_delimited (d : UInt8) (part : Option CStr) :
    (delimited d part).length = part.elim 0 (fun s => s.length + 1) := by
  cases part with
  | none => rfl
  | some s => rfl

theorem length_spill_le (u : UriParts) :
    u.spill.length
      ≤ (delimited (ascii '?') u.query).length + (delimited (ascii '#') u.fragment).length := by
  obtain ⟨post, hpost⟩ := spill_first u
  have hlen := congrArg List.length hpost
  rw [List.length_append, List.length_append] at hlen
  omega

theorem length_dropSlash_le (authority : CStr) : (dropSlash authority).length ≤ authority.length := by
  unfold dropSlash
  split
  · rw [List.length_dropLast]
    exact Nat.sub_le _ _
  · exact Nat.le_refl _

/-- The section takes one character less than the URI, at least: that is its `:`. -/
theorem length_section_lt (u : UriParts) (mem : UriMem)
    (hrest : u.proto.length + 1 < u.render.length) :
    (sectionName (u.chopped mem)).length + u.proto.length + 1 ≤ u.render.length := by
  have hscheme := u.length_scheme
  have hlen := u.length_render
  have hspill := length_spill_le u
  unfold sectionName
  rw [chopped_authority u hrest, chopped_path, List.length_append]
  unfold UriParts.tailAt at hlen
  -- the `:` belongs to neither part
  have hproto : u.proto.length + 1 ≤ u.scheme.length := by
    have hslashes : (0 : Int) ≤ if u.slashes then 2 else 0 := by split <;> omega
    omega
  cases hpath : u.path with
  | none =>
      have hfield : u.pathField = [] := by
        unfold UriParts.pathField
        rw [hpath]
        rfl
      -- without a path the query and the fragment are left in the authority
      have hauthority : u.authorityField.length ≤ u.authority.length + u.spill.length := by
        unfold UriParts.authorityField UriParts.authoritySpill
        rw [if_pos hpath]
        exact (length_dropSlash_le _).trans (by rw [List.length_append])
      rw [hfield, if_neg (not_not_intro rfl), List.length_nil]
      omega
  | some p =>
      have hfield : u.pathField = p ++ u.spill := by
        unfold UriParts.pathField
        rw [hpath]
        rfl
      have hauthority : u.authorityField.length ≤ u.authority.length := by
        unfold UriParts.authorityField UriParts.authoritySpill
        rw [if_neg (by rw [hpath]; simp)]
        by_cases htail : u.tail = [ascii '/']
        · -- the `/` that was taken along is dropped
          rw [if_pos htail, dropSlash_concat]
        · rw [if_neg htail, List.append_nil]
          exact length_dropSlash_le _
      rw [hpath, length_delimited, Option.elim_some] at hlen
      split
      · rw [hfield, List.length_cons, List.length_append]
        omega
      · rw [List.length_nil]
        omega

/-- **The parts are no longer than the URI**, but for a query or a fragment that is
read from the memory. -/
structure TUri.Within (parsed : TUri) (mem : UriMem) (uri : CStr) : Prop where
  proto : parsed.proto.length ≤ uri.length
  authority : parsed.authority.length ≤ uri.length
  path : parsed.path.length ≤ uri.length
  sect : (sectionName parsed).length ≤ uri.length
  query : ¬ EndsInQuery (scannedText uri) →
    parsed.query = [] ∨ parsed.query.length + 2 ≤ uri.length
  queryRead : EndsInQuery (scannedText uri) → parsed.query = mem.query
  fragment : ¬ EndsInFragment (scannedText uri) → parsed.fragment.length ≤ uri.length
  fragmentRead : EndsInFragment (scannedText uri) → parsed.fragment = mem.fragment
  count : parsed.nvquery.pairs.length ≤ strArrayMax
  pairs : ∀ p ∈ parsed.nvquery.pairs, p.Within parsed.query.length

theorem length_authority_le (u : UriParts) (mem : UriMem) :
    (u.chopped mem).authority.length ≤ (sectionName (u.chopped mem)).length := by
  unfold sectionName
  rw [List.length_append]
  omega

theorem length_path_le (u : UriParts) (mem : UriMem) :
    (u.chopped mem).path.length ≤ (sectionName (u.chopped mem)).length := by
  unfold sectionName
  rw [List.length_append]
  split
  · rw [List.length_cons]
    omega
  · next hpath =>
    rw [not_not.mp hpath, List.length_nil]
    exact Nat.zero_le _

/-- A query that is read from the URI leaves its `:` and its `?`. -/
theorem length_queryField (u : UriParts) :
    u.queryField = [] ∨ u.queryField.length + 2 ≤ u.render.length := by
  have hscheme := u.length_scheme
  have hlen := u.length_render
  have hslashes : (0 : Int) ≤ if u.slashes then 2 else 0 := by split <;> omega
  unfold UriParts.tailAt at hlen
  cases hquery : u.query with
  | none =>
      left
      unfold UriParts.queryField
      rw [hquery]
  | some q =>
      right
      obtain ⟨post, hpost⟩ := queryField_first u hquery
      have hfield := congrArg List.length hpost
      rw [List.length_append, List.length_append] at hfield
      rw [hquery, length_delimited (ascii '?'), Option.elim_some] at hlen
      omega

theorem length_fragment_le (u : UriParts) : (u.fragment.getD []).length ≤ u.render.length := by
  have hlen := u.length_render
  rw [length_delimited (ascii '#')] at hlen
  cases hfragment : u.fragment with
  | none => exact Nat.zero_le _
  | some f =>
      rw [hfragment, Option.elim_some] at hlen
      rw [Option.getD_some]
      omega

/-! ## §4. The answers. -/

/-- A URI that goes on behind its scheme: its query decides. -/
theorem uriparseParse_scanned {u : UriParts} (hu : u.Scanned)
    (hrest : after (ascii ':') u.render ≠ []) (mem : UriMem) :
    uriparseParse mem u.render (uriparseCreate u.render)
      = (parseQuery (u.queryRead mem) (nvlistCreate 1)).map (fun r =>
        (if r.1 < 0 then foundQuery else 0, { u.chopped mem with nvquery := r.2 })) := by
  rw [uriparseParse_render u hu (hu.goes_on hrest) mem, chopped_query_read]

/-- A query that is taken, and one that is refused. -/
theorem uriparseParse_taken {u : UriParts} (hu : u.Scanned)
    (hrest : after (ascii ':') u.render ≠ []) {mem : UriMem} (h : QueryTaken (u.queryRead mem)) :
    ∃ parsed, uriparseParse mem u.render (uriparseCreate u.render) = some (0, parsed) := by
  obtain ⟨nvquery, hquery⟩ := (parseQuery_code _).1 h
  rw [uriparseParse_scanned hu hrest, hquery]
  exact ⟨_, rfl⟩

theorem uriparseParse_refused {u : UriParts} (hu : u.Scanned)
    (hrest : after (ascii ':') u.render ≠ []) {mem : UriMem} (h : QueryRefused (u.queryRead mem)) :
    ∃ parsed, uriparseParse mem u.render (uriparseCreate u.render) = some (foundQuery, parsed) := by
  obtain ⟨e, hquery, hneg⟩ := (parseQuery_code _).2.1 h
  rw [uriparseParse_scanned hu hrest, hquery, Option.map_some, if_pos hneg]
  exact ⟨_, rfl⟩

/-- **HOW A URI IS ANSWERED**: refused without a scheme, or with nothing behind it;
else it is its query that decides. -/
theorem uriparseParse_cases (mem : UriMem) (uri : CStr) :
    (¬ HasScheme uri
        ∧ ∃ parsed, uriparseParse mem uri (uriparseCreate uri) = some (foundProto, parsed))
      ∨ (HasScheme uri ∧ after (ascii ':') uri = []
        ∧ ∃ parsed, uriparseParse mem uri (uriparseCreate uri) = some (foundAuthority, parsed))
      ∨ ∃ u : UriParts, u.Scanned ∧ u.render = uri ∧ after (ascii ':') uri ≠ []
        ∧ uriparseParse mem uri (uriparseCreate uri)
          = (parseQuery (u.queryRead mem) (nvlistCreate 1)).map (fun r =>
            (if r.1 < 0 then foundQuery else 0, { u.chopped mem with nvquery := r.2 })) := by
  by_cases hs : HasScheme uri
  · right
    by_cases hrest : after (ascii ':') uri = []
    · exact Or.inl ⟨hs, hrest, uriparseParse_bare_scheme hs hrest mem⟩
    · obtain ⟨u, hu, rfl⟩ := exists_scanned hs
      exact Or.inr ⟨u, hu, rfl, hrest, uriparseParse_scanned hu hrest mem⟩
  · exact Or.inl ⟨hs, uriparseParse_no_scheme hs mem⟩

/-- **What is accepted** is no longer than its URI. -/
theorem accepted_lengths {mem : UriMem} {uri : CStr} {parsed : TUri}
    (h : uriparseParse mem uri (uriparseCreate uri) = some (0, parsed)) :
    parsed.Within mem uri := by
  rcases uriparseParse_cases mem uri with ⟨-, parsed', hrun⟩ | ⟨-, -, parsed', hrun⟩
    | ⟨u, hu, rfl, hrest, hrun⟩
  · rw [hrun] at h
    cases h
  · rw [hrun] at h
    cases h
  · rw [hrun] at h
    obtain ⟨⟨ret, nvquery⟩, hquery, hparsed⟩ := Option.map_eq_some_iff.mp h
    have hret : ¬ ret < 0 := by
      intro hneg
      have hcode := congrArg Prod.fst hparsed
      dsimp only at hcode
      rw [if_pos hneg] at hcode
      cases hcode
    obtain rfl : { u.chopped mem with nvquery := nvquery } = parsed := congrArg Prod.snd hparsed
    obtain ⟨hcount, hpairs⟩ := parseQuery_lengths hquery hret
    have hsection := length_section_lt u mem (hu.goes_on hrest)
    have hsect : sectionName { u.chopped mem with nvquery := nvquery }
        = sectionName (u.chopped mem) := rfl
    constructor
    · show (u.chopped mem).proto.length ≤ _
      rw [chopped_proto]
      omega
    · exact (length_authority_le u mem).trans (by omega)
    · exact (length_path_le u mem).trans (by omega)
    · rw [hsect]
      omega
    · intro hends
      show (u.chopped mem).query = [] ∨ _
      rw [chopped_query_read]
      unfold UriParts.queryRead
      rw [if_neg fun hbare => hends ((endsInQuery_scanned u hu).mpr hbare)]
      exact length_queryField u
    · intro hends
      refine (chopped_query_read u mem).trans ?_
      exact if_pos ((endsInQuery_scanned u hu).mp hends)
    · intro hends
      show (u.chopped mem).fragment.length ≤ _
      rw [chopped_fragment_read]
      unfold UriParts.fragmentRead
      rw [if_neg fun hbare => hends ((endsInFragment_scanned u hu).mpr hbare)]
      exact length_fragment_le u
    · intro hends
      refine (chopped_fragment_read u mem).trans ?_
      exact if_pos ((endsInFragment_scanned u hu).mp hends)
    · exact hcount
    · intro p hp
      show p.Within (u.chopped mem).query.length
      rw [chopped_query_read]
      exact hpairs p hp

end Protohand
