/-
  Protohand.UriParse.Parts
  ────────────────────────
  **A URI TAKEN APART AGAIN.**

  From the recorded positions to the five fields of `struct t_uri`, for a URI
  written from its parts: what the authority default picks, what each copy
  cuts out, and what the trailing delimiters do to both.  The result is the
  round trip `uriparseParse_recovers`.
-/
import Protohand.UriParse.Scan

namespace Protohand

open Text

/-! ## §1. From positions to parts. -/

/-- The position after the scheme is filled in as soon as a text follows it. -/
theorem authorityDefault_ne {length : Nat} {pos : UriPos} (h : pos.proto + 1 < length) :
    (authorityDefault length pos).authority ≠ -1 := by
  unfold authorityDefault
  show (if _ = (-1 : Int) ∧ pos.proto + 1 < length then (length : Int) else _) ≠ -1
  split
  · omega
  · next hn => exact fun ha => hn ⟨ha, h⟩

/-- Where the recorded position and length describe a slice behind a
delimiter, `chop` cuts out that slice. -/
theorem chop_slice (block pre : CStr) (d : UInt8) (mid post : CStr) {pos len : Int}
    (hpos : pos = pre.length) (hlen : len = mid.length + 1) :
    chop block (pre ++ d :: (mid ++ post)) pos len = mid := by
  unfold chop
  rw [if_pos (by omega)]
  have hdrop : (pos + 1).toNat = (pre ++ [d]).length := by
    rw [List.length_append, List.length_singleton]; omega
  have htake : (len - 1).toNat = mid.length := by omega
  have huri : pre ++ d :: (mid ++ post) = (pre ++ [d]) ++ (mid ++ post) := by simp
  rw [huri, hdrop, htake, List.drop_left, List.take_left]

/-- The positions of a rendered URI after the defaults. -/
def UriParts.positions (u : UriParts) : UriPos :=
  let length := u.render.length
  authorityDefault length
    { start := 0
      proto := u.proto.length
      authority := -1
      path := u.path.elim (-1) (fun _ => foundAt length u.tailAt)
      query := u.query.elim (-1)
        (fun _ => foundAt length (u.tailAt + (delimited (ascii '/') u.path).length))
      fragment := u.fragment.elim (-1)
        (fun _ => foundAt length (u.tailAt + (delimited (ascii '/') u.path).length
          + (delimited (ascii '?') u.query).length))
      fend := length }

/-- The parts of a rendered URI, before its query is parsed. -/
def UriParts.chopped (u : UriParts) (mem : UriMem) : TUri :=
  chopParts mem u.render.length (if u.slashes then 2 else 0) u.positions (uriparseCreate u.render)

theorem UriParts.length_render (u : UriParts) :
    u.render.length = u.tailAt + (delimited (ascii '/') u.path).length
      + (delimited (ascii '?') u.query).length + (delimited (ascii '#') u.fragment).length := by
  unfold UriParts.render UriParts.tail UriParts.tailAt
  simp only [List.length_append]
  omega

theorem UriParts.length_eq (u : UriParts) : u.render.length = u.tailAt + u.tail.length := by
  unfold UriParts.render UriParts.tailAt
  simp only [List.length_append]
  omega

theorem UriParts.length_scheme (u : UriParts) :
    (u.scheme.length : Int) = u.proto.length + 1 + (if u.slashes then 2 else 0) := by
  unfold UriParts.scheme
  cases u.slashes with
  | true => simp [bytes]; omega
  | false => simp

/-- With a scheme and an authority found, only the query can still fail. -/
theorem uriparseParse_of_found {mem : UriMem} {uri : CStr} {uri_parsed : TUri} {pos : UriPos}
    {doubleslash : Int}
    (hpos : authorityDefault uri.length (uriLoop uri.length uri 0 0
      ⟨1, { uri_parsed.pos with start := 0, fend := uri.length }, 0⟩).pos = pos)
    (hds : (uriLoop uri.length uri 0 0
      ⟨1, { uri_parsed.pos with start := 0, fend := uri.length }, 0⟩).doubleslash = doubleslash)
    (hproto : pos.proto ≠ -1) (hauth : pos.authority ≠ -1) :
    uriparseParse mem uri uri_parsed
      = (parseQuery (chopParts mem uri.length doubleslash pos uri_parsed).query
          uri_parsed.nvquery).map (fun r =>
            (if r.1 < 0 then foundQuery else 0,
              { chopParts mem uri.length doubleslash pos uri_parsed with nvquery := r.2 })) := by
  unfold uriparseParse
  simp only [hpos, hds]
  rw [if_neg hproto, if_neg hauth]
  have hnv : (chopParts mem uri.length doubleslash pos uri_parsed).nvquery
      = uri_parsed.nvquery := rfl
  rw [hnv]
  cases parseQuery (chopParts mem uri.length doubleslash pos uri_parsed).query
    uri_parsed.nvquery <;> rfl

/-- Whatever has an authority goes on behind its `:`. -/
theorem UriParts.WF.goes_on {u : UriParts} (h : u.WF) : u.proto.length + 1 < u.render.length := by
  have hauth : 0 < u.authority.length := List.length_pos_of_ne_nil h.authority_ne
  have hlen := u.length_render
  have hscheme := u.length_scheme
  unfold UriParts.tailAt at hlen
  split at hscheme <;> omega

/-- The scan of a rendered URI ends with its positions. -/
theorem uriLoop_positions (u : UriParts) (h : u.Scanned) :
    authorityDefault u.render.length (uriLoop u.render.length u.render 0 0
        ⟨1, { (uriparseCreate u.render).pos with start := 0, fend := u.render.length }, 0⟩).pos
      = u.positions
      ∧ (uriLoop u.render.length u.render 0 0
        ⟨1, { (uriparseCreate u.render).pos with start := 0, fend := u.render.length }, 0⟩).doubleslash
      = if u.slashes then 2 else 0 := by
  obtain ⟨hpos, hds⟩ := uriLoop_render u h u.render.length
    { (uriparseCreate u.render).pos with start := 0, fend := u.render.length }
  refine ⟨?_, hds⟩
  rw [hpos]
  rfl

/-- **A URI that goes on behind its `:` always gets as far as its query.** -/
theorem uriparseParse_render (u : UriParts) (h : u.Scanned)
    (hrest : u.proto.length + 1 < u.render.length) (mem : UriMem) :
    uriparseParse mem u.render (uriparseCreate u.render)
      = (parseQuery (u.chopped mem).query (nvlistCreate 1)).map (fun r =>
          (if r.1 < 0 then foundQuery else 0, { u.chopped mem with nvquery := r.2 })) := by
  obtain ⟨hpositions, hds⟩ := uriLoop_positions u h
  have hproto : u.positions.proto ≠ -1 := by
    show (u.proto.length : Int) ≠ -1
    omega
  have hne : u.positions.authority ≠ -1 := by
    apply authorityDefault_ne
    show ((u.proto.length : Int)) + 1 < u.render.length
    omega
  exact uriparseParse_of_found hpositions hds hproto hne

/-! ## §2. The positions, one by one. -/

/-- A delimiter with something behind it is recorded where it stands. -/
theorem foundAt_of_lt {length i : Nat} (h : i + 1 < length) : foundAt length i = i := by
  unfold foundAt
  rw [if_neg (by omega)]

/-- The last character of a text is recorded one too far. -/
theorem foundAt_last {length i : Nat} (h : length = i + 1) : foundAt length i = i + 1 := by
  unfold foundAt
  rw [if_pos h]

/-- The position of the path: a `/` that ends the URI is recorded too far. -/
def UriParts.pathAt (u : UriParts) : Nat :=
  if u.tail = [ascii '/'] then u.tailAt + 1 else u.tailAt

/-- Where the query's `?` stands. -/
def UriParts.queryAt (u : UriParts) : Nat := u.tailAt + (delimited (ascii '/') u.path).length

/-- Where the fragment's `#` stands. -/
def UriParts.fragmentAt (u : UriParts) : Nat :=
  u.queryAt + (delimited (ascii '?') u.query).length

theorem positions_path (u : UriParts) :
    u.positions.path = u.path.elim (-1) (fun _ => (u.pathAt : Int)) := by
  have hlen := u.length_eq
  show u.path.elim (-1) (fun _ => foundAt u.render.length u.tailAt) = _
  unfold UriParts.pathAt
  cases hp : u.path with
  | none => rfl
  | some p =>
      show foundAt u.render.length u.tailAt = _
      by_cases htail : u.tail = [ascii '/']
      · rw [if_pos htail, foundAt_last (by rw [hlen, htail]; rfl)]
        rfl
      · rw [if_neg htail]
        have hcons : u.tail = ascii '/' :: (p ++ (delimited (ascii '?') u.query
            ++ delimited (ascii '#') u.fragment)) := by
          unfold UriParts.tail
          rw [hp]
          rfl
        have hmore : p ++ (delimited (ascii '?') u.query ++ delimited (ascii '#') u.fragment) ≠ [] :=
          fun hnil => htail (by rw [hcons, hnil])
        have hpos := List.length_pos_of_ne_nil hmore
        rw [hcons, List.length_cons] at hlen
        exact foundAt_of_lt (by omega)

theorem positions_query (u : UriParts) (hq : u.query = some [] → u.fragment ≠ none) :
    u.positions.query = u.query.elim (-1) (fun _ => (u.queryAt : Int)) := by
  have hlen := u.length_render
  show u.query.elim (-1) (fun _ => foundAt u.render.length u.queryAt) = _
  unfold UriParts.queryAt
  cases hquery : u.query with
  | none => rfl
  | some q =>
      apply foundAt_of_lt
      rw [hquery] at hlen hq
      cases hfrag : u.fragment with
      | none =>
          have hpos : 0 < q.length := List.length_pos_of_ne_nil (fun h => hq (by rw [h]) hfrag)
          simp only [delimited_some, List.length_cons] at hlen
          omega
      | some f =>
          simp only [hfrag, delimited_some, List.length_cons] at hlen
          omega

theorem positions_fragment (u : UriParts) (hf : u.fragment ≠ some []) :
    u.positions.fragment = u.fragment.elim (-1) (fun _ => (u.fragmentAt : Int)) := by
  have hlen := u.length_render
  show u.fragment.elim (-1) (fun _ => foundAt u.render.length u.fragmentAt) = _
  unfold UriParts.fragmentAt UriParts.queryAt
  cases hfrag : u.fragment with
  | none => rfl
  | some f =>
      apply foundAt_of_lt
      have hpos : 0 < f.length :=
        List.length_pos_of_ne_nil (fun h => hf (by rw [hfrag, h]))
      simp only [hfrag, delimited_some, List.length_cons] at hlen
      omega

/-- A `?` that ends the URI is recorded at the end. -/
theorem positions_query_last (u : UriParts) (hq : u.query = some []) (hf : u.fragment = none) :
    u.positions.query = u.render.length := by
  have hlen := u.length_render
  show u.query.elim (-1) (fun _ => foundAt u.render.length u.queryAt) = _
  unfold UriParts.queryAt
  rw [hq] at hlen ⊢
  rw [hf] at hlen
  simp only [delimited_some, delimited_none, List.length_cons, List.length_nil] at hlen
  rw [Option.elim_some, foundAt_last (by omega)]
  omega

/-- A `#` that ends the URI is recorded at the end. -/
theorem positions_fragment_last (u : UriParts) (hfrag : u.fragment = some []) :
    u.positions.fragment = u.render.length := by
  have hlen := u.length_render
  show u.fragment.elim (-1) (fun _ => foundAt u.render.length u.fragmentAt) = _
  unfold UriParts.fragmentAt UriParts.queryAt
  rw [hfrag] at hlen ⊢
  simp only [Option.elim, delimited_some, List.length_cons, List.length_nil] at hlen ⊢
  rw [foundAt_last (by omega)]
  omega

/-- A `?` or `#` that ends the URI counts as text of the part in front of the query. -/
def UriParts.spill (u : UriParts) : CStr :=
  if u.query = some [] ∧ u.fragment = none then [ascii '?']
  else if u.query = none ∧ u.fragment = some [] then [ascii '#']
  else []

/-- The first of the positions behind a path, or the end. -/
def UriParts.hierEnd (u : UriParts) : Int :=
  if u.positions.query ≠ -1 then u.positions.query
  else if u.positions.fragment ≠ -1 then u.positions.fragment
  else u.render.length

/-- Where the part in front of the query ends for the parser. -/
theorem hierEnd_eq (u : UriParts) : u.hierEnd = (u.queryAt : Int) + u.spill.length := by
  have hlen := u.length_render
  unfold UriParts.hierEnd UriParts.spill
  cases hquery : u.query with
  | some q =>
      by_cases hbare : q = [] ∧ u.fragment = none
      · -- the `?` ends the URI: it is recorded one too far, and spills
        obtain ⟨rfl, hf⟩ := hbare
        rw [positions_query_last u hquery hf, if_pos (by omega), if_pos ⟨rfl, hf⟩]
        unfold UriParts.queryAt
        simp only [hquery, hf, delimited_some, delimited_none, List.length_cons,
          List.length_nil] at hlen ⊢
        omega
      · have hq : u.query = some [] → u.fragment ≠ none := by
          intro hnil hf
          rw [hquery, Option.some.injEq] at hnil
          exact hbare ⟨hnil, hf⟩
        have hspill : ¬ (some q = some [] ∧ u.fragment = none) :=
          fun hn => hbare ⟨Option.some.inj hn.1, hn.2⟩
        rw [positions_query u hq, hquery, Option.elim_some, if_pos (by omega), if_neg hspill,
          if_neg (by simp)]
        simp
  | none =>
      have hnone : u.positions.query = -1 := by
        show u.query.elim (-1) (fun _ => foundAt u.render.length u.queryAt) = _
        rw [hquery]
        rfl
      have hspill : ¬ ((none : Option CStr) = some [] ∧ u.fragment = none) := by simp
      rw [hnone, if_neg (fun hn => hn rfl), if_neg hspill]
      unfold UriParts.queryAt
      by_cases hbare : u.fragment = some []
      · -- the same for a `#`, which counts only without a query in front of it
        rw [positions_fragment_last u hbare, if_pos (by omega), if_pos ⟨rfl, hbare⟩]
        simp only [hquery, hbare, delimited_some, delimited_none, List.length_cons,
          List.length_nil] at hlen ⊢
        omega
      · have hspill : ¬ ((none : Option CStr) = none ∧ u.fragment = some []) :=
          fun hn => hbare hn.2
        rw [positions_fragment u hbare, if_neg hspill]
        unfold UriParts.fragmentAt UriParts.queryAt
        cases hfrag : u.fragment with
        | some f =>
            rw [hquery, Option.elim_some, if_pos (by omega)]
            simp
        | none =>
            simp only [hquery, hfrag, delimited_none, List.length_nil] at hlen
            rw [Option.elim_none, if_neg (fun hn => hn rfl), List.length_nil]
            omega

/-- The spilled delimiter is the first character behind that part. -/
theorem spill_first (u : UriParts) :
    ∃ post, delimited (ascii '?') u.query ++ delimited (ascii '#') u.fragment
      = u.spill ++ post := by
  unfold UriParts.spill
  split
  · next hbare => exact ⟨[], by rw [hbare.1, hbare.2]; rfl⟩
  · split
    · next hbare => exact ⟨[], by rw [hbare.1, hbare.2]; rfl⟩
    · exact ⟨_, rfl⟩

theorem spill_of_ne (u : UriParts) (hq : ∀ q ∈ u.query, q ≠ []) (hf : ∀ f ∈ u.fragment, f ≠ []) :
    u.spill = [] := by
  unfold UriParts.spill
  rw [if_neg (fun hn => hq [] hn.1 rfl), if_neg (fun hn => hf [] hn.2 rfl)]

/-- What an authority is taken along with: a delimiter that ends the URI. -/
def UriParts.authoritySpill (u : UriParts) : CStr :=
  if u.path = none then u.spill else if u.tail = [ascii '/'] then [ascii '/'] else []

/-- The default takes the first position that was recorded, or the end. -/
theorem positions_authority (u : UriParts) (hrest : u.proto.length + 1 < u.render.length) :
    u.positions.authority = (u.tailAt : Int) + u.authoritySpill.length := by
  have hdef : u.positions.authority =
      (let a := defaultTo (defaultTo (defaultTo (-1) u.positions.path) u.positions.query)
        u.positions.fragment
      if a = -1 ∧ (u.proto.length : Int) + 1 < u.render.length then (u.render.length : Int) else a) :=
    rfl
  have hpath := positions_path u
  unfold UriParts.authoritySpill
  cases hp : u.path with
  | some p =>
      rw [hp, Option.elim_some] at hpath
      have hfirst : u.positions.authority = u.pathAt := by
        rw [hdef, hpath]
        unfold defaultTo
        grind
      rw [hfirst, if_neg (by simp)]
      unfold UriParts.pathAt
      split <;> simp
  | none =>
      rw [hp, Option.elim_none] at hpath
      -- the chain of defaults asks the same questions as the length of a path
      have hend : u.positions.authority = u.hierEnd := by
        rw [hdef, hpath]
        unfold UriParts.hierEnd defaultTo
        grind
      have hat : u.queryAt = u.tailAt := by
        unfold UriParts.queryAt
        rw [hp]
        rfl
      rw [hend, hierEnd_eq u, if_pos rfl, hat]

/-! ## §3. Each field of a rendered URI. -/

theorem chopped_proto (u : UriParts) (mem : UriMem) : (u.chopped mem).proto = u.proto := by
  show u.render.take ((u.proto.length : Int)).toNat = u.proto
  unfold UriParts.render UriParts.scheme
  simp

theorem dropSlash_of_free {a : CStr} (h : ∀ c ∈ a, isPartDelim c = false) : dropSlash a = a := by
  unfold dropSlash
  rw [if_neg]
  intro hlast
  exact absurd (h _ (List.mem_of_getLast? hlast)) (by decide)

theorem dropSlash_concat (a : CStr) : dropSlash (a ++ [ascii '/']) = a := by
  unfold dropSlash
  rw [if_pos (by simp), List.dropLast_concat]

/-- What the authority is copied from starts behind the scheme. -/
theorem authoritySpill_first (u : UriParts) : ∃ post, u.tail = u.authoritySpill ++ post := by
  unfold UriParts.authoritySpill
  split
  · next hp =>
    obtain ⟨post, hpost⟩ := spill_first u
    refine ⟨post, ?_⟩
    unfold UriParts.tail
    rw [hp, delimited_none, List.nil_append, hpost]
  · split
    · next htail => exact ⟨[], by rw [htail]; rfl⟩
    · exact ⟨u.tail, rfl⟩

/-- **What the authority field holds.**  The `/` of an empty path that ends the
URI is cut off again, a `?` or `#` is not. -/
def UriParts.authorityField (u : UriParts) : CStr := dropSlash (u.authority ++ u.authoritySpill)

theorem chopped_authority (u : UriParts) (hrest : u.proto.length + 1 < u.render.length)
    (mem : UriMem) : (u.chopped mem).authority = u.authorityField := by
  have hscheme := u.length_scheme
  have hauth := positions_authority u hrest
  obtain ⟨post, hpost⟩ := authoritySpill_first u
  show dropSlash ((u.render.drop ((u.proto.length : Int) + (if u.slashes then 2 else 0) + 1).toNat).take
    (u.positions.authority - u.proto.length - (if u.slashes then 2 else 0) - 1).toNat) = _
  have hdrop : ((u.proto.length : Int) + (if u.slashes then 2 else 0) + 1).toNat
      = u.scheme.length := by omega
  have htake : (u.positions.authority - u.proto.length - (if u.slashes then 2 else 0) - 1).toNat
      = (u.authority ++ u.authoritySpill).length := by
    rw [hauth, List.length_append]
    unfold UriParts.tailAt
    omega
  unfold UriParts.render UriParts.authorityField
  rw [hdrop, List.drop_left, htake, hpost, ← List.append_assoc, List.take_left]

/-- An authority without a delimiter is its own field unless one spills into it. -/
theorem authorityField_eq (u : UriParts) (hfree : ∀ c ∈ u.authority, isPartDelim c = false)
    (hspill : u.spill = []) : u.authorityField = u.authority := by
  unfold UriParts.authorityField UriParts.authoritySpill
  rw [hspill]
  split
  · rw [List.append_nil]
    exact dropSlash_of_free hfree
  · split
    · -- the `/` that was copied along is the one that is dropped
      exact dropSlash_concat u.authority
    · rw [List.append_nil]
      exact dropSlash_of_free hfree

/-- **What the path field holds.** -/
def UriParts.pathField (u : UriParts) : CStr := u.path.elim [] (· ++ u.spill)

/-- The length computed for a path is that of its field and the delimiter. -/
theorem path_span (u : UriParts) {p : CStr} (hp : u.path = some p) :
    (if u.positions.query ≠ -1 then u.positions.query - u.tailAt
      else if u.positions.fragment ≠ -1 then u.positions.fragment - u.tailAt
      else u.render.length - u.tailAt) = ((p ++ u.spill).length : Int) + 1 := by
  have hend := hierEnd_eq u
  have hsub : (if u.positions.query ≠ -1 then u.positions.query - u.tailAt
      else if u.positions.fragment ≠ -1 then u.positions.fragment - u.tailAt
      else u.render.length - u.tailAt) = u.hierEnd - u.tailAt := by
    unfold UriParts.hierEnd
    grind
  rw [hsub, hend, List.length_append]
  unfold UriParts.queryAt
  rw [hp, delimited_some, List.length_cons]
  omega

/-- A present path is cut out; one that ends the URI stays the empty default. -/
theorem chopped_path (u : UriParts) (mem : UriMem) : (u.chopped mem).path = u.pathField := by
  have hpath := positions_path u
  obtain ⟨post, hpost⟩ := spill_first u
  show (if u.positions.path ≠ -1 ∧ u.positions.path ≠ u.render.length then
      chop mem.path u.render u.positions.path
        (if u.positions.query ≠ -1 then u.positions.query - u.positions.path
          else if u.positions.fragment ≠ -1 then u.positions.fragment - u.positions.path
          else u.render.length - u.positions.path)
    else []) = _
  unfold UriParts.pathField
  rw [hpath]
  cases hp : u.path with
  | none => exact if_neg (fun hn => hn.1 rfl)
  | some p =>
      have hcons : u.tail = ascii '/' :: ((p ++ u.spill) ++ post) := by
        unfold UriParts.tail
        rw [hp, hpost]
        simp
      simp only [Option.elim_some]
      unfold UriParts.pathAt
      by_cases htail : u.tail = [ascii '/']
      · -- the path is empty, and its position is the end of the URI
        have hlen : u.render.length = u.tailAt + 1 := by rw [u.length_eq, htail]; rfl
        rw [htail] at hcons
        have hnil : p ++ u.spill = [] := (List.append_eq_nil_iff.mp (List.cons.inj hcons).2.symm).1
        rw [if_pos htail]
        exact (if_neg (fun hn => hn.2 (by rw [hlen]))).trans hnil.symm
      · have hlen := u.length_eq
        have hmore : 1 < u.tail.length := by
          rw [hcons, List.length_cons, Nat.lt_add_left_iff_pos]
          apply List.length_pos_of_ne_nil
          exact fun hnil => htail (by rw [hcons, hnil])
        rw [if_neg htail]
        refine (if_pos ⟨by omega, by omega⟩).trans ?_
        have huri : u.render = (u.scheme ++ u.authority) ++ ascii '/' :: ((p ++ u.spill) ++ post) := by
          unfold UriParts.render
          rw [hcons, List.append_assoc u.scheme]
        rw [path_span u hp, huri]
        exact chop_slice mem.path _ _ _ _ (by rw [List.length_append]; rfl) rfl

theorem pathField_eq (u : UriParts) (hspill : u.spill = []) : u.pathField = u.path.getD [] := by
  unfold UriParts.pathField
  rw [hspill]
  cases u.path with
  | none => rfl
  | some p => exact List.append_nil p

/-- What the query field holds: a `#` that ends the URI is taken along. -/
def UriParts.queryField (u : UriParts) : CStr :=
  match u.query with
  | none => []
  | some q => if u.fragment = some [] then q ++ [ascii '#'] else q

theorem queryField_eq (u : UriParts) (hf : u.fragment ≠ some []) :
    u.queryField = u.query.getD [] := by
  unfold UriParts.queryField
  cases u.query with
  | none => rfl
  | some q => exact if_neg hf

/-- The field is the query, and the `#` behind it where nothing else follows. -/
theorem queryField_first (u : UriParts) {q : CStr} (hq : u.query = some q) :
    ∃ post, q ++ delimited (ascii '#') u.fragment = u.queryField ++ post := by
  unfold UriParts.queryField
  rw [hq]
  simp only
  by_cases hfrag : u.fragment = some []
  · rw [if_pos hfrag, hfrag]
    exact ⟨[], by simp⟩
  · rw [if_neg hfrag]
    exact ⟨_, rfl⟩

/-- The text in front of the query's `?`. -/
def UriParts.front (u : UriParts) : CStr :=
  u.scheme ++ (u.authority ++ delimited (ascii '/') u.path)

theorem UriParts.length_front (u : UriParts) : u.front.length = u.queryAt := by
  unfold UriParts.front UriParts.queryAt UriParts.tailAt
  simp only [List.length_append]
  omega

theorem UriParts.render_front (u : UriParts) :
    u.render = u.front ++ (delimited (ascii '?') u.query ++ delimited (ascii '#') u.fragment) := by
  unfold UriParts.render UriParts.tail UriParts.front
  simp only [List.append_assoc]

/-- The length computed for a query is that of its field and the delimiter. -/
theorem query_span (u : UriParts) {q : CStr} (hq : u.query = some q) :
    (if u.positions.fragment ≠ -1 then u.positions.fragment - u.queryAt
      else u.render.length - u.queryAt) = (u.queryField.length : Int) + 1 := by
  have hlen := u.length_render
  unfold UriParts.queryField
  rw [hq] at hlen ⊢
  rw [delimited_some, List.length_cons] at hlen
  simp only
  by_cases hfrag : u.fragment = some []
  · -- the recorded position of `#` is the end, so `#` counts as query
    rw [if_pos hfrag, positions_fragment_last u hfrag, if_pos (by omega),
      List.length_append, List.length_singleton]
    unfold UriParts.queryAt
    rw [hfrag] at hlen
    simp only [delimited_some, List.length_cons, List.length_nil] at hlen
    omega
  · rw [if_neg hfrag, positions_fragment u hfrag]
    unfold UriParts.fragmentAt UriParts.queryAt
    cases hf : u.fragment with
    | some f =>
        simp only [Option.elim_some]
        refine (if_pos (by omega)).trans ?_
        rw [hq, delimited_some, List.length_cons]
        omega
    | none =>
        simp only [hf, delimited_none, List.length_nil] at hlen
        simp only [Option.elim_none]
        refine (if_neg (by omega)).trans ?_
        omega

/-- How the query is cut out. -/
theorem chopped_query_eq (u : UriParts) (mem : UriMem) :
    (u.chopped mem).query = if u.positions.query ≠ -1 then
      chop mem.query u.render u.positions.query
        (if u.positions.fragment ≠ -1 then u.positions.fragment - u.positions.query
          else u.render.length - u.positions.query)
    else [] := rfl

/-- A present query is cut out, unless its `?` ends the URI. -/
theorem chopped_query (u : UriParts) (mem : UriMem)
    (hbare : u.query = some [] → u.fragment ≠ none) :
    (u.chopped mem).query = u.queryField := by
  rw [chopped_query_eq, positions_query u hbare]
  cases hq : u.query with
  | none =>
      unfold UriParts.queryField
      rw [hq]
      exact if_neg (fun hn => hn rfl)
  | some q =>
      simp only [Option.elim_some]
      refine (if_pos (by omega)).trans ?_
      obtain ⟨post, hpost⟩ := queryField_first u hq
      have huri : u.render = u.front ++ ascii '?' :: (u.queryField ++ post) := by
        rw [u.render_front, hq, delimited_some, List.cons_append, hpost]
      rw [query_span u hq, huri]
      exact chop_slice mem.query _ _ _ _ (by rw [u.length_front]) rfl

/-- A present fragment is cut out, unless its `#` ends the URI. -/
theorem chopped_fragment (u : UriParts) (mem : UriMem) (hf : ∀ f ∈ u.fragment, f ≠ []) :
    (u.chopped mem).fragment = u.fragment.getD [] := by
  have hfrag := positions_fragment u (fun hn => absurd rfl (hf [] hn))
  have hlen := u.length_render
  show (if u.positions.fragment ≠ -1 then
      chop mem.fragment u.render u.positions.fragment (u.render.length - u.positions.fragment)
    else []) = _
  rw [hfrag]
  cases hf : u.fragment with
  | none => exact if_neg (fun hn => hn rfl)
  | some f =>
      simp only [Option.elim_some, Option.getD_some]
      refine (if_pos (by omega)).trans ?_
      have huri : u.render = (u.scheme ++ (u.authority ++ (delimited (ascii '/') u.path
          ++ delimited (ascii '?') u.query))) ++ ascii '#' :: (f ++ []) := by
        unfold UriParts.render UriParts.tail
        rw [hf]
        simp
      rw [huri]
      apply chop_slice mem.fragment _ _ f _
      · unfold UriParts.fragmentAt UriParts.queryAt UriParts.tailAt
        simp only [List.length_append]
        omega
      · rw [← huri]
        unfold UriParts.fragmentAt UriParts.queryAt
        rw [hf, delimited_some, List.length_cons] at hlen
        omega

/-- A query whose `?` ends the URI has length zero: its block is left as found. -/
theorem chopped_query_bare (u : UriParts) (mem : UriMem) (hq : u.query = some [])
    (hf : u.fragment = none) : (u.chopped mem).query = mem.query := by
  have hfrag : u.positions.fragment = -1 := by
    show u.fragment.elim (-1) (fun _ => foundAt u.render.length u.fragmentAt) = _
    rw [hf]
    rfl
  rw [chopped_query_eq, positions_query_last u hq hf, hfrag, if_pos (by omega),
    if_neg (by omega)]
  unfold chop
  rw [if_neg (by omega)]

/-! ## §4. The round trip. -/

/-- The pairs of a query end up behind those already there, with no error. -/
theorem parseQuery_ok {query : CStr} (h : QueryOk query) {nvquery : NvList} (hwf : nvquery.WF) :
    ∃ nvquery', parseQuery query nvquery = some (0, nvquery') := by
  obtain ⟨nvquery', hrun, _⟩ := parseQuery_spec hwf h.parts_le h.decoded
  exact ⟨nvquery', hrun⟩

theorem queryOk_nil : QueryOk [] := ⟨by decide, by decide, by decide⟩

/-- **THE PARSER RECOVERS THE PARTS OF EVERY URI**, and it makes no difference
whether the URI was written with `//`. -/
theorem uriparseParse_recovers (u : UriParts) (h : u.WF)
    (hq : ∀ q ∈ u.query, q ≠ [] ∧ QueryOk q) (hf : ∀ f ∈ u.fragment, f ≠ []) :
    ∃ nvquery, ∀ (slashes : Bool) (mem : UriMem), ∃ parsed : TUri,
      uriparseParse mem { u with slashes := slashes }.render
          (uriparseCreate { u with slashes := slashes }.render) = some (0, parsed)
        ∧ parsed.proto = u.proto ∧ parsed.authority = u.authority
        ∧ parsed.path = u.path.getD [] ∧ parsed.query = u.query.getD []
        ∧ parsed.fragment = u.fragment.getD [] ∧ parsed.nvquery = nvquery := by
  have hok : QueryOk (u.query.getD []) := by
    cases hquery : u.query with
    | none => exact queryOk_nil
    | some q => exact (hq q hquery).2
  obtain ⟨nvquery, hrun⟩ := parseQuery_ok hok (nvlistCreate_wf 1)
  refine ⟨nvquery, ?_⟩
  intro slashes mem
  set v : UriParts := { u with slashes := slashes } with hv
  have hwf : v.WF :=
    ⟨h.proto_free, h.authority_ne, h.authority_free, h.path_free, h.query_free⟩
  have hne : ∀ q ∈ v.query, q ≠ [] := fun q hmem => (hq q hmem).1
  have hspill := spill_of_ne v hne hf
  have hauth := chopped_authority v hwf.goes_on mem
  rw [authorityField_eq v hwf.authority_free hspill] at hauth
  have hpath := chopped_path v mem
  rw [pathField_eq v hspill] at hpath
  have hfield : (v.chopped mem).query = u.query.getD [] := by
    rw [chopped_query v mem (fun hn => absurd rfl (hne [] hn))]
    exact queryField_eq v (fun hn => absurd rfl (hf [] hn))
  refine ⟨{ v.chopped mem with nvquery := nvquery }, ?_, chopped_proto v mem, hauth, hpath, hfield,
    chopped_fragment v mem hf, rfl⟩
  rw [uriparseParse_render v hwf.scanned hwf.goes_on mem, hfield, hrun]
  rfl

/-- Every part is there, and each holds delimiters that are plain text in it. -/
theorem uriparseParse_recovers_sample :
    ∃ nvquery, ∀ (slashes : Bool) (mem : UriMem), ∃ parsed : TUri,
      uriparseParse mem
          (UriParts.mk (bytes "ph") slashes (bytes "u@h:1") (some (bytes "a/b"))
            (some (bytes "x=1")) (some (bytes "?f"))).render
          (uriparseCreate (UriParts.mk (bytes "ph") slashes (bytes "u@h:1") (some (bytes "a/b"))
            (some (bytes "x=1")) (some (bytes "?f"))).render) = some (0, parsed)
        ∧ parsed.proto = bytes "ph" ∧ parsed.authority = bytes "u@h:1"
        ∧ parsed.path = bytes "a/b" ∧ parsed.query = bytes "x=1"
        ∧ parsed.fragment = bytes "?f" ∧ parsed.nvquery = nvquery :=
  uriparseParse_recovers
    ⟨bytes "ph", true, bytes "u@h:1", some (bytes "a/b"), some (bytes "x=1"), some (bytes "?f")⟩
    ⟨by decide +kernel, by decide +kernel, by decide +kernel, by decide +kernel, by decide +kernel⟩
    (by
      intro q hq
      obtain rfl := Option.some.inj hq
      exact ⟨by decide, by decide, by decide, by decide⟩)
    (by decide)

end Protohand
