/-
  Protohand.UriParse.Leak
  ───────────────────────
  **WHERE A DELIMITER LEAKS INTO A PART**, and what that does to the section
  that `main` looks up.

  Two things let one through: the position of a delimiter that ends the URI is
  recorded one too far, and the jump across `//` takes one more character
  along.  `CutsClean` says of a text that neither happens in it
  (`uriparseParse_delimiterFree_iff`).
-/
import Protohand.UriParse.Grammar

namespace Protohand

open Text

/-! ## §1. The text that is scanned. -/

/-- The text behind the scheme that the scan looks at: the jump across `//`
hides one more character. -/
def scannedText (uri : CStr) : CStr :=
  if bytes "//" <+: after (ascii ':') uri then (hierText uri).drop 1 else hierText uri

/-- The first `#` is the last character. -/
def EndsInFragment (s : CStr) : Prop := ascii '#' ∈ s ∧ after (ascii '#') s = []

/-- The last character starts the query or the fragment. -/
def EndsBare (s : CStr) : Prop := EndsInQuery s ∨ EndsInFragment s

/-- The last part of a URI is an empty query or an empty fragment. -/
def UriParts.Bare (u : UriParts) : Prop :=
  (u.query = some [] ∧ u.fragment = none) ∨ u.fragment = some []

theorem UriParts.spill_of_not_bare (u : UriParts) (h : ¬ u.Bare) : u.spill = [] := by
  unfold UriParts.spill
  rw [if_neg (fun hn => h (Or.inl hn)), if_neg (fun hn => h (Or.inr hn.2))]

theorem scannedText_render (u : UriParts) (h : u.Scanned) :
    scannedText u.render = u.seen ++ u.tail := by
  have hslash := slashes_render u h
  unfold scannedText UriParts.seen
  rw [hierText_render u h]
  by_cases hds : u.slashes = true
  · rw [if_pos (hslash.mpr hds), if_pos hds]
    cases hauth : u.authority with
    | nil => rw [h.jump_clear hds hauth]; rfl
    | cons a as => rfl
  · rw [if_neg (fun hpre => hds (hslash.mp hpre)), if_neg hds]

/-- Neither `?` nor `#` is scanned before the query. -/
theorem UriParts.Scanned.not_mem_seen {u : UriParts} (h : u.Scanned) {d : UInt8}
    (hd : isTailDelim d = true) : d ∉ u.seen ++ delimited (ascii '/') u.path := by
  intro hmem
  unfold isTailDelim at hd
  rcases List.mem_append.mp hmem with hmem | hmem
  · have hfree := h.seen_free d hmem
    unfold isPartDelim at hfree
    grind
  · cases hp : u.path with
    | none => rw [hp] at hmem; simp at hmem
    | some p =>
        rw [hp, delimited_some, List.mem_cons] at hmem
        rcases hmem with rfl | hmem
        · exact absurd hd (by decide)
        · have hfree := h.path_free p hp d hmem
          grind

theorem endsInFragment_front {front : CStr} (hhash : ascii '#' ∉ front) (q f : Option CStr)
    (hq : ∀ t ∈ q, ascii '#' ∉ t) :
    EndsInFragment (front ++ (delimited (ascii '?') q ++ delimited (ascii '#') f))
      ↔ f = some [] := by
  have hfront : ascii '#' ∉ front ++ delimited (ascii '?') q := by
    cases q with
    | none => simpa using hhash
    | some q => simp [hhash, hq q rfl]
  unfold EndsInFragment
  rw [← List.append_assoc]
  cases f with
  | none =>
      rw [delimited_none, List.append_nil]
      exact ⟨fun hends => absurd hends.1 hfront, fun hn => by cases hn⟩
  | some f =>
      rw [delimited_some, after_append_cons hfront, Option.some.injEq]
      exact ⟨fun hends => hends.2, fun hf => ⟨by simp, hf⟩⟩

/-- The scanned text, cut where the query and the fragment start. -/
theorem scannedText_front (u : UriParts) (h : u.Scanned) :
    scannedText u.render = (u.seen ++ delimited (ascii '/') u.path)
      ++ (delimited (ascii '?') u.query ++ delimited (ascii '#') u.fragment) := by
  rw [scannedText_render u h]
  unfold UriParts.tail
  rw [List.append_assoc]

/-- The scanned text ends in the `?` of an empty query. -/
theorem endsInQuery_scanned (u : UriParts) (h : u.Scanned) :
    EndsInQuery (scannedText u.render) ↔ u.query = some [] ∧ u.fragment = none := by
  rw [scannedText_front u h]
  exact endsInQuery_front (h.not_mem_seen (by decide)) (h.not_mem_seen (by decide)) _ _

/-- The scanned text ends in the `#` of an empty fragment. -/
theorem endsInFragment_scanned (u : UriParts) (h : u.Scanned) :
    EndsInFragment (scannedText u.render) ↔ u.fragment = some [] := by
  rw [scannedText_front u h]
  exact endsInFragment_front (h.not_mem_seen (by decide)) _ _ h.query_free

/-- The scanned text ends in a bare delimiter where the parts do. -/
theorem endsBare_render (u : UriParts) (h : u.Scanned) :
    EndsBare (scannedText u.render) ↔ u.Bare := by
  unfold EndsBare UriParts.Bare
  rw [endsInQuery_scanned u h, endsInFragment_scanned u h]

/-! ## §2. Accepted URIs. -/

theorem UriParts.Scanned.goes_on {u : UriParts} (h : u.Scanned)
    (hrest : after (ascii ':') u.render ≠ []) : u.proto.length + 1 < u.render.length := by
  have hpos := List.length_pos_of_ne_nil hrest
  rw [after_colon_render u h] at hpos
  unfold UriParts.render UriParts.scheme
  simp only [List.length_append, List.length_cons] at hpos ⊢
  omega

/-- **What is accepted, and what its fields hold.** -/
theorem accepted_fields {mem : UriMem} {uri : CStr} {parsed : TUri}
    (h : uriparseParse mem uri (uriparseCreate uri) = some (0, parsed)) :
    ∃ u : UriParts, u.Scanned ∧ u.render = uri ∧ u.proto.length + 1 < u.render.length
      ∧ parsed.proto = u.proto ∧ parsed.authority = u.authorityField
      ∧ parsed.path = u.pathField ∧ parsed.query = (u.chopped mem).query := by
  -- each of the two refusals has a code of its own
  have hs : HasScheme uri := by
    by_contra hno
    obtain ⟨parsed', hrun⟩ := uriparseParse_no_scheme hno mem
    rw [hrun] at h
    cases h
  have hrest : after (ascii ':') uri ≠ [] := by
    intro hnil
    obtain ⟨parsed', hrun⟩ := uriparseParse_bare_scheme hs hnil mem
    rw [hrun] at h
    cases h
  obtain ⟨u, hu, rfl⟩ := exists_scanned hs
  have hgo := hu.goes_on hrest
  rw [uriparseParse_render u hu hgo mem] at h
  obtain ⟨r, _, hr⟩ := Option.map_eq_some_iff.mp h
  have hparsed : { u.chopped mem with nvquery := r.2 } = parsed := congrArg Prod.snd hr
  refine ⟨u, hu, rfl, hgo, ?_, ?_, ?_, ?_⟩
  · rw [← hparsed]; exact chopped_proto u mem
  · rw [← hparsed]; exact chopped_authority u hgo mem
  · rw [← hparsed]; exact chopped_path u mem
  · rw [← hparsed]

/-! ## §3. Parts without delimiters. -/

/-- No part holds a delimiter that ends it. -/
structure TUri.DelimiterFree (parsed : TUri) : Prop where
  proto : ∀ c ∈ parsed.proto, c ≠ ascii ':' ∧ isPartDelim c = false
  authority : ∀ c ∈ parsed.authority, isPartDelim c = false
  path : ∀ c ∈ parsed.path, isTailDelim c = false
  query : ascii '#' ∉ parsed.query

/-- The character that the jump across `//` hides is none of `?` and `#`, and a
`/` there is all of an empty authority. -/
def JumpsClean (hier : CStr) : Prop :=
  ∀ c r, hier = c :: r →
    isTailDelim c = false ∧ (c = ascii '/' → CutAt isPartDelim r ∧ r ≠ [ascii '/'])

/-- **The URIs whose parts come out clean.** -/
def CutsClean (uri : CStr) : Prop :=
  ¬ EndsBare (scannedText uri)
    ∧ (bytes "//" <+: after (ascii ':') uri → JumpsClean (hierText uri))

/-- Only a `/` on its own is dropped from the front of an authority. -/
theorem head_mem_dropSlash {c : UInt8} {t : CStr} (h : c ≠ ascii '/' ∨ t ≠ []) :
    c ∈ dropSlash (c :: t) := by
  unfold dropSlash
  split
  · next hlast =>
    cases t with
    | nil =>
        rcases h with hc | hnil
        · exact absurd (Option.some.inj hlast) hc
        · exact absurd rfl hnil
    | cons x t => exact List.mem_cons_self
  · exact List.mem_cons_self

/-- What is left of an authority behind `//`, from its first character on. -/
theorem dropSlash_free_iff {a : UInt8} {as spill : CStr}
    (hfree : ∀ c ∈ as, isPartDelim c = false) (hspill : spill = [] ∨ spill = [ascii '/']) :
    (∀ c ∈ dropSlash (a :: (as ++ spill)), isPartDelim c = false)
      ↔ isTailDelim a = false ∧ (a = ascii '/' → as = [] ∧ spill = []) := by
  have hdelim : isPartDelim a = false ↔ a ≠ ascii '/' ∧ isTailDelim a = false := by
    unfold isPartDelim isTailDelim
    grind
  constructor
  · intro hclean
    constructor
    · cases htail : isTailDelim a with
      | false => rfl
      | true =>
          have hne : a ≠ ascii '/' := by rintro rfl; exact absurd htail (by decide)
          have hno := (hdelim.mp (hclean a (head_mem_dropSlash (Or.inl hne)))).2
          rw [htail] at hno
          cases hno
    · intro ha
      by_contra hmore
      have hne : as ++ spill ≠ [] := fun hnil => hmore (List.append_eq_nil_iff.mp hnil)
      exact (hdelim.mp (hclean a (head_mem_dropSlash (Or.inr hne)))).1 ha
  · intro hcond
    obtain ⟨htail, hslash⟩ := hcond
    by_cases ha : a = ascii '/'
    · -- the `/` is all there is, and it is dropped
      obtain ⟨rfl, rfl⟩ := hslash ha
      rw [ha]
      simp [dropSlash]
    · have hall : ∀ c ∈ a :: as, isPartDelim c = false := by
        intro c hc
        rcases List.mem_cons.mp hc with rfl | hc
        · exact hdelim.mpr ⟨ha, htail⟩
        · exact hfree c hc
      rw [← List.cons_append]
      rcases hspill with rfl | rfl
      · rwa [List.append_nil, dropSlash_of_free hall]
      · rwa [dropSlash_concat]

/-- A tail that is all `/` is an empty path. -/
theorem path_of_tail (u : UriParts) (htail : u.tail = [ascii '/']) : u.path ≠ none := by
  intro hp
  unfold UriParts.tail at htail
  rw [hp, delimited_none, List.nil_append] at htail
  cases hq : u.query with
  | some q => rw [hq] at htail; simp at htail
  | none =>
      cases hf : u.fragment with
      | some f => rw [hq, hf] at htail; simp at htail
      | none => rw [hq, hf] at htail; simp at htail

/-- Only a `/` that ends the URI is left to spill into the authority. -/
theorem authoritySpill_of_spill (u : UriParts) (hspill : u.spill = []) :
    (u.authoritySpill = [] ∨ u.authoritySpill = [ascii '/'])
      ∧ (u.authoritySpill = [] ↔ u.tail ≠ [ascii '/']) := by
  unfold UriParts.authoritySpill
  rw [hspill]
  by_cases htail : u.tail = [ascii '/']
  · rw [if_neg (path_of_tail u htail), if_pos htail]
    exact ⟨Or.inr rfl, fun h => by simp at h, fun h => absurd htail h⟩
  · rw [if_neg htail, ite_self]
    exact ⟨Or.inl rfl, fun _ => htail, fun _ => rfl⟩

/-- What the jump across `//` hides, in terms of the parts. -/
theorem jumpsClean_render (u : UriParts) {a : UInt8} {as : CStr}
    (hfree : ∀ c ∈ as, isPartDelim c = false) :
    JumpsClean (a :: (as ++ u.tail))
      ↔ isTailDelim a = false ∧ (a = ascii '/' → as = [] ∧ u.tail ≠ [ascii '/']) := by
  have hcut : CutAt isPartDelim (as ++ u.tail) ↔ as = [] := by
    constructor
    · intro hcut
      cases has : as with
      | nil => rfl
      | cons x xs =>
          rw [has] at hcut hfree
          obtain hnil | ⟨c, t, hcons, hc⟩ := hcut
          · cases hnil
          · rw [← (List.cons.inj hcons).1, hfree x List.mem_cons_self] at hc
            cases hc
    · rintro rfl
      exact u.tail_cut
  unfold JumpsClean
  constructor
  · intro hjump
    obtain ⟨htail, hslash⟩ := hjump a (as ++ u.tail) rfl
    refine ⟨htail, ?_⟩
    intro ha
    obtain ⟨hnil, hne⟩ := hslash ha
    obtain rfl := hcut.mp hnil
    exact ⟨rfl, hne⟩
  · intro hcond c r hcons
    obtain ⟨rfl, rfl⟩ := List.cons.inj hcons
    refine ⟨hcond.1, ?_⟩
    intro ha
    obtain ⟨rfl, hne⟩ := hcond.2 ha
    exact ⟨u.tail_cut, hne⟩

/-- Without a bare delimiter, the authority is clean where the jump is. -/
theorem authorityField_free_iff (u : UriParts) (h : u.Scanned) (hspill : u.spill = []) :
    (∀ c ∈ u.authorityField, isPartDelim c = false)
      ↔ (u.slashes = true → JumpsClean (u.authority ++ u.tail)) := by
  have hfree := h.seen_free
  unfold UriParts.seen at hfree
  by_cases hds : u.slashes = true
  · rw [if_pos hds] at hfree
    cases hauth : u.authority with
    | nil =>
        -- nothing follows the `//`
        have hfield := authorityField_eq u (by rw [hauth]; simp) hspill
        rw [hfield, hauth, h.jump_clear hds hauth]
        exact ⟨fun _ _ c r hcons => absurd hcons (by simp), fun _ => by simp⟩
    | cons a as =>
        rw [hauth, List.drop_one, List.tail_cons] at hfree
        obtain ⟨hcases, hnil⟩ := authoritySpill_of_spill u hspill
        unfold UriParts.authorityField
        rw [hauth, List.cons_append, dropSlash_free_iff hfree hcases, List.cons_append,
          jumpsClean_render u hfree, hnil]
        exact ⟨fun hcond _ => hcond, fun hcond => hcond hds⟩
  · rw [if_neg hds] at hfree
    rw [authorityField_eq u hfree hspill]
    exact ⟨fun _ hn => absurd hn hds, fun _ => hfree⟩

/-- A bare delimiter ends up in the part in front of it. -/
theorem bare_leaks (u : UriParts) (mem : UriMem) (hbare : u.Bare)
    (hauth : ∀ c ∈ u.authorityField, isPartDelim c = false)
    (hpath : ∀ c ∈ u.pathField, isTailDelim c = false)
    (hquery : ascii '#' ∉ (u.chopped mem).query) : False := by
  by_cases hq : u.fragment = some [] ∧ u.query ≠ none
  · -- a bare `#` behind a query ends up in the query
    obtain ⟨hf, hsome⟩ := hq
    apply hquery
    rw [chopped_query u mem (fun _ => by rw [hf]; simp)]
    unfold UriParts.queryField
    cases hquery' : u.query with
    | none => exact absurd hquery' hsome
    | some q => simp [hf]
  · -- any other goes into the path, or without one into the authority
    obtain ⟨d, hspill, hd⟩ : ∃ d, u.spill = [d] ∧ isTailDelim d = true := by
      unfold UriParts.spill
      rcases hbare with hbare | hf
      · rw [if_pos hbare]
        exact ⟨_, rfl, by decide⟩
      · have hnone : u.query = none := by
          by_contra hsome
          exact hq ⟨hf, hsome⟩
        rw [if_neg (fun hn => by rw [hf] at hn; simp at hn), if_pos ⟨hnone, hf⟩]
        exact ⟨_, rfl, by decide⟩
    cases hp : u.path with
    | some p =>
        have hno := hpath d (by unfold UriParts.pathField; rw [hp, hspill]; simp)
        rw [hd] at hno
        cases hno
    | none =>
        have hne : d ≠ ascii '/' := by rintro rfl; exact absurd hd (by decide)
        have hfield : u.authorityField = u.authority ++ [d] := by
          unfold UriParts.authorityField UriParts.authoritySpill dropSlash
          rw [if_pos hp, hspill, if_neg (by simpa using hne)]
        have hno := hauth d (by rw [hfield]; simp)
        unfold isPartDelim at hno
        unfold isTailDelim at hd
        grind

/-! ## §4. The section name. -/

/-- The section that `main` looks up: authority, or authority `/` path. -/
def sectionName (uri_parsed : TUri) : CStr :=
  uri_parsed.authority
    ++ (if uri_parsed.path ≠ [] then ascii '/' :: uri_parsed.path else [])

/-- **A section name is read back** where no authority holds a `/`. -/
theorem sectionName_determines {a b : TUri} (ha : ascii '/' ∉ a.authority)
    (hb : ascii '/' ∉ b.authority) (h : sectionName a = sectionName b) :
    a.authority = b.authority ∧ a.path = b.path := by
  have hread : ∀ u : TUri, ascii '/' ∉ u.authority →
      before (ascii '/') (sectionName u) = u.authority
        ∧ after (ascii '/') (sectionName u) = u.path := by
    intro u hu
    unfold sectionName
    by_cases hp : u.path = []
    · rw [if_neg (not_not_intro hp), List.append_nil, hp]
      exact ⟨before_of_not_mem hu, after_of_not_mem hu⟩
    · rw [if_pos hp]
      exact ⟨before_append_cons hu u.path, after_append_cons hu u.path⟩
  obtain ⟨hauth, hpath⟩ := hread a ha
  obtain ⟨hauth', hpath'⟩ := hread b hb
  rw [h] at hauth hpath
  exact ⟨hauth.symm.trans hauth', hpath.symm.trans hpath'⟩

/-- No other URI whose parts come out clean leads to the same section. -/
def TUri.OwnsSection (parsed : TUri) : Prop :=
  ∀ other : TUri, other.DelimiterFree → sectionName other = sectionName parsed →
    other.authority = parsed.authority ∧ other.path = parsed.path

theorem TUri.DelimiterFree.ownsSection {parsed : TUri} (h : parsed.DelimiterFree) :
    parsed.OwnsSection := by
  have hslash : ∀ u : TUri, u.DelimiterFree → ascii '/' ∉ u.authority :=
    fun u hu hmem => absurd (hu.authority _ hmem) (by decide)
  intro other hother hname
  exact sectionName_determines (hslash other hother) (hslash parsed h) hname

/-- **WHICH URIS ARE TAKEN APART CLEANLY**: of an accepted URI no part holds a
delimiter, and its section belongs to no other, exactly if it does not end in a
bare `?` or `#` and the jump across `//` hides no delimiter. -/
theorem uriparseParse_delimiterFree_iff {mem : UriMem} {uri : CStr} {parsed : TUri}
    (h : uriparseParse mem uri (uriparseCreate uri) = some (0, parsed)) :
    (parsed.DelimiterFree ∧ parsed.OwnsSection) ↔ CutsClean uri := by
  obtain ⟨u, hu, rfl, _, hproto, hauth, hpath, hquery⟩ := accepted_fields h
  have hbare := endsBare_render u hu
  have hslash := slashes_render u hu
  unfold CutsClean
  rw [hbare, hslash, hierText_render u hu]
  constructor
  · intro hboth
    obtain ⟨hproto', hauth', hpath', hquery'⟩ := hboth.1
    rw [hauth] at hauth'
    rw [hpath] at hpath'
    rw [hquery] at hquery'
    have hno : ¬ u.Bare := fun hb => bare_leaks u mem hb hauth' hpath' hquery'
    exact ⟨hno, (authorityField_free_iff u hu (u.spill_of_not_bare hno)).mp hauth'⟩
  · intro hclean
    obtain ⟨hno, hjump⟩ := hclean
    have hspill := u.spill_of_not_bare hno
    have hfree : parsed.DelimiterFree := by
      constructor
      · rw [hproto]
        exact hu.proto_free
      · rw [hauth]
        exact (authorityField_free_iff u hu hspill).mpr hjump
      · rw [hpath, pathField_eq u hspill]
        intro c hc
        cases hp : u.path with
        | none => rw [hp] at hc; simp at hc
        | some p =>
            rw [hp] at hc
            have hfree := hu.path_free p hp c hc
            unfold isTailDelim
            grind
      · rw [hquery, chopped_query u mem (fun hq hf => hno (Or.inl ⟨hq, hf⟩)),
          queryField_eq u (fun hf => hno (Or.inr hf))]
        cases hq : u.query with
        | none => simp
        | some q => exact hu.query_free q hq
    exact ⟨hfree, hfree.ownsSection⟩

/-- `a:b#` is accepted, and looked up under the section `b#`. -/
theorem uriparseParse_keeps_hash :
    ∃ parsed, uriparseParse ⟨[], [], []⟩ (bytes "a:b#") (uriparseCreate (bytes "a:b#"))
        = some (0, parsed) ∧ sectionName parsed = bytes "b#" ∧ ¬ parsed.DelimiterFree := by
  refine ⟨_, rfl, rfl, ?_⟩
  intro hfree
  have hhash : ascii '#' ∈ bytes "b#" := by decide
  exact absurd (hfree.authority (ascii '#') hhash) (by decide)

/-- All parts of `a://b/c?d#e` are there. -/
theorem uriparseParse_delimiterFree_iff_sample :
    ∃ parsed, uriparseParse ⟨[], [], []⟩ (bytes "a://b/c?d#e") (uriparseCreate (bytes "a://b/c?d#e"))
        = some (0, parsed)
      ∧ ((parsed.DelimiterFree ∧ parsed.OwnsSection) ↔ CutsClean (bytes "a://b/c?d#e")) :=
  ⟨_, rfl, uriparseParse_delimiterFree_iff rfl⟩

end Protohand
