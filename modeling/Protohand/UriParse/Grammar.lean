/-
  Protohand.UriParse.Grammar
  ──────────────────────────
  **WHICH TEXTS `uriparse_parse` ACCEPTS.**

  Its header documents the grammar
  `proto:[//]authority[/path][?query][#fragment]` with a required authority.
  `grammarCode` is the answer that grammar asks for.  The parser never looks
  at the authority it found: it infers it from a chain of defaults, so the
  two agree on a part of the texts only (`uriparseParse_grammar_iff`).
-/
import Protohand.UriParse.Parts

namespace Protohand

open Text

/-! ## §1. The documented grammar. -/

/-- A scheme comes first: `:` before any `/`, `?` and `#`. -/
def HasScheme (uri : CStr) : Prop :=
  (uri.dropWhile (fun c => !(c == ascii ':' || isPartDelim c))).head? = some (ascii ':')

instance (uri : CStr) : Decidable (HasScheme uri) := inferInstanceAs (Decidable (_ = _))

/-- What follows the scheme and an optional `//`. -/
def hierText (uri : CStr) : CStr :=
  let rest := after (ascii ':') uri
  if bytes "//" <+: rest then rest.drop 2 else rest

/-- The text up to the next delimiter. -/
def authorityText (uri : CStr) : CStr := (hierText uri).takeWhile (fun c => !isPartDelim c)

/-- Whether a character starts the query or the fragment. -/
def isTailDelim (c : UInt8) : Bool := c == ascii '?' || c == ascii '#'

/-- The query part, where there is one. -/
def queryText (uri : CStr) : Option CStr :=
  let tail := (hierText uri).dropWhile (fun c => !isTailDelim c)
  if tail.head? = some (ascii '?') then some (before (ascii '#') (tail.drop 1)) else none

/-- **THE ANSWER THE GRAMMAR ASKS FOR.** -/
def grammarCode (uri : CStr) : Nat :=
  if HasScheme uri then (if authorityText uri = [] then foundAuthority else 0) else foundProto

/-- The only `?` is the last character, and no fragment precedes it. -/
def EndsInQuery (uri : CStr) : Prop :=
  ascii '?' ∈ uri ∧ after (ascii '?') uri = [] ∧ ascii '#' ∉ uri

/-! ## §2. Every text with a scheme is a rendered one. -/

/-- A text from a `?` or `#` on is a query and a fragment. -/
theorem exists_query (r : CStr) (hr : CutAt isTailDelim r) :
    ∃ q f, r = delimited (ascii '?') q ++ delimited (ascii '#') f ∧ ∀ t ∈ q, ascii '#' ∉ t := by
  obtain rfl | ⟨c, t, rfl, hc⟩ := hr
  · exact ⟨none, none, rfl, by simp⟩
  · by_cases hquery : c = ascii '?'
    · -- a query: up to the next `#`
      obtain ⟨q, s, rfl, hq, hs⟩ := exists_cut (· == ascii '#') t
      have hfree : ascii '#' ∉ q := fun hmem => by simpa using hq _ hmem
      obtain rfl | ⟨d, f, rfl, hd⟩ := hs
      · exact ⟨some q, none, by rw [hquery]; simp, by simpa using hfree⟩
      · have hd' : d = ascii '#' := by simpa using hd
        exact ⟨some q, some f, by rw [hquery, hd']; simp, by simpa using hfree⟩
    · have hfrag : c = ascii '#' := by
        unfold isTailDelim at hc
        grind
      exact ⟨none, some t, by rw [hfrag]; rfl, by simp⟩

/-- A text from a `/`, `?` or `#` on is a path, a query and a fragment. -/
theorem exists_tail (r : CStr) (hr : CutAt isPartDelim r) :
    ∃ p q f, r = delimited (ascii '/') p ++ (delimited (ascii '?') q ++ delimited (ascii '#') f)
      ∧ (∀ t ∈ p, ∀ c ∈ t, c ≠ ascii '?' ∧ c ≠ ascii '#') ∧ ∀ t ∈ q, ascii '#' ∉ t := by
  obtain rfl | ⟨c, t, rfl, hc⟩ := hr
  · exact ⟨none, none, none, rfl, by simp, by simp⟩
  · by_cases hpath : c = ascii '/'
    · obtain ⟨p, s, rfl, hp, hs⟩ := exists_cut isTailDelim t
      obtain ⟨q, f, rfl, hq⟩ := exists_query s hs
      refine ⟨some p, q, f, by rw [hpath]; rfl, ?_, hq⟩
      intro t ht x hx
      obtain rfl := Option.some.inj ht
      have hfree := hp x hx
      unfold isTailDelim at hfree
      grind
    · have htail : isTailDelim c = true := by
        unfold isPartDelim at hc
        unfold isTailDelim
        grind
      obtain ⟨q, f, hcut, hq⟩ := exists_query (c :: t) (Or.inr ⟨c, t, rfl, htail⟩)
      exact ⟨none, q, f, hcut, by simp, hq⟩

/-- The text of a scheme, where there is one. -/
theorem exists_scheme {uri : CStr} (h : HasScheme uri) :
    ∃ proto rest, uri = proto ++ ascii ':' :: rest
      ∧ (∀ c ∈ proto, c ≠ ascii ':' ∧ isPartDelim c = false)
      ∧ after (ascii ':') uri = rest := by
  obtain ⟨proto, r, rfl, hp, hr⟩ := exists_cut (fun c => c == ascii ':' || isPartDelim c) uri
  unfold HasScheme at h
  rw [(takeWhile_cut hp hr).2] at h
  obtain ⟨rest, rfl⟩ := List.head?_eq_some_iff.mp h
  have hfree : ∀ c ∈ proto, c ≠ ascii ':' ∧ isPartDelim c = false := by
    intro c hc
    simpa using hp c hc
  exact ⟨proto, rest, rfl, hfree, after_append_cons (fun hmem => (hfree _ hmem).1 rfl) rest⟩

/-- **Every text with a scheme is the rendering of what the scan sees in it.** -/
theorem exists_scanned {uri : CStr} (hs : HasScheme uri) :
    ∃ u : UriParts, u.Scanned ∧ u.render = uri := by
  obtain ⟨proto, rest, rfl, hproto, _⟩ := exists_scheme hs
  by_cases hslash : bytes "//" <+: rest
  · obtain ⟨t, rfl⟩ := hslash
    cases t with
    | nil =>
        refine ⟨⟨proto, true, [], none, none, none⟩,
          ⟨hproto, by simp [UriParts.seen], by simp, fun _ _ => rfl, by simp, by simp⟩, ?_⟩
        simp [UriParts.render, UriParts.scheme, UriParts.tail]
    | cons a t =>
        -- the character behind `//` belongs to the authority, whatever it is
        obtain ⟨as, r, rfl, hfree, hr⟩ := exists_cut isPartDelim t
        obtain ⟨p, q, f, rfl, hp, hq⟩ := exists_tail r hr
        refine ⟨⟨proto, true, a :: as, p, q, f⟩,
          ⟨hproto, hfree, by simp, fun _ hnil => absurd hnil (by simp), hp, hq⟩, ?_⟩
        simp [UriParts.render, UriParts.scheme, UriParts.tail]
  · obtain ⟨authority, r, rfl, hfree, hr⟩ := exists_cut isPartDelim rest
    obtain ⟨p, q, f, rfl, hp, hq⟩ := exists_tail r hr
    refine ⟨⟨proto, false, authority, p, q, f⟩,
      ⟨hproto, hfree, fun _ => hslash, by simp, hp, hq⟩, ?_⟩
    simp [UriParts.render, UriParts.scheme, UriParts.tail]

/-! ## §3. What the grammar sees in a rendered URI. -/

theorem delimited_cut (d : UInt8) (part : Option CStr) (rest : CStr) {p : UInt8 → Bool}
    (hd : p d = true) (hrest : CutAt p rest) : CutAt p (delimited d part ++ rest) := by
  cases part with
  | none => exact hrest
  | some t => exact Or.inr ⟨d, t ++ rest, rfl, hd⟩

/-- The query and the fragment start with their delimiters. -/
theorem UriParts.query_cut (u : UriParts) :
    CutAt isTailDelim (delimited (ascii '?') u.query ++ delimited (ascii '#') u.fragment) := by
  have hfrag := delimited_cut (ascii '#') u.fragment [] (p := isTailDelim) (by decide) (Or.inl rfl)
  rw [List.append_nil] at hfrag
  exact delimited_cut (ascii '?') u.query _ (by decide) hfrag

/-- The tail starts with a delimiter. -/
theorem UriParts.tail_cut (u : UriParts) : CutAt isPartDelim u.tail := by
  have hfrag := delimited_cut (ascii '#') u.fragment [] (p := isPartDelim) (by decide) (Or.inl rfl)
  rw [List.append_nil] at hfrag
  exact delimited_cut (ascii '/') u.path _ (by decide)
    (delimited_cut (ascii '?') u.query _ (by decide) hfrag)

theorem after_colon_render (u : UriParts) (h : u.Scanned) :
    after (ascii ':') u.render
      = (if u.slashes then bytes "//" else []) ++ (u.authority ++ u.tail) := by
  have hfree : ascii ':' ∉ u.proto := fun hmem => (h.proto_free _ hmem).1 rfl
  unfold UriParts.render UriParts.scheme
  rw [List.append_assoc, List.cons_append, after_append_cons hfree]

/-- The `//` the grammar sees is the one the scan saw. -/
theorem slashes_render (u : UriParts) (h : u.Scanned) :
    bytes "//" <+: after (ascii ':') u.render ↔ u.slashes = true := by
  rw [after_colon_render u h]
  cases hds : u.slashes with
  | true => exact ⟨fun _ => rfl, fun _ => List.prefix_append _ _⟩
  | false => exact ⟨fun hpre => absurd hpre (h.slashes_marked hds), fun hn => by cases hn⟩

theorem hierText_render (u : UriParts) (h : u.Scanned) :
    hierText u.render = u.authority ++ u.tail := by
  have hslash := slashes_render u h
  unfold hierText
  dsimp only
  by_cases hds : u.slashes = true
  · rw [if_pos (hslash.mpr hds), after_colon_render u h, if_pos hds]
    rfl
  · rw [if_neg (fun hpre => hds (hslash.mp hpre)), after_colon_render u h, if_neg hds]
    rfl

/-- What the scan sees is what was written, where an authority is there. -/
theorem UriParts.Scanned.wf {u : UriParts} (h : u.Scanned) (ha : authorityText u.render ≠ []) :
    u.WF := by
  have hfree := h.seen_free
  unfold UriParts.seen at hfree
  unfold authorityText at ha
  rw [hierText_render u h] at ha
  have hauth : u.authority ≠ [] ∧ ∀ c ∈ u.authority, isPartDelim c = false := by
    cases hauthority : u.authority with
    | nil =>
        -- a delimiter, or nothing at all, is where the authority should start
        rw [hauthority, List.nil_append] at ha
        exact absurd (takeWhile_cut (a := []) (by simp) u.tail_cut).1 ha
    | cons a as =>
        rw [hauthority, List.cons_append, List.takeWhile_cons] at ha
        have hfirst : isPartDelim a = false := by
          cases hdelim : isPartDelim a with
          | false => rfl
          | true => exact absurd (if_neg (by simp [hdelim])) ha
        refine ⟨by simp, ?_⟩
        intro c hc
        rw [hauthority] at hfree
        rcases List.mem_cons.mp hc with rfl | hmem
        · exact hfirst
        · split at hfree
          · exact hfree c hmem
          · exact hfree c hc
  exact ⟨h.proto_free, hauth.1, hauth.2, h.path_free, h.query_free⟩

/-- **A text with a scheme and an authority is a rendered URI.** -/
theorem exists_parts {uri : CStr} (hs : HasScheme uri) (ha : authorityText uri ≠ []) :
    ∃ u : UriParts, u.WF ∧ u.render = uri := by
  obtain ⟨u, h, rfl⟩ := exists_scanned hs
  exact ⟨u, h.wf ha, rfl⟩

/-- Neither `?` nor `#` occurs before the query. -/
theorem UriParts.hier_free (u : UriParts) (h : u.WF) :
    ∀ c ∈ u.authority ++ delimited (ascii '/') u.path, isTailDelim c = false := by
  intro c hc
  unfold isTailDelim
  rcases List.mem_append.mp hc with hc | hc
  · have hdelim := h.authority_free c hc
    unfold isPartDelim at hdelim
    grind
  · cases hp : u.path with
    | none => rw [hp] at hc; simp at hc
    | some p =>
        rw [hp, delimited_some, List.mem_cons] at hc
        rcases hc with rfl | hc
        · decide
        · simpa using h.path_free p hp c hc

theorem UriParts.scheme_free (u : UriParts) (h : u.WF) :
    ∀ c ∈ u.scheme, isTailDelim c = false := by
  intro c hc
  unfold UriParts.scheme at hc
  rcases List.mem_append.mp hc with hc | hc
  · have hdelim := (h.proto_free c hc).2
    unfold isPartDelim at hdelim
    unfold isTailDelim
    grind
  · rcases List.mem_cons.mp hc with rfl | hc
    · decide
    · have hslash : ∀ x ∈ bytes "//", isTailDelim x = false := by decide +kernel
      cases hds : u.slashes with
      | true => rw [hds] at hc; exact hslash c hc
      | false => rw [hds] at hc; simp at hc

/-- What starts the query or the fragment does not occur in front of them. -/
theorem UriParts.not_mem_front (u : UriParts) (h : u.WF) {d : UInt8} (hd : isTailDelim d = true) :
    d ∉ u.front := by
  intro hmem
  have hno : isTailDelim d = false := by
    rcases List.mem_append.mp hmem with hmem | hmem
    · exact u.scheme_free h d hmem
    · exact u.hier_free h d hmem
  rw [hd] at hno
  cases hno

theorem queryText_render (u : UriParts) (h : u.WF) : queryText u.render = u.query := by
  have htail : (hierText u.render).dropWhile (fun c => !isTailDelim c)
      = delimited (ascii '?') u.query ++ delimited (ascii '#') u.fragment := by
    rw [hierText_render u h.scanned]
    unfold UriParts.tail
    rw [← List.append_assoc]
    exact (takeWhile_cut (u.hier_free h) u.query_cut).2
  unfold queryText
  rw [htail]
  cases hq : u.query with
  | none =>
      apply if_neg
      cases u.fragment with
      | none => simp
      | some f => simp
  | some q =>
      have hclean := h.query_free q hq
      show (if some (ascii '?') = some (ascii '?') then
        some (before (ascii '#') (q ++ delimited (ascii '#') u.fragment)) else none) = some q
      rw [if_pos rfl]
      cases u.fragment with
      | none => rw [delimited_none, List.append_nil, before_of_not_mem hclean]
      | some f => rw [delimited_some, before_append_cons hclean]

/-- Text in front of the query does not matter for how a text ends. -/
theorem endsInQuery_front {front : CStr} (hquery : ascii '?' ∉ front) (hhash : ascii '#' ∉ front)
    (q f : Option CStr) :
    EndsInQuery (front ++ (delimited (ascii '?') q ++ delimited (ascii '#') f))
      ↔ q = some [] ∧ f = none := by
  unfold EndsInQuery
  constructor
  · intro hends
    obtain ⟨hmem, hafter, hnone⟩ := hends
    have hf : f = none := by
      cases f with
      | none => rfl
      | some f => simp at hnone
    refine ⟨?_, hf⟩
    rw [hf, delimited_none, List.append_nil] at hmem hafter
    cases q with
    | none => rw [delimited_none, List.append_nil] at hmem; exact absurd hmem hquery
    | some q =>
        rw [delimited_some, after_append_cons hquery] at hafter
        rw [hafter]
  · intro hparts
    obtain ⟨rfl, rfl⟩ := hparts
    rw [delimited_some, delimited_none, List.append_nil, after_append_cons hquery]
    refine ⟨by simp, rfl, ?_⟩
    intro hmem
    rcases List.mem_append.mp hmem with hmem | hmem
    · exact hhash hmem
    · exact absurd hmem (by decide)

/-- A rendered URI ends in its `?` exactly where the query is empty and last. -/
theorem endsInQuery_render (u : UriParts) (h : u.WF) :
    EndsInQuery u.render ↔ u.query = some [] ∧ u.fragment = none := by
  rw [u.render_front]
  exact endsInQuery_front (u.not_mem_front h (by decide)) (u.not_mem_front h (by decide)) _ _

/-! ## §4. What the scan records without an authority. -/

/-- Past the first stage the position of the scheme is settled. -/
theorem uriLoop_proto (length : Nat) :
    ∀ (uri : CStr) (i skip : Nat) (s : UriScan), foundAuthority ≤ s.stage →
      (uriLoop length uri i skip s).pos.proto = s.pos.proto
  | [], _, _, _, _ => by rw [uriLoop]
  | _ :: rest, i, skip + 1, s, hs => by
      rw [uriLoop]
      exact uriLoop_proto length rest (i + 1) skip s hs
  | c :: rest, i, 0, s, hs => by
      -- a `:` is text by now, and the three delimiters only raise the stage
      rw [uriLoop, if_neg (fun hn => by omega)]
      split
      · rw [uriLoop_proto length rest (i + 1) 0 _ (show foundAuthority ≤ foundPath by decide)]
      · split
        · rw [uriLoop_proto length rest (i + 1) 0 _ (show foundAuthority ≤ foundQuery by decide)]
        · split
          · rw [uriLoop_proto length rest (i + 1) 0 _
              (show foundAuthority ≤ foundFragment by decide)]
          · exact uriLoop_proto length rest (i + 1) 0 s hs

/-- Without a scheme no position of one is recorded. -/
theorem uriLoop_no_scheme {uri : CStr} (hs : ¬ HasScheme uri) (length : Nat) (pos : UriPos) :
    (uriLoop length uri 0 0 ⟨1, pos, 0⟩).pos.proto = pos.proto := by
  obtain ⟨proto, r, rfl, hp, hr⟩ := exists_cut (fun c => c == ascii ':' || isPartDelim c) uri
  unfold HasScheme at hs
  rw [(takeWhile_cut hp hr).2] at hs
  rw [uriLoop_first length pos (fun c hc => by simpa using hp c hc) r]
  obtain rfl | ⟨c, t, rfl, hc⟩ := hr
  · rfl
  · -- the first delimiter is no `:`, and ends the first stage
    have hcolon : c ≠ ascii ':' := fun hn => hs (by rw [hn]; rfl)
    have hdelim : isPartDelim c = true := by simpa [hcolon] using hc
    rw [uriLoop, if_neg (fun hn => hcolon hn.2)]
    unfold isPartDelim at hdelim
    split
    · rw [uriLoop_proto length t _ 0 _ (show foundAuthority ≤ foundPath by decide)]
    · split
      · rw [uriLoop_proto length t _ 0 _ (show foundAuthority ≤ foundQuery by decide)]
      · split
        · rw [uriLoop_proto length t _ 0 _ (show foundAuthority ≤ foundFragment by decide)]
        · next hslash hquery hhash =>
          have hstage : (1 : Nat) < foundPath ∧ 1 < foundQuery ∧ 1 < foundFragment := by decide
          grind

/-- With a scheme its position is recorded. -/
theorem uriLoop_scheme (length : Nat) (pos : UriPos) (proto rest : CStr)
    (h : ∀ c ∈ proto, c ≠ ascii ':' ∧ isPartDelim c = false) :
    (uriLoop length (proto ++ ascii ':' :: rest) 0 0 ⟨1, pos, 0⟩).pos.proto = proto.length := by
  rw [uriLoop_first length pos h, uriLoop, if_pos ⟨Nat.lt_succ_self 1, rfl⟩]
  split
  · rw [uriLoop_proto length rest _ 3 _ (Nat.le_refl foundAuthority)]
  · rw [uriLoop_proto length rest _ 0 _ (Nat.le_refl foundAuthority)]

/-! ## §5. The return code. -/

/-- Without a scheme the parser stops at once, as the grammar asks. -/
theorem uriparseParse_no_scheme {uri : CStr} (hs : ¬ HasScheme uri) (mem : UriMem) :
    ∃ parsed, uriparseParse mem uri (uriparseCreate uri) = some (foundProto, parsed) := by
  have hproto := uriLoop_no_scheme hs uri.length
    { (uriparseCreate uri).pos with start := 0, fend := uri.length }
  exact ⟨_, if_pos hproto⟩

/-- A URI that is over after its `:` is the only one refused for its authority. -/
theorem uriparseParse_bare_scheme {uri : CStr} (hs : HasScheme uri)
    (hrest : after (ascii ':') uri = []) (mem : UriMem) :
    ∃ parsed, uriparseParse mem uri (uriparseCreate uri) = some (foundAuthority, parsed) := by
  obtain ⟨proto, rest, rfl, hfree, hafter⟩ := exists_scheme hs
  rw [hafter] at hrest
  subst hrest
  set uri := proto ++ [ascii ':'] with huri
  set pos : UriPos := { (uriparseCreate uri).pos with start := 0, fend := uri.length } with hpos
  have hloop : uriLoop uri.length uri 0 0 ⟨1, pos, 0⟩
      = ⟨foundAuthority, { pos with proto := proto.length }, 0⟩ := by
    rw [huri, uriLoop_first _ pos hfree, uriLoop, if_pos ⟨Nat.lt_succ_self 1, rfl⟩,
      if_neg (by simp)]
    rfl
  have hlen : uri.length = proto.length + 1 := by
    rw [huri, List.length_append, List.length_singleton]
  have hauth : (authorityDefault uri.length { pos with proto := proto.length }).authority = -1 := by
    show (if (-1 : Int) = -1 ∧ ((proto.length : Int)) + 1 < uri.length then (uri.length : Int)
      else -1) = -1
    rw [if_neg (by omega)]
  unfold uriparseParse
  simp only
  rw [hloop]
  refine ⟨_, (if_neg ?_).trans (if_pos hauth)⟩
  show ¬ (proto.length : Int) = -1
  omega

/-- **Any text after the `:` is enough for the authority check.** -/
theorem uriparseParse_passes_authority {uri : CStr} (hs : HasScheme uri)
    (hrest : after (ascii ':') uri ≠ []) (mem : UriMem) :
    ∀ r, uriparseParse mem uri (uriparseCreate uri) = some r → r.1 ≠ foundAuthority := by
  obtain ⟨proto, rest, rfl, hfree, hafter⟩ := exists_scheme hs
  rw [hafter] at hrest
  set uri := proto ++ ascii ':' :: rest with huri
  have hproto := uriLoop_scheme uri.length
    { (uriparseCreate uri).pos with start := 0, fend := uri.length } proto rest hfree
  rw [← huri] at hproto
  have hpos := List.length_pos_of_ne_nil hrest
  have hlen : uri.length = proto.length + 1 + rest.length := by
    rw [huri, List.length_append, List.length_cons]
    omega
  -- if nothing else is set, the default is the end of the URI
  have hauth : (authorityDefault uri.length (uriLoop uri.length uri 0 0
      ⟨1, { (uriparseCreate uri).pos with start := 0, fend := uri.length }, 0⟩).pos).authority
        ≠ -1 := by
    apply authorityDefault_ne
    rw [hproto]
    omega
  have hrun : uriparseParse mem uri (uriparseCreate uri) = _ :=
    (if_neg (fun hnone => by
      have hnone' := hproto.symm.trans hnone
      omega)).trans (if_neg hauth)
  intro r hr
  rw [hrun] at hr
  dsimp only at hr
  split at hr
  · cases hr
  · obtain rfl := Option.some.inj hr
    show (if _ then foundQuery else 0) ≠ foundAuthority
    split <;> decide

/-- What the grammar's restriction on queries gives for the text that
`parse_query` is handed. -/
theorem queryField_ok (u : UriParts) (hstr : IsCStr u.render)
    (hquery : ∀ q ∈ u.query, ¬ bytes "%00" <:+: q
      ∧ (q.splitOn (ascii '&')).length ≤ strArrayMax) : QueryOk u.queryField := by
  have hdelim : isDelim (bytes "&") = (· == ascii '&') := by
    funext c
    rw [Bool.eq_iff_iff]
    simp [isDelim, bytes]
  have hcount : ∀ t : CStr, (queryParts t).length ≤ (t.splitOn (ascii '&')).length := by
    intro t
    unfold queryParts
    rw [hdelim]
    exact length_runs_le _ t
  unfold UriParts.queryField
  cases hq : u.query with
  | none => exact queryOk_nil
  | some q =>
      obtain ⟨hnul, hparts⟩ := hquery q hq
      have hin : q <:+: u.render := by
        unfold UriParts.render UriParts.tail
        rw [hq, delimited_some]
        exact ⟨u.scheme ++ (u.authority ++ (delimited (ascii '/') u.path ++ [ascii '?'])),
          delimited (ascii '#') u.fragment, by simp⟩
      have hraw := hstr.of_isInfix hin
      show QueryOk (if u.fragment = some [] then q ++ [ascii '#'] else q)
      split
      · -- the `#` that is taken along makes neither an escape nor a part
        refine ⟨?_, ?_, ?_⟩
        · unfold IsCStr at hraw ⊢
          simpa [hraw] using (by decide : (0 : UInt8) ≠ ascii '#')
        · exact fun hesc => hnul (infix_of_infix_concat (w := bytes "%0") (c := ascii '0') (by simp) hesc)
        · apply (hcount _).trans
          rw [List.splitOn, length_splitOnP_concat (by decide)]
          exact hparts
      · exact ⟨hraw, hnul, (hcount q).trans hparts⟩

/-- A query that ends in its `?` is read from a block nothing was stored in. -/
theorem uriparseParse_ends_in_query (u : UriParts) (h : u.WF) (hq : u.query = some [])
    (hf : u.fragment = none) :
    ∃ mem parsed, uriparseParse mem u.render (uriparseCreate u.render)
      = some (foundQuery, parsed) := by
  have hrun : (parseQuery (bytes "%00=") (nvlistCreate 1)).map Prod.fst = some (-1) := by decide
  refine ⟨⟨[], bytes "%00=", []⟩, ?_⟩
  rw [uriparseParse_render u h.scanned h.goes_on, chopped_query_bare u _ hq hf]
  cases hres : parseQuery (bytes "%00=") (nvlistCreate 1) with
  | none => rw [hres] at hrun; cases hrun
  | some r =>
      rw [hres, Option.map_some, Option.some.injEq] at hrun
      rw [Option.map_some, hrun]
      exact ⟨_, rfl⟩

/-- Every other URI with an authority is accepted. -/
theorem uriparseParse_accepts (u : UriParts) (h : u.WF)
    (hbare : ¬ (u.query = some [] ∧ u.fragment = none)) (hok : QueryOk u.queryField)
    (mem : UriMem) :
    ∃ parsed, uriparseParse mem u.render (uriparseCreate u.render) = some (0, parsed) := by
  obtain ⟨nvquery, hrun⟩ := parseQuery_ok hok (nvlistCreate_wf 1)
  refine ⟨{ u.chopped mem with nvquery := nvquery }, ?_⟩
  rw [uriparseParse_render u h.scanned h.goes_on, chopped_query u mem (fun hq hf => hbare ⟨hq, hf⟩), hrun]
  rfl

/-- **WHERE THE PARSER FOLLOWS ITS GRAMMAR.**  It does not notice that the
authority is missing unless the URI is over after the `:`, and it reads memory
it never wrote where the URI ends in its `?`. -/
theorem uriparseParse_grammar_iff {uri : CStr} (hstr : IsCStr uri)
    (hquery : ∀ q ∈ queryText uri, ¬ bytes "%00" <:+: q
      ∧ (q.splitOn (ascii '&')).length ≤ strArrayMax) :
    (∀ mem, ∃ parsed,
        uriparseParse mem uri (uriparseCreate uri) = some (grammarCode uri, parsed))
      ↔ (HasScheme uri → (authorityText uri = [] → after (ascii ':') uri = [])
          ∧ (authorityText uri ≠ [] → ¬ EndsInQuery uri)) := by
  unfold grammarCode
  by_cases hs : HasScheme uri
  · rw [if_pos hs]
    by_cases ha : authorityText uri = []
    · rw [if_pos ha]
      by_cases hrest : after (ascii ':') uri = []
      · -- refused, and rightly so
        exact ⟨fun _ _ => ⟨fun _ => hrest, fun hne => absurd ha hne⟩,
          fun _ mem => uriparseParse_bare_scheme hs hrest mem⟩
      · -- accepted, though nothing stands where the authority should
        constructor
        · intro hall
          obtain ⟨parsed, hrun⟩ := hall ⟨[], [], []⟩
          exact absurd rfl (uriparseParse_passes_authority hs hrest _ _ hrun)
        · intro hcond
          exact absurd ((hcond hs).1 ha) hrest
    · rw [if_neg ha]
      obtain ⟨u, hwf, rfl⟩ := exists_parts hs ha
      rw [queryText_render u hwf] at hquery
      rw [endsInQuery_render u hwf]
      constructor
      · intro hall _
        refine ⟨fun hnil => absurd hnil ha, ?_⟩
        intro _ hends
        obtain ⟨mem, parsed, hrun⟩ := uriparseParse_ends_in_query u hwf hends.1 hends.2
        obtain ⟨parsed', hrun'⟩ := hall mem
        rw [hrun] at hrun'
        have hcode := congrArg Prod.fst (Option.some.inj hrun')
        exact absurd hcode (show foundQuery ≠ 0 by decide)
      · intro hcond mem
        exact uriparseParse_accepts u hwf ((hcond hs).2 ha) (queryField_ok u hstr hquery) mem
  · rw [if_neg hs]
    exact ⟨fun _ h => absurd h hs, fun _ mem => uriparseParse_no_scheme hs mem⟩

/-- `a:/p` has no authority, and is accepted. -/
theorem uriparseParse_accepts_no_authority :
    grammarCode (bytes "a:/p") = foundAuthority
      ∧ ∀ mem, ∃ parsed, uriparseParse mem (bytes "a:/p") (uriparseCreate (bytes "a:/p"))
          = some (0, parsed) :=
  ⟨by decide, fun _ => ⟨_, rfl⟩⟩

/-- A URI the parser and its grammar agree on. -/
theorem uriparseParse_grammar_iff_sample :
    (∀ mem, ∃ parsed, uriparseParse mem (bytes "a:b?q") (uriparseCreate (bytes "a:b?q"))
        = some (grammarCode (bytes "a:b?q"), parsed))
      ↔ (HasScheme (bytes "a:b?q") →
          (authorityText (bytes "a:b?q") = [] → after (ascii ':') (bytes "a:b?q") = [])
          ∧ (authorityText (bytes "a:b?q") ≠ [] → ¬ EndsInQuery (bytes "a:b?q"))) :=
  uriparseParse_grammar_iff (by decide) (by decide)

end Protohand
