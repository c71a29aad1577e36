/-
  Protohand.UriParse.Scan
  ───────────────────────
  **WHAT THE SCAN OF `uriparse_parse` FINDS**, in a URI written from its parts.

  `UriParts` is a URI before it is written down, `UriParts.render` writes it.
  The scan of the rendered text is followed delimiter by delimiter, from the
  last one forwards (`uriLoop_fragment`, `uriLoop_query`, `uriLoop_path`), and
  then across the scheme and the `://` jump (`uriLoop_head`).  The result is
  one equation for all recorded positions (`uriLoop_render`).
-/
import Protohand.UriParse.Query

namespace Protohand

open Text

/-! ## §1. URIs as parts. -/

/-- The delimiters that end an authority. -/
def isPartDelim (c : UInt8) : Bool := c == ascii '/' || c == ascii '?' || c == ascii '#'

/-- A URI before it is written down.  A part that is `none` has no delimiter. -/
structure UriParts where
  proto : CStr
  slashes : Bool
  authority : CStr
  path : Option CStr
  query : Option CStr
  fragment : Option CStr

/-- A part behind its delimiter, or nothing. -/
def delimited (d : UInt8) (part : Option CStr) : CStr := part.elim [] (d :: ·)

@[simp] theorem delimited_none (d : UInt8) : delimited d none = [] := rfl

@[simp] theorem delimited_some (d : UInt8) (part : CStr) :
    delimited d (some part) = d :: part := rfl

/-- `proto:[//]`. -/
def UriParts.scheme (u : UriParts) : CStr :=
  u.proto ++ ascii ':' :: (if u.slashes then bytes "//" else [])

/-- `[/path][?query][#fragment]`. -/
def UriParts.tail (u : UriParts) : CStr :=
  delimited (ascii '/') u.path ++ (delimited (ascii '?') u.query
    ++ delimited (ascii '#') u.fragment)

/-- `proto:[//]authority[/path][?query][#fragment]`. -/
def UriParts.render (u : UriParts) : CStr := u.scheme ++ (u.authority ++ u.tail)

/-- No part holds a delimiter that would end it. -/
structure UriParts.WF (u : UriParts) : Prop where
  proto_free : ∀ c ∈ u.proto, c ≠ ascii ':' ∧ isPartDelim c = false
  authority_ne : u.authority ≠ []
  authority_free : ∀ c ∈ u.authority, isPartDelim c = false
  path_free : ∀ p ∈ u.path, ∀ c ∈ p, c ≠ ascii '?' ∧ c ≠ ascii '#'
  query_free : ∀ q ∈ u.query, ascii '#' ∉ q

/-- The part of an authority the scan looks at: the jump across `//` hides its
first character. -/
def UriParts.seen (u : UriParts) : CStr := if u.slashes then u.authority.drop 1 else u.authority

/-- What the scan itself asks of the parts.  An authority may be missing, and
one behind `//` may start with any character. -/
structure UriParts.Scanned (u : UriParts) : Prop where
  proto_free : ∀ c ∈ u.proto, c ≠ ascii ':' ∧ isPartDelim c = false
  seen_free : ∀ c ∈ u.seen, isPartDelim c = false
  slashes_marked : u.slashes = false → ¬ bytes "//" <+: u.authority ++ u.tail
  -- the character behind `//` is never a delimiter of the tail
  jump_clear : u.slashes = true → u.authority = [] → u.tail = []
  path_free : ∀ p ∈ u.path, ∀ c ∈ p, c ≠ ascii '?' ∧ c ≠ ascii '#'
  query_free : ∀ q ∈ u.query, ascii '#' ∉ q

/-- No authority without a delimiter starts with `//`. -/
theorem not_slashes_start {a rest : CStr} (hne : a ≠ [])
    (hfree : ∀ c ∈ a, isPartDelim c = false) : ¬ bytes "//" <+: a ++ rest := by
  intro hpre
  obtain ⟨x, as, rfl⟩ := List.exists_cons_of_ne_nil hne
  obtain ⟨t, ht⟩ := hpre
  have hx : x = ascii '/' := (List.cons.inj ht).1.symm
  have hdelim := hfree x List.mem_cons_self
  rw [hx] at hdelim
  exact absurd hdelim (by decide)

/-- A URI without stray delimiters is scanned as it was written. -/
theorem UriParts.WF.scanned {u : UriParts} (h : u.WF) : u.Scanned where
  proto_free := h.proto_free
  seen_free := by
    intro c hc
    unfold UriParts.seen at hc
    split at hc
    · exact h.authority_free c (List.mem_of_mem_drop hc)
    · exact h.authority_free c hc
  slashes_marked := fun _ => not_slashes_start h.authority_ne h.authority_free
  jump_clear := fun _ hnil => absurd hnil h.authority_ne
  path_free := h.path_free
  query_free := h.query_free

/-! ## §2. The loop between two delimiters. -/

/-- The characters that move the scan on to another stage. -/
def Moves (stage : Nat) (c : UInt8) : Prop :=
  (stage < foundAuthority ∧ c = ascii ':') ∨ (stage < foundPath ∧ c = ascii '/')
    ∨ (stage < foundQuery ∧ c = ascii '?') ∨ (stage < foundFragment ∧ c = ascii '#')

/-- Any other character is passed over. -/
theorem uriLoop_quiet (length : Nat) (rest : CStr) (s : UriScan) :
    ∀ (a : CStr) (i : Nat), (∀ c ∈ a, ¬ Moves s.stage c) →
      uriLoop length (a ++ rest) i 0 s = uriLoop length rest (i + a.length) 0 s
  | [], i, _ => rfl
  | c :: a, i, h => by
      have hc := h c List.mem_cons_self
      unfold Moves at hc
      push Not at hc
      obtain ⟨hcolon, hslash, hquery, hfragment⟩ := hc
      rw [List.cons_append, uriLoop, if_neg (fun hn => hcolon hn.1 hn.2),
        if_neg (fun hn => hslash hn.1 hn.2), if_neg (fun hn => hquery hn.1 hn.2),
        if_neg (fun hn => hfragment hn.1 hn.2),
        uriLoop_quiet length rest s a (i + 1) (fun x hx => h x (List.mem_cons_of_mem _ hx)),
        List.length_cons]
      congr 1
      omega

/-- The jump `i=i+3` passes over what it jumps across. -/
theorem uriLoop_skip (length : Nat) (rest : CStr) (s : UriScan) :
    ∀ (a : CStr) (i : Nat),
      uriLoop length (a ++ rest) i a.length s = uriLoop length rest (i + a.length) 0 s
  | [], i => rfl
  | c :: a, i => by
      rw [List.cons_append, List.length_cons, uriLoop, uriLoop_skip length rest s a (i + 1)]
      congr 1
      omega

/-- In the last stage nothing is recorded any more. -/
theorem uriLoop_done (length : Nat) (a : CStr) (i : Nat) (s : UriScan)
    (hs : s.stage = foundFragment) : uriLoop length a i 0 s = s := by
  have hquiet : ∀ c ∈ a, ¬ Moves s.stage c := by
    intro c _
    unfold Moves
    rw [hs]
    simp [foundAuthority, foundPath, foundQuery, foundFragment]
  have h := uriLoop_quiet length [] s a i hquiet
  rw [List.append_nil] at h
  rw [h]
  rfl

/-! ## §3. The delimiters, from the last one forwards. -/

/-- The fragment: any `#` ahead ends the scan. -/
theorem uriLoop_fragment (length : Nat) (f : Option CStr) (i : Nat) (s : UriScan)
    (hs : s.stage < foundFragment) :
    (uriLoop length (delimited (ascii '#') f) i 0 s).pos
        = { s.pos with fragment := f.elim s.pos.fragment (fun _ => foundAt length i) }
      ∧ (uriLoop length (delimited (ascii '#') f) i 0 s).doubleslash = s.doubleslash := by
  cases f with
  | none => exact ⟨rfl, rfl⟩
  | some f =>
      rw [delimited_some, uriLoop, if_neg (by simp), if_neg (by simp), if_neg (by simp),
        if_pos ⟨hs, rfl⟩, uriLoop_done length f (i + 1) _ rfl]
      exact ⟨rfl, rfl⟩

/-- The query, and a fragment behind it. -/
theorem uriLoop_query (length : Nat) (q f : Option CStr) (hq : ∀ t ∈ q, ascii '#' ∉ t)
    (i : Nat) (s : UriScan) (hs : s.stage < foundQuery) :
    (uriLoop length (delimited (ascii '?') q ++ delimited (ascii '#') f) i 0 s).pos
        = { s.pos with
            query := q.elim s.pos.query (fun _ => foundAt length i)
            fragment := f.elim s.pos.fragment
              (fun _ => foundAt length (i + (delimited (ascii '?') q).length)) }
      ∧ (uriLoop length (delimited (ascii '?') q ++ delimited (ascii '#') f) i 0 s).doubleslash
          = s.doubleslash := by
  cases q with
  | none => exact uriLoop_fragment length f i s (Nat.lt_succ_of_lt hs)
  | some q =>
      have hquiet : ∀ c ∈ q, ¬ Moves foundQuery c := by
        intro c hc hmoves
        obtain ⟨h, _⟩ | ⟨h, _⟩ | ⟨h, _⟩ | ⟨_, h⟩ := hmoves
        · exact absurd h (by decide)
        · exact absurd h (by decide)
        · exact absurd h (by decide)
        · exact hq q rfl (h ▸ hc)
      rw [delimited_some, List.cons_append, uriLoop, if_neg (by simp), if_neg (by simp),
        if_pos ⟨hs, rfl⟩, uriLoop_quiet length _ _ q (i + 1) hquiet]
      obtain ⟨hpos, hds⟩ := uriLoop_fragment length f (i + 1 + q.length)
        { s with stage := foundQuery, pos := { s.pos with query := foundAt length i } }
        (Nat.lt_succ_self foundQuery)
      have hlen : i + 1 + q.length = i + (ascii '?' :: q).length := by
        rw [List.length_cons]; omega
      rw [hlen] at hpos hds ⊢
      exact ⟨hpos, hds⟩

/-- The path, and what follows it. -/
theorem uriLoop_path (length : Nat) (p q f : Option CStr)
    (hp : ∀ t ∈ p, ∀ c ∈ t, c ≠ ascii '?' ∧ c ≠ ascii '#') (hq : ∀ t ∈ q, ascii '#' ∉ t)
    (i : Nat) (s : UriScan) (hs : s.stage < foundPath) :
    (uriLoop length (delimited (ascii '/') p
        ++ (delimited (ascii '?') q ++ delimited (ascii '#') f)) i 0 s).pos
        = { s.pos with
            path := p.elim s.pos.path (fun _ => foundAt length i)
            query := q.elim s.pos.query
              (fun _ => foundAt length (i + (delimited (ascii '/') p).length))
            fragment := f.elim s.pos.fragment
              (fun _ => foundAt length (i + (delimited (ascii '/') p).length
                + (delimited (ascii '?') q).length)) }
      ∧ (uriLoop length (delimited (ascii '/') p
          ++ (delimited (ascii '?') q ++ delimited (ascii '#') f)) i 0 s).doubleslash
          = s.doubleslash := by
  cases p with
  | none => exact uriLoop_query length q f hq i s (Nat.lt_succ_of_lt hs)
  | some p =>
      have hquiet : ∀ c ∈ p, ¬ Moves foundPath c := by
        intro c hc hmoves
        obtain ⟨h, _⟩ | ⟨h, _⟩ | ⟨_, h⟩ | ⟨_, h⟩ := hmoves
        · exact absurd h (by decide)
        · exact absurd h (by decide)
        · exact (hp p rfl c hc).1 h
        · exact (hp p rfl c hc).2 h
      rw [delimited_some, List.cons_append, uriLoop, if_neg (by simp),
        if_pos ⟨hs, rfl⟩, uriLoop_quiet length _ _ p (i + 1) hquiet]
      obtain ⟨hpos, hds⟩ := uriLoop_query length q f hq (i + 1 + p.length)
        { s with stage := foundPath, pos := { s.pos with path := foundAt length i } }
        (Nat.lt_succ_self foundPath)
      have hlen : i + 1 + p.length = i + (ascii '/' :: p).length := by
        rw [List.length_cons]; omega
      rw [hlen] at hpos hds ⊢
      exact ⟨hpos, hds⟩

/-! ## §4. The scheme and the authority. -/

/-- Text without a delimiter is passed over in the first stage. -/
theorem uriLoop_first (length : Nat) (pos : UriPos) {proto : CStr}
    (h : ∀ c ∈ proto, c ≠ ascii ':' ∧ isPartDelim c = false) (r : CStr) :
    uriLoop length (proto ++ r) 0 0 ⟨1, pos, 0⟩ = uriLoop length r proto.length 0 ⟨1, pos, 0⟩ := by
  have hquiet : ∀ c ∈ proto, ¬ Moves 1 c := by
    intro c hc hmoves
    obtain ⟨hcolon, hdelim⟩ := h c hc
    unfold isPartDelim at hdelim
    unfold Moves at hmoves
    grind
  rw [uriLoop_quiet length r ⟨1, pos, 0⟩ proto 0 hquiet, Nat.zero_add]

/-- Text the scan may pass over behind the scheme. -/
theorem quiet_of_free {a : CStr} (h : ∀ c ∈ a, isPartDelim c = false) :
    ∀ c ∈ a, ¬ Moves foundAuthority c := by
  intro c hc hmoves
  have hdelim := h c hc
  unfold Moves at hmoves
  unfold isPartDelim at hdelim
  grind

/-- The two characters behind the `:` are looked at one by one. -/
theorem slashes_iff_start (r : CStr) :
    (r[0]? = some (ascii '/') ∧ r[1]? = some (ascii '/')) ↔ bytes "//" <+: r := by
  show _ ↔ [ascii '/', ascii '/'] <+: r
  cases r with
  | nil => simp
  | cons x r =>
      cases r with
      | nil => simp
      | cons y r =>
          rw [List.cons_prefix_cons, List.cons_prefix_cons]
          simp [eq_comm]

/-- **Across the scheme**: the `:` is recorded, `//` is jumped over together
with the first character of the authority, and the authority is passed over. -/
theorem uriLoop_head (u : UriParts) (h : u.Scanned) (length : Nat) (pos : UriPos) :
    uriLoop length u.render 0 0 ⟨1, pos, 0⟩
      = uriLoop length u.tail (u.scheme.length + u.authority.length) 0
          ⟨foundAuthority, { pos with proto := u.proto.length }, if u.slashes then 2 else 0⟩ := by
  unfold UriParts.render UriParts.scheme
  rw [List.append_assoc, uriLoop_first length pos h.proto_free, List.cons_append,
    uriLoop, if_pos ⟨Nat.lt_succ_self 1, rfl⟩]
  cases hds : u.slashes with
  | true =>
      rw [if_pos ⟨rfl, rfl⟩]
      cases hauth : u.authority with
      | nil =>
          -- the URI is over before the jump is
          rw [h.jump_clear hds hauth]
          rfl
      | cons a as =>
          have hfree : ∀ c ∈ as, isPartDelim c = false := by
            have hseen := h.seen_free
            unfold UriParts.seen at hseen
            rwa [if_pos hds, hauth] at hseen
          -- the jump also crosses `a`, the first character of the authority
          have hjump := uriLoop_skip length (as ++ u.tail)
            ⟨foundAuthority, { pos with proto := u.proto.length }, 2⟩
            [ascii '/', ascii '/', a] (u.proto.length + 1)
          rw [uriLoop_quiet length u.tail _ as _ (quiet_of_free hfree)] at hjump
          refine Eq.trans hjump ?_
          congr 1
          simp [bytes]
          omega
  | false =>
      have hfree : ∀ c ∈ u.authority, isPartDelim c = false := by
        have hseen := h.seen_free
        unfold UriParts.seen at hseen
        rwa [hds] at hseen
      have hrest : ¬ ((u.authority ++ u.tail)[0]? = some (ascii '/')
          ∧ (u.authority ++ u.tail)[1]? = some (ascii '/')) :=
        fun hn => h.slashes_marked hds ((slashes_iff_start _).mp hn)
      rw [if_neg (by simpa using hrest)]
      simp only [Bool.false_eq_true, if_false, List.nil_append]
      rw [uriLoop_quiet length u.tail _ u.authority _ (quiet_of_free hfree)]
      congr 1
      simp

/-- Where the tail of a rendered URI starts. -/
def UriParts.tailAt (u : UriParts) : Nat := u.scheme.length + u.authority.length

/-- **EVERY POSITION THE SCAN RECORDS.** -/
theorem uriLoop_render (u : UriParts) (h : u.Scanned) (length : Nat) (pos : UriPos) :
    (uriLoop length u.render 0 0 ⟨1, pos, 0⟩).pos
        = { pos with
            proto := u.proto.length
            path := u.path.elim pos.path (fun _ => foundAt length u.tailAt)
            query := u.query.elim pos.query
              (fun _ => foundAt length (u.tailAt + (delimited (ascii '/') u.path).length))
            fragment := u.fragment.elim pos.fragment
              (fun _ => foundAt length (u.tailAt + (delimited (ascii '/') u.path).length
                + (delimited (ascii '?') u.query).length)) }
      ∧ (uriLoop length u.render 0 0 ⟨1, pos, 0⟩).doubleslash = if u.slashes then 2 else 0 := by
  rw [uriLoop_head u h length pos]
  exact uriLoop_path length u.path u.query u.fragment h.path_free h.query_free u.tailAt _
    (Nat.lt_succ_self foundAuthority)

end Protohand
