/-
  Protohand.UriParse.Positions
  ────────────────────────────
  **THE POSITION TABLE OF `uriparse_parse` IS ORDERED**, for every text.

  The scan is followed round by round, with `Scanning` as its invariant: what
  is recorded so far ascends and lies behind the index, what has not had its
  stage yet is unset, and the jump across `://` is still paid for by `skip`.
  The three delimiters behind the scheme share one step (`Scanning.delimiter`).
  The default then only picks one of the positions that are there
  (`authorityDefault_authority`).

  Main result:
    * `uriparseParse_positions`: the whole table, for every URI.
-/
import Protohand.UriParse.Access

namespace Protohand

/-! ## §1. The table. -/

/-- What the scan leaves behind, for a URI that `uriparse_create` took in. -/
def uriScanned (uri : CStr) : UriScan :=
  uriLoop uri.length uri 0 0
    ⟨1, { (uriparseCreate uri).pos with start := 0, fend := uri.length }, 0⟩

/-- `pos[]` behind the scan and the defaults. -/
def uriPositions (uri : CStr) : UriPos := authorityDefault uri.length (uriScanned uri).pos

/-- `pos[FOUND_PATH]`, `pos[FOUND_QUERY]` and `pos[FOUND_FRAGMENT]`, where they are set. -/
def UriPos.parts (pos : UriPos) : List Int := [pos.path, pos.query, pos.fragment].filter (· != -1)

/-- The same with `pos[FOUND_PROTO]` in front. -/
def UriPos.recorded (pos : UriPos) : List Int :=
  [pos.proto, pos.path, pos.query, pos.fragment].filter (· != -1)

/-- All seven of them, where they are set. -/
def UriPos.entries (pos : UriPos) : List Int :=
  [pos.start, pos.proto, pos.authority, pos.path, pos.query, pos.fragment, pos.fend].filter
    (· != -1)

/-- A table the copies can rely on. -/
structure UriPos.Ordered (length : Nat) (doubleslash : Int) (pos : UriPos) : Prop where
  inside : ∀ p ∈ pos.entries, 0 ≤ p ∧ p ≤ length
  ascending : pos.recorded.Pairwise (· < ·)
  -- the function goes on where both checks pass
  authority_first :
    pos.proto ≠ -1 → pos.authority ≠ -1 → pos.authority = pos.parts.headD length
  authority_room :
    pos.proto ≠ -1 → pos.authority ≠ -1 → 0 ≤ pos.authority - pos.proto - doubleslash - 1

/-- The scheme comes first. -/
theorem UriPos.recorded_eq (pos : UriPos) :
    pos.recorded = (if pos.proto = -1 then [] else [pos.proto]) ++ pos.parts := by
  unfold UriPos.recorded UriPos.parts
  rw [List.filter_cons]
  by_cases h : pos.proto = -1
  · rw [if_neg (by simp [h]), if_pos h, List.nil_append]
  · rw [if_pos (by simp [h]), if_neg h, List.singleton_append]

/-- Every part is recorded. -/
theorem UriPos.parts_subset (pos : UriPos) : pos.parts ⊆ pos.recorded := by
  rw [pos.recorded_eq]
  exact List.subset_append_right _ _

/-! ## §2. The invariant of the scan. -/

/-- What has not had its stage yet is unset. -/
structure UriScan.Staged (s : UriScan) : Prop where
  proto : s.stage < foundAuthority → s.pos.proto = -1 ∧ s.doubleslash = 0
  path : s.stage < foundPath → s.pos.path = -1
  query : s.stage < foundQuery → s.pos.query = -1
  fragment : s.stage < foundFragment → s.pos.fragment = -1

/-- The table of a scan, at any index. -/
structure UriScan.Table (length : Nat) (s : UriScan) : Prop where
  start : s.pos.start = 0
  authority : s.pos.authority = -1
  fend : s.pos.fend = length
  inside : ∀ p ∈ s.pos.recorded, 0 ≤ p ∧ p ≤ length
  ascending : s.pos.recorded.Pairwise (· < ·)
  room : s.pos.proto ≠ -1 → ∀ p ∈ s.pos.parts ++ [(length : Int)],
    s.pos.proto + s.doubleslash + 1 ≤ p

/-- **The invariant**, in front of index `i` with `skip` characters to jump over. -/
structure Scanning (length i skip : Nat) (s : UriScan) : Prop extends
    s.Staged, s.Table length where
  -- a position that was moved to the end of the URI is the last one recorded
  behind : i < length → ∀ p ∈ s.pos.recorded, p < i
  jump : s.pos.proto ≠ -1 → s.pos.proto + s.doubleslash + 1 ≤ i + skip

/-- Moving on keeps it, with the jump paid for. -/
theorem Scanning.pass {length i skip i' skip' : Nat} {s : UriScan}
    (h : Scanning length i skip s) (hi : i ≤ i') (hskip : i + skip ≤ i' + skip') :
    Scanning length i' skip' s where
  toStaged := h.toStaged
  toTable := h.toTable
  behind := by
    intro hlt p hp
    have hp := h.behind (by omega) p hp
    omega
  jump := by
    intro hproto
    have hjump := h.jump hproto
    omega

/-- `i`, or the end of the URI. -/
theorem foundAt_bounds {length i : Nat} (h : i < length) :
    (i : Int) ≤ foundAt length i ∧ foundAt length i ≤ length := by
  unfold foundAt
  split <;> omega

theorem foundAt_ne {length i : Nat} (h : i < length) : foundAt length i ≠ -1 := by
  have hbounds := foundAt_bounds h
  omega

/-- A scan that differs in the three parts only. -/
def UriScan.SameScheme (s s' : UriScan) : Prop :=
  s' = { s with stage := s'.stage, pos := { s.pos with
    path := s'.pos.path, query := s'.pos.query, fragment := s'.pos.fragment } }

/-- One more part behind all others. -/
theorem UriScan.SameScheme.recorded {s s' : UriScan} {p : Int} (hsame : s.SameScheme s')
    (hparts : s'.pos.parts = s.pos.parts ++ [p]) :
    s'.pos.recorded = s.pos.recorded ++ [p] := by
  have hproto : s'.pos.proto = s.pos.proto := by rw [hsame]
  rw [s'.pos.recorded_eq, s.pos.recorded_eq, hproto, hparts, List.append_assoc]

/-- **A table takes one more part**, behind all others and clear of the scheme. -/
theorem UriScan.Table.push {length : Nat} {s s' : UriScan} {p : Int} (h : s.Table length)
    (hsame : s.SameScheme s') (hparts : s'.pos.parts = s.pos.parts ++ [p])
    (hinside : 0 ≤ p ∧ p ≤ length) (hlast : ∀ q ∈ s.pos.recorded, q < p)
    (hclear : s.pos.proto ≠ -1 → s.pos.proto + s.doubleslash + 1 ≤ p) :
    s'.Table length where
  start := by rw [hsame]; exact h.start
  authority := by rw [hsame]; exact h.authority
  fend := by rw [hsame]; exact h.fend
  inside := by
    rw [hsame.recorded hparts, List.forall_mem_append, List.forall_mem_singleton]
    exact ⟨h.inside, hinside⟩
  ascending := by
    rw [hsame.recorded hparts, List.pairwise_append]
    refine ⟨h.ascending, List.pairwise_singleton _ _, ?_⟩
    intro q hq
    rw [List.forall_mem_singleton]
    exact hlast q hq
  room := by
    have hproto : s'.pos.proto = s.pos.proto := by rw [hsame]
    have hds : s'.doubleslash = s.doubleslash := by rw [hsame]
    rw [hproto, hds, hparts, List.append_assoc]
    intro hne
    have hroom := h.room hne
    rw [List.forall_mem_append] at hroom ⊢
    exact ⟨hroom.1, List.forall_mem_cons.mpr ⟨hclear hne, hroom.2⟩⟩

/-- **One delimiter**: its position is put behind all others. -/
theorem Scanning.delimiter {length i : Nat} {s s' : UriScan} (h : Scanning length i 0 s)
    (hi : i < length) (hstaged : s'.Staged) (hsame : s.SameScheme s')
    (hparts : s'.pos.parts = s.pos.parts ++ [foundAt length i]) :
    Scanning length (i + 1) 0 s' := by
  have hbounds := foundAt_bounds hi
  have hbehind := h.behind hi
  have htable : s'.Table length := by
    refine h.push hsame hparts (by omega) ?_ ?_
    · intro p hp
      have hp := hbehind p hp
      omega
    · intro hne
      have hjump := h.jump hne
      omega
  refine { toStaged := hstaged, toTable := htable, behind := ?_, jump := ?_ }
  · -- only a position that stays at `i` has a character behind it
    intro hlt
    rw [hsame.recorded hparts, List.forall_mem_append, List.forall_mem_singleton]
    rw [foundAt_of_lt hlt]
    refine ⟨?_, by omega⟩
    intro p hp
    have hp := hbehind p hp
    omega
  · have hproto : s'.pos.proto = s.pos.proto := by rw [hsame]
    have hds : s'.doubleslash = s.doubleslash := by rw [hsame]
    rw [hproto, hds]
    intro hne
    have hjump := h.jump hne
    omega

/-- In the first stage nothing is recorded. -/
theorem UriScan.Staged.parts_nil {s : UriScan} (h : s.Staged) (hstage : s.stage < foundPath) :
    s.pos.parts = [] := by
  have hquery : s.stage < foundQuery := Nat.lt_succ_of_lt hstage
  have hfragment : s.stage < foundFragment := Nat.lt_succ_of_lt hquery
  unfold UriPos.parts
  rw [h.path hstage, h.query hquery, h.fragment hfragment]
  rfl

/-- **The scheme**: the jump crosses at least the slashes behind the `:`, and those are there. -/
theorem Scanning.colon {length i skip : Nat} {doubleslash : Int} {s : UriScan}
    (h : Scanning length i 0 s) (hstage : s.stage < foundAuthority) (hnonneg : 0 ≤ doubleslash)
    (hds : doubleslash ≤ skip) (hroom : i + doubleslash + 1 ≤ length) :
    Scanning length (i + 1) skip ⟨foundAuthority, { s.pos with proto := i }, doubleslash⟩ := by
  have hpath : s.stage < foundPath := Nat.lt_succ_of_lt hstage
  have hquery : s.stage < foundQuery := Nat.lt_succ_of_lt hpath
  have hparts : s.pos.parts = [] := h.parts_nil hpath
  have hrec : UriPos.recorded { s.pos with proto := i } = [(i : Int)] := by
    rw [UriPos.recorded_eq, if_neg (by show (i : Int) ≠ -1; omega)]
    show [(i : Int)] ++ s.pos.parts = _
    rw [hparts, List.append_nil]
  exact
    { proto := fun hlt => absurd hlt (Nat.lt_irrefl _)
      path := fun _ => h.path hpath
      query := fun _ => h.query hquery
      fragment := fun _ => h.fragment (Nat.lt_succ_of_lt hquery)
      start := h.start
      authority := h.authority
      fend := h.fend
      inside := by
        intro p hp
        rw [hrec] at hp
        rw [List.mem_singleton.mp hp]
        omega
      ascending := by
        rw [hrec]
        exact List.pairwise_singleton _ _
      room := by
        intro _ p hp
        have hp : p ∈ s.pos.parts ++ [(length : Int)] := hp
        rw [hparts, List.nil_append] at hp
        show (i : Int) + doubleslash + 1 ≤ p
        rw [List.mem_singleton.mp hp]
        exact hroom
      behind := by
        intro _ p hp
        rw [hrec] at hp
        rw [List.mem_singleton.mp hp]
        omega
      jump := by
        intro _
        show (i : Int) + doubleslash + 1 ≤ (i + 1 : Nat) + skip
        omega }

/-- A part set in front of unset ones is the last of them. -/
theorem filter_set_last (xs ys : List Int) {x : Int} (hx : x ≠ -1) (hys : ∀ y ∈ ys, y = -1) :
    (xs ++ x :: ys).filter (· != -1) = (xs ++ -1 :: ys).filter (· != -1) ++ [x] := by
  have hnil : ys.filter (· != -1) = [] := by
    rw [List.filter_eq_nil_iff]
    intro y hy
    simp [hys y hy]
  rw [List.filter_append, List.filter_append, List.filter_cons_of_pos (by simp [hx]),
    List.filter_cons_of_neg (by simp), hnil, List.append_nil]

/-- The path. -/
theorem Scanning.slash {length i : Nat} {s : UriScan} (h : Scanning length i 0 s)
    (hi : i < length) (hstage : s.stage < foundPath) :
    Scanning length (i + 1) 0
      { s with stage := foundPath, pos := { s.pos with path := foundAt length i } } := by
  have hquery : s.stage < foundQuery := Nat.lt_succ_of_lt hstage
  have hfragment : s.stage < foundFragment := Nat.lt_succ_of_lt hquery
  refine h.delimiter hi ?_ rfl ?_
  · exact
      { proto := fun hlt => absurd hlt (by decide : ¬ foundPath < foundAuthority)
        path := fun hlt => absurd hlt (Nat.lt_irrefl foundPath)
        query := fun _ => h.query hquery
        fragment := fun _ => h.fragment hfragment }
  · show List.filter (· != -1) [foundAt length i, s.pos.query, s.pos.fragment]
      = List.filter (· != -1) [s.pos.path, s.pos.query, s.pos.fragment] ++ [foundAt length i]
    rw [h.path hstage, h.query hquery, h.fragment hfragment]
    exact filter_set_last [] [-1, -1] (foundAt_ne hi) (by simp)

/-- The query. -/
theorem Scanning.mark {length i : Nat} {s : UriScan} (h : Scanning length i 0 s)
    (hi : i < length) (hstage : s.stage < foundQuery) :
    Scanning length (i + 1) 0
      { s with stage := foundQuery, pos := { s.pos with query := foundAt length i } } := by
  have hfragment : s.stage < foundFragment := Nat.lt_succ_of_lt hstage
  refine h.delimiter hi ?_ rfl ?_
  · exact
      { proto := fun hlt => absurd hlt (by decide : ¬ foundQuery < foundAuthority)
        path := fun hlt => absurd hlt (by decide : ¬ foundQuery < foundPath)
        query := fun hlt => absurd hlt (Nat.lt_irrefl foundQuery)
        fragment := fun _ => h.fragment hfragment }
  · show List.filter (· != -1) [s.pos.path, foundAt length i, s.pos.fragment]
      = List.filter (· != -1) [s.pos.path, s.pos.query, s.pos.fragment] ++ [foundAt length i]
    rw [h.query hstage, h.fragment hfragment]
    exact filter_set_last [s.pos.path] [-1] (foundAt_ne hi) (by simp)

/-- The fragment. -/
theorem Scanning.hash {length i : Nat} {s : UriScan} (h : Scanning length i 0 s)
    (hi : i < length) (hstage : s.stage < foundFragment) :
    Scanning length (i + 1) 0
      { s with stage := foundFragment, pos := { s.pos with fragment := foundAt length i } } := by
  refine h.delimiter hi ?_ rfl ?_
  · exact
      { proto := fun hlt => absurd hlt (by decide : ¬ foundFragment < foundAuthority)
        path := fun hlt => absurd hlt (by decide : ¬ foundFragment < foundPath)
        query := fun hlt => absurd hlt (by decide : ¬ foundFragment < foundQuery)
        fragment := fun hlt => absurd hlt (Nat.lt_irrefl foundFragment) }
  · show List.filter (· != -1) [s.pos.path, s.pos.query, foundAt length i]
      = List.filter (· != -1) [s.pos.path, s.pos.query, s.pos.fragment] ++ [foundAt length i]
    rw [h.fragment hstage]
    exact filter_set_last [s.pos.path, s.pos.query] [] (foundAt_ne hi) (by simp)

/-! ## §3. From one round to the whole scan. -/

/-- **One round of the scan keeps the invariant.** -/
theorem Scanning.round {length i : Nat} {c : UInt8} {rest : CStr} {s : UriScan}
    (h : Scanning length i 0 s) (hlen : i + (c :: rest).length = length) :
    Scanning length (i + 1) (uriRound length i c rest s).2 (uriRound length i c rest s).1 := by
  rw [List.length_cons] at hlen
  have hi : i < length := by omega
  unfold uriRound
  split
  · next hcolon =>
    dsimp only
    split
    · next hslashes =>
      -- both slashes are there, so the URI goes on for two characters at least
      have htwo : 1 < rest.length := (List.getElem?_eq_some_iff.mp hslashes.2).1
      exact h.colon hcolon.1 (by omega) (by omega) (by omega)
    · have hds : s.doubleslash = 0 := (h.proto hcolon.1).2
      exact h.colon hcolon.1 (by omega) (by omega) (by omega)
  · split
    · next hslash => exact h.slash hi hslash.1
    · split
      · next hmark => exact h.mark hi hmark.1
      · split
        · next hhash => exact h.hash hi hhash.1
        · exact h.pass (Nat.le_succ i) (by omega)

/-- **The whole scan keeps it.** -/
theorem Scanning.run {length : Nat} (uri : CStr) {i skip : Nat} {s : UriScan}
    (h : Scanning length i skip s) (hlen : i + uri.length = length) :
    (uriLoop length uri i skip s).Table length := by
  induction uri generalizing i skip s with
  | nil => exact h.toTable
  | cons c rest ih =>
      have hrest : i + 1 + rest.length = length := by rw [List.length_cons] at hlen; omega
      cases skip with
      | zero =>
          rw [uriLoop_round]
          exact ih (h.round hlen) hrest
      | succ skip =>
          rw [uriLoop]
          exact ih (h.pass (Nat.le_succ i) (by omega)) hrest

/-- Nothing is recorded before the first round. -/
theorem scanning_start (uri : CStr) :
    Scanning uri.length 0 0
      ⟨1, { (uriparseCreate uri).pos with start := 0, fend := uri.length }, 0⟩ where
  proto := fun _ => ⟨rfl, rfl⟩
  path := fun _ => rfl
  query := fun _ => rfl
  fragment := fun _ => rfl
  start := rfl
  authority := rfl
  fend := rfl
  inside := by
    intro p hp
    cases hp
  ascending := List.Pairwise.nil
  room := fun hproto => absurd rfl hproto
  behind := by
    intro _ p hp
    cases hp
  jump := fun hproto => absurd rfl hproto

/-- **The table behind the scan.** -/
theorem uriScanned_table (uri : CStr) : (uriScanned uri).Table uri.length :=
  (scanning_start uri).run uri (Nat.zero_add _)

/-! ## §4. The default for the authority. -/

/-- A chain of defaults ends at the first position that is set. -/
theorem foldl_defaultTo (xs : List Int) (a : Int) :
    xs.foldl defaultTo a = if a = -1 then (xs.filter (· != -1)).headD (-1) else a := by
  induction xs generalizing a with
  | nil =>
      show a = if a = -1 then -1 else a
      split
      · next ha => exact ha
      · rfl
  | cons x xs ih =>
      rw [List.foldl_cons, ih]
      unfold defaultTo
      by_cases ha : a = -1
      · rw [if_pos ha]
        by_cases hx : x = -1
        · rw [if_neg (not_not_intro hx), if_pos ha, if_pos ha,
            List.filter_cons_of_neg (by simpa using hx)]
        · rw [if_pos hx, if_neg hx, if_pos ha, List.filter_cons_of_pos (by simpa using hx)]
          rfl
      · rw [if_neg ha, if_neg ha, if_neg ha]

/-- **The authority ends at the first part that is set**, or with the URI. -/
theorem authorityDefault_authority {length : Nat} {pos : UriPos} (h : pos.authority = -1)
    (hset : (authorityDefault length pos).authority ≠ -1) :
    (authorityDefault length pos).authority = pos.parts.headD length := by
  have hchain : defaultTo (defaultTo (defaultTo pos.authority pos.path) pos.query) pos.fragment
      = pos.parts.headD (-1) := by
    have hfold := foldl_defaultTo [pos.path, pos.query, pos.fragment] pos.authority
    rw [if_pos h] at hfold
    exact hfold
  unfold authorityDefault at hset ⊢
  dsimp only at hset ⊢
  rw [hchain] at hset ⊢
  cases hparts : pos.parts with
  | nil =>
      rw [hparts] at hset
      split
      · rfl
      · next hlast =>
        rw [if_neg hlast] at hset
        exact absurd rfl hset
  | cons p ps =>
      have hp : p ∈ pos.parts := by rw [hparts]; exact List.mem_cons_self
      have hne : p ≠ -1 := by simpa using (List.mem_filter.mp hp).2
      exact if_neg fun hlast => hne hlast.1

/-- The first part that is set, or the end. -/
theorem headD_mem_append (xs : List Int) (d : Int) : xs.headD d ∈ xs ++ [d] := by
  cases xs with
  | nil => exact List.mem_singleton_self d
  | cons x xs => exact List.mem_cons_self

/-! ## §5. The table of `uriparse_parse`. -/

/-- The default keeps a table in order. -/
theorem UriScan.Table.ordered {length : Nat} {s : UriScan} (h : s.Table length) :
    (authorityDefault length s.pos).Ordered length s.doubleslash where
  inside := by
    intro p hp
    obtain ⟨hmem, hset⟩ := List.mem_filter.mp hp
    have hne : p ≠ -1 := by simpa using hset
    have hrec : p = s.pos.proto ∨ p = s.pos.path ∨ p = s.pos.query ∨ p = s.pos.fragment →
        0 ≤ p ∧ p ≤ length := by
      intro heq
      exact h.inside p (List.mem_filter.mpr ⟨by simpa using heq, hset⟩)
    simp only [List.mem_cons, List.not_mem_nil, or_false] at hmem
    rcases hmem with hstart | hproto | hauth | hpath | hquery | hfragment | hend
    · have hstart : p = s.pos.start := hstart
      rw [hstart, h.start]
      omega
    · exact hrec (.inl hproto)
    · rw [hauth] at hne ⊢
      rw [authorityDefault_authority h.authority hne]
      rcases List.mem_append.mp (headD_mem_append s.pos.parts length) with hpart | hlast
      · exact h.inside _ (s.pos.parts_subset hpart)
      · rw [List.mem_singleton.mp hlast]
        omega
    · exact hrec (.inr (.inl hpath))
    · exact hrec (.inr (.inr (.inl hquery)))
    · exact hrec (.inr (.inr (.inr hfragment)))
    · have hend : p = s.pos.fend := hend
      rw [hend, h.fend]
      omega
  ascending := h.ascending
  authority_first := fun _ hset => authorityDefault_authority h.authority hset
  authority_room := by
    intro hproto hset
    rw [authorityDefault_authority h.authority hset]
    show 0 ≤ s.pos.parts.headD length - s.pos.proto - s.doubleslash - 1
    have hroom := h.room hproto _ (headD_mem_append s.pos.parts length)
    omega

/-- The table `uriparse_parse` ends with, and how its result tells whether it went on. -/
theorem uriparseParse_pos {mem : UriMem} {uri : CStr} {ret : Nat} {parsed : TUri}
    (h : uriparseParse mem uri (uriparseCreate uri) = some (ret, parsed)) :
    parsed.pos = uriPositions uri
      ∧ ((ret ≠ foundProto ∧ ret ≠ foundAuthority)
        ↔ ((uriPositions uri).proto ≠ -1 ∧ (uriPositions uri).authority ≠ -1)) := by
  unfold uriparseParse at h
  simp only at h
  split at h
  · next hproto =>
    cases h
    exact ⟨rfl, fun hret => absurd rfl hret.1, fun hset => absurd hproto hset.1⟩
  · next hproto =>
    split at h
    · next hauth =>
      cases h
      exact ⟨rfl, fun hret => absurd rfl hret.2, fun hset => absurd hauth hset.2⟩
    · next hauth =>
      split at h
      · cases h
      · next code nvquery _ =>
        cases h
        refine ⟨rfl, fun _ => ⟨hproto, hauth⟩, fun _ => ?_⟩
        -- behind both checks only the query can fail
        split <;> decide

/-- **THE POSITION TABLE IS ORDERED**, for every URI. -/
theorem uriparseParse_positions (uri : CStr) :
    (uriPositions uri).Ordered uri.length (uriScanned uri).doubleslash
      ∧ ∀ (mem : UriMem) (ret : Nat) (parsed : TUri),
          uriparseParse mem uri (uriparseCreate uri) = some (ret, parsed) →
            parsed.pos = uriPositions uri
              ∧ ((ret ≠ foundProto ∧ ret ≠ foundAuthority)
                ↔ ((uriPositions uri).proto ≠ -1 ∧ (uriPositions uri).authority ≠ -1)) :=
  ⟨(uriScanned_table uri).ordered, fun _ _ _ h => uriparseParse_pos h⟩

/-- The `?` that ends the URI is recorded behind it. -/
example : uriPositions (bytes "p://a/?") = ⟨0, 1, 5, 5, 7, -1, 7⟩ := by decide

end Protohand
