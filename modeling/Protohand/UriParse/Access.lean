/-
  Protohand.UriParse.Access
  ─────────────────────────
  **EVERY INDEX `uriparse_parse` USES**, beside the blocks it points into.

  `uriparseAccesses` lists them: the characters the scan reads, the ranges the
  copies take from the URI, and the single cells of the fresh blocks.  The
  scan and the copies stay inside.  The three terminators and the look at the
  last character of the authority subtract one more, and leave the front of a
  block where there is nothing to subtract it from
  (`uriparseAccesses_inRange_iff`).
-/
import Protohand.UriParse.Leak

namespace Protohand

open Text

/-! ## §1. Accesses. -/

/-- One access of `uriparse_parse`. -/
inductive UriAccess where
  /-- `uri[i]`. -/
  | char (i : Int)
  /-- `strncpy(block, uri+source, len)` into a block of `size` bytes. -/
  | copy (source len size : Int)
  /-- `block[i]`, of a block of `size` bytes. -/
  | cell (i size : Int)
  deriving DecidableEq, Repr

/-- An access that stays in its block.  The URI ends in a NUL, at `length`. -/
def UriAccess.InRange (length : Nat) : UriAccess → Prop
  | char i => 0 ≤ i ∧ i ≤ length
  | copy source len size => 0 ≤ source ∧ 0 ≤ len ∧ source + len ≤ length + 1 ∧ len ≤ size
  | cell i size => 0 ≤ i ∧ i < size

/-! ## §2. The scan. -/

/-- What one round of the loop leaves behind, and how much `i=i+3` jumps over. -/
def uriRound (length i : Nat) (c : UInt8) (rest : CStr) (s : UriScan) : UriScan × Nat :=
  if s.stage < foundAuthority ∧ c = ascii ':' then
    let s := { s with stage := foundAuthority, pos := { s.pos with proto := i } }
    if rest[0]? = some (ascii '/') ∧ rest[1]? = some (ascii '/') then
      ({ s with doubleslash := 2 }, 3)
    else (s, 0)
  else if s.stage < foundPath ∧ c = ascii '/' then
    ({ s with stage := foundPath, pos := { s.pos with path := foundAt length i } }, 0)
  else if s.stage < foundQuery ∧ c = ascii '?' then
    ({ s with stage := foundQuery, pos := { s.pos with query := foundAt length i } }, 0)
  else if s.stage < foundFragment ∧ c = ascii '#' then
    ({ s with stage := foundFragment, pos := { s.pos with fragment := foundAt length i } }, 0)
  else (s, 0)

/-- The loop is made of these rounds. -/
theorem uriLoop_round (length i : Nat) (c : UInt8) (rest : CStr) (s : UriScan) :
    uriLoop length (c :: rest) i 0 s
      = uriLoop length rest (i + 1) (uriRound length i c rest s).2
          (uriRound length i c rest s).1 := by
  rw [uriLoop]
  unfold uriRound
  split
  · dsimp only
    split <;> rfl
  · split
    · rfl
    · split
      · rfl
      · split <;> rfl

/-- What one round reads.  In the last stage `&&` stops before `uri[i]`, and
behind a `:` it stops before `uri[i+2]` unless a `/` comes first. -/
def roundReads (i : Nat) (c : UInt8) (rest : CStr) (s : UriScan) : List UriAccess :=
  (if s.stage < foundFragment then [.char i] else [])
    ++ (if s.stage < foundAuthority ∧ c = ascii ':' then
        .char (i + 1) :: (if rest[0]? = some (ascii '/') then [.char (i + 2)] else [])
      else [])

/-- All reads of the loop. -/
def uriReads (length : Nat) : (uri : CStr) → (i skip : Nat) → UriScan → List UriAccess
  | [], _, _, _ => []
  | _ :: rest, i, skip + 1, s => uriReads length rest (i + 1) skip s
  | c :: rest, i, 0, s =>
      roundReads i c rest s
        ++ uriReads length rest (i + 1) (uriRound length i c rest s).2
            (uriRound length i c rest s).1

/-- One round reads no further than the NUL. -/
theorem roundReads_inRange {length i : Nat} {c : UInt8} {rest : CStr}
    (h : i + (c :: rest).length = length) (s : UriScan) :
    ∀ a ∈ roundReads i c rest s, a.InRange length := by
  rw [List.length_cons] at h
  intro a ha
  unfold roundReads at ha
  rcases List.mem_append.mp ha with ha | ha
  · split at ha
    · obtain rfl := List.mem_singleton.mp ha
      show (0 : Int) ≤ i ∧ (i : Int) ≤ length
      omega
    · cases ha
  · split at ha
    · rcases List.mem_cons.mp ha with rfl | ha
      · show (0 : Int) ≤ i + 1 ∧ (i : Int) + 1 ≤ length
        omega
      · split at ha
        · next hslash =>
          obtain rfl := List.mem_singleton.mp ha
          -- a `/` is there, so the NUL comes behind it at the earliest
          have hpos : 0 < rest.length := (List.getElem?_eq_some_iff.mp hslash).1
          show (0 : Int) ≤ i + 2 ∧ (i : Int) + 2 ≤ length
          omega
        · cases ha
    · cases ha

/-- **The scan never leaves the URI.** -/
theorem uriReads_inRange (length : Nat) (uri : CStr) (i skip : Nat) (s : UriScan)
    (h : i + uri.length = length) : ∀ a ∈ uriReads length uri i skip s, a.InRange length := by
  induction uri generalizing i skip s with
  | nil => intro a ha; cases ha
  | cons c rest ih =>
      have hrest : i + 1 + rest.length = length := by rw [List.length_cons] at h; omega
      cases skip with
      | succ skip => exact ih (i + 1) skip s hrest
      | zero =>
          intro a ha
          rcases List.mem_append.mp ha with ha | ha
          · exact roundReads_inRange h s a ha
          · exact ih (i + 1) _ _ hrest a ha

/-! ## §3. The copies. -/

/-- `strncpy(part, uri+pos+1, len); part[len-1] = '\0';` with a block of
`sizeof(char*) * (length+1)` bytes. -/
def chopAccesses (ptr length : Nat) (pos len : Int) : List UriAccess :=
  [.copy (pos + 1) len (ptr * (length + 1)), .cell (len - 1) (ptr * (length + 1))]

/-- The authority, with a look at the last character of the copy. -/
def authorityAccesses (ptr : Nat) (uri : CStr) (doubleslash : Int) (pos : UriPos) :
    List UriAccess :=
  let source := pos.proto + doubleslash + 1
  let len := pos.authority - pos.proto - doubleslash - 1
  let size := ptr * (pos.authority + 1)
  let strlen := ((uri.drop source.toNat).take len.toNat).length
  [.copy source len size, .cell len size, .cell (strlen - 1) size]

/-- All accesses behind the two checks. -/
def partAccesses (ptr : Nat) (uri : CStr) (doubleslash : Int) (pos : UriPos) : List UriAccess :=
  let length := uri.length
  [.copy 0 pos.proto (ptr * pos.proto + 1), .cell pos.proto (ptr * pos.proto + 1)]
    ++ (authorityAccesses ptr uri doubleslash pos
    ++ ((if pos.path ≠ -1 ∧ pos.path ≠ pos.fend then
        chopAccesses ptr length pos.path
          (if pos.query ≠ -1 then pos.query - pos.path
            else if pos.fragment ≠ -1 then pos.fragment - pos.path
            else length - pos.path)
      else [])
    ++ ((if pos.query ≠ -1 then
        chopAccesses ptr length pos.query
          (if pos.fragment ≠ -1 then pos.fragment - pos.query else length - pos.query)
      else [])
    ++ (if pos.fragment ≠ -1 then chopAccesses ptr length pos.fragment (length - pos.fragment)
      else []))))

/-- **Every access of `uriparse_parse`**, with pointers of `ptr` bytes. -/
def uriparseAccesses (ptr : Nat) (uri : CStr) : List UriAccess :=
  let length := uri.length
  let start : UriScan := ⟨1, { (uriparseCreate uri).pos with start := 0, fend := length }, 0⟩
  let s := uriLoop length uri 0 0 start
  let pos := authorityDefault length s.pos
  uriReads length uri 0 0 start
    ++ (if pos.proto = -1 ∨ pos.authority = -1 then [] else partAccesses ptr uri s.doubleslash pos)

/-- A part is copied in range, and terminated in range unless it is empty. -/
theorem chopAccesses_inRange_iff {ptr length : Nat} {pos len : Int} (hptr : 0 < ptr)
    (hpos : 0 ≤ pos) (hend : pos + len ≤ length) :
    (∀ a ∈ chopAccesses ptr length pos len, a.InRange length) ↔ 0 < len := by
  have hsize : (length : Int) + 1 ≤ ptr * (length + 1) := by
    exact_mod_cast Nat.le_mul_of_pos_left (length + 1) hptr
  constructor
  · intro hall
    have hcell : 0 ≤ len - 1 ∧ len - 1 < ptr * (length + 1) :=
      hall (.cell (len - 1) (ptr * (length + 1))) (by simp [chopAccesses])
    omega
  · intro hlen' a ha
    unfold chopAccesses at ha
    rcases List.mem_cons.mp ha with rfl | ha
    · show 0 ≤ pos + 1 ∧ 0 ≤ len ∧ pos + 1 + len ≤ length + 1 ∧ len ≤ ptr * (length + 1)
      omega
    · obtain rfl := List.mem_singleton.mp ha
      show 0 ≤ len - 1 ∧ len - 1 < ptr * (length + 1)
      omega

/-- A part of some length is in range, wherever it is copied at all. -/
theorem chopAccesses_guarded {ptr length : Nat} {pos len : Int} (hptr : 0 < ptr) (hpos : 0 ≤ pos)
    (hend : pos + len ≤ length) (hlen : 0 < len) (p : Prop) [Decidable p] :
    ∀ a ∈ (if p then chopAccesses ptr length pos len else []), a.InRange length := by
  intro a ha
  split at ha
  · exact (chopAccesses_inRange_iff hptr hpos hend).mpr hlen a ha
  · cases ha

/-! ## §4. The accesses for the parts of a URI. -/

/-- The accesses for the authority, in numbers: it is copied with what spills
into it, from behind the scheme. -/
theorem authorityAccesses_eq (ptr : Nat) (u : UriParts)
    (hrest : u.proto.length + 1 < u.render.length) :
    authorityAccesses ptr u.render (if u.slashes then 2 else 0) u.positions
      = [.copy u.scheme.length ((u.authority ++ u.authoritySpill).length : Nat)
          (ptr * (u.positions.authority + 1)),
        .cell ((u.authority ++ u.authoritySpill).length : Nat) (ptr * (u.positions.authority + 1)),
        .cell (((u.authority ++ u.authoritySpill).length : Nat) - 1)
          (ptr * (u.positions.authority + 1))] := by
  have hauth := positions_authority u hrest
  have hscheme := u.length_scheme
  obtain ⟨post, hpost⟩ := authoritySpill_first u
  have hproto : u.positions.proto = u.proto.length := rfl
  have hsource : u.positions.proto + (if u.slashes then 2 else 0) + 1 = u.scheme.length := by
    omega
  have hcopied : u.positions.authority - u.positions.proto - (if u.slashes then 2 else 0) - 1
      = (u.authority ++ u.authoritySpill).length := by
    rw [hauth, List.length_append]
    unfold UriParts.tailAt
    omega
  have hstrlen : ((u.render.drop ((u.scheme.length : Int)).toNat).take
      (((u.authority ++ u.authoritySpill).length : Int)).toNat).length
        = (u.authority ++ u.authoritySpill).length := by
    unfold UriParts.render
    rw [Int.toNat_natCast, Int.toNat_natCast, List.drop_left, hpost, ← List.append_assoc,
      List.take_left]
  unfold authorityAccesses
  dsimp only
  rw [hsource, hcopied, hstrlen]

section Render

variable {ptr : Nat} (hptr : 0 < ptr) (u : UriParts)
include hptr

theorem authorityAccesses_render (hrest : u.proto.length + 1 < u.render.length) :
    (∀ a ∈ authorityAccesses ptr u.render (if u.slashes then 2 else 0) u.positions,
        a.InRange u.render.length)
      ↔ u.authority ++ u.authoritySpill ≠ [] := by
  have hauth := positions_authority u hrest
  have hlen := u.length_eq
  have htail : u.authoritySpill.length ≤ u.tail.length := by
    obtain ⟨post, hpost⟩ := authoritySpill_first u
    rw [hpost, List.length_append]
    omega
  have hsize : u.positions.authority + 1 ≤ ptr * (u.positions.authority + 1) := by
    rw [hauth]
    exact_mod_cast Nat.le_mul_of_pos_left (u.tailAt + u.authoritySpill.length + 1) hptr
  rw [authorityAccesses_eq ptr u hrest]
  rw [hauth] at hsize ⊢
  unfold UriParts.tailAt at hsize hlen ⊢
  have happend : (u.authority ++ u.authoritySpill).length
      = u.authority.length + u.authoritySpill.length := List.length_append
  constructor
  · intro hall hnil
    have hcell := hall (.cell _ _) (List.mem_cons_of_mem _ (List.mem_cons_of_mem _
      List.mem_cons_self))
    have hzero : ((u.authority ++ u.authoritySpill).length : Int) - 1 ≥ 0 := hcell.1
    rw [hnil, List.length_nil] at hzero
    omega
  · intro hne a ha
    have hpos := List.length_pos_of_ne_nil hne
    simp only [List.mem_cons, List.not_mem_nil, or_false] at ha
    rcases ha with rfl | rfl | rfl
    · show (0 : Int) ≤ _ ∧ (0 : Int) ≤ _ ∧ (_ : Int) ≤ _ ∧ (_ : Int) ≤ _
      omega
    · show (0 : Int) ≤ _ ∧ (_ : Int) < _
      omega
    · show (0 : Int) ≤ _ - 1 ∧ (_ : Int) - 1 < _
      omega

/-- A path that does not end the URI is never empty with its delimiter. -/
theorem pathAccesses_render :
    ∀ a ∈ (if u.positions.path ≠ -1 ∧ u.positions.path ≠ u.positions.fend then
        chopAccesses ptr u.render.length u.positions.path
          (if u.positions.query ≠ -1 then u.positions.query - u.positions.path
            else if u.positions.fragment ≠ -1 then u.positions.fragment - u.positions.path
            else u.render.length - u.positions.path)
      else []), a.InRange u.render.length := by
  have hpath := positions_path u
  have hfend : u.positions.fend = u.render.length := rfl
  have hlen := u.length_eq
  rw [hfend, hpath]
  cases hp : u.path with
  | none => exact fun a ha => absurd ha (by simp)
  | some p =>
      rw [Option.elim_some]
      obtain ⟨post, hpost⟩ := spill_first u
      have htail : u.tail = ascii '/' :: ((p ++ u.spill) ++ post) := by
        unfold UriParts.tail
        rw [hp, hpost]
        simp
      unfold UriParts.pathAt
      by_cases hslash : u.tail = [ascii '/']
      · rw [if_pos hslash, if_neg (fun hn => hn.2 (by rw [hlen, hslash]; rfl))]
        exact fun a ha => absurd ha (by simp)
      · have hfits := congrArg List.length htail
        rw [List.length_cons, List.length_append] at hfits
        rw [if_neg hslash, path_span u hp]
        exact chopAccesses_guarded hptr (by omega) (by omega) (by omega) _

theorem queryAccesses_render :
    (∀ a ∈ (if u.positions.query ≠ -1 then
        chopAccesses ptr u.render.length u.positions.query
          (if u.positions.fragment ≠ -1 then u.positions.fragment - u.positions.query
            else u.render.length - u.positions.query)
      else []), a.InRange u.render.length)
      ↔ ¬ (u.query = some [] ∧ u.fragment = none) := by
  have hlen := u.length_render
  by_cases hbare : u.query = some [] ∧ u.fragment = none
  · -- nothing is behind the `?`, and its position is the end already
    have hfrag : u.positions.fragment = -1 := by
      show u.fragment.elim (-1) (fun _ => foundAt u.render.length u.fragmentAt) = _
      rw [hbare.2]
      rfl
    rw [positions_query_last u hbare.1 hbare.2, hfrag, if_pos (by omega), if_neg (by simp),
      chopAccesses_inRange_iff hptr (by omega) (by omega)]
    exact ⟨fun hn => by omega, fun hn => absurd hbare hn⟩
  · refine ⟨fun _ => hbare, fun _ => ?_⟩
    rw [positions_query u (fun hq hf => hbare ⟨hq, hf⟩)]
    cases hq : u.query with
    | none => exact fun a ha => absurd ha (by simp)
    | some q =>
        obtain ⟨post, hpost⟩ := queryField_first u hq
        have hfield := congrArg List.length hpost
        rw [List.length_append, List.length_append] at hfield
        have hat : u.queryAt + (u.queryField.length + 1) ≤ u.render.length := by
          unfold UriParts.queryAt
          rw [hq, delimited_some, List.length_cons] at hlen
          omega
        rw [Option.elim_some, query_span u hq]
        exact chopAccesses_guarded hptr (by omega) (by omega) (by omega) _

theorem fragmentAccesses_render :
    (∀ a ∈ (if u.positions.fragment ≠ -1 then
        chopAccesses ptr u.render.length u.positions.fragment
          (u.render.length - u.positions.fragment)
      else []), a.InRange u.render.length) ↔ u.fragment ≠ some [] := by
  have hlen := u.length_render
  by_cases hbare : u.fragment = some []
  · rw [positions_fragment_last u hbare, if_pos (by omega),
      chopAccesses_inRange_iff hptr (by omega) (by omega)]
    exact ⟨fun hn => by omega, fun hn => absurd hbare hn⟩
  · refine ⟨fun _ => hbare, fun _ => ?_⟩
    rw [positions_fragment u hbare]
    cases hf : u.fragment with
    | none => exact fun a ha => absurd ha (by simp)
    | some f =>
        have hat : u.fragmentAt < u.render.length := by
          unfold UriParts.fragmentAt UriParts.queryAt
          rw [hf, delimited_some, List.length_cons] at hlen
          omega
        rw [Option.elim_some]
        exact chopAccesses_guarded hptr (by omega) (by omega) (by omega) _

/-- **Behind the two checks**, everything is in range where the copy of the
authority holds a character and no bare delimiter ends the URI. -/
theorem partAccesses_render (hrest : u.proto.length + 1 < u.render.length) :
    (∀ a ∈ partAccesses ptr u.render (if u.slashes then 2 else 0) u.positions,
        a.InRange u.render.length)
      ↔ u.authority ++ u.authoritySpill ≠ [] ∧ ¬ u.Bare := by
  have hproto : ∀ a ∈ [UriAccess.copy 0 u.positions.proto (ptr * u.positions.proto + 1),
      UriAccess.cell u.positions.proto (ptr * u.positions.proto + 1)],
      a.InRange u.render.length := by
    have hat : u.positions.proto = u.proto.length := rfl
    have hsize : (u.proto.length : Int) ≤ ptr * u.proto.length := by
      exact_mod_cast Nat.le_mul_of_pos_left u.proto.length hptr
    rw [hat]
    intro a ha
    simp only [List.mem_cons, List.not_mem_nil, or_false] at ha
    rcases ha with rfl | rfl
    · show (0 : Int) ≤ 0 ∧ (0 : Int) ≤ _ ∧ (0 : Int) + _ ≤ _ ∧ (_ : Int) ≤ _
      omega
    · show (0 : Int) ≤ _ ∧ (_ : Int) < _
      omega
  unfold partAccesses UriParts.Bare
  dsimp only
  rw [List.forall_mem_append, List.forall_mem_append, List.forall_mem_append,
    List.forall_mem_append, authorityAccesses_render hptr u hrest,
    queryAccesses_render hptr u, fragmentAccesses_render hptr u]
  constructor
  · intro hall
    obtain ⟨_, hauth, _, hquery, hfrag⟩ := hall
    exact ⟨hauth, fun hbare => hbare.elim hquery hfrag⟩
  · intro hcond
    exact ⟨hproto, hcond.1, pathAccesses_render hptr u, fun hq => hcond.2 (Or.inl hq),
      fun hf => hcond.2 (Or.inr hf)⟩

end Render

/-! ## §5. Which URIs keep every index in range. -/

/-- The copy of the authority holds at least one character: text, a character
hidden behind `//`, or a `/` that ends the URI. -/
def CopiesAuthority (uri : CStr) : Prop :=
  if bytes "//" <+: after (ascii ':') uri then hierText uri ≠ []
  else authorityText uri ≠ [] ∨ (hierText uri).length = 1

/-- **The URIs that keep every index in range**: those refused before anything
is copied, and those with a copied authority and no bare delimiter at the end. -/
def IndexesInRange (uri : CStr) : Prop :=
  HasScheme uri → after (ascii ':') uri ≠ [] →
    CopiesAuthority uri ∧ ¬ EndsBare (scannedText uri)

theorem copiesAuthority_render (u : UriParts) (h : u.Scanned) (hno : ¬ u.Bare) :
    CopiesAuthority u.render ↔ u.authority ++ u.authoritySpill ≠ [] := by
  have hslash := slashes_render u h
  obtain ⟨_, hspill⟩ := authoritySpill_of_spill u (u.spill_of_not_bare hno)
  have hempty : u.authority ++ u.authoritySpill = []
      ↔ u.authority = [] ∧ u.tail ≠ [ascii '/'] := by
    rw [List.append_eq_nil_iff, hspill]
  unfold CopiesAuthority authorityText
  have hgoal : (u.authority ++ u.authoritySpill ≠ []) ↔ ¬ (u.authority = [] ∧ u.tail ≠ [ascii '/']) :=
    not_congr hempty
  rw [hierText_render u h, hgoal]
  by_cases hds : u.slashes = true
  · rw [if_pos (hslash.mpr hds), ne_eq, List.append_eq_nil_iff]
    constructor
    · intro hne hnil
      exact hne ⟨hnil.1, h.jump_clear hds hnil.1⟩
    · intro hne hnil
      exact hne ⟨hnil.1, by rw [hnil.2]; simp⟩
  · rw [if_neg (fun hpre => hds (hslash.mp hpre))]
    have hfree := h.seen_free
    unfold UriParts.seen at hfree
    rw [if_neg hds] at hfree
    rw [(takeWhile_cut hfree u.tail_cut).1]
    cases hauth : u.authority with
    | cons a as => simp
    | nil =>
        -- a tail of one character is a bare delimiter, or a `/`
        have hone : u.tail.length = 1 ↔ u.tail = [ascii '/'] := by
          unfold UriParts.Bare at hno
          unfold UriParts.tail
          cases hp : u.path <;> cases hq : u.query <;> cases hf : u.fragment <;>
            simp_all [List.length_eq_zero_iff]
        rw [List.nil_append, hone]
        simp

/-- A URI that fails one of the two checks has nothing copied out of it. -/
theorem uriparseAccesses_refused {ptr : Nat} {uri : CStr} {code : Nat} {mem : UriMem}
    (hcode : code = foundProto ∨ code = foundAuthority)
    (h : ∃ parsed, uriparseParse mem uri (uriparseCreate uri) = some (code, parsed)) :
    ∀ a ∈ uriparseAccesses ptr uri, a.InRange uri.length := by
  obtain ⟨parsed, hrun⟩ := h
  unfold uriparseAccesses
  dsimp only
  intro a ha
  rcases List.mem_append.mp ha with ha | ha
  · exact uriReads_inRange uri.length uri 0 0 _ (Nat.zero_add _) a ha
  · split at ha
    · cases ha
    · next hchecks =>
      -- past the checks only the query is left to fail
      rw [not_or] at hchecks
      unfold uriparseParse at hrun
      dsimp only at hrun
      rw [if_neg hchecks.1, if_neg hchecks.2] at hrun
      split at hrun
      · cases hrun
      · have hret := congrArg Prod.fst (Option.some.inj hrun)
        dsimp only at hret
        split at hret
        · rw [← hret] at hcode
          exact absurd hcode (by decide)
        · rw [← hret] at hcode
          exact absurd hcode (by decide)

/-- **WHEN THE PARSER STAYS INSIDE ITS STRINGS**: every index it uses is in
range exactly if the URI is refused at once, or the authority is copied with
at least one character and no bare `?` or `#` ends the URI. -/
theorem uriparseAccesses_inRange_iff {ptr : Nat} (hptr : 0 < ptr) (uri : CStr) :
    (∀ a ∈ uriparseAccesses ptr uri, a.InRange uri.length) ↔ IndexesInRange uri := by
  unfold IndexesInRange
  by_cases hs : HasScheme uri
  · by_cases hrest : after (ascii ':') uri = []
    · have hrefused := uriparseParse_bare_scheme hs hrest ⟨[], [], []⟩
      exact ⟨fun _ _ hne => absurd hrest hne,
        fun _ => uriparseAccesses_refused (Or.inr rfl) hrefused⟩
    · obtain ⟨u, hu, rfl⟩ := exists_scanned hs
      have hgo := hu.goes_on hrest
      obtain ⟨hpositions, hds⟩ := uriLoop_positions u hu
      have hproto : u.positions.proto = u.proto.length := rfl
      have hauth := positions_authority u hgo
      have hreads := uriReads_inRange u.render.length u.render 0 0
        ⟨1, { (uriparseCreate u.render).pos with start := 0, fend := u.render.length }, 0⟩
        (Nat.zero_add _)
      unfold uriparseAccesses
      dsimp only
      rw [hpositions, hds, if_neg (by omega), List.forall_mem_append,
        partAccesses_render hptr u hgo, endsBare_render u hu]
      constructor
      · intro hall _ _
        exact ⟨(copiesAuthority_render u hu hall.2.2).mpr hall.2.1, hall.2.2⟩
      · intro hcond
        obtain ⟨hcopies, hno⟩ := hcond hs hrest
        exact ⟨hreads, (copiesAuthority_render u hu hno).mp hcopies, hno⟩
  · have hrefused := uriparseParse_no_scheme hs ⟨[], [], []⟩
    exact ⟨fun _ h => absurd h hs, fun _ => uriparseAccesses_refused (Or.inl rfl) hrefused⟩

/-- `a:/p` has no authority to look at the end of, `a:b?` no query to end:
both parses touch the cell in front of a block. -/
theorem uriparseAccesses_outside :
    (¬ ∀ a ∈ uriparseAccesses 4 (bytes "a:/p"), a.InRange (bytes "a:/p").length)
      ∧ ¬ ∀ a ∈ uriparseAccesses 4 (bytes "a:b?"), a.InRange (bytes "a:b?").length := by
  have hfront : ∀ (length : Nat) (size : Int), ¬ (UriAccess.cell (-1) size).InRange length :=
    fun _ _ h => absurd h.1 (by decide)
  have hauth : UriAccess.cell (-1) 12 ∈ uriparseAccesses 4 (bytes "a:/p") := by decide
  have hquery : UriAccess.cell (-1) 20 ∈ uriparseAccesses 4 (bytes "a:b?") := by decide
  exact ⟨fun hall => hfront _ _ (hall _ hauth), fun hall => hfront _ _ (hall _ hquery)⟩

/-- A URI with all its parts keeps every index in range. -/
theorem uriparseAccesses_inRange_iff_sample :
    (∀ a ∈ uriparseAccesses 4 (bytes "a://b/c?d#e"), a.InRange (bytes "a://b/c?d#e").length)
      ↔ IndexesInRange (bytes "a://b/c?d#e") :=
  uriparseAccesses_inRange_iff (by decide) _

end Protohand
