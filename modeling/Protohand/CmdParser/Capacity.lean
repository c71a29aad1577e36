/-
  Protohand.CmdParser.Capacity
  ────────────────────────────
  **IS THE BUFFER OF `expand_vars` LARGE ENOUGH?**

  `append_resize` grows its block by `diff/BLOCKSIZE*BLOCKSIZE + BLOCKSIZE`
  with a negative `diff`: by one block where less than a block is missing, by
  nothing where one block is, and it shrinks it where more is.  So the block is
  large enough exactly where less than a block is missing
  (`appendCapacity_fits_iff`).  As long as that is so, the capacity is what the
  longest text so far takes in whole blocks (`ExpandBuf.Holds`), and `out` is its
  address as long as `realloc` does not move it: the new address stays in
  `append_resize`.  So it is the lengths of the texts that decide a whole run
  (`TextSize.Allows`, `expandVars_fits_iff`).
-/
import Protohand.CmdParser.Buffer

namespace Protohand

/-! ## §1. One append. -/

/-- What is missing decides the growth. -/
theorem appendCapacity_of_lt {string append : Nat} {bufflength : Int}
    (h : bufflength < string + append + 1) :
    appendCapacity string append bufflength
      = (let cap := bufflength + BLOCKSIZE
          - (string + append + 1 - bufflength) / BLOCKSIZE * BLOCKSIZE
        if cap ≤ 0 then 0 else cap) := by
  have hdiv : Int.tdiv (bufflength - (string + append + 1)) BLOCKSIZE
      = -((string + append + 1 - bufflength) / BLOCKSIZE) := by
    rw [← Int.tdiv_eq_ediv_of_nonneg (by omega), ← Int.neg_tdiv]
    congr 1
    omega
  have hadd : bufflength + (Int.tdiv (bufflength - (string + append + 1)) BLOCKSIZE * BLOCKSIZE
      + BLOCKSIZE) = bufflength + BLOCKSIZE
        - (string + append + 1 - bufflength) / BLOCKSIZE * BLOCKSIZE := by
    rw [hdiv, Int.neg_mul]
    omega
  show (if (string + append + 1 : Int) > bufflength then
      if bufflength + (Int.tdiv (bufflength - (string + append + 1)) BLOCKSIZE * BLOCKSIZE
        + BLOCKSIZE) ≤ 0 then 0
      else bufflength + (Int.tdiv (bufflength - (string + append + 1)) BLOCKSIZE * BLOCKSIZE
        + BLOCKSIZE)
      else bufflength) = _
  rw [if_pos h, hadd]

/-- **One append fits** exactly if less than a block is missing for it. -/
theorem appendCapacity_fits_iff (string append : Nat) (bufflength : Int) :
    (string + append + 1 : Int) ≤ appendCapacity string append bufflength
      ↔ (string + append + 1 : Int) < bufflength + BLOCKSIZE := by
  have hblock : BLOCKSIZE = 4096 := rfl
  by_cases hroom : (string + append + 1 : Int) ≤ bufflength
  · rw [appendCapacity_room hroom]
    exact ⟨fun _ => by omega, fun _ => hroom⟩
  · rw [appendCapacity_of_lt (by omega), hblock]
    dsimp only
    split <;> omega

/-- An append that fits never shrinks the block. -/
theorem le_appendCapacity {string append : Nat} {bufflength : Int}
    (h : (string + append + 1 : Int) < bufflength + BLOCKSIZE) :
    bufflength ≤ appendCapacity string append bufflength := by
  have hblock : BLOCKSIZE = 4096 := rfl
  by_cases hroom : (string + append + 1 : Int) ≤ bufflength
  · exact Int.le_of_eq (appendCapacity_room hroom).symm
  · rw [appendCapacity_of_lt (by omega), hblock]
    dsimp only
    split <;> omega

/-- A growth by less than a block is one by a block. -/
theorem appendCapacity_block {string append room : Nat} (hgrow : room < string + append + 1)
    (hless : string + append + 1 < room + BLOCKSIZE) :
    appendCapacity string append room = room + BLOCKSIZE := by
  have hblock : BLOCKSIZE = 4096 := rfl
  rw [appendCapacity_of_lt (by omega), hblock]
  dsimp only
  split <;> omega

/-- `append_resize` asks for no bytes where the text takes more than twice the
blocks there are. -/
theorem appendCapacity_zero_iff {string append blocks : Nat} :
    appendCapacity string append ((blocks + 1) * BLOCKSIZE : Nat) = 0
      ↔ 2 * ((blocks + 1) * BLOCKSIZE) + BLOCKSIZE ≤ string + append + 1 := by
  have hblock : BLOCKSIZE = 4096 := rfl
  by_cases hroom : string + append + 1 ≤ (blocks + 1) * BLOCKSIZE
  · rw [appendCapacity_room (by omega)]
    omega
  · rw [appendCapacity_of_lt (by omega), hblock]
    dsimp only
    split <;> omega

/-! ## §2. What the text asks for. -/

/-- How long a text is, and the longest it has been. -/
structure TextSize where
  length : Nat
  longest : Nat
  deriving DecidableEq, Repr

namespace TextSize

/-- The bytes of the blocks that the longest text and its NUL take. -/
def room (z : TextSize) : Nat := (z.longest / BLOCKSIZE + 1) * BLOCKSIZE

/-- The text behind an edit. -/
def edit (z : TextSize) : Edit → TextSize
  | .keep => z
  | .append a => ⟨z.length + a.length, max z.longest (z.length + a.length)⟩
  | .drop => { z with length := z.length - 1 }

/-- An append for which `append_resize` asks for a block of no size. -/
def Refuses (z : TextSize) : Edit → Prop
  | .append a => 2 * z.room + BLOCKSIZE ≤ z.length + a.length + 1
  | _ => False

/-- **WHAT AN EDIT MAY ASK FOR**: less than a block is missing for its text, and
where the text has filled a block before and needs another, this one is at the
same address. -/
def Allows (moves : Bool) (z : TextSize) : Edit → Prop
  | .append a => z.length + a.length + 1 < z.room + BLOCKSIZE
      ∧ (BLOCKSIZE ≤ z.longest → z.room < z.length + a.length + 1 → moves = false)
  | _ => True

end TextSize

/-- The empty text. -/
def textInit : TextSize := ⟨0, 0⟩

/-- The text is in the block at `out`, which has room for it and the NUL. -/
def ExpandBuf.Fits (s : ExpandBuf) : Prop :=
  s.lost = false ∧ (s.out.length + 1 : Int) ≤ s.bufferLength

/-- **THE BUFFER HOLDS A TEXT**: it has the blocks that the text has asked for; of
the first, `BLOCKSIZE` times as much is allocated as a pointer takes. -/
structure ExpandBuf.Holds (s : ExpandBuf) (z : TextSize) : Prop where
  kept : s.lost = false
  length : s.out.length = z.length
  within : z.length ≤ z.longest
  room : s.bufferLength = z.room
  block : s.block = if z.longest < BLOCKSIZE then (sizeofCharPtr * BLOCKSIZE : Int) else z.room

theorem ExpandBuf.Holds.fits {s : ExpandBuf} {z : TextSize} (h : s.Holds z) : s.Fits := by
  have hblock : BLOCKSIZE = 4096 := rfl
  have hroom := h.room
  have hwithin := h.within
  refine ⟨h.kept, ?_⟩
  rw [hroom, h.length]
  unfold TextSize.room
  rw [hblock]
  omega

/-- An edit goes through if it asks for a block of some size. -/
theorem exists_editStep_iff (m : RoundMem) {s : ExpandBuf} {z : TextSize} (hs : s.Holds z)
    (e : Edit) : (∃ s', editStep m s e = .ok s') ↔ ¬ z.Refuses e := by
  cases e with
  | keep => exact iff_of_true ⟨s, rfl⟩ (fun h => h)
  | drop =>
      refine iff_of_true ⟨_, (expandOpen_iff m s _).mpr ⟨s.out, outText_of_kept hs.kept, rfl⟩⟩ ?_
      exact fun h => h
  | append a =>
      have hzero : appendCapacity s.out.length a.length s.bufferLength = 0
          ↔ z.Refuses (.append a) := by
        rw [hs.length, hs.room]
        exact appendCapacity_zero_iff
      rw [← hzero]
      constructor
      · intro h
        obtain ⟨s', h⟩ := h
        obtain ⟨string, hout, hsize, -⟩ := (expandAppend_iff m s s' a).mp h
        rw [outText_of_kept hs.kept, Option.some.injEq] at hout
        exact hout ▸ hsize
      · intro h
        exact ⟨_, (expandAppend_iff m s _ a).mpr ⟨s.out, outText_of_kept hs.kept, h, rfl⟩⟩

/-- **An append that is allowed** leaves a buffer that holds its text. -/
theorem extend_holds {moves : Bool} {s : ExpandBuf} {z : TextSize} (hs : s.Holds z) {a : CStr}
    (h : z.Allows moves (.append a)) :
    (s.extend moves s.out a).Holds (z.edit (.append a)) := by
  have hblock : BLOCKSIZE = 4096 := rfl
  have hptr : sizeofCharPtr = 8 := rfl
  have hwithin := hs.within
  have hroom : z.room = (z.longest / 4096 + 1) * 4096 := rfl
  have hnext : (z.edit (.append a)).room
      = (max z.longest (z.length + a.length) / 4096 + 1) * 4096 := rfl
  obtain ⟨hless, hmoves⟩ := h
  rw [hblock] at hless hmoves
  have hlength : (s.extend moves s.out a).out.length = z.length + a.length := by
    show (s.out ++ a).length = _
    rw [List.length_append, hs.length]
  by_cases hfits : z.length + a.length + 1 ≤ z.room
  · -- there is room, and the block stays
    have hcap : (s.out.length + a.length + 1 : Int) ≤ s.bufferLength := by
      rw [hs.length, hs.room]
      omega
    refine ⟨?_, hlength, le_max_right _ _, ?_, ?_⟩
    · show (s.lost || _) = false
      rw [hs.kept, appendLoses_room hcap]
      rfl
    · show appendCapacity _ _ _ = _
      rw [appendCapacity_room hcap, hs.room]
      omega
    · show appendBlock _ _ _ _ = if max z.longest (z.length + a.length) < BLOCKSIZE then _ else _
      unfold appendBlock
      rw [if_neg (by omega), hs.block, hblock]
      split <;> split <;> omega
  · -- the block grows by one, and stays at its address
    have hcap : appendCapacity s.out.length a.length s.bufferLength = z.room + 4096 := by
      rw [hs.length, hs.room, appendCapacity_block (by omega) (by omega), hblock]
      rfl
    refine ⟨?_, hlength, le_max_right _ _, ?_, ?_⟩
    · show (s.lost || appendLoses _ _ _ _ _) = false
      rw [hs.kept, Bool.false_or]
      unfold appendLoses
      rw [hcap, hs.length, hs.room, hs.block, hptr, hblock]
      simp only [Bool.and_eq_false_iff, Bool.or_eq_false_iff, decide_eq_false_iff_not]
      refine Or.inr ⟨?_, by omega⟩
      by_cases hfirst : z.longest < 4096
      · rw [if_pos hfirst]
        exact Or.inr (by omega)
      · exact Or.inl (hmoves (by omega) (by omega))
    · show appendCapacity _ _ _ = _
      rw [hcap]
      omega
    · show appendBlock _ _ _ _ = if max z.longest (z.length + a.length) < BLOCKSIZE then _ else _
      unfold appendBlock
      rw [if_pos (by rw [hs.length, hs.room]; omega), hcap, hblock, if_neg (by omega)]
      omega

/-- An append that does not lose the buffer is allowed. -/
theorem allows_of_kept {moves : Bool} {s : ExpandBuf} {z : TextSize} (hs : s.Holds z) {a : CStr}
    (hkept : (s.extend moves s.out a).lost = false) : z.Allows moves (.append a) := by
  have hblock : BLOCKSIZE = 4096 := rfl
  have hloses : appendLoses moves z.length a.length z.room s.block = false := by
    rw [← hs.length, ← hs.room]
    exact (Bool.or_eq_false_iff.mp hkept).2
  unfold appendLoses at hloses
  simp only [Bool.and_eq_false_iff, Bool.or_eq_false_iff, decide_eq_false_iff_not] at hloses
  rcases hloses with hfits | ⟨haddress, hsize⟩
  · exact ⟨by omega, fun _ hgrow => absurd hgrow (by omega)⟩
  · have hless : z.length + a.length + 1 < z.room + BLOCKSIZE := by
      have hiff := appendCapacity_fits_iff z.length a.length z.room
      have hmissing := hiff.mp (by omega)
      omega
    refine ⟨hless, ?_⟩
    intro hfilled hgrow
    refine haddress.resolve_right ?_
    -- behind the first block no more is allocated than the text has asked for
    rw [appendCapacity_block hgrow hless, hs.block, if_neg (by omega), hblock]
    omega

/-- **One edit**: the buffer is kept exactly if the edit is allowed, and then it
holds the text. -/
theorem editStep_holds {m : RoundMem} {s s' : ExpandBuf} {z : TextSize} {e : Edit}
    (hs : s.Holds z) (h : editStep m s e = .ok s') :
    (s'.lost = false ↔ z.Allows m.moves e) ∧ (z.Allows m.moves e → s'.Holds (z.edit e)) := by
  cases e with
  | keep =>
      obtain rfl : s = s' := by injection h
      exact ⟨iff_of_true hs.kept trivial, fun _ => hs⟩
  | append a =>
      obtain ⟨string, hout, -, rfl⟩ := (expandAppend_iff m s s' a).mp h
      rw [outText_of_kept hs.kept, Option.some.injEq] at hout
      subst hout
      exact ⟨⟨allows_of_kept hs, fun hallowed => (extend_holds hs hallowed).kept⟩, extend_holds hs⟩
  | drop =>
      obtain ⟨string, hout, rfl⟩ := (expandOpen_iff m s s').mp h
      rw [outText_of_kept hs.kept, Option.some.injEq] at hout
      subst hout
      refine ⟨iff_of_true hs.kept trivial, fun _ => ⟨hs.kept, ?_, ?_, hs.room, hs.block⟩⟩
      · show s.out.dropLast.length = z.length - 1
        rw [List.length_dropLast, hs.length]
      · exact (Nat.sub_le _ _).trans hs.within

/-! ## §3. The run. -/

section Run

variable (mem : Nat → RoundMem) (getenv : Env) (query : NvList)

/-- **THE TEXTS THAT A TEMPLATE APPENDS ARE ALLOWED**, as far as a run takes them:
`z` is the text in front of the tokens. -/
def KeepsRoom : TextSize → List Token → Prop
  | _, [] => True
  | z, t :: ts =>
      Sound mem getenv query t → ¬ z.Refuses (edit mem getenv query t) →
        z.Allows (mem t.index).moves (edit mem getenv query t)
          ∧ KeepsRoom (z.edit (edit mem getenv query t)) ts

/-- The tokens of the first `n` characters. -/
def tokensTo (str : CStr) (n : Nat) : List Token :=
  Loop.outputs (lexStep str) flagsInit (str.zipIdx.take n)

/-- A run comes to the `n`-th character: nothing in front of it ends it. -/
def Reads (str : CStr) (n : Nat) : Prop :=
  (∀ t ∈ tokensTo str n, Sound mem getenv query t)
    ∧ ∃ z, (tokensTo str n).foldlM (tokenSize mem getenv query) sizeInit = some z

/-- The state in front of the `n`-th character. -/
def ReachedAt (g : ExpandGlobals) (str : CStr) (n : Nat) (s : ExpandState) : Prop :=
  (str.zipIdx.take n).foldlM (expandStep mem getenv query str) (expandInit g) = .ok s

variable {mem getenv query}

/-- A state in front of a character, as flags and tokens say. -/
theorem reachedAt_iff {g : ExpandGlobals} {str : CStr} {n : Nat} {s : ExpandState} :
    ReachedAt mem getenv query g str n s
      ↔ s.toExpandFlags = Loop.final (lexStep str) flagsInit (str.zipIdx.take n)
        ∧ (tokensTo str n).foldlM (tokenStep mem getenv query) (bufInit g)
          = .ok s.toExpandBuf := by
  have hfactor := Loop.foldlM_factor (lexStep str) (tokenStep mem getenv query)
    (expandStep mem getenv query str) ExpandState.toExpandFlags ExpandState.toExpandBuf
    (expandStep_factor mem getenv query str) (str.zipIdx.take n) (expandInit g)
  have htokens : (Loop.outputs (lexStep str) (expandInit g).toExpandFlags
        (str.zipIdx.take n)).foldlM (tokenStep mem getenv query) (expandInit g).toExpandBuf
      = (tokensTo str n).foldlM (tokenStep mem getenv query) (bufInit g) := rfl
  rw [htokens] at hfactor
  unfold ReachedAt
  cases hrun : (str.zipIdx.take n).foldlM (expandStep mem getenv query str) (expandInit g) with
  | error e =>
      rw [hrun] at hfactor
      cases hbuf : (tokensTo str n).foldlM (tokenStep mem getenv query) (bufInit g) with
      | error e' => simp
      | ok b => rw [hbuf] at hfactor; cases hfactor
  | ok t =>
      rw [hrun] at hfactor
      cases hbuf : (tokensTo str n).foldlM (tokenStep mem getenv query) (bufInit g) with
      | error e' => rw [hbuf] at hfactor; cases hfactor
      | ok b =>
          rw [hbuf] at hfactor
          injection hfactor with hpair
          obtain ⟨hflags, hb⟩ := Prod.ext_iff.mp hpair
          rw [Except.ok.injEq, Except.ok.injEq]
          constructor
          · rintro rfl
            exact ⟨hflags, hb.symm⟩
          · intro h
            obtain ⟨tf, tb⟩ := t
            obtain ⟨sf, sb⟩ := s
            dsimp only at hflags hb h
            obtain ⟨rfl, rfl⟩ := h
            rw [hflags, hb]
            rfl

/-- Where a run comes to, in terms of tokens and sizes. -/
theorem exists_reachedAt_iff {g : ExpandGlobals} {str : CStr} {n : Nat} :
    (∃ s, ReachedAt mem getenv query g str n s) ↔ Reads mem getenv query str n := by
  have hrun : ∀ z, (∃ b, (tokensTo str n).foldlM (tokenStep mem getenv query) (bufInit g) = .ok b
        ∧ b.size = z)
      ↔ (∀ t ∈ tokensTo str n, Sound mem getenv query t)
        ∧ (tokensTo str n).foldlM (tokenSize mem getenv query) sizeInit = some z :=
    fun z => run_ok_iff (tokensTo str n) (bufInit g) z
  constructor
  · intro h
    obtain ⟨s, hs⟩ := h
    obtain ⟨hsound, hsize⟩ := (hrun s.size).mp ⟨s.toExpandBuf, (reachedAt_iff.mp hs).2, rfl⟩
    exact ⟨hsound, s.size, hsize⟩
  · intro h
    obtain ⟨hsound, z, hsize⟩ := h
    obtain ⟨b, hb, -⟩ := (hrun z).mpr ⟨hsound, hsize⟩
    exact ⟨⟨_, b⟩, reachedAt_iff.mpr ⟨rfl, hb⟩⟩

/-- One token of a run. -/
theorem tokenStep_holds {s s' : ExpandBuf} {z : TextSize} {t : Token} (hs : s.Holds z)
    (h : tokenStep mem getenv query s t = .ok s') :
    (s'.lost = false ↔ z.Allows (mem t.index).moves (edit mem getenv query t))
      ∧ (z.Allows (mem t.index).moves (edit mem getenv query t) →
        s'.Holds (z.edit (edit mem getenv query t))) := by
  have hnoted : (noted s t).Holds z := by
    cases t <;> exact ⟨hs.kept, hs.length, hs.within, hs.room, hs.block⟩
  exact editStep_holds hnoted (tokenStep_cases h).2

/-- A token that leaves the buffer where it is leaves its text in it. -/
theorem holds_of_kept {s s' : ExpandBuf} {z : TextSize} {t : Token} (hs : s.Holds z)
    (h : tokenStep mem getenv query s t = .ok s') (hkept : s'.lost = false) :
    s'.Holds (z.edit (edit mem getenv query t)) :=
  (tokenStep_holds hs h).2 ((tokenStep_holds hs h).1.mp hkept)

/-- A run that keeps its room, over one more token. -/
theorem keepsRoom_cons {s : ExpandBuf} {z : TextSize} (hs : s.Holds z) {t : Token}
    {ts : List Token} :
    KeepsRoom mem getenv query z (t :: ts)
      ↔ ∀ s', tokenStep mem getenv query s t = .ok s' →
          s'.Holds (z.edit (edit mem getenv query t))
            ∧ KeepsRoom mem getenv query (z.edit (edit mem getenv query t)) ts := by
  have hnoted : (noted s t).Holds z := by
    cases t <;> exact ⟨hs.kept, hs.length, hs.within, hs.room, hs.block⟩
  have hgoes := exists_editStep_iff (mem t.index) hnoted (edit mem getenv query t)
  constructor
  · intro h s' hstep
    obtain ⟨hsound, hedit⟩ := tokenStep_cases hstep
    obtain ⟨hallowed, hrest⟩ := h hsound (hgoes.mp ⟨s', hedit⟩)
    exact ⟨(tokenStep_holds hs hstep).2 hallowed, hrest⟩
  · intro h hsound hsize
    obtain ⟨s', hedit⟩ := hgoes.mpr hsize
    have hstep : tokenStep mem getenv query s t = .ok s' := (tokenStep_sound s hsound).trans hedit
    obtain ⟨hholds, hrest⟩ := h s' hstep
    exact ⟨(tokenStep_holds hs hstep).1.mp hholds.kept, hrest⟩

/-- **A run that ends with its buffer** had room for its text all along. -/
theorem keepsRoom_of_kept (ts : List Token) {s s' : ExpandBuf} {z : TextSize} (hs : s.Holds z)
    (h : ts.foldlM (tokenStep mem getenv query) s = .ok s') (hkept : s'.lost = false) :
    KeepsRoom mem getenv query z ts := by
  induction ts generalizing s z with
  | nil => trivial
  | cons t ts ih =>
      rw [keepsRoom_cons hs]
      intro s₁ hstep
      rw [List.foldlM_cons, hstep] at h
      have hholds := holds_of_kept hs hstep (run_out ts h hkept).1
      exact ⟨hholds, ih hholds h⟩

/-- A run that keeps its room ends with its buffer. -/
theorem kept_of_keepsRoom (ts : List Token) {s s' : ExpandBuf} {z : TextSize} (hs : s.Holds z)
    (h : ts.foldlM (tokenStep mem getenv query) s = .ok s')
    (hroom : KeepsRoom mem getenv query z ts) : s'.lost = false := by
  induction ts generalizing s z with
  | nil =>
      obtain rfl : s = s' := by injection h
      exact hs.kept
  | cons t ts ih =>
      rw [List.foldlM_cons] at h
      cases hstep : tokenStep mem getenv query s t with
      | error e => rw [hstep] at h; cases h
      | ok s₁ =>
          rw [hstep] at h
          obtain ⟨hholds, hrest⟩ := (keepsRoom_cons hs).mp hroom s₁ hstep
          exact ih hholds h hrest

/-- One round asks the buffer for one thing at most. -/
theorem lexStep_short (str : CStr) (s : ExpandFlags) (ci : UInt8 × Nat) :
    (lexStep str s ci).2 = [] ∨ ∃ t, (lexStep str s ci).2 = [t] := by
  obtain ⟨c, i⟩ := ci
  simp only [lexStep]
  split
  · exact Or.inr ⟨_, rfl⟩
  · split
    · by_cases hfault : i < s.start + 1
      · exact Or.inr ⟨_, if_pos hfault⟩
      · exact Or.inr ⟨_, if_neg hfault⟩
    · by_cases hput : s.isOpen = false
      · exact Or.inr ⟨_, if_pos hput⟩
      · exact Or.inl (if_neg hput)

/-- **The run**: every state it comes to has room exactly if its texts are allowed. -/
theorem run_fits_iff (str : CStr) :
    ∀ (cis : List (UInt8 × Nat)) (s : ExpandState) (z : TextSize), s.Holds z →
      ((∀ n s', (cis.take n).foldlM (expandStep mem getenv query str) s = .ok s' → s'.Fits)
        ↔ KeepsRoom mem getenv query z (Loop.outputs (lexStep str) s.toExpandFlags cis))
  | [], s, z, hs => by
      refine ⟨fun _ => trivial, fun _ n s' h => ?_⟩
      rw [List.take_nil] at h
      obtain rfl : s = s' := by injection h
      exact hs.fits
  | ci :: cis, s, z, hs => by
      rw [Loop.forall_reached_cons, and_iff_right hs.fits, Loop.outputs_cons]
      rcases lexStep_short str s.toExpandFlags ci with hnil | ⟨t, hone⟩
      · -- the round leaves the buffer as it is
        have hstep : expandStep mem getenv query str s ci
            = .ok ⟨(lexStep str s.toExpandFlags ci).1, s.toExpandBuf⟩ := by
          apply (expandStep_iff _ _ _ _ _ _ _).mpr
          rw [hnil]
          exact ⟨rfl, rfl⟩
        have hrest := run_fits_iff str cis ⟨(lexStep str s.toExpandFlags ci).1, s.toExpandBuf⟩ z hs
        rw [hnil, List.nil_append, hstep]
        simp only [Except.ok.injEq, forall_eq']
        exact hrest
      · rw [hone, List.singleton_append, keepsRoom_cons hs]
        have hround : ∀ s₁, expandStep mem getenv query str s ci = .ok s₁
            ↔ s₁.toExpandFlags = (lexStep str s.toExpandFlags ci).1
              ∧ tokenStep mem getenv query s.toExpandBuf t = .ok s₁.toExpandBuf := by
          intro s₁
          rw [expandStep_iff, hone, List.foldlM_cons]
          cases tokenStep mem getenv query s.toExpandBuf t <;> rfl
        constructor
        · intro h b hb
          have hreached := h ⟨(lexStep str s.toExpandFlags ci).1, b⟩ ((hround _).mpr ⟨rfl, hb⟩)
          have hfits : b.Fits := hreached 0 _ rfl
          have hholds := holds_of_kept hs hb hfits.1
          exact ⟨hholds, (run_fits_iff str cis ⟨_, b⟩ _ hholds).mp hreached⟩
        · intro h s₁ hs₁
          obtain ⟨hflags, hb⟩ := (hround s₁).mp hs₁
          obtain ⟨hholds, hrest⟩ := h s₁.toExpandBuf hb
          rw [← hflags] at hrest
          exact (run_fits_iff str cis s₁ _ hholds).mpr hrest

end Run

/-- The buffer before the first round holds the empty text. -/
theorem bufInit_holds (g : ExpandGlobals) : (bufInit g).Holds textInit :=
  ⟨rfl, rfl, Nat.le_refl 0, rfl, rfl⟩

end Protohand
