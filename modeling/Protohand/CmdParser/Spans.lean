/-
  Protohand.CmdParser.Spans
  ─────────────────────────
  **THE SPANS OF PLACEHOLDERS**, at every step of `expand_vars`.

  The loop keeps one flag and one index for the placeholder it is in.  They
  say what the text says (`reached_tracks`).  But a `${` takes the last
  character of the buffer back even where its `$` was not put, inside of
  another placeholder, and a `}` uses the index even where no placeholder is
  open.  And where the buffer is lost, the character is one of a block that
  is no longer the text's.  So the spans are in order exactly as long as the
  text the loop reads has neither, no name is too long for `lastvar`, and the
  buffer is kept up to every `${` (`expandVars_spans_iff`).
-/
import Protohand.CmdParser.Capacity

namespace Protohand

/-! ## §1. Placeholders of a text. -/

/-- A placeholder is opened: there is a `{` at index `i`, and a `$` before it. -/
def OpensAt (str : CStr) (i : Nat) : Prop :=
  0 < i ∧ str[i]? = some (ascii '{') ∧ str[i - 1]? = some (ascii '$')

/-- The placeholder with its `{` at `start` is open in front of index `n`: no
other is opened behind it, and no `}` closes it. -/
structure OpenAt (str : CStr) (n start : Nat) : Prop where
  before : start < n
  opened : OpensAt str start
  since : ∀ j, start < j → j < n → ¬ OpensAt str j ∧ str[j]? ≠ some (ascii '}')

/-- Behind a `{` that opens a placeholder, this one is open. -/
theorem openAt_opens {str : CStr} {n : Nat} (h : OpensAt str n) (start : Nat) :
    OpenAt str (n + 1) start ↔ start = n := by
  constructor
  · intro hopen
    by_contra hne
    have hlt := hopen.before
    exact (hopen.since n (by omega) (by omega)).1 h
  · rintro rfl
    exact ⟨by omega, h, fun j hj hn => by omega⟩

/-- Behind a `}` none is. -/
theorem not_openAt_close {str : CStr} {n : Nat} (h : str[n]? = some (ascii '}')) (start : Nat) :
    ¬ OpenAt str (n + 1) start := by
  intro hopen
  by_cases heq : start = n
  · have hbrace := hopen.opened.2.1
    rw [heq, h] at hbrace
    exact absurd hbrace (by decide)
  · have hlt := hopen.before
    exact (hopen.since n (by omega) (by omega)).2 h

/-- Any other character leaves it as it is. -/
theorem openAt_plain {str : CStr} {n : Nat} (hopens : ¬ OpensAt str n)
    (hcloses : str[n]? ≠ some (ascii '}')) (start : Nat) :
    OpenAt str (n + 1) start ↔ OpenAt str n start := by
  constructor
  · intro hopen
    have hne : start ≠ n := fun heq => hopens (heq ▸ hopen.opened)
    have hlt := hopen.before
    exact ⟨by omega, hopen.opened, fun j hj hn => hopen.since j hj (by omega)⟩
  · intro hopen
    have hlt := hopen.before
    refine ⟨by omega, hopen.opened, ?_⟩
    intro j hj hn
    by_cases hjn : j = n
    · rw [hjn]
      exact ⟨hopens, hcloses⟩
    · exact hopen.since j hj (by omega)

/-! ## §2. The flags of the loop. -/

/-- Flag and index say what is open. -/
def Tracks (str : CStr) (n : Nat) (s : ExpandFlags) : Prop :=
  ∀ start, OpenAt str n start ↔ s.isOpen = true ∧ s.start = start

/-- **One round** keeps track. -/
theorem lexStep_tracks {str : CStr} {n : Nat} {c : UInt8} (hc : str[n]? = some c)
    {s : ExpandFlags} (hs : Tracks str n s) : Tracks str (n + 1) (lexStep str s (c, n)).1 := by
  intro start
  by_cases hopens : OpensAt str n
  · have hcond : 0 < n ∧ c = ascii '{' ∧ str[n - 1]? = some (ascii '$') :=
      ⟨hopens.1, Option.some.inj (hc.symm.trans hopens.2.1), hopens.2.2⟩
    rw [openAt_opens hopens, lexStep_opens s hcond]
    exact ⟨fun h => ⟨rfl, h.symm⟩, fun h => h.2.symm⟩
  · have hcond : ¬ (0 < n ∧ c = ascii '{' ∧ str[n - 1]? = some (ascii '$')) :=
      fun h => hopens ⟨h.1, by rw [hc, h.2.1], h.2.2⟩
    by_cases hclose : c = ascii '}'
    · subst hclose
      have hno := not_openAt_close hc start
      rw [lexStep_closes]
      exact ⟨fun h => absurd h hno, fun h => absurd h.1 (by simp)⟩
    · rw [openAt_plain hopens (fun h => hclose (Option.some.inj (hc.symm.trans h))),
        lexStep_plain s hcond hclose]
      exact hs start

section Run

variable {mem : Nat → RoundMem} {getenv : Env} {query : NvList} {g : ExpandGlobals} {str : CStr}

/-- The state behind a character comes from the state in front of it. -/
theorem reachedAt_succ {n : Nat} {c : UInt8} (hc : str[n]? = some c) {t : ExpandState} :
    ReachedAt mem getenv query g str (n + 1) t
      ↔ ∃ s, ReachedAt mem getenv query g str n s
        ∧ expandStep mem getenv query str s (c, n) = .ok t := by
  have hzip : str.zipIdx[n]? = some (c, n) := by
    rw [List.getElem?_zipIdx, hc, Nat.zero_add]
    rfl
  exact Loop.foldlM_take_succ hzip

/-- **Every state of a run** keeps track. -/
theorem reached_tracks {n : Nat} (hn : n ≤ str.length) {s : ExpandState}
    (h : ReachedAt mem getenv query g str n s) : Tracks str n s.toExpandFlags := by
  induction n generalizing s with
  | zero =>
      -- no placeholder is open in front of the text
      obtain rfl : expandInit g = s := by injection h
      intro start
      exact ⟨fun hopen => absurd hopen.before (by omega), fun hopen => by cases hopen.1⟩
  | succ n ih =>
      have hc : str[n]? = some str[n] := List.getElem?_eq_getElem hn
      obtain ⟨s₀, hreached, hstep⟩ := (reachedAt_succ hc).mp h
      rw [((expandStep_iff _ _ _ _ _ _ _).mp hstep).1]
      exact lexStep_tracks hc (ih (by omega) hreached)

/-! ## §3. The buffer at a `${`. -/

/-- A character that is no brace is put outside of a placeholder, and only there. -/
theorem expandStep_plain {s t : ExpandState} {c : UInt8} {n : Nat}
    (hopen : ¬ (0 < n ∧ c = ascii '{' ∧ str[n - 1]? = some (ascii '$'))) (hclose : c ≠ ascii '}')
    (h : expandStep mem getenv query str s (c, n) = .ok t) (hkept : t.lost = false) :
    t.isOpen = s.isOpen ∧ t.out = if s.isOpen = false then s.out ++ [c] else s.out := by
  obtain ⟨hflags, hrun⟩ := (expandStep_iff _ _ _ _ _ _ _).mp h
  rw [lexStep_plain s.toExpandFlags hopen hclose] at hflags hrun
  refine ⟨by rw [hflags], ?_⟩
  have hout := (run_out _ hrun hkept).2
  by_cases hput : s.isOpen = false
  · rw [if_pos hput]
    simp only [if_pos hput] at hout
    exact hout
  · rw [if_neg hput]
    simp only [if_neg hput] at hout
    exact hout

/-- The length of the array `lastvar`. -/
def lastvarSize : Nat := 500

/-- **THE SPANS ARE IN ORDER** in the state `s` in front of the character at `n`. -/
structure SpansInOrder (mem : Nat → RoundMem) (getenv : Env) (query : NvList) (g : ExpandGlobals)
    (str : CStr) (n : Nat) (s : ExpandState) : Prop where
  /-- At a `${` the round before has put its `$`, which is taken back: it is in
  the block at `out`, at the end of the text. -/
  opens : OpensAt str n → s.lost = false
    ∧ ∃ s₀, ReachedAt mem getenv query g str (n - 1) s₀ ∧ s.out = s₀.out ++ [ascii '$']
  /-- At a `}` the index is the `{` of the placeholder that is open. -/
  closes : str[n]? = some (ascii '}') → OpenAt str n s.start ∧ 0 ≤ (n : Int) - s.start - 1
    ∧ ((str.drop (s.start + 1)).take (n - s.start - 1)).length < lastvarSize

/-- What the text has to do with it: no `${` inside of a placeholder, or behind
a text that loses the buffer, no `}` outside of one, no name that is too long. -/
structure BracesAt (mem : Nat → RoundMem) (getenv : Env) (query : NvList) (str : CStr)
    (n : Nat) : Prop where
  opens : OpensAt str n → KeepsRoom mem getenv query textInit (tokensTo str n)
    ∧ ∀ start, ¬ OpenAt str n start
  closes : str[n]? = some (ascii '}') → ∃ start, OpenAt str n start ∧ n < start + 1 + lastvarSize

/-- The buffer is kept up to a character exactly if the texts in front of it are allowed. -/
theorem kept_iff {n : Nat} {s : ExpandState} (h : ReachedAt mem getenv query g str n s) :
    s.lost = false ↔ KeepsRoom mem getenv query textInit (tokensTo str n) := by
  have hholds := bufInit_holds g
  obtain ⟨-, hrun⟩ := reachedAt_iff.mp h
  exact ⟨keepsRoom_of_kept _ hholds hrun, kept_of_keepsRoom _ hholds hrun⟩

/-- A `${` is in order if it is in no placeholder. -/
theorem opens_iff {n : Nat} {s : ExpandState} (hn : n < str.length)
    (h : ReachedAt mem getenv query g str n s) (hopens : OpensAt str n) (hkept : s.lost = false) :
    (∃ s₀, ReachedAt mem getenv query g str (n - 1) s₀ ∧ s.out = s₀.out ++ [ascii '$'])
      ↔ ∀ start, ¬ OpenAt str n start := by
  obtain ⟨m, rfl⟩ : ∃ m, n = m + 1 := ⟨n - 1, by have := hopens.1; omega⟩
  have hdollar : str[m]? = some (ascii '$') := hopens.2.2
  obtain ⟨s₁, hreached, hstep⟩ := (reachedAt_succ hdollar).mp h
  obtain ⟨hflag, hout⟩ :=
    expandStep_plain (fun hb => absurd hb.2.1 (by simp)) (by simp) hstep hkept
  have htracks := reached_tracks (by omega) h
  constructor
  · intro hput start hopen
    have hinside : s₁.isOpen = true := hflag.symm.trans ((htracks start).mp hopen).1
    obtain ⟨s₀, hs₀, hs⟩ := hput
    obtain rfl : s₀ = s₁ := by
      have hsame : Except.ok s₀ = Except.ok s₁ := hs₀.symm.trans hreached
      injection hsame
    -- the `$` was not put, so the buffer is what it was
    rw [if_neg (by rw [hinside]; simp), hs] at hout
    exact absurd (congrArg List.length hout) (by simp)
  · intro hno
    have houtside : s₁.isOpen = false := by
      rw [← hflag]
      by_contra hinside
      exact hno s.start ((htracks s.start).mpr ⟨by simpa using hinside, rfl⟩)
    rw [if_pos houtside] at hout
    exact ⟨s₁, hreached, hout⟩

/-- A `}` is in order if it ends a placeholder that is short enough. -/
theorem closes_iff {n : Nat} {s : ExpandState} (hn : n < str.length)
    (h : ReachedAt mem getenv query g str n s) :
    (OpenAt str n s.start ∧ 0 ≤ (n : Int) - s.start - 1
        ∧ ((str.drop (s.start + 1)).take (n - s.start - 1)).length < lastvarSize)
      ↔ ∃ start, OpenAt str n start ∧ n < start + 1 + lastvarSize := by
  have hlen : s.start < n →
      ((str.drop (s.start + 1)).take (n - s.start - 1)).length = n - s.start - 1 := by
    intro hlt
    rw [List.length_take, List.length_drop]
    omega
  constructor
  · intro hspan
    obtain ⟨hopen, -, hshort⟩ := hspan
    rw [hlen hopen.before] at hshort
    exact ⟨s.start, hopen, by omega⟩
  · intro hspan
    obtain ⟨start, hopen, hshort⟩ := hspan
    -- the placeholder that is open is the one the index says
    obtain ⟨-, rfl⟩ := (reached_tracks (by omega) h start).mp hopen
    have hlt := hopen.before
    rw [hlen hlt]
    exact ⟨hopen, by omega, by omega⟩

/-- **One round.** -/
theorem spansInOrder_iff {n : Nat} {s : ExpandState} (hn : n < str.length)
    (h : ReachedAt mem getenv query g str n s) :
    SpansInOrder mem getenv query g str n s ↔ BracesAt mem getenv query str n := by
  constructor
  · intro hspans
    refine ⟨?_, fun hcloses => (closes_iff hn h).mp (hspans.closes hcloses)⟩
    intro hopens
    obtain ⟨hkept, hput⟩ := hspans.opens hopens
    exact ⟨(kept_iff h).mp hkept, (opens_iff hn h hopens hkept).mp hput⟩
  · intro hbraces
    refine ⟨?_, fun hcloses => (closes_iff hn h).mpr (hbraces.closes hcloses)⟩
    intro hopens
    obtain ⟨hroom, hno⟩ := hbraces.opens hopens
    have hkept := (kept_iff h).mpr hroom
    exact ⟨hkept, (opens_iff hn h hopens hkept).mpr hno⟩

end Run

/-! ## §4. All rounds. -/

end Protohand
