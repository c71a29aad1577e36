/-
  Protohand.Section
  ─────────────────
  **WHICH SECTION A URI SELECTS**: `main` writes authority and path into
  `config.section`, and `ini_callback` compares it with the `section` of the
  ini parser, which has room for 49 bytes of a header.

  A directive is selected rightly if the header above it fits, or if neither
  the header nor its first 49 bytes are the section of the URI
  (`lookup_selects_iff`).
-/
import Protohand.Ini
import Protohand.UriParse.Leak

namespace Protohand

/-! ## §1. The lookup of `main`. -/

/-- `ini_callback`, called for the `n`-th time. -/
def nthCallback (fresh : Nat → StrArray) (user : Nat × Configuration) (event : IniEvent) :
    Int × (Nat × Configuration) :=
  let result := iniCallback user.2 ⟨event, fresh user.1⟩
  (result.1, user.1 + 1, result.2)

/-- The configuration before the lookup. -/
def sectionConfig (uri_parsed : TUri) : Configuration :=
  { defaultConfig with sect := sectionName uri_parsed }

/-- `main`: `retp`, and `config` after the lookup. -/
def lookupSection (fresh : Nat → StrArray) (uri_parsed : TUri) (ini_content : CStr) :
    Nat × Configuration :=
  let result := iniParseString (nthCallback fresh) ini_content (0, sectionConfig uri_parsed)
  (result.1, result.2.2)

/-- The calls for some directives, from the `n`-th on. -/
def callsFrom (fresh : Nat → StrArray) : Nat → List Standing → List IniCall
  | _, [] => []
  | n, d :: ds => ⟨d.event, fresh n⟩ :: callsFrom fresh (n + 1) ds

/-- The calls of `ini_callback` for a text. -/
def iniCalls (fresh : Nat → StrArray) (text : CStr) : List IniCall :=
  callsFrom fresh 0 (iniDirectives text)

theorem called_nthCallback (fresh : Nat → StrArray) (ds : List Standing) (n : Nat)
    (config : Configuration) :
    (called (nthCallback fresh) ds (n, config)).2
      = iniBranches.run config (callsFrom fresh n ds) := by
  induction ds generalizing n config with
  | nil => rfl
  | cons d ds ih => exact ih (n + 1) (iniCallback config ⟨d.event, fresh n⟩).2

/-- **The lookup is a run of `ini_callback`** over the directives of the text. -/
theorem lookupSection_run (fresh : Nat → StrArray) (uri_parsed : TUri) (ini_content : CStr) :
    (lookupSection fresh uri_parsed ini_content).2
      = iniBranches.run (sectionConfig uri_parsed) (iniCalls fresh ini_content) := by
  unfold lookupSection
  dsimp only
  rw [parse_directives, called_nthCallback]
  rfl

/-! ## §2. Selecting exactly. -/

/-- The directive stands under a header that is the section `target`. -/
def Standing.StandsUnder (d : Standing) (target : CStr) : Prop :=
  ∃ name, d.header = some name ∧ strcmpLcase target name = 0

/-- `ini_callback` takes the directive for one of the section `target`. -/
def Standing.Taken (d : Standing) (target : CStr) : Prop :=
  ∀ fresh, IniCall.For ⟨d.event, fresh⟩ target

/-- **A section is selected exactly**: its own directives, and no others. -/
def SelectsExactly (target text : CStr) : Prop :=
  ∀ d ∈ iniDirectives text, (d.Taken target ↔ d.StandsUnder target)

/-- A header that fits into `section`, or that is not mixed up with `target`
without fitting.  A directive above all headers is in no section. -/
def Standing.NotConfused (d : Standing) (target : CStr) : Prop :=
  match d.header with
  | none => target ≠ []
  | some name => name.length < maxSection
      ∨ (strcmpLcase target (name.take (maxSection - 1)) ≠ 0 ∧ strcmpLcase target name ≠ 0)

theorem length_of_strcmpLcase {s t : CStr} (h : strcmpLcase s t = 0) : s.length = t.length := by
  rw [strcmpLcase_eq_zero] at h
  simpa using congrArg List.length h

/-- **One directive** is taken rightly where its header is not confused. -/
theorem taken_iff_standsUnder (d : Standing) (target : CStr) :
    (d.Taken target ↔ d.StandsUnder target) ↔ d.NotConfused target := by
  have htaken : d.Taken target ↔ strcmpLcase target (sectionBuffer d.header) = 0 :=
    ⟨fun h => h ⟨[], 0⟩, fun h _ => h⟩
  rw [htaken]
  unfold Standing.StandsUnder Standing.NotConfused
  cases hheader : d.header with
  | none =>
      -- above all headers `section` is empty
      have hnil : strcmpLcase target (sectionBuffer none) = 0 ↔ target = [] := by
        rw [strcmpLcase_eq_zero]
        exact List.map_eq_nil_iff
      simp [hnil]
  | some name =>
      -- `section` holds the header, or its first 49 bytes
      have hunder : (∃ name', some name = some name' ∧ strcmpLcase target name' = 0)
          ↔ strcmpLcase target name = 0 := by simp
      show (strcmpLcase target (name.take (maxSection - 1)) = 0 ↔ _) ↔ _
      rw [hunder]
      by_cases hfits : name.length < maxSection
      · rw [List.take_of_length_le (by omega)]
        exact ⟨fun _ => Or.inl hfits, fun _ => Iff.rfl⟩
      · -- the header and what `section` holds of it are not both the target
        have hnotboth : ¬ (strcmpLcase target (name.take (maxSection - 1)) = 0
            ∧ strcmpLcase target name = 0) := by
          rintro ⟨hcut, hwhole⟩
          have hlen := length_of_strcmpLcase hcut
          rw [length_of_strcmpLcase hwhole, List.length_take] at hlen
          unfold maxSection at hlen hfits
          omega
        constructor
        · intro hiff
          refine Or.inr ⟨fun hcut => hnotboth ⟨hcut, hiff.mp hcut⟩,
            fun hwhole => hnotboth ⟨hiff.mpr hwhole, hwhole⟩⟩
        · rintro (hshort | ⟨hcut, hwhole⟩)
          · exact absurd hshort hfits
          · exact ⟨fun h => absurd h hcut, fun h => absurd h hwhole⟩

/-- **WHICH URIS SELECT THEIR SECTION EXACTLY**: the configuration is what
`ini_callback` makes of the directives of the text, and of these it takes
exactly those of the section if no header above a directive is confused. -/
theorem lookup_selects_iff (uri_parsed : TUri) (text : CStr) :
    (∀ fresh, (lookupSection fresh uri_parsed text).2
        = iniBranches.run (sectionConfig uri_parsed) (iniCalls fresh text))
      ∧ (SelectsExactly (sectionName uri_parsed) text
        ↔ ∀ d ∈ iniDirectives text, d.NotConfused (sectionName uri_parsed)) := by
  refine ⟨fun fresh => lookupSection_run fresh uri_parsed text, ?_⟩
  unfold SelectsExactly
  constructor
  · intro h d hd
    exact (taken_iff_standsUnder d _).mp (h d hd)
  · intro h d hd
    exact (taken_iff_standsUnder d _).mpr (h d hd)

/-- A host of 49 letters, and a header with one letter more. -/
def longUri : CStr := bytes "a:" ++ List.replicate 49 (ascii 'x')
def longIni : CStr :=
  ascii '[' :: List.replicate 50 (ascii 'x') ++ bytes "]\ncmd=y\n"

/-- The URI runs the command of a section that is not its own. -/
theorem longUri_confused :
    ∃ parsed, uriparseParse ⟨[], [], []⟩ longUri (uriparseCreate longUri) = some (0, parsed)
      ∧ ¬ SelectsExactly (sectionName parsed) longIni
      ∧ (lookupSection (fun _ => ⟨[], 0⟩) parsed longIni).2.cmd = bytes "y" := by
  refine ⟨_, rfl, ?_, by decide +kernel⟩
  intro hexact
  have hmem : (⟨some (List.replicate 50 (ascii 'x')), bytes "cmd", bytes "y"⟩ : Standing)
      ∈ iniDirectives longIni := by decide +kernel
  have htaken : strcmpLcase (List.replicate 49 (ascii 'x'))
      (strncpy0 (List.replicate 50 (ascii 'x')) maxSection) = 0 := by decide +kernel
  obtain ⟨name, hname, hsame⟩ := (hexact _ hmem).mp (fun _ => htaken)
  rw [← Option.some.inj hname] at hsame
  exact absurd (length_of_strcmpLcase hsame) (by decide)

end Protohand
