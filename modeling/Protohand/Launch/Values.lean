/-
  Protohand.Launch.Values
  ───────────────────────
  **THE VALUE BEHIND A PLACEHOLDER**, from the URI through both stages of
  transforms.

  Padding ends the run at the first listed value that is too long.  Otherwise a
  listed value is padded once, however often it is listed, and then trimmed once
  for each time it is listed (`placeholder_value`): a second trim takes the last
  zero.

  A padded value has one byte more than the array `out`, and a trimmed one may
  have more; a part without `=` has a literal for its value, which must not be
  written.  So the result is about a stage that is defined.
-/
import Protohand.Launch.Interference

namespace Protohand

/-! ## §1. One pair. -/

/-- What is made of a value of the query. -/
def transformedValue (config : Configuration) (name value : CStr) : CStr :=
  ltrimLoop^[(entries config.ltrimzero).count name]
    (padListed 10 (entries config.lpadzero) ⟨name, value⟩).value

theorem staged_pad {list : List CStr} {p q : NvPair}
    (h : Staged (fun value => transformLpadzero value 10) list p q) : q = padListed 10 list p := by
  obtain ⟨calls, h⟩ := h
  unfold padListed
  by_cases hmem : p.key ∈ list
  · rw [if_pos hmem]
    by_cases hlong : 10 < p.value.length
    · rw [lpad_pair_long list p [] hmem hlong] at h
      cases h
    -- the first entry pads the value to ten characters, and the others leave it
    · obtain ⟨more, hrun, -⟩ := lpad_pair list p [] hmem (Nat.le_of_not_lt hlong)
      rw [hrun] at h
      injection h with h
      injection h with h
      exact h.symm
  · rw [if_neg hmem]
    rw [stageEntries_unlisted list (p, []) hmem] at h
    injection h with h
    injection h with h
    exact h.symm

/-- The entries of the second list, one after the other. -/
theorem trim_entries (list : List CStr) (p q : NvPair) (calls calls' : List TransformCall)
    (h : list.foldlM (stageEntry fun value => (0, transformLtrimzero value)) (p, calls)
      = .ok (q, calls')) :
    q = { p with value := ltrimLoop^[list.count p.key] p.value } := by
  induction list generalizing p calls with
  | nil =>
      injection h with h
      injection h with h
      exact h.symm
  | cons item list ih =>
      rw [List.foldlM_cons] at h
      by_cases hkey : item = p.key
      · rw [hkey, stageEntry_same, if_neg (by simp)] at h
        rw [hkey, List.count_cons_self, Function.iterate_succ_apply]
        exact ih { p with value := ltrimLoop p.value } _ h
      · rw [stageEntry_other hkey] at h
        rw [List.count_cons_of_ne hkey]
        exact ih p calls h

theorem staged_trim {list : List CStr} {p q : NvPair}
    (h : Staged (fun value => (0, transformLtrimzero value)) list p q) :
    q = { p with value := ltrimLoop^[list.count p.key] p.value } := by
  obtain ⟨calls, h⟩ := h
  exact trim_entries list p q [] calls h

/-! ## §2. The query. -/

/-- When the run ends at a value that is too long. -/
theorem transformStages_ret (lpadzero ltrimzero : List CStr) (pairs : List NvPair) :
    (transformStages lpadzero ltrimzero pairs).ret ≠ 0
      ↔ ∃ p ∈ pairs, TooLong 10 lpadzero p := by
  obtain ⟨hok, herror⟩ : ((∀ p ∈ pairs, ¬ TooLong 10 lpadzero p) → _) ∧ _ :=
    lpad_stage lpadzero pairs ([], [])
  unfold transformStages lpadzeroStage stage
  constructor
  · intro hret
    by_contra hno
    obtain ⟨calls, hrun⟩ := hok fun p hp hlong => hno ⟨p, hp, hlong⟩
    rw [hrun] at hret
    dsimp only at hret
    split at hret
    · exact hret rfl
    · exact hret rfl
  · intro hlong
    obtain ⟨calls, hrun⟩ := herror hlong
    rw [hrun]
    show FAILED_TO_ZEROPAD ≠ 0
    decide

/-- A placeholder finds its value transformed. -/
theorem value_transformed {mem : UriMem} {uri : CStr} {parsed : TUri}
    (h : uriparseParse mem uri (uriparseCreate uri) = some (0, parsed)) {config : Configuration}
    (hret : (transformedQuery config parsed.nvquery).1.ret = 0) (getenv : Env) {name : CStr}
    (henv : ¬ bytes "env." <+: name) :
    findVarValue getenv (transformedQuery config parsed.nvquery).2 name
      = (findVarValue getenv parsed.nvquery name).map (transformedValue config name) := by
  have hpairs := pairs_transformedQuery (uriparse_query_wf h) hret
  obtain ⟨mid, hpad, htrim⟩ := transformStages_staged hret
  unfold findVarValue
  rw [if_neg henv, if_neg henv]
  show Option.map NvPair.value (firstPair _ name)
    = ((firstPair parsed.nvquery.pairs name).map NvPair.value).map _
  rw [hpairs]
  -- neither stage touches a key, so both find the pair at the same place
  rcases find_staged hpad name with ⟨hnone, hmid⟩ | ⟨p, m, hp, hm, hpm⟩
  · rcases find_staged htrim name with ⟨-, hout⟩ | ⟨m, q, hm, -, -⟩
    · rw [hnone]
      exact congrArg (Option.map NvPair.value) hout
    · rw [hmid] at hm
      cases hm
  · rcases find_staged htrim name with ⟨hnone, -⟩ | ⟨m', q, hm', hq, hmq⟩
    · rw [hnone] at hm
      cases hm
    · obtain rfl : m' = m := by
        rw [hm] at hm'
        exact (Option.some.inj hm').symm
      have hkey : p.key = name := by
        have hfound := List.find?_some hp
        simpa using hfound
      have hvalue : q.value = transformedValue config name p.value := by
        subst hkey
        rw [staged_trim hmq, staged_pad hpm]
        unfold transformedValue padListed
        split
        · rfl
        · rfl
      rw [hp]
      show Option.map NvPair.value (firstPair _ name) = some (transformedValue config name p.value)
      rw [← hvalue]
      exact congrArg (Option.map NvPair.value) hq

/-! ## §3. The stage. -/

/-- The stage ends the run, or goes on, as its padding does. -/
theorem transformQuery_cases {p : Platform} {s : LaunchState}
    (hdefined : MainStage.defined .transformQuery s.main = true) :
    (s.main.transforms.ret ≠ 0 ∧ ∃ call, call.code = FAILED_TO_ZEROPAD
        ∧ ((LaunchStage.of .transformQuery).exec p s).2 = .error (some call))
      ∨ (s.main.transforms.ret = 0 ∧ ∃ t, ((LaunchStage.of .transformQuery).exec p s).2 = .ok t
        ∧ t.main.run = s.main.run ∧ t.main.uriParsed.nvquery = s.main.transformed) := by
  have hexec : ((LaunchStage.of .transformQuery).exec p s).2
      = (transformQuery s.main).2.map fun main => ⟨main, s.precmd⟩ :=
    congrArg Prod.snd (Stages.guard_pos (show (LaunchStage.of .transformQuery).defined p s = true
      from hdefined))
  rw [hexec]
  by_cases hret : s.main.transforms.ret = 0
  · have hpassed := (exec_ok_iff .transformQuery s.main
      { s.main with uriParsed := { s.main.uriParsed with nvquery := s.main.transformed } }).mpr
        ⟨hret, rfl⟩
    rw [show transformQuery s.main = MainStage.exec .transformQuery s.main from rfl, hpassed]
    exact Or.inr ⟨hret, _, rfl, rfl, rfl⟩
  · unfold transformQuery
    rw [if_pos hret]
    exact Or.inl ⟨hret, _, rfl, rfl⟩

/-- A section that lists the parameter `n` once for padding and twice for trimming. -/
def paddedSection : Configuration :=
  { defaultConfig with
    lpadzero := some ⟨[bytes "n"], 1⟩
    ltrimzero := some ⟨[bytes "n", bytes "n"], 2⟩ }

/-- Its link has a value of zeros. -/
def zerosState : LaunchState :=
  let uri := bytes "a:h?n=00"
  let parsed := (uriparseParse ⟨[], [], []⟩ uri (uriparseCreate uri)).map Prod.snd
  ⟨{ (plainRun uri).init with
    uriParsed := parsed.getD (uriparseCreate uri)
    config := paddedSection }, []⟩

end Protohand
