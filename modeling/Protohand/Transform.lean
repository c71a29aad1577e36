/-
  Protohand.Transform
  ───────────────────
  **lib/transform.c AND THE TRANSFORM STAGES OF `main`**: left padding with
  zeros, and trimming zeros off, for the query parameters the configuration
  lists.

  A transform writes through `strout` into an array of its caller, whose size
  it does not know.  `StrOut` is the string it leaves there together with the
  offsets it stored a character at; the stages keep a record of all calls.
  The values come from the URL, so nothing bounds their length.
-/
import Protohand.CString
import Protohand.Lib.Loop
import Protohand.NvList

namespace Protohand

/-! ## §1. The transforms. -/

/-- What a transform leaves in `strout`, and the offsets it stored at. -/
structure StrOut where
  text : CStr
  stores : List Nat
  deriving DecidableEq, Repr

/-- The offsets `strcpy` and `strcat` store at, from `i` on, terminator included. -/
def copyStores (i : Nat) (s : CStr) : List Nat := (List.range (s.length + 1)).map (i + ·)

/-- `transform_lpadzero`. -/
def transformLpadzero (strin : CStr) (maxlen : Nat) : Int × StrOut :=
  -- the store `strout[0] = 0` comes first on every path
  let l := strin.length
  if l = maxlen then (0, ⟨strin, 0 :: copyStores 0 strin⟩)
  else if l > maxlen then (-1, ⟨[], [0]⟩)
  else
    let i := maxlen - l
    (0, ⟨List.replicate i (ascii '0') ++ strin, 0 :: List.range i ++ i :: copyStores i strin⟩)

/-- The loop of `transform_ltrimzero`: it stops in front of a last character. -/
def ltrimLoop : CStr → CStr
  | [] => []
  | c :: strin =>
      if c = ascii '0' then (if strin.length = 1 then strin else ltrimLoop strin) else c :: strin

/-- `transform_ltrimzero`; it always returns `0`. -/
def transformLtrimzero (strin : CStr) : StrOut :=
  ⟨ltrimLoop strin, 0 :: copyStores 0 (ltrimLoop strin)⟩

/-! ## §2. The stages. -/

/-- `#define FAILED_TO_ZEROPAD` in ph.h. -/
def FAILED_TO_ZEROPAD : Nat := 22

/-- The size of the array `out` that both stages declare. -/
def outSize : Nat := 10

/-- A call of a transform: the value it replaces, and what it leaves. -/
structure TransformCall where
  strin : CStr
  strout : StrOut
  deriving DecidableEq, Repr

/-- One round of the inner loop: the pair, if the entry `item` names it, goes
through the transform.  A code other than `0` ends the run. -/
def stageEntry (transform : CStr → Int × StrOut) (s : NvPair × List TransformCall) (item : CStr) :
    Except (List TransformCall) (NvPair × List TransformCall) :=
  if strcmp item s.1.key ≠ 0 then .ok s
  else
    let (r, strout) := transform s.1.value
    let calls := s.2 ++ [⟨s.1.value, strout⟩]
    if r ≠ 0 then .error calls else .ok ({ s.1 with value := strout.text }, calls)

/-- One round of the outer loop: all entries, for one pair. -/
def stagePair (transform : CStr → Int × StrOut) (list : List CStr)
    (s : List NvPair × List TransformCall) (p : NvPair) :
    Except (List TransformCall) (List NvPair × List TransformCall) := do
  let (p, calls) ← list.foldlM (stageEntry transform) (p, s.2)
  return (s.1 ++ [p], calls)

/-- The two loops over the pairs of the query and the entries of the
configuration.  An empty list skips them. -/
def stage (transform : CStr → Int × StrOut) (list : List CStr) (pairs : List NvPair) :
    Except (List TransformCall) (List NvPair × List TransformCall) :=
  pairs.foldlM (stagePair transform list) ([], [])

/-- The lpadzero stage of `main`. -/
def lpadzeroStage (lpadzero : List CStr) (pairs : List NvPair) :
    Except (List TransformCall) (List NvPair × List TransformCall) :=
  stage (fun value => transformLpadzero value 10) lpadzero pairs

/-- The ltrimzero stage of `main`. -/
def ltrimzeroStage (ltrimzero : List CStr) (pairs : List NvPair) :
    Except (List TransformCall) (List NvPair × List TransformCall) :=
  stage (fun value => (0, transformLtrimzero value)) ltrimzero pairs

/-- What both stages leave: the return code, the pairs, and the calls of each. -/
structure TransformRun where
  ret : Nat
  pairs : List NvPair
  lpadCalls : List TransformCall
  ltrimCalls : List TransformCall
  deriving DecidableEq, Repr

/-- Both stages, one after the other. -/
def transformStages (lpadzero ltrimzero : List CStr) (pairs : List NvPair) : TransformRun :=
  match lpadzeroStage lpadzero pairs with
  | .error calls => ⟨FAILED_TO_ZEROPAD, pairs, calls, []⟩
  | .ok (padded, calls) =>
      match ltrimzeroStage ltrimzero padded with
      | .error calls' => ⟨0, padded, calls, calls'⟩
      | .ok (trimmed, calls') => ⟨0, trimmed, calls, calls'⟩

/-! ## §3. The loops, for any transform. -/

section Stage

variable {transform : CStr → Int × StrOut}

/-- An entry that names another pair does nothing. -/
theorem stageEntry_other {s : NvPair × List TransformCall} {item : CStr} (h : item ≠ s.1.key) :
    stageEntry transform s item = .ok s := by
  unfold stageEntry
  rw [if_pos (by simpa using h)]

/-- An entry that names the pair runs the transform on its value. -/
theorem stageEntry_same (p : NvPair) (calls : List TransformCall) :
    stageEntry transform (p, calls) p.key
      = if (transform p.value).1 ≠ 0 then .error (calls ++ [⟨p.value, (transform p.value).2⟩])
        else .ok ({ p with value := (transform p.value).2.text },
          calls ++ [⟨p.value, (transform p.value).2⟩]) := by
  unfold stageEntry
  rw [if_neg (by simp)]

/-- A pair that is not listed is left alone. -/
theorem stageEntries_unlisted : ∀ (list : List CStr) (s : NvPair × List TransformCall),
    s.1.key ∉ list → list.foldlM (stageEntry transform) s = .ok s
  | [], s, _ => rfl
  | item :: list, s, h => by
      rw [List.mem_cons, not_or] at h
      rw [List.foldlM_cons, stageEntry_other (fun he => h.1 he.symm)]
      exact stageEntries_unlisted list s h.2

/-- Without listed pairs a stage does nothing. -/
theorem stage_unlisted (list : List CStr) : ∀ (pairs : List NvPair)
    (s : List NvPair × List TransformCall), (∀ p ∈ pairs, p.key ∉ list) →
    pairs.foldlM (stagePair transform list) s = .ok (s.1 ++ pairs, s.2)
  | [], s, _ => by simp; rfl
  | p :: pairs, s, h => by
      have hone : stagePair transform list s p = .ok (s.1 ++ [p], s.2) := by
        unfold stagePair
        rw [stageEntries_unlisted list (p, s.2) (h p List.mem_cons_self)]
        rfl
      rw [List.foldlM_cons, hone]
      refine Eq.trans (stage_unlisted list pairs (s.1 ++ [p], s.2)
        (fun q hq => h q (List.mem_cons_of_mem _ hq))) ?_
      simp

/-- The calls made when a loop ends, however it ends. -/
def callsOf {α : Type} : Except (List TransformCall) (α × List TransformCall) → List TransformCall
  | .ok s => s.2
  | .error calls => calls

/-- **Calls are never taken back**: a loop whose step only adds to the record
only adds to it, however it ends. -/
theorem foldlM_calls {α β : Type} {step : α × List TransformCall → β →
      Except (List TransformCall) (α × List TransformCall)}
    (hone : ∀ s b, s.2 <+: callsOf (step s b)) (bs : List β) (s : α × List TransformCall) :
    s.2 <+: callsOf (bs.foldlM step s) := by
  apply Loop.foldlM_relation (fun (s : α × List TransformCall)
    (r : Except (List TransformCall) (α × List TransformCall)) => s.2 <+: callsOf r)
  · exact fun s => List.prefix_refl s.2
  · intro s b e he
    have h := hone s b
    rw [he] at h
    exact h
  · intro s b t r ht hr
    have h := hone s b
    rw [ht] at h
    exact h.trans hr

theorem stageEntry_calls (s : NvPair × List TransformCall) (item : CStr) :
    s.2 <+: callsOf (stageEntry transform s item) := by
  unfold stageEntry
  split
  · exact List.prefix_refl s.2
  · simp only
    split
    · exact List.prefix_append _ _
    · exact List.prefix_append _ _

theorem stagePair_calls (list : List CStr) (s : List NvPair × List TransformCall) (p : NvPair) :
    s.2 <+: callsOf (stagePair transform list s p) := by
  have hentries : s.2 <+: callsOf (list.foldlM (stageEntry transform) (p, s.2)) :=
    foldlM_calls stageEntry_calls list (p, s.2)
  have hcalls : callsOf (stagePair transform list s p)
      = callsOf (list.foldlM (stageEntry transform) (p, s.2)) := by
    unfold stagePair
    cases list.foldlM (stageEntry transform) (p, s.2) <;> rfl
  rw [hcalls]
  exact hentries

end Stage

/-! ## §4. Padding. -/

/-- A value with zeros in front of it, up to `width` characters. -/
def zeroPad (width : Nat) (value : CStr) : CStr :=
  List.replicate (width - value.length) (ascii '0') ++ value

theorem length_zeroPad {width : Nat} {value : CStr} (h : value.length ≤ width) :
    (zeroPad width value).length = width := by
  unfold zeroPad
  rw [List.length_append, List.length_replicate]
  omega

theorem zeroPad_of_length {width : Nat} {value : CStr} (h : value.length = width) :
    zeroPad width value = value := by
  unfold zeroPad
  rw [h, Nat.sub_self]
  rfl

/-- A value that is not too long is padded, and the terminator goes to offset
`maxlen`: the array has to be one longer. -/
theorem transformLpadzero_ok {strin : CStr} {maxlen : Nat} (h : strin.length ≤ maxlen) :
    ∃ stores, transformLpadzero strin maxlen = (0, ⟨zeroPad maxlen strin, stores⟩)
      ∧ maxlen ∈ stores := by
  unfold transformLpadzero
  by_cases heq : strin.length = maxlen
  · simp only [if_pos heq]
    refine ⟨_, by rw [zeroPad_of_length heq], ?_⟩
    simp [copyStores, heq]
  · simp only [if_neg heq]
    rw [if_neg (by omega)]
    refine ⟨_, rfl, ?_⟩
    simp only [copyStores, List.cons_append, List.mem_cons, List.mem_append, List.mem_map,
      List.mem_range]
    exact Or.inr (Or.inr (Or.inr ⟨strin.length, by omega, by omega⟩))

theorem transformLpadzero_error {strin : CStr} {maxlen : Nat} (h : maxlen < strin.length) :
    transformLpadzero strin maxlen = (-1, ⟨[], [0]⟩) := by
  unfold transformLpadzero
  simp only
  rw [if_neg (by omega), if_pos (by omega)]

section Lpad

variable {width : Nat}

/-- A padded value is not changed by further entries of the same name. -/
theorem lpad_again : ∀ (list : List CStr) (p : NvPair) (calls : List TransformCall),
    p.value.length = width →
    ∃ more, list.foldlM (stageEntry (fun value => transformLpadzero value width)) (p, calls)
      = .ok (p, calls ++ more)
  | [], p, calls, _ => ⟨[], by rw [List.append_nil]; rfl⟩
  | item :: list, p, calls, h => by
      rw [List.foldlM_cons]
      by_cases hkey : item = p.key
      · obtain ⟨stores, hpad, _⟩ := transformLpadzero_ok (le_of_eq h)
        rw [hkey, stageEntry_same, hpad, if_neg (by simp), zeroPad_of_length h]
        obtain ⟨more, hrest⟩ := lpad_again list p
          (calls ++ [⟨p.value, ⟨p.value, stores⟩⟩]) h
        exact ⟨_, Eq.trans hrest (by rw [List.append_assoc])⟩
      · rw [stageEntry_other hkey]
        exact lpad_again list p calls h

/-- **A listed value that is not too long is padded**, however often it is listed. -/
theorem lpad_pair : ∀ (list : List CStr) (p : NvPair) (calls : List TransformCall),
    p.key ∈ list → p.value.length ≤ width →
    ∃ more, list.foldlM (stageEntry (fun value => transformLpadzero value width)) (p, calls)
        = .ok ({ p with value := zeroPad width p.value }, calls ++ more)
      ∧ ∃ c ∈ more, width ∈ c.strout.stores
  | item :: list, p, calls, hmem, h => by
      rw [List.foldlM_cons]
      by_cases hkey : item = p.key
      · obtain ⟨stores, hpad, hstore⟩ := transformLpadzero_ok h
        rw [hkey, stageEntry_same, hpad, if_neg (by simp)]
        -- from here on the value has its full width
        obtain ⟨more, hrest⟩ := lpad_again list { p with value := zeroPad width p.value }
          (calls ++ [⟨p.value, ⟨zeroPad width p.value, stores⟩⟩]) (length_zeroPad h)
        exact ⟨_, Eq.trans hrest (by rw [List.append_assoc]),
          ⟨p.value, ⟨zeroPad width p.value, stores⟩⟩,
          List.mem_append_left _ List.mem_cons_self, hstore⟩
      · rw [stageEntry_other hkey]
        exact lpad_pair list p calls (List.mem_of_ne_of_mem (Ne.symm hkey) hmem) h

/-- **A listed value that is too long ends the run**, at its first entry. -/
theorem lpad_pair_long : ∀ (list : List CStr) (p : NvPair) (calls : List TransformCall),
    p.key ∈ list → width < p.value.length →
    list.foldlM (stageEntry (fun value => transformLpadzero value width)) (p, calls)
      = .error (calls ++ [⟨p.value, ⟨[], [0]⟩⟩])
  | item :: list, p, calls, hmem, h => by
      rw [List.foldlM_cons]
      by_cases hkey : item = p.key
      · rw [hkey, stageEntry_same, transformLpadzero_error h, if_pos (by simp)]
        rfl
      · rw [stageEntry_other hkey]
        exact lpad_pair_long list p calls (List.mem_of_ne_of_mem (Ne.symm hkey) hmem) h

/-- What the stage makes of a pair. -/
def padListed (width : Nat) (list : List CStr) (p : NvPair) : NvPair :=
  if p.key ∈ list then { p with value := zeroPad width p.value } else p

/-- A listed value with more than `width` characters. -/
def TooLong (width : Nat) (list : List CStr) (p : NvPair) : Prop :=
  p.key ∈ list ∧ width < p.value.length

instance (width : Nat) (list : List CStr) (p : NvPair) : Decidable (TooLong width list p) :=
  inferInstanceAs (Decidable (_ ∧ _))

/-- One round of the outer loop. -/
theorem lpad_stagePair (list : List CStr) (s : List NvPair × List TransformCall) (p : NvPair) :
    (¬ TooLong width list p →
        ∃ calls, stagePair (fun value => transformLpadzero value width) list s p
          = .ok (s.1 ++ [padListed width list p], calls))
      ∧ (TooLong width list p →
        stagePair (fun value => transformLpadzero value width) list s p
          = .error (s.2 ++ [⟨p.value, ⟨[], [0]⟩⟩])) := by
  unfold stagePair padListed TooLong
  by_cases hmem : p.key ∈ list
  · rw [if_pos hmem]
    by_cases hlong : width < p.value.length
    · refine ⟨fun hn => absurd ⟨hmem, hlong⟩ hn, fun _ => ?_⟩
      rw [lpad_pair_long list p s.2 hmem hlong]
      rfl
    · refine ⟨fun _ => ?_, fun hn => absurd hn.2 hlong⟩
      obtain ⟨more, hrun, _⟩ := lpad_pair list p s.2 hmem (show p.value.length ≤ width by omega)
      rw [hrun]
      exact ⟨_, rfl⟩
  · rw [if_neg hmem]
    refine ⟨fun _ => ?_, fun hn => absurd hn.1 hmem⟩
    rw [stageEntries_unlisted list (p, s.2) hmem]
    exact ⟨_, rfl⟩

/-- **The lpadzero loops**: every listed value padded, or the run ended. -/
theorem lpad_stage (list : List CStr) : ∀ (pairs : List NvPair)
    (s : List NvPair × List TransformCall),
    ((∀ p ∈ pairs, ¬ TooLong width list p) →
        ∃ calls, pairs.foldlM (stagePair (fun value => transformLpadzero value width) list) s
          = .ok (s.1 ++ pairs.map (padListed width list), calls))
      ∧ ((∃ p ∈ pairs, TooLong width list p) →
        ∃ calls, pairs.foldlM (stagePair (fun value => transformLpadzero value width) list) s
          = .error calls)
  | [], s => ⟨fun _ => ⟨s.2, by simp; rfl⟩, fun h => by simp at h⟩
  | p :: pairs, s => by
      rw [List.foldlM_cons]
      obtain ⟨hok, herror⟩ : (¬ TooLong width list p → _) ∧ _ := lpad_stagePair list s p
      by_cases hlong : TooLong width list p
      · -- the rest of the pairs is not reached
        refine ⟨fun h => absurd hlong (h p List.mem_cons_self), fun _ => ?_⟩
        rw [herror hlong]
        exact ⟨_, rfl⟩
      · obtain ⟨calls, hone⟩ := hok hlong
        rw [hone]
        obtain ⟨hrest, hrestError⟩ := lpad_stage list pairs
          (s.1 ++ [padListed width list p], calls)
        refine ⟨?_, ?_⟩
        · intro h
          obtain ⟨calls', hrun⟩ := hrest (fun q hq => h q (List.mem_cons_of_mem _ hq))
          exact ⟨calls', Eq.trans hrun (by simp)⟩
        · intro h
          obtain ⟨q, hq, hqlong⟩ := h
          rcases List.mem_cons.mp hq with rfl | hq
          · exact absurd hqlong hlong
          · exact hrestError ⟨q, hq, hqlong⟩

/-- The value that ends the run is the first one that is too long. -/
theorem lpad_stage_first (list : List CStr) {p : NvPair} : ∀ (pairs : List NvPair)
    (s : List NvPair × List TransformCall),
    pairs.find? (fun p => decide (TooLong width list p)) = some p →
    ∃ calls, pairs.foldlM (stagePair (fun value => transformLpadzero value width) list) s
      = .error (calls ++ [⟨p.value, ⟨[], [0]⟩⟩])
  | [], _, h => by cases h
  | q :: pairs, s, h => by
      rw [List.foldlM_cons]
      obtain ⟨hok, herror⟩ : (¬ TooLong width list q → _) ∧ _ := lpad_stagePair list s q
      rw [List.find?_cons] at h
      by_cases hlong : TooLong width list q
      · rw [decide_eq_true hlong] at h
        obtain rfl : q = p := Option.some.inj h
        rw [herror hlong]
        exact ⟨s.2, rfl⟩
      · rw [decide_eq_false hlong] at h
        obtain ⟨calls, hone⟩ := hok hlong
        rw [hone]
        exact lpad_stage_first list pairs _ h

end Lpad

/-! ## §5. The documented width. -/

/-- The lpadzero stage as the rest of `main` sees it: the pairs, or its code. -/
def lpadzeroResult (lpadzero : List CStr) (pairs : List NvPair) : Except Nat (List NvPair) :=
  match lpadzeroStage lpadzero pairs with
  | .ok (padded, _) => .ok padded
  | .error _ => .error FAILED_TO_ZEROPAD

/-- Padding to a width: refused where a listed value is longer, otherwise every
listed value padded and everything else as it was. -/
def padSpec (width : Nat) (list : List CStr) (pairs : List NvPair) : Except Nat (List NvPair) :=
  if ∃ p ∈ pairs, TooLong width list p then .error FAILED_TO_ZEROPAD
  else .ok (pairs.map (padListed width list))

/-- **THE STAGE PADS TO TEN CHARACTERS**: that is the width `main` passes. -/
theorem lpadzeroResult_eq (lpadzero : List CStr) (pairs : List NvPair) :
    lpadzeroResult lpadzero pairs = padSpec 10 lpadzero pairs := by
  unfold lpadzeroResult lpadzeroStage stage padSpec
  obtain ⟨hok, herror⟩ : ((∀ p ∈ pairs, ¬ TooLong 10 lpadzero p) → _) ∧ _ :=
    lpad_stage lpadzero pairs ([], [])
  by_cases hlong : ∃ p ∈ pairs, TooLong 10 lpadzero p
  · obtain ⟨calls, hrun⟩ := herror hlong
    rw [if_pos hlong, hrun]
  · obtain ⟨calls, hrun⟩ := hok (fun p hp ht => hlong ⟨p, hp, ht⟩)
    rw [if_neg hlong, hrun]
    rfl

/-- A padded pair is neither too long nor padded again. -/
theorem padListed_again {width : Nat} {list : List CStr} {p : NvPair}
    (h : ¬ TooLong width list p) :
    ¬ TooLong width list (padListed width list p)
      ∧ padListed width list (padListed width list p) = padListed width list p := by
  unfold TooLong at h ⊢
  unfold padListed
  by_cases hmem : p.key ∈ list
  · have hlen : (zeroPad width p.value).length = width := by
      apply length_zeroPad
      have hle : ¬ width < p.value.length := fun hn => h ⟨hmem, hn⟩
      omega
    rw [if_pos hmem, if_pos hmem]
    refine ⟨?_, ?_⟩
    · intro hn
      have hlt : width < (zeroPad width p.value).length := hn.2
      omega
    · simp only
      rw [zeroPad_of_length hlen]
  · rw [if_neg hmem, if_neg hmem]
    exact ⟨h, rfl⟩

/-- The stage is idempotent, whatever the width. -/
theorem padSpec_idempotent {width : Nat} {list : List CStr} {pairs out : List NvPair}
    (h : padSpec width list pairs = .ok out) : padSpec width list out = .ok out := by
  unfold padSpec at h
  by_cases hlong : ∃ p ∈ pairs, TooLong width list p
  · rw [if_pos hlong] at h
    cases h
  · rw [if_neg hlong] at h
    cases h
    have hagain : ∀ p ∈ pairs, ¬ TooLong width list (padListed width list p)
        ∧ padListed width list (padListed width list p) = padListed width list p :=
      fun p hp => padListed_again (fun ht => hlong ⟨p, hp, ht⟩)
    unfold padSpec
    rw [if_neg]
    · rw [List.map_map]
      congr 1
      apply List.map_congr_left
      intro p hp
      exact (hagain p hp).2
    · intro hn
      obtain ⟨q, hq, hqlong⟩ := hn
      obtain ⟨p, hp, rfl⟩ := List.mem_map.mp hq
      exact (hagain p hp).1 hqlong

/-- With nothing listed, every width leaves everything as it was. -/
theorem padSpec_unlisted (width : Nat) {list : List CStr} {pairs : List NvPair}
    (h : ∀ p ∈ pairs, p.key ∉ list) : padSpec width list pairs = .ok pairs := by
  have hshort : ¬ ∃ p ∈ pairs, TooLong width list p := by
    intro hn
    obtain ⟨p, hp, hmem, _⟩ := hn
    exact h p hp hmem
  have hid : pairs.map (padListed width list) = pairs := by
    refine (List.map_congr_left (g := id) ?_).trans (List.map_id pairs)
    intro p hp
    exact if_neg (h p hp)
  unfold padSpec
  rw [if_neg hshort, hid]

/-- Where a value is listed and fits, two widths give two results. -/
theorem padSpec_ne {v w : Nat} (hvw : v < w) {list : List CStr} {pairs : List NvPair}
    (hw : ¬ ∃ p ∈ pairs, TooLong w list p) {p : NvPair} (hp : p ∈ pairs) (hmem : p.key ∈ list) :
    padSpec w list pairs ≠ padSpec v list pairs := by
  intro h
  unfold padSpec at h
  rw [if_neg hw] at h
  split at h
  · cases h
  · -- both widths pad `p`, to different lengths
    next hv =>
    have hle : p.value.length ≤ v := by
      have hn : ¬ v < p.value.length := fun hl => hv ⟨p, hp, hmem, hl⟩
      omega
    have heq := List.map_inj_left.mp (Except.ok.inj h) p hp
    unfold padListed at heq
    rw [if_pos hmem, if_pos hmem] at heq
    have hlen : (zeroPad w p.value).length = (zeroPad v p.value).length :=
      congrArg (fun q : NvPair => q.value.length) heq
    rw [length_zeroPad (by omega), length_zeroPad hle] at hlen
    omega

/-- The stage as documented: to nine digits, and doing it twice changes nothing. -/
def PadsToNine (lpadzero : List CStr) (pairs : List NvPair) : Prop :=
  lpadzeroResult lpadzero pairs = padSpec 9 lpadzero pairs
    ∧ ∀ out, lpadzeroResult lpadzero pairs = .ok out → lpadzeroResult lpadzero out = .ok out

/-- **WHERE TEN IS AS GOOD AS NINE**: where no pair is listed at all, or some
listed value is refused under both widths. -/
theorem lpadzero_pads_to_nine_iff (lpadzero : List CStr) (pairs : List NvPair) :
    PadsToNine lpadzero pairs
      ↔ (∀ p ∈ pairs, p.key ∉ lpadzero) ∨ ∃ p ∈ pairs, p.key ∈ lpadzero ∧ 10 < p.value.length := by
  have hidem : ∀ out, lpadzeroResult lpadzero pairs = .ok out →
      lpadzeroResult lpadzero out = .ok out := by
    intro out h
    rw [lpadzeroResult_eq] at h ⊢
    exact padSpec_idempotent h
  unfold PadsToNine
  rw [and_iff_left hidem, lpadzeroResult_eq]
  constructor
  · intro h
    by_cases hten : ∃ p ∈ pairs, TooLong 10 lpadzero p
    · exact Or.inr hten
    · left
      intro p hp hmem
      exact padSpec_ne (by omega) hten hp hmem h
  · intro h
    rcases h with hnone | ⟨p, hp, hmem, hlong⟩
    · rw [padSpec_unlisted 10 hnone, padSpec_unlisted 9 hnone]
    · unfold padSpec
      rw [if_pos ⟨p, hp, hmem, hlong⟩, if_pos ⟨p, hp, hmem, by omega⟩]

/-- `fall=1` is padded to ten digits. -/
theorem lpadzero_pads_to_ten :
    lpadzeroResult [bytes "fall"] [⟨bytes "fall", bytes "1"⟩]
        = .ok [⟨bytes "fall", bytes "0000000001"⟩]
      ∧ ¬ PadsToNine [bytes "fall"] [⟨bytes "fall", bytes "1"⟩] := by
  refine ⟨by decide, ?_⟩
  intro h
  exact absurd h.1 (by decide)

/-! ## §6. Trimming. -/

/-- Up to one last character, the loop takes off all leading zeros. -/
theorem length_ltrimLoop_le_iff {n : Nat} (hn : 1 ≤ n) : ∀ (v : CStr),
    (ltrimLoop v).length ≤ n ↔ (v.dropWhile (· == ascii '0')).length ≤ n
  | [] => by rfl
  | c :: v => by
      rw [ltrimLoop, List.dropWhile_cons]
      by_cases hc : c = ascii '0'
      · rw [if_pos hc, if_pos (show (c == ascii '0') = true by simpa using hc)]
        by_cases hone : v.length = 1
        · -- the loop stops early, and one character is never too many
          rw [if_pos hone]
          have hle := (List.dropWhile_suffix (l := v) (· == ascii '0')).length_le
          exact ⟨fun _ => by omega, fun _ => by omega⟩
        · rw [if_neg hone]
          exact length_ltrimLoop_le_iff hn v
      · rw [if_neg hc, if_neg (show ¬ (c == ascii '0') = true by simpa using hc)]

theorem length_ltrimLoop_le : ∀ (v : CStr), (ltrimLoop v).length ≤ v.length
  | [] => Nat.le_refl 0
  | c :: v => by
      rw [ltrimLoop, List.length_cons]
      split
      · split
        · omega
        · have ih := length_ltrimLoop_le v
          omega
      · rw [List.length_cons]

/-- A call that stores inside the array, and copies back no more than it read. -/
def CallOk (c : TransformCall) : Prop :=
  (∀ o ∈ c.strout.stores, o < outSize) ∧ c.strout.text.length ≤ c.strin.length

/-- A trimmed value has to leave room for its terminator. -/
theorem ltrim_callOk_iff (v : CStr) :
    CallOk ⟨v, transformLtrimzero v⟩ ↔ (ltrimLoop v).length ≤ 9 := by
  unfold CallOk transformLtrimzero copyStores outSize
  simp only [and_iff_left (length_ltrimLoop_le v), List.mem_cons, List.mem_map, List.mem_range]
  constructor
  · intro h
    have hlast := h (0 + (ltrimLoop v).length) (Or.inr ⟨(ltrimLoop v).length, by omega, rfl⟩)
    omega
  · intro h o ho
    rcases ho with rfl | ⟨i, hi, rfl⟩
    · omega
    · omega

/-- **The entries of one pair**: the first call trims the value itself, the
others what is left of it. -/
theorem ltrim_pair : ∀ (list : List CStr) (p : NvPair) (calls : List TransformCall),
    ∃ q more, list.foldlM (stageEntry (fun value => (0, transformLtrimzero value))) (p, calls)
        = .ok (q, calls ++ more)
      ∧ ((p.key ∈ list → (ltrimLoop p.value).length ≤ 9) ↔ ∀ c ∈ more, CallOk c)
  | [], p, calls => ⟨p, [], by rw [List.append_nil]; rfl, by simp⟩
  | item :: list, p, calls => by
      rw [List.foldlM_cons]
      by_cases hkey : item = p.key
      · rw [hkey, stageEntry_same, if_neg (by simp)]
        -- a further entry is given what this one has left
        obtain ⟨q, more, hrun, hok⟩ := ltrim_pair list { p with value := ltrimLoop p.value }
          (calls ++ [⟨p.value, transformLtrimzero p.value⟩])
        refine ⟨q, ⟨p.value, transformLtrimzero p.value⟩ :: more,
          Eq.trans hrun (by rw [List.append_assoc]; rfl), ?_⟩
        rw [List.forall_mem_cons, ltrim_callOk_iff, ← hok]
        have hless := length_ltrimLoop_le (ltrimLoop p.value)
        constructor
        · intro h
          have hfirst := h List.mem_cons_self
          exact ⟨hfirst, fun _ => by show (ltrimLoop (ltrimLoop p.value)).length ≤ 9; omega⟩
        · intro h _
          exact h.1
      · rw [stageEntry_other hkey]
        obtain ⟨q, more, hrun, hok⟩ := ltrim_pair list p calls
        refine ⟨q, more, hrun, ?_⟩
        rw [← hok, List.mem_cons, or_iff_right (fun he => hkey he.symm)]

/-- **The ltrimzero loops** always end well; they stay inside the array exactly
where every listed value does. -/
theorem ltrim_stage (list : List CStr) : ∀ (pairs : List NvPair)
    (s : List NvPair × List TransformCall),
    ∃ out more, pairs.foldlM (stagePair (fun value => (0, transformLtrimzero value)) list) s
        = .ok (out, s.2 ++ more)
      ∧ ((∀ p ∈ pairs, p.key ∈ list → (ltrimLoop p.value).length ≤ 9) ↔ ∀ c ∈ more, CallOk c)
  | [], s => ⟨s.1, [], by rw [List.append_nil]; rfl, by simp⟩
  | p :: pairs, s => by
      obtain ⟨q, more₁, hpair, hok₁⟩ := ltrim_pair list p s.2
      have hone : stagePair (fun value => (0, transformLtrimzero value)) list s p
          = .ok (s.1 ++ [q], s.2 ++ more₁) := by
        unfold stagePair
        rw [hpair]
        rfl
      obtain ⟨out, more₂, hrun, hok₂⟩ := ltrim_stage list pairs (s.1 ++ [q], s.2 ++ more₁)
      refine ⟨out, more₁ ++ more₂, ?_, ?_⟩
      · rw [List.foldlM_cons, hone]
        exact Eq.trans hrun (by rw [List.append_assoc])
      · rw [List.forall_mem_cons, List.forall_mem_append, hok₁, hok₂]

/-! ## §7. The array of the caller. -/

/-- Everything both stages store lies inside the array, and no value grows
where it is copied back over itself. -/
def StaysInside (run : TransformRun) : Prop :=
  (∀ c ∈ run.lpadCalls, ∀ o ∈ c.strout.stores, o < outSize)
    ∧ (∀ c ∈ run.ltrimCalls, ∀ o ∈ c.strout.stores, o < outSize)
    ∧ ∀ c ∈ run.ltrimCalls, c.strout.text.length ≤ c.strin.length

/-- **No store leaves the array** where the first pair listed for padding is
refused, which ends the run, or none is listed and every value to be trimmed
has fewer than ten characters behind its leading zeros. -/
def OverflowFree (lpadzero ltrimzero : List CStr) (pairs : List NvPair) : Prop :=
  match pairs.find? (fun p => lpadzero.contains p.key) with
  | some p => 10 < p.value.length
  | none => ∀ p ∈ pairs, p.key ∈ ltrimzero → (p.value.dropWhile (· == ascii '0')).length < 10

/-- With nothing to pad, the ltrimzero stage decides. -/
theorem staysInside_unlisted {lpadzero : List CStr} (ltrimzero : List CStr) {pairs : List NvPair}
    (h : ∀ p ∈ pairs, p.key ∉ lpadzero) :
    StaysInside (transformStages lpadzero ltrimzero pairs)
      ↔ ∀ p ∈ pairs, p.key ∈ ltrimzero → (p.value.dropWhile (· == ascii '0')).length < 10 := by
  have hlpad : lpadzeroStage lpadzero pairs = .ok (pairs, []) :=
    stage_unlisted lpadzero pairs ([], []) h
  obtain ⟨out, more, hrun, hok⟩ := ltrim_stage ltrimzero pairs ([], [])
  have hltrim : ltrimzeroStage ltrimzero pairs = .ok (out, more) := hrun
  have hcond : (∀ p ∈ pairs, p.key ∈ ltrimzero →
      (p.value.dropWhile (· == ascii '0')).length < 10) ↔ ∀ c ∈ more, CallOk c := by
    rw [← hok]
    apply forall₂_congr
    intro p _
    rw [length_ltrimLoop_le_iff (by omega), Nat.lt_succ_iff]
  rw [hcond]
  unfold StaysInside transformStages CallOk
  simp only [hlpad, hltrim]
  constructor
  · intro hsafe c hc
    exact ⟨hsafe.2.1 c hc, hsafe.2.2 c hc⟩
  · intro hall
    exact ⟨by simp, fun c hc => (hall c hc).1, fun c hc => (hall c hc).2⟩

/-- The calls of the lpadzero stage, up to the first listed pair and beyond. -/
theorem lpadCalls_eq (lpadzero ltrimzero : List CStr) (pairs : List NvPair) :
    (transformStages lpadzero ltrimzero pairs).lpadCalls = callsOf (lpadzeroStage lpadzero pairs) := by
  unfold transformStages
  cases lpadzeroStage lpadzero pairs with
  | error calls => rfl
  | ok s => cases hltrim : ltrimzeroStage ltrimzero s.1 <;> simp only [hltrim] <;> rfl

/-- The pair a stage comes to first, of those listed. -/
theorem find_listed {list : List CStr} {pairs : List NvPair} {p : NvPair}
    (h : pairs.find? (fun p => list.contains p.key) = some p) :
    ∃ front back, pairs = front ++ p :: back ∧ p.key ∈ list ∧ ∀ q ∈ front, q.key ∉ list := by
  obtain ⟨hp, front, back, hcut, hfront⟩ := List.find?_eq_some_iff_append.mp h
  refine ⟨front, back, hcut, by simpa using hp, ?_⟩
  intro q hq
  simpa using hfront q hq

/-- A listed value that can be padded is stored past the end of the array. -/
theorem not_staysInside {lpadzero : List CStr} (ltrimzero : List CStr) {front back : List NvPair}
    {p : NvPair} (hfront : ∀ q ∈ front, q.key ∉ lpadzero) (hmem : p.key ∈ lpadzero)
    (hlen : p.value.length ≤ 10) :
    ¬ StaysInside (transformStages lpadzero ltrimzero (front ++ p :: back)) := by
  intro hsafe
  obtain ⟨more, hpair, c, hc, hstore⟩ := lpad_pair lpadzero p [] hmem hlen
  rw [List.nil_append] at hpair
  have hone : stagePair (fun value => transformLpadzero value 10) lpadzero (front, []) p
      = .ok (front ++ [{ p with value := zeroPad 10 p.value }], more) := by
    unfold stagePair
    rw [hpair]
    rfl
  -- the bad call is in the record, whatever the rest of the stage does
  have hrest : more <+: callsOf (back.foldlM
      (stagePair (fun value => transformLpadzero value 10) lpadzero)
      (front ++ [{ p with value := zeroPad 10 p.value }], more)) :=
    foldlM_calls (stagePair_calls lpadzero) back
      (front ++ [{ p with value := zeroPad 10 p.value }], more)
  have hcalls : callsOf (lpadzeroStage lpadzero (front ++ p :: back)) = callsOf (back.foldlM
      (stagePair (fun value => transformLpadzero value 10) lpadzero)
      (front ++ [{ p with value := zeroPad 10 p.value }], more)) := by
    unfold lpadzeroStage stage
    rw [List.foldlM_append, stage_unlisted lpadzero front ([], []) hfront]
    show callsOf ((p :: back).foldlM _ (front, [])) = _
    rw [List.foldlM_cons, hone]
    rfl
  have hbad := hsafe.1 c (by rw [lpadCalls_eq, hcalls]; exact hrest.subset hc) 10 hstore
  exact absurd hbad (by decide)

/-- A first listed value that is too long ends the run inside the array. -/
theorem staysInside_refused {lpadzero : List CStr} (ltrimzero : List CStr)
    {front back : List NvPair} {p : NvPair} (hfront : ∀ q ∈ front, q.key ∉ lpadzero)
    (hmem : p.key ∈ lpadzero) (hlen : 10 < p.value.length) :
    StaysInside (transformStages lpadzero ltrimzero (front ++ p :: back)) := by
  have hstage : lpadzeroStage lpadzero (front ++ p :: back)
      = .error [⟨p.value, ⟨[], [0]⟩⟩] := by
    unfold lpadzeroStage stage
    rw [List.foldlM_append, stage_unlisted lpadzero front ([], []) hfront]
    show (p :: back).foldlM (stagePair (fun value => transformLpadzero value 10) lpadzero)
      (front, []) = _
    rw [List.foldlM_cons]
    unfold stagePair
    rw [lpad_pair_long lpadzero p [] hmem hlen]
    rfl
  unfold transformStages
  rw [hstage]
  unfold StaysInside outSize
  refine ⟨?_, by simp, by simp⟩
  intro c hc o ho
  rw [List.mem_singleton.mp hc] at ho
  have hzero : o = 0 := List.mem_singleton.mp ho
  omega

/-- **WHEN THE ARRAY IS LARGE ENOUGH.** -/
theorem transforms_stay_inside_iff (lpadzero ltrimzero : List CStr) (pairs : List NvPair) :
    StaysInside (transformStages lpadzero ltrimzero pairs)
      ↔ OverflowFree lpadzero ltrimzero pairs := by
  unfold OverflowFree
  cases hfind : pairs.find? (fun p => lpadzero.contains p.key) with
  | none =>
      apply staysInside_unlisted
      intro p hp
      simpa using List.find?_eq_none.mp hfind p hp
  | some p =>
      obtain ⟨front, back, rfl, hmem, hfront⟩ := find_listed hfind
      constructor
      · intro hsafe
        by_cases hlen : p.value.length ≤ 10
        · exact absurd hsafe (not_staysInside ltrimzero hfront hmem hlen)
        · show 10 < p.value.length
          omega
      · intro hlen
        exact staysInside_refused ltrimzero hfront hmem hlen

/-- `fall=1` puts its terminator behind the array, and so does a long `pat`. -/
theorem transforms_overflow :
    ¬ StaysInside (transformStages [bytes "fall"] [] [⟨bytes "fall", bytes "1"⟩])
      ∧ ¬ StaysInside (transformStages [] [bytes "pat"] [⟨bytes "pat", bytes "1234567890"⟩]) := by
  refine ⟨?_, ?_⟩
  · intro h
    exact absurd (h.1 ⟨bytes "1", (transformLpadzero (bytes "1") 10).2⟩ (by decide) 10 (by decide))
      (by decide)
  · intro h
    exact absurd (h.2.1 ⟨bytes "1234567890", transformLtrimzero (bytes "1234567890")⟩ (by decide) 10
      (by decide)) (by decide)

end Protohand
