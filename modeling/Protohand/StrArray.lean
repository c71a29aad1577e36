/-
  Protohand.StrArray
  ──────────────────
  **THE TWO LIST SPLITTERS OF lib/stringlib.c, ROUND BY ROUND.**

  `str_array_split` and `str_array_split_p` fill a block of 512 pointers from
  the same loop over `strtok`.  Neither compares its counter with 512, and the
  second sets `length` inside of the loop only.  Both loops are run here with
  the index of every store on record:

    • `storeAll_spec`              — which slots a loop stores at, and what,
    • `strArraySplitPLoop_fst`     — both loops store alike,
    • `strArraySplitP_agrees_iff`  — when the two results agree,
    • `strArraySplit_inRange_iff`  — when the stores stay inside.
-/
import Protohand.StringLib

namespace Protohand

open Text

/-! ## §1. The loops. -/

/-- Where a splitting loop is: the indices it has stored at, the block of
pointers (`none`: not stored yet), and the counter. -/
structure SplitLoop where
  stored : List Nat
  items : List (Option CStr)
  i : Nat
  deriving DecidableEq, Repr

/-- `malloc(sizeof(char *) * 512)`, `int i = 0`. -/
def splitStart : SplitLoop := ⟨[], List.replicate strArrayMax none, 0⟩

/-- `items[i++] = p`.  A store behind the block is noted, and not followed. -/
def SplitLoop.store (s : SplitLoop) (p : CStr) : SplitLoop :=
  ⟨s.stored ++ [s.i], s.items.set s.i (some p), s.i + 1⟩

/-- `struct str_array` as the caller has it: a block of pointers, and any
`length` where none was set. -/
structure RawStrArray where
  items : List (Option CStr)
  length : Int
  deriving DecidableEq, Repr

/-- The loop of `str_array_split`. -/
def strArraySplitLoop (string delim : CStr) : SplitLoop :=
  (strtokAll string delim).foldl (fun s p => s.store (trim p)) splitStart

/-- What `str_array_split` returns. -/
def strArraySplitRaw (string delim : CStr) : RawStrArray :=
  let s := strArraySplitLoop string delim
  ⟨s.items, s.i⟩

/-- The loop of `str_array_split_p`, with `ret->length` beside it. -/
def strArraySplitPLoop (ret : RawStrArray) (string delim : CStr) : SplitLoop × Int :=
  (strtokAll string delim).foldl
    (fun sl p => (sl.1.store (trim p), (sl.1.i + 1 : Nat))) (splitStart, ret.length)

/-- `str_array_split_p` into a structure that held `ret`: the code it returns
where `malloc` succeeds, and what the structure holds then. -/
def strArraySplitPRaw (ret : RawStrArray) (string delim : CStr) : Int × RawStrArray :=
  let (s, length) := strArraySplitPLoop ret string delim
  (0, ⟨s.items, length⟩)

/-! ## §2. What a loop stores. -/

/-- `n` pointers that were stored, and the rest of the block. -/
def filled (items : List CStr) : List (Option CStr) :=
  items.map some ++ List.replicate (strArrayMax - items.length) none

/-- Storing behind what is filled fills one slot more. -/
theorem set_filled {items : List CStr} (h : items.length < strArrayMax) (p : CStr) :
    (filled items).set items.length (some p) = filled (items ++ [p]) := by
  have hrest : List.replicate (strArrayMax - items.length) (none : Option CStr)
      = none :: List.replicate (strArrayMax - (items ++ [p]).length) none := by
    rw [← List.replicate_succ, List.length_append]
    congr 1
    show _ = _ - (items.length + 1) + 1
    omega
  unfold filled
  rw [List.set_append_right _ _ (by rw [List.length_map]), List.length_map, Nat.sub_self, hrest,
    List.set_cons_zero, List.map_append, List.append_assoc]
  rfl

/-- **A loop stores at one slot after the other**, as many as it has tokens. -/
theorem storeAll_spec (ps : List CStr) (s : SplitLoop) :
    (ps.foldl (fun s p => s.store (trim p)) s).stored = s.stored ++ List.range' s.i ps.length
      ∧ (ps.foldl (fun s p => s.store (trim p)) s).i = s.i + ps.length := by
  induction ps generalizing s with
  | nil => simp
  | cons p ps ih =>
      obtain ⟨hstored, hi⟩ := ih (s.store (trim p))
      rw [List.foldl_cons, hstored, hi]
      refine ⟨?_, ?_⟩
      · show s.stored ++ [s.i] ++ List.range' (s.i + 1) ps.length = _
        rw [List.append_assoc, List.length_cons, List.range'_succ]
        rfl
      · show s.i + 1 + ps.length = s.i + (ps.length + 1)
        omega

/-- **With room for all of them the tokens are the block.** -/
theorem storeAll_items (ps done : List CStr) (s : SplitLoop) (hi : s.i = done.length)
    (hitems : s.items = filled done) (hroom : done.length + ps.length ≤ strArrayMax) :
    (ps.foldl (fun s p => s.store (trim p)) s).items = filled (done ++ ps.map trim) := by
  induction ps generalizing done s with
  | nil => rw [List.map_nil, List.append_nil]; exact hitems
  | cons p ps ih =>
      rw [List.length_cons] at hroom
      have hlen : (done ++ [trim p]).length = done.length + 1 := List.length_append
      have hnext : (s.store (trim p)).items = filled (done ++ [trim p]) := by
        show s.items.set s.i (some (trim p)) = _
        rw [hitems, hi, set_filled (by omega)]
      rw [List.foldl_cons, ih (done ++ [trim p]) (s.store (trim p))
        (by rw [hlen, ← hi]; rfl) hnext (by rw [hlen]; omega), List.append_assoc, List.map_cons]
      rfl

/-- Both loops store alike. -/
theorem strArraySplitPLoop_fst (ret : RawStrArray) (string delim : CStr) :
    (strArraySplitPLoop ret string delim).1 = strArraySplitLoop string delim := by
  unfold strArraySplitPLoop strArraySplitLoop
  -- the stores do not look at the length, so any start will do
  generalize splitStart = s
  generalize ret.length = length
  induction strtokAll string delim generalizing s length with
  | nil => rfl
  | cons p ps ih => exact ih (s.store (trim p)) _

/-- `ret->length` is what it was until a round sets it. -/
theorem strArraySplitPLoop_snd (ret : RawStrArray) (string delim : CStr) :
    (strArraySplitPLoop ret string delim).2
      = if strtokAll string delim = [] then ret.length else (strtokAll string delim).length := by
  have key : ∀ (ps : List CStr) (s : SplitLoop) (length : Int),
      (ps.foldl (fun sl p => (sl.1.store (trim p), ((sl.1.i + 1 : Nat) : Int))) (s, length)).2
        = if ps = [] then length else (s.i + ps.length : Nat) := by
    intro ps
    induction ps with
    | nil => exact fun _ _ => rfl
    | cons p ps ih =>
        intro s length
        rw [List.foldl_cons, ih, if_neg (List.cons_ne_nil p ps), List.length_cons]
        show (if ps = [] then ((s.i + 1 : Nat) : Int) else (s.i + 1 + ps.length : Nat)) = _
        by_cases hps : ps = []
        · rw [if_pos hps, hps]
          rfl
        · rw [if_neg hps]
          congr 1
          omega
  have h := key (strtokAll string delim) splitStart ret.length
  rwa [show splitStart.i = 0 from rfl, Nat.zero_add] at h

/-! ## §3. Do the two agree? -/

/-- **What `str_array_split` returns**, for no more tokens than there are slots. -/
theorem strArraySplitRaw_eq {string delim : CStr}
    (hmax : (runs (isDelim delim) string).length ≤ strArrayMax) :
    strArraySplitRaw string delim
      = ⟨filled ((runs (isDelim delim) string).map trim), (runs (isDelim delim) string).length⟩ := by
  have hitems := storeAll_items (strtokAll string delim) [] splitStart rfl rfl
    (by rw [List.length_nil, Nat.zero_add]; exact hmax)
  have hi := (storeAll_spec (strtokAll string delim) splitStart).2
  show (⟨(strArraySplitLoop string delim).items, ((strArraySplitLoop string delim).i : Int)⟩
    : RawStrArray) = _
  unfold strArraySplitLoop
  rw [hitems, hi, show splitStart.i = 0 from rfl, Nat.zero_add]
  rfl

/-- It is what the loop-free reading of the function says. -/
theorem strArraySplit_eq_raw {string delim : CStr}
    (hmax : (runs (isDelim delim) string).length ≤ strArrayMax) :
    (strArraySplit string delim).map (fun a => (⟨filled a.items, a.length⟩ : RawStrArray))
      = some (strArraySplitRaw string delim) := by
  have hroom : ((strtokAll string delim).map trim).length ≤ strArrayMax := by
    rw [List.length_map]
    exact hmax
  unfold strArraySplit
  rw [if_pos hroom, strArraySplitRaw_eq hmax, Option.map_some, List.length_map]
  rfl

/-- So is `str_array_split_p`, into a structure that held `ret`. -/
theorem strArraySplitP_eq_raw (ret : StrArray) {string delim : CStr}
    (hmax : (runs (isDelim delim) string).length ≤ strArrayMax) :
    (strArraySplitP ret string delim).map (fun a => (⟨filled a.items, a.length⟩ : RawStrArray))
      = some (strArraySplitPRaw ⟨filled ret.items, ret.length⟩ string delim).2 := by
  have hroom : ((strtokAll string delim).map trim).length ≤ strArrayMax := by
    rw [List.length_map]
    exact hmax
  have hitems : (strArraySplitLoop string delim).items
      = filled ((strtokAll string delim).map trim) :=
    congrArg RawStrArray.items (strArraySplitRaw_eq hmax)
  show _ = some (⟨(strArraySplitPLoop _ string delim).1.items,
    (strArraySplitPLoop _ string delim).2⟩ : RawStrArray)
  unfold strArraySplitP
  rw [if_pos hroom, strArraySplitPLoop_fst, strArraySplitPLoop_snd, hitems, Option.map_some]
  dsimp only
  cases strtokAll string delim with
  | nil => rfl
  | cons p ps => simp

/-- The call returns 0, both structures hold the same, and this is the runs
between the delimiters, each trimmed. -/
structure SplittersAgree (ret : RawStrArray) (string delim : CStr) : Prop where
  code : (strArraySplitPRaw ret string delim).1 = 0
  same : (strArraySplitPRaw ret string delim).2 = strArraySplitRaw string delim
  items : (strArraySplitRaw string delim).items
    = filled ((runs (isDelim delim) string).map trim)
  length : (strArraySplitRaw string delim).length = (runs (isDelim delim) string).length

/-- **WHEN THE TWO SPLITTERS AGREE**: exactly if there is a token to set the
length with, or the structure held a 0 already. -/
theorem strArraySplitP_agrees_iff (ret : RawStrArray) {string delim : CStr}
    (hmax : (runs (isDelim delim) string).length ≤ strArrayMax) :
    SplittersAgree ret string delim
      ↔ ret.length = 0 ∨ ∃ c ∈ string, isDelim delim c = false := by
  have hraw := strArraySplitRaw_eq hmax
  have hsame : (strArraySplitPRaw ret string delim).2 = strArraySplitRaw string delim
      ↔ (strArraySplitPLoop ret string delim).2 = (runs (isDelim delim) string).length := by
    have hi : ((strArraySplitLoop string delim).i : Int) = (runs (isDelim delim) string).length :=
      congrArg RawStrArray.length hraw
    show (⟨(strArraySplitPLoop ret string delim).1.items, _⟩ : RawStrArray)
      = ⟨(strArraySplitLoop string delim).items, ((strArraySplitLoop string delim).i : Int)⟩ ↔ _
    rw [strArraySplitPLoop_fst, RawStrArray.mk.injEq, and_iff_right rfl, hi]
    rfl
  have hlength : (strArraySplitPLoop ret string delim).2 = (runs (isDelim delim) string).length
      ↔ ret.length = 0 ∨ runs (isDelim delim) string ≠ [] := by
    rw [strArraySplitPLoop_snd]
    show (if runs (isDelim delim) string = [] then ret.length
      else ((runs (isDelim delim) string).length : Int)) = _ ↔ _
    by_cases hnil : runs (isDelim delim) string = []
    · simp [hnil]
    · simp [hnil]
  -- a round is run exactly if some character is no delimiter
  have htoken : runs (isDelim delim) string ≠ [] ↔ ∃ c ∈ string, isDelim delim c = false := by
    rw [ne_eq, runs_eq_nil_iff]
    simp
  rw [← htoken, ← hlength, ← hsame]
  constructor
  · exact SplittersAgree.same
  · intro h
    exact ⟨rfl, h, by rw [hraw], by rw [hraw]⟩

/-- Blank tokens, and delimiters at both ends. -/
theorem strArraySplitP_agrees_iff_sample :
    SplittersAgree ⟨[], 7⟩ (bytes ",a, ,b ,") (bytes ",")
      ↔ (7 : Int) = 0 ∨ ∃ c ∈ bytes ",a, ,b ,", isDelim (bytes ",") c = false :=
  strArraySplitP_agrees_iff ⟨[], 7⟩ (by decide)

/-- `ltrimzero=,` leaves the length that was there. -/
theorem strArraySplitP_keeps_length :
    strArraySplitPRaw ⟨[], 7⟩ (bytes ",") (bytes ",") = (0, ⟨filled [], 7⟩)
      ∧ strArraySplitRaw (bytes ",") (bytes ",") = ⟨filled [], 0⟩
      ∧ ¬ SplittersAgree ⟨[], 7⟩ (bytes ",") (bytes ",") := by
  refine ⟨rfl, rfl, ?_⟩
  intro h
  have hlength : (7 : Int) = 0 := congrArg RawStrArray.length h.same
  exact absurd hlength (by decide)

/-! ## §4. Do the stores stay inside? -/

theorem stored_lt_iff (string delim : CStr) :
    (∀ k ∈ (strArraySplitLoop string delim).stored, k < strArrayMax)
      ↔ runStarts (isDelim delim) true string ≤ strArrayMax := by
  have hstored : (strArraySplitLoop string delim).stored
      = List.range (runStarts (isDelim delim) true string) := by
    unfold strArraySplitLoop
    rw [(storeAll_spec _ splitStart).1, ← length_runs, List.range_eq_range']
    rfl
  rw [hstored]
  constructor
  · intro h
    by_contra hmore
    exact absurd (h strArrayMax (List.mem_range.mpr (by omega))) (Nat.lt_irrefl _)
  · intro h k hk
    have hk := List.mem_range.mp hk
    omega

/-- **WHEN SPLITTING STAYS INSIDE ITS ARRAY**, in either function: exactly if no
more runs begin in the string than there are slots. -/
theorem strArraySplit_inRange_iff (ret : RawStrArray) (string delim : CStr) :
    ((∀ k ∈ (strArraySplitLoop string delim).stored, k < strArrayMax)
        ∧ ∀ k ∈ (strArraySplitPLoop ret string delim).1.stored, k < strArrayMax)
      ↔ runStarts (isDelim delim) true string ≤ strArrayMax := by
  rw [strArraySplitPLoop_fst, and_self, stored_lt_iff]

/-- The loop-free readings have no result exactly where a store leaves the block. -/
theorem strArraySplit_eq_none_iff (ret : StrArray) (string delim : CStr) :
    (strArraySplit string delim = none
        ↔ ∃ k ∈ (strArraySplitLoop string delim).stored, strArrayMax ≤ k)
      ∧ (strArraySplitP ret string delim = none ↔ strArraySplit string delim = none) := by
  refine ⟨?_, ?_⟩
  · have hin := not_congr (stored_lt_iff string delim)
    push Not at hin
    rw [hin, ← length_runs]
    show (if ((runs (isDelim delim) string).map trim).length ≤ strArrayMax then _ else none) = none
      ↔ _
    rw [List.length_map, ite_eq_right_iff]
    simp
  · unfold strArraySplitP strArraySplit
    dsimp only
    rw [ite_eq_right_iff, ite_eq_right_iff]
    simp

/-- One part more than there are slots, in a query and in a list of names. -/
theorem strArraySplit_leaves_block :
    512 ∈ (strArraySplitLoop ((bytes "&").intercalate (List.replicate 513 (bytes "x")))
        (bytes "&")).stored
      ∧ 512 ∈ (strArraySplitPLoop ⟨[], 0⟩ ((bytes ",").intercalate (List.replicate 513 (bytes "x")))
        (bytes ",")).1.stored
      ∧ ¬ 512 < strArrayMax := by
  have key : ∀ d : UInt8, isDelim [d] (ascii 'x') = false →
      512 ∈ (strArraySplitLoop ([d].intercalate (List.replicate 513 (bytes "x"))) [d]).stored := by
    intro d hd
    -- the separators are cut out again, and 513 items are left
    have htokens : strtokAll ([d].intercalate (List.replicate 513 (bytes "x"))) [d]
        = List.replicate 513 (bytes "x") := by
      apply runs_intercalate (by simp [isDelim])
      intro l hl
      rw [List.eq_of_mem_replicate hl]
      refine ⟨by decide, ?_⟩
      intro x hx
      rw [List.mem_singleton.mp hx]
      exact hd
    unfold strArraySplitLoop
    rw [(storeAll_spec _ splitStart).1, htokens, List.length_replicate]
    show 512 ∈ [] ++ List.range' 0 513
    simp
  refine ⟨key (ascii '&') (by decide), ?_, by decide⟩
  rw [strArraySplitPLoop_fst]
  exact key (ascii ',') (by decide)

end Protohand
