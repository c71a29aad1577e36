/-
  Protohand.NvList
  ────────────────
  **lib/nvlist.c**: the growing list of name/value pairs that holds the query
  of a URI.

  `items` is the allocated block, a slot per entry, `none` where nothing was
  stored yet; `length` and `max` are the counters the code keeps beside it.
  Nothing in the C code ties them together: `NvList.WF` does, and each
  operation is shown to keep it.  Allocation is taken to succeed.
-/
import Protohand.CString

namespace Protohand

/-! ## §1. The list and its operations. -/

/-- `struct nvlist_pair`. -/
structure NvPair where
  key : CStr
  value : CStr
  deriving DecidableEq, Repr

/-- `struct nvlist_list`. -/
structure NvList where
  items : List (Option NvPair)
  length : Nat
  max : Nat
  step : Nat
  deriving DecidableEq, Repr

/-- `nvlist_create`. -/
def nvlistCreate (size : Nat) : NvList where
  items := List.replicate size none
  length := 0
  max := size
  step := if size = 0 then 10 else size

/-- `nvlist_resize`: refuses sizes that are not above `max`. -/
def nvlistResize (rep : NvList) (size : Int) : Int × NvList :=
  if size ≤ rep.max then (-2, rep)
  else
    (size, { rep with
      items := rep.items ++ List.replicate (size.toNat - rep.items.length) none
      max := size.toNat })

/-- The unchecked `rep->items[rep->length] = p; rep->length++`. -/
def nvlistStore (rep : NvList) (p : NvPair) : NvList :=
  { rep with items := rep.items.set rep.length (some p), length := rep.length + 1 }

/-- `nvlist_addpair`: the new length, or the negative code of a failed resize. -/
def nvlistAddpair (rep : NvList) (key value : CStr) : Int × NvList :=
  if rep.length + 1 > rep.max then
    let (r, rep') := nvlistResize rep (rep.max + rep.step)
    if r < 0 then (r, rep') else ((rep'.length + 1 : Nat), nvlistStore rep' ⟨key, value⟩)
  else ((rep.length + 1 : Nat), nvlistStore rep ⟨key, value⟩)

/-- `nvlist_addstr`: the texts before and after the first `delim`, or `-1`
where there is none. -/
def nvlistAddstr (rep : NvList) (str : CStr) (delim : UInt8) : Int × NvList :=
  if delim ∈ str then nvlistAddpair rep (Text.before delim str) (Text.after delim str)
  else (-1, rep)

/-- What a loop `for (i=0; i<rep->length; i++)` over `rep->items[i]` sees. -/
def NvList.pairs (rep : NvList) : List NvPair := (rep.items.take rep.length).filterMap id

/-- A list that is full with these pairs. -/
def NvList.ofPairs (pairs : List NvPair) : NvList :=
  ⟨pairs.map some, pairs.length, pairs.length, 1⟩

theorem pairs_ofPairs (pairs : List NvPair) : (NvList.ofPairs pairs).pairs = pairs := by
  show (List.take pairs.length (pairs.map some)).filterMap id = pairs
  rw [List.take_of_length_le (by rw [List.length_map])]
  simp

/-! ## §2. The invariant. -/

/-- The counters describe the block, and every slot below `length` was stored. -/
structure NvList.WF (rep : NvList) : Prop where
  slots : rep.items.length = rep.max
  length_le : rep.length ≤ rep.max
  step_pos : 1 ≤ rep.step
  stored : rep.items.take rep.length = rep.pairs.map some

theorem NvList.WF.length_pairs {rep : NvList} (h : rep.WF) : rep.pairs.length = rep.length := by
  have hlen := congrArg List.length h.stored
  rw [List.length_take, List.length_map, h.slots, Nat.min_eq_left h.length_le] at hlen
  exact hlen.symm

theorem nvlistCreate_wf (size : Nat) : (nvlistCreate size).WF where
  slots := List.length_replicate
  length_le := Nat.zero_le _
  step_pos := by
    show 1 ≤ (if size = 0 then 10 else size)
    split <;> omega
  stored := rfl

/-! ## §3. Each operation keeps the invariant. -/

/-- A resize keeps the entries, whatever it answers. -/
theorem nvlistResize_spec {rep : NvList} (h : rep.WF) (size : Int) :
    (nvlistResize rep size).2.WF ∧ (nvlistResize rep size).2.pairs = rep.pairs
      ∧ (nvlistResize rep size).2.length = rep.length := by
  unfold nvlistResize
  split
  · exact ⟨h, rfl, rfl⟩
  · next hsize =>
    have hle : rep.length ≤ rep.items.length := by rw [h.slots]; exact h.length_le
    have htake : (rep.items ++ List.replicate (size.toNat - rep.items.length) none).take
        rep.length = rep.items.take rep.length := List.take_append_of_le_length hle
    have hslots := h.slots
    have hlen := h.length_le
    refine ⟨⟨?_, ?_, h.step_pos, ?_⟩, ?_, rfl⟩
    · simp only [List.length_append, List.length_replicate]
      omega
    · show rep.length ≤ size.toNat
      omega
    · show List.take rep.length _ = _
      unfold NvList.pairs
      rw [htake]
      exact h.stored
    · unfold NvList.pairs
      rw [htake]

/-- Storing into a list with room appends one entry. -/
theorem nvlistStore_spec {rep : NvList} (h : rep.WF) (hroom : rep.length < rep.max)
    (p : NvPair) :
    (nvlistStore rep p).WF ∧ (nvlistStore rep p).pairs = rep.pairs ++ [p] := by
  have hlt : rep.length < rep.items.length := by rw [h.slots]; exact hroom
  -- the slot behind the last entry lies inside the block, so the store is seen
  have htake : (rep.items.set rep.length (some p)).take (rep.length + 1)
      = (rep.pairs ++ [p]).map some := by
    rw [List.take_add_one, List.take_set_of_le (Nat.le_refl _), h.stored,
      List.getElem?_set_self hlt]
    simp
  have hpairs : (nvlistStore rep p).pairs = rep.pairs ++ [p] := by
    show ((rep.items.set rep.length (some p)).take (rep.length + 1)).filterMap id = _
    rw [htake]
    simp
  refine ⟨⟨?_, hroom, h.step_pos, ?_⟩, hpairs⟩
  · show (rep.items.set rep.length (some p)).length = rep.max
    rw [List.length_set, h.slots]
  · rw [hpairs]
    exact htake

/-- **`nvlist_addpair` never fails**: it returns the new length and appends
exactly the pair. -/
theorem nvlistAddpair_spec {rep : NvList} (h : rep.WF) (key value : CStr) :
    (nvlistAddpair rep key value).1 = (rep.length + 1 : Nat)
      ∧ (nvlistAddpair rep key value).2.WF
      ∧ (nvlistAddpair rep key value).2.pairs = rep.pairs ++ [⟨key, value⟩] := by
  unfold nvlistAddpair
  split
  · next hfull =>
    obtain ⟨hwf, hpairs, hlen⟩ := nvlistResize_spec h (rep.max + rep.step)
    have hstep := h.step_pos
    -- the step is positive, so the size asked for is above `max`
    have hres : nvlistResize rep (rep.max + rep.step)
        = ((rep.max + rep.step : Int), (nvlistResize rep (rep.max + rep.step)).2) := by
      unfold nvlistResize
      rw [if_neg (by omega)]
    have hmax : (nvlistResize rep (rep.max + rep.step)).2.max = rep.max + rep.step := by
      unfold nvlistResize
      rw [if_neg (by omega)]
      show (((rep.max + rep.step : Int)).toNat) = _
      omega
    rw [hres]
    show (if (rep.max + rep.step : Int) < 0 then _ else _ : Int × NvList).1 = _ ∧ _
    rw [if_neg (by omega)]
    have hle := h.length_le
    obtain ⟨hwf', hpairs'⟩ := nvlistStore_spec hwf (by rw [hlen, hmax]; omega) ⟨key, value⟩
    rw [hpairs] at hpairs'
    exact ⟨by rw [hlen], hwf', hpairs'⟩
  · next hroom =>
    obtain ⟨hwf', hpairs'⟩ := nvlistStore_spec h (by omega) ⟨key, value⟩
    exact ⟨rfl, hwf', hpairs'⟩

/-- **`nvlist_addstr`** on a text with the delimiter in it. -/
theorem nvlistAddstr_spec {rep : NvList} (h : rep.WF) {str : CStr} {delim : UInt8}
    (hd : delim ∈ str) :
    0 ≤ (nvlistAddstr rep str delim).1
      ∧ (nvlistAddstr rep str delim).2.WF
      ∧ (nvlistAddstr rep str delim).2.pairs
          = rep.pairs ++ [⟨Text.before delim str, Text.after delim str⟩] := by
  unfold nvlistAddstr
  rw [if_pos hd]
  obtain ⟨hret, hwf, hpairs⟩ :=
    nvlistAddpair_spec h (Text.before delim str) (Text.after delim str)
  exact ⟨by rw [hret]; omega, hwf, hpairs⟩

/-! ## §4. Whole runs. -/

/-- A call that changes a list. -/
inductive NvOp where
  | addpair (key value : CStr)
  | addstr (str : CStr) (delim : UInt8)
  | resize (size : Int)
  deriving DecidableEq, Repr

/-- What the call returns, and the list afterwards. -/
def NvOp.run : NvOp → NvList → Int × NvList
  | addpair key value, rep => nvlistAddpair rep key value
  | addstr str delim, rep => nvlistAddstr rep str delim
  | resize size, rep => nvlistResize rep size

/-- The pair the call is to add, if it is to add one. -/
def NvOp.entry : NvOp → Option NvPair
  | addpair key value => some ⟨key, value⟩
  | addstr str delim =>
      if delim ∈ str then some ⟨Text.before delim str, Text.after delim str⟩ else none
  | resize _ => none

theorem NvOp.entry_addstr {str : CStr} {delim : UInt8} (hd : delim ∈ str) :
    (NvOp.addstr str delim).entry
      = some ⟨Text.before delim str, Text.after delim str⟩ := if_pos hd

theorem NvOp.entry_addstr_none {str : CStr} {delim : UInt8} (hd : delim ∉ str) :
    (NvOp.addstr str delim).entry = none := if_neg hd

/-- The list after these calls, on a list from `nvlist_create(n)`. -/
def nvReached (n : Nat) (ops : List NvOp) : NvList :=
  ops.foldl (fun rep op => (op.run rep).2) (nvlistCreate n)

/-- A resize that is refused changes nothing. -/
theorem nvlistResize_refused {rep : NvList} {size : Int} (h : (nvlistResize rep size).1 < 0) :
    (nvlistResize rep size).2 = rep := by
  unfold nvlistResize at h ⊢
  by_cases hsize : size ≤ rep.max
  · rw [if_pos hsize]
  · -- what is above `max` is not negative, and is returned
    rw [if_neg hsize] at h
    have hneg : size < 0 := h
    omega

/-- **One call** keeps the invariant, and adds the pair it is to add at the end. -/
theorem nvOp_step {rep : NvList} (h : rep.WF) (op : NvOp) :
    (op.run rep).2.WF ∧ (op.run rep).2.pairs = rep.pairs ++ op.entry.toList := by
  cases op with
  | addpair key value =>
      obtain ⟨_, hwf, hpairs⟩ := nvlistAddpair_spec h key value
      exact ⟨hwf, hpairs⟩
  | addstr str delim =>
      by_cases hd : delim ∈ str
      · rw [NvOp.entry_addstr hd]
        exact (nvlistAddstr_spec h hd).2
      · have hkeep : nvlistAddstr rep str delim = (-1, rep) := if_neg hd
        rw [NvOp.entry_addstr_none hd, Option.toList_none, List.append_nil]
        show (nvlistAddstr rep str delim).2.WF ∧ (nvlistAddstr rep str delim).2.pairs = rep.pairs
        rw [hkeep]
        exact ⟨h, rfl⟩
  | resize size =>
      obtain ⟨hwf, hpairs, _⟩ := nvlistResize_spec h size
      exact ⟨hwf, hpairs.trans (List.append_nil _).symm⟩

/-- **A whole run** keeps the invariant, and adds the pairs of its calls in order. -/
theorem nvOps_run {rep : NvList} (h : rep.WF) (ops : List NvOp) :
    (ops.foldl (fun rep op => (op.run rep).2) rep).WF
      ∧ (ops.foldl (fun rep op => (op.run rep).2) rep).pairs
        = rep.pairs ++ ops.filterMap NvOp.entry := by
  induction ops generalizing rep with
  | nil => exact ⟨h, (List.append_nil _).symm⟩
  | cons op ops ih =>
      obtain ⟨hwf, hpairs⟩ := nvOp_step h op
      obtain ⟨hrun, hall⟩ := ih hwf
      refine ⟨hrun, ?_⟩
      rw [List.foldl_cons, hall, hpairs, List.append_assoc]
      cases hentry : op.entry with
      | none => rw [List.filterMap_cons_none hentry]; rfl
      | some p => rw [List.filterMap_cons_some hentry]; rfl

theorem nvReached_spec (n : Nat) (ops : List NvOp) :
    (nvReached n ops).WF ∧ (nvReached n ops).pairs = ops.filterMap NvOp.entry :=
  nvOps_run (nvlistCreate_wf n) ops

/-- The answer of `nvlist_addstr`: the new length, or `-1` and the list as it was. -/
theorem nvlistAddstr_answer {rep : NvList} (h : rep.WF) (str : CStr) (delim : UInt8) :
    if delim ∈ str then (nvlistAddstr rep str delim).1 = (rep.length + 1 : Nat)
    else nvlistAddstr rep str delim = (-1, rep) := by
  unfold nvlistAddstr
  by_cases hd : delim ∈ str
  · rw [if_pos hd, if_pos hd]
    exact (nvlistAddpair_spec h _ _).1
  · rw [if_neg hd, if_neg hd]

/-- The new length that is returned is the length of the list. -/
theorem nvOp_length {rep : NvList} (h : rep.WF) (op : NvOp) :
    (op.run rep).2.length = rep.length + op.entry.toList.length := by
  obtain ⟨hwf, hpairs⟩ := nvOp_step h op
  rw [← hwf.length_pairs, hpairs, List.length_append, h.length_pairs]

/-- **THE LIST KEEPS EVERY ENTRY.**  In every list that calls can reach, the
counters describe the block, and the pairs are those of the calls in order.
From there an add returns the new length and appends its pair, `nvlist_addstr`
refuses exactly a text without the delimiter, and what is refused changes
nothing. -/
theorem nvReached_keeps_entries (n : Nat) (ops : List NvOp) :
    (nvReached n ops).WF
      ∧ (nvReached n ops).pairs = ops.filterMap NvOp.entry
      ∧ (∀ key value, (nvlistAddpair (nvReached n ops) key value).1
            = ((nvReached n ops).length + 1 : Nat)
          ∧ (nvlistAddpair (nvReached n ops) key value).2.length = (nvReached n ops).length + 1
          ∧ (nvlistAddpair (nvReached n ops) key value).2.pairs
            = (nvReached n ops).pairs ++ [⟨key, value⟩])
      ∧ (∀ str delim, delim ∈ str →
          (nvlistAddstr (nvReached n ops) str delim).1 = ((nvReached n ops).length + 1 : Nat)
          ∧ (nvlistAddstr (nvReached n ops) str delim).2.length = (nvReached n ops).length + 1
          ∧ (nvlistAddstr (nvReached n ops) str delim).2.pairs
            = (nvReached n ops).pairs ++ [⟨Text.before delim str, Text.after delim str⟩])
      ∧ (∀ str delim, delim ∉ str →
          nvlistAddstr (nvReached n ops) str delim = (-1, nvReached n ops))
      ∧ ∀ size, (nvlistResize (nvReached n ops) size).2.pairs = (nvReached n ops).pairs
          ∧ ((nvlistResize (nvReached n ops) size).1 < 0 →
            (nvlistResize (nvReached n ops) size).2 = nvReached n ops) := by
  obtain ⟨hwf, hpairs⟩ := nvReached_spec n ops
  refine ⟨hwf, hpairs, ?_, ?_, ?_, ?_⟩
  · intro key value
    obtain ⟨hret, _, hadd⟩ := nvlistAddpair_spec hwf key value
    exact ⟨hret, nvOp_length hwf (.addpair key value), hadd⟩
  · intro str delim hd
    have hret := nvlistAddstr_answer hwf str delim
    have hlen := nvOp_length hwf (.addstr str delim)
    rw [if_pos hd] at hret
    rw [NvOp.entry_addstr hd] at hlen
    exact ⟨hret, hlen, (nvlistAddstr_spec hwf hd).2.2⟩
  · intro str delim hd
    have hret := nvlistAddstr_answer hwf str delim
    rw [if_neg hd] at hret
    exact hret
  · intro size
    exact ⟨(nvlistResize_spec hwf size).2.1, nvlistResize_refused⟩

/-- The block of no slot grows by 10 at once; a text without `&` adds nothing. -/
example : (nvReached 0 [.addpair (bytes "k1") (bytes "v1"), .addstr (bytes "k2") (ascii '&'),
    .resize (-3), .addstr (bytes "k3&v3") (ascii '&')]).pairs
      = [⟨bytes "k1", bytes "v1"⟩, ⟨bytes "k3", bytes "v3"⟩] := by decide

end Protohand
