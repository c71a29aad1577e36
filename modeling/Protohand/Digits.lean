/-
  Protohand.Digits
  ────────────────
  **PADDED AND TRIMMED NUMBERS.**

  Every text is a number of zeros and a rest that does not start with one.
  What `transform_ltrimzero` makes of it depends on the rest only where there
  is one (`ltrimLoop_zeros_append`).  Without a rest one zero is left, but not
  of a single zero: the loop has moved past it when it looks at the length.

    • `ltrimzero_canonical_iff` — when a trimmed number is in normal form,
    • `lpadzero_ltrimzero_inverse` — padding and trimming undo each other.
-/
import Protohand.Transform

namespace Protohand

/-! ## §1. Zeros in front. -/

def zeros (k : Nat) : CStr := List.replicate k (ascii '0')

/-- Every text, cut behind its leading zeros. -/
theorem exists_zeros (d : CStr) : ∃ k r, d = zeros k ++ r ∧ r.head? ≠ some (ascii '0') := by
  induction d with
  | nil => exact ⟨0, [], rfl, by simp⟩
  | cons c d ih =>
      by_cases hc : c = ascii '0'
      · obtain ⟨k, r, rfl, hr⟩ := ih
        subst hc
        exact ⟨k + 1, r, rfl, hr⟩
      · exact ⟨0, c :: d, rfl, by simpa using hc⟩

/-- **The loop takes off all zeros** in front of something else. -/
theorem ltrimLoop_zeros_append (k : Nat) {r : CStr} (hne : r ≠ [])
    (hr : r.head? ≠ some (ascii '0')) : ltrimLoop (zeros k ++ r) = r := by
  induction k with
  | zero =>
      obtain ⟨c, rest, rfl⟩ := List.exists_cons_of_ne_nil hne
      show ltrimLoop (c :: rest) = _
      rw [ltrimLoop, if_neg (by simpa using hr)]
  | succ k ih =>
      show ltrimLoop (ascii '0' :: (zeros k ++ r)) = r
      rw [ltrimLoop, if_pos rfl]
      by_cases hone : (zeros k ++ r).length = 1
      · -- the last character, and it is no zero
        have hpos : 0 < r.length := List.length_pos_of_ne_nil hne
        have hk : k = 0 := by
          unfold zeros at hone
          rw [List.length_append, List.length_replicate] at hone
          omega
        rw [if_pos hone, hk]
        rfl
      · rw [if_neg hone]
        exact ih

/-- Of two zeros or more, one is left. -/
theorem ltrimLoop_zeros (k : Nat) : ltrimLoop (zeros (k + 2)) = [ascii '0'] := by
  induction k with
  | zero => rfl
  | succ k ih =>
      show ltrimLoop (ascii '0' :: zeros (k + 2)) = _
      have hlen : (zeros (k + 2)).length ≠ 1 := by
        unfold zeros
        rw [List.length_replicate]
        omega
      rw [ltrimLoop, if_pos rfl, if_neg hlen]
      exact ih

/-- Zeros in front do not count. -/
theorem readDigits_zeros_append (k : Nat) (r : CStr) :
    readDigits 0 (zeros k ++ r) = readDigits 0 r := by
  induction k with
  | zero => rfl
  | succ k ih =>
      show readDigits 0 (ascii '0' :: (zeros k ++ r)) = _
      rw [readDigits, if_pos (by decide)]
      exact ih

/-! ## §2. Normal forms. -/

/-- The normal form of a number: the one zero, or no zero in front. -/
def IsCanonical (s : CStr) : Prop :=
  s = [ascii '0'] ∨ (s ≠ [] ∧ s.head? ≠ some (ascii '0'))

/-- What the comment on `transform_ltrimzero` promises of a number. -/
structure TrimsWell (d : CStr) : Prop where
  canonical : IsCanonical (transformLtrimzero d).text
  value : readDigits 0 (transformLtrimzero d).text = readDigits 0 d
  idempotent : (transformLtrimzero (transformLtrimzero d).text).text = (transformLtrimzero d).text
  zero : (∀ c ∈ d, c = ascii '0') → (transformLtrimzero d).text = [ascii '0']

/-- A text of zeros is not trimmed well: one zero is lost, and of more of them
one is left that the next call loses. -/
theorem not_trimsWell_zeros (k : Nat) : ¬ TrimsWell (zeros k) := by
  intro h
  match k with
  -- the empty text and the one zero are both trimmed to nothing
  | 0 | 1 => exact absurd (h.zero (fun _ hc => List.eq_of_mem_replicate hc)) (by decide)
  | k + 2 =>
      have hone : (transformLtrimzero (zeros (k + 2))).text = [ascii '0'] := ltrimLoop_zeros k
      have hagain := h.idempotent
      rw [hone] at hagain
      exact absurd hagain (by decide)

/-- **WHEN A NUMBER IS TRIMMED TO ITS NORMAL FORM**: if it is not zero. -/
theorem ltrimzero_canonical_iff (d : CStr) : TrimsWell d ↔ ∃ c ∈ d, c ≠ ascii '0' := by
  constructor
  · intro h
    by_contra hnone
    have hzeros : d = zeros d.length := by
      refine List.eq_replicate_iff.mpr ⟨rfl, ?_⟩
      intro c hc
      by_contra hne
      exact hnone ⟨c, hc, hne⟩
    rw [hzeros] at h
    exact not_trimsWell_zeros _ h
  · rintro ⟨c, hc, hne⟩
    obtain ⟨k, r, rfl, hr⟩ := exists_zeros d
    have hrest : r ≠ [] := by
      rintro rfl
      rw [List.append_nil] at hc
      exact hne (List.eq_of_mem_replicate hc)
    have htrim : (transformLtrimzero (zeros k ++ r)).text = r := ltrimLoop_zeros_append k hrest hr
    refine ⟨?_, ?_, ?_, fun hall => absurd (hall c hc) hne⟩
    · rw [htrim]
      exact Or.inr ⟨hrest, hr⟩
    · rw [htrim, readDigits_zeros_append]
    · rw [htrim]
      exact ltrimLoop_zeros_append 0 hrest hr

/-- One zero is lost, and the second call loses the zero that is left of two. -/
theorem single_zero_lost :
    (transformLtrimzero (bytes "0")).text = []
      ∧ (transformLtrimzero (bytes "00")).text = bytes "0"
      ∧ (transformLtrimzero (transformLtrimzero (bytes "00")).text).text = []
      ∧ ¬ TrimsWell (bytes "0") ∧ ¬ TrimsWell (bytes "00") :=
  ⟨rfl, rfl, rfl, not_trimsWell_zeros 1, not_trimsWell_zeros 2⟩

/-! ## §3. Padding and trimming. -/

/-- A padded number is a number of zeros and the number. -/
theorem lpadzero_text {s : CStr} {maxlen : Nat} (h : s.length ≤ maxlen) :
    (transformLpadzero s maxlen).1 = 0
      ∧ (transformLpadzero s maxlen).2.text = zeros (maxlen - s.length) ++ s := by
  obtain ⟨stores, hpad, _⟩ := transformLpadzero_ok h
  rw [hpad]
  exact ⟨rfl, rfl⟩

theorem zeros_concat (k : Nat) : zeros k ++ [ascii '0'] = zeros (k + 1) := List.replicate_succ'.symm

/-- A padded normal form is trimmed back, also the one zero. -/
theorem ltrimLoop_padded {maxlen : Nat} (hmax : 2 ≤ maxlen) {s : CStr} (hs : IsCanonical s) :
    ltrimLoop (zeros (maxlen - s.length) ++ s) = s := by
  rcases hs with rfl | ⟨hne, hhead⟩
  · -- all zeros, and at least two of them
    have hk : maxlen - [ascii '0'].length + 1 = (maxlen - 2) + 2 := by
      show maxlen - 1 + 1 = _
      omega
    rw [zeros_concat, hk]
    exact ltrimLoop_zeros _
  · exact ltrimLoop_zeros_append _ hne hhead

/-- A text of the full width is trimmed to a text that the same zeros fill up. -/
theorem zeros_append_ltrimLoop {t : CStr} (ht : 2 ≤ t.length) :
    (ltrimLoop t).length ≤ t.length
      ∧ zeros (t.length - (ltrimLoop t).length) ++ ltrimLoop t = t := by
  refine ⟨length_ltrimLoop_le t, ?_⟩
  obtain ⟨k, r, rfl, hr⟩ := exists_zeros t
  by_cases hrest : r = []
  · -- all zeros: the one that is left is the last of them
    subst hrest
    rw [List.append_nil] at ht ⊢
    have hlen : (zeros k).length = k := List.length_replicate
    rw [hlen] at ht ⊢
    have hone : ltrimLoop (zeros k) = [ascii '0'] := by
      rw [show k = (k - 2) + 2 by omega]
      exact ltrimLoop_zeros _
    rw [hone, zeros_concat]
    congr 1
    show k - 1 + 1 = k
    omega
  · have hlen : (zeros k ++ r).length - r.length = k := by
      rw [List.length_append, Nat.add_sub_cancel]
      exact List.length_replicate
    rw [ltrimLoop_zeros_append k hrest hr, hlen]

/-- **PADDING AND TRIMMING ARE INVERSE**, between the normal forms that fit and
the texts of the full width. -/
theorem lpadzero_ltrimzero_inverse {maxlen : Nat} (hmax : 2 ≤ maxlen) :
    (∀ s, IsCanonical s → s.length ≤ maxlen →
        (transformLpadzero s maxlen).1 = 0
          ∧ (transformLpadzero s maxlen).2.text.length = maxlen
          ∧ (transformLtrimzero (transformLpadzero s maxlen).2.text).text = s)
      ∧ ∀ t, t.length = maxlen →
        (transformLpadzero (transformLtrimzero t).text maxlen).1 = 0
          ∧ (transformLpadzero (transformLtrimzero t).text maxlen).2.text = t := by
  constructor
  · intro s hs hlen
    obtain ⟨hret, htext⟩ := lpadzero_text hlen
    rw [htext]
    exact ⟨hret, length_zeroPad hlen, ltrimLoop_padded hmax hs⟩
  · rintro t rfl
    obtain ⟨hlen, hfill⟩ := zeros_append_ltrimLoop hmax
    obtain ⟨hret, htext⟩ := lpadzero_text hlen
    exact ⟨hret, htext.trans hfill⟩

theorem lpadzero_ltrimzero_inverse_sample :
    (∀ s, IsCanonical s → s.length ≤ 5 →
        (transformLpadzero s 5).1 = 0 ∧ (transformLpadzero s 5).2.text.length = 5
          ∧ (transformLtrimzero (transformLpadzero s 5).2.text).text = s)
      ∧ ∀ t, t.length = 5 →
        (transformLpadzero (transformLtrimzero t).text 5).1 = 0
          ∧ (transformLpadzero (transformLtrimzero t).text 5).2.text = t :=
  lpadzero_ltrimzero_inverse (by decide)

end Protohand
