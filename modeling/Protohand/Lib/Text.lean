/-
  Protohand.Lib.Text
  ──────────────────
  **CUTTING LISTS AT DELIMITERS.**

  The list operations that string code is made of, over any element type:

    • `exists_cut`  — a list, cut in front of the first element of a kind,
    • `runs`        — the maximal non-empty runs between delimiters,
    • `strip`       — both ends freed of elements a predicate holds of,
    • `before`/`after` — the two sides of the first occurrence,
    • `pair_infix_cons`, `triple_infix_cons` — where a short word occurs in
      a list that grows at its front.
-/
import Mathlib.Data.List.Basic
import Mathlib.Data.List.DropRight
import Mathlib.Data.List.Infix

namespace Text

variable {α : Type*}

/-! ## §1. Cuts. -/

/-- What a cut leaves behind it: nothing, or an element of the kind and the rest. -/
def CutAt (p : α → Bool) (r : List α) : Prop := r = [] ∨ ∃ c t, r = c :: t ∧ p c = true

/-- Every list can be cut in front of the first element with a property. -/
theorem exists_cut (p : α → Bool) (s : List α) :
    ∃ a r, s = a ++ r ∧ (∀ c ∈ a, p c = false) ∧ CutAt p r := by
  refine ⟨s.takeWhile (fun c => !p c), s.dropWhile (fun c => !p c),
    List.takeWhile_append_dropWhile.symm, ?_, ?_⟩
  · intro c hc
    simpa using List.mem_takeWhile_imp hc
  · cases hr : s.dropWhile (fun c => !p c) with
    | nil => exact Or.inl rfl
    | cons c t =>
        have hc := List.head_dropWhile_not (fun c => !p c) (l := s) (by rw [hr]; simp)
        exact Or.inr ⟨c, t, rfl, by simpa [hr] using hc⟩

/-- What stands before a cut survives `takeWhile`, what stands after it
survives `dropWhile`. -/
theorem takeWhile_cut {p : α → Bool} {a r : List α} (ha : ∀ c ∈ a, p c = false)
    (hr : CutAt p r) :
    (a ++ r).takeWhile (fun c => !p c) = a ∧ (a ++ r).dropWhile (fun c => !p c) = r := by
  have hpos : ∀ c ∈ a, (!p c) = true := fun c hc => by rw [ha c hc]; rfl
  rw [List.takeWhile_append_of_pos hpos, List.dropWhile_append_of_pos hpos]
  obtain rfl | ⟨c, t, rfl, hc⟩ := hr
  · simp
  · simp [hc]

/-! ## §2. Runs between delimiters. -/

/-- The maximal non-empty runs of elements that are no delimiter, in order. -/
def runs (delim : α → Bool) (s : List α) : List (List α) :=
  (s.splitOnP delim).filter (fun r => !r.isEmpty)

@[simp] theorem runs_nil (delim : α → Bool) : runs delim [] = [] := by
  simp [runs]

theorem runs_of_free {delim : α → Bool} {s : List α} (hs : s ≠ [])
    (h : ∀ x ∈ s, delim x = false) : runs delim s = [s] := by
  have hne : s.isEmpty = false := by simpa using hs
  rw [runs, List.splitOnP_eq_singleton h, List.filter_singleton, hne]
  rfl

theorem runs_append_cons {delim : α → Bool} {s : List α} {d : α}
    (h : ∀ x ∈ s, delim x = false) (hd : delim d = true) (rest : List α) :
    runs delim (s ++ d :: rest) = (if s = [] then [] else [s]) ++ runs delim rest := by
  rw [runs, List.splitOnP_append_cons_of_forall_mem h d hd, List.filter_cons]
  by_cases hs : s = []
  · simp [hs, runs]
  · simp [hs, runs]

/-- **Splitting undoes joining.** -/
theorem runs_intercalate [DecidableEq α] {delim : α → Bool} {d : α} (hd : delim d = true) :
    ∀ (ls : List (List α)), (∀ l ∈ ls, l ≠ [] ∧ ∀ x ∈ l, delim x = false) →
      runs delim ([d].intercalate ls) = ls
  | [], _ => by simp
  | [l], h => by
      rw [List.intercalate_singleton]
      exact runs_of_free (h l List.mem_cons_self).1 (h l List.mem_cons_self).2
  | l :: l' :: ls, h => by
      obtain ⟨hne, hfree⟩ := h l List.mem_cons_self
      rw [List.intercalate_cons_cons, List.append_assoc, List.singleton_append,
        runs_append_cons hfree hd, if_neg hne,
        runs_intercalate hd (l' :: ls) (fun m hm => h m (List.mem_cons_of_mem _ hm))]
      rfl

/-- What a run is: non-empty, free of delimiters, and a piece of the list. -/
theorem mem_runs {delim : α → Bool} {s r : List α} (h : r ∈ runs delim s) :
    r ≠ [] ∧ (∀ x ∈ r, delim x = false) ∧ r <:+: s := by
  induction hn : s.length using Nat.strongRecOn generalizing s with
  | ind n ih =>
      obtain ⟨a, rest, rfl, hfree, hcut⟩ := exists_cut delim s
      obtain rfl | ⟨d, rest, rfl, hd⟩ := hcut
      · -- the last run
        rw [List.append_nil] at h ⊢
        by_cases hnil : a = []
        · subst hnil; simp at h
        · rw [runs_of_free hnil hfree, List.mem_singleton] at h
          subst h
          exact ⟨hnil, hfree, List.infix_refl _⟩
      · rw [runs_append_cons hfree hd] at h
        rcases List.mem_append.mp h with h | h
        · split at h
          · simp at h
          next hne =>
            rw [List.mem_singleton] at h
            subst h
            exact ⟨hne, hfree, (List.prefix_append _ _).isInfix⟩
        · have hlen : rest.length < n := by
            rw [← hn]
            simp only [List.length_append, List.length_cons]
            omega
          obtain ⟨hne, hr, hinf⟩ := ih rest.length hlen h rfl
          exact ⟨hne, hr, hinf.trans ⟨a ++ [d], [], by simp⟩⟩

/-- An element that is no delimiter makes no new piece at the end. -/
theorem length_splitOnP_concat {delim : α → Bool} {d : α} (hd : delim d = false) :
    ∀ s : List α, ((s ++ [d]).splitOnP delim).length = (s.splitOnP delim).length
  | [] => by simp [List.splitOnP_cons_eq_if_modifyHead, hd]
  | x :: s => by
      rw [List.cons_append, List.splitOnP_cons_eq_if_modifyHead, List.splitOnP_cons_eq_if_modifyHead]
      split
      · rw [List.length_cons, List.length_cons, length_splitOnP_concat hd s]
      · rw [List.length_modifyHead, List.length_modifyHead, length_splitOnP_concat hd s]

/-- How many runs begin in a list: at an element that is no delimiter, with a
delimiter or nothing in front of it (`fresh`). -/
def runStarts (delim : α → Bool) : Bool → List α → Nat
  | _, [] => 0
  | fresh, c :: s => (if fresh = true ∧ delim c = false then 1 else 0) + runStarts delim (delim c) s

/-- Of a stretch without delimiters only its first element can begin a run. -/
theorem runStarts_append {delim : α → Bool} {a : List α} (h : ∀ x ∈ a, delim x = false)
    (fresh : Bool) (r : List α) :
    runStarts delim fresh (a ++ r)
      = if a = [] then runStarts delim fresh r
        else (if fresh = true then 1 else 0) + runStarts delim false r := by
  induction a generalizing fresh with
  | nil => rfl
  | cons x a ih =>
      have hx := h x List.mem_cons_self
      have hrest := ih (fun y hy => h y (List.mem_cons_of_mem _ hy)) false
      rw [if_neg (List.cons_ne_nil x a), List.cons_append, runStarts, hx, hrest]
      by_cases ha : a = []
      · simp [ha]
      · simp [ha]

/-- **AS MANY RUNS AS BEGIN.** -/
theorem length_runs (delim : α → Bool) (s : List α) :
    (runs delim s).length = runStarts delim true s := by
  induction hn : s.length using Nat.strongRecOn generalizing s with
  | ind n ih =>
      obtain ⟨a, rest, rfl, hfree, hcut⟩ := exists_cut delim s
      rw [runStarts_append hfree]
      obtain rfl | ⟨d, rest, rfl, hd⟩ := hcut
      · by_cases ha : a = []
        · simp [ha, runStarts]
        · rw [List.append_nil, runs_of_free ha hfree, if_neg ha]
          rfl
      · have hlen : rest.length < n := by
          rw [← hn, List.length_append, List.length_cons]
          omega
        have hnext : ∀ fresh, runStarts delim fresh (d :: rest) = runStarts delim true rest := by
          intro fresh
          rw [runStarts, hd]
          simp
        rw [runs_append_cons hfree hd, List.length_append, ih rest.length hlen rest rfl, hnext, hnext]
        by_cases ha : a = []
        · simp [ha]
        · simp [ha]

/-- There is no run exactly where there is nothing but delimiters. -/
theorem runs_eq_nil_iff (delim : α → Bool) (s : List α) :
    runs delim s = [] ↔ ∀ c ∈ s, delim c = true := by
  rw [← List.length_eq_zero_iff, length_runs]
  induction s with
  | nil => simp [runStarts]
  | cons c s ih =>
      rw [runStarts, List.forall_mem_cons, ← ih]
      cases hc : delim c with
      | true => simp
      | false => simp

theorem length_runs_le (delim : α → Bool) (s : List α) :
    (runs delim s).length ≤ (s.splitOnP delim).length := List.length_filter_le _ _

/-! ## §3. Stripping both ends. -/

/-- `s` without the elements at either end that `p` holds of. -/
def strip (p : α → Bool) (s : List α) : List α := (s.dropWhile p).rdropWhile p

theorem strip_isInfix (p : α → Bool) (s : List α) : strip p s <:+: s :=
  (List.rdropWhile_prefix p _).isInfix.trans (List.dropWhile_suffix p).isInfix

theorem strip_of_free {p : α → Bool} {s : List α} (h : ∀ x ∈ s, p x = false) :
    strip p s = s := by
  have hd : s.dropWhile p = s := by
    cases s with
    | nil => rfl
    | cons a s => rw [List.dropWhile_cons, if_neg (by simp [h a List.mem_cons_self])]
  rw [strip, hd, List.rdropWhile_eq_self_iff]
  intro hne
  simp [h _ (List.getLast_mem hne)]

/-- An element that stays shields everything in front of it. -/
theorem rdropWhile_append_cons {p : α → Bool} {x : α} (hx : p x = false) (a : List α) :
    ∀ b : List α, (a ++ x :: b).rdropWhile p = a ++ x :: b.rdropWhile p := by
  intro b
  induction b using List.reverseRecOn with
  | nil => rw [List.rdropWhile_concat_neg p a x (by simp [hx]), List.rdropWhile_nil]
  | append_singleton b y ih =>
      have hcut : a ++ x :: (b ++ [y]) = (a ++ x :: b) ++ [y] := by simp
      rw [hcut, List.rdropWhile_concat, List.rdropWhile_concat, ih]
      split
      · rfl
      · simp

theorem rdropWhile_eq_self_iff_getLast? {p : α → Bool} {l : List α} :
    l.rdropWhile p = l ↔ l.getLast?.any p = false := by
  rw [List.rdropWhile_eq_self_iff]
  by_cases hne : l = []
  · simp [hne]
  · rw [List.getLast?_eq_some_getLast hne, Option.any_some, Bool.eq_false_iff]
    exact ⟨fun h => h hne, fun h _ => h⟩

/-- Dropping less first changes nothing. -/
theorem rdropWhile_rdropWhile {p q : α → Bool} (hpq : ∀ x, p x = true → q x = true)
    (l : List α) : (l.rdropWhile p).rdropWhile q = l.rdropWhile q := by
  induction l using List.reverseRecOn with
  | nil => rfl
  | append_singleton l x ih =>
      by_cases hx : p x = true
      · rw [List.rdropWhile_concat_pos p l x hx, List.rdropWhile_concat_pos q l x (hpq x hx), ih]
      · rw [List.rdropWhile_concat_neg p l x hx]

/-- A list that is not dropped as a whole shields what stands in front of it. -/
theorem rdropWhile_append {p : α → Bool} {b : List α} (h : ∃ x ∈ b, p x = false) (a : List α) :
    (a ++ b).rdropWhile p = a ++ b.rdropWhile p := by
  obtain ⟨x, hx, hpx⟩ := h
  obtain ⟨u, v, rfl⟩ := List.append_of_mem hx
  rw [← List.append_assoc, rdropWhile_append_cons hpx, rdropWhile_append_cons hpx,
    List.append_assoc]

/-- It keeps its head, too. -/
theorem head?_rdropWhile {p : α → Bool} {l : List α} (h : ∃ x ∈ l, p x = false) :
    (l.rdropWhile p).head? = l.head? := by
  obtain ⟨x, hx, hpx⟩ := h
  obtain ⟨a, b, rfl⟩ := List.append_of_mem hx
  rw [rdropWhile_append_cons hpx]
  cases a <;> rfl

/-- What stands first in a stripped list is none of what was stripped. -/
theorem head?_strip {p : α → Bool} {s : List α} : ∀ c ∈ (strip p s).head?, p c = false := by
  intro c hc
  obtain ⟨t, ht⟩ := List.rdropWhile_prefix p (s.dropWhile p)
  have hhead : (s.dropWhile p).head? = some c := by
    rw [← ht, List.head?_append]
    rw [strip, Option.mem_def] at hc
    rw [hc]
    rfl
  have hdrop := List.head?_dropWhile_not p s
  rw [hhead] at hdrop
  simpa using hdrop

/-- Stripping behind blanks and an element that stays. -/
theorem strip_append_cons {p : α → Bool} {x : α} (hx : p x = false) {a : List α}
    (ha : ∀ y ∈ a, p y = true) (b : List α) :
    strip p (a ++ x :: b) = x :: b.rdropWhile p := by
  have hdrop : (a ++ x :: b).dropWhile p = x :: b := by
    rw [List.dropWhile_append_of_pos ha, List.dropWhile_cons, if_neg (by simp [hx])]
  rw [strip, hdrop]
  exact rdropWhile_append_cons hx [] b

/-- Stripping behind a text that stays. -/
theorem strip_append_of_free {p : α → Bool} {a : List α} (hne : a ≠ [])
    (ha : ∀ y ∈ a, p y = false) (b : List α) : strip p (a ++ b) = a ++ b.rdropWhile p := by
  obtain ⟨x, rest, rfl⟩ := List.exists_cons_of_ne_nil hne
  have hdrop : (x :: rest ++ b).dropWhile p = x :: rest ++ b := by
    rw [List.cons_append, List.dropWhile_cons, if_neg (by simp [ha x List.mem_cons_self])]
  -- the last element of `a` shields all of it
  obtain ⟨front, y, hlast⟩ := List.eq_nil_or_concat (x :: rest) |>.resolve_left hne
  rw [strip, hdrop, hlast]
  have hy : p y = false := ha y (by rw [hlast]; simp)
  simpa using rdropWhile_append_cons hy front b

/-! ## §4. Both sides of the first occurrence. -/

section Cut

variable [DecidableEq α]

/-- What stands before the first `d` (everything where there is none). -/
def before (d : α) (s : List α) : List α := s.takeWhile (· != d)

/-- What stands after the first `d` (nothing where there is none). -/
def after (d : α) (s : List α) : List α := (s.dropWhile (· != d)).drop 1

theorem bne_of_not_mem {d : α} {k : List α} (h : d ∉ k) : ∀ a ∈ k, (a != d) = true := by
  intro a ha
  simpa using fun he : a = d => h (he ▸ ha)

theorem before_append_cons {d : α} {k : List α} (h : d ∉ k) (v : List α) :
    before d (k ++ d :: v) = k := by
  rw [before, List.takeWhile_append_of_pos (bne_of_not_mem h)]
  simp

theorem after_append_cons {d : α} {k : List α} (h : d ∉ k) (v : List α) :
    after d (k ++ d :: v) = v := by
  rw [after, List.dropWhile_append_of_pos (bne_of_not_mem h)]
  simp

theorem before_of_not_mem {d : α} {s : List α} (h : d ∉ s) : before d s = s :=
  List.takeWhile_eq_self_iff.mpr (bne_of_not_mem h)

theorem after_of_not_mem {d : α} {s : List α} (h : d ∉ s) : after d s = [] := by
  rw [after, List.dropWhile_eq_nil_iff.mpr (bne_of_not_mem h), List.drop_nil]

/-- Where another list goes on with a `d`, or not at all. -/
theorem before_append {d : α} {k r : List α} (h : d ∉ k) (hr : ∀ x ∈ r.head?, x = d) :
    before d (k ++ r) = k := by
  cases r with
  | nil => rw [List.append_nil, before_of_not_mem h]
  | cons x r =>
      rw [hr x rfl]
      exact before_append_cons h r

theorem not_mem_before (d : α) (s : List α) : d ∉ before d s := by
  intro h
  simpa using List.mem_takeWhile_imp h

/-- A list with a `d` in it is its two sides around the first one. -/
theorem before_append_after {d : α} {s : List α} (h : d ∈ s) :
    before d s ++ d :: after d s = s := by
  induction s with
  | nil => simp at h
  | cons a s ih =>
      by_cases ha : a = d
      · simp [before, after, ha]
      · have hs : d ∈ s := by
          rcases List.mem_cons.mp h with h | h
          · exact absurd h.symm ha
          · exact h
        have htail := ih hs
        simp only [before, after] at htail ⊢
        rw [List.takeWhile_cons, List.dropWhile_cons, if_pos (by simpa using ha),
          if_pos (by simpa using ha), List.cons_append, htail]

end Cut

/-! ## §5. Short words in a list. -/

theorem pair_infix_cons {a b c : α} {l : List α} :
    [a, b] <:+: c :: l ↔ (c = a ∧ l.head? = some b) ∨ [a, b] <:+: l := by
  rw [List.infix_cons_iff]
  constructor
  · rintro (⟨t, ht⟩ | h)
    · left
      simp only [List.cons_append, List.nil_append, List.cons.injEq] at ht
      obtain ⟨rfl, rfl⟩ := ht
      simp
    · exact Or.inr h
  · rintro (⟨rfl, h⟩ | h)
    · left
      obtain ⟨t, rfl⟩ := List.head?_eq_some_iff.mp h
      exact ⟨t, rfl⟩
    · exact Or.inr h

theorem triple_infix_cons {a b c x : α} {l : List α} :
    [a, b, c] <:+: x :: l ↔ (x = a ∧ [b, c] <+: l) ∨ [a, b, c] <:+: l := by
  rw [List.infix_cons_iff]
  simp only [List.cons_prefix_cons]
  constructor
  · rintro (⟨rfl, h⟩ | h)
    · exact Or.inl ⟨rfl, h⟩
    · exact Or.inr h
  · rintro (⟨rfl, h⟩ | h)
    · exact Or.inl ⟨rfl, h⟩
    · exact Or.inr h

/-- A pair does not start in a list without its first element. -/
theorem pair_infix_of_append_left {a b : α} {s t : List α} (h : a ∉ s)
    (hpair : [a, b] <:+: s ++ t) : [a, b] <:+: t := by
  induction s with
  | nil => exact hpair
  | cons c s ih =>
      rw [List.mem_cons, not_or] at h
      rcases pair_infix_cons.mp hpair with hc | htail
      · exact absurd hc.1.symm h.1
      · exact ih h.2 htail

/-- A word that does not end in `d` gains no occurrence by a `d` at the end. -/
theorem infix_of_infix_concat {w l : List α} {c d : α} (hne : c ≠ d)
    (h : w ++ [c] <:+: l ++ [d]) : w ++ [c] <:+: l := by
  rcases List.infix_concat_iff.mp h with h | h
  · obtain ⟨t, ht⟩ := h
    rw [← List.append_assoc] at ht
    exact absurd (List.append_inj' ht rfl).2 (by simpa using hne)
  · exact h

/-- A pair does not end in a list without its second element. -/
theorem pair_infix_of_append_right {a b : α} {s t : List α} (h : b ∉ t)
    (hpair : [a, b] <:+: s ++ t) : [a, b] <:+: s := by
  induction t using List.reverseRecOn with
  | nil => rwa [List.append_nil] at hpair
  | append_singleton t c ih =>
      rw [List.mem_append, not_or, List.mem_singleton] at h
      rw [← List.append_assoc] at hpair
      exact ih h.1 (infix_of_infix_concat (w := [a]) h.2 hpair)

/-- A word that occurs has a first occurrence. -/
theorem exists_first_infix {w s : List α} (hne : w ≠ []) (h : w <:+: s) :
    ∃ u v, s = u ++ (w ++ v) ∧ ¬ w <:+: u := by
  induction hn : s.length using Nat.strongRecOn generalizing s with
  | ind n ih =>
      obtain ⟨u, v, huv⟩ := h
      by_cases hu : w <:+: u
      · have hlen : u.length < n := by
          have hpos := List.length_pos_iff.mpr hne
          rw [← hn, ← huv]
          simp only [List.length_append]
          omega
        obtain ⟨u', v', hcut, hfirst⟩ := ih u.length hlen hu rfl
        refine ⟨u', v' ++ (w ++ v), ?_, hfirst⟩
        rw [← huv, hcut]
        simp only [List.append_assoc]
      · exact ⟨u, v, by rw [← huv, List.append_assoc], hu⟩

end Text
