/-
  Protohand.Lib.Parts
  ───────────────────
  **THE PARTS OF A LIST AT A SEPARATOR.**

    • `mem_splitOn`         — they stand in the list, and are free of it,
    • `splitOn_append_free` — what has none goes into the first part,
    • `splitOn_flatMap`     — parts with the separator behind each.
-/
import Mathlib.Data.List.Basic
import Mathlib.Data.List.Infix

namespace Text

variable {α : Type*} [BEq α] [LawfulBEq α]

/-- **The parts of a text at a separator** stand in it, and are free of it. -/
theorem mem_splitOn {d : α} (s : List α) :
    (∀ part ∈ s.splitOn d, part <:+: s ∧ d ∉ part)
      ∧ ∀ part parts, s.splitOn d = part :: parts → part <+: s := by
  induction s with
  | nil => simp
  | cons c s ih =>
      obtain ⟨hmem, hhead⟩ := ih
      rw [List.splitOn_cons_eq_if_modifyHead]
      by_cases hc : c = d
      · rw [if_pos (by simpa using hc)]
        refine ⟨?_, ?_⟩
        · intro part hpart
          rcases List.mem_cons.mp hpart with rfl | hpart
          · exact ⟨List.nil_infix, List.not_mem_nil⟩
          · exact ⟨(hmem part hpart).1.trans (List.suffix_cons c s).isInfix, (hmem part hpart).2⟩
        · intro part parts hparts
          injection hparts with hpart
          rw [← hpart]
          exact List.nil_prefix
      · rw [if_neg (by simpa using hc)]
        obtain ⟨first, rest, hfirst⟩ := List.exists_cons_of_ne_nil (List.splitOn_ne_nil d s)
        rw [hfirst] at hmem ⊢
        have hprefix := hhead first rest hfirst
        have hstep : c :: first <+: c :: s := List.cons_prefix_cons.mpr ⟨rfl, hprefix⟩
        refine ⟨?_, ?_⟩
        · intro part hpart
          rcases List.mem_cons.mp hpart with rfl | hpart
          · refine ⟨hstep.isInfix, ?_⟩
            rw [List.mem_cons, not_or]
            exact ⟨fun h => hc h.symm, (hmem first List.mem_cons_self).2⟩
          · have hin := hmem part (List.mem_cons_of_mem _ hpart)
            exact ⟨hin.1.trans (List.suffix_cons c s).isInfix, hin.2⟩
        · intro part parts hparts
          injection hparts with hpart
          rw [← hpart]
          exact hstep

/-- A list in front, without the separator. -/
theorem splitOn_append_free {d : α} {k : List α} (h : d ∉ k) (s : List α) :
    (k ++ s).splitOn d = (s.splitOn d).modifyHead (k ++ ·) := by
  induction k with
  | nil =>
      obtain ⟨part, parts, hparts⟩ := List.exists_cons_of_ne_nil (List.splitOn_ne_nil d s)
      show s.splitOn d = _
      rw [hparts]
      rfl
  | cons c k ih =>
      rw [List.mem_cons, not_or] at h
      rw [List.cons_append, List.splitOn_cons_eq_if_modifyHead,
        if_neg (by simpa using Ne.symm h.1), ih h.2]
      obtain ⟨part, parts, hparts⟩ := List.exists_cons_of_ne_nil (List.splitOn_ne_nil d s)
      rw [hparts]
      rfl

/-- Parts with the separator behind each of them. -/
theorem splitOn_flatMap {d : α} {parts : List (List α)} (h : ∀ part ∈ parts, d ∉ part)
    (s : List α) : (parts.flatMap (· ++ [d]) ++ s).splitOn d = parts ++ s.splitOn d := by
  induction parts with
  | nil => rfl
  | cons part parts ih =>
      rw [List.flatMap_cons, List.append_assoc, List.append_assoc, List.singleton_append,
        List.splitOn_append_cons_self_of_not_mem (h part List.mem_cons_self),
        ih fun p hp => h p (List.mem_cons_of_mem _ hp)]
      rfl

end Text
