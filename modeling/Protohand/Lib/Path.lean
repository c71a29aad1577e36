/-
  Protohand.Lib.Path
  ──────────────────
  **PATHS, COMPONENT BY COMPONENT.**  A component is entered, is skipped, or goes
  up to where the one before it was entered from.

    • `mem_resolve` — what is left is entered, one by one.
-/
import Mathlib.Data.List.Induction

namespace Path

variable {α : Type*} [DecidableEq α] (skip : α → Bool) (up : α)

/-- The component is entered. -/
def Entered (c : α) : Prop := skip c = false ∧ c ≠ up

instance (c : α) : Decidable (Entered skip up c) := inferInstanceAs (Decidable (_ ∧ _))

/-- One component, behind those that were entered before. -/
def step (dirs : List α) (c : α) : List α :=
  if skip c = true then dirs else if c = up then dirs.dropLast else dirs ++ [c]

/-- The components that are left. -/
def resolve (cs : List α) : List α := cs.foldl (step skip up) []

variable {skip up}

theorem step_of_entered {c : α} (h : Entered skip up c) (dirs : List α) :
    step skip up dirs c = dirs ++ [c] := by
  unfold step
  rw [if_neg (by simp [h.1]), if_neg h.2]

theorem resolve_concat (cs : List α) (c : α) :
    resolve skip up (cs ++ [c]) = step skip up (resolve skip up cs) c := by
  unfold resolve
  rw [List.foldl_append]
  rfl

theorem resolve_concat_skipped {c : α} (h : skip c = true) (cs : List α) :
    resolve skip up (cs ++ [c]) = resolve skip up cs := by
  rw [resolve_concat]
  exact if_pos h

/-- **One component** keeps what is entered. -/
theorem mem_step {dirs : List α} (h : ∀ d ∈ dirs, Entered skip up d) (c : α) :
    ∀ d ∈ step skip up dirs c, Entered skip up d := by
  unfold step
  intro d hd
  split at hd
  · exact h d hd
  · next hskip =>
      split at hd
      · exact h d (List.dropLast_subset _ hd)
      · next hup =>
          rcases List.mem_append.mp hd with hd | hd
          · exact h d hd
          · rw [List.mem_singleton.mp hd]
            exact ⟨by simpa using hskip, hup⟩

/-- **WHAT IS LEFT IS ENTERED.** -/
theorem mem_resolve (cs : List α) : ∀ d ∈ resolve skip up cs, Entered skip up d := by
  induction cs using List.reverseRecOn with
  | nil => exact fun d hd => absurd hd List.not_mem_nil
  | append_singleton cs c ih =>
      rw [resolve_concat]
      exact mem_step ih c

end Path
