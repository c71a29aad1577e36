/-
  Protohand.Lib.History
  ─────────────────────
  **WHAT A MACHINE SHOWS** while it takes step after step: at every step it
  goes on to the next state, and may leave an observation.

    • `mem_history`       — what holds of every observation,
    • `pairwise_gone`     — the order rule: what an observation rules out for good,
                            no later one shows,
    • `history_simulates` — two machines in lockstep show the same.

  The rules are about the runs all whose observations are `Ok`.
-/
import Mathlib.Data.List.Basic

namespace History

variable {σ ι ω : Type*}

section Machine

variable (step : σ → ι → Option ω × σ)

/-- The observations, in order. -/
def history : σ → List ι → List ω
  | _, [] => []
  | s, i :: is => (step s i).1.toList ++ history (step s i).2 is

end Machine

variable {step : σ → ι → Option ω × σ}

section Rules

variable (I : σ → Prop) (Ok : ω → Prop) {is : List ι}

/-- **The observation rule**, under an invariant that a step keeps if what it
shows is `Ok`. -/
theorem mem_history (P : ω → Prop)
    (hkeep : ∀ i ∈ is, ∀ s, I s → (∀ x ∈ (step s i).1, Ok x) → I (step s i).2)
    (hshow : ∀ i ∈ is, ∀ s, I s → ∀ x ∈ (step s i).1, Ok x → P x) {s : σ} (hs : I s)
    (hok : ∀ x ∈ history step s is, Ok x) : ∀ x ∈ history step s is, P x := by
  induction is generalizing s with
  | nil =>
      intro x hx
      cases hx
  | cons i is ih =>
      have hfirst : ∀ x ∈ (step s i).1, Ok x := fun x hx =>
        hok x (List.mem_append_left _ (Option.mem_toList.mpr hx))
      intro x hx
      rcases List.mem_append.mp hx with hnow | hlater
      · have hx := Option.mem_toList.mp hnow
        exact hshow i List.mem_cons_self s hs x hx (hfirst x hx)
      -- the step keeps the invariant, as what it shows is `Ok`
      · have hnext : I (step s i).2 := hkeep i List.mem_cons_self s hs hfirst
        exact ih (fun j hj => hkeep j (List.mem_cons_of_mem i hj))
          (fun j hj => hshow j (List.mem_cons_of_mem i hj)) hnext
          (fun y hy => hok y (List.mem_append_right _ hy)) x hlater

/-- **The order rule**: behind an observation with `P` the machine is in `I` for
good, and there no observation has `Q`. -/
theorem pairwise_gone (P Q : ω → Prop)
    (hkeep : ∀ i ∈ is, ∀ s, I s → (∀ x ∈ (step s i).1, Ok x) → I (step s i).2)
    (hgone : ∀ i ∈ is, ∀ s, ∀ x ∈ (step s i).1, Ok x → P x → I (step s i).2)
    (hshow : ∀ i ∈ is, ∀ s, I s → ∀ x ∈ (step s i).1, Ok x → ¬ Q x) {s : σ}
    (hok : ∀ x ∈ history step s is, Ok x) :
    (history step s is).Pairwise fun x y => P x → ¬ Q y := by
  induction is generalizing s with
  | nil => exact List.Pairwise.nil
  | cons i is ih =>
      have hrestok : ∀ x ∈ history step (step s i).2 is, Ok x := fun x hx =>
        hok x (List.mem_append_right _ hx)
      have hrest := ih (fun j hj => hkeep j (List.mem_cons_of_mem i hj))
        (fun j hj => hgone j (List.mem_cons_of_mem i hj))
        (fun j hj => hshow j (List.mem_cons_of_mem i hj)) hrestok
      rw [history] at hok ⊢
      cases hx : (step s i).1 with
      | none => exact hrest
      | some x =>
          refine List.pairwise_cons.mpr ⟨?_, hrest⟩
          intro y hy hp
          have hxok : Ok x := hok x (by rw [hx]; exact List.mem_cons_self)
          -- from here on nothing with `Q` is shown
          have hin : I (step s i).2 := hgone i List.mem_cons_self s x hx hxok hp
          exact mem_history I Ok (fun y => ¬ Q y)
            (fun j hj => hkeep j (List.mem_cons_of_mem i hj))
            (fun j hj => hshow j (List.mem_cons_of_mem i hj)) hin hrestok y hy

end Rules

/-- **The simulation rule**: related states stay related and show related
observations, as long as those of the first machine are `Ok`. -/
theorem history_simulates {σ' ω' : Type*} {step' : σ' → ι → Option ω' × σ'} (R : σ → σ' → Prop)
    (Q : ω → ω' → Prop) (Ok : ω → Prop) {is : List ι}
    (hstep : ∀ i ∈ is, ∀ s t, R s t → (∀ x ∈ (step s i).1, Ok x) →
      R (step s i).2 (step' t i).2 ∧ Option.Rel Q (step s i).1 (step' t i).1)
    {s : σ} {t : σ'} (h : R s t) (hok : ∀ x ∈ history step s is, Ok x) :
    List.Forall₂ Q (history step s is) (history step' t is) := by
  induction is generalizing s t with
  | nil => exact List.Forall₂.nil
  | cons i is ih =>
      have hfirst : ∀ x ∈ (step s i).1, Ok x := fun x hx =>
        hok x (List.mem_append_left _ (Option.mem_toList.mpr hx))
      obtain ⟨hnext, hshown⟩ := hstep i List.mem_cons_self s t h hfirst
      have hrest := ih (fun j hj => hstep j (List.mem_cons_of_mem i hj)) hnext
        fun x hx => hok x (List.mem_append_right _ hx)
      rw [history, history]
      revert hshown
      generalize (step s i).1 = x
      generalize (step' t i).1 = y
      intro hshown
      cases hshown with
      | some hq => exact List.Forall₂.cons hq hrest
      | none => exact hrest

end History
