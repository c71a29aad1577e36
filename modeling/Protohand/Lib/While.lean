/-
  Protohand.Lib.While
  ───────────────────
  **LOOPS THAT MAY NOT END.**

  A `while` loop is the function of its one round: the state it goes on
  with, or what it comes to an end with.  `run` carries it out for a number
  of rounds; a loop ends if some number of them is enough.

    • `run_relation`      — what relates a state to what the loop ends with,
    • `ends_iff_of_again` — a round does not change whether the loop ends,
    • `Ends.induct`       — what holds where the loop ends holds before it.
-/
import Mathlib.Tactic.TypeStar

namespace While

variable {σ ρ : Type*} {round : σ → σ ⊕ ρ}

/-- At most so many rounds of the loop: what it ended with, if it did. -/
def run (round : σ → σ ⊕ ρ) : Nat → σ → Option ρ
  | 0, _ => none
  | n + 1, s =>
      match round s with
      | .inl t => run round n t
      | .inr r => some r

theorem run_again {s t : σ} (h : round s = .inl t) (n : Nat) :
    run round (n + 1) s = run round n t := by
  rw [run, h]

theorem run_exit {s : σ} {r : ρ} (h : round s = .inr r) (n : Nat) :
    run round (n + 1) s = some r := by
  rw [run, h]

/-- **The relation rule**: what relates a state to the outcome of the loop from
there, if it holds of the last round, and in front of a round. -/
theorem run_relation {R : σ → ρ → Prop} (hexit : ∀ s r, round s = .inr r → R s r)
    (hagain : ∀ s t r, round s = .inl t → R t r → R s r) {n : Nat} {s : σ} {r : ρ}
    (h : run round n s = some r) : R s r := by
  induction n generalizing s with
  | zero => cases h
  | succ n ih =>
      cases hs : round s with
      | inl t => exact hagain s t r hs (ih ((run_again hs n).symm.trans h))
      | inr r' =>
          obtain rfl := Option.some.inj ((run_exit hs n).symm.trans h)
          exact hexit s r' hs

/-- The loop ends. -/
def Ends (round : σ → σ ⊕ ρ) (s : σ) : Prop := ∃ n r, run round n s = some r

theorem ends_of_exit {s : σ} {r : ρ} (h : round s = .inr r) : Ends round s :=
  ⟨1, r, run_exit h 0⟩

theorem ends_iff_of_again {s t : σ} (h : round s = .inl t) : Ends round s ↔ Ends round t := by
  constructor
  · intro hs
    obtain ⟨n, r, hr⟩ := hs
    cases n with
    | zero => cases hr
    | succ n => exact ⟨n, r, (run_again h n).symm.trans hr⟩
  · intro ht
    obtain ⟨n, r, hr⟩ := ht
    exact ⟨n + 1, r, (run_again h n).trans hr⟩

/-- **Induction on a loop that ends**: from its last round back to the first. -/
theorem Ends.induct {P : σ → Prop} (hexit : ∀ s r, round s = .inr r → P s)
    (hagain : ∀ s t, round s = .inl t → P t → P s) {s : σ} (h : Ends round s) : P s := by
  obtain ⟨n, r, hr⟩ := h
  exact run_relation (R := fun s _ => P s) hexit (fun s t _ => hagain s t) hr

end While
