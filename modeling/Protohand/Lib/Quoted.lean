/-
  Protohand.Lib.Quoted
  ────────────────────
  **SPLITTING OUTSIDE OF QUOTES.**

  A quote toggles between inside and outside and is dropped; a separator
  outside of quotes starts a new piece.  Over any element type:

    • `pieces_append` — splitting a concatenation glues the pieces of its
      parts, the second part split from where the first one leaves the quotes,
    • `length_pieces` — one piece more than separators that count,
    • `pieces_tail_eq_iff` — what stands behind the first separator tells
      inside from outside.
-/
import Mathlib.Data.List.Basic
import Mathlib.Algebra.GroupWithZero.Nat

namespace Quoted

variable {α : Type*}

/-! ## §1. Gluing. -/

/-- Two lists of pieces, the last one of the first and the first one of the
second joined. -/
def glue : List (List α) → List (List α) → List (List α)
  | [], rs => rs
  | [p], rs => rs.modifyHead (p ++ ·)
  | p :: p' :: ps, rs => p :: glue (p' :: ps) rs

theorem glue_cons (p : List α) {ps : List (List α)} (hps : ps ≠ []) (rs : List (List α)) :
    glue (p :: ps) rs = p :: glue ps rs := by
  cases ps with
  | nil => exact absurd rfl hps
  | cons p' ps => rfl

theorem glue_nil (rs : List (List α)) : glue [[]] rs = rs := by
  cases rs <;> rfl

/-- What is put in front of the pieces stays in front of the glued ones. -/
theorem glue_modifyHead (c : α) (ps rs : List (List α)) (hps : ps ≠ []) :
    glue (ps.modifyHead (c :: ·)) rs = (glue ps rs).modifyHead (c :: ·) := by
  cases ps with
  | nil => exact absurd rfl hps
  | cons p ps =>
      cases ps with
      | nil => cases rs <;> rfl
      | cons p' ps => rfl

theorem glue_concat (ps : List (List α)) (p : List α) (rs : List (List α)) :
    glue (ps ++ [p]) rs = ps ++ rs.modifyHead (p ++ ·) := by
  induction ps with
  | nil => rfl
  | cons p' ps ih => rw [List.cons_append, glue_cons p' (by simp), ih, List.cons_append]

theorem length_glue {ps : List (List α)} (hps : ps ≠ []) (rs : List (List α)) :
    (glue ps rs).length + 1 = ps.length + rs.length := by
  obtain ⟨front, p, rfl⟩ := (List.eq_nil_or_concat' ps).resolve_left hps
  rw [glue_concat]
  simp only [List.length_append, List.length_modifyHead, List.length_singleton]
  omega

/-- All pieces in front of the joined one. -/
theorem take_glue {ps : List (List α)} (hps : ps ≠ []) (rs : List (List α)) :
    (glue ps rs).take (ps.length - 1) = ps.take (ps.length - 1) := by
  obtain ⟨front, p, rfl⟩ := (List.eq_nil_or_concat' ps).resolve_left hps
  rw [glue_concat, List.length_append, List.length_singleton, Nat.add_sub_cancel, List.take_left,
    List.take_left]

/-- The pieces behind the joined one, and further ones. -/
theorem drop_glue {ps : List (List α)} (hps : ps ≠ []) (rs : List (List α)) (n : Nat) :
    (glue ps rs).drop (ps.length + n) = rs.drop (n + 1) := by
  obtain ⟨front, p, rfl⟩ := (List.eq_nil_or_concat' ps).resolve_left hps
  have hlen : (front ++ [p]).length + n = front.length + (n + 1) := by
    simp only [List.length_append, List.length_singleton]
    omega
  rw [glue_concat, hlen, ← List.drop_drop, List.drop_left]
  cases rs <;> rfl

/-- **Around the pieces in the middle**: how many pieces there are, those in
front of the middle ones, and those behind them. -/
theorem glue_around {ps ms rs : List (List α)} {n k : Nat} (hps : ps.length = n + 1)
    (hms : ms.length = k + 1) (hrs : rs ≠ []) :
    (glue ps (glue ms rs)).length = n + k + 1 + (rs.drop 1).length
      ∧ (glue ps (glue ms rs)).take n = ps.take n
      ∧ (glue ps (glue ms rs)).drop (n + k + 1) = rs.drop 1 := by
  have hp : ps ≠ [] := List.ne_nil_of_length_pos (by omega)
  have hm : ms ≠ [] := List.ne_nil_of_length_pos (by omega)
  have hr := List.length_pos_of_ne_nil hrs
  have hlen := length_glue hp (glue ms rs)
  have hlen' := length_glue hm rs
  refine ⟨?_, ?_, ?_⟩
  · rw [List.length_drop]
    omega
  · have htake := take_glue hp (glue ms rs)
    rwa [hps, Nat.add_sub_cancel] at htake
  · have hdrop := drop_glue hp (glue ms rs) k
    have hdrop' := drop_glue hm rs 0
    rw [hms, Nat.add_zero, Nat.zero_add] at hdrop'
    rw [hps] at hdrop
    rw [show n + k + 1 = n + 1 + k by omega, hdrop, hdrop']

/-! ## §2. Pieces. -/

section Pieces

variable [DecidableEq α] (q b : α)

/-- The pieces between separators `b` outside of quotes `q`, without the
quotes; `o` says whether a quote is open at the start. -/
def pieces : Bool → List α → List (List α)
  | _, [] => [[]]
  | o, c :: s =>
      if c = q then pieces (!o) s
      else if c = b ∧ o = false then [] :: pieces false s
      else (pieces o s).modifyHead (c :: ·)

/-- Whether a quote is open behind a text. -/
def isOpenAfter : Bool → List α → Bool
  | o, [] => o
  | o, c :: s => if c = q then isOpenAfter (!o) s else isOpenAfter o s

/-- The separators outside of quotes. -/
def outside : Bool → List α → Nat
  | _, [] => 0
  | o, c :: s =>
      if c = q then outside (!o) s
      else if c = b ∧ o = false then outside false s + 1
      else outside o s

theorem length_pieces (o : Bool) (s : List α) : (pieces q b o s).length = outside q b o s + 1 := by
  induction s generalizing o with
  | nil => rfl
  | cons c s ih =>
      rw [pieces, outside]
      split
      · exact ih (!o)
      · split
        · rw [List.length_cons, ih]
        · rw [List.length_modifyHead, ih]

theorem pieces_ne_nil (o : Bool) (s : List α) : pieces q b o s ≠ [] := by
  apply List.ne_nil_of_length_pos
  rw [length_pieces]
  omega

/-- **Splitting a concatenation.** -/
theorem pieces_append (o : Bool) (s t : List α) :
    pieces q b o (s ++ t) = glue (pieces q b o s) (pieces q b (isOpenAfter q o s) t) := by
  induction s generalizing o with
  | nil => exact (glue_nil _).symm
  | cons c s ih =>
      rw [List.cons_append, pieces, pieces, isOpenAfter]
      by_cases hq : c = q
      · rw [if_pos hq, if_pos hq, if_pos hq]
        exact ih (!o)
      · rw [if_neg hq, if_neg hq, if_neg hq]
        by_cases hb : c = b ∧ o = false
        · rw [if_pos hb, if_pos hb, glue_cons _ (pieces_ne_nil q b _ _), ih, hb.2]
        · rw [if_neg hb, if_neg hb, glue_modifyHead _ _ _ (pieces_ne_nil q b _ _), ih]

/-- Every element that is no quote is in a piece, or between two. -/
theorem sum_pieces (o : Bool) (s : List α) :
    ((pieces q b o s).map (fun p => p.length + 1)).sum = (s.filter (· ≠ q)).length + 1 := by
  induction s generalizing o with
  | nil => rfl
  | cons c s ih =>
      rw [pieces]
      by_cases hq : c = q
      · have hdrop : (c :: s).filter (· ≠ q) = s.filter (· ≠ q) := by simp [hq]
        rw [if_pos hq, ih, hdrop]
      · have hkeep : (c :: s).filter (· ≠ q) = c :: s.filter (· ≠ q) := by simp [hq]
        rw [if_neg hq, hkeep, List.length_cons]
        by_cases hb : c = b ∧ o = false
        · rw [if_pos hb, List.map_cons, List.sum_cons, ih]
          simp only [List.length_nil]
          omega
        · rw [if_neg hb, ← ih o]
          cases hps : pieces q b o s with
          | nil => exact absurd hps (pieces_ne_nil q b o s)
          | cons p ps =>
              simp only [List.modifyHead_cons, List.map_cons, List.sum_cons, List.length_cons]
              omega

/-- A separator is seen from outside of quotes only. -/
theorem pieces_tail_ne {s : List α} (hqb : q ≠ b) (hb : b ∈ s) :
    (pieces q b false s).drop 1 ≠ (pieces q b true s).drop 1 := by
  induction s with
  | nil => simp at hb
  | cons c s ih =>
      rw [pieces, pieces]
      by_cases hq : c = q
      · have hmem : b ∈ s := (List.mem_cons.mp hb).resolve_left (fun h => hqb (hq ▸ h.symm))
        rw [if_pos hq, if_pos hq]
        exact Ne.symm (ih hmem)
      · rw [if_neg hq, if_neg hq]
        by_cases hsep : c = b
        · -- all of `s` against what is left of it behind one more piece
          rw [if_pos ⟨hsep, rfl⟩, if_neg (by simp)]
          intro heq
          have hall := sum_pieces q b false s
          have hrest := sum_pieces q b true s
          cases hps : pieces q b true s with
          | nil => exact absurd hps (pieces_ne_nil q b true s)
          | cons p ps =>
              rw [hps] at heq hrest
              simp only [List.modifyHead_cons, List.drop_one, List.tail_cons] at heq
              rw [heq] at hall
              simp only [List.map_cons, List.sum_cons] at hrest
              omega
        · have hmem : b ∈ s := (List.mem_cons.mp hb).resolve_left (fun h => hsep h.symm)
          rw [if_neg (fun h => hsep h.1), if_neg (fun h => hsep h.1)]
          cases hfalse : pieces q b false s with
          | nil => exact absurd hfalse (pieces_ne_nil q b false s)
          | cons p ps =>
              cases htrue : pieces q b true s with
              | nil => exact absurd htrue (pieces_ne_nil q b true s)
              | cons p' ps' =>
                  have hih := ih hmem
                  rw [hfalse, htrue] at hih
                  exact hih

/-- Without a separator there is one piece. -/
theorem pieces_tail_nil {s : List α} (hb : b ∉ s) (o : Bool) : (pieces q b o s).drop 1 = [] := by
  have hcount : outside q b o s = 0 := by
    induction s generalizing o with
    | nil => rfl
    | cons c s ih =>
        simp only [List.mem_cons, not_or] at hb
        rw [outside]
        split
        · exact ih hb.2 (!o)
        · rw [if_neg (fun h => hb.1 h.1.symm)]
          exact ih hb.2 o
  apply List.drop_eq_nil_of_le
  have hlength := length_pieces (q := q) (b := b) o s
  omega

/-- **Where the quotes stand is told apart** by what follows the first
separator. -/
theorem pieces_tail_eq_iff (hqb : q ≠ b) (o o' : Bool) (s : List α) :
    (pieces q b o s).drop 1 = (pieces q b o' s).drop 1 ↔ o = o' ∨ b ∉ s := by
  by_cases hb : b ∈ s
  · have hne := pieces_tail_ne q b hqb hb
    rw [or_iff_left (not_not_intro hb)]
    cases o with
    | false =>
        cases o' with
        | false => exact ⟨fun _ => rfl, fun _ => rfl⟩
        | true => exact ⟨fun h => absurd h hne, fun h => absurd h (by simp)⟩
    | true =>
        cases o' with
        | false => exact ⟨fun h => absurd h.symm hne, fun h => absurd h (by simp)⟩
        | true => exact ⟨fun _ => rfl, fun _ => rfl⟩
  · rw [pieces_tail_nil q b hb, pieces_tail_nil q b hb]
    exact ⟨fun _ => Or.inr hb, fun _ => rfl⟩

end Pieces

end Quoted
