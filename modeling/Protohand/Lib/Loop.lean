/-
  Protohand.Lib.Loop
  ──────────────────
  **LOOPS WITH AN EARLY EXIT.**

  A `for` loop that may `return` from its middle is `List.foldlM` in
  `Except ε`: the state is what the loop carries, the error is what it
  returns early.  This file holds the rules such loops are reasoned with:

    • `foldlM_error`     — what every early exit satisfies,
    • `foldlM_relation`  — what relates a state to the outcome from there,
    • `foldlM_ok_append` — the run over a concatenation, in two halves,
    • `forall_reached_cons` — what every state of a run satisfies, one step on,
    • `foldlM_lockstep`  — two loops whose steps end alike,
    • `outputs`/`final`  — a transducer: the part of a loop that only reads,
    • `foldlM_factor`    — a loop whose step reads and then acts is the
      acting loop run over the transducer's output.
-/
import Mathlib.Data.List.Basic

namespace Loop

/-! ## §1. Running a loop. -/

section Run

variable {α σ ε : Type*}

/-- A run over a concatenation that ends normally passes a state in the middle. -/
theorem foldlM_ok_append {step : σ → α → Except ε σ} {as bs : List α} {s s' : σ} :
    (as ++ bs).foldlM step s = .ok s'
      ↔ ∃ t, as.foldlM step s = .ok t ∧ bs.foldlM step t = .ok s' := by
  rw [List.foldlM_append]
  cases h : as.foldlM step s with
  | error e => simp [bind, Except.bind]
  | ok t => simp [bind, Except.bind]

/-- What every early exit of a step satisfies, the early exit of a run does. -/
theorem foldlM_error (Q : ε → Prop) (step : σ → α → Except ε σ) :
    ∀ (as : List α) (s : σ) {e : ε},
      (∀ a ∈ as, ∀ s e, step s a = .error e → Q e) → as.foldlM step s = .error e → Q e
  | [], s, e, _, h => by cases h
  | a :: as, s, e, hstep, h => by
      rw [List.foldlM_cons] at h
      cases ha : step s a with
      | error e' =>
          rw [ha] at h
          injection h with h
          exact h ▸ hstep a List.mem_cons_self s e' ha
      | ok t =>
          rw [ha] at h
          exact foldlM_error Q step as t (fun b hb => hstep b (List.mem_cons_of_mem _ hb)) h

/-- **The relation rule**: what relates a state to the outcome of the loop from
there, if it holds of the empty loop, of an early exit, and in front of a step. -/
theorem foldlM_relation (R : σ → Except ε σ → Prop) (step : σ → α → Except ε σ)
    (hnil : ∀ s, R s (.ok s)) (hexit : ∀ s a e, step s a = .error e → R s (.error e))
    (hstep : ∀ s a t r, step s a = .ok t → R t r → R s r) :
    ∀ (as : List α) (s : σ), R s (as.foldlM step s)
  | [], s => hnil s
  | a :: as, s => by
      rw [List.foldlM_cons]
      cases ha : step s a with
      | error e => exact hexit s a e ha
      | ok t => exact hstep s a t _ ha (foldlM_relation R step hnil hexit hstep as t)

/-- **The success rule**: where a step from a state with `I` goes through exactly
for the elements with `P`, and keeps `I`, a run goes through exactly if all of
its elements have `P`, and keeps `I`. -/
theorem foldlM_ok_iff (I : σ → Prop) (P : α → Prop) {step : σ → α → Except ε σ} :
    ∀ (as : List α), (∀ a ∈ as, ∀ s, I s → P a → ∃ t, step s a = .ok t ∧ I t) →
      (∀ a ∈ as, ∀ s, I s → ¬ P a → ∃ e, step s a = .error e) → ∀ {s : σ}, I s →
      ((∃ t, as.foldlM step s = .ok t) ↔ ∀ a ∈ as, P a)
        ∧ ∀ t, as.foldlM step s = .ok t → I t
  | [], _, _, s, hs => by
      refine ⟨iff_of_true ⟨s, rfl⟩ (by simp), ?_⟩
      intro t ht
      injection ht with ht
      exact ht ▸ hs
  | a :: as, hgo, hstop, s, hs => by
      rw [List.foldlM_cons, List.forall_mem_cons]
      by_cases ha : P a
      · obtain ⟨t, ht, hI⟩ := hgo a List.mem_cons_self s hs ha
        rw [ht, and_iff_right ha]
        exact foldlM_ok_iff I P as (fun b hb => hgo b (List.mem_cons_of_mem _ hb))
          (fun b hb => hstop b (List.mem_cons_of_mem _ hb)) hI
      · obtain ⟨e, he⟩ := hstop a List.mem_cons_self s hs ha
        rw [he]
        refine ⟨iff_of_false ?_ (fun h => ha h.1), ?_⟩
        · intro h
          obtain ⟨t, ht⟩ := h
          cases ht
        · intro t ht
          cases ht

/-- The state after one more round. -/
theorem foldlM_take_succ {step : σ → α → Except ε σ} {as : List α} {n : Nat} {a : α}
    (ha : as[n]? = some a) {s t : σ} :
    (as.take (n + 1)).foldlM step s = .ok t
      ↔ ∃ u, (as.take n).foldlM step s = .ok u ∧ step u a = .ok t := by
  rw [List.take_add_one, ha, Option.toList_some, foldlM_ok_append]
  constructor
  · intro h
    obtain ⟨u, hu, hstep⟩ := h
    rw [List.foldlM_cons] at hstep
    cases hut : step u a with
    | error e => rw [hut] at hstep; cases hstep
    | ok v =>
        rw [hut] at hstep
        obtain rfl : v = t := by injection hstep
        exact ⟨u, hu, hut⟩
  · intro h
    obtain ⟨u, hu, hstep⟩ := h
    refine ⟨u, hu, ?_⟩
    rw [List.foldlM_cons, hstep]
    rfl

/-- **The invariant rule, one step on**: every state of a run has `I` exactly if the
first one does, and every state of the run from the second one does. -/
theorem forall_reached_cons (I : σ → Prop) (step : σ → α → Except ε σ) (a : α) (as : List α)
    (s : σ) :
    (∀ n t, ((a :: as).take n).foldlM step s = .ok t → I t)
      ↔ I s ∧ ∀ u, step s a = .ok u → ∀ n t, (as.take n).foldlM step u = .ok t → I t := by
  constructor
  · intro h
    refine ⟨h 0 s rfl, ?_⟩
    intro u hu n t ht
    apply h (n + 1) t
    rw [List.take_succ_cons, List.foldlM_cons, hu]
    exact ht
  · intro h n t ht
    cases n with
    | zero =>
        obtain rfl : s = t := by injection ht
        exact h.1
    | succ n =>
        rw [List.take_succ_cons, List.foldlM_cons] at ht
        cases hu : step s a with
        | error e => rw [hu] at ht; cases ht
        | ok u =>
            rw [hu] at ht
            exact h.2 u hu n t ht

end Run

/-! ## §2. Two runs. -/

section Lockstep

variable {α β σ τ ε δ : Type*}

/-- Two outcomes end alike, in related states or with related exits. -/
def Alike (R : σ → τ → Prop) (Q : ε → δ → Prop) : Except ε σ → Except δ τ → Prop
  | .ok s, .ok t => R s t
  | .error e, .error d => Q e d
  | _, _ => False

/-- **The lockstep rule**: two loops over related lists whose steps end alike
end alike. -/
theorem foldlM_lockstep (P : α → β → Prop) (R : σ → τ → Prop) (Q : ε → δ → Prop)
    {step : σ → α → Except ε σ} {step' : τ → β → Except δ τ}
    (hstep : ∀ s t a b, R s t → P a b → Alike R Q (step s a) (step' t b))
    {as : List α} {bs : List β} (h : List.Forall₂ P as bs) {s : σ} {t : τ} (hst : R s t) :
    Alike R Q (as.foldlM step s) (bs.foldlM step' t) := by
  induction h generalizing s t with
  | nil => exact hst
  | @cons a b as bs hab _ ih =>
      have hone := hstep s t a b hst hab
      rw [List.foldlM_cons, List.foldlM_cons]
      cases ha : step s a with
      | error e =>
          cases hb : step' t b with
          | error d => rw [ha, hb] at hone; exact hone
          | ok t' => rw [ha, hb] at hone; exact hone.elim
      | ok s' =>
          cases hb : step' t b with
          | error d => rw [ha, hb] at hone; exact hone.elim
          | ok t' => rw [ha, hb] at hone; exact ih hone

end Lockstep

/-! ## §3. Transducers. -/

section Transducer

variable {α β σ τ ω ε : Type*}

/-- Everything a transducer writes while it reads `as`. -/
def outputs (next : σ → α → σ × List β) : σ → List α → List β
  | _, [] => []
  | s, a :: as => (next s a).2 ++ outputs next (next s a).1 as

/-- The state a transducer is left in. -/
def final (next : σ → α → σ × List β) : σ → List α → σ
  | s, [] => s
  | s, a :: as => final next (next s a).1 as

@[simp] theorem outputs_nil (next : σ → α → σ × List β) (s : σ) :
    outputs next s [] = [] := rfl

@[simp] theorem final_nil (next : σ → α → σ × List β) (s : σ) :
    final next s [] = s := rfl

theorem outputs_cons (next : σ → α → σ × List β) (s : σ) (a : α) (as : List α) :
    outputs next s (a :: as) = (next s a).2 ++ outputs next (next s a).1 as := rfl

theorem final_cons (next : σ → α → σ × List β) (s : σ) (a : α) (as : List α) :
    final next s (a :: as) = final next (next s a).1 as := rfl

theorem outputs_append (next : σ → α → σ × List β) :
    ∀ (as bs : List α) (s : σ),
      outputs next s (as ++ bs) = outputs next s as ++ outputs next (final next s as) bs
  | [], _, _ => rfl
  | a :: as, bs, s => by
      rw [List.cons_append, outputs_cons, outputs_cons, final_cons, outputs_append next as bs,
        List.append_assoc]

theorem final_append (next : σ → α → σ × List β) :
    ∀ (as bs : List α) (s : σ),
      final next s (as ++ bs) = final next (final next s as) bs
  | [], _, _ => rfl
  | a :: as, bs, s => by
      rw [List.cons_append, final_cons, final_cons, final_append next as bs]

/-- **FACTORING A LOOP**: where one step of the loop `both` reads its element
with the transducer `next` and then acts with `act` on what that wrote, the
whole loop is `act` run over everything the transducer writes. -/
theorem foldlM_factor (next : σ → α → σ × List β) (act : τ → β → Except ε τ)
    (both : ω → α → Except ε ω) (view : ω → σ) (rest : ω → τ)
    (h : ∀ w a, (both w a).map (fun w' => (view w', rest w'))
      = ((next (view w) a).2.foldlM act (rest w)).map (fun t => ((next (view w) a).1, t))) :
    ∀ (as : List α) (w : ω),
      (as.foldlM both w).map (fun w' => (view w', rest w'))
        = ((outputs next (view w) as).foldlM act (rest w)).map
            (fun t => (final next (view w) as, t))
  | [], w => rfl
  | a :: as, w => by
      have ha := h w a
      rw [List.foldlM_cons, outputs_cons, final_cons, List.foldlM_append]
      -- one step either stops both sides, or leaves both in matching states
      cases hb : both w a with
      | error e =>
          rw [hb] at ha
          cases hr : (next (view w) a).2.foldlM act (rest w) with
          | error e' =>
              rw [hr] at ha
              simp only [Except.map, Except.error.injEq] at ha
              subst ha
              rfl
          | ok t => rw [hr] at ha; simp [Except.map] at ha
      | ok w' =>
          rw [hb] at ha
          cases hr : (next (view w) a).2.foldlM act (rest w) with
          | error e' => rw [hr] at ha; simp [Except.map] at ha
          | ok t =>
              rw [hr] at ha
              simp only [Except.map, Except.ok.injEq, Prod.mk.injEq] at ha
              obtain ⟨hview, hrest⟩ := ha
              have ih := foldlM_factor next act both view rest h as w'
              rw [hview, hrest] at ih
              exact ih

end Transducer

end Loop
