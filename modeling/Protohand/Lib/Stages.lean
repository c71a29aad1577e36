/-
  Protohand.Lib.Stages
  ────────────────────
  **PROGRAMS THAT RUN IN STAGES**, each of which writes something and either
  leaves a state for the next one or exits.

    • `Entered`           — the stages a run comes to, with the state it comes
      to them in,
    • `run_writes_iff`    — what holds of everything that is written,
    • `run_writes_bounds` — the same, against a condition on each stage,
    • `run_exit`, `run_keeps`, `entered_keeps` — what holds of the exit of a run,
      of its end, and of the states it comes to,
    • `entered_append`, `entered_at` — the stages of a run in two parts,
    • `run_append_ok`, `run_append_error` — a run in two parts,
    • `run_lockstep`      — two runs whose stages agree,
    • `run_cons_lockstep`, `run_append_lockstep` — the same, where what is behind
      depends on how far the first run has come,
    • `guard`, `run_guard_cases`, `guard_lockstep`, `checked_forward` — stages that
      are checked before they are done.
-/
import Mathlib.Data.List.Basic

namespace Stages

/-! ## §1. Runs. -/

variable {κ σ ω ε : Type*} (exec : κ → σ → List ω × Except ε σ)

/-- The stages of a list, one after the other, until one of them exits. -/
def run : List κ → σ → List ω × Except ε σ
  | [], s => ([], .ok s)
  | k :: ks, s =>
      match (exec k s).2 with
      | .error e => ((exec k s).1, .error e)
      | .ok t => ((exec k s).1 ++ (run ks t).1, (run ks t).2)

/-- The run comes to the stage in the state. -/
inductive Entered : List κ → σ → κ → σ → Prop
  | here (k : κ) (ks : List κ) (s : σ) : Entered (k :: ks) s k s
  | later {k k' : κ} {ks : List κ} {s t t' : σ} (hok : (exec k s).2 = .ok t)
      (hlater : Entered ks t k' t') : Entered (k :: ks) s k' t'

variable {exec}

theorem entered_nil {s t : σ} {k : κ} : ¬ Entered exec [] s k t := by
  intro h
  cases h

/-- What a run comes to: its first stage, and what is behind it. -/
theorem entered_cons {k k' : κ} {ks : List κ} {s t' : σ} :
    Entered exec (k :: ks) s k' t'
      ↔ (k' = k ∧ t' = s) ∨ ∃ t, (exec k s).2 = .ok t ∧ Entered exec ks t k' t' := by
  constructor
  · intro h
    cases h with
    | here => exact Or.inl ⟨rfl, rfl⟩
    | later hok hlater => exact Or.inr ⟨_, hok, hlater⟩
  · intro h
    rcases h with ⟨rfl, rfl⟩ | ⟨t, hok, hlater⟩
    · exact .here k' ks t'
    · exact .later hok hlater

/-- A stage that a run comes to is one of its stages. -/
theorem Entered.mem {ks : List κ} {s t : σ} {k : κ} (h : Entered exec ks s k t) : k ∈ ks := by
  induction h with
  | here k ks s => exact List.mem_cons_self
  | later _ _ ih => exact List.mem_cons_of_mem _ ih

/-- **The writes of a run** are the writes of the stages it comes to. -/
theorem run_writes_iff (P : ω → Prop) (ks : List κ) (s : σ) :
    (∀ w ∈ (run exec ks s).1, P w)
      ↔ ∀ k t, Entered exec ks s k t → ∀ w ∈ (exec k t).1, P w := by
  induction ks generalizing s with
  | nil =>
      refine iff_of_true ?_ ?_
      · intro w hw
        cases hw
      · intro k t hk
        exact absurd hk entered_nil
  | cons k ks ih =>
      -- the first stage, and the rest from the state it leaves
      have hsplit : (∀ k' t', Entered exec (k :: ks) s k' t' → ∀ w ∈ (exec k' t').1, P w)
          ↔ (∀ w ∈ (exec k s).1, P w) ∧ ∀ t, (exec k s).2 = .ok t →
              ∀ k' t', Entered exec ks t k' t' → ∀ w ∈ (exec k' t').1, P w := by
        constructor
        · intro h
          refine ⟨h k s (.here k ks s), ?_⟩
          intro t ht k' t' hlater
          exact h k' t' (.later ht hlater)
        · intro h k' t' hk
          rcases entered_cons.mp hk with ⟨rfl, rfl⟩ | ⟨t, ht, hlater⟩
          · exact h.1
          · exact h.2 t ht k' t' hlater
      rw [hsplit, run]
      cases hexec : (exec k s).2 with
      | error e => simp
      | ok t =>
          simp only [List.forall_mem_append, ih t, Except.ok.injEq, forall_eq']

/-- **The condition rule**: if `P` holds of the writes of a stage exactly under
its condition, it holds of the writes of a run exactly if the run comes to
every stage under its condition. -/
theorem run_writes_bounds (P : ω → Prop) (C : κ → σ → Prop)
    (hstage : ∀ k s, (∀ w ∈ (exec k s).1, P w) ↔ C k s) (ks : List κ) (s : σ) :
    (∀ w ∈ (run exec ks s).1, P w) ↔ ∀ k t, Entered exec ks s k t → C k t := by
  rw [run_writes_iff]
  constructor
  · intro h k t hk
    exact (hstage k t).mp (h k t hk)
  · intro h k t hk
    exact (hstage k t).mpr (h k t hk)

/-- **The exit rule**: if every stage keeps `I` and exits with `E`, a run does. -/
theorem run_exit (I : σ → Prop) (E : ε → Prop)
    (hok : ∀ k s t, I s → (exec k s).2 = .ok t → I t)
    (herror : ∀ k s e, I s → (exec k s).2 = .error e → E e) {ks : List κ} {s : σ} {e : ε}
    (hs : I s) (h : (run exec ks s).2 = .error e) : E e := by
  induction ks generalizing s with
  | nil => cases h
  | cons k ks ih =>
      rw [run] at h
      cases hexec : (exec k s).2 with
      | error e' =>
          rw [hexec] at h
          injection h with h
          exact h ▸ herror k s e' hs hexec
      | ok t =>
          rw [hexec] at h
          exact ih (hok k s t hs hexec) h

/-- What every stage keeps holds wherever a run comes to. -/
theorem entered_keeps (I : σ → Prop) {ks : List κ}
    (hok : ∀ k ∈ ks, ∀ s t, I s → (exec k s).2 = .ok t → I t) {s t : σ} {k : κ} (hs : I s)
    (h : Entered exec ks s k t) : I t := by
  induction h with
  | here k ks s => exact hs
  | @later k k' ks s u t hu _ ih =>
      refine ih (fun k' hk' => hok k' (List.mem_cons_of_mem _ hk')) ?_
      exact hok k List.mem_cons_self s u hs hu

/-- What every stage keeps, a run that goes through keeps. -/
theorem run_keeps (I : σ → Prop) {ks : List κ}
    (hok : ∀ k ∈ ks, ∀ s t, I s → (exec k s).2 = .ok t → I t) {s t : σ} (hs : I s)
    (h : (run exec ks s).2 = .ok t) : I t := by
  induction ks generalizing s with
  | nil =>
      injection h with h
      exact h ▸ hs
  | cons k ks ih =>
      rw [run] at h
      cases hexec : (exec k s).2 with
      | error e =>
          rw [hexec] at h
          cases h
      | ok u =>
          rw [hexec] at h
          exact ih (fun k' hk' => hok k' (List.mem_cons_of_mem _ hk'))
            (hok k List.mem_cons_self s u hs hexec) h

/-! ## §2. Runs in parts. -/

/-- What a run in two parts comes to. -/
theorem entered_append {ks₁ ks₂ : List κ} {s t : σ} {k : κ} :
    Entered exec (ks₁ ++ ks₂) s k t
      ↔ Entered exec ks₁ s k t
        ∨ ∃ u, (run exec ks₁ s).2 = .ok u ∧ Entered exec ks₂ u k t := by
  induction ks₁ generalizing s with
  | nil =>
      rw [List.nil_append]
      constructor
      · intro h
        exact Or.inr ⟨s, rfl, h⟩
      · intro h
        rcases h with h | ⟨u, hu, h⟩
        · exact absurd h entered_nil
        · injection hu with hu
          exact hu ▸ h
  | cons k' ks₁ ih =>
      rw [List.cons_append, entered_cons, entered_cons, run]
      constructor
      · intro h
        rcases h with h | ⟨t', ht', h⟩
        · exact Or.inl (Or.inl h)
        · rcases ih.mp h with h | ⟨u, hu, h⟩
          · exact Or.inl (Or.inr ⟨t', ht', h⟩)
          · refine Or.inr ⟨u, ?_, h⟩
            rw [ht']
            exact hu
      · intro h
        rcases h with (h | ⟨t', ht', h⟩) | ⟨u, hu, h⟩
        · exact Or.inl h
        · exact Or.inr ⟨t', ht', ih.mpr (Or.inl h)⟩
        -- the second part starts where the whole first part, with this stage, ends
        · cases hexec : (exec k' s).2 with
          | error e =>
              rw [hexec] at hu
              cases hu
          | ok t' =>
              rw [hexec] at hu
              exact Or.inr ⟨t', rfl, ih.mpr (Or.inr ⟨u, hu, h⟩)⟩

/-- The stage behind stages that go through is come to. -/
theorem entered_of_run {ks : List κ} {s t : σ} (h : (run exec ks s).2 = .ok t) (k : κ)
    (ks' : List κ) : Entered exec (ks ++ k :: ks') s k t :=
  entered_append.mpr (Or.inr ⟨t, h, .here k ks' t⟩)

/-- A stage that no other part of the list has is come to in one way. -/
theorem entered_at {ks₁ ks₂ : List κ} {s t : σ} {k : κ} (h₁ : k ∉ ks₁) (h₂ : k ∉ ks₂) :
    Entered exec (ks₁ ++ k :: ks₂) s k t ↔ (run exec ks₁ s).2 = .ok t := by
  rw [entered_append]
  constructor
  · intro h
    rcases h with h | ⟨u, hu, h⟩
    · exact absurd h.mem h₁
    · rcases entered_cons.mp h with ⟨-, rfl⟩ | ⟨t', -, h⟩
      · exact hu
      · exact absurd h.mem h₂
  · intro h
    exact Or.inr ⟨t, h, .here k ks₂ t⟩

/-- A first stage that goes through leaves the rest its state. -/
theorem run_cons_ok {k : κ} {ks : List κ} {s t : σ} :
    (run exec (k :: ks) s).2 = .ok t ↔ ∃ u, (exec k s).2 = .ok u ∧ (run exec ks u).2 = .ok t := by
  rw [run]
  cases hexec : (exec k s).2 with
  | error e => simp
  | ok u => simp

/-- A first part that goes through. -/
theorem run_append_ok {ks : List κ} (ks' : List κ) {s t : σ} (h : (run exec ks s).2 = .ok t) :
    run exec (ks ++ ks') s = ((run exec ks s).1 ++ (run exec ks' t).1, (run exec ks' t).2) := by
  induction ks generalizing s with
  | nil =>
      injection h with h
      rw [h]
      rfl
  | cons k ks ih =>
      obtain ⟨u, hu, hrest⟩ := run_cons_ok.mp h
      rw [List.cons_append, run, run, hu]
      dsimp only
      rw [ih hrest, List.append_assoc]

/-- A first part that exits. -/
theorem run_append_error {ks : List κ} (ks' : List κ) {s : σ} {e : ε}
    (h : (run exec ks s).2 = .error e) :
    run exec (ks ++ ks') s = ((run exec ks s).1, .error e) := by
  induction ks generalizing s with
  | nil => cases h
  | cons k ks ih =>
      rw [run] at h
      rw [List.cons_append, run, run]
      cases hexec : (exec k s).2 with
      | error e' =>
          rw [hexec] at h
          exact congrArg _ h
      | ok u =>
          rw [hexec] at h
          dsimp only at h ⊢
          rw [ih h]

/-- A first part writes what the run starts with. -/
theorem run_writes_initial (ks ks' : List κ) (s : σ) :
    (run exec ks s).1 <+: (run exec (ks ++ ks') s).1 := by
  cases hrun : (run exec ks s).2 with
  | error e => exact ⟨[], by rw [run_append_error ks' hrun, List.append_nil]⟩
  | ok t => exact ⟨(run exec ks' t).1, by rw [run_append_ok ks' hrun]⟩

/-- Stages that write nothing. -/
theorem run_silent {ks : List κ} (h : ∀ k ∈ ks, ∀ s, (exec k s).1 = []) (s : σ) :
    (run exec ks s).1 = [] := by
  induction ks generalizing s with
  | nil => rfl
  | cons k ks ih =>
      have hfirst := h k List.mem_cons_self s
      have hrest := ih fun k' hk' => h k' (List.mem_cons_of_mem _ hk')
      rw [run]
      cases (exec k s).2 with
      | error e => exact hfirst
      | ok t =>
          dsimp only
          rw [hfirst, hrest t]
          rfl

/-! ## §3. Two runs side by side. -/

section Lockstep

variable {σ' ω' ε' : Type*} {exec' : κ → σ' → List ω' × Except ε' σ'}

/-- Two stages, or two runs, that end alike: what they write is related, and so
are their states, or their exits. -/
inductive Agree (W : List ω → List ω' → Prop) (R : σ → σ' → Prop) (E : ε → ε' → Prop) :
    List ω × Except ε σ → List ω' × Except ε' σ' → Prop
  | ok {w : List ω} {w' : List ω'} {s : σ} {s' : σ'} (hw : W w w') (hs : R s s') :
      Agree W R E (w, .ok s) (w', .ok s')
  | error {w : List ω} {w' : List ω'} {e : ε} {e' : ε'} (hw : W w w') (he : E e e') :
      Agree W R E (w, .error e) (w', .error e')

/-- What agrees with a run that goes through. -/
theorem Agree.ok_left {W : List ω → List ω' → Prop} {R : σ → σ' → Prop} {E : ε → ε' → Prop}
    {x : List ω × Except ε σ} {x' : List ω' × Except ε' σ'} (h : Agree W R E x x') {s : σ}
    (hx : x.2 = .ok s) : ∃ s', x'.2 = .ok s' ∧ R s s' := by
  cases h with
  | ok hw hs =>
      injection hx with hx
      exact ⟨_, rfl, hx ▸ hs⟩
  | error hw he => cases hx

/-- What agrees with a run that exits. -/
theorem Agree.error_left {W : List ω → List ω' → Prop} {R : σ → σ' → Prop} {E : ε → ε' → Prop}
    {x : List ω × Except ε σ} {x' : List ω' × Except ε' σ'} (h : Agree W R E x x') {e : ε}
    (hx : x.2 = .error e) : ∃ e', x'.2 = .error e' ∧ E e e' := by
  cases h with
  | ok hw hs => cases hx
  | error hw he =>
      injection hx with hx
      exact ⟨_, rfl, hx ▸ he⟩

/-- **The step rule**: what is behind a stage may use the state that the first
run leaves it. -/
theorem run_cons_lockstep {W : List ω → List ω' → Prop} {R R' : σ → σ' → Prop}
    {E : ε → ε' → Prop} (happend : ∀ a a' b b', W a a' → W b b' → W (a ++ b) (a' ++ b'))
    {k : κ} {ks : List κ} {s : σ} {s' : σ'} (h : Agree W R E (exec k s) (exec' k s'))
    (hrest : ∀ t t', (exec k s).2 = .ok t → R t t' →
      Agree W R' E (run exec ks t) (run exec' ks t')) :
    Agree W R' E (run exec (k :: ks) s) (run exec' (k :: ks) s') := by
  rw [run, run]
  generalize exec k s = x at h hrest
  generalize exec' k s' = x' at h
  cases h with
  | error hw he => exact .error hw he
  | @ok w w' t t' hw ht =>
      have hlater := hrest t t' rfl ht
      dsimp only
      generalize run exec ks t = y at hlater
      generalize run exec' ks t' = y' at hlater
      cases hlater with
      | ok hw' ht' => exact .ok (happend _ _ _ _ hw hw') ht'
      | error hw' he => exact .error (happend _ _ _ _ hw hw') he

/-- **The lockstep rule**: runs agree if each of their stages does, from states
that are related. -/
theorem run_lockstep {W : List ω → List ω' → Prop} {R : σ → σ' → Prop} {E : ε → ε' → Prop}
    (hnil : W [] []) (happend : ∀ a a' b b', W a a' → W b b' → W (a ++ b) (a' ++ b'))
    {ks : List κ} (hstep : ∀ k ∈ ks, ∀ s s', R s s' → Agree W R E (exec k s) (exec' k s'))
    {s : σ} {s' : σ'} (hs : R s s') : Agree W R E (run exec ks s) (run exec' ks s') := by
  induction ks generalizing s s' with
  | nil => exact .ok hnil hs
  | cons k ks ih =>
      refine run_cons_lockstep happend (hstep k List.mem_cons_self s s' hs) ?_
      intro t t' _ ht
      exact ih (fun k' hk' => hstep k' (List.mem_cons_of_mem _ hk')) ht

/-- **The append rule**: the same for a first part and what is behind it. -/
theorem run_append_lockstep {W : List ω → List ω' → Prop} {R R' : σ → σ' → Prop}
    {E : ε → ε' → Prop} (happend : ∀ a a' b b', W a a' → W b b' → W (a ++ b) (a' ++ b'))
    {ks ls : List κ} {s : σ} {s' : σ'} (h : Agree W R E (run exec ks s) (run exec' ks s'))
    (hrest : ∀ t t', (run exec ks s).2 = .ok t → R t t' →
      Agree W R' E (run exec ls t) (run exec' ls t')) :
    Agree W R' E (run exec (ks ++ ls) s) (run exec' (ks ++ ls) s') := by
  -- by how the first parts end
  generalize hx : run exec ks s = x at h
  generalize hx' : run exec' ks s' = x' at h
  cases h with
  | error hw he =>
      rw [run_append_error ls (by rw [hx]), run_append_error ls (by rw [hx']), hx, hx']
      exact .error hw he
  | @ok w w' t t' hw ht =>
      have hlater := hrest t t' (by rw [hx]) ht
      rw [run_append_ok ls (by rw [hx]), run_append_ok ls (by rw [hx']), hx, hx']
      generalize run exec ls t = y at hlater ⊢
      generalize run exec' ls t' = y' at hlater ⊢
      cases hlater with
      | ok hw' ht' => exact .ok (happend _ _ _ _ hw hw') ht'
      | error hw' he => exact .error (happend _ _ _ _ hw hw') he

end Lockstep

/-! ## §4. Stages that are checked. -/

section Guard

variable (exec) (check : κ → σ → Bool) (mark : ω) (e : ε)

/-- A stage that is done only if its check passes; where it does not, it writes
the mark and exits. -/
def guard (k : κ) (s : σ) : List ω × Except ε σ :=
  if check k s = true then exec k s else ([mark], .error e)

/-- Every stage that the run comes to passes its check. -/
def Checked (ks : List κ) (s : σ) : Prop := ∀ k t, Entered exec ks s k t → check k t = true

variable {exec check mark e}

theorem guard_pos {k : κ} {s : σ} (h : check k s = true) :
    guard exec check mark e k s = exec k s := if_pos h

theorem guard_neg {k : κ} {s : σ} (h : check k s = false) :
    guard exec check mark e k s = ([mark], .error e) := if_neg (ne_true_of_eq_false h)

/-- A stage that leaves a state is done. -/
theorem guard_ok {k : κ} {s t : σ} (h : (guard exec check mark e k s).2 = .ok t) :
    check k s = true ∧ (exec k s).2 = .ok t := by
  cases hcheck : check k s with
  | false =>
      rw [guard_neg hcheck] at h
      cases h
  | true =>
      rw [guard_pos hcheck] at h
      exact ⟨rfl, h⟩

/-- What passes its checks passes the first one, and those behind it. -/
theorem checked_cons {k : κ} {ks : List κ} {s : σ} :
    Checked exec check (k :: ks) s
      ↔ check k s = true ∧ ∀ t, (exec k s).2 = .ok t → Checked exec check ks t := by
  constructor
  · intro h
    refine ⟨h k s (.here k ks s), ?_⟩
    intro t ht k' t' hlater
    exact h k' t' (.later ht hlater)
  · intro h k' t' hk
    rcases entered_cons.mp hk with ⟨rfl, rfl⟩ | ⟨t, ht, hlater⟩
    · exact h.1
    · exact h.2 t ht k' t' hlater

/-- Checks of a run in two parts. -/
theorem checked_append {ks ks' : List κ} {s : σ} :
    Checked exec check (ks ++ ks') s
      ↔ Checked exec check ks s ∧ ∀ t, (run exec ks s).2 = .ok t → Checked exec check ks' t := by
  constructor
  · intro h
    refine ⟨fun k t hk => h k t (entered_append.mpr (Or.inl hk)), ?_⟩
    intro u hu k t hk
    exact h k t (entered_append.mpr (Or.inr ⟨u, hu, hk⟩))
  · intro h k t hk
    rcases entered_append.mp hk with hk | ⟨u, hu, hk⟩
    · exact h.1 k t hk
    · exact h.2 u hu k t hk

/-- **The forward rule**: where every stage that goes through and passes its check
does so on the other side, a run does. -/
theorem checked_forward {σ' ω' ε' : Type*} {exec' : κ → σ' → List ω' × Except ε' σ'}
    {check' : κ → σ' → Bool} {R : σ → σ' → Prop} {ks : List κ}
    (hstep : ∀ k ∈ ks, ∀ s s' t, R s s' → check k s = true → (exec k s).2 = .ok t →
      check' k s' = true ∧ ∃ t', (exec' k s').2 = .ok t' ∧ R t t')
    {s t : σ} {s' : σ'} (hs : R s s') (hchecked : Checked exec check ks s)
    (hrun : (run exec ks s).2 = .ok t) :
    Checked exec' check' ks s' ∧ ∃ t', (run exec' ks s').2 = .ok t' ∧ R t t' := by
  induction ks generalizing s s' with
  | nil =>
      injection hrun with hrun
      exact ⟨fun k u h => absurd h entered_nil, s', rfl, hrun ▸ hs⟩
  | cons k ks ih =>
      obtain ⟨u, hu, hrest⟩ := run_cons_ok.mp hrun
      obtain ⟨hfirst, hlater⟩ := checked_cons.mp hchecked
      -- the other side goes through with this one
      obtain ⟨hpasses, u', hu', hrelated⟩ := hstep k List.mem_cons_self s s' u hs hfirst hu
      obtain ⟨hchecked', t', ht', ht⟩ := ih (fun k' hk' => hstep k' (List.mem_cons_of_mem _ hk'))
        hrelated (hlater u hu) hrest
      refine ⟨checked_cons.mpr ⟨hpasses, ?_⟩, t', run_cons_ok.mpr ⟨u', hu', ht'⟩, ht⟩
      intro v hv
      rw [hu'] at hv
      injection hv with hv
      exact hv ▸ hchecked'

/-- **A run that passes its checks** is the run without them. -/
theorem run_guard_checked {ks : List κ} {s : σ} (h : Checked exec check ks s) :
    run (guard exec check mark e) ks s = run exec ks s := by
  induction ks generalizing s with
  | nil => rfl
  | cons k ks ih =>
      obtain ⟨hfirst, hrest⟩ := checked_cons.mp h
      rw [run, run, guard_pos hfirst]
      cases hexec : (exec k s).2 with
      | error e' => rfl
      | ok t =>
          dsimp only
          rw [ih (hrest t hexec)]

/-- **THE GUARD RULE**: a run passes its checks and is the run without them, or
it is the run up to the first stage that does not, and the mark. -/
theorem run_guard_cases (ks : List κ) (s : σ) :
    (Checked exec check ks s ∧ run (guard exec check mark e) ks s = run exec ks s)
      ∨ ∃ ks₁ k ks₂ t, ks = ks₁ ++ k :: ks₂ ∧ (run exec ks₁ s).2 = .ok t ∧ check k t = false
        ∧ run (guard exec check mark e) ks s = ((run exec ks₁ s).1 ++ [mark], .error e) := by
  induction ks generalizing s with
  | nil => exact Or.inl ⟨fun k t h => absurd h entered_nil, rfl⟩
  | cons k ks ih =>
      cases hcheck : check k s with
      | false =>
          refine Or.inr ⟨[], k, ks, s, rfl, rfl, hcheck, ?_⟩
          -- the first check fails, so nothing is in front of the mark
          rw [run, run, guard_neg hcheck]
          rfl
      | true =>
          cases hexec : (exec k s).2 with
          | error e' =>
              have hchecked : Checked exec check (k :: ks) s :=
                checked_cons.mpr ⟨hcheck, fun t ht => by rw [hexec] at ht; cases ht⟩
              exact Or.inl ⟨hchecked, run_guard_checked hchecked⟩
          | ok t =>
              -- what is behind the stage decides
              rcases ih t with ⟨hrest, -⟩ | ⟨ks₁, k', ks₂, u, rfl, hu, hfails, hrun⟩
              · have hchecked : Checked exec check (k :: ks) s := by
                  refine checked_cons.mpr ⟨hcheck, fun t' ht' => ?_⟩
                  rw [hexec] at ht'
                  injection ht' with ht'
                  exact ht' ▸ hrest
                exact Or.inl ⟨hchecked, run_guard_checked hchecked⟩
              · refine Or.inr ⟨k :: ks₁, k', ks₂, u, rfl, run_cons_ok.mpr ⟨t, hexec, hu⟩, hfails, ?_⟩
                rw [run, run, guard_pos hcheck, hexec]
                dsimp only
                rw [hrun, List.append_assoc]

/-- A run that goes through goes through without its checks. -/
theorem run_guard_ok {ks : List κ} {s t : σ}
    (h : (run (guard exec check mark e) ks s).2 = .ok t) : (run exec ks s).2 = .ok t := by
  rcases run_guard_cases ks s with ⟨-, hsame⟩ | ⟨ks₁, k, ks₂, u, -, -, -, hrun⟩
  · rw [← hsame]
    exact h
  · rw [hrun] at h
    cases h

/-- Two stages that agree, with checks that do. -/
theorem guard_lockstep {σ' ω' ε' : Type*} {exec' : κ → σ' → List ω' × Except ε' σ'}
    {check' : κ → σ' → Bool} {mark' : ω'} {e' : ε'} {W : List ω → List ω' → Prop}
    {R : σ → σ' → Prop} {E : ε → ε' → Prop} {k : κ} {s : σ} {s' : σ'} (hmark : W [mark] [mark'])
    (he : E e e') (hcheck : check k s = check' k s')
    (h : check k s = true → Agree W R E (exec k s) (exec' k s')) :
    Agree W R E (guard exec check mark e k s) (guard exec' check' mark' e' k s') := by
  cases hpasses : check k s with
  | false =>
      rw [guard_neg hpasses, guard_neg (hcheck.symm.trans hpasses)]
      exact .error hmark he
  | true =>
      rw [guard_pos hpasses, guard_pos (hcheck.symm.trans hpasses)]
      exact h hpasses

end Guard

end Stages
