/-
  Protohand.Ini.Result
  ────────────────────
  **WHAT `ini_parse_string` RETURNS**: the number of the first line that it
  objects to, or 0.

  The loop goes on behind an error, so a handler may still refuse what comes
  later, and what it refuses depends on what it was given before.  The lines
  are therefore judged one by one, each with the lines above it: `Objects`
  says when one line is at fault, `FaultAt` which lines of a text are.

    • `iniParseString_result` — the result, for every text and every handler.
-/
import Protohand.Ini

namespace Protohand

/-! ## §1. The line at fault. -/

/-- The header that lines stand under behind some others. -/
def headerBelow : Option CStr → List IniItem → Option CStr
  | header, [] => header
  | _, .header name :: items => headerBelow (some name) items
  | header, .blank :: items => headerBelow header items
  | header, .malformed :: items => headerBelow header items
  | header, .directive _ _ :: items => headerBelow header items

theorem headerBelow_append (header : Option CStr) (before items : List IniItem) :
    headerBelow header (before ++ items) = headerBelow (headerBelow header before) items := by
  induction before generalizing header with
  | nil => rfl
  | cons item before ih => cases item <;> exact ih _

theorem standingUnder_append (header : Option CStr) (before items : List IniItem) :
    standingUnder header (before ++ items)
      = standingUnder header before ++ standingUnder (headerBelow header before) items := by
  induction before generalizing header with
  | nil => rfl
  | cons item before ih =>
      cases item with
      | directive name value => exact congrArg (_ :: ·) (ih header)
      | blank => exact ih header
      | malformed => exact ih header
      | header name => exact ih (some name)

section Result

variable {σ : Type} (handler : σ → IniEvent → Int × σ)

theorem called_append (ds es : List Standing) (user : σ) :
    called handler (ds ++ es) user = called handler es (called handler ds user) :=
  List.foldl_append

/-- The parser objects to a line: it is neither header nor directive nor blank,
or the handler, after what the lines above made of `user`, refuses it. -/
def Objects (user : σ) (above : List IniItem) : IniItem → Prop
  | .malformed => True
  | .directive name value =>
      (handler (called handler (standingUnder none above) user)
        ⟨sectionBuffer (headerBelow none above), name, value⟩).1 = 0
  | .blank => False
  | .header _ => False

instance (user : σ) (above : List IniItem) (item : IniItem) :
    Decidable (Objects handler user above item) :=
  match item with
  | .malformed => isTrue trivial
  | .directive _ _ => inferInstanceAs (Decidable (_ = _))
  | .blank => isFalse id
  | .header _ => isFalse id

/-- Line `n` is one the parser objects to, where `items` follow `above`. -/
def FaultIn (user : σ) (above items : List IniItem) (n : Nat) : Prop :=
  ∃ mid item below, items = mid ++ item :: below ∧ n = above.length + mid.length + 1
    ∧ Objects handler user (above ++ mid) item

/-- Line `n` of the text is one the parser objects to. -/
def FaultAt (text : CStr) (user : σ) (n : Nat) : Prop :=
  ∃ above item below, iniItems text = above ++ item :: below ∧ n = above.length + 1
    ∧ Objects handler user above item

/-! ## §2. The first of them. -/

/-- The first line at fault behind `above`, or 0. -/
def firstFault (user : σ) : List IniItem → List IniItem → Nat
  | _, [] => 0
  | above, item :: items =>
      if Objects handler user above item then above.length + 1
      else firstFault user (above ++ [item]) items

theorem not_faultIn_nil (user : σ) (above : List IniItem) (n : Nat) :
    ¬ FaultIn handler user above [] n := by
  rintro ⟨mid, item, below, hitems, -⟩
  exact absurd hitems (by simp)

theorem faultIn_cons (user : σ) (above items : List IniItem) (item : IniItem) (n : Nat) :
    FaultIn handler user above (item :: items) n
      ↔ (n = above.length + 1 ∧ Objects handler user above item)
        ∨ FaultIn handler user (above ++ [item]) items n := by
  constructor
  · rintro ⟨mid, item', below, hitems, hn, hobjects⟩
    cases mid with
    | nil =>
        obtain ⟨rfl, rfl⟩ := List.cons.inj hitems
        rw [List.append_nil] at hobjects
        exact Or.inl ⟨hn, hobjects⟩
    | cons head mid =>
        obtain ⟨rfl, rfl⟩ := List.cons.inj hitems
        refine Or.inr ⟨mid, item', below, rfl, ?_, ?_⟩
        · simp only [List.length_append, List.length_cons, List.length_nil] at hn ⊢
          omega
        · rw [List.append_assoc]
          exact hobjects
  · rintro (⟨hn, hobjects⟩ | ⟨mid, item', below, rfl, hn, hobjects⟩)
    · exact ⟨[], item, items, rfl, hn, by rw [List.append_nil]; exact hobjects⟩
    · refine ⟨item :: mid, item', below, rfl, ?_, ?_⟩
      · simp only [List.length_append, List.length_cons, List.length_nil] at hn ⊢
        omega
      · rw [List.append_assoc] at hobjects
        exact hobjects

theorem lt_of_faultIn {user : σ} {above items : List IniItem} {n : Nat}
    (h : FaultIn handler user above items n) : above.length < n := by
  obtain ⟨mid, item, below, -, hn, -⟩ := h
  omega

/-- **The first line at fault** is at fault, and no line above it is. -/
theorem firstFault_eq (user : σ) (above items : List IniItem) (n : Nat) :
    firstFault handler user above items = n
      ↔ (n = 0 ∧ ∀ k, ¬ FaultIn handler user above items k)
        ∨ (FaultIn handler user above items n
          ∧ ∀ k < n, ¬ FaultIn handler user above items k) := by
  induction items generalizing above with
  | nil =>
      have hnone := not_faultIn_nil handler user above
      rw [firstFault]
      constructor
      · rintro rfl
        exact Or.inl ⟨rfl, hnone⟩
      · rintro (⟨rfl, -⟩ | ⟨hfault, -⟩)
        · rfl
        · exact absurd hfault (hnone n)
  | cons item items ih =>
      rw [firstFault]
      by_cases hobjects : Objects handler user above item
      · -- this line, and the others have higher numbers
        rw [if_pos hobjects]
        have hhere : FaultIn handler user above (item :: items) (above.length + 1) :=
          (faultIn_cons handler user above items item _).mpr (Or.inl ⟨rfl, hobjects⟩)
        constructor
        · rintro rfl
          refine Or.inr ⟨hhere, fun k hk hfault => ?_⟩
          have := lt_of_faultIn handler hfault
          omega
        · rintro (⟨-, hnone⟩ | ⟨hfault, hfirst⟩)
          · exact absurd hhere (hnone _)
          · have hlt := lt_of_faultIn handler hfault
            by_contra hne
            exact hfirst (above.length + 1) (by omega) hhere
      · rw [if_neg hobjects, ih]
        have hlater : ∀ k, FaultIn handler user above (item :: items) k
            ↔ FaultIn handler user (above ++ [item]) items k := by
          intro k
          rw [faultIn_cons]
          exact ⟨fun h => h.resolve_left fun h => hobjects h.2, Or.inr⟩
        simp only [hlater]

/-- The handler refuses none of some directives. -/
def Accepts : List Standing → σ → Prop
  | [], _ => True
  | d :: ds, user => (handler user d.event).1 ≠ 0 ∧ Accepts ds (handler user d.event).2

/-- No line is at fault if all are read and no directive is refused. -/
theorem firstFault_eq_zero (user : σ) (above items : List IniItem) :
    firstFault handler user above items = 0
      ↔ .malformed ∉ items
        ∧ Accepts handler (standingUnder (headerBelow none above) items)
          (called handler (standingUnder none above) user) := by
  induction items generalizing above with
  | nil => simp [firstFault, standingUnder, Accepts]
  | cons item items ih =>
      rw [firstFault]
      have hnext := ih (above ++ [item])
      rw [headerBelow_append, standingUnder_append, called_append] at hnext
      cases item with
      | malformed => simp [Objects]
      | blank => simpa [Objects, standingUnder, headerBelow, called] using hnext
      | header name => simpa [Objects, standingUnder, headerBelow, called] using hnext
      | directive name value =>
          show (if (handler (called handler (standingUnder none above) user)
            ⟨sectionBuffer (headerBelow none above), name, value⟩).1 = 0 then _ else _) = 0 ↔ _
          rw [List.mem_cons, or_iff_right (by simp)]
          show _ ↔ _ ∧ (_ ≠ 0 ∧ Accepts handler _ _)
          by_cases hrefused : (handler (called handler (standingUnder none above) user)
              ⟨sectionBuffer (headerBelow none above), name, value⟩).1 = 0
          · rw [if_pos hrefused]
            exact ⟨fun h => absurd h (by omega), fun h => absurd hrefused h.2.1⟩
          · rw [if_neg hrefused, hnext]
            exact ⟨fun h => ⟨h.1, hrefused, h.2⟩, fun h => ⟨h.1, h.2.2⟩⟩

/-- A handler that refuses directives by themselves, whatever it has stored,
refuses none of some directives if none is one of these. -/
theorem accepts_iff {I : σ → Prop} {refused : IniEvent → Prop}
    (hkeeps : ∀ user event, I user → I (handler user event).2)
    (hrefuses : ∀ user event, I user → ((handler user event).1 = 0 ↔ refused event))
    (ds : List Standing) {user : σ} (huser : I user) :
    Accepts handler ds user ↔ ∀ d ∈ ds, ¬ refused d.event := by
  induction ds generalizing user with
  | nil => exact iff_of_true trivial fun d hd => absurd hd List.not_mem_nil
  | cons d ds ih =>
      rw [List.forall_mem_cons]
      exact and_congr (not_congr (hrefuses user d.event huser))
        (ih (hkeeps user d.event huser))

/-! ## §3. The loop. -/

/-- The loop stands behind `above`. -/
structure Behind (user : σ) (above : List IniItem) (s : IniLoop σ) : Prop where
  lineno : s.lineno = above.length
  sect : s.sect = sectionBuffer (headerBelow none above)
  user : s.user = called handler (standingUnder none above) user

/-- **One line**: what it is joins the lines above, and the first fault is kept. -/
theorem behind_act {user : σ} {above : List IniItem} {s : IniLoop σ}
    (hs : Behind handler user above s) (item : IniItem) (prevName : CStr) :
    let s' := iniAct handler { s with lineno := s.lineno + 1, prevName := prevName } item
    Behind handler user (above ++ [item]) s'
      ∧ s'.error = if s.error = 0 ∧ Objects handler user above item then above.length + 1
          else s.error := by
  obtain ⟨hlineno, hsect, huser⟩ := hs
  have hlen : s.lineno + 1 = (above ++ [item]).length := by
    rw [hlineno, List.length_append, List.length_singleton]
  cases item with
  | blank =>
      refine ⟨⟨hlen, ?_, ?_⟩, ?_⟩
      · rw [headerBelow_append]; exact hsect
      · rw [standingUnder_append, called_append]; exact huser
      · exact (if_neg fun h => h.2).symm
  | malformed =>
      refine ⟨⟨hlen, ?_, ?_⟩, ?_⟩
      · rw [headerBelow_append]; exact hsect
      · rw [standingUnder_append, called_append]; exact huser
      · show firstError s.error (s.lineno + 1) = _
        simp [firstError, Objects, hlineno]
  | header name =>
      refine ⟨⟨hlen, ?_, ?_⟩, ?_⟩
      · rw [headerBelow_append]; rfl
      · rw [standingUnder_append, called_append]; exact huser
      · exact (if_neg fun h => h.2).symm
  | directive name value =>
      refine ⟨⟨hlen, ?_, ?_⟩, ?_⟩
      · rw [headerBelow_append]; exact hsect
      · rw [standingUnder_append, called_append, ← huser]
        show (handler s.user ⟨s.sect, name, value⟩).2 = _
        rw [hsect]
        rfl
      · show (if (handler s.user ⟨s.sect, name, value⟩).1 = 0 then _ else _) = _
        have hobjects : Objects handler user above (.directive name value)
            ↔ (handler s.user ⟨s.sect, name, value⟩).1 = 0 := by
          rw [hsect, huser]
          rfl
        simp only [hobjects, hlineno]
        unfold firstError
        by_cases hrefused : (handler s.user ⟨s.sect, name, value⟩).1 = 0
        · simp only [hrefused, if_true, and_true]
        · simp only [hrefused, if_false, and_false]

/-- **All lines.** -/
theorem run_error (user : σ) (lines : List CStr) (above : List IniItem) (s : IniLoop σ)
    (hs : Behind handler user above s) :
    (lines.foldl (iniStep handler) s).error
      = if s.error = 0 then
          firstFault handler user above (iniItemsFrom s.lineno s.prevName lines)
        else s.error := by
  induction lines generalizing above s with
  | nil =>
      show s.error = if s.error = 0 then 0 else s.error
      split
      · next hzero => exact hzero
      · rfl
  | cons line lines ih =>
      have hread := act_directives handler (iniLine (s.lineno + 1) s.prevName line).1
        { s with
          lineno := s.lineno + 1
          prevName := (iniLine (s.lineno + 1) s.prevName line).2 } _ hs.sect
      obtain ⟨hlineno, hprev, -⟩ := hread
      have hact := behind_act handler hs (iniLine (s.lineno + 1) s.prevName line).1
        (iniLine (s.lineno + 1) s.prevName line).2
      obtain ⟨hbehind, herror⟩ := hact
      rw [List.foldl_cons, ih _ (iniStep handler s line) hbehind, iniItemsFrom, firstFault]
      unfold iniStep
      rw [hlineno, hprev, herror]
      by_cases hzero : s.error = 0
      · rw [if_pos hzero]
        by_cases hobjects : Objects handler user above
            (iniLine (s.lineno + 1) s.prevName line).1
        · simp only [hzero, hobjects, and_self, if_true, Nat.succ_ne_zero, if_false]
        · simp only [hzero, hobjects, and_false, if_true, if_false]
      · simp only [hzero, false_and, if_false]

/-- The result is the first line at fault. -/
theorem parse_error (text : CStr) (user : σ) :
    (iniParseString handler text user).1 = firstFault handler user [] (iniItems text) := by
  have hstart : Behind handler user [] (⟨[], [], 0, 0, user⟩ : IniLoop σ) := ⟨rfl, rfl, rfl⟩
  have hrun := run_error handler user (iniLines text) [] ⟨[], [], 0, 0, user⟩ hstart
  rw [if_pos rfl] at hrun
  exact hrun

/-- **THE RESULT OF `ini_parse_string`**, for every text and every handler: 0 if
the parser objects to no line, and else the number of the first line it
objects to. -/
theorem iniParseString_result (text : CStr) (user : σ) (n : Nat) :
    (iniParseString handler text user).1 = n
      ↔ (n = 0 ∧ ∀ k, ¬ FaultAt handler text user k)
        ∨ (FaultAt handler text user n ∧ ∀ k < n, ¬ FaultAt handler text user k) := by
  have hfault : ∀ k, FaultIn handler user [] (iniItems text) k
      ↔ FaultAt handler text user k := by
    intro k
    unfold FaultIn FaultAt
    simp only [List.length_nil, Nat.zero_add, List.nil_append]
  rw [parse_error, firstFault_eq]
  simp only [hfault]

end Result

end Protohand
