/-
  Protohand.Launch.Reading
  ────────────────────────
  **WHAT A SECTION OF A CONFIGURATION COMES TO**, by the directives of its text.

  `lastRead` is the value that stands last below the headers of a section.
  What `ini_callback` leaves in a field is this value, or the default:

    • `read_text`, `read_list` — the fields,
    • `read_found`             — when a section is found,
    • `table_accepts_iff`, `read_accepted` — when no directive of it is refused.
-/
import Protohand.Ini.Document
import Protohand.Launch.Cleared

namespace Protohand

/-! ## §1. The last value. -/

/-- For the section `target` the directive is `x`. -/
def Standing.ReadAs (s : Standing) (target : CStr) (x : Directive) : Prop :=
  strcmpLcase target (sectionBuffer s.header) = 0 ∧ strcmpLcase s.name x.name = 0

instance (s : Standing) (target : CStr) (x : Directive) : Decidable (s.ReadAs target x) :=
  inferInstanceAs (Decidable (_ ∧ _))

def lastRead (ds : List Standing) (target : CStr) (x : Directive) : Option CStr :=
  ((ds.filter (·.ReadAs target x)).map Standing.value).getLast?

theorem lastRead_cons (d : Standing) (ds : List Standing) (target : CStr) (x : Directive) :
    lastRead (d :: ds) target x
      = (lastRead ds target x).or (if d.ReadAs target x then some d.value else none) := by
  unfold lastRead
  by_cases hread : d.ReadAs target x
  · rw [List.filter_cons_of_pos (by simpa using hread), List.map_cons, List.getLast?_cons,
      if_pos hread]
    cases ((ds.filter (·.ReadAs target x)).map Standing.value).getLast? <;> rfl
  · rw [List.filter_cons_of_neg (by simpa using hread), if_neg hread, Option.or_none]

/-- **What is written last** is the last value, in some call. -/
theorem last_written (fresh : Nat → StrArray) (target : CStr) (x : Directive)
    (ds : List Standing) (n : Nat) (old : FieldValue) :
    (lastRead ds target x = none
        ∧ Cell.last (iniBranches.written Directive.stored target x) old (callsFrom fresh n ds)
          = old)
      ∨ ∃ call : IniCall, lastRead ds target x = some call.value
        ∧ Cell.last (iniBranches.written Directive.stored target x) old (callsFrom fresh n ds)
          = x.stored call := by
  induction ds generalizing n old with
  | nil => exact Or.inl ⟨rfl, rfl⟩
  | cons d ds ih =>
      rw [lastRead_cons, callsFrom, Cell.last_cons]
      by_cases hread : d.ReadAs target x
      · have hwritten : iniBranches.written Directive.stored target x ⟨d.event, fresh n⟩
            = some (x.stored ⟨d.event, fresh n⟩) := if_pos hread
        rw [hwritten, Option.getD_some, if_pos hread]
        right
        -- a later directive overwrites this one
        rcases ih (n + 1) (x.stored ⟨d.event, fresh n⟩) with ⟨hnone, hlast⟩ | ⟨call, hsome, hlast⟩
        · exact ⟨⟨d.event, fresh n⟩, by rw [hnone]; rfl, hlast⟩
        · exact ⟨call, by rw [hsome]; rfl, hlast⟩
      · have hwritten : iniBranches.written Directive.stored target x ⟨d.event, fresh n⟩ = none :=
          if_neg hread
        rw [hwritten, Option.getD_none, if_neg hread, Option.or_none]
        exact ih (n + 1) old

/-! ## §2. The fields. -/

section Fields

variable (fresh : Nat → StrArray) (parsed : TUri) (content : CStr)

/-- **A field** holds what the last value for it stores, or its default. -/
theorem read_field (x : Directive) :
    (lastRead (iniDirectives content) (sectionName parsed) x = none
        ∧ x.get (lookupSection fresh parsed content).2 = x.get defaultConfig)
      ∨ ∃ call : IniCall,
        lastRead (iniDirectives content) (sectionName parsed) x = some call.value
          ∧ x.get (lookupSection fresh parsed content).2 = x.stored call := by
  have hdefault : x.get (sectionConfig parsed) = x.get defaultConfig := by
    cases x <;> rfl
  have hlast : x.get (lookupSection fresh parsed content).2
      = Cell.last (iniBranches.written Directive.stored (sectionName parsed) x)
        (x.get defaultConfig) (iniCalls fresh content) := by
    rw [lookupSection_run, run_last_wins iniBranches_lawful, hdefault]
    rfl
  rw [hlast]
  exact last_written fresh (sectionName parsed) x (iniDirectives content) 0 _

theorem read_text {x : Directive} (hx : ¬ x.IsList) :
    x.get (lookupSection fresh parsed content).2
      = .text ((lastRead (iniDirectives content) (sectionName parsed) x).getD []) := by
  have hdefault : x.get defaultConfig = .text [] := by
    revert hx
    cases x <;> intro hx <;> first | rfl | exact absurd (by decide) hx
  rcases read_field fresh parsed content x with ⟨hnone, hget⟩ | ⟨call, hsome, hget⟩
  · rw [hget, hnone, hdefault]
    rfl
  · rw [hget, hsome]
    exact if_neg hx

/-- A list that has items, and not too many; one without items is left as its
memory was. -/
theorem read_list {x : Directive} (hx : x.IsList)
    (hitems : ∀ v ∈ lastRead (iniDirectives content) (sectionName parsed) x,
      listItems v ≠ [] ∧ (listItems v).length ≤ strArrayMax) :
    x.get (lookupSection fresh parsed content).2
      = .array ((lastRead (iniDirectives content) (sectionName parsed) x).map fun v =>
          ⟨listItems v, (listItems v).length⟩) := by
  have hdefault : x.get defaultConfig = .array none := by
    rcases hx with rfl | rfl <;> rfl
  rcases read_field fresh parsed content x with ⟨hnone, hget⟩ | ⟨call, hsome, hget⟩
  · rw [hget, hnone, hdefault]
    rfl
  · rw [hget, hsome, stored_list hx (hitems _ hsome).1 (hitems _ hsome).2]
    rfl

/-- **A section is found** if one of its directives is known. -/
theorem read_found :
    (lookupSection fresh parsed content).2.found ≠ 0
      ↔ ∃ d ∈ iniDirectives content, ∃ x, d.ReadAs (sectionName parsed) x := by
  -- the calls and the directives, in step
  have hcalls : ∀ (ds : List Standing) (n : Nat),
      (∃ call ∈ callsFrom fresh n ds, call.For (sectionName parsed) ∧ iniBranches.Known call)
        ↔ ∃ d ∈ ds, ∃ x, d.ReadAs (sectionName parsed) x := by
    intro ds
    induction ds with
    | nil => simp [callsFrom]
    | cons d ds ih =>
        intro n
        rw [callsFrom, List.exists_mem_cons_iff, List.exists_mem_cons_iff, ih (n + 1)]
        refine or_congr ?_ Iff.rfl
        constructor
        · rintro ⟨hfor, x, -, hx⟩
          exact ⟨x, hfor, hx⟩
        · rintro ⟨x, hfor, hx⟩
          exact ⟨hfor, x, Directive.mem_all x, hx⟩
  rw [lookupSection_run, run_found iniBranches_lawful rfl]
  show (if ∃ call ∈ iniCalls fresh content, call.For (sectionName parsed)
    ∧ iniBranches.Known call then (1 : Int) else 0) ≠ 0 ↔ _
  rw [← hcalls (iniDirectives content) 0]
  unfold iniCalls
  split <;> simp_all

end Fields

/-! ## §3. What is refused. -/

/-- A directive for the section that the table does not know. -/
def Branches.Unknown {σ D : Type} (b : Branches σ D) (target : CStr) (event : IniEvent) : Prop :=
  strcmpLcase target event.sect = 0 ∧ ¬ ∃ x ∈ b.chain, strcmpLcase event.name (b.name x) = 0

/-- **A callback of a table** refuses none of some directives if none is
unknown, whatever else its handler counts. -/
theorem table_accepts_iff {σ D τ V : Type} [DecidableEq D] {b : Branches σ D} {get : D → σ → V}
    {stored : D → IniCall → V} {found : σ → Int} (hb : b.Lawful get stored found)
    (handler : τ → IniEvent → Int × τ) (config : τ → σ)
    (hhandler : ∀ user event, ∃ fresh,
      (handler user event).1 = (b.callback (config user) ⟨event, fresh⟩).1
        ∧ config (handler user event).2 = (b.callback (config user) ⟨event, fresh⟩).2)
    (ds : List Standing) (user : τ) :
    Accepts handler ds user ↔ ∀ d ∈ ds, ¬ b.Unknown (b.sect (config user)) d.event := by
  -- the target section is the invariant: no call changes it
  refine accepts_iff handler (I := fun user' => b.sect (config user') = b.sect (config user))
    ?_ ?_ ds rfl
  · intro user' event hsect
    obtain ⟨fresh, -, hconfig⟩ := hhandler user' event
    rw [hconfig, callback_sect hb]
    exact hsect
  · intro user' event hsect
    obtain ⟨fresh, hcode, -⟩ := hhandler user' event
    rw [hcode, callback_refuses_iff hb, hsect]
    rfl

/-- `ini_callback` keeps count of its calls besides. -/
theorem nthCallback_accepts_iff (fresh : Nat → StrArray) (ds : List Standing)
    (user : Nat × Configuration) :
    Accepts (nthCallback fresh) ds user ↔ ∀ d ∈ ds, ¬ iniBranches.Unknown user.2.sect d.event :=
  table_accepts_iff iniBranches_lawful (nthCallback fresh) Prod.snd
    (fun user _ => ⟨fresh user.1, rfl, rfl⟩) ds user

/-- **No directive of a section is refused** if all of them are known. -/
theorem read_accepted (fresh : Nat → StrArray) (ds : List Standing) (n : Nat)
    (config : Configuration)
    (h : ∀ d ∈ ds, strcmpLcase config.sect (sectionBuffer d.header) = 0 →
      ∃ x, d.ReadAs config.sect x) :
    Accepts (nthCallback fresh) ds (n, config) := by
  rw [nthCallback_accepts_iff]
  rintro d hd ⟨hunder, hno⟩
  obtain ⟨x, -, hx⟩ := h d hd hunder
  exact hno ⟨x, Directive.mem_all x, hx⟩

end Protohand
