/-
  Protohand.Launch.Sections
  ─────────────────────────
  **WHAT AN EDIT OF THE CONFIGURATION CAN CHANGE.**  A link reads its text
  twice, for the section of the program and for its own.  What stands in other
  sections, and where, is nothing to it (`sections_apart`).

    • `called_said`, `global_same` — `global_callback` sees its own section,
    • `lookupSection_same`         — the lookup sees the section of the link,
    • `exec_over`, `defined_over`  — no other stage of `main` sees the text,
    • `stages_alike`               — the two runs, side by side.
-/
import Protohand.Launch.Reading
import Protohand.Messages.Fit

namespace Protohand

/-! ## §1. What is said in a section. -/

/-- The directives that a text has for a section, in order. -/
def saidIn (target : CStr) (ds : List Standing) : List (CStr × CStr) :=
  (ds.filter fun d => strcmpLcase target (sectionBuffer d.header) = 0).map fun d =>
    (d.name, d.value)

/-- The last value is the last that is said. -/
theorem lastRead_said (ds : List Standing) (target : CStr) (x : Directive) :
    lastRead ds target x
      = (((saidIn target ds).filter fun nv => strcmpLcase nv.1 x.name = 0).map
          Prod.snd).getLast? := by
  unfold lastRead saidIn
  rw [List.filter_map, List.map_map, List.filter_filter]
  congr 2
  refine List.filter_congr fun d _ => ?_
  have hread : d.ReadAs target x
      ↔ strcmpLcase d.name x.name = 0 ∧ strcmpLcase target (sectionBuffer d.header) = 0 :=
    and_comm
  rw [Bool.eq_iff_iff, decide_eq_true_iff, Bool.and_eq_true, hread]
  simp only [Function.comp, decide_eq_true_eq]

/-- What sees only the name and the value of a directive, and only in a section, is
seen from what is said there. -/
theorem all_said {P : IniEvent → Prop} {target : CStr}
    (hother : ∀ e : IniEvent, strcmpLcase target e.sect ≠ 0 → P e)
    (hown : ∀ e : IniEvent, strcmpLcase target e.sect = 0 → (P e ↔ P ⟨target, e.name, e.value⟩))
    (ds : List Standing) :
    (∀ d ∈ ds, P d.event) ↔ ∀ nv ∈ saidIn target ds, P ⟨target, nv.1, nv.2⟩ := by
  unfold saidIn
  constructor
  · intro h nv hnv
    obtain ⟨d, hd, rfl⟩ := List.mem_map.mp hnv
    obtain ⟨hd, hunder⟩ := List.mem_filter.mp hd
    exact (hown d.event (of_decide_eq_true hunder)).mp (h d hd)
  · intro h d hd
    by_cases hunder : strcmpLcase target d.event.sect = 0
    · exact (hown d.event hunder).mpr (h (d.name, d.value)
        (List.mem_map.mpr ⟨d, List.mem_filter.mpr ⟨hd, decide_eq_true hunder⟩, rfl⟩))
    · exact hother d.event hunder

/-- A directive that is read is said. -/
theorem readAs_said (ds : List Standing) (target : CStr) :
    (∃ d ∈ ds, ∃ x, d.ReadAs target x)
      ↔ ∃ nv ∈ saidIn target ds, ∃ x : Directive, strcmpLcase nv.1 x.name = 0 := by
  unfold saidIn Standing.ReadAs
  constructor
  · intro h
    obtain ⟨d, hd, x, hunder, hname⟩ := h
    exact ⟨(d.name, d.value),
      List.mem_map.mpr ⟨d, List.mem_filter.mpr ⟨hd, decide_eq_true hunder⟩, rfl⟩, x, hname⟩
  · intro h
    obtain ⟨nv, hnv, x, hname⟩ := h
    obtain ⟨d, hd, rfl⟩ := List.mem_map.mp hnv
    obtain ⟨hd, hunder⟩ := List.mem_filter.mp hd
    exact ⟨d, hd, x, of_decide_eq_true hunder, hname⟩

section Table

variable {σ D τ V : Type} {b : Branches σ D}

/-- Two calls for the section that carry the same. -/
theorem callback_under {config : σ} {call call' : IniCall}
    (h : call.For (b.sect config)) (h' : call'.For (b.sect config))
    (hname : call.name = call'.name)
    (hbranch : ∀ d, b.branch d config call = b.branch d config call') :
    b.callback config call = b.callback config call' := by
  have hmatched : b.matched call = b.matched call' := by
    unfold Branches.matched
    rw [hname]
  have hsect : strcmpLcase (b.sect config) call.sect = 0 := h
  have hsect' : strcmpLcase (b.sect config) call'.sect = 0 := h'
  unfold Branches.callback
  rw [if_pos hsect, if_pos hsect', hmatched]
  cases b.matched call' with
  | none => rfl
  | some d => exact congrArg _ (hbranch d)

theorem unknown_said (target : CStr) (ds : List Standing) :
    (∀ d ∈ ds, ¬ b.Unknown target d.event)
      ↔ ∀ nv ∈ saidIn target ds, ∃ d ∈ b.chain, strcmpLcase nv.1 (b.name d) = 0 := by
  unfold saidIn Branches.Unknown
  constructor
  · intro h nv hnv
    obtain ⟨d, hd, rfl⟩ := List.mem_map.mp hnv
    obtain ⟨hd, hunder⟩ := List.mem_filter.mp hd
    by_contra hno
    exact h d hd ⟨of_decide_eq_true hunder, hno⟩
  · intro h d hd hunknown
    obtain ⟨hunder, hno⟩ := hunknown
    exact hno (h (d.name, d.value)
      (List.mem_map.mpr ⟨d, List.mem_filter.mpr ⟨hd, decide_eq_true hunder⟩, rfl⟩))

/-- Whether a text is refused is seen from the lines that are malformed, and
from what is said in the section. -/
theorem parse_ok_said [DecidableEq D] {get : D → σ → V} {stored : D → IniCall → V}
    {found : σ → Int} (hb : b.Lawful get stored found) (handler : τ → IniEvent → Int × τ)
    (config : τ → σ)
    (hhandler : ∀ user event, ∃ fresh,
      (handler user event).1 = (b.callback (config user) ⟨event, fresh⟩).1
        ∧ config (handler user event).2 = (b.callback (config user) ⟨event, fresh⟩).2)
    (text : CStr) (user : τ) :
    (iniParseString handler text user).1 = 0
      ↔ .malformed ∉ iniItems text
        ∧ ∀ nv ∈ saidIn (b.sect (config user)) (iniDirectives text),
          ∃ d ∈ b.chain, strcmpLcase nv.1 (b.name d) = 0 := by
  rw [parse_error, firstFault_eq_zero, ← unknown_said]
  exact and_congr_right fun _ =>
    table_accepts_iff hb handler config hhandler (iniDirectives text) user

end Table

/-! ## §2. The section of the program. -/

/-- What `global_callback` does with a directive of its section. -/
def globalSaid (cfg : GlobalConfiguration) (nv : CStr × CStr) : GlobalConfiguration :=
  (globalHandler cfg ⟨cfg.sect, nv.1, nv.2⟩).2

/-- The header is read to be compared, and for nothing else. -/
theorem globalHandler_under {cfg : GlobalConfiguration} {d : Standing}
    (h : strcmpLcase cfg.sect (sectionBuffer d.header) = 0) :
    (globalHandler cfg d.event).2 = globalSaid cfg (d.name, d.value) := by
  have hself : strcmpLcase cfg.sect cfg.sect = 0 := (strcmpLcase_eq_zero _ _).mpr rfl
  refine congrArg Prod.snd (callback_under (b := globalBranches) h hself rfl ?_)
  intro x
  cases x <;> rfl

/-- **`global_callback`** makes of a text what it makes of its own section. -/
theorem called_said (ds : List Standing) (cfg : GlobalConfiguration) :
    called globalHandler ds cfg = (saidIn cfg.sect ds).foldl globalSaid cfg := by
  induction ds generalizing cfg with
  | nil => rfl
  | cons d ds ih =>
      -- the section that is asked for stays, whatever the directive stores
      have hsect : (globalHandler cfg d.event).2.sect = cfg.sect :=
        callback_sect globalBranches_lawful cfg ⟨d.event, ⟨[], 0⟩⟩
      show called globalHandler ds (globalHandler cfg d.event).2 = _
      rw [ih, hsect]
      unfold saidIn
      by_cases hunder : strcmpLcase cfg.sect (sectionBuffer d.header) = 0
      · rw [List.filter_cons_of_pos (by simpa using hunder), List.map_cons, List.foldl_cons,
          globalHandler_under hunder]
      · have hnot : (globalHandler cfg d.event).2 = cfg :=
          callback_ignores globalBranches_lawful fun h => hunder h.1
        rw [List.filter_cons_of_neg (by simpa using hunder), hnot]

/-- Two texts that are well formed, or not, and that say the same in a section. -/
structure SaysSame (target c c' : CStr) : Prop where
  formed : .malformed ∈ iniItems c ↔ .malformed ∈ iniItems c'
  said : saidIn target (iniDirectives c) = saidIn target (iniDirectives c')

/-- **The configuration of the program**, from two texts. -/
theorem global_same {c c' : CStr} (h : SaysSame defaultGconfig.sect c c') :
    ((iniParseString globalHandler c defaultGconfig).1 = 0
        ↔ (iniParseString globalHandler c' defaultGconfig).1 = 0)
      ∧ (iniParseString globalHandler c defaultGconfig).2
        = (iniParseString globalHandler c' defaultGconfig).2 := by
  have hcode : ∀ text, (iniParseString globalHandler text defaultGconfig).1 = 0
      ↔ .malformed ∉ iniItems text
        ∧ ∀ nv ∈ saidIn defaultGconfig.sect (iniDirectives text),
          ∃ d ∈ globalBranches.chain, strcmpLcase nv.1 (globalBranches.name d) = 0 := fun text =>
    parse_ok_said globalBranches_lawful globalHandler id
      (fun _ _ => ⟨⟨[], 0⟩, rfl, rfl⟩) text defaultGconfig
  refine ⟨?_, ?_⟩
  · rw [hcode, hcode, h.said, h.formed]
  · rw [parse_directives, parse_directives, called_said, called_said, h.said]

/-! ## §3. The section of a link. -/

/-- A configuration is its fields. -/
theorem config_ext {config config' : Configuration} (hsect : config.sect = config'.sect)
    (hfound : config.found = config'.found) (hget : ∀ x : Directive, x.get config = x.get config') :
    config = config' := by
  have hall : ∀ x ∈ Directive.all, x.get config = x.get config' := fun x _ => hget x
  unfold Directive.all at hall
  simp only [List.forall_mem_cons, Directive.get, FieldValue.text.injEq,
    FieldValue.array.injEq] at hall
  -- each field is that of a directive, but for the two
  cases config
  cases config'
  simp_all

/-- The lists of a section have items. -/
def ListsFilled (target c : CStr) : Prop :=
  ∀ x : Directive, x.IsList → ∀ v ∈ lastRead (iniDirectives c) target x, listItems v ≠ []

/-- There are slots for these items. -/
def ListsFew (target c : CStr) : Prop :=
  ∀ x : Directive, x.IsList → ∀ v ∈ lastRead (iniDirectives c) target x,
    (listItems v).length ≤ strArrayMax

/-- **The lookup of a section**, in two texts. -/
theorem lookupSection_same (fresh : Nat → StrArray) (parsed : TUri) {c c' : CStr}
    (h : SaysSame (sectionName parsed) c c') (hlists : ListsFilled (sectionName parsed) c)
    (hfew : ListsFew (sectionName parsed) c) :
    ((lookupSection fresh parsed c).1 = 0 ↔ (lookupSection fresh parsed c').1 = 0)
      ∧ (lookupSection fresh parsed c).2 = (lookupSection fresh parsed c').2 := by
  have hread : ∀ x, lastRead (iniDirectives c) (sectionName parsed) x
      = lastRead (iniDirectives c') (sectionName parsed) x := by
    intro x
    rw [lastRead_said, lastRead_said, h.said]
  constructor
  · have hcode : ∀ text, (lookupSection fresh parsed text).1 = 0
        ↔ .malformed ∉ iniItems text
          ∧ ∀ nv ∈ saidIn (sectionName parsed) (iniDirectives text),
            ∃ d ∈ iniBranches.chain, strcmpLcase nv.1 (iniBranches.name d) = 0 := fun text =>
      parse_ok_said iniBranches_lawful (nthCallback fresh) Prod.snd
        (fun user _ => ⟨fresh user.1, rfl, rfl⟩) text (0, sectionConfig parsed)
    rw [hcode, hcode, h.said, h.formed]
  · refine config_ext ?_ ?_ ?_
    · rw [lookupSection_run, lookupSection_run]
      exact (run_sect iniBranches_lawful _ _).trans (run_sect iniBranches_lawful _ _).symm
    · -- it is 0, or it is raised to 1
      have hflag : ∀ text, (lookupSection fresh parsed text).2.found = 0
          ∨ (lookupSection fresh parsed text).2.found = 1 := by
        intro text
        rw [lookupSection_run, run_found iniBranches_lawful rfl]
        split
        · exact Or.inr rfl
        · exact Or.inl rfl
      have hboth : (lookupSection fresh parsed c).2.found ≠ 0
          ↔ (lookupSection fresh parsed c').2.found ≠ 0 := by
        rw [read_found, read_found, readAs_said, readAs_said, h.said]
      rcases hflag c with hc | hc
      · have hzero : (lookupSection fresh parsed c').2.found = 0 := by
          by_contra hne
          exact hboth.mpr hne hc
        rw [hc, hzero]
      · have hne : (lookupSection fresh parsed c').2.found ≠ 0 := hboth.mp (by rw [hc]; decide)
        rw [hc, (hflag c').resolve_left hne]
    · -- what the memory of a list held is behind its items
      intro x
      by_cases hx : x.IsList
      · have hitems : ∀ v ∈ lastRead (iniDirectives c) (sectionName parsed) x,
            listItems v ≠ [] ∧ (listItems v).length ≤ strArrayMax :=
          fun v hv => ⟨hlists x hx v hv, hfew x hx v hv⟩
        rw [read_list fresh parsed c hx hitems, read_list fresh parsed c' hx (hread x ▸ hitems),
          hread]
      · rw [read_text fresh parsed c hx, read_text fresh parsed c' hx, hread]

/-! ## §4. The stages that do not read it. -/

/-- The run, with another text for its configuration. -/
def MainRun.reads (r : MainRun) (text : CStr) : MainRun := { r with iniContent := some text }

/-- The state, behind the reading of another text. -/
def MainState.over (s : MainState) (text : CStr) : MainState :=
  { s with run := s.run.reads text, iniContent := text }

/-- The end of a stage, with another text. -/
def overResult (text : CStr) (x : StageResult) : StageResult := (x.1, x.2.map (·.over text))

/-- A check that does not see the text. -/
theorem over_ite {c : Prop} [Decidable c] {text : CStr} {a b a' b' : StageResult}
    (ha : a' = overResult text a) (hb : b' = overResult text b) :
    (if c then a' else b') = overResult text (if c then a else b) := by
  split
  · exact ha
  · exact hb

/-- A directive that is expanded in its place. -/
theorem expansion_over (e : Expansion) (s : MainState) (text : CStr)
    (hquery : e.query (s.over text) = e.query s) (hget : e.get (s.over text) = e.get s)
    (hset : ∀ (s : MainState) value, e.set (s.over text) value = (e.set s value).over text) :
    e.exec (s.over text) = overResult text (e.exec s) := by
  have hexpand : (s.over text).expand e.which (e.query (s.over text)) (e.get (s.over text))
      = s.expand e.which (e.query s) (e.get s) := by
    rw [hquery, hget]
    rfl
  unfold Expansion.exec
  rw [hexpand]
  cases s.expand e.which (e.query s) (e.get s) with
  | none => rfl
  | some r =>
      have hok := hset { s with globals := r.globals } r.str
      exact over_ite rfl (congrArg (fun t => (_, Except.ok t)) hok)

/-- A command that is expanded. -/
theorem expandCommand_over (which : Expanded) (label : String) (str : CStr)
    (set : MainState → CStr → MainState) (s : MainState) (text : CStr)
    (hset : ∀ (s : MainState) value, set (s.over text) value = (set s value).over text) :
    expandCommand which label str set (s.over text)
      = overResult text (expandCommand which label str set s) := by
  unfold expandCommand
  have hexpand : (s.over text).expand which (s.over text).uriParsed.nvquery str
      = s.expand which s.uriParsed.nvquery str := rfl
  rw [hexpand]
  cases s.expand which s.uriParsed.nvquery str with
  | none => rfl
  | some r =>
      have hok := hset { s with globals := r.globals } r.str
      exact over_ite rfl (congrArg (fun t => (_, Except.ok t)) hok)

theorem openLog_over (s : MainState) (text : CStr) :
    openLog (s.over text) = overResult text (openLog s) := by
  have hfile : (s.over text).logFile = s.logFile := rfl
  unfold openLog
  rw [hfile]
  cases s.logFile with
  | none => rfl
  | some log_file => exact over_ite rfl rfl

theorem parseUri_over (s : MainState) (text : CStr) :
    parseUri (s.over text) = overResult text (parseUri s) := by
  have hrun : uriparseParse (s.over text).run.uriMem (s.over text).run.uri
      (uriparseCreate (s.over text).run.uri)
      = uriparseParse s.run.uriMem s.run.uri (uriparseCreate s.run.uri) := rfl
  unfold parseUri
  rw [hrun]
  cases uriparseParse s.run.uriMem s.run.uri (uriparseCreate s.run.uri) with
  | none => rfl
  | some x => exact over_ite rfl rfl

theorem chosen_over (s : MainState) (texts : List CStr) (a b text : CStr) :
    chosen (s.over text) texts a b = overResult text (chosen s texts a b) := over_ite rfl rfl

theorem chooseCmd_over (s : MainState) (text : CStr) :
    chooseCmd (s.over text) = overResult text (chooseCmd s) := by
  have hpair : (s.over text).userPair = s.userPair := rfl
  have hname : (s.over text).run.env = s.run.env := rfl
  unfold chooseCmd
  rw [hpair, hname]
  refine over_ite (chosen_over s _ _ _ text) ?_
  cases s.userPair with
  | none => rfl
  | some pair =>
      cases s.run.env (bytes "USERNAME") with
      | none => rfl
      | some username => exact over_ite (chosen_over s _ _ _ text) (chosen_over s _ _ _ text)

theorem checkFile_over (s : MainState) (text : CStr) :
    checkFile (s.over text) = overResult text (checkFile s) := by
  have hfile : (s.over text).config = s.config := rfl
  unfold checkFile
  rw [hfile]
  refine over_ite rfl ?_
  cases cmdunquote s.config.fileMustExist with
  | none => rfl
  | some file => exact over_ite rfl rfl

theorem replaceInFile_over (s : MainState) (text : CStr) :
    replaceInFile (s.over text) = overResult text (replaceInFile s) := by
  have hconfig : (s.over text).config = s.config := rfl
  unfold replaceInFile
  rw [hconfig]
  refine over_ite rfl (over_ite rfl ?_)
  cases cmdunquote s.config.replaceFile with
  | none => rfl
  | some file =>
      have hrun : replace (s.over text).run.io (s.over text).run.regexReplace
          (s.over text).run.regerrno (s.over text).run.fs file s.config.replaceRegex
          = replace s.run.io s.run.regexReplace s.run.regerrno s.run.fs file
            s.config.replaceRegex := rfl
      dsimp only
      rw [hrun]
      cases replace s.run.io s.run.regexReplace s.run.regerrno s.run.fs file
          s.config.replaceRegex with
      | none => rfl
      | some x => exact over_ite rfl rfl

/-- **No other stage sees the text.** -/
theorem exec_over (text : CStr) {k : MainStage} (hk : k ≠ .readConfig) (hk' : k ≠ .readSection)
    (s : MainState) :
    k.exec (s.over text) = overResult text (k.exec s) := by
  cases k with
  | checkMode => exact over_ite rfl rfl
  | readConfig => exact absurd rfl hk
  | expandLogPath => exact expansion_over _ _ _ rfl rfl fun _ _ => rfl
  | expandPrefixHelp => exact expansion_over _ _ _ rfl rfl fun _ _ => rfl
  | expandPrefixCmd => exact expansion_over _ _ _ rfl rfl fun _ _ => rfl
  | openLog => exact openLog_over s text
  | startLog => rfl
  | parseUri => exact parseUri_over s text
  | readSection => exact absurd rfl hk'
  | checkSection => exact over_ite rfl rfl
  | chooseCmd => exact chooseCmd_over s text
  | expandDefaultPath => exact expansion_over _ _ _ rfl rfl fun _ _ => rfl
  | expandReplaceFile => exact expansion_over _ _ _ rfl rfl fun _ _ => rfl
  | expandFileMustExist => exact expansion_over _ _ _ rfl rfl fun _ _ => rfl
  | checkFile => exact checkFile_over s text
  | replaceInFile => exact replaceInFile_over s text
  | transformQuery => exact over_ite rfl rfl
  | expandCmd =>
      exact expandCommand_over _ _ _ (fun s cmd => { s with cmd := cmd }) s text fun _ _ => rfl
  | expandPrecmd =>
      exact over_ite rfl (expandCommand_over _ _ _ (fun s _ => s) s text fun _ _ => rfl)
  | checkExe => exact over_ite rfl rfl
  | cleanLogfile => exact over_ite rfl rfl

/-! ## §5. What is defined. -/

/-- What a callback formats is as long for every header of the section. -/
theorem logged_callbackTexts (names : List CStr) {target : CStr} {event : IniEvent}
    (h : strcmpLcase target event.sect = 0) :
    logged (callbackTexts names target event)
      = logged (callbackTexts names target ⟨target, event.name, event.value⟩) := by
  have hself : strcmpLcase target target = 0 := (strcmpLcase_eq_zero _ _).mpr rfl
  have hlen : ∀ sect : CStr,
      (Printf.sprintf "%s => %s: %s [%s]\n" [.str sect, .str event.name, .str event.value,
        .str target]).length
        = 10 + (sect.length + (event.name.length + (event.value.length + (target.length + 0)))) :=
    fun sect => Printf.length_sprintf rfl _
  unfold callbackTexts logged
  rw [if_pos h, if_pos hself, List.all_cons, List.all_cons, hlen, hlen,
    ← length_of_strcmpLcase h]

/-- `ini_callback` keeps to its arrays with the directive. -/
def eventStored (target : CStr) (event : IniEvent) : Bool :=
  !decide (event.Overfull target)
    && logged (callbackTexts (Directive.all.map Directive.name) target event)

theorem eventStored_own {target : CStr} {event : IniEvent} (h : strcmpLcase target event.sect = 0) :
    eventStored target event = eventStored target ⟨target, event.name, event.value⟩ := by
  have hself : strcmpLcase target target = 0 := (strcmpLcase_eq_zero _ _).mpr rfl
  have hover : event.Overfull target
      ↔ IniEvent.Overfull ⟨target, event.name, event.value⟩ target :=
    and_congr (iff_of_true h hself) Iff.rfl
  unfold eventStored
  rw [decide_eq_decide.mpr hover, logged_callbackTexts _ h]

theorem eventStored_other {target : CStr} {event : IniEvent}
    (h : strcmpLcase target event.sect ≠ 0) : eventStored target event = true := by
  have hover : ¬ event.Overfull target := fun hover => h hover.1
  unfold eventStored callbackTexts
  rw [if_neg h, decide_eq_false hover]
  rfl

/-- The room for a section is seen from what is said in it. -/
theorem sectionStored_same {s t : MainState} (hsection : t.uriParsed = s.uriParsed)
    (h : SaysSame (sectionName s.uriParsed) s.iniContent t.iniContent) :
    t.sectionStored = s.sectionStored := by
  have hsaid : ∀ s : MainState, s.sectionStored = true
      ↔ ∀ nv ∈ saidIn (sectionName s.uriParsed) (iniDirectives s.iniContent),
        eventStored (sectionName s.uriParsed) ⟨sectionName s.uriParsed, nv.1, nv.2⟩ = true := by
    intro s
    show (iniDirectives s.iniContent).all (fun d => eventStored (sectionName s.uriParsed) d.event)
      = true ↔ _
    rw [List.all_eq_true]
    exact all_said (P := fun e => eventStored (sectionName s.uriParsed) e = true)
      (fun e he => eventStored_other he) (fun e he => by rw [eventStored_own he]) _
  rw [Bool.eq_iff_iff, hsaid, hsaid, hsection, h.said]

/-- So is the room for the section of the program. -/
theorem globalLogged_same (r : MainRun) {c c' : CStr} (h : SaysSame defaultGconfig.sect c c') :
    (r.reads c').globalLogged = (r.reads c).globalLogged := by
  have hsaid : ∀ text, (r.reads text).globalLogged = true
      ↔ ∀ nv ∈ saidIn defaultGconfig.sect (iniDirectives text),
        logged (callbackTexts (GlobalDirective.all.map GlobalDirective.name) defaultGconfig.sect
          ⟨defaultGconfig.sect, nv.1, nv.2⟩) = true := by
    intro text
    show (iniDirectives text).all (fun d => logged _) = true ↔ _
    rw [List.all_eq_true]
    refine all_said (P := fun e => logged (callbackTexts
      (GlobalDirective.all.map GlobalDirective.name) defaultGconfig.sect e) = true) ?_ ?_ _
    · intro e he
      unfold callbackTexts
      rw [if_neg he]
      rfl
    · intro e he
      rw [logged_callbackTexts _ he]
  rw [Bool.eq_iff_iff, hsaid, hsaid, h.said]

/-- Where there is room for the section there are slots for the items of its lists. -/
theorem listsFew_of_stored {s : MainState} (h : s.sectionStored = true) :
    ListsFew (sectionName s.uriParsed) s.iniContent := by
  intro x hx v hv
  obtain ⟨d, hd, rfl⟩ := List.mem_map.mp (List.mem_of_getLast? hv)
  obtain ⟨hmem, hread⟩ := List.mem_filter.mp hd
  obtain ⟨hunder, hname⟩ := of_decide_eq_true hread
  have hstored : eventStored (sectionName s.uriParsed) d.event = true :=
    List.all_eq_true.mp h d hmem
  unfold eventStored at hstored
  rw [Bool.and_eq_true, Bool.not_eq_true', decide_eq_false_iff_not] at hstored
  by_contra hmore
  exact hstored.1 ⟨hunder, ⟨x, hx, hname⟩, Nat.not_le.mp hmore⟩

/-- **Where another stage is defined**, the text does not matter. -/
theorem defined_over (text : CStr) {k : MainStage} (hk : k ≠ .readConfig) (hk' : k ≠ .readSection)
    (s : MainState) : k.defined (s.over text) = k.defined s := by
  have hsound : k.sound (s.over text) = k.sound s := by
    cases k with
    | readConfig => exact absurd rfl hk
    | readSection => exact absurd rfl hk'
    | checkMode | expandLogPath | expandPrefixHelp | expandPrefixCmd | openLog | startLog
      | parseUri | checkSection | chooseCmd | expandDefaultPath | expandReplaceFile
      | expandFileMustExist | checkFile | replaceInFile | transformQuery | expandCmd
      | expandPrecmd | checkExe | cleanLogfile => rfl
  unfold MainStage.defined
  rw [hsound, exec_over text hk hk' s]
  rfl

/-! ## §6. The two runs. -/

section Runs

variable (p : Platform) (r : MainRun) {c c' : CStr}

/-- The state of a launch, behind the reading of another text. -/
def LaunchState.over (s : LaunchState) (text : CStr) : LaunchState := ⟨s.main.over text, s.precmd⟩

/-- Two ends of a launch, or of a part of it, that are told apart by the text. -/
abbrev Alike (text : CStr) : LaunchResult → LaunchResult → Prop :=
  Stages.Agree (· = ·) (fun s t : LaunchState => t = s.over text) (· = ·)

/-- A stage of `main` in the launch. -/
theorem alike_of {k : MainStage} {s t : LaunchState}
    (heffects : k.effects t.main = k.effects s.main)
    (hprecmd : t.precmdAfter k = s.precmdAfter k) (hdefined : k.defined t.main = k.defined s.main)
    (h : k.defined s.main = true → (k.exec t.main).2 = (k.exec s.main).2.map (·.over c')) :
    Alike c' ((LaunchStage.of k).exec p s) ((LaunchStage.of k).exec p t) := by
  refine Stages.guard_lockstep rfl rfl hdefined.symm fun hpasses => ?_
  show Alike c' (k.effects s.main, (k.exec s.main).2.map _)
    (k.effects t.main, (k.exec t.main).2.map _)
  rw [heffects, hprecmd, h hpasses]
  cases (k.exec s.main).2 with
  | error e => exact .error rfl rfl
  | ok main => exact .ok rfl rfl

/-- A stage that does not read the text. -/
theorem alike_other {k : LaunchStage} (hk : k ≠ .of .readConfig) (hk' : k ≠ .of .readSection)
    {s t : LaunchState} (h : t = s.over c') : Alike c' (k.exec p s) (k.exec p t) := by
  subst h
  cases k with
  | of k =>
      have hne : k ≠ .readConfig := fun h => hk (congrArg _ h)
      have hne' : k ≠ .readSection := fun h => hk' (congrArg _ h)
      exact alike_of p rfl rfl (defined_over c' hne hne' s.main)
        fun _ => congrArg Prod.snd (exec_over c' hne hne' s.main)
  | launch => exact Stages.guard_lockstep rfl rfl rfl fun _ => .ok rfl rfl

/-- **The configuration of the program is read.** -/
theorem readConfig_same (h : SaysSame defaultGconfig.sect c c') :
    (readConfig (r.reads c').init).2 = (readConfig (r.reads c).init).2.map (·.over c') := by
  obtain ⟨hcode, hcfg⟩ := global_same h
  have hrun : ∀ text, (readConfig (r.reads text).init).2
      = if r.iniFile = none then .error none
        else if r.IsRemote ∧ r.downloadRet ≠ 0 then r.init.fail FAILED_TO_DOWNLOAD_CONFIG
        else if (iniParseString globalHandler text defaultGconfig).1 = 0 then
          .ok { r.init with
            run := r.reads text
            iniContent := text
            cfg := (iniParseString globalHandler text defaultGconfig).2 }
        else r.init.fail INI_PARSE_ERR := by
    intro text
    unfold readConfig
    by_cases hfile : r.iniFile = none
    · have hfile' : (r.reads text).init.run.iniFile = none := hfile
      rw [if_pos hfile', if_pos hfile]
    · have hfile' : ¬ (r.reads text).init.run.iniFile = none := hfile
      rw [if_neg hfile', if_neg hfile]
      by_cases hremote : r.IsRemote ∧ r.downloadRet ≠ 0
      · have hremote' : (r.reads text).init.run.IsRemote
            ∧ (r.reads text).init.run.downloadRet ≠ 0 := hremote
        rw [if_pos hremote', if_pos hremote]
        rfl
      · have hremote' : ¬ ((r.reads text).init.run.IsRemote
            ∧ (r.reads text).init.run.downloadRet ≠ 0) := hremote
        rw [if_neg hremote', if_neg hremote]
        show (if _ then _ else _ : StageResult).2 = _
        by_cases hret : (iniParseString globalHandler text defaultGconfig).1 = 0
        · rw [if_neg (not_not.mpr hret), if_pos hret]
          rfl
        · rw [if_pos hret, if_neg hret]
          rfl
  rw [hrun, hrun, hcfg]
  simp only [hcode]
  split
  · rfl
  · split
    · rfl
    · split
      · rfl
      · rfl

/-- Whether that is defined. -/
theorem readConfig_defined (h : SaysSame defaultGconfig.sect c c') :
    MainStage.defined .readConfig (r.reads c').init
      = MainStage.defined .readConfig (r.reads c).init := by
  have hrun : ∀ text, MainStage.defined .readConfig (r.reads text).init
      = (r.iniNamed && (decide (r.iniFile = none ∨ r.IsRemote ∧ r.downloadRet ≠ 0)
        || (r.reads text).globalLogged)) := by
    intro text
    unfold MainStage.defined
    rw [(logged_exec_iff .readConfig _).mpr trivial, Bool.and_true]
    rfl
  rw [hrun, hrun, globalLogged_same r h]

/-- **The section of the link is read.** -/
theorem readSection_same {s : MainState}
    (h : SaysSame (sectionName s.uriParsed) s.iniContent c')
    (hlists : ListsFilled (sectionName s.uriParsed) s.iniContent)
    (hfew : ListsFew (sectionName s.uriParsed) s.iniContent) :
    (readSection (s.over c')).2 = (readSection s).2.map (·.over c') := by
  obtain ⟨hcode, hconfig⟩ := lookupSection_same s.run.fresh s.uriParsed h hlists hfew
  have hrun : ∀ s : MainState, (readSection s).2
      = if (lookupSection s.run.fresh s.uriParsed s.iniContent).1 = 0 then
          .ok { s with config := (lookupSection s.run.fresh s.uriParsed s.iniContent).2 }
        else s.fail INI_PARSE_ERR := by
    intro s
    unfold readSection
    dsimp only
    by_cases hret : (lookupSection s.run.fresh s.uriParsed s.iniContent).1 = 0
    · rw [if_neg (not_not.mpr hret), if_pos hret]
    · rw [if_pos hret, if_neg hret]
  rw [hrun, hrun]
  show (if (lookupSection s.run.fresh s.uriParsed c').1 = 0 then
    Except.ok { s.over c' with config := (lookupSection s.run.fresh s.uriParsed c').2 } else _) = _
  rw [← hconfig]
  simp only [hcode]
  split
  · rfl
  · rfl

theorem readSection_defined {s : MainState}
    (h : SaysSame (sectionName s.uriParsed) s.iniContent c') :
    MainStage.defined .readSection (s.over c') = MainStage.defined .readSection s := by
  have hlogged : logged (readSection (s.over c')).1 = logged (readSection s).1 := by
    have hroom : ∀ s : MainState, logged (readSection s).1 = true
        ↔ (sectionName s.uriParsed).length ≤ 4072 := logged_exec_iff .readSection
    rw [Bool.eq_iff_iff, hroom, hroom]
    exact Iff.rfl
  have hstored : (s.over c').sectionStored = s.sectionStored := sectionStored_same rfl h
  show ((s.over c').sectionStored && logged (readSection (s.over c')).1) = _
  rw [hstored, hlogged]
  rfl

/-- The stages behind the reading of the configuration, up to the URI. -/
def readingStages : List MainStage :=
  [.expandLogPath, .expandPrefixHelp, .expandPrefixCmd, .openLog, .startLog, .parseUri]

/-- The stages behind the reading of the section. -/
def sectionStages : List LaunchStage :=
  [.checkSection, .chooseCmd, .expandDefaultPath, .expandReplaceFile, .expandFileMustExist,
    .checkFile, .replaceInFile, .transformQuery, .expandCmd, .expandPrecmd, .checkExe].map .of
    ++ [.launch, .of .cleanLogfile]

/-- The text is read in two of the stages. -/
theorem launchStages_reading : launchStages = .of .checkMode :: .of .readConfig ::
    (readingStages.map .of ++ .of .readSection :: sectionStages) := rfl

/-- What they leave. -/
theorem reading_ok {p : Platform} {s t : LaunchState}
    (h : (Stages.run (LaunchStage.act p) (readingStages.map .of) s).2 = .ok t) :
    t.main.run = s.main.run ∧ t.main.iniContent = s.main.iniContent
      ∧ uriparseParse s.main.run.uriMem s.main.run.uri (uriparseCreate s.main.run.uri)
        = some (0, t.main.uriParsed) := by
  obtain ⟨_, ⟨xlog, -, -, rfl⟩, h⟩ := run_of_ok_iff.mp h
  obtain ⟨_, ⟨xhelp, -, -, rfl⟩, h⟩ := run_of_ok_iff.mp h
  obtain ⟨_, ⟨xcmd, -, -, rfl⟩, h⟩ := run_of_ok_iff.mp h
  obtain ⟨_, ⟨-, rfl⟩, h⟩ := run_of_ok_iff.mp h
  obtain ⟨_, rfl, h⟩ := run_of_ok_iff.mp h
  obtain ⟨_, ⟨parsed, hparsed, rfl⟩, h⟩ := run_of_ok_iff.mp h
  obtain rfl : _ = t := by injection h
  exact ⟨rfl, rfl, hparsed⟩

theorem effects_append : ∀ a a' b b' : List Effect, a = a' → b = b' → a ++ b = a' ++ b' := by
  intro a a' b b' ha hb
  rw [ha, hb]

/-- Stages that do not read the text. -/
theorem others_alike {ks : List LaunchStage} (hconfig : .of .readConfig ∉ ks)
    (hsection : .of .readSection ∉ ks) (s : LaunchState) :
    Alike c' (Stages.run (LaunchStage.exec p) ks s)
      (Stages.run (LaunchStage.exec p) ks (s.over c')) := by
  refine Stages.run_lockstep rfl effects_append ?_ rfl
  intro k hk s t hst
  exact alike_other p (fun h => hconfig (h ▸ hk)) (fun h => hsection (h ▸ hk)) hst

/-- The mode is the same, and nothing is read yet. -/
theorem checkMode_alike :
    Stages.Agree (· = ·) (fun s t => s = ⟨(r.reads c).init, []⟩ ∧ t = ⟨(r.reads c').init, []⟩)
      (· = ·) ((LaunchStage.of .checkMode).exec p ⟨(r.reads c).init, []⟩)
      ((LaunchStage.of .checkMode).exec p ⟨(r.reads c').init, []⟩) := by
  have hdefined : ∀ text, MainStage.defined .checkMode (r.reads text).init
      = decide ((bytes "PH_HOME=" ++ r.dir).length < r.pathMax + 1 + 9) := by
    intro text
    unfold MainStage.defined
    rw [(logged_exec_iff .checkMode _).mpr trivial, Bool.and_true]
    rfl
  refine Stages.guard_lockstep rfl rfl ((hdefined c).trans (hdefined c').symm) fun _ => ?_
  show Stages.Agree _ _ _ ([], (checkMode _).2.map _) ([], (checkMode _).2.map _)
  by_cases hmode : modeSwitches.any (fun mode => strcmp r.uri mode = 0) = true
  · have hcheck : ∀ text, checkMode (r.reads text).init = ([], .error none) :=
      fun _ => if_pos hmode
    rw [hcheck, hcheck]
    exact .error rfl rfl
  · have hcheck : ∀ text, checkMode (r.reads text).init = ([], .ok (r.reads text).init) :=
      fun _ => if_neg hmode
    rw [hcheck, hcheck]
    exact .ok rfl ⟨rfl, rfl⟩

/-- **All stages**, one behind the other. -/
theorem stages_alike (hglobal : SaysSame defaultGconfig.sect c c')
    (hown : ∀ parsed, uriparseParse r.uriMem r.uri (uriparseCreate r.uri) = some (0, parsed) →
      SaysSame (sectionName parsed) c c' ∧ ListsFilled (sectionName parsed) c) :
    Alike c' (stagesRun p (r.reads c)) (stagesRun p (r.reads c')) := by
  unfold stagesRun
  rw [launchStages_reading]
  refine Stages.run_cons_lockstep effects_append (checkMode_alike p r) ?_
  rintro _ _ - ⟨rfl, rfl⟩
  -- from here on the states are told apart by the text only
  refine Stages.run_cons_lockstep effects_append
    (alike_of p rfl rfl (readConfig_defined r hglobal) fun _ => readConfig_same r hglobal) ?_
  rintro s _ hread rfl
  obtain ⟨⟨-, -, content, hcontent, -, hmain⟩, -⟩ :=
    (of_ok_iff _ _ _).mp (Stages.guard_ok hread).2
  have hc : content = c := (Option.some.inj hcontent).symm
  -- up to the URI
  refine Stages.run_append_lockstep effects_append
    (others_alike p (by decide) (by decide) s) ?_
  rintro t _ hok rfl
  obtain ⟨hrun, htext, hparsed⟩ := reading_ok (Stages.run_guard_ok hok)
  rw [hmain] at hparsed htext
  -- the URI is accepted, so the texts are known to agree on its section
  obtain ⟨hsaid, hlists⟩ := hown t.main.uriParsed hparsed
  rw [← hc, ← show t.main.iniContent = content from htext] at hsaid hlists
  have hsection : Alike c' ((LaunchStage.of .readSection).exec p t)
      ((LaunchStage.of .readSection).exec p (t.over c')) := by
    refine alike_of p rfl rfl (readSection_defined hsaid) fun hdefined => ?_
    obtain ⟨hstored, -⟩ := (Bool.and_eq_true _ _).mp hdefined
    exact readSection_same hsaid hlists (listsFew_of_stored hstored)
  refine Stages.run_cons_lockstep effects_append hsection ?_
  rintro u _ - rfl
  exact others_alike p (by decide) (by decide) u

/-- **WHAT AN EDIT ELSEWHERE CHANGES**: nothing.  Two texts that are both well
formed or both not, and that say the same in the section of the program and in
the section of the link, make the link do the same: the same files, commands
and pages, and the same error if it ends with one. -/
theorem sections_apart (curlEscape : CStr → CStr) (hglobal : SaysSame defaultGconfig.sect c c')
    (hown : ∀ parsed, uriparseParse r.uriMem r.uri (uriparseCreate r.uri) = some (0, parsed) →
      SaysSame (sectionName parsed) c c' ∧ ListsFilled (sectionName parsed) c) :
    (launchMain curlEscape p (r.reads c')).1 = (launchMain curlEscape p (r.reads c)).1
      ∧ ∀ call, (launchMain curlEscape p (r.reads c')).2 = .error call
        ↔ (launchMain curlEscape p (r.reads c)).2 = .error call := by
  have halike := stages_alike p r hglobal hown
  unfold launchMain
  dsimp only
  generalize stagesRun p (r.reads c) = x at halike
  generalize stagesRun p (r.reads c') = x' at halike
  cases halike with
  | ok heffects _ =>
      -- a run that goes through opens no page
      refine ⟨congrArg (· ++ []) heffects.symm, ?_⟩
      intro call
      exact iff_of_false (fun h => by cases h) (fun h => by cases h)
  | error heffects hcall =>
      subst heffects
      subst hcall
      exact ⟨rfl, fun _ => Iff.rfl⟩

end Runs

/-- A link with a parameter that is padded. -/
def editedRun : MainRun := { plainRun (bytes "a:h?n=7") with isExecutable := fun _ => true }

/-- Its section, alone. -/
def aloneText : CStr := bytes "[h]\nlpadzero=n\ncmd=run $\x7bn\x7d\n"

/-- Its section in two parts, among others. -/
def amongText : CStr :=
  bytes "[x]\nnosuch=1\n[H]\nlpadzero = n\n[_global]\n[y]\ncmd=z\n[h]\ncmd=run $\x7bn\x7d\n"

/-- It starts the same command. -/
theorem sections_apart_among :
    (∃ e ∈ (launchMain percentEscape .mingw (editedRun.reads aloneText)).1, e.Starts)
      ∧ (launchMain percentEscape .mingw (editedRun.reads amongText)).1
        = (launchMain percentEscape .mingw (editedRun.reads aloneText)).1 := by
  have hformed : .malformed ∈ iniItems aloneText ↔ .malformed ∈ iniItems amongText := by
    decide +kernel
  refine ⟨by decide +kernel,
    (sections_apart .mingw editedRun percentEscape ⟨hformed, by decide +kernel⟩ ?_).1⟩
  intro parsed hparsed
  have hsection : (uriparseParse editedRun.uriMem editedRun.uri
      (uriparseCreate editedRun.uri)).map (fun x => sectionName x.2) = some (bytes "h") := by
    decide +kernel
  rw [hparsed] at hsection
  obtain hname : sectionName parsed = bytes "h" := Option.some.inj hsection
  rw [hname]
  refine ⟨⟨hformed, by decide +kernel⟩, ?_⟩
  rintro x (rfl | rfl)
  · decide +kernel
  · decide +kernel

end Protohand
