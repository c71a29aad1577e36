/-
  Protohand.Launch.Interference
  ─────────────────────────────
  **WHAT A URI CAN CHANGE.**  A run sees its URI through the section it selects
  and through the parameters that the section names: in its templates, in the
  two lists of transforms and in `user_param`.  Two URIs that agree on these do
  the same (`launch_sees`).

    • `uriparse_query_wf` — the query of an accepted URI is a proper list,
    • `stage_staged`, `find_staged` — a transform works on each pair alone, and
      keeps the first pair of each name,
    • `lookups_transformed` — names with the same values keep the same values,
    • `Cleared.transfer`  — a run that is cleared, with another URI.
-/
import Protohand.Launch.Cleared
import Protohand.Messages.Fit
import Protohand.UriParse.QueryError

namespace Protohand

/-! ## §1. The query of an accepted URI. -/

/-- A round keeps the invariant of the list. -/
theorem parseQueryStep_wf {nvquery nvquery' : NvList} (hwf : nvquery.WF) {part : CStr}
    (h : parseQueryStep nvquery part = .ok nvquery') : nvquery'.WF := by
  by_cases heq : ascii '=' ∈ part
  · rw [parseQueryStep_equal nvquery heq] at h
    split at h
    · cases h
    · injection h with h
      rw [← h]
      exact (nvOp_step hwf (.addstr _ _)).1
  · unfold parseQueryStep at h
    rw [if_neg heq] at h
    injection h with h
    rw [← h]
    exact (nvOp_step hwf (.addpair _ _)).1

theorem parseQuery_wf {query : CStr} {nvquery nvquery' : NvList} (hwf : nvquery.WF) {ret : Int}
    (hret : ¬ ret < 0) (h : parseQuery query nvquery = some (ret, nvquery')) : nvquery'.WF := by
  unfold parseQuery at h
  cases hsplit : strArraySplit query (bytes "&") with
  | none => rw [hsplit] at h; cases h
  | some parts =>
      rw [hsplit] at h
      simp only [Option.pure_def, Option.bind_eq_bind, Option.bind_some] at h
      split at h
      · injection h with h
        injection h with _ h
        exact h ▸ hwf
      · have hresized := (nvOp_step hwf (.resize parts.length)).1
        have hrun := Loop.foldlM_relation
          (fun s o => s.WF → ∀ t, o = .ok t → t.WF) parseQueryStep
          (fun s hs t ht => by injection ht with ht; exact ht ▸ hs)
          (fun s a e _ _ t ht => by cases ht)
          (fun s a t o ht hrest hs u hu => hrest (parseQueryStep_wf hs ht) u hu)
          parts.elems (nvlistResize nvquery parts.length).2 hresized
        cases hloop : parts.elems.foldlM parseQueryStep (nvlistResize nvquery parts.length).2 with
        | ok out =>
            rw [hloop] at h hrun
            injection h with h
            injection h with _ h
            exact h ▸ hrun out rfl
        | error e =>
            -- the code of a round that fails is negative
            have hneg := parseQuery_run_error hloop
            rw [hloop] at h
            injection h with h
            injection h with h _
            rw [h] at hneg
            exact absurd hneg hret

/-- **The query of an accepted URI** is a proper list. -/
theorem uriparse_query_wf {mem : UriMem} {uri : CStr} {parsed : TUri}
    (h : uriparseParse mem uri (uriparseCreate uri) = some (0, parsed)) : parsed.nvquery.WF := by
  obtain ⟨u, hscanned, rfl, hgo, -, -, -, -⟩ := accepted_fields h
  rw [uriparseParse_render u hscanned hgo mem] at h
  obtain ⟨⟨ret, nvquery⟩, hquery, hr⟩ := Option.map_eq_some_iff.mp h
  injection hr with hcode hparsed
  have hret : ¬ ret < 0 := by
    intro hneg
    rw [if_pos hneg] at hcode
    exact absurd hcode (by decide)
  rw [← hparsed]
  exact parseQuery_wf (nvlistCreate_wf 1) hret hquery

/-! ## §2. Transforms. -/

section Transforms

variable {transform : CStr → Int × StrOut} {list : List CStr}

/-- What the entries of a list make of one pair. -/
def Staged (transform : CStr → Int × StrOut) (list : List CStr) (p q : NvPair) : Prop :=
  ∃ calls, list.foldlM (stageEntry transform) (p, []) = .ok (q, calls)

/-- The record of the calls does not matter. -/
theorem staged_of_calls {p q : NvPair} {calls calls' : List TransformCall}
    (h : list.foldlM (stageEntry transform) (p, calls) = .ok (q, calls')) :
    Staged transform list p q := by
  have hboth : Loop.Alike (fun s t : NvPair × List TransformCall => s.1 = t.1) (fun _ _ => True)
      (list.foldlM (stageEntry transform) (p, calls))
      (list.foldlM (stageEntry transform) (p, [])) := by
    refine Loop.foldlM_lockstep (· = ·) _ _ ?_ (List.forall₂_same.mpr fun _ _ => rfl) rfl
    rintro ⟨p, c⟩ ⟨_, c'⟩ item _ rfl rfl
    unfold stageEntry
    dsimp only
    split
    · exact rfl
    · split
      · trivial
      · exact rfl
  rw [h] at hboth
  cases hrun : list.foldlM (stageEntry transform) (p, []) with
  | error e => rw [hrun] at hboth; exact hboth.elim
  | ok t =>
      rw [hrun] at hboth
      obtain ⟨q', calls''⟩ := t
      obtain rfl : q = q' := hboth
      exact ⟨calls'', hrun⟩

theorem Staged.unique {p q q' : NvPair} (h : Staged transform list p q)
    (h' : Staged transform list p q') : q = q' := by
  obtain ⟨calls, h⟩ := h
  obtain ⟨calls', h'⟩ := h'
  rw [h] at h'
  injection h' with h'
  exact congrArg Prod.fst h'

/-- A transform keeps the key. -/
theorem Staged.key {p q : NvPair} (h : Staged transform list p q) : q.key = p.key := by
  obtain ⟨calls, h⟩ := h
  have hkeeps := Loop.foldlM_relation
    (fun (s : NvPair × List TransformCall) o => ∀ t, o = .ok t → t.1.key = s.1.key)
    (stageEntry transform)
    (fun s t ht => by injection ht with ht; rw [ht])
    (fun s a e _ t ht => by cases ht)
    (by
      intro s item t o ht hrest u hu
      rw [hrest u hu]
      unfold stageEntry at ht
      dsimp only at ht
      split at ht
      · injection ht with ht
        rw [ht]
      · split at ht
        · cases ht
        · injection ht with ht
          rw [← ht])
    list (p, [])
  exact hkeeps (q, calls) h

/-- **A stage** works on each pair alone. -/
theorem stage_staged (pairs : List NvPair) (s s' : List NvPair × List TransformCall)
    (h : pairs.foldlM (stagePair transform list) s = .ok s') :
    ∃ qs, s'.1 = s.1 ++ qs ∧ List.Forall₂ (Staged transform list) pairs qs := by
  induction pairs generalizing s with
  | nil =>
      injection h with h
      exact ⟨[], by rw [h, List.append_nil], .nil⟩
  | cons p pairs ih =>
      rw [List.foldlM_cons] at h
      cases hpair : stagePair transform list s p with
      | error e => rw [hpair] at h; cases h
      | ok t =>
          rw [hpair] at h
          obtain ⟨qs, hqs, hall⟩ := ih t h
          unfold stagePair at hpair
          cases hentries : list.foldlM (stageEntry transform) (p, s.2) with
          | error e => rw [hentries] at hpair; cases hpair
          | ok u =>
              rw [hentries] at hpair
              injection hpair with hpair
              refine ⟨u.1 :: qs, ?_, .cons (staged_of_calls hentries) hall⟩
              rw [hqs, ← hpair, List.append_assoc]
              rfl

end Transforms

/-- The first pair of a name. -/
def firstPair (pairs : List NvPair) (n : CStr) : Option NvPair :=
  pairs.find? (fun p => strcmp p.key n = 0)

/-- The first pair of a name, behind a stage. -/
theorem find_staged {transform : CStr → Int × StrOut} {list : List CStr} {pairs qs : List NvPair}
    (h : List.Forall₂ (Staged transform list) pairs qs) (n : CStr) :
    (firstPair pairs n = none ∧ firstPair qs n = none)
      ∨ ∃ p q, firstPair pairs n = some p ∧ firstPair qs n = some q
        ∧ Staged transform list p q := by
  unfold firstPair
  induction h with
  | nil => exact Or.inl ⟨rfl, rfl⟩
  | @cons p q ps qs hpq _ ih =>
      rw [List.find?_cons, List.find?_cons, hpq.key]
      by_cases hkey : strcmp p.key n = 0
      · rw [decide_eq_true hkey]
        exact Or.inr ⟨p, q, rfl, rfl, hpq⟩
      · rw [decide_eq_false hkey]
        exact ih

/-- **Pairs that are the same stay the same.** -/
theorem firstPair_staged {transform : CStr → Int × StrOut} {list : List CStr}
    {pairs qs pairs' qs' : List NvPair} (h : List.Forall₂ (Staged transform list) pairs qs)
    (h' : List.Forall₂ (Staged transform list) pairs' qs') {n : CStr}
    (hsame : firstPair pairs n = firstPair pairs' n) : firstPair qs n = firstPair qs' n := by
  rcases find_staged h n with ⟨hnone, hqs⟩ | ⟨p, q, hp, hq, hstaged⟩
  · rcases find_staged h' n with ⟨-, hqs'⟩ | ⟨p', q', hp', -, -⟩
    · rw [hqs, hqs']
    · rw [hnone, hp'] at hsame
      cases hsame
  · rcases find_staged h' n with ⟨hnone', -⟩ | ⟨p', q', hp', hq', hstaged'⟩
    · rw [hp, hnone'] at hsame
      cases hsame
    · rw [hp, hp'] at hsame
      injection hsame with hsame
      subst hsame
      rw [hq, hq', hstaged.unique hstaged']

/-- The two stages of a section, one behind the other. -/
theorem transformStages_staged {lpadzero ltrimzero : List CStr} {pairs : List NvPair}
    (h : (transformStages lpadzero ltrimzero pairs).ret = 0) :
    ∃ mid, List.Forall₂ (Staged (fun value => transformLpadzero value 10) lpadzero) pairs mid
      ∧ List.Forall₂ (Staged (fun value => (0, transformLtrimzero value)) ltrimzero) mid
        (transformStages lpadzero ltrimzero pairs).pairs := by
  unfold transformStages at h ⊢
  cases hpad : lpadzeroStage lpadzero pairs with
  | error calls =>
      rw [hpad] at h
      have hcode : FAILED_TO_ZEROPAD = 0 := h
      exact absurd hcode (by decide)
  | ok padded =>
      obtain ⟨padded, calls⟩ := padded
      obtain ⟨qs, hqs, hstaged⟩ := stage_staged pairs ([], []) (padded, calls) hpad
      obtain rfl : padded = qs := hqs
      refine ⟨padded, hstaged, ?_⟩
      obtain ⟨out, more, hrun, -⟩ := ltrim_stage ltrimzero padded ([], [])
      have htrim : ltrimzeroStage ltrimzero padded = .ok (out, more) := hrun
      obtain ⟨rs, hrs, hstaged'⟩ := stage_staged padded ([], []) (out, more) hrun
      obtain rfl : out = rs := hrs
      dsimp only
      rw [htrim]
      exact hstaged'

/-- The pairs of a query behind its transforms. -/
theorem pairs_transformedQuery {config : Configuration} {query : NvList} (hwf : query.WF)
    (h : (transformedQuery config query).1.ret = 0) :
    (transformedQuery config query).2.pairs = (transformedQuery config query).1.pairs := by
  obtain ⟨mid, hpad, htrim⟩ := transformStages_staged h
  have hlen : (transformedQuery config query).1.pairs.length = query.length := by
    have hmid := hpad.length_eq
    have hout : mid.length = (transformedQuery config query).1.pairs.length := htrim.length_eq
    rw [← hwf.length_pairs, hmid, hout]
  have htake : List.take query.length
      ((transformedQuery config query).1.pairs.map some
        ++ query.items.drop ((transformedQuery config query).1.pairs.map some).length)
      = (transformedQuery config query).1.pairs.map some :=
    List.take_left' (by rw [List.length_map, hlen])
  have hitems : (transformedQuery config query).2.items
      = (transformedQuery config query).1.pairs.map some
        ++ query.items.drop ((transformedQuery config query).1.pairs.map some).length := rfl
  show (List.take query.length _).filterMap id = _
  rw [hitems, htake]
  simp

/-! ## §3. Two URIs. -/

/-- The first pairs of the names are the same. -/
def FirstSame (names : CStr → Prop) (query query' : NvList) : Prop :=
  ∀ n, names n → firstPair query.pairs n = firstPair query'.pairs n

theorem FirstSame.lookups {names : CStr → Prop} {query query' : NvList}
    (h : FirstSame names query query') (getenv : Env) :
    LooksUpSame getenv query query' names := by
  intro n hn
  unfold findVarValue
  by_cases henv : bytes "env." <+: n
  · rw [if_pos henv, if_pos henv]
  · rw [if_neg henv, if_neg henv]
    exact congrArg (Option.map NvPair.value) (h n (hn.resolve_left henv))

/-- **Names with the same pairs** keep them through the transforms. -/
theorem lookups_transformed {names : CStr → Prop} {query query' : NvList} (hwf : query.WF)
    (hwf' : query'.WF) {config : Configuration} (h : FirstSame names query query')
    (hret : (transformedQuery config query).1.ret = 0)
    (hret' : (transformedQuery config query').1.ret = 0) :
    FirstSame names (transformedQuery config query).2 (transformedQuery config query').2 := by
  intro n hn
  rw [pairs_transformedQuery hwf hret, pairs_transformedQuery hwf' hret']
  obtain ⟨mid, hpad, htrim⟩ := transformStages_staged hret
  obtain ⟨mid', hpad', htrim'⟩ := transformStages_staged hret'
  exact firstPair_staged htrim htrim' (firstPair_staged hpad hpad' (h n hn))

/-- The value that `user_param` names. -/
def userValue (config : Configuration) (query : NvList) : Option CStr :=
  ((findUserParam config.userParam query).bind fun i => query.pairs[i]?).map NvPair.value

/-- **A section sees two queries alike**: it names no parameter but `names`, and
these, the user and the outcome of the padding are the same. -/
structure SeesSame (r : MainRun) (names : CStr → Prop) (config : Configuration)
    (query query' : NvList) : Prop where
  files : TemplateUses (r.expandMem .defaultPath) names config.defaultPath
    ∧ TemplateUses (r.expandMem .replaceFile) names config.replaceFile
    ∧ TemplateUses (r.expandMem .fileMustExist) names config.fileMustExist
  cmds : ∀ cmd ∈ [config.cmd, config.cmdUsermatch, config.cmdNousermatch],
    TemplateUses (r.expandMem .cmd) names cmd
  precmds : ∀ precmd ∈ [config.precmd, config.precmdUsermatch, config.precmdNousermatch],
    TemplateUses (r.expandMem .precmd) names precmd
  first : FirstSame names query query'
  user : userValue config query = userValue config query'
  padded : (transformedQuery config query).1.ret = 0 ↔ (transformedQuery config query').1.ret = 0

theorem SeesSame.symm {r : MainRun} {names : CStr → Prop} {config : Configuration}
    {query query' : NvList} (h : SeesSame r names config query query') :
    SeesSame r names config query' query :=
  ⟨h.files, h.cmds, h.precmds, fun n hn => (h.first n hn).symm, h.user.symm, h.padded.symm⟩

/-- The choice between the commands sees the user only. -/
theorem Chooses.transfer {env : Env} {config : Configuration} {query query' : NvList}
    (huser : userValue config query = userValue config query') {runCmd preRunCmd : CStr}
    (h : Chooses env query config runCmd preRunCmd) :
    Chooses env query' config runCmd preRunCmd := by
  have hvalue : ∀ {i : Nat} {pair : NvPair}, findUserParam config.userParam query = some i →
      query.pairs[i]? = some pair →
      ∃ j pair', findUserParam config.userParam query' = some j
        ∧ query'.pairs[j]? = some pair' ∧ pair'.value = pair.value := by
    intro i pair hfind hpair
    have hsome : userValue config query = some pair.value := by
      unfold userValue
      rw [hfind, Option.bind_some, hpair]
      rfl
    rw [huser] at hsome
    obtain ⟨pair', hbind, hvalue⟩ := Option.map_eq_some_iff.mp hsome
    obtain ⟨j, hj, hget⟩ := Option.bind_eq_some_iff.mp hbind
    exact ⟨j, pair', hj, hget, hvalue⟩
  cases h with
  | plain hempty => exact .plain hempty
  | usermatch hne hfind hpair hname hmatch =>
      obtain ⟨j, pair', hj, hget, hsame⟩ := hvalue hfind hpair
      exact .usermatch hne hj hget hname (hsame ▸ hmatch)
  | nousermatch hne hfind hpair hname hmatch =>
      obtain ⟨j, pair', hj, hget, hsame⟩ := hvalue hfind hpair
      exact .nousermatch hne hj hget hname (hsame ▸ hmatch)

/-- What is chosen is a pair of directives of the section. -/
theorem Chooses.mem {env : Env} {config : Configuration} {query : NvList}
    {runCmd preRunCmd : CStr} (h : Chooses env query config runCmd preRunCmd) :
    runCmd ∈ [config.cmd, config.cmdUsermatch, config.cmdNousermatch]
      ∧ preRunCmd ∈ [config.precmd, config.precmdUsermatch, config.precmdNousermatch] := by
  cases h with
  | plain _ => simp
  | usermatch _ _ _ _ _ => simp
  | nousermatch _ _ _ _ _ => simp

/-- The lookup of a section sees its name only. -/
theorem lookupSection_congr (fresh : Nat → StrArray) {parsed parsed' : TUri}
    (h : sectionName parsed = sectionName parsed') (content : CStr) :
    lookupSection fresh parsed content = lookupSection fresh parsed' content := by
  unfold lookupSection sectionConfig
  rw [h]

/-- No accepted URI is a switch of the program. -/
theorem modeSwitches_of_accepted {mem : UriMem} {uri : CStr} {parsed : TUri}
    (h : uriparseParse mem uri (uriparseCreate uri) = some (0, parsed)) :
    modeSwitches.any (fun mode => strcmp uri mode = 0) = false := by
  have hscheme : HasScheme uri := by
    by_contra hno
    obtain ⟨parsed', hrun⟩ := uriparseParse_no_scheme hno mem
    rw [hrun] at h
    cases h
  have hnone : ∀ mode ∈ modeSwitches, ¬ HasScheme mode := by decide
  rw [List.any_eq_false]
  intro mode hmode hsame
  have heq : uri = mode := (strcmp_eq_zero _ _).mp (of_decide_eq_true hsame)
  exact hnone mode hmode (heq ▸ hscheme)

/-- **A RUN THAT IS CLEARED STAYS SO** under a URI that its section sees alike,
and does the same. -/
theorem Cleared.transfer {r : MainRun} {d : Launch} (h : Cleared r d) {uri : CStr} {mem : UriMem}
    {parsed : TUri} (hparsed : uriparseParse mem uri (uriparseCreate uri) = some (0, parsed))
    (hsection : sectionName d.parsed = sectionName parsed) {names : CStr → Prop}
    (hsees : SeesSame r names d.config d.parsed.nvquery parsed.nvquery) :
    ∃ query, Cleared { r with uri := uri, uriMem := mem }
      { d with parsed := parsed, query := query } := by
  have hlookups := hsees.first.lookups r.env
  have hwf := uriparse_query_wf h.parsed
  have hwf' := uriparse_query_wf hparsed
  have hret := h.padded
  have hret' := hsees.padded.mp hret
  obtain ⟨hruns, hpreruns⟩ := h.chosen.mem
  have htransformed : LooksUpSame r.env d.query (transformedQuery d.config parsed.nvquery).2
      names := by
    rw [h.query]
    exact (lookups_transformed hwf hwf' hsees.first hret hret').lookups r.env
  refine ⟨(transformedQuery d.config parsed.nvquery).2, ?_⟩
  refine {
    mode := modeSwitches_of_accepted hparsed
    configured := ?_
    parsed := hparsed
    selected := (lookupSection_congr r.fresh hsection.symm d.content).trans h.selected
    found := h.found
    chosen := h.chosen.transfer hsees.user
    command := h.command
    defaultPath := ?_
    fileThere := ?_
    replaced := ?_
    padded := hret'
    query := rfl
    cmd := h.cmd.agree htransformed (hsees.cmds _ hruns)
    precmd := ?_
    executable := h.executable }
  · obtain ⟨hfile, hdownload, hopened, hglobal, hlog, hhelp, hprefix⟩ := h.configured
    exact ⟨hfile, hdownload, hopened, hglobal, hlog, hhelp, hprefix⟩
  · obtain ⟨out, hout⟩ := h.defaultPath
    exact ⟨out, hout.agree hlookups hsees.files.1⟩
  · obtain ⟨text, htext, hthere⟩ := h.fileThere
    exact ⟨text, htext.agree hlookups hsees.files.2.2, hthere⟩
  · have hreplaced := h.replaced
    generalize d.files = files at hreplaced ⊢
    cases hreplaced with
    | none hempty => exact .none (hempty.agree hlookups hsees.files.2.1)
    | file htext hne hregex hfile hreplace =>
        exact .file (htext.agree hlookups hsees.files.2.1) hne hregex hfile hreplace
  · have hprecmd := h.precmd
    by_cases hempty : d.preRunCmd = []
    · rw [if_pos hempty] at hprecmd
      exact (if_pos hempty).mpr hprecmd
    · rw [if_neg hempty] at hprecmd
      exact (if_neg hempty).mpr (hprecmd.agree htransformed (hsees.precmds _ hpreruns))

/-- A run that starts a command does what another URI does that its section sees
alike. -/
theorem launch_same (curlEscape : CStr → CStr) (p : Platform) {r : MainRun} {uri : CStr}
    {mem : UriMem} {parsed parsed' : TUri} {content : CStr} {names : CStr → Prop}
    (hparsed : uriparseParse r.uriMem r.uri (uriparseCreate r.uri) = some (0, parsed))
    (hparsed' : uriparseParse mem uri (uriparseCreate uri) = some (0, parsed'))
    (hsection : sectionName parsed = sectionName parsed')
    (hcontent : r.iniContent = some content)
    (hsees : SeesSame r names (lookupSection r.fresh parsed content).2 parsed.nvquery
      parsed'.nvquery)
    (hdefined : AllDefined (launchMain curlEscape p { r with uri := uri, uriMem := mem }).1)
    (hstarts : ∃ e ∈ (launchMain curlEscape p r).1, e.Starts) :
    (launchMain curlEscape p r).1
      = (launchMain curlEscape p { r with uri := uri, uriMem := mem }).1 := by
  obtain ⟨d, hd, heffects⟩ := cleared_of_starts hstarts
  -- the launch has the URI, the text and the section of the run
  have huri : d.parsed = parsed := by
    have hsome := hd.parsed.symm.trans hparsed
    injection hsome with hsome
    injection hsome
  have htext : d.content = content := by
    have hsome := hd.configured.opened.symm.trans hcontent
    injection hsome
  have hconfig : d.config = (lookupSection r.fresh parsed content).2 := by
    rw [← huri, ← htext, hd.selected]
  rw [← hconfig, ← huri] at hsees
  obtain ⟨query, hd'⟩ := hd.transfer hparsed' (huri ▸ hsection) hsees
  rw [heffects, (launch_of_cleared curlEscape hd' hdefined).1]

/-- A run with one section, whose command names the parameter `n`. -/
def namedRun (uri : CStr) : MainRun := { plainRun uri with
  iniContent := some (bytes "[h]\ncmd=run $\x7bn\x7d\n")
  isExecutable := fun _ => true }

end Protohand
