/-
  Protohand.Launch.Link
  ─────────────────────
  **FROM A LINK AND A CONFIGURATION TO A COMMAND.**

  A `Link` is what a page offers: a host, a path and parameters, written down
  as a URI.  An `IniDocument` is what the user has configured.  Where the
  section of the link has templates for `cmd` and `precmd`, and everything in
  them is defined, `main` starts these with the parameters put in.

    • `link_parsed`      — the URI of a link is read back,
    • `becomes_template` — a template, and what it expands to,
    • `link_starts`      — what is started.
-/
import Protohand.Launch.Interference
import Protohand.Launch.Reading

namespace Protohand

/-! ## §1. Links. -/

/-- A link, and how each parameter of it is written. -/
structure Link where
  proto : CStr
  slashes : Bool
  host : CStr
  path : Option CStr
  params : List NvPair
  encs : List CStr
  fragment : Option CStr
  proto_free : ∀ c ∈ proto, c ≠ ascii ':' ∧ isPartDelim c = false
  host_ne : host ≠ []
  host_free : ∀ c ∈ host, isPartDelim c = false
  path_free : ∀ p ∈ path, ∀ c ∈ p, c ≠ ascii '?' ∧ c ≠ ascii '#'
  encoded : List.Forall₂ PairEnc params encs
  unmarked : ∀ e ∈ encs, ascii '#' ∉ e
  texts : ∀ p ∈ params, IsCStr p.key ∧ IsCStr p.value ∧ ascii '=' ∉ p.key
  few : params.length ≤ strArrayMax
  fragment_ne : ∀ f ∈ fragment, f ≠ []

def Link.query (k : Link) : CStr := [ascii '&'].intercalate k.encs

def Link.parts (k : Link) : UriParts :=
  ⟨k.proto, k.slashes, k.host, k.path, if k.query = [] then none else some k.query, k.fragment⟩

def Link.uri (k : Link) : CStr := k.parts.render

/-- The section that the link is for. -/
def Link.section (k : Link) : CStr :=
  k.host ++ (if k.path.getD [] ≠ [] then ascii '/' :: k.path.getD [] else [])

theorem not_mem_intercalate {c d : UInt8} (hne : c ≠ d) (encs : List CStr)
    (h : ∀ e ∈ encs, c ∉ e) : c ∉ [d].intercalate encs := by
  induction encs with
  | nil => simp
  | cons e encs ih =>
      have hrest := ih fun e he => h e (List.mem_cons_of_mem _ he)
      cases encs with
      | nil => simpa using h e List.mem_cons_self
      | cons e' encs =>
          rw [List.intercalate_cons_cons, List.mem_append, List.mem_append, not_or, not_or]
          exact ⟨⟨h e List.mem_cons_self, by simpa using hne⟩, hrest⟩

theorem Link.parts_wf (k : Link) : k.parts.WF where
  proto_free := k.proto_free
  authority_ne := k.host_ne
  authority_free := k.host_free
  path_free := k.path_free
  query_free := by
    intro q hq
    have hquery : k.query = q := by
      have hsome : (if k.query = [] then none else some k.query) = some q := hq
      split at hsome
      · cases hsome
      · exact Option.some.inj hsome
    rw [← hquery]
    exact not_mem_intercalate (by decide) k.encs k.unmarked

/-- **The URI of a link** is read back: the section, and the parameters. -/
theorem link_parsed (k : Link) (mem : UriMem) :
    ∃ parsed, uriparseParse mem k.uri (uriparseCreate k.uri) = some (0, parsed)
      ∧ sectionName parsed = k.section ∧ parsed.nvquery.pairs = k.params := by
  have hwf := k.parts_wf
  have hne : ∀ q ∈ k.parts.query, q ≠ [] := by
    intro q hq hempty
    subst hempty
    have hsome : (if k.query = [] then none else some k.query) = some [] := hq
    split at hsome
    · cases hsome
    · next hquery => exact hquery (Option.some.inj hsome)
  have hspill := spill_of_ne k.parts hne k.fragment_ne
  have hauth := chopped_authority k.parts hwf.goes_on mem
  rw [authorityField_eq k.parts hwf.authority_free hspill] at hauth
  have hpath := chopped_path k.parts mem
  rw [pathField_eq k.parts hspill] at hpath
  have hfield : (k.parts.chopped mem).query = k.query := by
    rw [chopped_query k.parts mem (fun hn => absurd rfl (hne [] hn)),
      queryField_eq k.parts (fun hn => absurd rfl (k.fragment_ne [] hn))]
    show (if k.query = [] then none else some k.query).getD [] = k.query
    split
    · next hempty => exact hempty.symm
    · rfl
  -- the pairs
  have hparts : queryParts k.query = k.encs := queryParts_join k.encoded
  obtain ⟨hdec, hpairs⟩ := decode_join k.encoded k.texts
  have hfew : (queryParts k.query).length ≤ strArrayMax := by
    rw [hparts, ← k.encoded.length_eq]
    exact k.few
  rw [← hparts] at hdec hpairs
  obtain ⟨nvquery, hrun, -, hnew⟩ := parseQuery_spec (nvlistCreate_wf 1) hfew hdec
  rw [hpairs] at hnew
  refine ⟨{ k.parts.chopped mem with nvquery := nvquery }, ?_, ?_, hnew⟩
  · show uriparseParse mem k.parts.render (uriparseCreate k.parts.render) = _
    rw [uriparseParse_render k.parts hwf.scanned hwf.goes_on mem, hfield, hrun]
    rfl
  · unfold sectionName
    dsimp only
    rw [hauth, hpath]
    rfl

/-! ## §2. Templates. -/

/-- A template that everything is defined for, with room for what it expands to. -/
structure Fillable (mem : Nat → RoundMem) (getenv : Env) (query : NvList) (segs : List Seg) :
    Prop where
  segs_ok : SegsOk none segs
  starts : ∀ b, .ph b ∈ segs → b.head? ≠ some (ascii '=')
  defined : ∀ b, .ph b ∈ segs → isConditional b = false →
    (findVarValue getenv query b).isSome = true
  room : (expansion mem getenv query 0 segs).length < BLOCKSIZE

/-- **A template** becomes its expansion. -/
theorem becomes_template {mem : Nat → RoundMem} {getenv : Env} {query : NvList} {segs : List Seg}
    (h : Fillable mem getenv query segs) :
    Becomes mem getenv query (template segs) (expansion mem getenv query 0 segs) := by
  have hsound : ∀ b, .ph b ∈ segs → ∀ j,
      Sound mem getenv query (.close j b (isConditional b)) := by
    intro b hb j
    show if isConditional b = true then _ else _
    split
    · exact parseConditional_isSome (mem j).toCondMem (h.starts b hb)
    · next hcond => exact Option.isSome_iff_exists.mp (h.defined b hb (by simpa using hcond))
  obtain ⟨s, hrun, hkept, hout⟩ :=
    expandRun_roomy h.segs_ok (sound_segTokens hsound 0) h.room ⟨[], []⟩
  refine ⟨⟨0, s.out, ⟨s.lastvar, []⟩⟩, ?_, rfl, hout⟩
  rw [expandVars_of_run hrun, outText_of_kept hkept]
  rfl

/-- Queries of the same pairs. -/
theorem Becomes.of_pairs {mem : Nat → RoundMem} {getenv : Env} {query query' : NvList}
    (hsame : query.pairs = query'.pairs) {str out : CStr} (h : Becomes mem getenv query str out) :
    Becomes mem getenv query' str out := by
  refine h.agree ?_ (templateUses_any mem str)
  intro n _
  unfold findVarValue
  rw [hsame]

theorem becomes_nil (mem : Nat → RoundMem) (getenv : Env) (query : NvList) :
    Becomes mem getenv query [] [] := by
  have hfill : Fillable mem getenv query [] :=
    ⟨trivial, fun _ hb => absurd hb List.not_mem_nil, fun _ hb => absurd hb List.not_mem_nil,
      show 0 < BLOCKSIZE by decide⟩
  exact becomes_template hfill

theorem expansion_empty {segs : List Seg} (mem : Nat → RoundMem) (getenv : Env) (query : NvList)
    (i : Nat) (h : template segs = []) : expansion mem getenv query i segs = [] := by
  induction segs generalizing i with
  | nil => rfl
  | cons seg segs ih =>
      rw [template_cons, List.append_eq_nil_iff] at h
      cases seg with
      | lit t =>
          obtain rfl : t = [] := h.1
          exact ih _ h.2
      | ph b => exact absurd h.1 (by simp [Seg.text, placeholder, openMark])

/-! ## §3. The command of a link. -/

/-- Below the headers of `target` stand these templates, and no user, file or
replacement. -/
structure Offers (ds : List Standing) (target : CStr) (cmd precmd : List Seg) : Prop where
  known : ∀ d ∈ ds, strcmpLcase target (sectionBuffer d.header) = 0 → ∃ x, d.ReadAs target x
  runs : lastRead ds target .cmd = some (template cmd)
  nonempty : template cmd ≠ []
  preruns : (lastRead ds target .precmd).getD [] = template precmd
  unused : ∀ x ∈ [Directive.userParam, .defaultPath, .replaceFile, .fileMustExist],
    (lastRead ds target x).getD [] = []
  items : ∀ x ∈ [Directive.lpadzero, .ltrimzero], ∀ v ∈ lastRead ds target x,
    listItems v ≠ [] ∧ (listItems v).length ≤ strArrayMax

/-- The names in a list of transforms. -/
def listedNames (ds : List Standing) (target : CStr) (x : Directive) : List CStr :=
  ((lastRead ds target x).map listItems).getD []

/-- The parameters of a link, behind the transforms of its section. -/
def Link.transformed (k : Link) (ds : List Standing) : TransformRun :=
  transformStages (listedNames ds k.section .lpadzero) (listedNames ds k.section .ltrimzero)
    k.params

/-- What the templates are filled with. -/
def Link.filled (k : Link) (ds : List Standing) : NvList := .ofPairs (k.transformed ds).pairs

/-- The mode of the window, as the section asks for it. -/
def windowConfig (ds : List Standing) (target : CStr) : Configuration := { defaultConfig with
  startHidden := (lastRead ds target .startHidden).getD []
  startMinimized := (lastRead ds target .startMinimized).getD [] }

theorem entries_listed {ds : List Standing} {target : CStr} {array : Option StrArray}
    {x : Directive}
    (h : FieldValue.array array
      = .array ((lastRead ds target x).map fun v => ⟨listItems v, (listItems v).length⟩)) :
    entries array = listedNames ds target x := by
  injection h with h
  unfold entries listedNames
  rw [h]
  cases lastRead ds target x with
  | none => rfl
  | some v => exact StrArray.elems_mk _

/-- What `ini_callback` makes of such a section. -/
structure Offered (ds : List Standing) (target : CStr) (cmd precmd : List Seg)
    (config : Configuration) : Prop where
  found : config.found ≠ 0
  runs : config.cmd = template cmd
  preruns : config.precmd = template precmd
  userParam : config.userParam = []
  defaultPath : config.defaultPath = []
  replaceFile : config.replaceFile = []
  fileMustExist : config.fileMustExist = []
  lpadzero : entries config.lpadzero = listedNames ds target .lpadzero
  ltrimzero : entries config.ltrimzero = listedNames ds target .ltrimzero
  mode : windowMode config = windowMode (windowConfig ds target)

/-- **The section of a link**, read from the document. -/
theorem offered_of_offers (fresh : Nat → StrArray) {l : IniLayout} (mark : Bool) {d : IniDocument}
    (hshort : l.Short d) {parsed : TUri} {cmd precmd : List Seg}
    (h : Offers d.directives (sectionName parsed) cmd precmd) :
    ∃ config, lookupSection fresh parsed (l.render mark d) = (0, config)
      ∧ Offered d.directives (sectionName parsed) cmd precmd config := by
  have hds : iniDirectives (l.render mark d) = d.directives := render_directives l mark d hshort
  have hret : (lookupSection fresh parsed (l.render mark d)).1 = 0 :=
    (render_accepted l mark d hshort (nthCallback fresh) (0, sectionConfig parsed)).mpr
      (read_accepted fresh d.directives 0 (sectionConfig parsed) h.known)
  have hfound : (lookupSection fresh parsed (l.render mark d)).2.found ≠ 0 := by
    rw [read_found, hds]
    have hsome := h.runs
    unfold lastRead at hsome
    obtain ⟨s, hs, -⟩ := List.mem_map.mp (List.mem_of_getLast? hsome)
    obtain ⟨hmem, hread⟩ := List.mem_filter.mp hs
    exact ⟨s, hmem, .cmd, of_decide_eq_true hread⟩
  -- a field is the last value for it
  have hfield : ∀ {x : Directive} {value text : CStr}, x ≠ .ltrimzero ∧ x ≠ .lpadzero →
      x.get (lookupSection fresh parsed (l.render mark d)).2 = .text value →
      (lastRead d.directives (sectionName parsed) x).getD [] = text → value = text := by
    intro x value text hx hget htext
    rw [read_text fresh parsed (l.render mark d) (fun hlist => hlist.elim hx.1 hx.2), hds] at hget
    injection hget with hget
    rw [← hget, htext]
  have hlist : ∀ {x : Directive} {array : Option StrArray}, x.IsList →
      x ∈ [Directive.lpadzero, .ltrimzero] →
      x.get (lookupSection fresh parsed (l.render mark d)).2 = .array array →
      entries array = listedNames d.directives (sectionName parsed) x := by
    intro x array hx hmem hget
    rw [read_list fresh parsed (l.render mark d) hx (by rw [hds]; exact h.items x hmem), hds]
      at hget
    exact entries_listed hget.symm
  have hhidden := hfield (x := .startHidden) (by decide) rfl rfl
  have hminimized := hfield (x := .startMinimized) (by decide) rfl rfl
  refine ⟨_, Prod.ext hret rfl, {
    found := hfound
    runs := hfield (x := .cmd) (by decide) rfl (by rw [h.runs]; rfl)
    preruns := hfield (x := .precmd) (by decide) rfl h.preruns
    userParam := hfield (x := .userParam) (by decide) rfl (h.unused _ (by decide))
    defaultPath := hfield (x := .defaultPath) (by decide) rfl (h.unused _ (by decide))
    replaceFile := hfield (x := .replaceFile) (by decide) rfl (h.unused _ (by decide))
    fileMustExist := hfield (x := .fileMustExist) (by decide) rfl (h.unused _ (by decide))
    lpadzero := hlist (x := .lpadzero) (by decide) (by decide) rfl
    ltrimzero := hlist (x := .ltrimzero) (by decide) (by decide) rfl
    mode := ?_ }⟩
  unfold windowMode windowConfig
  rw [hhidden, hminimized]

/-- **WHAT A LINK STARTS**: the templates of its section, filled with its
parameters behind the transforms, and nothing else.  The section is known and
has room for what it expands to, and all of the run is defined. -/
theorem link_starts (curlEscape : CStr → CStr) (p : Platform) {r : MainRun} {l : IniLayout}
    {mark : Bool} {d : IniDocument} {k : Link} {cfg : GlobalConfiguration} {cmd precmd : List Seg}
    (hshort : l.Short d) (hconf : Configured r (l.render mark d) cfg) (huri : r.uri = k.uri)
    (hoffers : Offers d.directives k.section cmd precmd)
    (hpadded : (k.transformed d.directives).ret = 0)
    (hcmd : Fillable (r.expandMem .cmd) r.env (k.filled d.directives) cmd)
    (hprecmd : Fillable (r.expandMem .precmd) r.env (k.filled d.directives) precmd)
    (hdefined : AllDefined (launchMain curlEscape p r).1) :
    let cmdline := expansion (r.expandMem .cmd) r.env (k.filled d.directives) 0 cmd
    let precmdline := expansion (r.expandMem .precmd) r.env (k.filled d.directives) 0 precmd
    r.isExecutable (getexe cmdline) = true →
      (launchMain curlEscape p r).1
        = startEffects p (windowConfig d.directives k.section) precmdline cmdline := by
  intro cmdline precmdline hexe
  obtain ⟨parsed, hparsed, hsection, hpairs⟩ := link_parsed k r.uriMem
  rw [← huri] at hparsed
  rw [← hsection] at hoffers
  obtain ⟨config, hlookup, hconfig⟩ := offered_of_offers r.fresh mark hshort hoffers
  rw [hsection] at hconfig
  -- the parameters behind the transforms
  have hrun : (transformedQuery config parsed.nvquery).1 = k.transformed d.directives := by
    show transformStages (entries config.lpadzero) (entries config.ltrimzero)
      parsed.nvquery.pairs = _
    rw [hconfig.lpadzero, hconfig.ltrimzero, hpairs]
    rfl
  have hquery : (k.filled d.directives).pairs
      = (transformedQuery config parsed.nvquery).2.pairs := by
    rw [pairs_transformedQuery (uriparse_query_wf hparsed) (by rw [hrun]; exact hpadded), hrun]
    exact pairs_ofPairs _
  have hnil : ∀ which query, r.Becomes which query [] [] := fun which query =>
    becomes_nil (r.expandMem which) r.env query
  have hcleared : Cleared r ⟨l.render mark d, cfg, parsed, config, template cmd, template precmd,
      [], (transformedQuery config parsed.nvquery).2, cmdline, precmdline⟩ := {
    mode := modeSwitches_of_accepted hparsed
    configured := hconf
    parsed := hparsed
    selected := hlookup
    found := hconfig.found
    chosen := by
      rw [← hconfig.runs, ← hconfig.preruns]
      exact .plain hconfig.userParam
    command := hoffers.nonempty
    defaultPath := ⟨[], by rw [hconfig.defaultPath]; exact hnil _ _⟩
    fileThere := ⟨[], by rw [hconfig.fileMustExist]; exact hnil _ _, Or.inl rfl⟩
    replaced := .none (by rw [hconfig.replaceFile]; exact hnil _ _)
    padded := by rw [hrun]; exact hpadded
    query := rfl
    cmd := (becomes_template hcmd).of_pairs hquery
    precmd := by
      show if template precmd = [] then precmdline = [] else r.Becomes .precmd _ _ precmdline
      split
      · next hempty => exact expansion_empty _ _ _ 0 hempty
      · exact (becomes_template hprecmd).of_pairs hquery
    executable := hexe }
  rw [(launch_of_cleared curlEscape hcleared hdefined).1, List.nil_append]
  exact startEffects_congr p hconfig.mode precmdline cmdline

theorem isName_ltrimzero : IniName (bytes "ltrimzero") :=
  ⟨⟨_, _, rfl, by decide⟩, by decide, by decide, by decide +kernel,
    noComment_of_not_mem (by decide), by decide⟩

theorem isValue_n : IniValue (bytes "n") :=
  ⟨by decide, by decide, by decide, noComment_of_not_mem (by decide), by decide⟩

theorem isValue_run : IniValue (template [.lit (bytes "run "), .ph (bytes "n")]) :=
  ⟨by decide, by decide, by decide, noComment_of_not_mem (by decide), by decide⟩

theorem isTitle_H : IniTitle (bytes "H") :=
  ⟨by decide, by decide, noComment_of_not_mem (by decide)⟩

/-- An entry on one line. -/
def IniEntry.ofLine {name value : CStr} (hname : IniName name) (hvalue : IniValue value) :
    IniEntry :=
  ⟨name, value, [], hname, hvalue, fun _ h => absurd h List.not_mem_nil, fun h => absurd rfl h⟩

/-- The command has the placeholder `n`, which is trimmed. -/
def trimmedDocument : IniDocument where
  top := []
  sections := [⟨bytes "H", [.ofLine cmdEntry.isName isValue_run,
    .ofLine isName_ltrimzero isValue_n], isTitle_H⟩]

/-- `ph://h?n=%307`. -/
def trimmedLink : Link where
  proto := bytes "ph"
  slashes := true
  host := bytes "h"
  path := none
  params := [⟨bytes "n", bytes "07"⟩]
  encs := [bytes "n=%307"]
  fragment := none
  proto_free := by decide +kernel
  host_ne := by decide
  host_free := by decide +kernel
  path_free := fun p h => absurd h (Option.not_mem_none p)
  encoded := .cons ⟨bytes "n", bytes "%307",
    .cons (.literal _ (by decide) (by decide) (by decide) (by decide)) .nil,
    .cons (.escaped _ _ _ (Or.inl (by decide)) (Or.inl (by decide)))
      (.cons (.literal _ (by decide) (by decide) (by decide) (by decide)) .nil), rfl⟩ .nil
  unmarked := by decide
  texts := by decide
  few := by decide
  fragment_ne := fun f h => absurd h (Option.not_mem_none f)

/-- The array `out` has the bytes it is declared with. -/
def trimmedRun : MainRun := { plainRun trimmedLink.uri with
  iniContent := some (crlfLayout.render true trimmedDocument)
  isExecutable := fun _ => true
  outSlack := 0 }

/-- The link starts the command with the trimmed number. -/
theorem link_starts_trimmed :
    (launchMain percentEscape .posix trimmedRun).1
      = [.system (bytes "/usr/bin/env sh -c 'run 7' &")] := by
  have hconf : Configured trimmedRun (crlfLayout.render true trimmedDocument) defaultGconfig :=
    ⟨by decide +kernel, fun h => absurd h (by decide), rfl, by decide +kernel,
      ⟨[], _, becomes_nil _ _ _, rfl, rfl⟩, ⟨_, _, rfl, rfl, rfl⟩, ⟨_, _, rfl, rfl, rfl⟩⟩
  have hoffers : Offers trimmedDocument.directives trimmedLink.section
      [.lit (bytes "run "), .ph (bytes "n")] [] := by
    refine ⟨?_, by decide +kernel, by decide, by decide +kernel, by decide +kernel,
      by decide +kernel⟩
    intro d hd _
    rcases List.mem_pair.mp hd with rfl | rfl
    · exact ⟨.cmd, by decide +kernel⟩
    · exact ⟨.ltrimzero, by decide +kernel⟩
  have hstart : (bytes "n").head? ≠ some (ascii '=') := by decide
  have hknown : (findVarValue trimmedRun.env (trimmedLink.filled trimmedDocument.directives)
      (bytes "n")).isSome = true := by decide +kernel
  have hline : expansion (trimmedRun.expandMem .cmd) trimmedRun.env
      (trimmedLink.filled trimmedDocument.directives) 0 [.lit (bytes "run "), .ph (bytes "n")]
      = bytes "run 7" := by decide +kernel
  have hstarts := link_starts percentEscape .posix (l := crlfLayout)
    (by unfold IniLayout.Short; decide +kernel) hconf rfl hoffers (by decide +kernel)
    ⟨⟨by decide, by decide, ⟨by decide, by decide, by decide⟩, trivial⟩, by simpa using hstart,
      by simpa using fun _ => hknown, by rw [hline]; decide⟩
    ⟨trivial, by simp, by simp, by decide⟩ (by decide +kernel) rfl
  rw [hline] at hstarts
  exact hstarts

end Protohand
