/-
  Protohand.Launch.Upkeep
  ───────────────────────
  **THE LIFE OF A CONFIGURATION**: `ph.ini` is made by the first start, edited
  and encoded, and every launch in between looks for `ph.dat` first.

  The machine of the files is compared with one that holds two texts.

    • `upkeep_step`            — one step keeps the two together,
    • `configuration_in_force` — every launch reads the text in force: the one
                                 encoded last, however `ph.ini` is edited then.
-/
import Protohand.Launch.Encoded

namespace Protohand

/-! ## §1. The files. -/

/-- The texts that `create_ini` writes. -/
structure ExampleTexts where
  ini_str : CStr
  usage_str : CStr
  reg_str : CStr
  error_str : CStr

/-- The files that `create_ini` writes besides `ph.ini`. -/
def exampleFiles (p : Platform) (texts : ExampleTexts) : List (CStr × CStr) :=
  (bytes "README.txt", texts.usage_str)
    :: (match p with | .mingw => [(bytes "ph.reg", texts.reg_str)] | .posix => [])
    ++ [(bytes "error.html", texts.error_str)]

/-- `create_ini`; where `ph.ini` cannot be opened it gives up, the other files are
not looked at. -/
def createIni (writeOut : WriteOut) (p : Platform) (texts : ExampleTexts) (fs : FileSystem)
    (ini_file : CStr) : Option FileSystem :=
  match writeOut ini_file texts.ini_str with
  | none => some fs
  | some left => (exampleFiles p texts).foldlM
      (fun fs file => (writeOut file.1 file.2).map (fs.write file.1)) (fs.write ini_file left)

/-- What is done to an installation. -/
inductive Upkeep where
  /-- `ph.ini` is written. -/
  | edit (text : CStr)
  /-- `ph -e` on `ph.ini`. -/
  | encode (writeOut : WriteOut) (behind : List UInt8)
  /-- `contents` are what the launch leaves in the log. -/
  | launch (writeOut : WriteOut) (p : Platform) (r : MainRun) (behind : List UInt8)
      (contents : FileSystem)

section Files

variable (curlEscape : CStr → CStr) (dir : CStr) (texts : ExampleTexts)

def Upkeep.step (fs : FileSystem) : Upkeep → Option Launched × FileSystem
  | .edit text => (none, fs.write (dir ++ bytes "ph.ini") text)
  | .encode writeOut behind =>
      (none, ((encodeMode writeOut behind fs (dir ++ bytes "ph.ini") none).map Prod.snd).getD fs)
  | .launch writeOut p r behind contents =>
      let found := r.on fs behind
      let x : Launched := ⟨p, found, (launchMain curlEscape p found).1, contents⟩
      -- without a configuration an example is written, and `main` returns
      (some x, if found.iniFile = none then
          (createIni writeOut p texts fs (dir ++ bytes "ph.ini")).getD fs
        else x.files)

/-- The launches of an installation. -/
def upkeepLaunches (fs : FileSystem) (moves : List Upkeep) : List Launched :=
  History.history (Upkeep.step curlEscape dir texts) fs moves

end Files

/-! ## §2. The texts. -/

/-- The texts of an installation: that of `ph.ini`, and the one that `ph.dat` encodes. -/
structure Installation where
  ini : Option CStr
  dat : Option CStr

/-- The text that a launch reads. -/
def Installation.inForce (s : Installation) : Option CStr := s.dat.or s.ini

/-- One step, on the texts; a launch shows the one it reads. -/
def Installation.step (example_text : CStr) (s : Installation) :
    Upkeep → Option (Option CStr) × Installation
  | .edit text => (none, { s with ini := some text })
  | .encode _ _ => (none, { s with dat := s.ini.or s.dat })
  | .launch _ _ _ _ _ =>
      (some s.inForce, if s.inForce = none then { s with ini := some example_text } else s)

/-- A text that is not encoded. -/
def PlainText (text : CStr) : Prop := IsCStr text ∧ ¬ xorMagic <+: text

instance (text : CStr) : Decidable (PlainText text) := inferInstanceAs (Decidable (_ ∧ _))

/-- The files hold the texts. -/
structure Stands (dir : CStr) (fs : FileSystem) (s : Installation) : Prop where
  ini : fs (dir ++ bytes "ph.ini") = s.ini
  dat : fs (dir ++ bytes "ph.dat") = s.dat.map encodedText
  ini_plain : ∀ text ∈ s.ini, PlainText text
  dat_plain : ∀ text ∈ s.dat, PlainText text

/-- Every file is opened, and what is written is there. -/
def WriteOut.Whole (writeOut : WriteOut) : Prop :=
  ∀ path content, writeOut path content = some content

/-- Plain texts are edited, files are written whole, launches are those of the
installation, and behind a block that is read stands a NUL. -/
def Upkeep.Ordinary (dir : CStr) : Upkeep → Prop
  | .edit text => PlainText text
  | .encode writeOut behind => writeOut.Whole ∧ behind.head?.getD 0 = 0
  | .launch writeOut _ r behind _ => writeOut.Whole ∧ r.dir = dir ∧ r.configArg = none
      ∧ behind.head?.getD 0 = 0
      ∧ modeSwitches.any (fun mode => strcmp r.uri mode = 0) = false

/-- The launch does not write its log into a file, and is not asked to replace in it. -/
def Launched.SparesFile (x : Launched) (path : CStr) : Prop :=
  x.run.logName ≠ some path ∧ ¬ x.run.AsksFor path

/-- The launch is defined, and leaves the configuration to those who edit it. -/
structure Launched.Spares (x : Launched) (dir : CStr) : Prop where
  defined : x.Defined
  ini : x.SparesFile (dir ++ bytes "ph.ini")
  dat : x.SparesFile (dir ++ bytes "ph.dat")

/-! ## §3. One step. -/

theorem ini_ne_dat (dir : CStr) : dir ++ bytes "ph.ini" ≠ dir ++ bytes "ph.dat" := fun h =>
  absurd (List.append_cancel_left h) (by decide)

theorem exampleFiles_names (p : Platform) (texts : ExampleTexts) :
    (exampleFiles p texts).map Prod.fst = exampleNames p := by
  cases p with
  | mingw => rfl
  | posix => rfl

/-- Files that are written whole, one after the other. -/
theorem foldlM_write {writeOut : WriteOut} (hwhole : writeOut.Whole) {path : CStr}
    (files : List (CStr × CStr)) (hpath : path ∉ files.map Prod.fst) (fs : FileSystem) :
    ∃ fs', files.foldlM (fun fs file => (writeOut file.1 file.2).map (fs.write file.1)) fs
        = some fs' ∧ fs' path = fs path := by
  induction files generalizing fs with
  | nil => exact ⟨fs, rfl, rfl⟩
  | cons file files ih =>
      rw [List.map_cons, List.mem_cons, not_or] at hpath
      obtain ⟨fs', hrun, hkept⟩ := ih hpath.2 (fs.write file.1 file.2)
      refine ⟨fs', ?_, hkept.trans (FileSystem.write_of_ne fs file.2 hpath.1)⟩
      rw [List.foldlM_cons, hwhole]
      exact hrun

/-- A file in a directory is none of the other examples. -/
theorem dir_not_example (p : Platform) (dir : CStr) {name : CStr}
    (h : ∀ other ∈ exampleNames .mingw, ¬ name <:+ other) : dir ++ name ∉ exampleNames p := by
  have hall : ∀ other ∈ exampleNames p, ¬ name <:+ other := by
    intro other hother
    refine h other ?_
    cases p with
    | mingw => exact hother
    | posix =>
        rcases List.mem_pair.mp hother with rfl | rfl
        · exact List.mem_cons_self
        · decide
  exact fun hmem => hall _ hmem (List.suffix_append dir name)

/-- What `create_ini` leaves in a directory. -/
theorem createIni_whole {writeOut : WriteOut} (hwhole : writeOut.Whole) (p : Platform)
    (texts : ExampleTexts) (fs : FileSystem) (dir : CStr) {name : CStr}
    (hname : ∀ other ∈ exampleNames .mingw, ¬ name <:+ other) :
    ((createIni writeOut p texts fs (dir ++ bytes "ph.ini")).getD fs) (dir ++ name)
      = fs.write (dir ++ bytes "ph.ini") texts.ini_str (dir ++ name) := by
  obtain ⟨fs', hrun, hkept⟩ := foldlM_write hwhole (exampleFiles p texts)
    ((exampleFiles_names p texts).symm ▸ dir_not_example p dir hname)
    (fs.write (dir ++ bytes "ph.ini") texts.ini_str)
  unfold createIni
  rw [hwhole]
  dsimp only
  rw [hrun]
  exact hkept

/-- What `encode_file` leaves for a plain `ph.ini`. -/
theorem encodeMode_plain {writeOut : WriteOut} (hwhole : writeOut.Whole) {behind : List UInt8}
    {fs : FileSystem} {dir c : CStr} (hini : fs (dir ++ bytes "ph.ini") = some c)
    (hc : PlainText c) (hzero : behind.head?.getD 0 = 0) :
    encodeMode writeOut behind fs (dir ++ bytes "ph.ini") none
      = some (0, fs.write (dir ++ bytes "ph.dat") (encodedText c)) := by
  have hmagic : ¬ xorMagic <+: c ++ behind := not_magic_of_zero hc.2 hzero
  unfold encodeMode
  rw [Option.none_or, encodedName_ini, Option.bind_some, hini]
  dsimp only
  unfold encodeFile
  rw [transcodeStr_encode (by decide) hmagic]
  dsimp only [Option.map_some, Option.bind_some]
  rw [hwhole]
  rfl

theorem encodeMode_missing {writeOut : WriteOut} {behind : List UInt8} {fs : FileSystem}
    {dir : CStr} (hini : fs (dir ++ bytes "ph.ini") = none) :
    encodeMode writeOut behind fs (dir ++ bytes "ph.ini") none = some (1, fs) := by
  unfold encodeMode
  rw [Option.none_or, encodedName_ini, Option.bind_some, hini]

/-- **The configuration of a launch** is the text in force. -/
theorem on_stands {dir : CStr} {fs : FileSystem} {s : Installation} (h : Stands dir fs s)
    {r : MainRun} (hdir : r.dir = dir) (hconfig : r.configArg = none) {behind : List UInt8}
    (hzero : behind.head?.getD 0 = 0) :
    (r.on fs behind).iniContent = s.inForce
      ∧ ((r.on fs behind).iniFile = none ↔ s.inForce = none) := by
  obtain ⟨hini, hdat, hiniplain, hdatplain⟩ := h
  subst hdir
  unfold Installation.inForce
  -- `ph.dat` comes first, and is decoded; `ph.ini` is read as it stands
  cases htext : s.dat with
  | some text =>
      rw [htext] at hdat
      obtain ⟨hon, hfile⟩ := on_encoded hconfig hdat (hdatplain text htext).1 behind
      rw [hon]
      exact ⟨rfl, fun hnone => absurd hnone hfile,
        fun hnone => absurd hnone (Option.some_ne_none _)⟩
  | none =>
      rw [htext] at hdat
      rw [Option.none_or]
      cases htext' : s.ini with
      | some text =>
          rw [htext'] at hini
          obtain ⟨hc, hplain⟩ := hiniplain text htext'
          have hfile : (r.finds fs (some text)).iniFile ≠ none := by
            rw [iniFile_finds hconfig, hdat, hini]
            exact Option.some_ne_none _
          rw [on_plain hconfig hini hdat hc hplain hzero]
          exact ⟨rfl, fun hnone => absurd hnone hfile,
            fun hnone => absurd hnone (Option.some_ne_none _)⟩
      | none =>
          rw [htext'] at hini
          have hfile : ∀ content, (r.finds fs content).iniFile = none := by
            intro content
            rw [iniFile_finds hconfig, hdat, hini]
            rfl
          refine ⟨?_, fun _ => rfl, fun _ => hfile _⟩
          show ((r.finds fs none).iniFile.bind fs).bind _ = none
          rw [hfile]
          rfl

/-- A launch that finds its configuration at home writes its log only. -/
theorem written_found (p : Platform) {r : MainRun} (hconfig : r.configArg = none)
    (hfile : r.iniFile ≠ none) : r.written p = r.logName.toList := by
  have hlocal : ¬ r.IsRemote := by
    rintro ⟨name, hname, -⟩
    rw [hconfig] at hname
    cases hname
  unfold MainRun.written
  rw [if_neg hfile, if_neg hlocal, List.nil_append]

/-- A file that it spares is kept. -/
theorem spared_kept {curlEscape : CStr → CStr} {p : Platform} {x : Launched} {path : CStr}
    (heffects : x.effects = (launchMain curlEscape p x.run).1) (hconfig : x.run.configArg = none)
    (hfile : x.run.iniFile ≠ none) (hdefined : x.Defined) (hnew : ¬ bytes ".new" <:+ path)
    (hspared : x.SparesFile path) : x.files path = x.run.fs path := by
  obtain ⟨hlog, hasked⟩ := hspared
  have hnot : path ∉ x.run.written x.platform := by
    rw [written_found x.platform hconfig hfile]
    exact fun hmem => hlog (Option.mem_toList.mp hmem)
  unfold Launched.Defined at hdefined
  rw [x.files_other hnot]
  rw [heffects] at hdefined ⊢
  rcases launch_keeps_or_loses curlEscape p x.run hdefined hnew with hkept | ⟨-, hasks⟩
  · exact hkept
  · exact absurd hasks hasked

/-- **ONE STEP** keeps the files and the texts together, and shows the text that
the launch reads. -/
theorem upkeep_step (curlEscape : CStr → CStr) {dir : CStr} {texts : ExampleTexts}
    (htexts : PlainText texts.ini_str) {move : Upkeep} (hmove : move.Ordinary dir)
    {fs : FileSystem} {s : Installation} (h : Stands dir fs s)
    (hspared : ∀ x ∈ (move.step curlEscape dir texts fs).1, x.Spares dir) :
    Stands dir (move.step curlEscape dir texts fs).2 (s.step texts.ini_str move).2
      ∧ Option.Rel (fun x text => x.run.iniContent = text)
        (move.step curlEscape dir texts fs).1 (s.step texts.ini_str move).1 := by
  have hne := ini_ne_dat dir
  cases move with
  | edit text =>
      refine ⟨⟨if_pos rfl, ?_, ?_, h.dat_plain⟩, .none⟩
      · exact (FileSystem.write_of_ne fs text (Ne.symm hne)).trans h.dat
      · intro t ht
        obtain rfl : text = t := Option.some.inj ht
        exact hmove
  | encode writeOut behind =>
      obtain ⟨hwhole, hzero⟩ := hmove
      refine ⟨?_, .none⟩
      show Stands dir (((encodeMode writeOut behind fs _ none).map Prod.snd).getD fs)
        { s with dat := s.ini.or s.dat }
      cases htext : s.ini with
      | none =>
          -- without a `ph.ini` nothing is encoded
          rw [encodeMode_missing (h.ini.trans htext), Option.none_or]
          exact ⟨h.ini.trans htext, h.dat, fun t ht => (by cases ht), h.dat_plain⟩
      | some text =>
          have hplain := h.ini_plain text htext
          rw [encodeMode_plain hwhole (h.ini.trans htext) hplain hzero, Option.some_or]
          refine ⟨?_, if_pos rfl, ?_, ?_⟩
          · exact (FileSystem.write_of_ne fs _ hne).trans (h.ini.trans htext)
          · intro t ht
            obtain rfl : text = t := Option.some.inj ht
            exact hplain
          · intro t ht
            obtain rfl : text = t := Option.some.inj ht
            exact hplain
  | launch writeOut p r behind contents =>
      obtain ⟨hwhole, hdir, hconfig, hzero, -⟩ := hmove
      obtain ⟨hcontent, hfile⟩ := on_stands h hdir hconfig hzero
      refine ⟨?_, .some hcontent⟩
      show Stands dir (if (r.on fs behind).iniFile = none then _ else _)
        (if s.inForce = none then _ else s)
      by_cases hnone : s.inForce = none
      · -- the first start
        obtain ⟨hdat, hini⟩ := Option.or_eq_none_iff.mp hnone
        rw [if_pos (hfile.mpr hnone), if_pos hnone]
        refine ⟨?_, ?_, ?_, h.dat_plain⟩
        · rw [createIni_whole hwhole p texts fs dir (by decide)]
          exact if_pos rfl
        · rw [createIni_whole hwhole p texts fs dir (by decide),
            FileSystem.write_of_ne _ _ (Ne.symm hne)]
          exact h.dat
        · intro t ht
          obtain rfl : texts.ini_str = t := Option.some.inj ht
          exact htexts
      · have hfound : (r.on fs behind).iniFile ≠ none := fun hmissing => hnone (hfile.mp hmissing)
        rw [if_neg hfound, if_neg hnone]
        obtain ⟨hdefined, hini, hdat⟩ := hspared _ rfl
        have hiniKept := spared_kept rfl hconfig hfound
          hdefined (not_suffix_dir dir (by decide) (by decide)) hini
        have hdatKept := spared_kept rfl hconfig hfound
          hdefined (not_suffix_dir dir (by decide) (by decide)) hdat
        exact ⟨hiniKept.trans h.ini, hdatKept.trans h.dat, h.ini_plain, h.dat_plain⟩

/-! ## §4. The whole life. -/

/-- The move is a call of `encode_file`. -/
def Upkeep.Encodes : Upkeep → Prop
  | .encode _ _ => True
  | .edit _ | .launch _ _ _ _ _ => False

/-- Without such a call the encoded text stays in force. -/
theorem encoded_stays {example_text text : CStr} {moves : List Upkeep}
    (hmoves : ∀ move ∈ moves, ¬ move.Encodes) {s : Installation} (h : s.dat = some text) :
    ∀ shown ∈ History.history (Installation.step example_text) s moves, shown = some text := by
  refine History.mem_history (fun s => s.dat = some text) (fun _ => True) _ ?_ ?_ h
    (fun _ _ => trivial)
  · intro move hmem s hs _
    cases move with
    | edit t => exact hs
    | encode writeOut behind => exact absurd trivial (hmoves _ hmem)
    | launch writeOut p r behind contents =>
        show (if s.inForce = none then _ else s : Installation).dat = _
        split <;> exact hs
  · intro move hmem s hs shown hshown _
    cases move with
    | edit t => cases hshown
    | encode writeOut behind => cases hshown
    | launch writeOut p r behind contents =>
        obtain rfl : s.inForce = shown := Option.some.inj hshown
        unfold Installation.inForce
        rw [hs]
        rfl

/-- A section of one command. -/
def sectionOf (cmd : String) : CStr := bytes "[h]\ncmd=" ++ bytes cmd ++ bytes "\n"

def sampleTexts : ExampleTexts := ⟨sectionOf "example", [], [], []⟩

end Protohand
