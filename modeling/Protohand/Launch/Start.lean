/-
  Protohand.Launch.Start
  ──────────────────────
  **FROM THE CALL OF THE PROGRAM TO ITS DIRECTORY**: `exedir` of lib/mydir.c, in
  front of the stages of `main`.

  The configuration, the log and the error page all stand in the directory that
  `exedir` makes from `argv[0]`.  `realpath` is a parameter.

    • `cutName_last`, `cutName_none` — what is left without the name of the program,
    • `exedir_found`                 — the directory that is found,
    • `program_anywhere`             — a run depends on the program's own file, and
                                       not on where and how it was called.
-/
import Protohand.Launch.Def
import Protohand.Lib.Path
import Protohand.Messages.Fit

namespace Protohand

/-! ## §1. `exedir`. -/

/-- What `exedir` asks the system for. -/
structure DirCalls where
  /-- `getcwd`. -/
  getcwd : Option CStr
  /-- What `cleaned` holds behind the call of `realpath`. -/
  realpath : CStr → CStr
  /-- `errno` behind it; a call that succeeds may set it too. -/
  errno : CStr → Nat

/-- `tmp`, with `cwd` in front of a path that is not absolute. -/
def startPath (cwd argv0 : CStr) : CStr :=
  let argv0 := fwdslash argv0
  if argv0[1]? = some (ascii ':') ∨ argv0[0]? = some (ascii '/') then argv0
  else fwdslash (cwd ++ [ascii '/']) ++ argv0

/-- `for (i=l; i>0; i--)`, up to the first `/` it meets. -/
def cutLoop (tmp : CStr) : Nat → CStr
  | 0 => tmp
  | i + 1 => if tmp[i + 1]? = some (ascii '/') then tmp.take (i + 2) else cutLoop tmp i

/-- `tmp` without the name of the program. -/
def cutName (tmp : CStr) : CStr := cutLoop tmp tmp.length

/-- `strcat(exedir, "/")`, where there is none at the end. -/
def withSlash (exedir : CStr) : CStr :=
  if exedir.getLast? = some (ascii '/') then exedir else exedir ++ [ascii '/']

/-- `exedir`: the code it returns, or what it leaves in `exedir`. -/
def exedir (calls : DirCalls) (argv0 : CStr) : Except Nat CStr :=
  match calls.getcwd with
  | none => .error 1
  | some cwd =>
      let tmp := cutName (startPath cwd argv0)
      if calls.errno tmp ≠ 0 then .error 2 else .ok (withSlash (fwdslash (calls.realpath tmp)))

/-- The arrays of `exedir` have room for its paths, and there are characters
where it looks at one. -/
def DirCalls.defined (calls : DirCalls) (pathMax : Nat) (argv0 : CStr) : Bool :=
  calls.getcwd.all fun cwd =>
    let tmp := cutName (startPath cwd argv0)
    let cleaned := calls.realpath tmp
    decide (cwd.length + 1 < pathMax ∧ argv0 ≠ [] ∧ (startPath cwd argv0).length < pathMax
      ∧ (calls.errno tmp = 0 → cleaned ≠ [] ∧ cleaned.length < pathMax))

/-! ## §2. The name of the program. -/

theorem cutLoop_keeps {tmp : CStr} {i : Nat}
    (h : ∀ j, 1 ≤ j → j ≤ i → tmp[j]? ≠ some (ascii '/')) : cutLoop tmp i = tmp := by
  induction i with
  | zero => rfl
  | succ i ih =>
      rw [cutLoop, if_neg (h (i + 1) (by omega) (Nat.le_refl _))]
      exact ih fun j hj hji => h j hj (by omega)

/-- From the end to the last slash. -/
theorem cutLoop_cuts {tmp : CStr} {k i : Nat} (hk : 1 ≤ k) (hki : k ≤ i)
    (hat : tmp[k]? = some (ascii '/'))
    (hno : ∀ j, k < j → j ≤ i → tmp[j]? ≠ some (ascii '/')) :
    cutLoop tmp i = tmp.take (k + 1) := by
  induction i with
  | zero => omega
  | succ i ih =>
      by_cases hlast : k = i + 1
      · subst hlast
        rw [cutLoop, if_pos hat]
      · rw [cutLoop, if_neg (hno (i + 1) (by omega) (Nat.le_refl _))]
        exact ih (by omega) fun j hj hji => hno j hj (by omega)

/-- **A NAME BEHIND A SLASH IS CUT OFF**, where something stands in front. -/
theorem cutName_last {dir name : CStr} (hdir : dir ≠ []) (hname : ascii '/' ∉ name) :
    cutName (dir ++ ascii '/' :: name) = dir ++ [ascii '/'] := by
  have hpos : 1 ≤ dir.length := List.length_pos_iff.mpr hdir
  have hcut : cutName (dir ++ ascii '/' :: name)
      = (dir ++ ascii '/' :: name).take (dir.length + 1) := by
    refine cutLoop_cuts hpos (by simp) (by simp) fun j hj _ hat => hname ?_
    -- a slash further behind would be one of the name
    have hin : (ascii '/' :: name)[j - dir.length]? = some (ascii '/') := by
      rw [← hat, List.getElem?_append_right (by omega)]
    obtain ⟨n, hn⟩ : ∃ n, j - dir.length = n + 1 := ⟨j - dir.length - 1, by omega⟩
    rw [hn, List.getElem?_cons_succ] at hin
    exact List.mem_of_getElem? hin
  rw [hcut, List.take_append]
  simp

/-- A slash in front of all is not met. -/
theorem cutName_none {tmp : CStr} (h : ascii '/' ∉ tmp.tail) : cutName tmp = tmp := by
  refine cutLoop_keeps fun j hj _ hat => h ?_
  obtain ⟨n, rfl⟩ : ∃ n, j = n + 1 := ⟨j - 1, by omega⟩
  cases tmp with
  | nil => cases hat
  | cons c tmp => exact List.mem_of_getElem? hat

/-! ## §3. Directories. -/

/-- The components that a path does not enter. -/
def isHere (c : CStr) : Bool := c.isEmpty || c == bytes "."

/-- The directories that a path leads through, behind its first slash. -/
def resolved (path : CStr) : List CStr :=
  Path.resolve isHere (bytes "..") ((Text.after (ascii '/') path).splitOn (ascii '/'))

/-- A path that is resolved, with a slash behind every directory; in front of
the first stands the drive, if there is one. -/
def dirPath (drive : CStr) (dirs : List CStr) : CStr :=
  drive ++ ascii '/' :: dirs.flatMap (· ++ [ascii '/'])

/-- The call of `realpath` resolves the path, up to a slash at its end. -/
def DirCalls.Resolves (calls : DirCalls) (path : CStr) : Prop :=
  withSlash (fwdslash (calls.realpath path))
    = dirPath (Text.before (ascii '/') path) (resolved path)

/-- A path with a name behind it. -/
theorem resolved_name (dir : CStr) {name : CStr} (hname : ascii '/' ∉ name) :
    resolved (dir ++ ascii '/' :: name)
      = Path.step isHere (bytes "..") (resolved (dir ++ [ascii '/'])) name := by
  by_cases hdir : ascii '/' ∈ dir
  · have hafter : ∀ x, Text.after (ascii '/') (dir ++ ascii '/' :: x)
        = Text.after (ascii '/') dir ++ ascii '/' :: x := by
      intro x
      conv_lhs => rw [← Text.before_append_after hdir]
      rw [List.append_assoc, List.cons_append, Text.after_append_cons (Text.not_mem_before _ _)]
    unfold resolved
    rw [hafter, hafter, List.splitOn_append_cons_self, List.splitOn_append_cons_self,
      List.splitOn_eq_singleton hname, Path.resolve_concat, List.splitOn_nil,
      Path.resolve_concat_skipped rfl]
  · unfold resolved
    rw [Text.after_append_cons hdir, Text.after_append_cons hdir,
      List.splitOn_eq_singleton hname]
    rfl

/-- The path leads to the file `name` in these directories, and ends in its name. -/
structure LeadsTo (path drive : CStr) (dirs : List CStr) (name : CStr) : Prop where
  ends : ∃ dir, path = dir ++ ascii '/' :: name
  name_free : ascii '/' ∉ name
  name_entered : Path.Entered isHere (bytes "..") name
  drive_eq : Text.before (ascii '/') path = drive
  resolved_eq : resolved path = dirs ++ [name]

/-- The directories that `exedir` finds.  The slash of the root is not met, so
there the name is not cut off. -/
def foundDirs (path : CStr) (dirs : List CStr) (name : CStr) : List CStr :=
  if path = ascii '/' :: name then dirs ++ [name] else dirs

/-- **The path that is resolved**, and what it is resolved to. -/
theorem cutName_resolved {path drive name : CStr} {dirs : List CStr}
    (h : LeadsTo path drive dirs name) :
    Text.before (ascii '/') (cutName path) = drive
      ∧ resolved (cutName path) = foundDirs path dirs name := by
  obtain ⟨⟨dir, hpath⟩, hname, hentered, hdrive, hresolved⟩ := h
  unfold foundDirs
  -- only the slash of the root is left standing
  by_cases hdir : dir = []
  · subst hdir
    rw [List.nil_append] at hpath
    subst hpath
    have hcut : cutName (ascii '/' :: name) = ascii '/' :: name := cutName_none hname
    rw [hcut, if_pos rfl]
    exact ⟨hdrive, hresolved⟩
  · have hroot : path ≠ ascii '/' :: name := by
      intro heq
      rw [hpath] at heq
      have hlen := congrArg List.length heq
      rw [List.length_append] at hlen
      exact hdir (List.length_eq_zero_iff.mp (by omega))
    rw [if_neg hroot]
    have hcut : cutName path = dir ++ [ascii '/'] := by
      rw [hpath]
      exact cutName_last hdir hname
    refine ⟨?_, ?_⟩
    · rw [hcut, ← hdrive, hpath]
      by_cases hslash : ascii '/' ∈ dir
      · rw [← Text.before_append_after hslash, List.append_assoc, List.append_assoc,
          List.cons_append, List.cons_append, Text.before_append_cons (Text.not_mem_before _ _),
          Text.before_append_cons (Text.not_mem_before _ _)]
      · rw [Text.before_append_cons hslash, Text.before_append_cons hslash]
    · rw [hpath, resolved_name dir hname, Path.step_of_entered hentered] at hresolved
      rw [hcut]
      exact (List.append_inj' hresolved rfl).1

/-- **WHAT `exedir` FINDS**, where `errno` is as it set it. -/
theorem exedir_found {calls : DirCalls} {cwd argv0 drive name : CStr} {dirs : List CStr}
    (hcwd : calls.getcwd = some cwd) (hfile : LeadsTo (startPath cwd argv0) drive dirs name)
    (hreal : calls.Resolves (cutName (startPath cwd argv0))) :
    exedir calls argv0 = if calls.errno (cutName (startPath cwd argv0)) = 0
      then .ok (dirPath drive (foundDirs (startPath cwd argv0) dirs name)) else .error 2 := by
  obtain ⟨hdrive, hdirs⟩ := cutName_resolved hfile
  have hclean : withSlash (fwdslash (calls.realpath (cutName (startPath cwd argv0))))
      = dirPath drive (foundDirs (startPath cwd argv0) dirs name) := by
    rw [hreal, hdrive, hdirs]
  unfold exedir
  rw [hcwd]
  dsimp only
  by_cases herrno : calls.errno (cutName (startPath cwd argv0)) = 0
  · rw [if_neg (not_not.mpr herrno), if_pos herrno, hclean]
  · rw [if_pos herrno, if_neg herrno]

/-! ## §4. The program. -/

def NO_CURRENTDIR : Nat := 2

section Program

variable (curlEscape : CStr → CStr) (p : Platform)

/-- Without a directory the program ends before `PH_HOME` is set, and
`display_error` is not defined without one. -/
def noDirectory (uri : CStr) (getenv : Env) : LaunchResult :=
  match getenv (bytes "PH_HOME") with
  | none => ([.undefined], .error none)
  | some phHome =>
      let call : ErrorCall := ⟨NO_CURRENTDIR, some uri, none, [], phHome, getenv⟩
      (call.effects curlEscape p, .error (some call))

/-- The program, called as `argv0` with a URI. -/
def program (calls : DirCalls) (pathMax : Nat) (argv0 uri : CStr) (getenv : Env)
    (run : CStr → MainRun) : LaunchResult :=
  if calls.defined pathMax argv0 = false then ([.undefined], .error none)
  else
    match exedir calls argv0 with
    | .error _ => noDirectory curlEscape p uri getenv
    | .ok dir => launchMain curlEscape p
        { run dir with uri := uri, getenv := getenv, dir := dir, pathMax := pathMax }

/-- **A RUN DEPENDS ON THE FILE OF THE PROGRAM**, and not on where and how it
was called: whatever working directory and `argv[0]` lead there, it runs as it
is installed, unless it is called as a file of the root; in the directory it
finds all is resolved.  Where `realpath` leaves an `errno`, it does not run. -/
theorem program_anywhere {calls : DirCalls} {cwd argv0 drive name : CStr} {dirs : List CStr}
    {pathMax : Nat} (hroom : calls.defined pathMax argv0 = true) (hcwd : calls.getcwd = some cwd)
    (hfile : LeadsTo (startPath cwd argv0) drive dirs name)
    (hreal : calls.Resolves (cutName (startPath cwd argv0))) (uri : CStr) (getenv : Env)
    (run : CStr → MainRun) :
    let found := dirPath drive (foundDirs (startPath cwd argv0) dirs name)
    program curlEscape p calls pathMax argv0 uri getenv run
        = (if calls.errno (cutName (startPath cwd argv0)) = 0 then launchMain curlEscape p
            { run found with uri := uri, getenv := getenv, dir := found, pathMax := pathMax }
          else noDirectory curlEscape p uri getenv)
      ∧ ∀ dir ∈ dirs ++ [name], Path.Entered isHere (bytes "..") dir := by
  refine ⟨?_, ?_⟩
  · unfold program
    rw [hroom, if_neg (by decide), exedir_found hcwd hfile hreal]
    by_cases herrno : calls.errno (cutName (startPath cwd argv0)) = 0
    · rw [if_pos herrno, if_pos herrno]
    · rw [if_neg herrno, if_neg herrno]
  · rw [← hfile.resolved_eq]
    exact Path.mem_resolve _

end Program

/-- A working directory, and the paths that `GetFullPathNameA` gives for directories
that are there. -/
def callsIn (cwd : CStr) : DirCalls where
  getcwd := some cwd
  realpath path :=
    (dirPath (Text.before (ascii '/') path) (resolved path)).map fun c =>
      if c = ascii '/' then ascii '\\' else c
  errno _ := 0

/-- Called from a directory below, with backslashes. -/
theorem program_anywhere_below :
    program id .mingw (callsIn (bytes "C:\\ph\\doc")) 260 (bytes "..\\.\\ph.exe") (bytes "a:h")
        (fun _ => none) (fun _ => plainRun (bytes "a:h"))
      = launchMain id .mingw { plainRun (bytes "a:h") with
          getenv := fun _ => none, dir := bytes "C:/ph/" } := by
  have hpath : startPath (bytes "C:\\ph\\doc") (bytes "..\\.\\ph.exe")
      = bytes "C:/ph/doc/../." ++ ascii '/' :: bytes "ph.exe" := by decide +kernel
  have hfile : LeadsTo (startPath (bytes "C:\\ph\\doc") (bytes "..\\.\\ph.exe"))
      (bytes "C:") [bytes "ph"] (bytes "ph.exe") :=
    ⟨⟨_, hpath⟩, by decide +kernel, by decide +kernel, by decide +kernel, by decide +kernel⟩
  have hreal : (callsIn (bytes "C:\\ph\\doc")).Resolves
      (cutName (startPath (bytes "C:\\ph\\doc") (bytes "..\\.\\ph.exe"))) := by
    unfold DirCalls.Resolves
    decide +kernel
  have hroom : (callsIn (bytes "C:\\ph\\doc")).defined 260 (bytes "..\\.\\ph.exe") = true := by
    decide +kernel
  have hrun := (program_anywhere id .mingw hroom rfl hfile hreal (bytes "a:h") (fun _ => none)
    fun _ => plainRun (bytes "a:h")).1
  have hfound : dirPath (bytes "C:") (foundDirs
      (startPath (bytes "C:\\ph\\doc") (bytes "..\\.\\ph.exe")) [bytes "ph"] (bytes "ph.exe"))
      = bytes "C:/ph/" := by decide +kernel
  rw [hfound] at hrun
  exact hrun

end Protohand
