/-
  Protohand.CmdParser.Def
  ───────────────────────
  **lib/cmd_parser.c**: variables, conditionals, and the scanner that expands
  a command template.

  What the C code reads without having written it is an argument: `CondMem`
  holds what `parse_conditional` finds in front of its argument and behind
  the copy it makes of the second name, `RoundMem` what a round of
  `expand_vars` finds besides.  `append_resize` gets the address of the buffer
  by value: where its `realloc` moves the block, or makes it smaller than the
  text, `out` is lost, and from then on holds whatever memory holds there.
  `none`, `ExpandExit.crash` below, is a call that copies a negative number of
  bytes, or reads where it must not, and does not come back.
-/
import Protohand.StringLib
import Protohand.NvList

namespace Protohand

open Text

/-! ## §1. Constants. -/

def BLOCKSIZE : Nat := 4096

def EXP_ERR_NO_EQUAL : Nat := 1
def EXP_ERR_NO_COLON : Nat := 2
def EXP_ERR_QUERYNVVAR_NOT_FOUND : Nat := 5
def EXP_ERR_REALLOC : Nat := 6

/-! ## §2. Variables. -/

/-- The environment, as `getenv` shows it. -/
abbrev Env := CStr → Option CStr

/-- `find_var_value`: the value where the code returns `0`, `none` where it
returns `1`. -/
def findVarValue (getenv : Env) (query : NvList) (varname : CStr) : Option CStr :=
  if bytes "env." <+: varname then getenv (varname.drop 4)
  else (query.pairs.find? (fun p => strcmp p.key varname = 0)).map NvPair.value

/-! ## §3. Conditionals. -/

/-- `t_conditional`. -/
structure Conditional where
  var1 : CStr
  var2 : CStr
  sign : Int
  replace : CStr
  cmatch : Int
  deriving DecidableEq, Repr

/-- Memory that `parse_conditional` reads and did not write: the byte in front
of its argument, and the text behind the unterminated copy of `var2`. -/
structure CondMem where
  before : UInt8
  var2Tail : CStr

/-- `trim(s); while (*s == ' ') s++;` -/
def trimBlanks (s : CStr) : CStr := (trimInPlace s).dropWhile (· == ascii ' ')

/-- The reset at the start of `parse_conditional`. -/
def condReset : Conditional := ⟨[], [], 0, [], -1⟩

/-- The first `=` of a conditional: the sign it gives, and the index of the last
character of the operator. -/
def condOperator (mem : CondMem) (varname : CStr) : Option (Int × Nat) :=
  if ascii '=' ∈ varname then
    let ii := (before (ascii '=') varname).length
    -- `varname[ii-1]` lies in front of the string where the `=` comes first
    let last := if ii = 0 then mem.before else varname.getD (ii - 1) 0
    -- skip second equal
    let pos := if varname[ii + 1]? = some (ascii '=') then ii + 1 else ii
    some (if last = ascii '!' then -1 else 1, pos)
  else none

/-- The two lookups, and the comparison. -/
def condCompare (getenv : Env) (query : NvList) (cond : Conditional) : Nat × Conditional :=
  match findVarValue getenv query cond.var1, findVarValue getenv query cond.var2 with
  | some value1, some value2 =>
      if (cond.sign = 1 ∧ strcmpLcase value1 value2 = 0)
          ∨ (cond.sign = -1 ∧ strcmpLcase value1 value2 ≠ 0) then
        (0, { cond with cmatch := 1 })
      else (0, cond)
  | _, _ => (EXP_ERR_QUERYNVVAR_NOT_FOUND, cond)

/-- `parse_conditional`: the code it returns and what `cond` holds then. -/
def parseConditional (mem : CondMem) (getenv : Env) (query : NvList) (varname : CStr) :
    Option (Nat × Conditional) :=
  match condOperator mem varname with
  | none => some (EXP_ERR_NO_EQUAL, condReset)
  | some (sign, pos) =>
      -- the length `v1l` would be -1
      if sign < 0 ∧ pos = 0 then none
      else
        let v1l := if sign < 0 then pos - 1 else pos
        let cond := { condReset with sign := sign, var1 := trimBlanks (varname.take v1l) }
        let rest := varname.drop (pos + 1)
        if ascii ':' ∈ rest then
          some (condCompare getenv query { cond with
            -- the copy of the second name is not terminated
            var2 := trimBlanks (before (ascii ':') rest ++ mem.var2Tail)
            replace := trimBlanks (after (ascii ':') rest) })
        else some (EXP_ERR_NO_COLON, cond)

/-! ## §4. The growing buffer. -/

/-- What a round of `expand_vars` finds in memory. -/
structure RoundMem extends CondMem where
  /-- `realloc` moves a block that has to become larger. -/
  moves : Bool
  /-- The text at `out` where the buffer is lost; none if the program ends there. -/
  stale : Option CStr

/-- Memory that holds zeros, and an allocator that moves no block. -/
def plainMem : Nat → RoundMem := fun _ => ⟨⟨0, []⟩, false, none⟩

/-- The capacity `append_resize` returns, for texts of these lengths.  `/` of C
rounds towards zero; `realloc` fails for a size that is not positive. -/
def appendCapacity (string append : Nat) (bufflength : Int) : Int :=
  let new_l : Int := string + append + 1
  if new_l > bufflength then
    let diff := bufflength - new_l
    -- `diff` is negative: the block grows by one block at most
    let add := Int.tdiv diff BLOCKSIZE * BLOCKSIZE + BLOCKSIZE
    if bufflength + add ≤ 0 then 0 else bufflength + add
  else bufflength

/-- The bytes behind the address that `append_resize` writes to. -/
def appendBlock (string append : Nat) (bufflength block : Int) : Int :=
  if (string + append + 1 : Int) > bufflength then appendCapacity string append bufflength
  else block

/-- The caller of `append_resize` loses its text: `realloc` moves the block, and
only the copy of the pointer is set, or `strcat` leaves the block.  A block is
not moved for less than it has. -/
def appendLoses (moves : Bool) (string append : Nat) (bufflength block : Int) : Bool :=
  let new_l : Int := string + append + 1
  let size := appendCapacity string append bufflength
  decide (new_l > bufflength) && ((moves && decide (block < size)) || decide (size < new_l))

/-- What `append_resize` leaves: its result, the text it has built, the bytes
of the block it has built it in, and whether its caller has lost it. -/
structure AppendResult where
  ret : Int
  text : CStr
  block : Int
  lost : Bool
  deriving DecidableEq, Repr

/-- `append_resize`, for a `string` in a block of `block` bytes. -/
def appendResize (moves : Bool) (string append : CStr) (bufflength block : Int) : AppendResult :=
  let ret := appendCapacity string.length append.length bufflength
  if ret = 0 then ⟨0, string, block, false⟩
  else ⟨ret, string ++ append, appendBlock string.length append.length bufflength block,
    appendLoses moves string.length append.length bufflength block⟩

/-! ## §5. `expand_vars`. -/

/-- Where the scanning loop is in the template. -/
structure ExpandFlags where
  isOpen : Bool
  start : Nat
  hasColon : Bool
  hasEqual : Bool
  deriving DecidableEq, Repr

/-- What the scanning loop has written. -/
structure ExpandBuf where
  out : CStr
  bufferLength : Int
  /-- The bytes allocated for the text. -/
  block : Int
  /-- The text is not at `out` any more, or not in its block. -/
  lost : Bool
  lastvar : CStr
  deriving DecidableEq, Repr

/-- What the scanning loop carries. -/
structure ExpandState extends ExpandFlags, ExpandBuf
  deriving DecidableEq, Repr

/-- How the loop is left early: with a code, the text of `lastvar` and the name
stored in `expandvar_err_var_name`, if one is. -/
inductive ExpandExit where
  | crash
  | ret (code : Nat) (lastvar : CStr) (errVarName : Option CStr)
  deriving DecidableEq, Repr

/-- The text that a round finds at `out`. -/
def outText (mem : RoundMem) (s : ExpandBuf) : Option CStr :=
  if s.lost = true then mem.stale else some s.out

/-- `ret = append_resize(out, append, ..); if (ret == 0) return EXP_ERR_REALLOC;` -/
def expandAppend (mem : RoundMem) (s : ExpandBuf) (append : CStr) : Except ExpandExit ExpandBuf :=
  match outText mem s with
  | none => .error .crash
  | some string =>
      let r := appendResize mem.moves string append s.bufferLength s.block
      if r.ret = 0 then .error (.ret EXP_ERR_REALLOC s.lastvar none)
      else .ok { s with out := r.text, bufferLength := r.ret, block := r.block,
                        lost := s.lost || r.lost }

/-- `out[strlen(out)-1] = 0;` -/
def expandOpen (mem : RoundMem) (s : ExpandBuf) : Except ExpandExit ExpandBuf :=
  match outText mem s with
  | none => .error .crash
  | some string => .ok { s with out := string.dropLast }

/-- The branch for `}`, on the name it closes. -/
def expandClose (mem : RoundMem) (getenv : Env) (query : NvList) (varname : CStr)
    (isCond : Bool) (s : ExpandBuf) : Except ExpandExit ExpandBuf :=
  let s := { s with lastvar := varname }
  if isCond = true then
    match parseConditional mem.toCondMem getenv query varname with
    | none => .error .crash
    -- the code that `parse_conditional` returns is not looked at
    | some (_, cond) => if cond.cmatch = 1 then expandAppend mem s cond.replace else .ok s
  else
    match findVarValue getenv query varname with
    | none => .error (.ret EXP_ERR_QUERYNVVAR_NOT_FOUND s.lastvar (some varname))
    | some result => expandAppend mem s result

/-- One round of the loop, for the character `c` at index `i`. -/
def expandStep (mem : Nat → RoundMem) (getenv : Env) (query : NvList) (str : CStr)
    (s : ExpandState) (ci : UInt8 × Nat) : Except ExpandExit ExpandState :=
  let (c, i) := ci
  if 0 < i ∧ c = ascii '{' ∧ str[i - 1]? = some (ascii '$') then
    do
      -- remove '$' from out string
      let buf ← expandOpen (mem i) s.toExpandBuf
      return { s with isOpen := true, start := i, hasColon := false, hasEqual := false,
                      toExpandBuf := buf }
  else if c = ascii '}' then
    -- a length `i-start-1` of -1 is what `strncpy` takes for a huge one
    if i < s.start + 1 then .error .crash
    else do
      let varname := (str.drop (s.start + 1)).take (i - s.start - 1)
      let buf ← expandClose (mem i) getenv query varname (s.hasColon && s.hasEqual) s.toExpandBuf
      return { s with isOpen := false, hasColon := false, hasEqual := false, toExpandBuf := buf }
  else
    -- the flags are raised outside of a placeholder too
    let s := { s with
      hasColon := s.hasColon || c == ascii ':'
      hasEqual := s.hasEqual || c == ascii '=' }
    if s.isOpen = false then do
      let buf ← expandAppend (mem i) s.toExpandBuf [c]
      return { s with toExpandBuf := buf }
    else .ok s

/-- The two globals of the module. -/
structure ExpandGlobals where
  lastvar : CStr
  expandvarErrVarName : CStr
  deriving DecidableEq, Repr

/-- What `expand_vars` returns, the string its caller holds then, the globals. -/
structure ExpandResult where
  ret : Nat
  str : CStr
  globals : ExpandGlobals
  deriving DecidableEq, Repr

/-- `sizeof(char*)`. -/
def sizeofCharPtr : Nat := 8

/-- The buffer before the first round: `BLOCKSIZE` times as much is allocated for
it as a pointer takes. -/
def bufInit (g : ExpandGlobals) : ExpandBuf :=
  ⟨[], BLOCKSIZE, sizeofCharPtr * BLOCKSIZE, false, g.lastvar⟩

/-- The state before the first round. -/
def expandInit (g : ExpandGlobals) : ExpandState := ⟨⟨false, 0, false, false⟩, bufInit g⟩

/-- `expand_vars`.  `mem i` is what the round at index `i` finds in memory, and
behind the last round what the caller finds at the address it is given. -/
def expandVars (mem : Nat → RoundMem) (getenv : Env) (query : NvList) (g : ExpandGlobals)
    (str : CStr) : Option ExpandResult :=
  match str.zipIdx.foldlM (expandStep mem getenv query str) (expandInit g) with
  | .ok s =>
      (outText (mem str.length) s.toExpandBuf).map
        (fun out => ⟨0, out, { g with lastvar := s.lastvar }⟩)
  | .error .crash => none
  | .error (.ret code lastvar errVarName) =>
      some ⟨code, str, ⟨lastvar, errVarName.getD g.expandvarErrVarName⟩⟩

end Protohand
