/-
  Protohand.UriParse.Def
  ──────────────────────
  **lib/uriparse.c**: the URI parser and the query parser it ends with.

  The parser makes one pass that only records positions, fills in a default
  for the authority, and then copies the five parts out of the URI.  A copy
  of length zero stores nothing at the front of its freshly allocated block:
  what the block reads as is then left to `UriMem`.
-/
import Protohand.StringLib
import Protohand.NvList

namespace Protohand

/-! ## §1. `parse_query`. -/

/-- One round of the loop over the parts.  The search for `=` keeps the last
position, but only whether there is one is ever asked. -/
def parseQueryStep (nvquery : NvList) (part : CStr) : Except (Int × NvList) NvList :=
  if ascii '=' ∈ part then
    let newval := cstr (urldecode2 part)
    let (a, nvquery) := nvlistAddstr nvquery newval (ascii '=')
    if a < 0 then .error (a, nvquery) else .ok nvquery
  else
    -- the result of `nvlist_addpair` is not looked at on this branch
    .ok (nvlistAddpair nvquery (cstr (urldecode2 part)) []).2

/-- `parse_query`: `0`, or the negative code of `nvlist_addstr`. -/
def parseQuery (query : CStr) (nvquery : NvList) : Option (Int × NvList) := do
  let parts ← strArraySplit query (bytes "&")
  if parts.length < 1 then return (0, nvquery)
  -- a resize that is refused goes unnoticed
  let nvquery := (nvlistResize nvquery parts.length).2
  match parts.elems.foldlM parseQueryStep nvquery with
  | .ok nvquery => return (0, nvquery)
  | .error (a, nvquery) => return (a, nvquery)

/-! ## §2. The parsed URI. -/

def foundProto : Nat := 1
def foundAuthority : Nat := 2
def foundPath : Nat := 3
def foundQuery : Nat := 4
def foundFragment : Nat := 5

/-- `pos[NUM_URI_PARTS+1]`, a field per `FOUND_` constant; `-1` is unset. -/
structure UriPos where
  start : Int
  proto : Int
  authority : Int
  path : Int
  query : Int
  fragment : Int
  fend : Int
  deriving DecidableEq, Repr

/-- `struct t_uri`. -/
structure TUri where
  uri : CStr
  proto : CStr
  authority : CStr
  path : CStr
  query : CStr
  fragment : CStr
  pos : UriPos
  nvquery : NvList
  deriving DecidableEq, Repr

/-- `uriparse_create`. -/
def uriparseCreate (uri : CStr) : TUri where
  uri := uri
  proto := []
  authority := []
  path := []
  query := []
  fragment := []
  pos := ⟨-1, -1, -1, -1, -1, -1, -1⟩
  nvquery := nvlistCreate 1

/-! ## §3. The scan. -/

/-- What the scanning loop carries. -/
structure UriScan where
  stage : Nat
  pos : UriPos
  doubleslash : Int
  deriving DecidableEq, Repr

/-- `pos[..] = i; if (length == i+1) pos[..]++;` -/
def foundAt (length i : Nat) : Int := if length = i + 1 then i + 1 else i

/-- The `for` loop of `uriparse_parse` from index `i` on.  `skip` counts the
characters that `i=i+3` still has to jump over. -/
def uriLoop (length : Nat) : (uri : CStr) → (i skip : Nat) → UriScan → UriScan
  | [], _, _, s => s
  | _ :: rest, i, skip + 1, s => uriLoop length rest (i + 1) skip s
  | c :: rest, i, 0, s =>
      if s.stage < foundAuthority ∧ c = ascii ':' then
        let s := { s with stage := foundAuthority, pos := { s.pos with proto := i } }
        if rest[0]? = some (ascii '/') ∧ rest[1]? = some (ascii '/') then
          -- `i=i+3` lands on the character behind `//`, and `i++` behind that one
          uriLoop length rest (i + 1) 3 { s with doubleslash := 2 }
        else uriLoop length rest (i + 1) 0 s
      else if s.stage < foundPath ∧ c = ascii '/' then
        uriLoop length rest (i + 1) 0
          { s with stage := foundPath, pos := { s.pos with path := foundAt length i } }
      else if s.stage < foundQuery ∧ c = ascii '?' then
        uriLoop length rest (i + 1) 0
          { s with stage := foundQuery, pos := { s.pos with query := foundAt length i } }
      else if s.stage < foundFragment ∧ c = ascii '#' then
        uriLoop length rest (i + 1) 0
          { s with stage := foundFragment, pos := { s.pos with fragment := foundAt length i } }
      else uriLoop length rest (i + 1) 0 s

/-- `if (a == -1) { if (b != -1) a = b; }` -/
def defaultTo (a b : Int) : Int := if a = -1 then (if b ≠ -1 then b else a) else a

/-- The defaults for `pos[FOUND_AUTHORITY]` after the loop. -/
def authorityDefault (length : Nat) (pos : UriPos) : UriPos :=
  let a := defaultTo (defaultTo (defaultTo pos.authority pos.path) pos.query) pos.fragment
  { pos with authority := if a = -1 ∧ pos.proto + 1 < length then length else a }

/-! ## §4. Copying the parts out. -/

/-- What the freshly allocated blocks read as before anything is stored. -/
structure UriMem where
  path : CStr
  query : CStr
  fragment : CStr

/-- `strncpy(part, uri+pos+1, len); part[len-1] = '\0';`.  At `len = 0` the
terminator goes in front of the block and the block keeps what it held. -/
def chop (block uri : CStr) (pos len : Int) : CStr :=
  if 0 < len then (uri.drop (pos + 1).toNat).take (len - 1).toNat else block

/-- The authority loses one trailing slash. -/
def dropSlash (authority : CStr) : CStr :=
  if authority.getLast? = some (ascii '/') then authority.dropLast else authority

/-- The five parts, cut at the recorded positions. -/
def chopParts (mem : UriMem) (length : Nat) (doubleslash : Int) (pos : UriPos)
    (uri_parsed : TUri) : TUri :=
  let uri := uri_parsed.uri
  { uri_parsed with
    pos := pos
    proto := uri.take pos.proto.toNat
    authority := dropSlash ((uri.drop (pos.proto + doubleslash + 1).toNat).take
      (pos.authority - pos.proto - doubleslash - 1).toNat)
    -- the position of a `/` that ends the URI is `FOUND_END`
    path :=
      if pos.path ≠ -1 ∧ pos.path ≠ pos.fend then
        chop mem.path uri pos.path
          (if pos.query ≠ -1 then pos.query - pos.path
            else if pos.fragment ≠ -1 then pos.fragment - pos.path
            else length - pos.path)
      else uri_parsed.path
    query :=
      if pos.query ≠ -1 then
        chop mem.query uri pos.query
          (if pos.fragment ≠ -1 then pos.fragment - pos.query else length - pos.query)
      else uri_parsed.query
    fragment :=
      if pos.fragment ≠ -1 then chop mem.fragment uri pos.fragment (length - pos.fragment)
      else uri_parsed.fragment }

/-! ## §5. `uriparse_parse`. -/

/-- `uriparse_parse`: `0`, or the `FOUND_` constant of the part that failed. -/
def uriparseParse (mem : UriMem) (uri : CStr) (uri_parsed : TUri) : Option (Nat × TUri) :=
  let length := uri.length
  let s := uriLoop length uri 0 0
    ⟨1, { uri_parsed.pos with start := 0, fend := length }, 0⟩
  let pos := authorityDefault length s.pos
  if pos.proto = -1 then some (foundProto, { uri_parsed with pos := pos })
  else if pos.authority = -1 then some (foundAuthority, { uri_parsed with pos := pos })
  else
    let parsed := chopParts mem length s.doubleslash pos uri_parsed
    match parseQuery parsed.query parsed.nvquery with
    | none => none
    | some (ret, nvquery) =>
        some (if ret < 0 then foundQuery else 0, { parsed with nvquery := nvquery })

end Protohand
