/-
  Protohand.Reg
  ─────────────
  **lib/reg.cpp**: a regex directive `pre/search/replace/modifier`, taken apart
  and handed to the C++ library.

  `std::regex` is a parameter: `regexReplace` takes the text, the search and
  the replacement, and gives the result or the code of a `regex_error`.
-/
import Protohand.CString

namespace Protohand

/-- The four parts, and the number of the one being filled.  The variable `l`
of the loop is the length of that part. -/
structure RegScan where
  pos : Nat
  pre : CStr
  reg : CStr
  replace : CStr
  modifier : CStr
  deriving DecidableEq, Repr

/-- `parts[pos][l++] = c`, where `parts[4]` is `NULL`. -/
def RegScan.store (s : RegScan) (c : UInt8) : Option RegScan :=
  match s.pos with
  | 0 => some { s with pre := s.pre ++ [c] }
  | 1 => some { s with reg := s.reg ++ [c] }
  | 2 => some { s with replace := s.replace ++ [c] }
  | 3 => some { s with modifier := s.modifier ++ [c] }
  | _ => none

/-- One round of the splitting loop.  The loop ends at `pos = 5`, so its own
test `pos > 4` never fires. -/
def regStep (areg : CStr) (s : RegScan) (ci : UInt8 × Nat) : Option RegScan :=
  let (c, i) := ci
  if 5 ≤ s.pos then some s
  else if c = ascii '/' ∧ i = 0 then some { s with pos := s.pos + 1 }
  -- the backslash of an escape is dropped
  else if c = ascii '\\' ∧ areg[i + 1]? = some (ascii '/') then some s
  else if c = ascii '\\' ∧ areg[i + 1]? = some (ascii '\\') then some s
  -- a `/` that is not escaped ends a part
  else if c = ascii '/' ∧ areg[i - 1]? ≠ some (ascii '\\') then some { s with pos := s.pos + 1 }
  else s.store c

/-- The splitting loop; `none` is a store through `NULL`. -/
def regSplit (areg : CStr) : Option RegScan :=
  areg.zipIdx.foldlM (regStep areg) ⟨0, [], [], [], []⟩

/-- `std::regex_replace(str, std::regex(reg), replace)`. -/
abbrev RegexReplace := (str reg replace : CStr) → Except Int (List UInt8)

/-- `regreplace`: the string it returns, `none` for `NULL`, and `regerrno`. -/
def regreplace (regexReplace : RegexReplace) (regerrno : Int) (areg str : CStr) :
    Option (Option CStr × Int) :=
  match regSplit areg with
  | none => none
  | some parts =>
      match regexReplace str parts.reg parts.replace with
      | .ok res => some (some (cstr res), regerrno)
      | .error code => some (none, code)

end Protohand
