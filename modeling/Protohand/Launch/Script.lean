/-
  Protohand.Launch.Script
  ───────────────────────
  **THE SCRIPT OF error.html.**

  Texts are bytes, and a text of the script is taken for its UTF-8: so
  `decodeURIComponent` throws at an escape that is broken, and at what is no
  UTF-8.  The URL of the page is taken as it was written.

    • `length_percentDecode` — decoding shortens a text by its escapes,
    • `pageStep_part`        — a round of the loop on `name=value`,
    • `pageSteps_var`        — the variable is something that was decoded.
-/
import Protohand.Lib.Parts
import Protohand.Lib.Printf
import Protohand.Messages.Def

namespace Protohand

open Text Printf

/-! ## §1. The script. -/

def Utf8 (s : CStr) : Prop := ByteArray.IsValidUTF8 s.toByteArray

instance (s : CStr) : Decidable (Utf8 s) :=
  inferInstanceAs (Decidable (ByteArray.IsValidUTF8 s.toByteArray))

/-- The bytes of a text with its escapes undone. -/
def percentDecode : CStr → Option CStr
  | [] => some []
  | c :: s =>
      if c = ascii '%' then
        match s with
        | a :: b :: s =>
            if isxdigit a = true ∧ isxdigit b = true then (percentDecode s).map (hexPair a b :: ·)
            else none
        | _ => none
      else (percentDecode s).map (c :: ·)

def decodeURIComponent (s : CStr) : Option CStr :=
  (percentDecode s).filter fun t => decide (Utf8 t)

/-- The variables of the script, and what it puts into the element `var`. -/
structure PageVars where
  code : CStr
  url : CStr
  description : CStr
  hostname : CStr
  var : Option CStr
  deriving DecidableEq

def pageInit : PageVars := ⟨bytes "0", [], [], [], none⟩

/-- `decodeURIComponent(pair[1])`. -/
def decodeValue (value : Option CStr) : Option CStr :=
  match value with
  | some value => decodeURIComponent value
  | none => some (bytes "undefined")

/-- Behind `if(pair[1])`: a text that is not empty, decoded, or what there was. -/
def decodeIf {α : Type} (value : Option CStr) (f : CStr → α) (old : α) : Option α :=
  if value.getD [] = [] then some old else (decodeValue value).map f

/-- The `if`s of the loop. -/
def pageRound (s : PageVars) (name : CStr) (value : Option CStr) : Option PageVars :=
  if name = bytes "code" then (decodeValue value).map fun code => { s with code := code }
  else if name = bytes "url" then (decodeValue value).map fun url => { s with url := url }
  else if name = bytes "str" then decodeIf value (fun str => { s with description := str }) s
  else if name = bytes "hostname" then
    decodeIf value (fun hostname => { s with hostname := hostname }) s
  else if name = bytes "var" then decodeIf value (fun var => { s with var := some var }) s
  else some s

/-- One round of the loop. -/
def pageStep (s : PageVars) (part : CStr) : Option PageVars :=
  let pair := part.splitOn (ascii '=')
  (decodeURIComponent (pair.headD [])).bind fun name => pageRound s name pair[1]?

/-- The loop over `vars`; `none` where it throws. -/
def pageVars (query : CStr) : Option PageVars :=
  (query.splitOn (ascii '&')).foldlM pageStep pageInit

/-- `window.location.search.slice(1)`. -/
def locationQuery (url : CStr) : CStr := after (ascii '?') (before (ascii '#') url)

/-- The element `err` and a code, as create_error.c writes it. -/
def shownMessage (code : CStr) : Option CStr :=
  (errorMessages.find? fun message => decimal 32 message.1 = code).map fun m => bytes m.2

/-! ## §2. Decoding. -/

theorem percentDecode_cons {c : UInt8} (hc : c ≠ ascii '%') (s : CStr) :
    percentDecode (c :: s) = (percentDecode s).map (c :: ·) := by
  rw [percentDecode.eq_def]
  dsimp only
  rw [if_neg hc]

theorem percentDecode_escape {a b : UInt8} (ha : isxdigit a = true) (hb : isxdigit b = true)
    (s : CStr) :
    percentDecode (ascii '%' :: a :: b :: s) = (percentDecode s).map (hexPair a b :: ·) := by
  rw [percentDecode, if_pos rfl, if_pos ⟨ha, hb⟩]

theorem percentDecode_plain {s : CStr} (h : ascii '%' ∉ s) : percentDecode s = some s := by
  induction s with
  | nil => rfl
  | cons c s ih =>
      rw [List.mem_cons, not_or] at h
      rw [percentDecode_cons (Ne.symm h.1), ih h.2]
      rfl

/-- **Decoding shortens a text** by what its escapes are longer than a byte. -/
theorem length_percentDecode {s t : CStr} (h : percentDecode s = some t) :
    t.length + 2 * s.count (ascii '%') = s.length := by
  have hdigit : ∀ {a : UInt8}, isxdigit a = true → a ≠ ascii '%' := by
    rintro a ha rfl
    exact absurd ha (by decide)
  induction s using percentDecode.induct generalizing t with
  | case1 => cases h; rfl
  | case2 a b s hdigits ih =>
      rw [percentDecode_escape hdigits.1 hdigits.2] at h
      obtain ⟨u, hu, rfl⟩ := Option.map_eq_some_iff.mp h
      have hlen := ih hu
      -- three characters for one, and one `%`
      rw [List.count_cons_self, List.count_cons_of_ne (hdigit hdigits.1),
        List.count_cons_of_ne (hdigit hdigits.2)]
      simp only [List.length_cons]
      omega
  | case3 a b s hdigits =>
      rw [percentDecode, if_pos rfl, if_neg hdigits] at h
      cases h
  | case4 s hshort =>
      rw [percentDecode.eq_def] at h
      dsimp only at h
      rw [if_pos rfl] at h
      split at h
      · next a b s => exact absurd rfl (hshort a b s)
      · cases h
  | case5 c s hc ih =>
      rw [percentDecode_cons hc] at h
      obtain ⟨u, hu, rfl⟩ := Option.map_eq_some_iff.mp h
      have hlen := ih hu
      rw [List.count_cons_of_ne hc]
      simp only [List.length_cons]
      omega

/-- Only an empty text is decoded to one. -/
theorem eq_nil_of_percentDecode {s : CStr} (h : percentDecode s = some []) : s = [] := by
  have hno : ∀ {o : Option CStr} {c : UInt8}, o.map (c :: ·) ≠ some [] := by
    intro o c hmap
    obtain ⟨t, -, ht⟩ := Option.map_eq_some_iff.mp hmap
    cases ht
  cases s using percentDecode.induct with
  | case1 => rfl
  | case2 a b s hdigits => exact absurd (percentDecode_escape hdigits.1 hdigits.2 s ▸ h) hno
  | case3 a b s hdigits =>
      rw [percentDecode, if_pos rfl, if_neg hdigits] at h
      cases h
  | case4 s hshort =>
      rw [percentDecode.eq_def] at h
      dsimp only at h
      rw [if_pos rfl] at h
      split at h
      · next a b s => exact absurd rfl (hshort a b s)
      · cases h
  | case5 c s hc => exact absurd (percentDecode_cons hc s ▸ h) hno

/-- What `decodeURIComponent` returns. -/
theorem decodeURIComponent_eq_some {s t : CStr} :
    decodeURIComponent s = some t ↔ percentDecode s = some t ∧ Utf8 t := by
  unfold decodeURIComponent
  rw [Option.filter_eq_some_iff]
  simp

/-- ASCII is UTF-8. -/
theorem utf8_ascii {s : CStr} (h : ∀ c ∈ s, c.toNat < 128) : Utf8 s := by
  have hencode : ∀ c : UInt8, c.toNat < 128 →
      String.utf8EncodeChar (Char.ofNat c.toNat) = [c] := by
    have hall : ∀ n < 128, String.utf8EncodeChar (Char.ofNat n) = [UInt8.ofNat n] := by
      decide +kernel
    intro c hc
    rw [hall c.toNat hc, UInt8.ofNat_toNat]
  have hchars : (s.map fun c => Char.ofNat c.toNat).flatMap String.utf8EncodeChar = s := by
    induction s with
    | nil => rfl
    | cons c s ih =>
        rw [List.map_cons, List.flatMap_cons, hencode c (h c List.mem_cons_self),
          ih fun x hx => h x (List.mem_cons_of_mem _ hx)]
        rfl
  refine ⟨s.map fun c => Char.ofNat c.toNat, ?_⟩
  unfold List.utf8Encode
  rw [hchars]

theorem decode_plain {s : CStr} (h : ascii '%' ∉ s) (hutf8 : Utf8 s) :
    decodeURIComponent s = some s :=
  decodeURIComponent_eq_some.mpr ⟨percentDecode_plain h, hutf8⟩

theorem utf8_nil : Utf8 [] := utf8_ascii fun _ hc => absurd hc List.not_mem_nil

/-! ## §3. One round. -/

theorem decodeIf_some {α : Type} (value : CStr) (f : CStr → α) (old : α) :
    decodeIf (some value) f old
      = if value = [] then some old else (decodeURIComponent value).map f := rfl

/-- A part of the query, by its name. -/
theorem splitOn_part {name value : CStr} (hname : ascii '=' ∉ name) (hvalue : ascii '=' ∉ value) :
    (name ++ ascii '=' :: value).splitOn (ascii '=') = [name, value] := by
  rw [List.splitOn_append_cons_self_of_not_mem hname, List.splitOn_eq_singleton hvalue]

/-- The five names differ. -/
theorem page_names :
    bytes "url" ≠ bytes "code" ∧ bytes "str" ≠ bytes "code" ∧ bytes "str" ≠ bytes "url"
      ∧ bytes "hostname" ≠ bytes "code" ∧ bytes "hostname" ≠ bytes "url"
      ∧ bytes "hostname" ≠ bytes "str" ∧ bytes "var" ≠ bytes "code" ∧ bytes "var" ≠ bytes "url"
      ∧ bytes "var" ≠ bytes "str" ∧ bytes "var" ≠ bytes "hostname" := by
  decide

section Rounds

variable (s : PageVars) (value : CStr)

theorem pageRound_code : pageRound s (bytes "code") (some value)
    = (decodeURIComponent value).map fun code => { s with code := code } := by
  unfold pageRound
  rw [if_pos rfl]
  rfl

theorem pageRound_url : pageRound s (bytes "url") (some value)
    = (decodeURIComponent value).map fun url => { s with url := url } := by
  obtain ⟨hcode, -⟩ := page_names
  unfold pageRound
  rw [if_neg hcode, if_pos rfl]
  rfl

theorem pageRound_str : pageRound s (bytes "str") (some value)
    = decodeIf (some value) (fun str => { s with description := str }) s := by
  obtain ⟨-, hcode, hurl, -⟩ := page_names
  unfold pageRound
  rw [if_neg hcode, if_neg hurl, if_pos rfl]

theorem pageRound_hostname : pageRound s (bytes "hostname") (some value)
    = decodeIf (some value) (fun hostname => { s with hostname := hostname }) s := by
  obtain ⟨-, -, -, hcode, hurl, hstr, -⟩ := page_names
  unfold pageRound
  rw [if_neg hcode, if_neg hurl, if_neg hstr, if_pos rfl]

theorem pageRound_var : pageRound s (bytes "var") (some value)
    = decodeIf (some value) (fun var => { s with var := some var }) s := by
  obtain ⟨-, -, -, -, -, -, hcode, hurl, hstr, hhost⟩ := page_names
  unfold pageRound
  rw [if_neg hcode, if_neg hurl, if_neg hstr, if_neg hhost, if_pos rfl]

end Rounds

/-- A round on a part of the query. -/
theorem pageStep_part (s : PageVars) {name value : CStr}
    (hname : ∀ c ∈ name, c.toNat < 128 ∧ c ≠ ascii '=' ∧ c ≠ ascii '%')
    (hvalue : ascii '=' ∉ value) :
    pageStep s (name ++ ascii '=' :: value) = pageRound s name (some value) := by
  have hequal : ascii '=' ∉ name := fun h => (hname _ h).2.1 rfl
  have hdecode : decodeURIComponent name = some name :=
    decode_plain (fun h => (hname _ h).2.2 rfl) (utf8_ascii fun c hc => (hname c hc).1)
  unfold pageStep
  rw [splitOn_part hequal hvalue]
  show (decodeURIComponent name).bind _ = _
  rw [hdecode]
  rfl

theorem step_var (s : PageVars) {value : CStr} (hvalue : ascii '=' ∉ value) :
    pageStep s (bytes "var=" ++ value)
      = decodeIf (some value) (fun var => { s with var := some var }) s := by
  have hname : bytes "var=" ++ value = bytes "var" ++ ascii '=' :: value := by
    rw [← List.singleton_append, ← List.append_assoc]
    rfl
  rw [hname, pageStep_part s (by decide +kernel) hvalue, pageRound_var]

theorem pageVars_nil : pageVars [] = some pageInit := by
  have hempty : decodeURIComponent [] = some [] := decode_plain List.not_mem_nil utf8_nil
  show (pageStep pageInit []).bind some = _
  unfold pageStep
  show ((decodeURIComponent []).bind _).bind some = _
  rw [hempty]
  decide +kernel

/-- **A round changes `var`** only to something it has decoded. -/
theorem pageStep_var {s t : PageVars} {part : CStr} (h : pageStep s part = some t) :
    t.var = s.var ∨ ∃ value ∈ (part.splitOn (ascii '=')).tail,
      ∃ var, decodeURIComponent value = some var ∧ t.var = some var := by
  obtain ⟨name, -, h⟩ := Option.bind_eq_some_iff.mp h
  unfold pageRound at h
  split_ifs at h with hcode hurl hstr hhost hvar
  · obtain ⟨x, -, rfl⟩ := Option.map_eq_some_iff.mp h
    exact Or.inl rfl
  · obtain ⟨x, -, rfl⟩ := Option.map_eq_some_iff.mp h
    exact Or.inl rfl
  · unfold decodeIf at h
    split at h
    · cases h; exact Or.inl rfl
    · obtain ⟨x, -, rfl⟩ := Option.map_eq_some_iff.mp h
      exact Or.inl rfl
  · unfold decodeIf at h
    split at h
    · cases h; exact Or.inl rfl
    · obtain ⟨x, -, rfl⟩ := Option.map_eq_some_iff.mp h
      exact Or.inl rfl
  · unfold decodeIf at h
    split at h
    · cases h; exact Or.inl rfl
    · next hne =>
        obtain ⟨x, hx, rfl⟩ := Option.map_eq_some_iff.mp h
        cases hpair : (part.splitOn (ascii '='))[1]? with
        | none => rw [hpair] at hne; exact absurd rfl hne
        | some value =>
            rw [hpair] at hx
            refine Or.inr ⟨value, ?_, x, hx, rfl⟩
            rw [← List.getElem?_tail] at hpair
            exact List.mem_of_getElem? hpair
  · cases h; exact Or.inl rfl

theorem pageSteps_var {parts : List CStr} {s t : PageVars} (h : parts.foldlM pageStep s = some t) :
    t.var = s.var ∨ ∃ part ∈ parts, ∃ value ∈ (part.splitOn (ascii '=')).tail,
      ∃ var, decodeURIComponent value = some var ∧ t.var = some var := by
  induction parts generalizing s with
  | nil => cases h; exact Or.inl rfl
  | cons part parts ih =>
      rw [List.foldlM_cons] at h
      obtain ⟨u, hu, h⟩ := Option.bind_eq_some_iff.mp h
      rcases ih h with hsame | ⟨later, hlater, value, hvalue⟩
      · rcases pageStep_var hu with hfirst | ⟨value, hvalue⟩
        · exact Or.inl (hsame.trans hfirst)
        · obtain ⟨hmem, var, hvar, hset⟩ := hvalue
          exact Or.inr ⟨part, List.mem_cons_self, value, hmem, var, hvar, hsame.trans hset⟩
      · exact Or.inr ⟨later, List.mem_cons_of_mem _ hlater, value, hvalue⟩

/-- **The values behind `var=`** are pieces of the name, without delimiters. -/
theorem var_value {cut part value : CStr} (hpart : part ∈ (bytes "var=" ++ cut).splitOn (ascii '&'))
    (hvalue : value ∈ (part.splitOn (ascii '=')).tail) :
    value <:+: cut ∧ ascii '&' ∉ value ∧ ascii '=' ∉ value := by
  obtain ⟨hin, hequal⟩ := (mem_splitOn part).1 value (List.mem_of_mem_tail hvalue)
  have hamp : ascii '&' ∉ value := fun h =>
    ((mem_splitOn (bytes "var=" ++ cut)).1 part hpart).2 (hin.subset h)
  refine ⟨?_, hamp, hequal⟩
  obtain ⟨first, parts, hcut⟩ := List.exists_cons_of_ne_nil (List.splitOn_ne_nil (ascii '&') cut)
  have hpieces : ∀ piece ∈ first :: parts, piece <:+: cut := fun piece hpiece =>
    ((mem_splitOn cut).1 piece (hcut ▸ hpiece)).1
  -- `var=` has no `&`, so it stays with the first part
  rw [splitOn_append_free (by decide), hcut, List.modifyHead_cons] at hpart
  rcases List.mem_cons.mp hpart with rfl | hlater
  · -- the first part starts with the name `var`
    have hname : bytes "var=" ++ first = bytes "var" ++ ascii '=' :: first := by
      rw [← List.singleton_append, ← List.append_assoc]
      rfl
    rw [hname, List.splitOn_append_cons_self_of_not_mem (by decide), List.tail_cons] at hvalue
    exact ((mem_splitOn first).1 value hvalue).1.trans (hpieces first List.mem_cons_self)
  · exact hin.trans (hpieces part (List.mem_cons_of_mem _ hlater))

/-! ## §4. Rounds in a row. -/

theorem foldlM_cons_some {f : PageVars → CStr → Option PageVars} {s t : PageVars} {part : CStr}
    (h : f s part = some t) (parts : List CStr) :
    (part :: parts).foldlM f s = parts.foldlM f t := by
  rw [List.foldlM_cons, h]
  rfl

theorem foldlM_cons_none {f : PageVars → CStr → Option PageVars} {s : PageVars} {part : CStr}
    (h : f s part = none) (parts : List CStr) : (part :: parts).foldlM f s = none := by
  rw [List.foldlM_cons, h]
  rfl

end Protohand
