/-
  Protohand.UriParse.Query
  ────────────────────────
  **WHAT `parse_query` YIELDS.**

  The function decodes a part first and splits it at `=` afterwards.  This
  file states the list it builds (`parseQuery_spec`), and compares it with
  the two orders a reader may have in mind:

    • splitting first, then decoding both sides — the two agree exactly where
      no name holds an escaped `=` (`parseQuery_splits_first_iff`),
    • the inverse of an encoder that escapes what has to be escaped — every
      such encoding is undone (`parseQuery_undoes_encoding`).
-/
import Protohand.UriParse.Def
import Protohand.Lib.Loop

namespace Protohand

open Text

/-! ## §1. The loop over the parts. -/

/-- The non-empty pieces of a query between `&` signs. -/
def queryParts (query : CStr) : List CStr := runs (isDelim (bytes "&")) query

/-- The pair a part gives: decoded as a whole, then cut at the first `=`. -/
def decodeThenSplit (part : CStr) : NvPair :=
  if ascii '=' ∈ part then
    ⟨before (ascii '=') (urldecode2 part), after (ascii '=') (urldecode2 part)⟩
  else ⟨urldecode2 part, []⟩

/-- `=` is no part of an escape, so it cuts the decoding. -/
theorem urldecode2_append_equal (k v : CStr) :
    urldecode2 (k ++ ascii '=' :: v) = urldecode2 k ++ ascii '=' :: urldecode2 v :=
  urldecode2_append_cons (by simp) (by simp) (by decide) k v

/-- A raw `=` is still there after decoding. -/
theorem equal_mem_urldecode2 {part : CStr} (h : ascii '=' ∈ part) :
    ascii '=' ∈ urldecode2 part := by
  rw [← before_append_after h, urldecode2_append_equal]
  simp

/-- **One part appends one pair.** -/
theorem parseQueryStep_spec {nvquery : NvList} (hwf : nvquery.WF) {part : CStr}
    (hdec : IsCStr (urldecode2 part)) :
    ∃ nvquery', parseQueryStep nvquery part = .ok nvquery' ∧ nvquery'.WF
      ∧ nvquery'.pairs = nvquery.pairs ++ [decodeThenSplit part] := by
  unfold parseQueryStep decodeThenSplit
  rw [cstr_of_isCStr hdec]
  by_cases heq : ascii '=' ∈ part
  · rw [if_pos heq, if_pos heq]
    obtain ⟨hret, hwf', hpairs⟩ := nvlistAddstr_spec hwf (equal_mem_urldecode2 heq)
    cases hadd : nvlistAddstr nvquery (urldecode2 part) (ascii '=') with
    | mk a nvquery' =>
        rw [hadd] at hret hwf' hpairs
        refine ⟨nvquery', ?_, hwf', hpairs⟩
        simp only [hadd]
        exact if_neg (by omega)
  · rw [if_neg heq, if_neg heq]
    obtain ⟨_, hwf', hpairs⟩ := nvlistAddpair_spec hwf (urldecode2 part) []
    exact ⟨_, rfl, hwf', hpairs⟩

/-- The loop over all parts appends a pair for each, in order. -/
theorem parseQuery_loop : ∀ (parts : List CStr) (nvquery : NvList),
    nvquery.WF → (∀ part ∈ parts, IsCStr (urldecode2 part)) →
    ∃ nvquery', parts.foldlM parseQueryStep nvquery = .ok nvquery' ∧ nvquery'.WF
      ∧ nvquery'.pairs = nvquery.pairs ++ parts.map decodeThenSplit
  | [], nvquery, hwf, _ => ⟨nvquery, rfl, hwf, by simp⟩
  | part :: parts, nvquery, hwf, hdec => by
      obtain ⟨nv₁, hstep, hwf₁, hpairs₁⟩ := parseQueryStep_spec hwf (hdec part List.mem_cons_self)
      obtain ⟨nv₂, hrun, hwf₂, hpairs₂⟩ := parseQuery_loop parts nv₁ hwf₁
        (fun p hp => hdec p (List.mem_cons_of_mem _ hp))
      refine ⟨nv₂, ?_, hwf₂, ?_⟩
      · rw [List.foldlM_cons, hstep]
        exact hrun
      · rw [hpairs₂, hpairs₁, List.map_cons, List.append_assoc]
        rfl

/-- **The answer of `parse_query`**, where the split fits its array: that of the
loop, and `0` where there is nothing to loop over. -/
theorem parseQuery_answer {query : CStr} (hparts : (queryParts query).length ≤ strArrayMax)
    (nvquery : NvList) :
    parseQuery query nvquery
      = if queryParts query = [] then some (0, nvquery)
        else match ((queryParts query).map trim).foldlM parseQueryStep
            (nvlistResize nvquery (queryParts query).length).2 with
          | .ok nvquery => some (0, nvquery)
          | .error e => some e := by
  have hsplit : strArraySplit query (bytes "&")
      = some ⟨(queryParts query).map trim, ((queryParts query).map trim).length⟩ :=
    if_pos (by rw [List.length_map]; exact hparts)
  unfold parseQuery
  rw [hsplit]
  show (if ((queryParts query).map trim).length < 1 then some (0, nvquery) else _) = _
  by_cases hnil : queryParts query = []
  · rw [hnil]
    rfl
  · have hpos := List.length_pos_iff.mpr hnil
    rw [if_neg (by rw [List.length_map]; omega), if_neg hnil]
    simp only [StrArray.elems_mk]
    rw [List.length_map]
    cases ((queryParts query).map trim).foldlM parseQueryStep
      (nvlistResize nvquery (queryParts query).length).2 <;> rfl

/-- **THE RESULT OF `parse_query`**, where the split fits its array and no
part decodes to a NUL. -/
theorem parseQuery_spec {query : CStr} {nvquery : NvList} (hwf : nvquery.WF)
    (hparts : (queryParts query).length ≤ strArrayMax)
    (hdec : ∀ part ∈ queryParts query, IsCStr (urldecode2 (trim part))) :
    ∃ nvquery', parseQuery query nvquery = some (0, nvquery') ∧ nvquery'.WF
      ∧ nvquery'.pairs
          = nvquery.pairs ++ (queryParts query).map (fun part => decodeThenSplit (trim part)) := by
  rw [parseQuery_answer hparts]
  by_cases hnil : queryParts query = []
  · -- nothing to do: there is no part
    rw [if_pos hnil, hnil]
    exact ⟨nvquery, rfl, hwf, by simp⟩
  · obtain ⟨hwf₀, hpairs₀, _⟩ := nvlistResize_spec hwf (queryParts query).length
    obtain ⟨nvquery', hrun, hwf', hpairs⟩ := parseQuery_loop ((queryParts query).map trim) _ hwf₀
      (List.forall_mem_map.mpr hdec)
    rw [if_neg hnil, hrun]
    refine ⟨nvquery', rfl, hwf', ?_⟩
    rw [hpairs, hpairs₀, List.map_map]
    rfl

/-! ## §2. Queries the parser is given. -/

/-- What callers are held to: no NUL is smuggled in, and the parts fit the
array that `str_array_split` allocates. -/
structure QueryOk (query : CStr) : Prop where
  isCStr : IsCStr query
  no_nul : ¬ bytes "%00" <:+: query
  parts_le : (queryParts query).length ≤ strArrayMax

/-- Only `%00` decodes to a NUL. -/
theorem isCStr_urldecode2 {text : CStr} (hraw : IsCStr text) (h : ¬ bytes "%00" <:+: text) :
    IsCStr (urldecode2 text) := by
  unfold IsCStr
  rw [mem_urldecode2_iff (by decide) hraw]
  intro hesc
  obtain ⟨a, b, ha, hb, hzero, hin⟩ := hesc
  obtain ⟨rfl, rfl⟩ := hexPair_eq_zero ha hb hzero
  exact h hin

/-- Every part of such a query decodes to a C string. -/
theorem QueryOk.decoded {query : CStr} (h : QueryOk query) :
    ∀ part ∈ queryParts query, IsCStr (urldecode2 (trim part)) := by
  intro part hpart
  have hin : trim part <:+: query := (strip_isInfix isspace part).trans (mem_runs hpart).2.2
  exact isCStr_urldecode2 (h.isCStr.of_isInfix hin) (fun hesc => h.no_nul (hesc.trans hin))

/-! ## §3. Splitting before decoding. -/

/-- The pair the comment in `parse_query` calls correct: cut at the first raw
`=`, both sides decoded afterwards. -/
def splitThenDecode (part : CStr) : NvPair :=
  if ascii '=' ∈ part then
    ⟨urldecode2 (before (ascii '=') part), urldecode2 (after (ascii '=') part)⟩
  else ⟨urldecode2 part, []⟩

/-- The text spells an `=` as an escape. -/
def HasEscapedEqual (text : CStr) : Prop := bytes "%3D" <:+: text ∨ bytes "%3d" <:+: text

/-- Decoding puts an `=` into a text that has none exactly where one is escaped. -/
theorem equal_mem_urldecode2_iff {text : CStr} (h : ascii '=' ∉ text) :
    ascii '=' ∈ urldecode2 text ↔ HasEscapedEqual text := by
  rw [mem_urldecode2_iff (by simp) h]
  constructor
  · intro hesc
    obtain ⟨a, b, ha, hb, heq, hesc⟩ := hesc
    obtain ⟨rfl, rfl | rfl⟩ := hexPair_eq_equal ha hb heq
    · exact Or.inl hesc
    · exact Or.inr hesc
  · intro hesc
    rcases hesc with hesc | hesc
    · exact ⟨ascii '3', ascii 'D', by decide, by decide, by decide, hesc⟩
    · exact ⟨ascii '3', ascii 'd', by decide, by decide, by decide, hesc⟩

/-- **One part**: both orders give the same pair exactly where the text before
the first raw `=` has no escaped one. -/
theorem decodeThenSplit_eq_iff (part : CStr) :
    decodeThenSplit part = splitThenDecode part
      ↔ (ascii '=' ∈ part → ¬ HasEscapedEqual (before (ascii '=') part)) := by
  unfold decodeThenSplit splitThenDecode
  by_cases heq : ascii '=' ∈ part
  · rw [if_pos heq, if_pos heq, ← equal_mem_urldecode2_iff (not_mem_before _ part)]
    have hdec : urldecode2 part = urldecode2 (before (ascii '=') part)
        ++ ascii '=' :: urldecode2 (after (ascii '=') part) := by
      rw [← urldecode2_append_equal, before_append_after heq]
    rw [hdec]
    constructor
    · intro h _ hmem
      -- the first `=` of the decoded part then lies inside its name
      have hkey := (NvPair.mk.inj h).1
      rw [← hkey] at hmem
      exact not_mem_before _ _ hmem
    · intro h
      rw [before_append_cons (h heq), after_append_cons (h heq)]
  · rw [if_neg heq, if_neg heq]
    exact ⟨fun _ h => absurd h heq, fun _ => rfl⟩

/-- **WHERE THE TWO ORDERS AGREE**: `parse_query` appends the pairs of the
split-first reading exactly where no name holds an escaped `=`. -/
theorem parseQuery_splits_first_iff {query : CStr} (hquery : QueryOk query)
    {nvquery : NvList} (hwf : nvquery.WF) :
    (∃ nvquery', parseQuery query nvquery = some (0, nvquery') ∧ nvquery'.pairs
        = nvquery.pairs ++ (queryParts query).map (fun part => splitThenDecode (trim part)))
      ↔ ∀ part ∈ queryParts query, ascii '=' ∈ trim part →
          ¬ HasEscapedEqual (before (ascii '=') (trim part)) := by
  obtain ⟨nv₁, hrun, _, hpairs⟩ := parseQuery_spec hwf hquery.parts_le hquery.decoded
  have hmap : (∃ nvquery', parseQuery query nvquery = some (0, nvquery') ∧ nvquery'.pairs
        = nvquery.pairs ++ (queryParts query).map (fun part => splitThenDecode (trim part)))
      ↔ ∀ part ∈ queryParts query,
          decodeThenSplit (trim part) = splitThenDecode (trim part) := by
    rw [hrun, ← List.map_inj_left]
    constructor
    · intro h
      obtain ⟨nv₂, heq, hpairs₂⟩ := h
      cases heq
      exact List.append_cancel_left (hpairs.symm.trans hpairs₂)
    · intro h
      exact ⟨nv₁, rfl, by rw [hpairs, h]⟩
  rw [hmap]
  apply forall₂_congr
  intro part _
  exact decodeThenSplit_eq_iff (trim part)

/-- The name `a=b` arrives as the name `a`, with `b=c` for its value. -/
theorem parseQuery_splits_escaped_equal :
    QueryOk (bytes "a%3Db=c")
      ∧ (parseQuery (bytes "a%3Db=c") (nvlistCreate 1)).map (fun r => (r.1, r.2.pairs))
          = some (0, [⟨bytes "a", bytes "b=c"⟩])
      ∧ ¬ ∃ nvquery', parseQuery (bytes "a%3Db=c") (nvlistCreate 1) = some (0, nvquery')
          ∧ nvquery'.pairs = (nvlistCreate 1).pairs
            ++ (queryParts (bytes "a%3Db=c")).map (fun part => splitThenDecode (trim part)) := by
  have hrun : (parseQuery (bytes "a%3Db=c") (nvlistCreate 1)).map (fun r => (r.1, r.2.pairs))
      = some (0, [⟨bytes "a", bytes "b=c"⟩]) := by decide
  refine ⟨⟨by decide, by decide, by decide⟩, hrun, ?_⟩
  intro h
  obtain ⟨nvquery', hret, hpairs⟩ := h
  rw [hret, Option.map_some, hpairs, Option.some.injEq, Prod.mk.injEq] at hrun
  exact absurd hrun.2 (by decide)

/-- An escaped `=` in a value, and an escaped `&` anywhere, do no harm. -/
theorem parseQuery_splits_first_sample :
    (∃ nvquery', parseQuery (bytes "x%26=1%3D2&y") (nvlistCreate 1) = some (0, nvquery')
        ∧ nvquery'.pairs = (nvlistCreate 1).pairs
          ++ (queryParts (bytes "x%26=1%3D2&y")).map (fun part => splitThenDecode (trim part)))
      ↔ ∀ part ∈ queryParts (bytes "x%26=1%3D2&y"), ascii '=' ∈ trim part →
          ¬ HasEscapedEqual (before (ascii '=') (trim part)) :=
  parseQuery_splits_first_iff ⟨by decide, by decide, by decide⟩ (nvlistCreate_wf 1)

/-! ## §4. Encoded queries. -/

/-- The ways to write one byte of a name or a value. -/
inductive ByteEnc : UInt8 → CStr → Prop where
  | literal (c : UInt8) (hpercent : c ≠ ascii '%') (hplus : c ≠ ascii '+') (hamp : c ≠ ascii '&')
      (hspace : isspace c = false) : ByteEnc c [c]
  | escaped (c hi lo : UInt8) (hhi : IsHexOf (c.toNat / 16) hi) (hlo : IsHexOf (c.toNat % 16) lo) :
      ByteEnc c [ascii '%', hi, lo]
  | blank : ByteEnc (ascii ' ') [ascii '+']

/-- The ways to write a name or a value: byte by byte. -/
inductive StrEnc : CStr → CStr → Prop where
  | nil : StrEnc [] []
  | cons {c : UInt8} {e s es : CStr} (hc : ByteEnc c e) (hs : StrEnc s es) :
      StrEnc (c :: s) (e ++ es)

/-- The ways to write a pair. -/
def PairEnc (p : NvPair) (enc : CStr) : Prop :=
  ∃ ek ev, StrEnc p.key ek ∧ StrEnc p.value ev ∧ enc = ek ++ ascii '=' :: ev

/-- Decoding takes the bytes of an encoded text off one at a time. -/
theorem urldecode2_strEnc {s e : CStr} (h : StrEnc s e) (src : CStr) :
    urldecode2 (e ++ src) = s ++ urldecode2 src := by
  induction h with
  | nil => rfl
  | @cons c e s es hc hs ih =>
      rw [List.append_assoc, List.cons_append, ← ih]
      cases hc with
      | literal _ hpercent hplus hamp hspace =>
          rw [List.singleton_append, urldecode2_cons_of_ne hpercent, urldecodeChar, if_neg hplus]
      | escaped _ hi lo hhi hlo => exact urldecode2_hex hhi hlo (es ++ src)
      | blank => exact urldecode2_cons_of_ne (by simp) (es ++ src)

/-- What the query parser cuts at: `&` and white space. -/
def IsCut (c : UInt8) : Prop := c = ascii '&' ∨ isspace c = true

theorem not_isCut_of_isxdigit {c : UInt8} (h : isxdigit c = true) : ¬ IsCut c := by
  have key : ∀ c ∈ hexDigits, c ≠ ascii '&' ∧ isspace c = false := by decide +kernel
  obtain ⟨hamp, hspace⟩ := key c (mem_hexDigits h)
  intro hcut
  rcases hcut with hcut | hcut
  · exact hamp hcut
  · rw [hspace] at hcut; cases hcut

/-- An encoded text holds nothing the parser cuts at. -/
theorem not_isCut_strEnc {s e : CStr} (h : StrEnc s e) : ∀ x ∈ e, ¬ IsCut x := by
  induction h with
  | nil => simp
  | @cons c e s es hc hs ih =>
      intro x hx
      rcases List.mem_append.mp hx with hx | hx
      · cases hc with
        | literal _ hpercent hplus hamp hspace =>
            rw [List.mem_singleton.mp hx]
            intro hcut
            rcases hcut with hcut | hcut
            · exact hamp hcut
            · rw [hspace] at hcut; cases hcut
        | escaped _ hi lo hhi hlo =>
            have hc := c.toNat_lt
            simp only [List.mem_cons, List.not_mem_nil, or_false] at hx
            rcases hx with rfl | rfl | rfl
            · unfold IsCut; decide
            · exact not_isCut_of_isxdigit (hexDigitValue_of_isHexOf (by omega) hhi).1
            · exact not_isCut_of_isxdigit (hexDigitValue_of_isHexOf (by omega) hlo).1
        | blank =>
            rw [List.mem_singleton.mp hx]
            unfold IsCut
            decide
      · exact ih x hx

theorem not_isCut_pairEnc {p : NvPair} {enc : CStr} (h : PairEnc p enc) :
    ∀ x ∈ enc, ¬ IsCut x := by
  obtain ⟨ek, ev, hk, hv, rfl⟩ := h
  intro x hx
  rcases List.mem_append.mp hx with hx | hx
  · exact not_isCut_strEnc hk x hx
  · rcases List.mem_cons.mp hx with rfl | hx
    · unfold IsCut; decide
    · exact not_isCut_strEnc hv x hx

/-- An encoded pair is left alone by the trimming, and its fields come back. -/
theorem decode_pairEnc {p : NvPair} {enc : CStr} (h : PairEnc p enc)
    (hkey : ascii '=' ∉ p.key) :
    urldecode2 (trim enc) = p.key ++ ascii '=' :: p.value
      ∧ decodeThenSplit (trim enc) = p := by
  have htrim : trim enc = enc := by
    apply strip_of_free
    intro x hx
    have hcut := not_isCut_pairEnc h x hx
    unfold IsCut at hcut
    simpa using fun hs => hcut (Or.inr hs)
  obtain ⟨ek, ev, hk, hv, rfl⟩ := h
  have hvalue : urldecode2 ev = p.value := by
    have h := urldecode2_strEnc hv []
    simpa using h
  have hdec : urldecode2 (ek ++ ascii '=' :: ev) = p.key ++ ascii '=' :: p.value := by
    rw [urldecode2_append_equal, hvalue]
    have h := urldecode2_strEnc hk []
    simp only [List.append_nil, urldecode2_nil] at h
    rw [h]
  rw [htrim]
  refine ⟨hdec, ?_⟩
  unfold decodeThenSplit
  rw [if_pos (by simp), hdec, before_append_cons hkey, after_append_cons hkey]

/-- **A joined query falls apart again**, into its pairs. -/
theorem queryParts_join {ps : List NvPair} {encs : List CStr}
    (h : List.Forall₂ PairEnc ps encs) : queryParts ([ascii '&'].intercalate encs) = encs := by
  have henc : ∀ enc ∈ encs, enc ≠ [] ∧ ∀ x ∈ enc, isDelim (bytes "&") x = false := by
    induction h with
    | nil => simp
    | @cons p enc ps encs hp hps ih =>
        intro e he
        rcases List.mem_cons.mp he with rfl | he
        · refine ⟨?_, ?_⟩
          · obtain ⟨ek, ev, _, _, rfl⟩ := hp
            simp
          · intro x hx
            have hcut := not_isCut_pairEnc hp x hx
            unfold IsCut at hcut
            simpa [isDelim, bytes] using fun hamp => hcut (Or.inl hamp)
        · exact ih e he
  exact runs_intercalate (by decide) encs henc

/-- Each part of a joined query decodes to the pair it was made from. -/
theorem decode_join {ps : List NvPair} {encs : List CStr} (h : List.Forall₂ PairEnc ps encs)
    (hok : ∀ p ∈ ps, IsCStr p.key ∧ IsCStr p.value ∧ ascii '=' ∉ p.key) :
    (∀ enc ∈ encs, IsCStr (urldecode2 (trim enc)))
      ∧ encs.map (fun enc => decodeThenSplit (trim enc)) = ps := by
  induction h with
  | nil => simp
  | @cons p enc ps encs hp hps ih =>
      obtain ⟨hkey, hvalue, hequal⟩ := hok p List.mem_cons_self
      obtain ⟨hdec, hpair⟩ := decode_pairEnc hp hequal
      obtain ⟨ihdec, ihpair⟩ := ih (fun q hq => hok q (List.mem_cons_of_mem _ hq))
      refine ⟨?_, by rw [List.map_cons, hpair, ihpair]⟩
      intro e he
      rcases List.mem_cons.mp he with rfl | he
      · rw [hdec]
        unfold IsCStr at hkey hvalue ⊢
        simp only [List.mem_append, List.mem_cons, not_or]
        exact ⟨hkey, by decide, hvalue⟩
      · exact ihdec e he

/-- **DECODING UNDOES ENCODING**: `parse_query` gives back the pairs any legal
encoding was made from, in their order. -/
theorem parseQuery_undoes_encoding {ps : List NvPair} {encs : List CStr}
    (henc : List.Forall₂ PairEnc ps encs)
    (hok : ∀ p ∈ ps, IsCStr p.key ∧ IsCStr p.value ∧ ascii '=' ∉ p.key)
    (hcount : ps.length ≤ strArrayMax)
    {nvquery : NvList} (hwf : nvquery.WF) (hempty : nvquery.length = 0) :
    ∃ nvquery', parseQuery ([ascii '&'].intercalate encs) nvquery = some (0, nvquery')
      ∧ nvquery'.length = ps.length ∧ nvquery'.pairs = ps := by
  have hparts := queryParts_join henc
  obtain ⟨hdec, hpairs⟩ := decode_join henc hok
  have hlen : encs.length = ps.length := by rw [← hpairs, List.length_map]
  obtain ⟨nvquery', hrun, hwf', hnew⟩ := parseQuery_spec hwf
    (by rw [hparts, hlen]; exact hcount) (by rw [hparts]; exact hdec)
  have hnone : nvquery.pairs = [] :=
    List.length_eq_zero_iff.mp (by rw [hwf.length_pairs, hempty])
  rw [hparts, hpairs, hnone, List.nil_append] at hnew
  exact ⟨nvquery', hrun, by rw [← hwf'.length_pairs, hnew], hnew⟩

/-- Both letter cases, a blank as `+`, an empty name and a duplicate. -/
theorem parseQuery_undoes_encoding_sample :
    ∃ nvquery', parseQuery ([ascii '&'].intercalate [bytes "a=+%c3%BF", bytes "=", bytes "="])
        (nvlistCreate 1) = some (0, nvquery')
      ∧ nvquery'.length = 3
      ∧ nvquery'.pairs = [⟨bytes "a", [32, 195, 191]⟩, ⟨[], []⟩, ⟨[], []⟩] := by
  have hempty : PairEnc ⟨[], []⟩ (bytes "=") := ⟨[], [], .nil, .nil, rfl⟩
  have hvalue : StrEnc [32, 195, 191] (bytes "+%c3%BF") :=
    .cons .blank (.cons (.escaped 195 (ascii 'c') (ascii '3') (Or.inr (by decide)) (Or.inl (by decide)))
      (.cons (.escaped 191 (ascii 'B') (ascii 'F') (Or.inl (by decide)) (Or.inl (by decide))) .nil))
  have hkey : StrEnc (bytes "a") (bytes "a") :=
    .cons (.literal (ascii 'a') (by simp) (by simp) (by simp) (by decide)) .nil
  exact parseQuery_undoes_encoding
    (.cons ⟨bytes "a", bytes "+%c3%BF", hkey, hvalue, rfl⟩ (.cons hempty (.cons hempty .nil)))
    (by decide) (by decide) (nvlistCreate_wf 1) rfl

end Protohand
