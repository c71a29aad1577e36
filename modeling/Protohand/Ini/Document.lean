/-
  Protohand.Ini.Document
  ──────────────────────
  **WRITING A CONFIGURATION AND READING IT BACK.**

  An `IniDocument` is what a configuration says: entries, some of them with
  continuation lines, above all sections and in sections.  Its fields carry
  what lib/ini.c asks of a name, a value and a header, so a document that
  would be read as something else cannot be built.  `IniLayout` is how it is
  written down: the separator, the blanks around it, the indentation of a
  continuation and what stands in front of a newline.

    • `find_append`       — a scan up to a delimiter, over text without one,
    • `iniLine_entry`, `iniLine_more`, `iniLine_section` — one line of each kind,
    • `document_items`    — the lines of a document, read one after the other,
    • `document_roundtrip` — the parser delivers the document.
-/
import Protohand.Ini.Layout

namespace Protohand

/-! ## §1. What a document says. -/

/-- What lib/ini.c reads as the name of a directive. -/
structure IniName (name : CStr) : Prop where
  start : ∃ c rest, name = c :: rest ∧ isspace c = false
    ∧ c ≠ ascii ';' ∧ c ≠ ascii '#' ∧ c ≠ ascii '['
  stripped : rstrip name = name
  line : ascii '\n' ∉ name
  free : ∀ c ∈ name, c ∉ bytes "=:"
  plain : NoComment name
  unmarked : ¬ bom <+: name

/-- What it reads as a value. -/
structure IniValue (value : CStr) : Prop where
  skipped : lskip value = value
  stripped : rstrip value = value
  line : ascii '\n' ∉ value
  plain : NoComment value
  start : value.head? ≠ some (ascii ';')

/-- What it reads as a continuation; an inline comment is part of it. -/
structure IniMore (text : CStr) : Prop where
  start : ∃ c rest, text = c :: rest ∧ isspace c = false ∧ c ≠ ascii ';' ∧ c ≠ ascii '#'
  stripped : rstrip text = text
  line : ascii '\n' ∉ text

/-- What it reads as a header. -/
structure IniTitle (name : CStr) : Prop where
  line : ascii '\n' ∉ name
  free : ascii ']' ∉ name
  plain : NoComment name

/-- A directive with its continuations.  Only `prev_name` stands for the name
in front of these, so it has to hold it. -/
structure IniEntry where
  name : CStr
  value : CStr
  more : List CStr
  isName : IniName name
  isValue : IniValue value
  isMore : ∀ text ∈ more, IniMore text
  kept : more ≠ [] → name.length < maxName

structure IniSection where
  title : CStr
  entries : List IniEntry
  isTitle : IniTitle title

/-- A configuration. -/
structure IniDocument where
  top : List IniEntry
  sections : List IniSection

def IniEntry.items (e : IniEntry) : List IniItem :=
  .directive e.name e.value :: e.more.map (.directive e.name)

def IniSection.items (s : IniSection) : List IniItem :=
  .header s.title :: s.entries.flatMap IniEntry.items

def IniDocument.items (d : IniDocument) : List IniItem :=
  d.top.flatMap IniEntry.items ++ d.sections.flatMap IniSection.items

/-- What an entry below a header tells the handler. -/
def IniEntry.standing (header : Option CStr) (e : IniEntry) : List Standing :=
  (e.value :: e.more).map fun value => ⟨header, e.name, value⟩

/-- What a document tells the handler. -/
def IniDocument.directives (d : IniDocument) : List Standing :=
  d.top.flatMap (IniEntry.standing none)
    ++ d.sections.flatMap fun s => s.entries.flatMap (IniEntry.standing (some s.title))

/-! ## §2. How it is written down. -/

structure IniLayout where
  sep : UInt8
  left : CStr
  right : CStr
  indent : CStr
  trail : CStr
  isSep : sep ∈ bytes "=:"
  isBlank : ∀ s ∈ [left, right, indent, trail], Blank s ∧ ascii '\n' ∉ s
  indented : indent ≠ []

section Layout

variable (l : IniLayout)

def IniLayout.entryLine (name value : CStr) : CStr :=
  (name ++ l.left) ++ l.sep :: (l.right ++ value)

def IniLayout.entryLines (e : IniEntry) : List CStr :=
  l.entryLine e.name e.value :: e.more.map (l.indent ++ ·)

def titleLine (title : CStr) : CStr := ascii '[' :: (title ++ [ascii ']'])

def IniLayout.sectionLines (s : IniSection) : List CStr :=
  titleLine s.title :: s.entries.flatMap l.entryLines

def IniLayout.lines (d : IniDocument) : List CStr :=
  d.top.flatMap l.entryLines ++ d.sections.flatMap l.sectionLines

/-- The text of a document, with or without a byte order mark. -/
def IniLayout.render (mark : Bool) (d : IniDocument) : CStr :=
  (if mark then bom else []) ++ linesText ((l.lines d).map (· ++ l.trail))

/-- Every line is short enough for `ini_reader_string`, with a mark in front. -/
def IniLayout.Short (d : IniDocument) : Prop :=
  ∀ line ∈ l.lines d, bom.length + line.length + l.trail.length + 2 ≤ iniMaxLine

theorem IniLayout.blank_left : Blank l.left := (l.isBlank _ (by simp)).1
theorem IniLayout.blank_right : Blank l.right := (l.isBlank _ (by simp)).1
theorem IniLayout.blank_indent : Blank l.indent := (l.isBlank _ (by simp)).1
theorem IniLayout.blank_trail : Blank l.trail := (l.isBlank _ (by simp)).1

/-! ## §3. The scan. -/

/-- **A scan over text with no delimiter and no comment** stops behind it. -/
theorem find_append (chars : CStr) {s rest : CStr} (hfree : ∀ c ∈ s, c ∉ chars)
    (hrest : ∀ c ∈ rest.head?, c ∈ chars) {wasSpace : Bool}
    (hstart : ¬ (wasSpace = true ∧ s.head? = some (ascii ';'))) (hplain : NoComment s) :
    findCharsOrComment chars wasSpace (s ++ rest) = (s, rest) := by
  induction s generalizing wasSpace with
  | nil =>
      cases rest with
      | nil => rfl
      | cons c rest =>
          rw [List.nil_append, findCharsOrComment, if_pos (Or.inl (hrest c rfl))]
  | cons c s ih =>
      obtain ⟨hnext, hplain⟩ := noComment_cons.mp hplain
      have hgo : ¬ (c ∈ chars ∨ (wasSpace = true ∧ c = ascii ';')) := by
        rintro (hdelim | hcomment)
        · exact hfree c List.mem_cons_self hdelim
        · exact hstart ⟨hcomment.1, congrArg some hcomment.2⟩
      rw [List.cons_append, findCharsOrComment, if_neg hgo,
        ih (fun x hx => hfree x (List.mem_cons_of_mem _ hx)) hnext hplain]

theorem isspace_semicolon : isspace (ascii ';') = false := by decide

/-- Blanks behind a text, or in front of one that starts with no `;`, start no
comment. -/
theorem noComment_append {s t : CStr} (hs : NoComment s) (ht : NoComment t)
    (hhead : t.head? ≠ some (ascii ';')) : NoComment (s ++ t) := by
  induction s with
  | nil => exact ht
  | cons c s ih =>
      obtain ⟨hnext, hs⟩ := noComment_cons.mp hs
      rw [List.cons_append, noComment_cons]
      refine ⟨?_, ih hs⟩
      rintro ⟨hc, hsemi⟩
      cases s with
      | nil => exact hhead hsemi
      | cons x s => exact hnext ⟨hc, hsemi⟩

theorem noComment_blank {s : CStr} (hs : Blank s) : NoComment s := by
  intro b _ hin
  have hsemi := hs (ascii ';') (hin.subset (by simp))
  rw [isspace_semicolon] at hsemi
  exact absurd hsemi (by simp)

theorem head?_blank {s : CStr} (hs : Blank s) : s.head? ≠ some (ascii ';') := by
  intro hhead
  have hsemi := hs (ascii ';') (List.mem_of_head? hhead)
  rw [isspace_semicolon] at hsemi
  exact absurd hsemi (by simp)

/-! ## §4. One line of each kind. -/

theorem not_blank_sep {c : UInt8} (hc : c ∈ bytes "=:") : isspace c = false ∧ c ∉ bom := by
  have hcases : c = ascii '=' ∨ c = ascii ':' := by simpa [bytes] using hc
  rcases hcases with rfl | rfl <;> exact ⟨by decide, by decide⟩

theorem not_blank_bom {c : UInt8} (hc : c ∈ bom) : isspace c = false := by
  have hcases : c = 0xEF ∨ c = 0xBB ∨ c = 0xBF := by simpa [bom] using hc
  rcases hcases with rfl | rfl | rfl <;> decide

/-- No separator, and no blank, goes on with a mark. -/
theorem entryLine_unmarked {name : CStr} (hname : IniName name) (value : CStr) :
    ¬ bom <+: l.entryLine name value := by
  unfold IniLayout.entryLine
  rw [List.append_assoc]
  intro hbom
  rcases List.prefix_or_prefix_of_prefix hbom (List.prefix_append name _) with hin | hin
  · exact hname.unmarked hin
  · obtain ⟨rest, hrest⟩ := hin
    cases rest with
    | nil =>
        rw [List.append_nil] at hrest
        exact hname.unmarked (hrest ▸ List.prefix_rfl)
    | cons c rest =>
        have hc : c ∈ bom := by rw [← hrest]; simp
        rw [← hrest, List.prefix_append_right_inj] at hbom
        cases hleft : l.left with
        | nil =>
            rw [hleft, List.nil_append, List.cons_prefix_cons] at hbom
            rw [hbom.1] at hc
            exact (not_blank_sep l.isSep).2 hc
        | cons x left =>
            rw [hleft, List.cons_append, List.cons_prefix_cons] at hbom
            have hblank := l.blank_left x (by rw [hleft]; exact List.mem_cons_self)
            rw [← hbom.1, not_blank_bom hc] at hblank
            exact absurd hblank (by simp)

/-- What is in front of a value, and the value, when the line is stripped. -/
theorem rstrip_entryLine (name value : CStr) :
    rstrip (l.entryLine name value)
      = (name ++ l.left) ++ l.sep :: rstrip (l.right ++ value) :=
  Text.rdropWhile_append_cons (not_blank_sep l.isSep).1 _ _

theorem rstrip_right {value : CStr} (hvalue : IniValue value) :
    rstrip (l.right ++ value) = if value = [] then [] else l.right ++ value := by
  by_cases hempty : value = []
  · rw [if_pos hempty, hempty]
    have hnil := rstrip_append_blank [] (l.blank_right)
    simpa [rstrip] using hnil
  · rw [if_neg hempty]
    have hstripped := hvalue.stripped
    unfold rstrip at hstripped ⊢
    rw [List.rdropWhile_eq_self_iff] at hstripped ⊢
    intro hne
    rw [List.getLast_append_of_ne_nil hne hempty]
    exact hstripped hempty

/-- **The line of an entry** is its directive. -/
theorem iniLine_entry (lineno : Nat) (prevName : CStr) {name value : CStr} (hname : IniName name)
    (hvalue : IniValue value) :
    iniLine lineno prevName (l.entryLine name value)
      = (.directive name value, strncpy0 name maxName) := by
  obtain ⟨c, tail, hcons, hc, hsemi, hhash, hopen⟩ := hname.start
  have hnomark : ¬ (lineno = 1 ∧ bom <+: l.entryLine name value) :=
    fun h => entryLine_unmarked l hname value h.2
  -- the scan for the separator, and the scan for a comment in the value
  have hfree : ∀ x ∈ name ++ l.left, x ∉ bytes "=:" := by
    intro x hx hsep
    rcases List.mem_append.mp hx with hx | hx
    · exact hname.free x hx hsep
    · have hblank := l.blank_left x hx
      rw [(not_blank_sep hsep).1] at hblank
      exact absurd hblank (by simp)
  have hkey : findCharsOrComment (bytes "=:") false
      ((name ++ l.left) ++ l.sep :: rstrip (l.right ++ value))
      = (name ++ l.left, l.sep :: rstrip (l.right ++ value)) :=
    find_append (bytes "=:") hfree
      (by intro x hx; rw [← Option.some.inj hx]; exact l.isSep) (by simp)
      (noComment_append hname.plain (noComment_blank l.blank_left) (head?_blank l.blank_left))
  have hvalueplain : NoComment (rstrip (l.right ++ value)) := by
    rw [rstrip_right l hvalue]
    split
    · exact noComment_blank fun x hx => absurd hx (by simp)
    · exact noComment_append (noComment_blank l.blank_right) hvalue.plain hvalue.start
  have hval : findCharsOrComment [] false (rstrip (l.right ++ value) ++ [])
      = (rstrip (l.right ++ value), []) :=
    find_append [] (by simp) (by simp) (by simp) hvalueplain
  rw [List.append_nil] at hval
  have hread : rstrip (lskip (rstrip (l.right ++ value))) = value := by
    rw [rstrip_right l hvalue]
    split
    · next hempty => rw [hempty]; rfl
    · rw [lskip_append_blank l.blank_right, hvalue.skipped, hvalue.stripped]
  have hstart : lskip (rstrip (l.entryLine name value))
      = c :: (tail ++ (l.left ++ l.sep :: rstrip (l.right ++ value))) := by
    rw [rstrip_entryLine, hcons]
    simp only [List.cons_append, List.append_assoc]
    exact lskip_cons hc _
  have hwhole : c :: (tail ++ (l.left ++ l.sep :: rstrip (l.right ++ value)))
      = (name ++ l.left) ++ l.sep :: rstrip (l.right ++ value) := by
    rw [hcons]
    simp only [List.cons_append, List.append_assoc]
  have hsepcases : l.sep = ascii '=' ∨ l.sep = ascii ':' := by simpa [bytes] using l.isSep
  unfold iniLine
  simp only [hnomark, if_false]
  rw [hstart]
  dsimp only
  rw [if_neg (by simp only [hsemi, hhash, or_self, not_false_eq_true]), if_neg (by
      rw [hwhole, ← rstrip_entryLine]
      simp), if_neg hopen, hwhole, hkey]
  dsimp only
  rw [if_pos (by simpa using hsepcases), List.drop_one, List.tail_cons, hval, hread,
    rstrip_append_blank _ l.blank_left, hname.stripped]

/-- **An indented line** goes on with the value above it. -/
theorem iniLine_more (lineno : Nat) {prevName : CStr} (hprev : prevName ≠ []) {text : CStr}
    (htext : IniMore text) :
    iniLine lineno prevName (l.indent ++ text) = (.directive prevName text, prevName) := by
  obtain ⟨c, tail, hcons, hc, hsemi, hhash⟩ := htext.start
  obtain ⟨b, indent, hindent⟩ := List.exists_cons_of_ne_nil l.indented
  have hb : isspace b = true := l.blank_indent b (by rw [hindent]; exact List.mem_cons_self)
  have hnomark : ¬ (lineno = 1 ∧ bom <+: l.indent ++ text) := by
    rintro ⟨-, hbom⟩
    rw [hindent, List.cons_append, bom, List.cons_prefix_cons] at hbom
    rw [← hbom.1] at hb
    exact absurd hb (by decide)
  have hstrip : rstrip (l.indent ++ text) = l.indent ++ text := by
    have hkeep := htext.stripped
    unfold rstrip at hkeep ⊢
    rw [List.rdropWhile_eq_self_iff] at hkeep ⊢
    intro hne
    have htext : text ≠ [] := by rw [hcons]; simp
    rw [List.getLast_append_of_ne_nil hne htext]
    exact hkeep htext
  have hstart : lskip (l.indent ++ text) = c :: tail := by
    rw [lskip_append_blank l.blank_indent, hcons]
    exact lskip_cons hc tail
  unfold iniLine
  simp only [hnomark, if_false]
  rw [hstrip, hstart]
  dsimp only
  rw [if_neg (by simp only [hsemi, hhash, or_self, not_false_eq_true]), if_pos ⟨hprev, Or.inr (by
    rw [← hcons, hindent]
    simp only [List.cons_append, List.length_cons, List.length_append]
    omega)⟩, hcons]

/-- **A header line**, after which no name is in front of a continuation. -/
theorem iniLine_section (lineno : Nat) (prevName : CStr) {title : CStr} (htitle : IniTitle title) :
    iniLine lineno prevName (titleLine title) = (.header title, []) := by
  have hitem : (iniLine lineno prevName (titleLine title)).1 = .header title :=
    (iniLine_header lineno prevName _ title).mpr
      ⟨htitle.free, htitle.plain, List.prefix_rfl⟩
  have hprev : (iniLine lineno prevName (titleLine title)).2 = [] := by
    revert hitem
    unfold iniLine
    dsimp only
    split
    · intro h
      exact absurd h (by simp)
    · split_ifs <;> intro h
      -- only one branch leaves a header
      all_goals first | rfl | exact absurd h (by simp)
  exact Prod.ext hitem hprev

/-! ## §5. All lines. -/

/-- **The lines of an entry** are its items, wherever they stand. -/
theorem entry_items (e : IniEntry) (n : Nat) (prevName : CStr) (rest : List CStr) :
    ∃ m prevName', iniItemsFrom n prevName (l.entryLines e ++ rest)
      = e.items ++ iniItemsFrom m prevName' rest := by
  unfold IniLayout.entryLines IniEntry.items
  rw [List.cons_append, iniItemsFrom, iniLine_entry l _ _ e.isName e.isValue]
  have hmore : ∀ (more : List CStr) (m : Nat), (∀ text ∈ more, IniMore text) →
      (more ≠ [] → e.name.length < maxName) →
      ∃ m', iniItemsFrom m (strncpy0 e.name maxName) (more.map (l.indent ++ ·) ++ rest)
        = more.map (.directive e.name) ++ iniItemsFrom m' (strncpy0 e.name maxName) rest := by
    intro more
    induction more with
    | nil => exact fun m _ _ => ⟨m, rfl⟩
    | cons text more ih =>
        intro m htexts hshort
        have hkept : strncpy0 e.name maxName = e.name := by
          have := hshort (by simp)
          exact List.take_of_length_le (by omega)
        have hne : e.name ≠ [] := by
          obtain ⟨c, tail, hcons, -⟩ := e.isName.start
          rw [hcons]
          simp
        obtain ⟨m', hrest⟩ := ih (m + 1) (fun t ht => htexts t (List.mem_cons_of_mem _ ht))
          (fun _ => hshort (by simp))
        refine ⟨m', ?_⟩
        rw [List.map_cons, List.cons_append, iniItemsFrom,
          iniLine_more l _ (by rw [hkept]; exact hne) (htexts text List.mem_cons_self)]
        dsimp only
        rw [hrest, hkept]
        rfl
  obtain ⟨m', hrest⟩ := hmore e.more (n + 1) e.isMore e.kept
  exact ⟨m', strncpy0 e.name maxName, congrArg (_ :: ·) hrest⟩

theorem entries_items (entries : List IniEntry) (n : Nat) (prevName : CStr) (rest : List CStr) :
    ∃ m prevName', iniItemsFrom n prevName (entries.flatMap l.entryLines ++ rest)
      = entries.flatMap IniEntry.items ++ iniItemsFrom m prevName' rest := by
  induction entries generalizing n prevName with
  | nil => exact ⟨n, prevName, rfl⟩
  | cons e entries ih =>
      obtain ⟨m, prevName', hentry⟩ :=
        entry_items l e n prevName (entries.flatMap l.entryLines ++ rest)
      obtain ⟨m', prevName'', hrest⟩ := ih m prevName'
      refine ⟨m', prevName'', ?_⟩
      rw [List.flatMap_cons, List.flatMap_cons, List.append_assoc, List.append_assoc, hentry,
        hrest]

theorem sections_items (sections : List IniSection) (n : Nat) (prevName : CStr) :
    iniItemsFrom n prevName (sections.flatMap l.sectionLines)
      = sections.flatMap IniSection.items := by
  induction sections generalizing n prevName with
  | nil => rfl
  | cons s sections ih =>
      obtain ⟨m, prevName', hentries⟩ :=
        entries_items l s.entries (n + 1) [] (sections.flatMap l.sectionLines)
      rw [List.flatMap_cons, List.flatMap_cons, IniLayout.sectionLines, List.cons_append,
        iniItemsFrom, iniLine_section _ _ s.isTitle]
      dsimp only
      rw [hentries, ih]
      rfl

/-- **The lines of a document** are its items. -/
theorem document_items (d : IniDocument) : iniItemsFrom 0 [] (l.lines d) = d.items := by
  obtain ⟨m, prevName, htop⟩ := entries_items l d.top 0 [] (d.sections.flatMap l.sectionLines)
  rw [IniLayout.lines, htop, sections_items]
  rfl

/-- A mark in front of the first line is skipped. -/
theorem iniLine_bom (line : CStr) : iniLine 1 [] (bom ++ line) = iniLine 2 [] line := by
  unfold iniLine
  simp only [List.prefix_append, and_self, if_true, show ¬ (2 : Nat) = 1 by omega, false_and,
    if_false, ne_eq, not_true_eq_false]
  rfl

theorem iniLine_unmarked (prevName : CStr) {line : CStr} (h : ¬ bom <+: line) :
    iniLine 1 prevName line = iniLine 2 prevName line := by
  unfold iniLine
  simp only [h, and_false, if_false]

theorem mem_lines {d : IniDocument} {line : CStr} (h : line ∈ l.lines d) :
    (∃ name value, IniName name ∧ IniValue value ∧ line = l.entryLine name value)
      ∨ (∃ text, IniMore text ∧ line = l.indent ++ text)
      ∨ ∃ title, IniTitle title ∧ line = titleLine title := by
  have hentry : ∀ e : IniEntry, line ∈ l.entryLines e →
      (∃ name value, IniName name ∧ IniValue value ∧ line = l.entryLine name value)
        ∨ ∃ text, IniMore text ∧ line = l.indent ++ text := by
    intro e he
    rcases List.mem_cons.mp he with rfl | he
    · exact Or.inl ⟨e.name, e.value, e.isName, e.isValue, rfl⟩
    · obtain ⟨text, htext, rfl⟩ := List.mem_map.mp he
      exact Or.inr ⟨text, e.isMore text htext, rfl⟩
  rcases List.mem_append.mp h with htop | hsections
  · obtain ⟨e, -, he⟩ := List.mem_flatMap.mp htop
    exact (hentry e he).imp_right Or.inl
  · obtain ⟨s, -, hs⟩ := List.mem_flatMap.mp hsections
    rcases List.mem_cons.mp hs with rfl | hs
    · exact Or.inr (Or.inr ⟨s.title, s.isTitle, rfl⟩)
    · obtain ⟨e, -, he⟩ := List.mem_flatMap.mp hs
      exact (hentry e he).imp_right Or.inl

/-- No line holds a newline. -/
theorem newline_not_mem_lines {d : IniDocument} {line : CStr} (h : line ∈ l.lines d) :
    ascii '\n' ∉ line := by
  have hparts : ∀ s ∈ [l.left, l.right, l.indent, l.trail], ascii '\n' ∉ s :=
    fun s hs => (l.isBlank s hs).2
  have hsep : ascii '\n' ≠ l.sep := by
    intro hsep
    have := (not_blank_sep l.isSep).1
    rw [← hsep] at this
    exact absurd this (by decide)
  rcases mem_lines l h with ⟨name, value, hname, hvalue, rfl⟩ | ⟨text, htext, rfl⟩
      | ⟨title, htitle, rfl⟩
  · simp [IniLayout.entryLine, hname.line, hvalue.line, hsep, hparts]
  · simp [htext.line, hparts]
  · simp [titleLine, htitle.line]

/-- No line starts with a mark. -/
theorem lines_unmarked {d : IniDocument} {line : CStr} (h : line ∈ l.lines d) :
    ¬ bom <+: line := by
  rcases mem_lines l h with ⟨name, value, hname, -, rfl⟩ | ⟨text, -, rfl⟩ | ⟨title, -, rfl⟩
  · exact entryLine_unmarked l hname value
  · obtain ⟨b, indent, hindent⟩ := List.exists_cons_of_ne_nil l.indented
    intro hbom
    have hb : isspace b = true := l.blank_indent b (by rw [hindent]; exact List.mem_cons_self)
    rw [hindent, List.cons_append, bom, List.cons_prefix_cons] at hbom
    rw [← hbom.1] at hb
    exact absurd hb (by decide)
  · intro hbom
    exact absurd (List.cons_prefix_cons.mp hbom).1 (by decide)

/-- **The text of a document** has the items of the document, and with a mark
and no lines one blank item. -/
theorem render_items (mark : Bool) (d : IniDocument) (hshort : l.Short d) :
    (iniItems (l.render mark d)).filter (· ≠ .blank) = d.items.filter (· ≠ .blank) := by
  have hitems : iniItemsFrom 0 [] ((l.lines d).map (· ++ l.trail)) = d.items := by
    have hend := iniItemsFrom_endings id (fun _ => l.trail) (l.lines d)
      (fun _ _ => l.blank_trail) 0 []
    rw [List.map_id] at hend
    exact hend.trans (document_items l d)
  have hfits : ∀ line ∈ (l.lines d).map (· ++ l.trail), ascii '\n' ∉ line
      ∧ bom.length + line.length + 2 ≤ iniMaxLine := by
    intro line hline
    obtain ⟨line, hmem, rfl⟩ := List.mem_map.mp hline
    have hlen := hshort line hmem
    have htrail := (l.isBlank l.trail (by simp)).2
    refine ⟨?_, by rw [List.length_append]; omega⟩
    rw [List.mem_append, not_or]
    exact ⟨newline_not_mem_lines l hmem, htrail⟩
  have hplain : ∀ line ∈ (l.lines d).map (· ++ l.trail), FitsLine line := fun line hline =>
    ⟨(hfits line hline).1, by have := (hfits line hline).2; omega⟩
  cases mark with
  | false =>
      have htext : l.render false d = linesText ((l.lines d).map (· ++ l.trail)) := rfl
      rw [htext, iniItems_linesText _ hplain, hitems]
  | true =>
      cases hlines : l.lines d with
      | nil =>
          -- the mark is a line of its own, and a blank one
          rw [hlines] at hitems
          have htext : l.render true d = bom := by
            unfold IniLayout.render
            rw [hlines]
            rfl
          have hempty : d.items = [] := hitems.symm
          rw [htext, hempty]
          decide
      | cons first rest =>
          have htext : l.render true d
              = linesText ((bom ++ (first ++ l.trail)) :: rest.map (· ++ l.trail)) := by
            unfold IniLayout.render linesText
            rw [hlines, if_pos rfl, List.map_cons, List.flatMap_cons, List.flatMap_cons]
            simp only [List.append_assoc]
          have hmem : first ∈ l.lines d := by rw [hlines]; exact List.mem_cons_self
          rw [hlines, List.map_cons] at hitems hplain hfits
          rw [htext, iniItems_linesText, ← hitems, iniItemsFrom, iniItemsFrom, iniLine_bom,
            iniLine_append_blank _ _ _ l.blank_trail, iniLine_append_blank _ _ _ l.blank_trail,
            Nat.zero_add, iniLine_unmarked _ (lines_unmarked l hmem)]
          intro line hline
          rcases List.mem_cons.mp hline with rfl | hline
          · obtain ⟨hnl, hlen⟩ := hfits _ List.mem_cons_self
            refine ⟨?_, by rw [List.length_append]; omega⟩
            rw [List.mem_append, not_or]
            exact ⟨by decide, hnl⟩
          · exact hplain line (List.mem_cons_of_mem _ hline)

end Layout

/-! ## §6. The round trip. -/

theorem standingUnder_more (header : Option CStr) (name : CStr) (values : List CStr) :
    standingUnder header (values.map (.directive name))
      = values.map fun value => ⟨header, name, value⟩ := by
  induction values with
  | nil => rfl
  | cons value values ih => exact congrArg (_ :: ·) ih

theorem headerBelow_directives (header : Option CStr) (name : CStr) (values : List CStr) :
    headerBelow header (values.map (.directive name)) = header := by
  induction values with
  | nil => rfl
  | cons value values ih => exact ih

theorem standingUnder_entries (header : Option CStr) (entries : List IniEntry)
    (items : List IniItem) :
    standingUnder header (entries.flatMap IniEntry.items ++ items)
      = entries.flatMap (IniEntry.standing header) ++ standingUnder header items := by
  induction entries with
  | nil => rfl
  | cons e entries ih =>
      have hitems : e.items = (e.value :: e.more).map (.directive e.name) := rfl
      rw [List.flatMap_cons, List.flatMap_cons, List.append_assoc, standingUnder_append, hitems,
        standingUnder_more, headerBelow_directives, ih, List.append_assoc]
      rfl

/-- The items of a document tell the handler what the document says. -/
theorem standingUnder_items (d : IniDocument) : standingUnder none d.items = d.directives := by
  have hsections : ∀ (sections : List IniSection) (header : Option CStr),
      standingUnder header (sections.flatMap IniSection.items)
        = sections.flatMap fun s => s.entries.flatMap (IniEntry.standing (some s.title)) := by
    intro sections
    induction sections with
    | nil => exact fun _ => rfl
    | cons s sections ih =>
        intro header
        have hstart := standingUnder_entries (some s.title) s.entries
          (sections.flatMap IniSection.items)
        rw [ih] at hstart
        exact hstart
  rw [IniDocument.items, standingUnder_entries, hsections]
  rfl

theorem malformed_not_mem_items (d : IniDocument) : .malformed ∉ d.items := by
  have hentry : ∀ e : IniEntry, .malformed ∉ e.items := by
    intro e h
    rcases List.mem_cons.mp h with h | h
    · exact absurd h (by simp)
    · obtain ⟨text, -, htext⟩ := List.mem_map.mp h
      exact absurd htext (by simp)
  intro h
  rcases List.mem_append.mp h with h | h
  · obtain ⟨e, -, he⟩ := List.mem_flatMap.mp h
    exact hentry e he
  · obtain ⟨s, -, hs⟩ := List.mem_flatMap.mp h
    rcases List.mem_cons.mp hs with hs | hs
    · exact absurd hs (by simp)
    · obtain ⟨e, -, he⟩ := List.mem_flatMap.mp hs
      exact hentry e he

/-- The directives read from a document that was written down. -/
theorem render_directives (l : IniLayout) (mark : Bool) (d : IniDocument) (hshort : l.Short d) :
    iniDirectives (l.render mark d) = d.directives := by
  unfold iniDirectives
  rw [← standingUnder_filter, render_items l mark d hshort, standingUnder_filter,
    standingUnder_items]

/-- The parser returns 0 for a document that the handler refuses nothing of. -/
theorem render_accepted (l : IniLayout) (mark : Bool) (d : IniDocument) (hshort : l.Short d)
    {σ : Type} (handler : σ → IniEvent → Int × σ) (user : σ) :
    (iniParseString handler (l.render mark d) user).1 = 0 ↔ Accepts handler d.directives user := by
  have hmalformed : IniItem.malformed ∉ iniItems (l.render mark d) := by
    intro h
    have hkept : IniItem.malformed ∈ d.items.filter (· ≠ .blank) := by
      rw [← render_items l mark d hshort]
      exact List.mem_filter.mpr ⟨h, by simp⟩
    exact malformed_not_mem_items d (List.mem_of_mem_filter hkept)
  rw [parse_error, firstFault_eq_zero, and_iff_right hmalformed]
  show Accepts handler (iniDirectives (l.render mark d)) user ↔ _
  rw [render_directives l mark d hshort]

/-- **THE ROUND TRIP**: a document that is written down, in any layout and with
or without a byte order mark, is delivered as it stands, and the parser
returns 0 if and only if the handler refuses nothing of it. -/
theorem document_roundtrip (l : IniLayout) (mark : Bool) (d : IniDocument) (hshort : l.Short d)
    {σ : Type} (handler : σ → IniEvent → Int × σ) (user : σ) :
    (iniParseString handler (l.render mark d) user).2 = called handler d.directives user
      ∧ ((iniParseString handler (l.render mark d) user).1 = 0
        ↔ Accepts handler d.directives user) := by
  refine ⟨?_, render_accepted l mark d hshort handler user⟩
  rw [parse_directives, render_directives l mark d hshort]

theorem noComment_of_not_mem {s : CStr} (h : ascii ';' ∉ s) : NoComment s :=
  fun _ _ hin => h (hin.subset (by simp))

/-- `cmd = a` and a line below it. -/
def cmdEntry : IniEntry where
  name := bytes "cmd"
  value := bytes "a"
  more := [bytes "b"]
  isName := ⟨⟨_, _, rfl, by decide⟩, by decide, by decide, by decide +kernel,
    noComment_of_not_mem (by decide), by decide⟩
  isValue := ⟨by decide, by decide, by decide, noComment_of_not_mem (by decide), by decide⟩
  isMore := by
    intro text htext
    rw [List.mem_singleton.mp htext]
    exact ⟨⟨_, _, rfl, by decide⟩, by decide, by decide⟩
  kept := by decide

/-- A section with this entry. -/
def cmdDocument : IniDocument where
  top := []
  sections := [⟨bytes "h", [cmdEntry], by decide, by decide, noComment_of_not_mem (by decide)⟩]

/-- ` = `, and CR LF behind each line. -/
def crlfLayout : IniLayout where
  sep := ascii '='
  left := bytes " "
  right := bytes " "
  indent := bytes "  "
  trail := bytes "\r"
  isSep := by decide
  isBlank := by
    unfold Blank
    decide +kernel
  indented := by decide

/-- The lines of such a file, read by a handler that keeps what it is given. -/
theorem document_roundtrip_crlf :
    crlfLayout.render false cmdDocument = bytes "[h]\r\ncmd = a\r\n  b\r\n"
      ∧ (iniParseString (fun events event => (1, events ++ [event]))
          (crlfLayout.render true cmdDocument) []).2
        = [⟨bytes "h", bytes "cmd", bytes "a"⟩, ⟨bytes "h", bytes "cmd", bytes "b"⟩] :=
  ⟨by decide, (document_roundtrip crlfLayout true cmdDocument
    (by unfold IniLayout.Short; decide +kernel) (fun events event => (1, events ++ [event])) []).1⟩

end Protohand
