/-
  Protohand.Ini
  ─────────────
  **lib/ini.c**, as the Makefile builds it: lines of at most 4096 bytes,
  continuation lines, a byte order mark and inline comments allowed.

  What a line is (`IniItem`) depends on nothing but its text, its number and
  the name in front of it, so the loop is split in two: `iniLine` reads a
  line, `iniStep` acts on what it read.  The handler is a parameter.

    • `iniReaderString_lines` — the lines are what the reader returns,
    • `iniLine_header`        — which line opens a section,
    • `parse_directives`      — the handler is called once for each directive,
      in order, with the header above it cut to 49 bytes.
-/
import Protohand.Config

namespace Protohand

open Text

/-! ## §1. The reader. -/

/-- `MAX_SECTION`, `MAX_NAME` and `INI_MAX_LINE`. -/
def maxSection : Nat := 50
def maxName : Nat := 50
def iniMaxLine : Nat := 4096

/-- The `while` loop of `ini_reader_string`: the line, and what is left. -/
def readerLoop : Nat → CStr → CStr × CStr
  | _, [] => ([], [])
  | num, c :: ctx =>
      if num ≤ 1 then ([], c :: ctx)
      else if c = ascii '\n' then ([c], ctx)
      else
        let r := readerLoop (num - 1) ctx
        (c :: r.1, r.2)

/-- `ini_reader_string`: `none` is the NULL it returns. -/
def iniReaderString (num : Nat) (ctx : CStr) : Option (CStr × CStr) :=
  if ctx = [] ∨ num < 2 then none else some (readerLoop num ctx)

/-- The lines of a text, where `num` is what is left of the current one. -/
def linesFrom (size : Nat) : Nat → CStr → List CStr
  | _, [] => []
  | num, c :: ctx =>
      if c = ascii '\n' ∨ num ≤ 2 then [c] :: linesFrom size size ctx
      else match linesFrom size (num - 1) ctx with
        | line :: lines => if ctx = [] then [c] :: line :: lines else (c :: line) :: lines
        | [] => [[c]]

/-- The lines that the calls of `ini_reader_string` return. -/
def iniLines (text : CStr) : List CStr := linesFrom iniMaxLine iniMaxLine text

theorem linesFrom_readerLoop (size : Nat) {num : Nat} (hnum : 2 ≤ num) {text : CStr}
    (htext : text ≠ []) :
    linesFrom size num text
      = (readerLoop num text).1 :: linesFrom size size (readerLoop num text).2 := by
  induction text generalizing num with
  | nil => exact absurd rfl htext
  | cons c ctx ih =>
      have hmore : ¬ num ≤ 1 := by omega
      rw [linesFrom, readerLoop, if_neg hmore]
      by_cases hnl : c = ascii '\n'
      · rw [if_pos (Or.inl hnl), if_pos hnl]
      · rw [if_neg hnl]
        by_cases hlast : num ≤ 2
        · -- the next round finds no room
          rw [if_pos (Or.inr hlast)]
          have hnum' : num - 1 = 1 := by omega
          rw [hnum']
          cases ctx with
          | nil => rfl
          | cons d ctx => rfl
        · rw [if_neg (by simp only [hnl, hlast, or_self, not_false_eq_true])]
          by_cases hctx : ctx = []
          · subst hctx
            rfl
          · rw [ih (by omega) hctx]
            dsimp only
            rw [if_neg hctx]

/-- **The lines are what the reader returns**, one call after the other. -/
theorem iniReaderString_lines (text : CStr) :
    iniLines text = match iniReaderString iniMaxLine text with
      | none => []
      | some (line, rest) => line :: iniLines rest := by
  unfold iniReaderString
  by_cases htext : text = []
  · rw [if_pos (Or.inl htext), htext]
    rfl
  · rw [if_neg (by simp [htext, iniMaxLine])]
    exact linesFrom_readerLoop iniMaxLine (by decide) htext

theorem readerLoop_line {line : CStr} (hline : ascii '\n' ∉ line) (rest : CStr) {num : Nat}
    (hnum : line.length + 2 ≤ num) :
    readerLoop num (line ++ ascii '\n' :: rest) = (line ++ [ascii '\n'], rest) := by
  induction line generalizing num with
  | nil =>
      have hmore : ¬ num ≤ 1 := by simp at hnum; omega
      rw [List.nil_append, readerLoop, if_neg hmore, if_pos rfl]
      rfl
  | cons c line ih =>
      simp only [List.length_cons, List.mem_cons, not_or] at hnum hline
      have hmore : ¬ num ≤ 1 := by omega
      rw [List.cons_append, readerLoop, if_neg hmore, if_neg (Ne.symm hline.1),
        ih hline.2 (by omega)]
      rfl

/-- A line that fits is read whole. -/
theorem iniLines_cons {line : CStr} (hline : ascii '\n' ∉ line) (rest : CStr)
    (hfits : line.length + 2 ≤ iniMaxLine) :
    iniLines (line ++ ascii '\n' :: rest) = (line ++ [ascii '\n']) :: iniLines rest := by
  unfold iniLines
  rw [linesFrom_readerLoop iniMaxLine (by decide) (by simp), readerLoop_line hline rest hfits]

/-! ## §2. One line. -/

/-- `rstrip`. -/
def rstrip (s : CStr) : CStr := s.rdropWhile isspace

/-- `lskip`. -/
def lskip (s : CStr) : CStr := s.dropWhile isspace

/-- `find_chars_or_comment`: what is in front of the pointer it returns, and
what the pointer points to.  `chars` is empty where the source passes NULL. -/
def findCharsOrComment (chars : CStr) : Bool → CStr → CStr × CStr
  | _, [] => ([], [])
  | wasSpace, c :: s =>
      if c ∈ chars ∨ (wasSpace = true ∧ c = ascii ';') then ([], c :: s)
      else
        let r := findCharsOrComment chars (isspace c) s
        (c :: r.1, r.2)

/-- `strncpy0` into an array of `size` bytes. -/
def strncpy0 (src : CStr) (size : Nat) : CStr := src.take (size - 1)

/-- What a line is. -/
inductive IniItem where
  | blank
  | malformed
  | header (name : CStr)
  | directive (name value : CStr)
  deriving DecidableEq, Repr

/-- The byte order mark. -/
def bom : CStr := [0xEF, 0xBB, 0xBF]

/-- What a line of `ini_parse_stream` is, and `prev_name` behind it. -/
def iniLine (lineno : Nat) (prevName line : CStr) : IniItem × CStr :=
  let marked := lineno = 1 ∧ bom <+: line
  let stripped := rstrip (if marked then line.drop 3 else line)
  match lskip stripped with
  | [] => (.blank, prevName)
  | c :: rest =>
      let start := c :: rest
      if c = ascii ';' ∨ c = ascii '#' then (.blank, prevName)
      -- leading white space behind a name: the value goes on
      else if prevName ≠ [] ∧ (marked ∨ start.length < stripped.length) then
        (.directive prevName start, prevName)
      else if c = ascii '[' then
        let section_end := findCharsOrComment (bytes "]") false rest
        if section_end.2.head? = some (ascii ']') then (.header section_end.1, [])
        else (.malformed, prevName)
      else
        let name_end := findCharsOrComment (bytes "=:") false start
        if name_end.2.head? = some (ascii '=') ∨ name_end.2.head? = some (ascii ':') then
          let name := rstrip name_end.1
          let value := (findCharsOrComment [] false (name_end.2.drop 1)).1
          (.directive name (rstrip (lskip value)), strncpy0 name maxName)
        else (.malformed, prevName)

/-! ## §3. Header lines. -/

/-- No inline comment starts in the text. -/
def NoComment (s : CStr) : Prop := ∀ b, isspace b = true → ¬ [b, ascii ';'] <:+: s

/-- The text starts with `[name]`. -/
def IsHeader (name text : CStr) : Prop :=
  ascii ']' ∉ name ∧ NoComment name ∧ ascii '[' :: (name ++ [ascii ']']) <+: text

theorem noComment_cons {c : UInt8} {s : CStr} :
    NoComment (c :: s) ↔ ¬ (isspace c = true ∧ s.head? = some (ascii ';')) ∧ NoComment s := by
  unfold NoComment
  constructor
  · intro h
    refine ⟨fun hc => h c hc.1 (pair_infix_cons.mpr (Or.inl ⟨rfl, hc.2⟩)), ?_⟩
    exact fun b hb hin => h b hb (pair_infix_cons.mpr (Or.inr hin))
  · intro h b hb hin
    rcases pair_infix_cons.mp hin with ⟨rfl, hhead⟩ | hin
    · exact h.1 ⟨hb, hhead⟩
    · exact h.2 b hb hin

/-- Where the search for one character ends at it. -/
theorem findCharsOrComment_iff (d : UInt8) (text : CStr) (wasSpace : Bool) (name : CStr) :
    ((findCharsOrComment [d] wasSpace text).1 = name
        ∧ (findCharsOrComment [d] wasSpace text).2.head? = some d)
      ↔ d ∉ name ∧ ¬ (wasSpace = true ∧ name.head? = some (ascii ';')) ∧ NoComment name
          ∧ name ++ [d] <+: text := by
  induction text generalizing wasSpace name with
  | nil => simp [findCharsOrComment]
  | cons c text ih =>
      rw [findCharsOrComment]
      by_cases hstop : c ∈ [d] ∨ (wasSpace = true ∧ c = ascii ';')
      · rw [if_pos hstop]
        cases name with
        | nil =>
            have hno : NoComment [] := fun b hb hin => by simp at hin
            simp [hno, eq_comm]
        | cons x name =>
            -- the first character of the name would have stopped the search
            constructor
            · intro h
              exact absurd h.1 (by simp)
            · rintro ⟨hfree, hcomment, -, hpre⟩
              rw [List.cons_append, List.cons_prefix_cons] at hpre
              obtain ⟨rfl, -⟩ := hpre
              rcases hstop with hstop | hstop
              · exact absurd (List.mem_singleton.mp hstop).symm (List.ne_of_not_mem_cons hfree)
              · exact absurd ⟨hstop.1, congrArg some hstop.2⟩ hcomment
      · rw [if_neg hstop]
        simp only [List.mem_singleton, not_or] at hstop
        cases name with
        | nil => simp [Ne.symm hstop.1]
        | cons x name =>
            rw [List.cons_append, List.cons_prefix_cons, noComment_cons, List.head?_cons,
              Option.some.injEq, List.mem_cons]
            dsimp only
            rw [List.cons.injEq, and_assoc, ih]
            constructor
            · rintro ⟨rfl, hfree, hspace, hno, hpre⟩
              exact ⟨by simp [hfree, Ne.symm hstop.1], hstop.2, ⟨hspace, hno⟩, rfl, hpre⟩
            · rintro ⟨hfree, -, ⟨hspace, hno⟩, rfl, hpre⟩
              exact ⟨rfl, fun hmem => hfree (Or.inr hmem), hspace, hno, hpre⟩

/-- Trailing blanks are behind every character that is none. -/
theorem rstrip_cons {c : UInt8} (hc : isspace c = false) (text : CStr) :
    rstrip (c :: text) = c :: rstrip text := rdropWhile_append_cons hc [] text

theorem prefix_rstrip {s text : CStr} {d : UInt8} (hd : isspace d = false) :
    s ++ [d] <+: rstrip text ↔ s ++ [d] <+: text := by
  constructor
  · exact fun h => h.trans (List.rdropWhile_prefix _ _)
  · rintro ⟨rest, rfl⟩
    unfold rstrip
    rw [List.append_assoc, List.singleton_append, rdropWhile_append_cons hd]
    exact ⟨rest.rdropWhile isspace, by simp⟩

/-- **Which line opens a section**: one that starts with `[name]`, where the
name holds no `]` and no inline comment. -/
theorem iniLine_header (lineno : Nat) (prevName rest name : CStr) :
    (iniLine lineno prevName (ascii '[' :: rest)).1 = .header name
      ↔ IsHeader name (ascii '[' :: rest) := by
  have hnobom : ¬ (lineno = 1 ∧ bom <+: ascii '[' :: rest) := by
    rintro ⟨-, hpre⟩
    exact absurd (List.cons_prefix_cons.mp hpre).1 (by decide)
  have hopen : isspace (ascii '[') = false := by decide
  have hskip : lskip (ascii '[' :: rstrip rest) = ascii '[' :: rstrip rest := by
    unfold lskip
    rw [List.dropWhile_cons, if_neg (by rw [hopen]; simp)]
  have hnear : ¬ (prevName ≠ [] ∧ (False ∨ (ascii '[' :: rstrip rest).length
      < (ascii '[' :: rstrip rest).length)) := by simp
  have hfind := findCharsOrComment_iff (ascii ']') (rstrip rest) false name
  unfold iniLine IsHeader
  simp only [hnobom, if_false]
  rw [rstrip_cons hopen, hskip, List.cons_prefix_cons]
  dsimp only
  rw [if_neg (by decide), if_neg hnear, if_pos rfl]
  rw [prefix_rstrip (by decide)] at hfind
  have hitem : ∀ found : CStr × CStr,
      (if found.2.head? = some (ascii ']') then (IniItem.header found.1, ([] : CStr))
        else (IniItem.malformed, prevName)).1 = .header name
      ↔ found.1 = name ∧ found.2.head? = some (ascii ']') := by
    intro found
    split
    · next hclose => simp [hclose]
    · next hopen => simp [hopen]
  show (if _ then (IniItem.header _, ([] : CStr)) else _).1 = .header name ↔ _
  rw [hitem, show bytes "]" = [ascii ']'] from rfl, hfind]
  simp

/-! ## §4. The lines of a text. -/

/-- What the lines are, from a line number and a `prev_name` on. -/
def iniItemsFrom : Nat → CStr → List CStr → List IniItem
  | _, _, [] => []
  | lineno, prevName, line :: lines =>
      let r := iniLine (lineno + 1) prevName line
      r.1 :: iniItemsFrom (lineno + 1) r.2 lines

/-- What the lines of a text are. -/
def iniItems (text : CStr) : List IniItem := iniItemsFrom 0 [] (iniLines text)

/-- A directive, and the name in the header it stands under. -/
structure Standing where
  header : Option CStr
  name : CStr
  value : CStr
  deriving DecidableEq, Repr

/-- The directives of a text, below a header. -/
def standingUnder : Option CStr → List IniItem → List Standing
  | _, [] => []
  | _, .header name :: items => standingUnder (some name) items
  | header, .directive name value :: items => ⟨header, name, value⟩ :: standingUnder header items
  | header, .blank :: items => standingUnder header items
  | header, .malformed :: items => standingUnder header items

/-- The directives of a text. -/
def iniDirectives (text : CStr) : List Standing := standingUnder none (iniItems text)

/-- `section` below a header. -/
def sectionBuffer : Option CStr → CStr
  | none => []
  | some name => strncpy0 name maxSection

/-- What the handler is called with. -/
def Standing.event (d : Standing) : IniEvent := ⟨sectionBuffer d.header, d.name, d.value⟩

/-! ## §5. `ini_parse_stream`. -/

/-- The variables of `ini_parse_stream`, and what `user` points to. -/
structure IniLoop (σ : Type) where
  sect : CStr
  prevName : CStr
  lineno : Nat
  error : Nat
  user : σ

section Parse

variable {σ : Type} (handler : σ → IniEvent → Int × σ)

/-- `if (!error) error = lineno`. -/
def firstError (error lineno : Nat) : Nat := if error = 0 then lineno else error

/-- What the loop does with a line it has read. -/
def iniAct (s : IniLoop σ) : IniItem → IniLoop σ
  | .blank => s
  | .malformed => { s with error := firstError s.error s.lineno }
  | .header name => { s with sect := strncpy0 name maxSection }
  | .directive name value =>
      let result := handler s.user ⟨s.sect, name, value⟩
      { s with
        user := result.2
        error := if result.1 = 0 then firstError s.error s.lineno else s.error }

/-- One round of the loop. -/
def iniStep (s : IniLoop σ) (line : CStr) : IniLoop σ :=
  let r := iniLine (s.lineno + 1) s.prevName line
  iniAct handler { s with lineno := s.lineno + 1, prevName := r.2 } r.1

/-- `ini_parse_string`: its result, and what `user` points to afterwards.  The
loop does not stop at an error. -/
def iniParseString (text : CStr) (user : σ) : Nat × σ :=
  let s := (iniLines text).foldl (iniStep handler) ⟨[], [], 0, 0, user⟩
  (s.error, s.user)

/-- What the handler makes of some directives. -/
def called (ds : List Standing) (user : σ) : σ :=
  ds.foldl (fun user d => (handler user d.event).2) user

/-- **A line that is read** gives the handler its directive, or the lines below
it their header. -/
theorem act_directives (item : IniItem) (s : IniLoop σ) (header : Option CStr)
    (hs : s.sect = sectionBuffer header) :
    (iniAct handler s item).lineno = s.lineno ∧ (iniAct handler s item).prevName = s.prevName
      ∧ ∃ header' : Option CStr, (iniAct handler s item).sect = sectionBuffer header'
        ∧ ∀ items, called handler (standingUnder header (item :: items)) s.user
            = called handler (standingUnder header' items) (iniAct handler s item).user := by
  cases item with
  | blank => exact ⟨rfl, rfl, header, hs, fun _ => rfl⟩
  | malformed => exact ⟨rfl, rfl, header, hs, fun _ => rfl⟩
  | header name => exact ⟨rfl, rfl, some name, rfl, fun _ => rfl⟩
  | directive name value =>
      refine ⟨rfl, rfl, header, hs, ?_⟩
      intro items
      show _ = called handler _ (handler s.user ⟨s.sect, name, value⟩).2
      rw [hs]
      rfl

theorem run_directives (lines : List CStr) (s : IniLoop σ) (header : Option CStr)
    (hs : s.sect = sectionBuffer header) :
    (lines.foldl (iniStep handler) s).user
      = called handler (standingUnder header (iniItemsFrom s.lineno s.prevName lines)) s.user := by
  induction lines generalizing s header with
  | nil => rfl
  | cons line lines ih =>
      have hact := act_directives handler (iniLine (s.lineno + 1) s.prevName line).1
        { s with
          lineno := s.lineno + 1
          prevName := (iniLine (s.lineno + 1) s.prevName line).2 } header hs
      obtain ⟨hline, hprev, header', hsect, hcalls⟩ := hact
      rw [List.foldl_cons, iniItemsFrom, hcalls, ih (iniStep handler s line) header' hsect]
      unfold iniStep
      rw [hline, hprev]

/-- **The handler is called once for each directive**, in order, with the
header above it as `section` holds it. -/
theorem parse_directives (text : CStr) (user : σ) :
    (iniParseString handler text user).2 = called handler (iniDirectives text) user :=
  run_directives handler (iniLines text) ⟨[], [], 0, 0, user⟩ none rfl

end Parse

end Protohand
