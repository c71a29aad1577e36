/-
  Protohand.Ini.Layout
  ────────────────────
  **WHAT THE INI PARSER DOES NOT SEE**: the end of a line (LF or CR LF, with
  any blanks in front of it), lines of blanks, and comment lines.

  Two facts about `iniLine` carry this.  A line is stripped before anything
  is read from it, the byte order mark aside, so blanks behind it are not
  seen (`iniLine_append_blank`); and a note leaves `prev_name` alone, so not
  even the continuation of a value is torn apart by it (`iniLine_note`).

    • `iniLines_linesText` — the reader returns the lines of a text,
    • `layout_unseen`      — endings and notes change neither what the handler
      is called with nor whether the parser returns 0.
-/
import Protohand.Ini.Result

namespace Protohand

/-! ## §1. Blanks behind a line. -/

/-- White space, and nothing else. -/
def Blank (s : CStr) : Prop := ∀ c ∈ s, isspace c = true

theorem rstrip_append_blank (s : CStr) {t : CStr} (ht : Blank t) :
    rstrip (s ++ t) = rstrip s := by
  induction t using List.reverseRecOn with
  | nil => rw [List.append_nil]
  | append_singleton t c ih =>
      have hc : isspace c = true := ht c (by simp)
      rw [← List.append_assoc]
      unfold rstrip at ih ⊢
      rw [List.rdropWhile_concat_pos _ _ _ hc]
      exact ih fun x hx => ht x (by simp [hx])

theorem lskip_append_blank {t : CStr} (ht : Blank t) (s : CStr) : lskip (t ++ s) = lskip s :=
  List.dropWhile_append_of_pos ht

theorem lskip_cons {c : UInt8} (hc : isspace c = false) (s : CStr) : lskip (c :: s) = c :: s := by
  unfold lskip
  rw [List.dropWhile_cons, if_neg (by simp [hc])]

/-- The mark ends with no blank, so blanks do not complete it. -/
theorem bom_prefix_append (line : CStr) {t : CStr} (ht : Blank t) :
    bom <+: line ++ t ↔ bom <+: line := by
  constructor
  · intro h
    rcases List.prefix_or_prefix_of_prefix h (List.prefix_append line t) with hbom | hline
    · exact hbom
    · obtain ⟨rest, hrest⟩ := hline
      rw [← hrest, List.prefix_append_right_inj] at h
      rcases List.eq_nil_or_concat rest with rfl | ⟨front, c, hconcat⟩
      · rw [List.append_nil] at hrest
        exact hrest ▸ List.prefix_rfl
      · -- what is missing of the mark would be a blank
        subst hconcat
        have hlast : c = 0xBF := by
          have hend := congrArg List.getLast? hrest
          rw [List.concat_eq_append, ← List.append_assoc, List.getLast?_concat] at hend
          exact Option.some.inj hend
        have hspace : isspace c = true := ht c (h.subset (by simp))
        rw [hlast] at hspace
        exact absurd hspace (by decide)
  · exact fun h => h.trans (List.prefix_append line t)

/-- **Blanks behind a line are not seen.** -/
theorem iniLine_append_blank (lineno : Nat) (prevName line : CStr) {t : CStr} (ht : Blank t) :
    iniLine lineno prevName (line ++ t) = iniLine lineno prevName line := by
  have hmarked : (lineno = 1 ∧ bom <+: line ++ t) ↔ (lineno = 1 ∧ bom <+: line) := by
    rw [bom_prefix_append line ht]
  have hstrip : rstrip (if lineno = 1 ∧ bom <+: line ++ t then (line ++ t).drop 3 else line ++ t)
      = rstrip (if lineno = 1 ∧ bom <+: line then line.drop 3 else line) := by
    by_cases hmark : lineno = 1 ∧ bom <+: line
    · have hlen : 3 ≤ line.length := hmark.2.length_le
      rw [if_pos (hmarked.mpr hmark), if_pos hmark, List.drop_append_of_le_length hlen,
        rstrip_append_blank _ ht]
    · rw [if_neg (fun h => hmark (hmarked.mp h)), if_neg hmark, rstrip_append_blank _ ht]
  unfold iniLine
  dsimp only
  rw [hstrip]
  simp only [hmarked]

/-! ## §2. Notes. -/

/-- A line of blanks, or a comment. -/
def isNote (line : CStr) : Bool :=
  match lskip (rstrip line) with
  | [] => true
  | c :: _ => c == ascii ';' || c == ascii '#'

/-- **A note** says nothing, and `prev_name` stays. -/
theorem iniLine_note {lineno : Nat} (hlineno : lineno ≠ 1) (prevName : CStr) {line : CStr}
    (hnote : isNote line = true) : iniLine lineno prevName line = (.blank, prevName) := by
  have hmarked : ¬ (lineno = 1 ∧ bom <+: line) := fun h => hlineno h.1
  unfold isNote at hnote
  unfold iniLine
  dsimp only
  rw [if_neg hmarked]
  cases hstart : lskip (rstrip line) with
  | nil => rfl
  | cons c rest =>
      rw [hstart] at hnote
      dsimp only at hnote ⊢
      rw [if_pos (by simpa using hnote)]

/-- Behind the first line, the number of a line does not matter. -/
theorem iniLine_lineno (prevName line : CStr) {n m : Nat} (hn : n ≠ 1) (hm : m ≠ 1) :
    iniLine n prevName line = iniLine m prevName line := by
  unfold iniLine
  simp only [hn, hm, false_and, if_false]

theorem iniItemsFrom_lineno (lines : List CStr) (prevName : CStr) {n m : Nat} (hn : n ≠ 0)
    (hm : m ≠ 0) : iniItemsFrom n prevName lines = iniItemsFrom m prevName lines := by
  induction lines generalizing n m prevName with
  | nil => rfl
  | cons line lines ih =>
      have hline := iniLine_lineno prevName line (n := n + 1) (m := m + 1) (by omega) (by omega)
      rw [iniItemsFrom, iniItemsFrom, hline]
      exact congrArg (_ :: ·) (ih _ (by omega) (by omega))

/-- **Without its notes** a text has the same items, blank ones aside. -/
theorem iniItemsFrom_notes (lines : List CStr) (prevName : CStr) {n : Nat} (hn : n ≠ 0) :
    (iniItemsFrom n prevName lines).filter (· ≠ .blank)
      = (iniItemsFrom n prevName (lines.filter fun line => !isNote line)).filter (· ≠ .blank) := by
  induction lines generalizing n prevName with
  | nil => rfl
  | cons line lines ih =>
      by_cases hnote : isNote line = true
      · -- the note says nothing, and the lines below move up
        have hdrop : (line :: lines).filter (fun line => !isNote line)
            = lines.filter fun line => !isNote line :=
          List.filter_cons_of_neg (by simp [hnote])
        have hup := iniItemsFrom_lineno lines prevName (n := n + 1) (m := n) (by omega) hn
        rw [hdrop, ← ih prevName hn, ← hup, iniItemsFrom, iniLine_note (by omega) prevName hnote,
          List.filter_cons_of_neg (by simp)]
      · have hkeep : (line :: lines).filter (fun line => !isNote line)
            = line :: lines.filter fun line => !isNote line :=
          List.filter_cons_of_pos (by simp [hnote])
        rw [hkeep, iniItemsFrom, iniItemsFrom, List.filter_cons, List.filter_cons,
          ih _ (by omega)]

/-- Blank items are not seen. -/
theorem standingUnder_filter (header : Option CStr) (items : List IniItem) :
    standingUnder header (items.filter (· ≠ .blank)) = standingUnder header items := by
  induction items generalizing header with
  | nil => rfl
  | cons item items ih =>
      cases item with
      | blank => rw [List.filter_cons_of_neg (by simp)]; exact ih header
      | malformed => rw [List.filter_cons_of_pos (by simp)]; exact ih header
      | header name => rw [List.filter_cons_of_pos (by simp)]; exact ih (some name)
      | directive name value =>
          rw [List.filter_cons_of_pos (by simp)]
          exact congrArg (_ :: ·) (ih header)

/-! ## §3. Texts. -/

/-- Lines, each with a newline behind it. -/
def linesText (lines : List CStr) : CStr := lines.flatMap (· ++ [ascii '\n'])

/-- A line that the reader returns whole. -/
def FitsLine (line : CStr) : Prop := ascii '\n' ∉ line ∧ line.length + 2 ≤ iniMaxLine

/-- **The reader returns the lines of a text.** -/
theorem iniLines_linesText (lines : List CStr) (hfits : ∀ line ∈ lines, FitsLine line) :
    iniLines (linesText lines) = lines.map (· ++ [ascii '\n']) := by
  induction lines with
  | nil => rfl
  | cons line lines ih =>
      have hline := hfits line List.mem_cons_self
      have hcut : linesText (line :: lines) = line ++ ascii '\n' :: linesText lines := by
        unfold linesText
        rw [List.flatMap_cons, List.append_assoc]
        rfl
      rw [hcut, iniLines_cons hline.1 _ hline.2,
        ih fun l hl => hfits l (List.mem_cons_of_mem _ hl)]
      rfl

/-- Lines with blanks behind them read as without. -/
theorem iniItemsFrom_endings {α : Type} (line ending : α → CStr) (rows : List α)
    (hblank : ∀ row ∈ rows, Blank (ending row)) (n : Nat) (prevName : CStr) :
    iniItemsFrom n prevName (rows.map fun row => line row ++ ending row)
      = iniItemsFrom n prevName (rows.map line) := by
  induction rows generalizing n prevName with
  | nil => rfl
  | cons row rows ih =>
      rw [List.map_cons, List.map_cons, iniItemsFrom, iniItemsFrom,
        iniLine_append_blank _ _ _ (hblank row List.mem_cons_self)]
      exact congrArg (_ :: ·) (ih (fun r hr => hblank r (List.mem_cons_of_mem _ hr)) _ _)

theorem blank_newline : Blank [ascii '\n'] := by
  intro c hc
  rw [List.mem_singleton.mp hc]
  decide

/-- The items of a text are those of its lines. -/
theorem iniItems_linesText (lines : List CStr) (hfits : ∀ line ∈ lines, FitsLine line) :
    iniItems (linesText lines) = iniItemsFrom 0 [] lines := by
  have hend := iniItemsFrom_endings id (fun _ => [ascii '\n']) lines
    (fun _ _ => blank_newline) 0 []
  unfold iniItems
  rw [iniLines_linesText lines hfits]
  simpa using hend

section Unseen

variable {σ : Type} (handler : σ → IniEvent → Int × σ)

/-- Texts whose items differ in blank ones only are parsed alike. -/
theorem parse_of_items {text text' : CStr}
    (h : (iniItems text).filter (· ≠ .blank) = (iniItems text').filter (· ≠ .blank)) (user : σ) :
    (iniParseString handler text user).2 = (iniParseString handler text' user).2
      ∧ ((iniParseString handler text user).1 = 0 ↔ (iniParseString handler text' user).1 = 0) := by
  have hstanding : iniDirectives text = iniDirectives text' := by
    unfold iniDirectives
    rw [← standingUnder_filter none (iniItems text), h, standingUnder_filter]
  have hmalformed : ∀ items : List IniItem,
      IniItem.malformed ∈ items ↔ IniItem.malformed ∈ items.filter (· ≠ .blank) := by
    intro items
    simp
  refine ⟨?_, ?_⟩
  · rw [parse_directives, parse_directives, hstanding]
  · rw [parse_error, parse_error, firstFault_eq_zero, firstFault_eq_zero, hmalformed, h,
      ← hmalformed]
    show _ ∧ Accepts handler (iniDirectives text) user
      ↔ _ ∧ Accepts handler (iniDirectives text') user
    rw [hstanding]

/-- **THE LAYOUT IS NOT SEEN.**  Behind the lines of a text stand blanks and a
newline; without the blanks, and without the comments and blank lines below
the first line, the handler is called with the same directives in the same
order, and the parser returns 0 for both texts or for neither. -/
theorem layout_unseen (first ending : CStr) (rows : List (CStr × CStr)) (user : σ)
    (hfits : ∀ row ∈ (first, ending) :: rows, FitsLine (row.1 ++ row.2))
    (hblank : ∀ row ∈ (first, ending) :: rows, Blank row.2) :
    let text := linesText (((first, ending) :: rows).map fun row => row.1 ++ row.2)
    let plain := linesText (first :: (rows.map Prod.fst).filter fun line => !isNote line)
    (iniParseString handler text user).2 = (iniParseString handler plain user).2
      ∧ ((iniParseString handler text user).1 = 0 ↔ (iniParseString handler plain user).1 = 0) := by
  intro text plain
  have hplain : ∀ row ∈ (first, ending) :: rows, FitsLine row.1 := by
    intro row hrow
    obtain ⟨hnl, hlen⟩ := hfits row hrow
    simp only [List.mem_append, not_or, List.length_append] at hnl hlen
    exact ⟨hnl.1, by omega⟩
  apply parse_of_items
  have htext : iniItems text = iniItemsFrom 0 [] (first :: rows.map Prod.fst) := by
    rw [iniItems_linesText _ (by
      intro line hline
      obtain ⟨row, hrow, rfl⟩ := List.mem_map.mp hline
      exact hfits row hrow)]
    exact iniItemsFrom_endings Prod.fst Prod.snd ((first, ending) :: rows) hblank 0 []
  have hfiltered : iniItems plain
      = iniItemsFrom 0 [] (first :: (rows.map Prod.fst).filter fun line => !isNote line) := by
    refine iniItems_linesText _ fun line hline => ?_
    rcases List.mem_cons.mp hline with rfl | hline
    · exact hplain (line, ending) List.mem_cons_self
    · obtain ⟨row, hrow, rfl⟩ := List.mem_map.mp (List.mem_of_mem_filter hline)
      exact hplain row (List.mem_cons_of_mem _ hrow)
  rw [htext, hfiltered, iniItemsFrom, iniItemsFrom]
  rw [List.filter_cons, List.filter_cons, iniItemsFrom_notes _ _ (by omega)]

end Unseen

/-- CR LF, a comment inside a value and a blank behind a line are not seen. -/
theorem layout_unseen_comment :
    (iniParseString (fun events event => (1, events ++ [event]))
        (bytes "[h]\r\na=1 \n; note\n  b\r\n") []).2
      = (iniParseString (fun events event => (1, events ++ [event]))
        (bytes "[h]\na=1\n  b\n") ([] : List IniEvent)).2 :=
  (layout_unseen (fun events event => (1, events ++ [event])) (bytes "[h]") (bytes "\r")
    [(bytes "a=1", bytes " "), (bytes "; note", []), (bytes "  b", bytes "\r")] []
    (by unfold FitsLine; decide +kernel) (by unfold Blank; decide +kernel)).1

end Protohand
