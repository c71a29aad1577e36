/-
  Protohand.Quote
  ───────────────
  **QUOTING AND ITS INVERSES**: `quote` and `cmdquote` of lib/stringlib.c beside
  `split_arg` and `cmdunquote`.

    • `splitRun_quote` — inside of a pair of quotes every character goes into
      the buffer, blanks too,
    • `splitArg_undoes_quote` — so a list of quoted arguments is split into
      the arguments it was joined from,
    • `cmdunquote_undoes_cmdquote_iff` — `cmdquote` doubles the quotes inside of
      a string, and `cmdunquote` leaves them doubled.
-/
import Protohand.SplitArg

namespace Protohand

/-! ## §1. The functions. -/

/-- What `quote` puts in the place of its argument. -/
def quote (str : CStr) : CStr := ascii '"' :: (str ++ [ascii '"'])

/-- The loop of `cmdquote`: a `"` is stored twice. -/
def cmdquoteBody (str : CStr) : CStr :=
  str.flatMap (fun c => if c = ascii '"' then [ascii '"', c] else [c])

/-- What `cmdquote` puts in the place of its argument. -/
def cmdquote (str : CStr) : CStr :=
  if isquoted str = ascii '"' then str
  else ascii '"' :: (cmdquoteBody str ++ [ascii '"'])

/-- The arguments, each quoted, with a blank between any two. -/
def joinQuoted (args : List CStr) : CStr := [ascii ' '].intercalate (args.map quote)

/-- The number `split_arg` returns, and what it stores in `*args`. -/
def splitArgStored (str : CStr) : Option (Nat × List (Option CStr)) :=
  (splitArg str).map (fun args => (args.length, args.map some ++ [none]))

/-! ## §2. Splitting undoes quoting and joining. -/

/-- A character inside of quotes goes into the buffer. -/
theorem splitStep_open {s : SplitState} (hopen : s.isOpen = true) {c : UInt8}
    (hc : c ≠ ascii '"') (hroom : s.buffer.length + 1 < splitBuffer) :
    splitStep s c = some { s with buffer := s.buffer ++ [c] } := by
  unfold splitStep
  rw [if_neg hc, if_neg (by rw [hopen]; simp), if_pos hroom]

/-- **A text inside of quotes** goes into the buffer as it is. -/
theorem splitRun_open (str : CStr) {s : SplitState} (hopen : s.isOpen = true)
    (hstr : ascii '"' ∉ str) (hroom : s.buffer.length + str.length < splitBuffer) :
    str.foldlM splitStep s = some { s with buffer := s.buffer ++ str } := by
  induction str generalizing s with
  | nil => simp
  | cons c str ih =>
      have hc : c ≠ ascii '"' := fun h => hstr (by rw [h]; exact List.mem_cons_self)
      rw [List.length_cons] at hroom
      have hnext := ih (s := { s with buffer := s.buffer ++ [c] }) hopen
        (fun h => hstr (List.mem_cons_of_mem _ h))
        (by simp only [List.length_append, List.length_singleton]; omega)
      rw [List.foldlM_cons, splitStep_open hopen hc (by omega)]
      show str.foldlM splitStep { s with buffer := s.buffer ++ [c] } = _
      rw [hnext, List.append_assoc]
      rfl

/-- **A quoted argument**, at the start of a token. -/
theorem splitRun_quote {str : CStr} (hstr : ascii '"' ∉ str) (hroom : str.length < splitBuffer)
    (args : List CStr) :
    (quote str).foldlM splitStep ⟨false, [], args⟩ = some ⟨false, str, args⟩ := by
  have hrun := splitRun_open str (s := ⟨true, [], args⟩) rfl hstr
    (by rw [List.length_nil, Nat.zero_add]; exact hroom)
  unfold quote
  rw [List.foldlM_cons]
  show (str ++ [ascii '"']).foldlM splitStep ⟨true, [], args⟩ = _
  rw [List.foldlM_append, hrun]
  rfl

/-- The argument in the buffer is stored as it is, where there is a slot. -/
theorem splitStore_of_room {s : SplitState} (hs : ascii '"' ∉ s.buffer)
    (hroom : s.args.length < splitArgMax) :
    splitStore s = some { s with args := s.args ++ [s.buffer], buffer := [] } := by
  unfold splitStore
  rw [cmdunquote_of_not_mem hs]
  exact if_pos hroom

/-- The end of a command that is not empty: the last argument is stored. -/
theorem splitArg_of_run {str : CStr} (hne : str ≠ []) {s : SplitState}
    (hrun : str.foldlM splitStep ⟨false, [], []⟩ = some s) (hs : ascii '"' ∉ s.buffer)
    (hroom : (s.args ++ [s.buffer]).length < splitArgMax) :
    splitArg str = some (s.args ++ [s.buffer]) := by
  have hslot : s.args.length < splitArgMax := by
    rw [List.length_append, List.length_singleton] at hroom
    omega
  unfold splitArg
  rw [hrun]
  dsimp only
  rw [if_neg hne, splitStore_of_room hs hslot]
  exact if_pos hroom

/-- **The arguments behind the first one**: each stores the one in front of it. -/
theorem splitRun_join (rest : List CStr) (arg : CStr) (args : List CStr)
    (hok : ∀ a ∈ arg :: rest, ascii '"' ∉ a ∧ a.length < splitBuffer)
    (hroom : args.length + (arg :: rest).length < splitArgMax) :
    ∃ args' last, (rest.flatMap (fun a => ascii ' ' :: quote a)).foldlM splitStep
        ⟨false, arg, args⟩ = some ⟨false, last, args'⟩
      ∧ ascii '"' ∉ last ∧ args' ++ [last] = args ++ arg :: rest := by
  induction rest generalizing arg args with
  | nil => exact ⟨args, arg, rfl, (hok arg List.mem_cons_self).1, rfl⟩
  | cons a rest ih =>
      have harg := (hok arg List.mem_cons_self).1
      obtain ⟨ha, hshort⟩ := hok a (by simp)
      rw [List.length_cons, List.length_cons] at hroom
      -- the blank stores `arg`, and `a` is read into the buffer
      have hstep : (ascii ' ' :: quote a).foldlM splitStep ⟨false, arg, args⟩
          = some ⟨false, a, args ++ [arg]⟩ := by
        rw [List.foldlM_cons]
        show (splitStore ⟨false, arg, args⟩ >>= fun s => (quote a).foldlM splitStep s) = _
        rw [splitStore_of_room harg (by show args.length < splitArgMax; omega)]
        exact splitRun_quote ha hshort (args ++ [arg])
      obtain ⟨args', last, hrun, hlast, hall⟩ := ih a (args ++ [arg])
        (fun b hb => hok b (List.mem_cons_of_mem _ hb))
        (by simp only [List.length_append, List.length_cons, List.length_nil]; omega)
      refine ⟨args', last, ?_, hlast, ?_⟩
      · rw [List.flatMap_cons, List.foldlM_append, hstep]
        exact hrun
      · rw [hall, List.append_assoc]
        rfl

theorem joinQuoted_cons (arg : CStr) (rest : List CStr) :
    joinQuoted (arg :: rest) = quote arg ++ rest.flatMap (fun a => ascii ' ' :: quote a) := by
  induction rest generalizing arg with
  | nil => simp [joinQuoted]
  | cons a rest ih =>
      have hnext := ih a
      unfold joinQuoted at hnext ⊢
      rw [List.map_cons, List.map_cons, List.intercalate_cons_cons, ← List.map_cons, hnext,
        List.flatMap_cons, List.append_assoc]
      rfl

/-- **SPLITTING UNDOES QUOTING AND JOINING**: the same arguments, their number,
and a NULL behind them. -/
theorem splitArg_undoes_quote {args : List CStr} (hcount : args.length ≤ 1022)
    (hargs : ∀ a ∈ args, ascii '"' ∉ a ∧ a.length ≤ 2046) :
    splitArgStored (joinQuoted args) = some (args.length, args.map some ++ [none]) := by
  have hsplit : splitArg (joinQuoted args) = some args := by
    cases args with
    | nil => rfl
    | cons arg rest =>
        have hok : ∀ a ∈ arg :: rest, ascii '"' ∉ a ∧ a.length < splitBuffer := by
          intro a ha
          obtain ⟨hquote, hlen⟩ := hargs a ha
          exact ⟨hquote, by unfold splitBuffer; omega⟩
        obtain ⟨hquote, hshort⟩ := hok arg List.mem_cons_self
        obtain ⟨args', last, hrun, hlast, hall⟩ := splitRun_join rest arg [] hok
          (by rw [List.length_nil]; unfold splitArgMax; omega)
        have hwhole : (joinQuoted (arg :: rest)).foldlM splitStep ⟨false, [], []⟩
            = some ⟨false, last, args'⟩ := by
          rw [joinQuoted_cons, List.foldlM_append, splitRun_quote hquote hshort]
          exact hrun
        have hne : joinQuoted (arg :: rest) ≠ [] := by
          rw [joinQuoted_cons]
          simp [quote]
        rw [splitArg_of_run hne hwhole hlast (by rw [hall]; show (arg :: rest).length < 1024; omega)]
        exact congrArg some hall
  unfold splitArgStored
  rw [hsplit]
  rfl

/-- An empty argument, blanks at both ends, a single quote. -/
theorem splitArg_undoes_quote_sample :
    splitArgStored (joinQuoted [[], bytes " a b ", bytes "'"])
      = some (3, [some [], some (bytes " a b "), some (bytes "'"), none]) :=
  splitArg_undoes_quote (by decide) (by decide)

/-! ## §3. `cmdunquote` behind `cmdquote`. -/

/-- A text between two quotes is taken out of them. -/
theorem cmdunquote_between (str : CStr) :
    cmdunquote (ascii '"' :: (str ++ [ascii '"'])) = some str := by
  have hlast : (ascii '"' :: (str ++ [ascii '"'])).getLast? = some (ascii '"') := by
    rw [← List.cons_append, List.getLast?_concat]
  have hquoted : isquoted (ascii '"' :: (str ++ [ascii '"'])) = ascii '"' := by
    unfold isquoted
    rw [if_pos List.head?_cons, if_pos hlast]
  have hlen : (ascii '"' :: (str ++ [ascii '"'])).length = str.length + 2 := by
    rw [List.length_cons, List.length_append, List.length_singleton]
  unfold cmdunquote
  rw [if_neg (not_not_intro hquoted), hlen, if_neg (by omega), Nat.add_sub_cancel, List.drop_one,
    List.tail_cons, List.take_left]

/-- Every `"` makes the text longer by one. -/
theorem length_cmdquoteBody (str : CStr) :
    (cmdquoteBody str).length = str.length + str.count (ascii '"') := by
  unfold cmdquoteBody
  induction str with
  | nil => rfl
  | cons c str ih =>
      rw [List.flatMap_cons, List.length_append, ih, List.length_cons, List.count_cons]
      by_cases hc : c = ascii '"'
      · simp only [hc, if_true, beq_self_eq_true, List.length_cons, List.length_nil]
        omega
      · simp only [hc, if_false, beq_iff_eq, List.length_cons, List.length_nil]
        omega

/-- A text is stored as it is exactly if it has no `"`. -/
theorem cmdquoteBody_eq_iff (str : CStr) : cmdquoteBody str = str ↔ ascii '"' ∉ str := by
  constructor
  · intro h hmem
    have hlen := length_cmdquoteBody str
    have hpos := List.count_pos_iff.mpr hmem
    rw [h] at hlen
    omega
  · intro h
    unfold cmdquoteBody
    induction str with
    | nil => rfl
    | cons c str ih =>
        rw [List.mem_cons, not_or] at h
        rw [List.flatMap_cons, if_neg (Ne.symm h.1), ih h.2]
        rfl

/-- **WHEN `cmdunquote` UNDOES `cmdquote`**: exactly if the string has no `"` to
double. -/
theorem cmdunquote_undoes_cmdquote_iff {str : CStr} (h : isquoted str ≠ ascii '"') :
    cmdunquote (cmdquote str) = some str ↔ ascii '"' ∉ str := by
  have hquote : cmdquote str = ascii '"' :: (cmdquoteBody str ++ [ascii '"']) := if_neg h
  rw [hquote, cmdunquote_between, Option.some.injEq, cmdquoteBody_eq_iff]

/-- `que'rtz` comes back. -/
theorem cmdunquote_undoes_cmdquote_sample :
    cmdunquote (cmdquote (bytes "que'rtz")) = some (bytes "que'rtz")
      ↔ ascii '"' ∉ bytes "que'rtz" :=
  cmdunquote_undoes_cmdquote_iff (by decide)

/-- `que"rtz` comes back with two quotes. -/
theorem cmdunquote_keeps_doubled :
    isquoted (bytes "que\"rtz") ≠ ascii '"'
      ∧ cmdunquote (cmdquote (bytes "que\"rtz")) = some (bytes "que\"\"rtz")
      ∧ cmdunquote (cmdquote (bytes "que\"rtz")) ≠ some (bytes "que\"rtz") := by
  decide

end Protohand
