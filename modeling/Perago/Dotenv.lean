import Mathlib.Logic.Function.Basic
import Perago.AttemptNames
import Perago.Config
import Perago.Parsing.Lines

/-!
# The `.env` file

`read_dotenv` takes a file apart into assignments. What it reads is described by a relation
between a line and the setting on it; a name has the value of its last assignment.
-/

namespace Perago

open Parsing

/-! ## Lines of a text file -/

/-- The breaks of `str.splitlines`. -/
def isLineBreak (c : CodePoint) : Bool :=
  let n := c.val
  (0x0A ≤ n && n ≤ 0x0D) || (0x1C ≤ n && n ≤ 0x1E) || n == 0x85 || n == 0x2028 || n == 0x2029

/-- `"\r\n"` is one break. -/
def isCrLf (c d : CodePoint) : Bool := c == 0x0D && d == 0x0A

/-- A text that UTF-8 can write: no lone surrogate is in it. -/
def Encodable (t : Text) : Prop := ∀ c ∈ t, ¬ (0xD800 ≤ c.val ∧ c.val ≤ 0xDFFF)

def splitlines (t : Text) : List Text := splitLines isLineBreak isCrLf t

/-- What `read_text` makes of the line ends of a file. -/
def universalNewlines : Text → Text
  | [] => []
  | [c] => [if c = 0x0D then 0x0A else c]
  | c :: d :: t =>
    if isCrLf c d then 0x0A :: universalNewlines t
    else (if c = 0x0D then 0x0A else c) :: universalNewlines (d :: t)

/-! ## The reader -/

/-- `"export "`. -/
def exportWord : Text := text "export "

/-- `_strip_env_value(value)`. -/
def stripEnvValue (value : Text) : Text :=
  if 2 ≤ value.length ∧ value.head? = value.getLast? ∧
      (value.head? = some 0x27 ∨ value.head? = some 0x22) then
    (value.drop 1).dropLast
  else value

/-- The key and the value of a line, absent where the loop continues. -/
def readLine (rawLine : Text) : Option (Text × Text) :=
  let line := strip rawLine
  if line = [] ∨ line.head? = some 0x23 ∨ 0x3D ∉ line then none
  else
    let line := if exportWord.isPrefixOf line then strip (line.drop exportWord.length) else line
    (splitOnce 0x3D line).map (Prod.map strip (stripEnvValue ∘ strip))

/-- One turn of the loop. -/
def readInto (values : Text → Option Text) (rawLine : Text) : Text → Option Text :=
  match readLine rawLine with
  | none => values
  | some item => Function.update values item.1 (some item.2)

/-- `path` holds the decoded contents of the file, or nothing where there is none. -/
def readDotenv (path : Option Text) : Text → Option Text :=
  match path with
  | none => fun _ => none
  | some contents => (splitlines (universalNewlines contents)).foldl readInto fun _ => none

def dotenvEnv (path : Option Text) : Env := fun name => readDotenv path (text name)

/-! ## Line ends -/

theorem breaks_of_isCrLf (c d : CodePoint) (h : isCrLf c d = true) : isLineBreak c = true := by
  simp only [isCrLf, Bool.and_eq_true, beq_iff_eq] at h
  rw [h.1]
  rfl

theorem not_isCrLf {c : CodePoint} (h : c ≠ 0x0D) (d : CodePoint) : isCrLf c d = false := by
  simp [isCrLf, h]

/-- The translation of line ends does not change the lines. -/
theorem splitlines_universalNewlines (t : Text) :
    splitlines (universalNewlines t) = splitlines t := by
  have lineFeed : ∀ d, isCrLf 0x0A d = false := not_isCrLf (by decide)
  have feedBreaks : isLineBreak 0x0A = true := rfl
  have returnBreaks : isLineBreak 0x0D = true := rfl
  unfold splitlines splitLines
  generalize ([] : Text) = current
  fun_induction splitLinesFrom isLineBreak isCrLf current t with
  | case1 current empty => simp [universalNewlines, splitLinesFrom, empty]
  | case2 current present => simp [universalNewlines, splitLinesFrom, present]
  | case3 current c breaks =>
    by_cases ret : c = 0x0D
    · simp [universalNewlines, splitLinesFrom, ret, feedBreaks]
    · simp [universalNewlines, splitLinesFrom, ret, breaks]
  | case4 current c stays =>
    have other : c ≠ 0x0D := fun same => stays (same ▸ returnBreaks)
    simp [universalNewlines, splitLinesFrom, other, stays]
  | case5 current c d rest together ih =>
    rw [universalNewlines, if_pos together, splitLinesFrom_cons lineFeed, if_pos feedBreaks, ih]
  | case6 current c d rest apart breaks ih =>
    rw [universalNewlines, if_neg apart]
    by_cases ret : c = 0x0D
    · rw [if_pos ret, splitLinesFrom_cons lineFeed, if_pos feedBreaks, ih]
    · rw [if_neg ret, splitLinesFrom_cons (not_isCrLf ret), if_pos breaks, ih]
  | case7 current c d rest apart stays ih =>
    have other : c ≠ 0x0D := fun same => stays (same ▸ returnBreaks)
    rw [universalNewlines, if_neg apart, if_neg other, splitLinesFrom_cons (not_isCrLf other),
      if_neg stays, ih]

/-! ## What a line says -/

/-- Whitespace, of any length. -/
def Blank (t : Text) : Prop := ∀ c ∈ t, isspace c = true

def IsQuote (c : CodePoint) : Prop := c = 0x27 ∨ c = 0x22

/-- How a value is written: between two quotes of one kind, or as it is. -/
inductive Spelled : Text → Text → Prop where
  | quoted {q : CodePoint} {value : Text} : IsQuote q → Spelled (q :: value ++ [q]) value
  | plain {value : Text} : Trimmed isspace value →
      (∀ q inner, IsQuote q → value ≠ q :: inner ++ [q]) → Spelled value value

/-- A line that assigns `value` to `key`. -/
inductive Assignment : Text → Text → Text → Prop where
  | plain {a key c d written e value : Text} : Blank a → Blank c → Blank d → Blank e →
      Trimmed isspace key → 0x3D ∉ key → key.head? ≠ some 0x23 → ¬ exportWord <+: key ++ c →
      Spelled written value →
      Assignment (a ++ (key ++ c ++ 0x3D :: (d ++ written ++ e))) key value
  | exported {a b key c d written e value : Text} : Blank a → Blank b → Blank c → Blank d →
      Blank e → Trimmed isspace key → 0x3D ∉ key → Spelled written value →
      Assignment (a ++ (exportWord ++ (b ++ key ++ c) ++ 0x3D :: (d ++ written ++ e))) key value

theorem not_isspace_equals : isspace 0x3D = false := rfl

theorem not_mem_blank {t : Text} (h : Blank t) : 0x3D ∉ t := by
  intro found
  have space := h _ found
  rw [not_isspace_equals] at space
  cases space

theorem blank_append {t u : Text} (ht : Blank t) (hu : Blank u) : Blank (t ++ u) :=
  fun c hc => (List.mem_append.mp hc).elim (ht c) (hu c)

theorem quotes_around {w : Text} {q : CodePoint} (long : 2 ≤ w.length) (head : w.head? = some q)
    (last : w.getLast? = some q) : w = q :: (w.drop 1).dropLast ++ [q] := by
  obtain ⟨t, rfl⟩ := List.head?_eq_some_iff.mp head
  have nonempty : t ≠ [] := by
    rintro rfl
    simp at long
  rw [List.getLast?_cons, List.getLast?_eq_getLast_of_ne_nil nonempty] at last
  have ends := List.dropLast_append_getLast nonempty
  have same : t.getLast nonempty = q := Option.some.inj last
  rw [same] at ends
  rw [List.drop_one, List.tail_cons, List.cons_append, ends]

theorem stripEnvValue_of_spelled {w value : Text} (h : Spelled w value) :
    stripEnvValue w = value := by
  cases h with
  | @quoted q _ quote =>
    have around : (q :: value ++ [q]).head? = (q :: value ++ [q]).getLast? := by
      rw [List.getLast?_append]
      rfl
    rw [stripEnvValue, if_pos ⟨by simp, around, by simpa [IsQuote] using quote⟩]
    simp
  | plain _ bare =>
    rw [stripEnvValue, if_neg]
    rintro ⟨long, same, quote⟩
    obtain quote | quote := quote
    · exact bare _ _ (.inl rfl) (quotes_around long quote (same ▸ quote))
    · exact bare _ _ (.inr rfl) (quotes_around long quote (same ▸ quote))

theorem trimmed_of_spelled {w value : Text} (h : Spelled w value) : Trimmed isspace w := by
  cases h with
  | @quoted q _ quote =>
    have stays : isspace q = false := by
      obtain rfl | rfl := quote
      · rfl
      · rfl
    constructor
    · intro c hc
      cases hc
      exact stays
    · intro c hc
      rw [List.getLast?_append] at hc
      cases hc
      exact stays
  | plain trimmed => exact trimmed

theorem spelled_stripEnvValue {w : Text} (h : Trimmed isspace w) : Spelled w (stripEnvValue w) := by
  by_cases quoted : 2 ≤ w.length ∧ w.head? = w.getLast? ∧
      (w.head? = some 0x27 ∨ w.head? = some 0x22)
  · obtain ⟨long, same, quote⟩ := quoted
    have value : stripEnvValue w = (w.drop 1).dropLast := if_pos ⟨long, same, quote⟩
    rw [value]
    obtain quote | quote := quote
    · have shape := quotes_around long quote (same ▸ quote)
      have written : Spelled (0x27 :: (w.drop 1).dropLast ++ [0x27]) _ := .quoted (.inl rfl)
      rwa [← shape] at written
    · have shape := quotes_around long quote (same ▸ quote)
      have written : Spelled (0x22 :: (w.drop 1).dropLast ++ [0x22]) _ := .quoted (.inr rfl)
      rwa [← shape] at written
  · rw [stripEnvValue, if_neg quoted]
    refine .plain h fun q inner quote shape => quoted ⟨by simp [shape], ?_, ?_⟩
    · rw [shape, List.getLast?_append]
      rfl
    · rw [shape]
      exact quote.imp (congrArg some) (congrArg some)

/-- The line of an assignment, once its first word is a text that begins without a space. -/
theorem strip_line {a front : Text} (rest : Text) (ha : Blank a)
    (hf : ∀ c ∈ front.head?, isspace c = false) :
    strip (a ++ (front ++ 0x3D :: rest)) = front ++ 0x3D :: rest.rdropWhile isspace := by
  have stays : (front ++ 0x3D :: rest).dropWhile isspace = front ++ 0x3D :: rest := by
    cases front with
    | nil => simp [not_isspace_equals]
    | cons c front => simp [hf c rfl]
  have reads : strip (a ++ (front ++ 0x3D :: rest)) =
      ((a ++ (front ++ 0x3D :: rest)).dropWhile isspace).rdropWhile isspace := rfl
  rw [reads, List.dropWhile_append_of_pos ha, stays, rdropWhile_append_cons not_isspace_equals]

/-- The parts of a line, the outer blanks or not. -/
theorem splitOnce_strip (t : Text) :
    (splitOnce 0x3D (strip t)).map (Prod.map strip (stripEnvValue ∘ strip)) =
      (splitOnce 0x3D t).map (Prod.map strip (stripEnvValue ∘ strip)) := by
  have same := congrArg (Option.map (Prod.map id stripEnvValue))
    (splitOnce_trim (p := isspace) (t := t) not_isspace_equals)
  rw [Option.map_map, Option.map_map, Prod.map_comp_map] at same
  exact same

theorem parts_of_assignment {a key c rest written value : Text} (ha : Blank a) (hc : Blank c)
    (hkey : Trimmed isspace key) (fresh : 0x3D ∉ key) (hrest : strip rest = written)
    (hw : Spelled written value) :
    (splitOnce 0x3D ((a ++ key ++ c) ++ 0x3D :: rest)).map
      (Prod.map strip (stripEnvValue ∘ strip)) = some (key, value) := by
  have before : 0x3D ∉ a ++ key ++ c := by
    simp only [List.mem_append, not_or]
    exact ⟨⟨not_mem_blank ha, fresh⟩, not_mem_blank hc⟩
  have left : strip (a ++ key ++ c) = key := trim_append ha hc hkey
  rw [splitOnce_append before, Option.map_some, Prod.map_apply, Function.comp_apply, left, hrest,
    stripEnvValue_of_spelled hw]

theorem exportWord_before {front rest : Text} (h : exportWord <+: front ++ 0x3D :: rest) :
    exportWord <+: front := by
  have signs : front ++ [0x3D] <+: front ++ 0x3D :: rest := ⟨rest, by simp⟩
  obtain short | long := List.prefix_or_prefix_of_prefix h signs
  · obtain same | inside := List.prefix_concat_iff.mp short
    · have sign : (0x3D : CodePoint) ∈ exportWord := same ▸ List.mem_concat_self
      exact absurd sign (by decide)
    · exact inside
  · have sign : (0x3D : CodePoint) ∈ exportWord := long.subset List.mem_concat_self
    exact absurd sign (by decide)

/-- A line with a sign that is no comment is split. -/
theorem readLine_of_line {rawLine front rest : Text}
    (line : strip rawLine = front ++ 0x3D :: rest) (comment : front.head? ≠ some 0x23) :
    readLine rawLine =
      (splitOnce 0x3D (if exportWord.isPrefixOf (strip rawLine)
        then strip ((strip rawLine).drop exportWord.length) else strip rawLine)).map
          (Prod.map strip (stripEnvValue ∘ strip)) := by
  have kept : ¬ (strip rawLine = [] ∨ (strip rawLine).head? = some 0x23 ∨
      0x3D ∉ strip rawLine) := by
    rw [line]
    rintro (empty | hash | absent)
    · simp at empty
    · cases front with
      | nil => exact absurd hash (by simp)
      | cons c front => exact comment hash
    · simp at absent
  rw [readLine, if_neg kept]

theorem readLine_complete {rawLine key value : Text} (h : Assignment rawLine key value) :
    readLine rawLine = some (key, value) := by
  cases h with
  | @plain a _ c d written e _ ha hc hd he hkey fresh comment bare hw =>
    have right : strip (d ++ written ++ e) = written := trim_append hd he (trimmed_of_spelled hw)
    have parts := parts_of_assignment ha hc hkey fresh right hw
    -- without a key the line begins at the sign
    obtain ⟨a', front, blank, regroup, start, noComment, noExport⟩ :
        ∃ a' front, Blank a' ∧ a ++ key ++ c = a' ++ front ∧
          (∀ x ∈ front.head?, isspace x = false) ∧ front.head? ≠ some 0x23 ∧
          ¬ exportWord <+: front := by
      cases key with
      | nil =>
        exact ⟨a ++ c, [], blank_append ha hc, by simp, by simp, by simp, by decide⟩
      | cons k key => exact ⟨a, k :: key ++ c, ha, by simp, hkey.head, comment, bare⟩
    have whole : a ++ (key ++ c ++ 0x3D :: (d ++ written ++ e)) =
        a' ++ (front ++ 0x3D :: (d ++ written ++ e)) := by
      rw [← List.append_assoc, ← List.append_assoc, regroup, List.append_assoc]
    have line := strip_line (d ++ written ++ e) blank start
    rw [← whole] at line
    have outside : ¬ exportWord.isPrefixOf
        (strip (a ++ (key ++ c ++ 0x3D :: (d ++ written ++ e)))) = true := by
      rw [line, List.isPrefixOf_iff_prefix]
      exact fun inside => noExport (exportWord_before inside)
    rw [readLine_of_line line noComment, if_neg outside, splitOnce_strip, ← parts,
      ← List.append_assoc, ← List.append_assoc]
  | @exported a b _ c d written e _ ha hb hc hd he hkey fresh hw =>
    have right : strip ((d ++ written ++ e).rdropWhile isspace) = written :=
      (trim_rdropWhile isspace _).trans (trim_append hd he (trimmed_of_spelled hw))
    have starts : exportWord.head? = some 0x65 := by decide
    have start : ∀ x ∈ (exportWord ++ (b ++ key ++ c)).head?, isspace x = false := by
      rw [List.head?_append, starts]
      rintro x ⟨⟩
      rfl
    have line := strip_line (d ++ written ++ e) ha start
    have noComment : (exportWord ++ (b ++ key ++ c)).head? ≠ some 0x23 := by
      rw [List.head?_append, starts]
      rintro ⟨⟩
    have inside : exportWord.isPrefixOf
        (strip (a ++ (exportWord ++ (b ++ key ++ c) ++ 0x3D :: (d ++ written ++ e)))) = true := by
      rw [line, List.isPrefixOf_iff_prefix, List.append_assoc]
      exact List.prefix_append _ _
    rw [readLine_of_line line noComment, if_pos inside, splitOnce_strip, line, List.append_assoc,
      List.drop_left]
    exact parts_of_assignment hb hc hkey fresh right hw

theorem readLine_sound {rawLine key value : Text} (h : readLine rawLine = some (key, value)) :
    Assignment rawLine key value := by
  obtain ⟨a, e, ha, he, split⟩ := trim_split isspace rawLine
  have trimmed : Trimmed isspace (strip rawLine) := trimmed_trim isspace rawLine
  have split : rawLine = a ++ strip rawLine ++ e := split
  unfold readLine at h
  generalize strip rawLine = line at h trimmed split
  by_cases skip : line = [] ∨ line.head? = some 0x23 ∨ 0x3D ∉ line
  · simp [skip] at h
  simp only [if_neg skip] at h
  have comment : line.head? ≠ some 0x23 := fun hash => skip (.inr (.inl hash))
  by_cases exports : exportWord.isPrefixOf line = true
  · rw [if_pos exports, splitOnce_strip] at h
    obtain ⟨⟨x, y⟩, parts, item⟩ := Option.map_eq_some_iff.mp h
    obtain ⟨rest, rfl⟩ := List.isPrefixOf_iff_prefix.mp exports
    rw [List.drop_left] at parts
    obtain ⟨rfl, fresh⟩ := splitOnce_eq_some_iff.mp parts
    cases item
    obtain ⟨b, c, hb, hc, left⟩ := trim_split isspace x
    obtain ⟨d, e', hd, he', right⟩ := trim_split isspace y
    have whole : rawLine = a ++ (exportWord ++ (b ++ strip x ++ c) ++
        0x3D :: (d ++ strip y ++ (e' ++ e))) := by
      conv_lhs => rw [split, left, right]
      simp only [List.append_assoc, List.cons_append]
      rfl
    rw [whole]
    exact .exported ha hb hc hd (blank_append he' he) (trimmed_trim isspace x)
      (fun found => fresh (mem_of_mem_strip found)) (spelled_stripEnvValue (trimmed_trim isspace y))
  · rw [if_neg exports] at h
    obtain ⟨⟨x, y⟩, parts, item⟩ := Option.map_eq_some_iff.mp h
    obtain ⟨rfl, fresh⟩ := splitOnce_eq_some_iff.mp parts
    cases item
    have start : x.dropWhile isspace = x := by
      cases x with
      | nil => rfl
      | cons k x =>
        have stays : isspace k = false := trimmed.head k rfl
        simp [stays]
    have left : x = strip x ++ x.rtakeWhile isspace := by
      have kept : strip x = (x.dropWhile isspace).rdropWhile isspace := rfl
      rw [kept, start, List.rdropWhile_append_rtakeWhile]
    obtain ⟨d, e', hd, he', right⟩ := trim_split isspace y
    have whole : rawLine = a ++ (strip x ++ x.rtakeWhile isspace ++
        0x3D :: (d ++ strip y ++ (e' ++ e))) := by
      rw [← left]
      conv_lhs => rw [split, right]
      simp only [List.append_assoc, List.cons_append]
      rfl
    have keyComment : (strip x).head? ≠ some 0x23 := by
      intro hash
      rw [left, List.append_assoc, List.head?_append, hash] at comment
      exact comment rfl
    have noExport : ¬ exportWord <+: strip x ++ x.rtakeWhile isspace := by
      rw [← left]
      exact fun inside =>
        exports (List.isPrefixOf_iff_prefix.mpr (inside.trans (List.prefix_append _ _)))
    rw [whole]
    exact .plain ha (fun c hc => List.mem_rtakeWhile_imp hc) hd (blank_append he' he)
      (trimmed_trim isspace x) (fun found => fresh (mem_of_mem_strip found)) keyComment noExport
      (spelled_stripEnvValue (trimmed_trim isspace y))

theorem readLine_eq_some_iff {rawLine key value : Text} :
    readLine rawLine = some (key, value) ↔ Assignment rawLine key value :=
  ⟨readLine_sound, readLine_complete⟩

example : readLine (text " export KEY = 'a=b' ") = some (text "KEY", text "a=b") := by decide

/-! ## The last assignment -/

/-- Of the lines that assign something to `key`, the last one assigns `value`. -/
def LastAssigns (lines : List Text) (key value : Text) : Prop :=
  ∃ before rawLine after, lines = before ++ rawLine :: after ∧ Assignment rawLine key value ∧
    ∀ line ∈ after, ∀ other, ¬ Assignment line key other

theorem readInto_eq_some_iff {values : Text → Option Text} {rawLine key value : Text} :
    readInto values rawLine key = some value ↔
      Assignment rawLine key value ∨
        (∀ other, ¬ Assignment rawLine key other) ∧ values key = some value := by
  simp only [← readLine_eq_some_iff, readInto]
  cases readLine rawLine with
  | none => simp
  | some item =>
    obtain ⟨key', value'⟩ := item
    by_cases same : key = key'
    · subst same
      simp
    · simp [Function.update_of_ne same, Ne.symm same]

theorem lastAssigns_cons {line : Text} {lines : List Text} {key value : Text} :
    LastAssigns (line :: lines) key value ↔
      LastAssigns lines key value ∨
        Assignment line key value ∧ ∀ line ∈ lines, ∀ other, ¬ Assignment line key other := by
  constructor
  · rintro ⟨before, rawLine, after, split, assigns, last⟩
    cases before with
    | nil =>
      obtain ⟨rfl, rfl⟩ := List.cons.inj split
      exact .inr ⟨assigns, last⟩
    | cons first before =>
      obtain ⟨rfl, rfl⟩ := List.cons.inj split
      exact .inl ⟨before, rawLine, after, rfl, assigns, last⟩
  · rintro (⟨before, rawLine, after, rfl, assigns, last⟩ | ⟨assigns, last⟩)
    · exact ⟨line :: before, rawLine, after, rfl, assigns, last⟩
    · exact ⟨[], line, lines, rfl, assigns, last⟩

theorem foldl_readInto_eq_some_iff {lines : List Text} {values : Text → Option Text}
    {key value : Text} :
    lines.foldl readInto values key = some value ↔
      LastAssigns lines key value ∨
        (∀ line ∈ lines, ∀ other, ¬ Assignment line key other) ∧ values key = some value := by
  induction lines generalizing values with
  | nil => simp [LastAssigns]
  | cons line lines ih =>
    rw [List.foldl_cons, ih, lastAssigns_cons, readInto_eq_some_iff, List.forall_mem_cons]
    tauto

theorem readDotenv_eq_some_iff {contents key value : Text} :
    readDotenv (some contents) key = some value ↔
      ∃ lines, Lines isLineBreak isCrLf contents lines ∧ LastAssigns lines key value := by
  have reads : readDotenv (some contents) key =
      (splitlines contents).foldl readInto (fun _ => none) key := by
    rw [readDotenv, splitlines_universalNewlines]
  rw [reads, foldl_readInto_eq_some_iff]
  constructor
  · rintro (assigned | ⟨_, absent⟩)
    · exact ⟨_, (lines_iff breaks_of_isCrLf).mp rfl, assigned⟩
    · cases absent
  · rintro ⟨lines, split, assigned⟩
    obtain rfl := (lines_iff breaks_of_isCrLf).mpr split
    exact .inl assigned

/-- A variable of the process comes first; after it the last assignment of the file. -/
theorem variable_is_last_assigned (processEnv : Env) (contents : Text) (name : String)
    (value : Text) :
    loadRuntimeEnv processEnv (dotenvEnv (some contents)) name = some value ↔
      processEnv name = some value ∨
        processEnv name = none ∧
          ∃ lines, Lines isLineBreak isCrLf contents lines ∧
            LastAssigns lines (text name) value := by
  rw [loadRuntimeEnv, Option.or_eq_some_iff, dotenvEnv, readDotenv_eq_some_iff]

/-! ## A file for an environment -/

/-- The variables that the configuration is read from. -/
def configVariables : List String :=
  ["PERAGO_WORKSPACE_ROOT", "PERAGO_LOG_ROOT", "PERAGO_LOG_FILE_MAX_SIZE",
    "PERAGO_LOG_RETENTION", "PERAGO_WORKER_ID_PREFIX", "PERAGO_EXECUTION_MODE",
    "PERAGO_WORKSPACE_GC_TTL", "PERAGO_WORKSPACE_GC_INTERVAL",
    "PERAGO_SHUTDOWN_FORCE_KILL_AFTER", "PERAGO_FAILURE_REASON_MAX_LENGTH",
    "CONDUCTOR_SERVER_URL", "LAKECTL_SERVER_ENDPOINT_URL", "LAKECTL_CREDENTIALS_ACCESS_KEY_ID",
    "LAKECTL_CREDENTIALS_SECRET_ACCESS_KEY", "OTEL_EXPORTER_OTLP_METRICS_HEADERS",
    "OTEL_SERVICE_NAME", "OTEL_RESOURCE_ATTRIBUTES", "OTEL_EXPORTER_OTLP_ENDPOINT",
    "OTEL_EXPORTER_OTLP_METRICS_ENDPOINT", "PERAGO_INSTANCE_ID",
    "OTEL_EXPORTER_OTLP_METRICS_COMPRESSION", "OTEL_EXPORTER_OTLP_METRICS_TIMEOUT",
    "OTEL_METRIC_EXPORT_INTERVAL"]

theorem readRuntimeConfig_congr {env env' : Env} (moduleTarget tempRoot : Text)
    (agree : ∀ name ∈ configVariables, env name = env' name) :
    readRuntimeConfig moduleTarget tempRoot env = readRuntimeConfig moduleTarget tempRoot env' := by
  simp only [configVariables, List.forall_mem_cons] at agree
  simp only [readRuntimeConfig, resolveWorkerIdPrefix, parseConductorConfig, parseLakefsConfig,
    parseMetricsConfig, refuseUnsupported, unsupportedMetrics, envOptional, agree]

theorem loadRuntimeConfig_congr {dotenv dotenv' : Env}
    (probe : Text → Except PyException Unit) (moduleTarget tempRoot : Text) (processEnv : Env)
    (probeRoots : Bool) (agree : ∀ name ∈ configVariables, dotenv name = dotenv' name) :
    loadRuntimeConfig probe moduleTarget tempRoot processEnv dotenv probeRoots =
      loadRuntimeConfig probe moduleTarget tempRoot processEnv dotenv' probeRoots := by
  have merged : ∀ name ∈ configVariables,
      loadRuntimeEnv processEnv dotenv name = loadRuntimeEnv processEnv dotenv' name := by
    intro name known
    rw [loadRuntimeEnv, loadRuntimeEnv, agree name known]
  rw [loadRuntimeConfig, readRuntimeConfig_congr moduleTarget tempRoot merged]
  rfl

/-- A setting on a line of its own, its value between quotes. -/
def quotedLine (name : String) (value : Text) : Text :=
  text name ++ 0x3D :: (0x27 :: value ++ [0x27])

def quotedLines (env : Env) (names : List String) : List Text :=
  names.filterMap fun name => (env name).map (quotedLine name)

def quotedFile (env : Env) (names : List String) : Text :=
  (quotedLines env names).flatMap fun line => line ++ [0x0A]

/-- A name that can stand before the sign. -/
structure Writable (name : String) : Prop where
  plain : Plain isLineBreak (text name)
  trimmed : Trimmed isspace (text name)
  noSign : 0x3D ∉ text name
  noComment : (text name).head? ≠ some 0x23
  noExport : ¬ exportWord <+: text name
  encodable : Encodable (text name)

/-- A letter, a digit or `_`. -/
def isNameCharacter (c : CodePoint) : Bool := isAlnum c || c.val == 0x5F

theorem nameCharacter_bounds {c : CodePoint} (h : isNameCharacter c = true) :
    0x30 ≤ c.val ∧ c.val ≤ 0x7A := by
  simp only [isNameCharacter, isAlnum, isDigit, Bool.or_eq_true, Bool.and_eq_true,
    decide_eq_true_eq, beq_iff_eq] at h
  omega

theorem isspace_nameCharacter {c : CodePoint} (h : isNameCharacter c = true) :
    isspace c = false := by
  have bounds := nameCharacter_bounds h
  simp only [isspace]
  grind

theorem isLineBreak_nameCharacter {c : CodePoint} (h : isNameCharacter c = true) :
    isLineBreak c = false := by
  have bounds := nameCharacter_bounds h
  simp only [isLineBreak]
  grind

theorem writable_of_characters {name : String} (h : ∀ c ∈ text name, isNameCharacter c = true) :
    Writable name where
  plain c hc := isLineBreak_nameCharacter (h c hc)
  trimmed :=
    { head := fun c hc => isspace_nameCharacter (h c (List.mem_of_mem_head? hc))
      last := fun c hc => isspace_nameCharacter (h c (List.mem_of_mem_getLast? hc)) }
  noSign found := absurd (h _ found) (by decide)
  noComment hash := absurd (h _ (List.mem_of_mem_head? hash)) (by decide)
  noExport inside := by
    have space : (0x20 : CodePoint) ∈ text name := inside.subset (by decide)
    exact absurd (h _ space) (by decide)
  encodable c hc := by
    have bounds := nameCharacter_bounds (h c hc)
    omega

theorem assignment_quotedLine {name : String} (h : Writable name) (value : Text) :
    Assignment (quotedLine name value) (text name) value := by
  have none : Blank [] := by simp [Blank]
  have bare : ¬ exportWord <+: text name ++ [] := by simpa using h.noExport
  have quotes : Spelled (0x27 :: value ++ [0x27]) value := .quoted (.inl rfl)
  have line := Assignment.plain (a := []) (c := []) (d := []) (e := []) none none none none
    h.trimmed h.noSign h.noComment bare quotes
  simpa [quotedLine] using line

theorem plain_quotedLine {name : String} {value : Text} (h : Writable name)
    (hv : Plain isLineBreak value) : Plain isLineBreak (quotedLine name value) := by
  intro c hc
  simp only [quotedLine, List.cons_append, List.mem_append, List.mem_cons, List.not_mem_nil,
    or_false] at hc
  rcases hc with inName | rfl | rfl | inValue | rfl
  · exact h.plain c inName
  · rfl
  · rfl
  · exact hv c inValue
  · rfl

theorem lines_quotedFile {lines : List Text} (plain : ∀ line ∈ lines, Plain isLineBreak line) :
    Lines isLineBreak isCrLf (lines.flatMap fun line => line ++ [0x0A]) lines := by
  induction lines with
  | nil => exact .nil
  | cons line lines ih =>
    obtain ⟨first, others⟩ := List.forall_mem_cons.mp plain
    rw [List.flatMap_cons, List.append_assoc]
    exact .broken first rfl (fun d _ => not_isCrLf (by decide) d) (ih others)

theorem foldl_quotedLines {env : Env} {names : List String} (values : Text → Option Text)
    (writable : ∀ name ∈ names, Writable name) (name : String) :
    (quotedLines env names).foldl readInto values (text name) =
      (if name ∈ names then env name else none).or (values (text name)) := by
  induction names generalizing values with
  | nil => rfl
  | cons first names ih =>
    obtain ⟨ok, others⟩ := List.forall_mem_cons.mp writable
    cases written : env first with
    | none =>
      have skip : quotedLines env (first :: names) = quotedLines env names := by
        simp [quotedLines, written]
      rw [skip, ih values others]
      by_cases same : name = first
      · simp [same, written]
      · simp [same]
    | some value =>
      have take : quotedLines env (first :: names) =
          quotedLine first value :: quotedLines env names := by
        simp [quotedLines, written]
      have read := readLine_complete (assignment_quotedLine ok value)
      rw [take, List.foldl_cons, ih _ others]
      simp only [readInto, read]
      by_cases same : name = first
      · subst same
        by_cases later : name ∈ names
        · simp [written, later]
        · simp [written, later]
      · have differ : text name ≠ text first := fun h => same (text_injective h)
        simp [same, Function.update_of_ne differ]

theorem writable_configVariables : ∀ name ∈ configVariables, Writable name := by
  intro name known
  have characters : (configVariables.all fun name => (text name).all isNameCharacter) = true := by
    decide +kernel
  have ofName := List.all_eq_true.mp characters name known
  exact writable_of_characters (List.all_eq_true.mp ofName)

theorem dotenvEnv_quotedFile {env : Env} {name : String} (known : name ∈ configVariables)
    (oneLine : ∀ name ∈ configVariables, ∀ value ∈ env name, Plain isLineBreak value) :
    dotenvEnv (some (quotedFile env configVariables)) name = env name := by
  have plain : ∀ line ∈ quotedLines env configVariables, Plain isLineBreak line := by
    intro line written
    obtain ⟨other, known', found⟩ := List.mem_filterMap.mp written
    obtain ⟨value, set, rfl⟩ := Option.map_eq_some_iff.mp found
    exact plain_quotedLine (writable_configVariables other known') (oneLine other known' value set)
  have split : splitlines (quotedFile env configVariables) = quotedLines env configVariables :=
    (lines_iff breaks_of_isCrLf).mpr (lines_quotedFile plain)
  rw [dotenvEnv, readDotenv, splitlines_universalNewlines, split,
    foldl_quotedLines _ writable_configVariables, if_pos known, Option.or_none]

theorem mem_of_spelled {w value : Text} (h : Spelled w value) {c : CodePoint} (hc : c ∈ value) :
    c ∈ w := by
  cases h with
  | quoted _ => exact List.mem_cons_of_mem _ (List.mem_append_left _ hc)
  | plain _ _ => exact hc

theorem mem_of_assignment {rawLine key value : Text} (h : Assignment rawLine key value)
    {c : CodePoint} (hc : c ∈ value) : c ∈ rawLine := by
  cases h with
  | plain _ _ _ _ _ _ _ _ hw => simp [mem_of_spelled hw hc]
  | exported _ _ _ _ _ _ _ hw => simp [mem_of_spelled hw hc]

/-- A value stands on one line of the file. -/
theorem plain_of_readDotenv {contents key value : Text}
    (h : readDotenv (some contents) key = some value) :
    Plain isLineBreak value ∧ value ⊆ contents := by
  obtain ⟨lines, split, before, rawLine, after, rfl, assigns, _⟩ := readDotenv_eq_some_iff.mp h
  have plain := split.plain_of_mem (l := rawLine) (by simp)
  have inside := split.subset_of_mem (l := rawLine) (by simp)
  exact ⟨fun c hc => plain c (mem_of_assignment assigns hc),
    fun c hc => inside (mem_of_assignment assigns hc)⟩

/-- The signs between names and values can be written. -/
theorem encodable_quotedFile {env : Env}
    (encodable : ∀ name ∈ configVariables, ∀ value ∈ env name, Encodable value) :
    Encodable (quotedFile env configVariables) := by
  intro c hc
  obtain ⟨line, written, hc⟩ := List.mem_flatMap.mp hc
  obtain ⟨name, known, found⟩ := List.mem_filterMap.mp written
  obtain ⟨value, set, rfl⟩ := Option.map_eq_some_iff.mp found
  have letters := (writable_configVariables name known).encodable
  have inValue := encodable name known value set
  simp only [quotedLine, List.cons_append, List.mem_append, List.mem_cons, List.not_mem_nil,
    or_false] at hc
  rcases hc with (hc | rfl | rfl | hc | rfl) | rfl
  · exact letters c hc
  · decide
  · decide
  · exact inValue c hc
  · decide
  · decide

/-- A file can hold the values of the variables exactly when none of them breaks a line or
holds a lone surrogate, and the configuration is read from it as from the variables
themselves. -/
theorem dotenv_carries_settings (env : Env) :
    (∀ name ∈ configVariables, ∀ value ∈ env name, Plain isLineBreak value ∧ Encodable value) ↔
      ∃ contents, Encodable contents ∧
        (∀ name ∈ configVariables, dotenvEnv (some contents) name = env name) ∧
        ∀ (probe : Text → Except PyException Unit) (moduleTarget tempRoot : Text)
          (processEnv : Env) (probeRoots : Bool),
          loadRuntimeConfig probe moduleTarget tempRoot processEnv (dotenvEnv (some contents))
              probeRoots =
            loadRuntimeConfig probe moduleTarget tempRoot processEnv env probeRoots := by
  constructor
  · intro fits
    have holds : ∀ name ∈ configVariables,
        dotenvEnv (some (quotedFile env configVariables)) name = env name :=
      fun name known => dotenvEnv_quotedFile known fun name known value set =>
        (fits name known value set).1
    refine ⟨_, encodable_quotedFile fun name known value set => (fits name known value set).2,
      holds, fun probe moduleTarget tempRoot processEnv probeRoots => ?_⟩
    exact loadRuntimeConfig_congr probe moduleTarget tempRoot processEnv probeRoots holds
  · rintro ⟨contents, encodable, holds, _⟩ name known value set
    obtain ⟨plain, inside⟩ := plain_of_readDotenv ((holds name known).trans set)
    exact ⟨plain, fun c hc => encodable c (inside hc)⟩

end Perago
