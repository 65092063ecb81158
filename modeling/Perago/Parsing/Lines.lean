import Mathlib.Data.List.DropRight

/-!
# Trimming and lines

Reading a text line by line: what is left when a class of characters is taken from both
ends, what stands before and after a separator, and the lines between breaks, of which two
may count as one. Each operation is the function of a relation that says how the text was
put together.
-/

namespace Perago.Parsing

universe u

variable {α : Type u}

/-! ## Trimming -/

section

variable {p : α → Bool} {t v a b : List α}

def trim (p : α → Bool) (t : List α) : List α := (t.dropWhile p).rdropWhile p

structure Trimmed (p : α → Bool) (t : List α) : Prop where
  head : ∀ c ∈ t.head?, p c = false
  last : ∀ c ∈ t.getLast?, p c = false

theorem Trimmed.nil : Trimmed p [] := ⟨by simp, by simp⟩

theorem Trimmed.rdropWhile_eq (h : Trimmed p t) : t.rdropWhile p = t := by
  refine List.rdropWhile_eq_self_iff.mpr fun nonempty => ?_
  have stays := h.last _ (List.getLast?_eq_getLast_of_ne_nil nonempty)
  simp [stays]

theorem rdropWhile_append_of_pos (hb : ∀ c ∈ b, p c = true) :
    (t ++ b).rdropWhile p = t.rdropWhile p := by
  have right : ∀ c ∈ b.reverse, p c = true := fun c hc => hb c (List.mem_reverse.mp hc)
  rw [List.rdropWhile, List.reverse_append, List.dropWhile_append_of_pos right, List.rdropWhile]

theorem trim_append (ha : ∀ c ∈ a, p c = true) (hb : ∀ c ∈ b, p c = true) (hv : Trimmed p v) :
    trim p (a ++ v ++ b) = v := by
  rw [trim, List.append_assoc, List.dropWhile_append_of_pos ha]
  cases v with
  | nil =>
    have gone : b.dropWhile p = [] := List.dropWhile_eq_nil_iff.mpr hb
    rw [List.nil_append, gone, List.rdropWhile_nil]
  | cons c v =>
    have stays : p c = false := hv.head c rfl
    have front : ((c :: v) ++ b).dropWhile p = (c :: v) ++ b := by simp [stays]
    rw [front, rdropWhile_append_of_pos hb, hv.rdropWhile_eq]

theorem trimmed_trim (p : α → Bool) (t : List α) : Trimmed p (trim p t) := by
  constructor
  · intro c hc
    -- what is kept from the right begins as the text did
    obtain ⟨dropped, split⟩ := List.rdropWhile_prefix p (t.dropWhile p)
    have first : (t.dropWhile p).head? = some c := by
      rw [← split, List.head?_append]
      exact congrArg (fun o => o.or dropped.head?) hc
    have stop := List.head?_dropWhile_not p t
    rw [first] at stop
    simpa using stop
  · intro c hc
    have nonempty : trim p t ≠ [] := by
      intro empty
      rw [empty] at hc
      cases hc
    have stop := List.rdropWhile_last_not p (t.dropWhile p) nonempty
    rw [List.getLast?_eq_getLast_of_ne_nil nonempty] at hc
    cases hc
    simpa [trim] using stop

theorem trim_split (p : α → Bool) (t : List α) :
    ∃ a b, (∀ c ∈ a, p c = true) ∧ (∀ c ∈ b, p c = true) ∧ t = a ++ trim p t ++ b := by
  refine ⟨t.takeWhile p, (t.dropWhile p).rtakeWhile p, fun c hc => List.mem_takeWhile_imp hc,
    fun c hc => List.mem_rtakeWhile_imp hc, ?_⟩
  rw [List.append_assoc, trim, List.rdropWhile_append_rtakeWhile,
    List.takeWhile_append_dropWhile]

theorem trim_eq_iff : trim p t = v ↔
    Trimmed p v ∧
      ∃ a b, (∀ c ∈ a, p c = true) ∧ (∀ c ∈ b, p c = true) ∧ t = a ++ v ++ b := by
  constructor
  · rintro rfl
    exact ⟨trimmed_trim p t, trim_split p t⟩
  · rintro ⟨trimmed, a, b, ha, hb, rfl⟩
    exact trim_append ha hb trimmed

theorem trim_surrounded (ha : ∀ c ∈ a, p c = true) (hb : ∀ c ∈ b, p c = true) :
    trim p (a ++ t ++ b) = trim p t := by
  obtain ⟨a', b', ha', hb', split⟩ := trim_split p t
  refine trim_eq_iff.mpr ⟨trimmed_trim p t, a ++ a', b' ++ b, ?_, ?_, ?_⟩
  · exact fun c hc => (List.mem_append.mp hc).elim (ha c) (ha' c)
  · exact fun c hc => (List.mem_append.mp hc).elim (hb' c) (hb c)
  · conv_lhs => rw [split]
    simp only [List.append_assoc]

theorem trim_rdropWhile (p : α → Bool) (t : List α) : trim p (t.rdropWhile p) = trim p t := by
  have right : ∀ c ∈ t.rtakeWhile p, p c = true := fun c hc => List.mem_rtakeWhile_imp hc
  have whole := trim_surrounded (a := []) (t := t.rdropWhile p) (by simp) right
  rw [List.nil_append, List.rdropWhile_append_rtakeWhile] at whole
  exact whole.symm

theorem rdropWhile_append_cons {c : α} (hc : p c = false) :
    (a ++ c :: b).rdropWhile p = a ++ c :: b.rdropWhile p := by
  induction b using List.reverseRecOn with
  | nil => rw [List.rdropWhile_concat, hc]; rfl
  | append_singleton b d ih =>
    rw [← List.cons_append, ← List.append_assoc, List.rdropWhile_concat, List.rdropWhile_concat]
    by_cases hd : p d = true
    · rw [if_pos hd, if_pos hd, ih]
    · rw [if_neg hd, if_neg hd, List.append_assoc, List.cons_append]

end

/-! ## Splitting once -/

section

variable [DecidableEq α] {p : α → Bool} {sep : α} {t x y : List α}

/-- The text before the first `sep` and the text after it. -/
def splitOnce (sep : α) : List α → Option (List α × List α)
  | [] => none
  | c :: t => if c = sep then some ([], t) else (splitOnce sep t).map (Prod.map (c :: ·) id)

theorem splitOnce_append (fresh : sep ∉ x) : splitOnce sep (x ++ sep :: y) = some (x, y) := by
  induction x with
  | nil => simp [splitOnce]
  | cons c x ih =>
    have other : c ≠ sep := fun same => fresh (same ▸ List.mem_cons_self)
    have next := ih fun found => fresh (List.mem_cons_of_mem c found)
    rw [List.cons_append, splitOnce, if_neg other, next]
    rfl

theorem splitOnce_eq_none (fresh : sep ∉ t) : splitOnce sep t = none := by
  induction t with
  | nil => rfl
  | cons c t ih =>
    have other : c ≠ sep := fun same => fresh (same ▸ List.mem_cons_self)
    rw [splitOnce, if_neg other, ih fun found => fresh (List.mem_cons_of_mem c found)]
    rfl

theorem splitOnce_eq_some_iff : splitOnce sep t = some (x, y) ↔ t = x ++ sep :: y ∧ sep ∉ x := by
  constructor
  · intro found
    by_cases present : sep ∈ t
    · obtain ⟨x', y', rfl, fresh⟩ := List.eq_append_cons_of_mem present
      rw [splitOnce_append fresh] at found
      cases found
      exact ⟨rfl, fresh⟩
    · rw [splitOnce_eq_none present] at found
      cases found
  · rintro ⟨rfl, fresh⟩
    exact splitOnce_append fresh

/-- What a trim takes from the text it would have taken from the parts. -/
theorem splitOnce_trim (stays : p sep = false) :
    (splitOnce sep (trim p t)).map (Prod.map (trim p) (trim p)) =
      (splitOnce sep t).map (Prod.map (trim p) (trim p)) := by
  obtain ⟨a, b, ha, hb, split⟩ := trim_split p t
  have outer : ∀ l : List α, (∀ c ∈ l, p c = true) → sep ∉ l := by
    intro l hl found
    simp [hl sep found] at stays
  by_cases present : sep ∈ trim p t
  · obtain ⟨x, y, parts, fresh⟩ := List.eq_append_cons_of_mem present
    have whole : t = (a ++ x) ++ sep :: (y ++ b) := by
      rw [split, parts]
      simp only [List.append_assoc, List.cons_append]
    have fresh' : sep ∉ a ++ x :=
      fun found => (List.mem_append.mp found).elim (outer a ha) fresh
    have left : trim p (a ++ x) = trim p x := by
      simpa using trim_surrounded (t := x) (b := []) ha (by simp)
    have right : trim p (y ++ b) = trim p y := by
      simpa using trim_surrounded (t := y) (a := []) (by simp) hb
    rw [parts, splitOnce_append fresh]
    conv_rhs => rw [whole, splitOnce_append fresh']
    simp [left, right]
  · have absent : sep ∉ t := by
      rw [split]
      intro found
      obtain inside | after := List.mem_append.mp found
      · exact (List.mem_append.mp inside).elim (outer a ha) present
      · exact outer b hb after
    rw [splitOnce_eq_none present, splitOnce_eq_none absent]

end

/-! ## Lines -/

section

variable (isBreak : α → Bool) (joins : α → α → Bool)

/-- `current` is the line so far; two characters that join are one break. -/
def splitLinesFrom : List α → List α → List (List α)
  | current, [] => if current.isEmpty then [] else [current]
  | current, [c] => if isBreak c then [current] else [current ++ [c]]
  | current, c :: d :: rest =>
    if joins c d then current :: splitLinesFrom [] rest
    else if isBreak c then current :: splitLinesFrom [] (d :: rest)
    else splitLinesFrom (current ++ [c]) (d :: rest)

def splitLines (t : List α) : List (List α) := splitLinesFrom isBreak joins [] t

def Plain (l : List α) : Prop := ∀ c ∈ l, isBreak c = false

/-- A text and its lines. The last line has no break, and then it is not empty. -/
inductive Lines : List α → List (List α) → Prop where
  | nil : Lines [] []
  | last {l : List α} : l ≠ [] → Plain isBreak l → Lines l [l]
  | joined {l rest : List α} {c d : α} {ls : List (List α)} : Plain isBreak l →
      joins c d = true → Lines rest ls → Lines (l ++ c :: d :: rest) (l :: ls)
  | broken {l rest : List α} {c : α} {ls : List (List α)} : Plain isBreak l →
      isBreak c = true → (∀ d ∈ rest.head?, joins c d = false) → Lines rest ls →
      Lines (l ++ c :: rest) (l :: ls)

variable {isBreak joins} {t current l : List α} {ls : List (List α)}

theorem Plain.concat (h : Plain isBreak l) {c : α} (hc : isBreak c = false) :
    Plain isBreak (l ++ [c]) := by
  intro d hd
  obtain old | new := List.mem_append.mp hd
  · exact h d old
  · obtain rfl := List.mem_singleton.mp new
    exact hc

theorem lines_splitLinesFrom (plain : Plain isBreak current) :
    Lines isBreak joins (current ++ t) (splitLinesFrom isBreak joins current t) := by
  fun_induction splitLinesFrom isBreak joins current t with
  | case1 current empty =>
    obtain rfl : current = [] := List.isEmpty_iff.mp empty
    exact .nil
  | case2 current present =>
    rw [List.append_nil]
    exact .last (fun empty => present (List.isEmpty_iff.mpr empty)) plain
  | case3 current c breaks => exact .broken plain breaks (by simp) .nil
  | case4 current c stays => exact .last (by simp) (plain.concat (by simpa using stays))
  | case5 current c d rest together ih =>
    exact .joined plain together (ih (by simp [Plain]))
  | case6 current c d rest apart breaks ih =>
    exact .broken plain breaks (by simpa using apart) (ih (by simp [Plain]))
  | case7 current c d rest apart stays ih =>
    have rest := ih (plain.concat (by simpa using stays))
    rwa [List.append_assoc] at rest

theorem Lines.plain_of_mem (h : Lines isBreak joins t ls) (hl : l ∈ ls) : Plain isBreak l := by
  induction h with
  | nil => cases hl
  | last _ plain =>
    obtain rfl := List.mem_singleton.mp hl
    exact plain
  | joined plain _ _ ih => exact (List.mem_cons.mp hl).elim (fun same => same ▸ plain) ih
  | broken plain _ _ _ ih => exact (List.mem_cons.mp hl).elim (fun same => same ▸ plain) ih

/-- A line is a part of the text. -/
theorem Lines.subset_of_mem (h : Lines isBreak joins t ls) (hl : l ∈ ls) : l ⊆ t := by
  induction h with
  | nil => cases hl
  | last _ _ =>
    obtain rfl := List.mem_singleton.mp hl
    exact List.Subset.refl l
  | joined _ _ _ ih | broken _ _ _ _ ih =>
    obtain rfl | later := List.mem_cons.mp hl
    · exact List.subset_append_left _ _
    · intro c hc
      simp [ih later hc]

theorem splitLinesFrom_cons {c : α} (apart : ∀ d, joins c d = false) :
    splitLinesFrom isBreak joins current (c :: t) =
      if isBreak c then current :: splitLinesFrom isBreak joins [] t
      else splitLinesFrom isBreak joins (current ++ [c]) t := by
  cases t with
  | nil => simp [splitLinesFrom]
  | cons d t => simp [splitLinesFrom, apart]

theorem splitLinesFrom_plain (joining : ∀ c d, joins c d = true → isBreak c = true)
    (plain : Plain isBreak l) :
    splitLinesFrom isBreak joins current (l ++ t) =
      splitLinesFrom isBreak joins (current ++ l) t := by
  induction l generalizing current with
  | nil => simp
  | cons c l ih =>
    have stays : isBreak c = false := plain c List.mem_cons_self
    have apart : ∀ d, joins c d = false := by
      intro d
      by_contra together
      simp [joining c d (by simpa using together)] at stays
    have next : splitLinesFrom isBreak joins (current ++ [c]) (l ++ t) =
        splitLinesFrom isBreak joins (current ++ c :: l) t := by
      rw [ih fun d hd => plain d (List.mem_cons_of_mem c hd), List.append_assoc]
      rfl
    rw [← next, List.cons_append, splitLinesFrom_cons apart, if_neg (by simp [stays])]

theorem Lines.splitLines_eq (joining : ∀ c d, joins c d = true → isBreak c = true)
    (h : Lines isBreak joins t ls) : splitLines isBreak joins t = ls := by
  unfold splitLines
  induction h with
  | nil => rfl
  | @last l nonempty plain =>
    have whole : splitLinesFrom isBreak joins [] (l ++ []) =
        splitLinesFrom isBreak joins ([] ++ l) [] := splitLinesFrom_plain joining plain
    rw [List.append_nil] at whole
    simpa [whole, splitLinesFrom] using nonempty
  | joined plain together _ ih =>
    rw [splitLinesFrom_plain joining plain]
    simp [splitLinesFrom, together, ih]
  | @broken l rest c ls plain breaks apart _ ih =>
    rw [splitLinesFrom_plain joining plain]
    cases rest with
    | nil => simpa [splitLinesFrom, breaks] using ih
    | cons d rest =>
      have separate : joins c d = false := apart d rfl
      simp [splitLinesFrom, breaks, separate, ih]

theorem lines_iff (joining : ∀ c d, joins c d = true → isBreak c = true) :
    splitLines isBreak joins t = ls ↔ Lines isBreak joins t ls := by
  constructor
  · rintro rfl
    have read : Lines isBreak joins ([] ++ t) (splitLinesFrom isBreak joins [] t) :=
      lines_splitLinesFrom (by simp [Plain])
    exact read
  · exact Lines.splitLines_eq joining

end

end Perago.Parsing
