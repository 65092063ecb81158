import Perago.Guards
import Perago.Pathlib.Glob

/-!
# What guardrails see of the attempt marker

`check_guardrails` runs on the prepared directory, in which the attempt marker is a file
like any other. It judges as on the task's own files exactly when no guardrail is decided
by the marker, or a guardrail that the marker does not decide is violated anyway.
-/

namespace Perago

open Effect Pathlib

/-! ## Guardrails on a listed directory -/

def invalidPattern : PyException :=
  .mk' .valueError "Invalid pattern: '**' can only be an entire path component"

/-- A machine whose calls about `root` look at a listing. -/
def listingHost (base : Host Listing) (rules : Rules) (root : Path) : Host Listing :=
  { base with
    isFile := fun path => .get fun L => L.kindAt (path.drop root.length) = some .file
    isDir := fun path => .get fun L => L.kindAt (path.drop root.length) = some .directory
    globCount := fun _ pattern L =>
      if (pattern.splitOn slash).any rules.malformed then (.error invalidPattern, L)
      else (.ok (L.count rules (pattern.splitOn slash)), L) }

namespace WorkspaceGuardrail

variable (rules : Rules) (L : Listing) (g : WorkspaceGuardrail)

/-- The components of a glob pattern. -/
def pattern : List Text := g.path.splitOn slash

/-- The bounds of a glob guardrail on the number of matches. -/
def Accepts (n : Nat) : Prop :=
  match g.kind with
  | .forbidGlob => n = 0
  | _ => (∀ m ∈ g.minCount, m ≤ n) ∧ ∀ m ∈ g.maxCount, n ≤ m

/-- The guardrail is satisfied in the directory. -/
def Holds : Prop :=
  match g.kind with
  | .requireFile => L.kindAt (posixParts g.path) = some .file
  | .requireDir => L.kindAt (posixParts g.path) = some .directory
  | .requireGlob | .forbidGlob =>
    g.pattern.any rules.malformed = false ∧ g.Accepts (L.count rules g.pattern)

end WorkspaceGuardrail

variable {base : Host Listing} {rules : Rules} {root : Path} {L : Listing}
variable {g : WorkspaceGuardrail} {G : List WorkspaceGuardrail} {phase : GuardrailPhase}

/-- A check passes or raises, and leaves the directory as it is. -/
def Judged (holds : Prop) (L : Listing) (call : Outcome PyException Unit × Listing) : Prop :=
  call = (.ok (), L) ∧ holds ∨ (∃ exc, call = (.error exc, L)) ∧ ¬ holds

theorem Judged.passed {holds : Prop} {call : Outcome PyException Unit × Listing}
    (h : Judged holds L call) : call.1 = .ok () ↔ holds := by
  obtain ⟨rfl, h⟩ | ⟨⟨exc, rfl⟩, h⟩ := h
  · exact iff_of_true rfl h
  · exact iff_of_false nofun h

theorem judged_ite {holds : Prop} [Decidable holds] {exc : PyException} :
    Judged holds L
      ((if holds then pure () else Proc.raise exc : Proc PyException Listing Unit) L) := by
  by_cases h : holds
  · exact .inl ⟨by rw [if_pos h]; rfl, h⟩
  · exact .inr ⟨⟨exc, by rw [if_neg h]; rfl⟩, h⟩

/-- A guardrail on a glob pattern, once the matches are counted. -/
theorem judged_count (hk : g.kind = .requireGlob ∨ g.kind = .forbidGlob) :
    Judged (g.Holds rules L) L (checkGuardrail (listingHost base rules root) root phase g L) := by
  have holds : g.Holds rules L ↔
      g.pattern.any rules.malformed = false ∧ g.Accepts (L.count rules g.pattern) := by
    rcases hk with hk | hk <;> simp [WorkspaceGuardrail.Holds, hk]
  cases hm : g.pattern.any rules.malformed with
  | true =>
    refine .inr ⟨⟨invalidPattern, ?_⟩, by simp [holds, hm]⟩
    rcases hk with hk | hk <;>
      simp_all [checkGuardrail, listingHost, WorkspaceGuardrail.pattern, Bind.bind, Proc.bind]
  | false =>
    have counted : (listingHost base rules root).globCount root g.path L =
        (.ok (L.count rules g.pattern), L) := by
      simp_all [listingHost, WorkspaceGuardrail.pattern]
    simp only [holds, hm, true_and]
    obtain hk | hk := hk
    · simp only [checkGuardrail, hk, Proc.bind_of_ok counted, WorkspaceGuardrail.Accepts]
      cases few : g.minCount.any (L.count rules g.pattern < ·) with
      | true =>
        refine .inr ⟨⟨_, rfl⟩, fun accepts => ?_⟩
        have lower := accepts.1
        cases hmin : g.minCount <;> simp_all
        omega
      | false =>
        cases many : g.maxCount.any (· < L.count rules g.pattern) with
        | true =>
          refine .inr ⟨⟨_, rfl⟩, fun accepts => ?_⟩
          have upper := accepts.2
          cases hmax : g.maxCount <;> simp_all
          omega
        | false =>
          refine .inl ⟨rfl, fun m hmin => ?_, fun m hmax => ?_⟩
          · simpa [Option.mem_def.mp hmin] using few
          · simpa [Option.mem_def.mp hmax] using many
    · simp only [checkGuardrail, hk, Proc.bind_of_ok counted, WorkspaceGuardrail.Accepts]
      exact judged_ite

theorem checkGuardrail_judged :
    Judged (g.Holds rules L) L (checkGuardrail (listingHost base rules root) root phase g L) := by
  have read : ∀ path : List Text, (root ++ path).drop root.length = path := fun _ => List.drop_left
  cases hk : g.kind with
  | requireFile =>
    have found : (listingHost base rules root).isFile (root.join g.path) L =
        (.ok (decide (L.kindAt (posixParts g.path) = some .file)), L) := by
      simp [listingHost, Proc.get, Path.join, read]
    simp only [checkGuardrail, hk, Proc.bind_of_ok found, WorkspaceGuardrail.Holds]
    simpa using judged_ite
  | requireDir =>
    have found : (listingHost base rules root).isDir (root.join g.path) L =
        (.ok (decide (L.kindAt (posixParts g.path) = some .directory)), L) := by
      simp [listingHost, Proc.get, Path.join, read]
    simp only [checkGuardrail, hk, Proc.bind_of_ok found, WorkspaceGuardrail.Holds]
    simpa using judged_ite
  | requireGlob => exact judged_count (.inl hk)
  | forbidGlob => exact judged_count (.inr hk)

/-- The check passes exactly when every guardrail holds. -/
theorem checkGuardrails_passes_iff :
    (checkGuardrails (listingHost base rules root) root G phase L).1 = .ok () ↔
      ∀ g ∈ G, g.Holds rules L := by
  induction G with
  | nil => simp [checkGuardrails, Proc.each, Pure.pure, Proc.pure]
  | cons g G ih =>
    rw [List.forall_mem_cons, ← ih]
    have judged : Judged (g.Holds rules L) L
      (checkGuardrail (listingHost base rules root) root phase g L) := checkGuardrail_judged
    obtain ⟨run, h⟩ | ⟨⟨exc, run⟩, h⟩ := judged
    · simp only [checkGuardrails, Proc.each, Proc.bind_of_ok run, h, true_and]
    · simp [checkGuardrails, Proc.each, Bind.bind, Proc.bind, run, h]

/-! ## Guardrails that the marker decides -/

/-- The directory without the attempt marker at its root. -/
def withoutMarker (L : Listing) : Listing := L.unlink [attemptWorkspaceMarker]

/-- The path names the attempt marker, or a symlink to it. -/
def LeadsToMarker (L : Listing) (parts : List Text) : Prop :=
  ∃ e ∈ L.entries, e.parts = parts ∧ e.kind = .file ∧ e.real = [attemptWorkspaceMarker]

namespace WorkspaceGuardrail

variable (rules : Rules) (L : Listing) (g : WorkspaceGuardrail)

/-- The matches among the task's own files. -/
def ownMatches : Nat := (withoutMarker L).count rules g.pattern

/-- The matches that are the marker. -/
def markerMatches : Nat := L.countLost rules [attemptWorkspaceMarker] g.pattern

/-- The task's own files violate the guardrail, but the marker makes up for it. -/
def SatisfiedByMarker : Prop :=
  match g.kind with
  | .requireFile => LeadsToMarker L (posixParts g.path)
  | .requireDir | .forbidGlob => False
  | .requireGlob => g.pattern.any rules.malformed = false ∧
    (∃ m ∈ g.minCount, g.ownMatches rules L < m ∧
      m ≤ g.ownMatches rules L + g.markerMatches rules L) ∧
      ∀ m ∈ g.maxCount, g.ownMatches rules L + g.markerMatches rules L ≤ m

/-- The task's own files satisfy the guardrail, but the marker violates it. -/
def ViolatedByMarker : Prop :=
  match g.kind with
  | .requireFile | .requireDir => False
  | .forbidGlob => g.pattern.any rules.malformed = false ∧
    g.ownMatches rules L = 0 ∧ 0 < g.markerMatches rules L
  | .requireGlob => g.pattern.any rules.malformed = false ∧
    (∀ m ∈ g.minCount, m ≤ g.ownMatches rules L) ∧
      ∃ m ∈ g.maxCount, g.ownMatches rules L ≤ m ∧
        m < g.ownMatches rules L + g.markerMatches rules L

/-- The task's own files violate the guardrail, whatever the marker adds. -/
def ViolatedAnyway : Prop :=
  match g.kind with
  | .requireFile => L.kindAt (posixParts g.path) ≠ some .file
  | .requireDir => L.kindAt (posixParts g.path) ≠ some .directory
  | .forbidGlob => g.pattern.any rules.malformed = true ∨ 0 < g.ownMatches rules L
  | .requireGlob => g.pattern.any rules.malformed = true ∨
    (∃ m ∈ g.maxCount, m < g.ownMatches rules L) ∨
      ∃ m ∈ g.minCount, g.ownMatches rules L < m ∧
        (g.ownMatches rules L + g.markerMatches rules L < m ∨
          ∃ m ∈ g.maxCount, m < g.ownMatches rules L + g.markerMatches rules L)

end WorkspaceGuardrail

open WorkspaceGuardrail

theorem not_accepts_iff {n : Nat} (hk : g.kind = .requireGlob) :
    ¬ g.Accepts n ↔ (∃ m ∈ g.minCount, n < m) ∨ ∃ m ∈ g.maxCount, m < n := by
  simp only [Accepts, hk, not_and_or]
  simp

/-- With the marker, a guardrail is violated by the own files or by the marker. -/
theorem not_holds_iff : ¬ g.Holds rules L ↔
    g.ViolatedAnyway rules L ∨ g.ViolatedByMarker rules L := by
  have total : L.count rules g.pattern = g.ownMatches rules L + g.markerMatches rules L :=
    Listing.count_unlink g.pattern
  cases hk : g.kind with
  | requireFile | requireDir => simp [Holds, ViolatedAnyway, ViolatedByMarker, hk]
  | forbidGlob =>
    simp only [Holds, ViolatedAnyway, ViolatedByMarker, Accepts, hk, total]
    cases g.pattern.any rules.malformed <;> simp
    omega
  | requireGlob =>
    simp only [Holds, ViolatedAnyway, ViolatedByMarker, hk, total]
    cases g.pattern.any rules.malformed with
    | true => simp
    | false =>
      simp only [true_and, not_accepts_iff hk, Bool.false_eq_true, false_or]
      cases g.minCount <;> cases g.maxCount <;> simp <;> omega

/-- Without the marker, what the marker made up for is violated too. -/
theorem not_holds_withoutMarker_iff : ¬ g.Holds rules (withoutMarker L) ↔
    g.ViolatedAnyway rules L ∨ g.SatisfiedByMarker rules L := by
  have own : (withoutMarker L).count rules g.pattern = g.ownMatches rules L := rfl
  cases hk : g.kind with
  | requireFile =>
    simp only [Holds, ViolatedAnyway, SatisfiedByMarker, LeadsToMarker, hk, withoutMarker,
      Listing.kindAt_unlink_file, not_and, not_not]
    exact imp_iff_not_or
  | requireDir =>
    simp [Holds, ViolatedAnyway, SatisfiedByMarker, hk, withoutMarker,
      Listing.kindAt_unlink_directory]
  | forbidGlob =>
    simp only [Holds, ViolatedAnyway, SatisfiedByMarker, Accepts, hk, own]
    cases g.pattern.any rules.malformed <;> simp [Nat.pos_iff_ne_zero]
  | requireGlob =>
    simp only [Holds, ViolatedAnyway, SatisfiedByMarker, hk, own]
    cases g.pattern.any rules.malformed with
    | true => simp
    | false =>
      simp only [true_and, not_accepts_iff hk, Bool.false_eq_true, false_or]
      cases g.minCount <;> cases g.maxCount <;> simp <;> omega

/-- Two verdicts with a common cause of failure agree when the other causes do. -/
theorem verdicts_agree_iff {a b common left right : Prop} (ha : ¬ a ↔ common ∨ right)
    (hb : ¬ b ↔ common ∨ left) : (a ↔ b) ↔ common ∨ (left ↔ right) := by
  grind

/-- The check judges the directory as it judges the task's own files exactly when a
guardrail is violated anyway, or the marker satisfies one just when it violates one. -/
theorem guardrails_ignore_marker_iff (base : Host Listing) (rules : Rules) (root : Path)
    (L : Listing) (G : List WorkspaceGuardrail) (phase : GuardrailPhase) :
    ((checkGuardrails (listingHost base rules root) root G phase L).1 = .ok () ↔
        (checkGuardrails (listingHost base rules root) root G phase (withoutMarker L)).1 =
          .ok ()) ↔
      (∃ g ∈ G, g.ViolatedAnyway rules L) ∨
        ((∃ g ∈ G, g.SatisfiedByMarker rules L) ↔ ∃ g ∈ G, g.ViolatedByMarker rules L) := by
  have fails : ∀ K : Listing, (¬ ∀ g ∈ G, g.Holds rules K) ↔ ∃ g ∈ G, ¬ g.Holds rules K := by
    simp
  have marked : (¬ ∀ g ∈ G, g.Holds rules L) ↔
      (∃ g ∈ G, g.ViolatedAnyway rules L) ∨ ∃ g ∈ G, g.ViolatedByMarker rules L := by
    simp only [fails, not_holds_iff, and_or_left, exists_or]
  have unmarked : (¬ ∀ g ∈ G, g.Holds rules (withoutMarker L)) ↔
      (∃ g ∈ G, g.ViolatedAnyway rules L) ∨ ∃ g ∈ G, g.SatisfiedByMarker rules L := by
    simp only [fails, not_holds_withoutMarker_iff, and_or_left, exists_or]
  rw [checkGuardrails_passes_iff, checkGuardrails_passes_iff]
  exact verdicts_agree_iff marked unmarked

/-! ## A forbidden pattern that the marker matches -/

/-- A prepared workspace into which the body has written nothing. -/
def markerListing : Listing where
  entries := [⟨[attemptWorkspaceMarker], .file, false, [attemptWorkspaceMarker]⟩]
  nodup := by simp

/-- `forbid_glob("*.json")`. -/
def forbidJson : WorkspaceGuardrail := ⟨.forbidGlob, text "*.json", none, none⟩

/-- `forbid_glob("*.json")` fails on the marker alone, and passes without it. -/
theorem forbidGlob_matches_marker :
    (checkGuardrails (listingHost (restingHost (fun _ => emptyTree) fun _ => "") before313 []) []
      [forbidJson] .post markerListing).1 ≠ .ok () ∧
    (checkGuardrails (listingHost (restingHost (fun _ => emptyTree) fun _ => "") before313 []) []
      [forbidJson] .post (withoutMarker markerListing)).1 = .ok () := by
  constructor
  · rw [Ne, checkGuardrails_passes_iff]
    intro h
    have none : markerListing.count before313 [text "*.json"] = 0 := (h _ List.mem_cons_self).2
    exact absurd none (by decide)
  · rfl

end Perago
