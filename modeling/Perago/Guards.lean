import Perago.Models
import Perago.Result
import Perago.Workspace.Lifecycle

/-!
# Guardrails

The checks of a local attempt workspace before and after the task body.
-/

namespace Perago

open Effect

variable {σ : Type} (host : Host σ)

inductive GuardrailPhase where
  | pre
  | post
  deriving DecidableEq

def GuardrailPhase.text : GuardrailPhase → String
  | .pre => "pre"
  | .post => "post"

/-- `root / path` for the canonical path of a guardrail. -/
def Path.join (root : Path) (path : Text) : Path := root ++ posixParts path

def guardrailViolation (phase : GuardrailPhase) (g : WorkspaceGuardrail) (found : String) :
    PyException :=
  .mk' .guardrailViolation (phase.text ++ " guardrail " ++ g.label ++ found)

/-- The loop body of `check_guardrails`. -/
def checkGuardrail (root : Path) (phase : GuardrailPhase) (g : WorkspaceGuardrail) :
    Proc PyException σ Unit :=
  match g.kind with
  | .requireFile => do
    let isFile ← host.isFile (root.join g.path)
    if isFile then pure () else .raise (guardrailViolation phase g " did not find a file")
  | .requireDir => do
    let isDir ← host.isDir (root.join g.path)
    if isDir then pure () else .raise (guardrailViolation phase g " did not find a directory")
  | .forbidGlob => do
    let count ← host.globCount root g.path
    if count = 0 then pure ()
    else .raise (guardrailViolation phase g (" matched " ++ toString count ++ " files"))
  | .requireGlob => do
    let count ← host.globCount root g.path
    let matched := " matched " ++ toString count ++ " files"
    if g.minCount.any (count < ·) then .raise (guardrailViolation phase g
      (matched ++ "; min_count=" ++ toString (g.minCount.getD 0)))
    else if g.maxCount.any (· < count) then .raise (guardrailViolation phase g
      (matched ++ "; max_count=" ++ toString (g.maxCount.getD 0)))
    else pure ()

/-- `check_guardrails`. -/
def checkGuardrails (root : Path) (guardrails : List WorkspaceGuardrail)
    (phase : GuardrailPhase) : Proc PyException σ Unit :=
  .each (checkGuardrail host root phase) guardrails

/-- `_check_phase_guardrails`: a violation is raised again as the phase's own class. -/
def checkPhaseGuardrails (root : Path) (guardrails : List WorkspaceGuardrail)
    (phase : GuardrailPhase) : Proc PyException σ Unit :=
  .tryExcept (checkGuardrails host root guardrails phase) fun exc =>
    if exc.cls.isGuardrailViolation then match exc.text with
      | some message => .raise (.mk' (match phase with
        | .pre => .preGuardrailViolation
        | .post => .postGuardrailViolation) message)
      | none => .raise (.mk' (.other "Exception") "__str__ raised")
    else .raise exc

variable {host} {I : σ → Prop} {W : PyException → Prop} {C : σ → Prop}

theorem guardrailViolation_wellFormed (phase : GuardrailPhase) (g : WorkspaceGuardrail)
    (found : String) (limit : Nat) : (guardrailViolation phase g found).WellFormed limit :=
  PyException.wellFormed_mk' _ (by decide)

theorem checkGuardrail_keeps (hh : host.Keeps I W C)
    (wf : ∀ e, (∀ limit, e.WellFormed limit) → W e) (root : Path) (phase : GuardrailPhase)
    (g : WorkspaceGuardrail) : Keeps I W C (checkGuardrail host root phase g) := by
  have violation := fun found => wf _ (guardrailViolation_wellFormed phase g found)
  unfold checkGuardrail
  cases g.kind with
  | requireFile =>
    refine (hh.isFile _).bind fun found => ?_
    cases found with
    | true => exact .pure
    | false => exact .raise (violation _)
  | requireDir =>
    refine (hh.isDir _).bind fun found => ?_
    cases found with
    | true => exact .pure
    | false => exact .raise (violation _)
  | forbidGlob =>
    refine (hh.globCount _ _).bind fun count => ?_
    split
    · exact .pure
    · exact .raise (violation _)
  | requireGlob =>
    refine (hh.globCount _ _).bind fun count => ?_
    dsimp only
    split
    · exact .raise (violation _)
    · split
      · exact .raise (violation _)
      · exact .pure

theorem checkPhaseGuardrails_keeps (hh : host.Keeps I W C)
    (wf : ∀ e, (∀ limit, e.WellFormed limit) → W e)
    (root : Path) (guardrails : List WorkspaceGuardrail) (phase : GuardrailPhase) :
    Keeps I W C (checkPhaseGuardrails host root guardrails phase) := by
  refine .tryExcept (.each fun g => checkGuardrail_keeps hh wf root phase g) fun exc he => ?_
  split
  · split
    · refine .raise (wf _ fun limit => ?_)
      cases phase with
      | pre | post => exact PyException.wellFormed_mk' _ (by decide)
    · exact .raise (wf _ fun limit => PyException.wellFormed_mk' _ (by decide))
  · exact .raise he

end Perago
