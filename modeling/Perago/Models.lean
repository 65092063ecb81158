import Perago.Workspace.Paths

/-!
# Workspace declarations and references

The workspace declaration of a task, and the reference to a LakeFS commit that a
task receives and returns.
-/

namespace Perago

/-! ## Guardrails and workspace specs -/

inductive GuardrailKind where
  | requireFile
  | requireDir
  | requireGlob
  | forbidGlob
  deriving DecidableEq

/-- The value of `kind`. -/
def GuardrailKind.text : GuardrailKind → String
  | .requireFile => "require_file"
  | .requireDir => "require_dir"
  | .requireGlob => "require_glob"
  | .forbidGlob => "forbid_glob"

/-- `_WorkspaceGuardrail`; its path has been canonicalised. -/
structure WorkspaceGuardrail where
  kind : GuardrailKind
  path : Text
  minCount : Option Nat
  maxCount : Option Nat

def WorkspaceGuardrail.label (g : WorkspaceGuardrail) : String :=
  g.kind.text ++ "('" ++ g.path.render ++ "')"

structure WorkspaceSpec where
  workspacePrefix : WorkspacePrefix
  pre : List WorkspaceGuardrail
  post : List WorkspaceGuardrail
  readOnly : Bool

/-! ## Workspace references -/

def isBlank (s : String) : Bool := strip (text s) = []

/-- A pydantic `ValidationError` about one field. -/
def validationError (field message : String) : PyException :=
  .mk' .validationError (field ++ ": " ++ message)

/-- `WorkspaceRef`; `refType` can only be `commit`. -/
structure WorkspaceRef where
  repository : String
  branch : String
  ref : String
  repository_nonblank : isBlank repository = false
  branch_nonblank : isBlank branch = false
  ref_nonblank : isBlank ref = false

abbrev WorkspaceInput := WorkspaceRef
abbrev WorkspaceOutput := WorkspaceRef

/-- A required string field that must not be blank. -/
def refField (value : PyValue) (field : String) :
    Except PyException { s : String // isBlank s = false } :=
  match value.get? field with
  | none => .error (validationError field "Field required")
  | some (.str s) =>
    if h : isBlank s = false then .ok ⟨s, h⟩
    else .error (validationError field
      "workspace repository, branch, and ref must not be blank")
  | some _ => .error (validationError field "Input should be a valid string")

/-- `model_validate` of a workspace reference. -/
def WorkspaceRef.validate (value : PyValue) : Except PyException WorkspaceRef :=
  match value with
  | .dict items => do
    let repository ← refField value "repository"
    let branch ← refField value "branch"
    let ref ← refField value "ref"
    match value.get? "refType" with
    | some (.str "commit") =>
      if items.all fun item =>
          item.1 ∈ ["repository", "branch", "refType", "ref"].map PyKey.str then
        return ⟨repository, branch, ref, repository.2, branch.2, ref.2⟩
      else throw (validationError "workspace" "Extra inputs are not permitted")
    | some _ => throw (validationError "refType" "Input should be 'commit'")
    | none => throw (validationError "refType" "Field required")
  | _ => .error (validationError "workspace" "Input should be a valid dictionary")

/-- `model_dump(mode="json")`. -/
def WorkspaceRef.modelDump (r : WorkspaceRef) : PyValue :=
  .dict [(.str "repository", .str r.repository), (.str "branch", .str r.branch),
    (.str "refType", .str "commit"), (.str "ref", .str r.ref)]

/-- `published_output`. -/
def WorkspaceRef.publishedOutput (r : WorkspaceInput) (ref : String) :
    Except PyException WorkspaceOutput :=
  WorkspaceRef.validate (.dict [(.str "repository", .str r.repository),
    (.str "branch", .str r.branch), (.str "refType", .str "commit"), (.str "ref", .str ref)])

theorem refField_str {value : PyValue} {field s : String}
    (h : value.get? field = some (.str s)) : refField value field =
      if hs : isBlank s = false then .ok ⟨s, hs⟩
      else .error (validationError field
        "workspace repository, branch, and ref must not be blank") := by
  rw [refField, h]

theorem WorkspaceRef.publishedOutput_eq (r : WorkspaceInput) (ref : String) :
    r.publishedOutput ref = if h : isBlank ref = false then
        .ok { r with ref := ref, ref_nonblank := h }
      else .error (validationError "ref"
        "workspace repository, branch, and ref must not be blank") := by
  let value : PyValue := .dict [(.str "repository", .str r.repository),
    (.str "branch", .str r.branch), (.str "refType", .str "commit"), (.str "ref", .str ref)]
  have hrepository : refField value "repository" = .ok ⟨r.repository, r.repository_nonblank⟩ :=
    (refField_str rfl).trans (dif_pos r.repository_nonblank)
  have hbranch : refField value "branch" = .ok ⟨r.branch, r.branch_nonblank⟩ :=
    (refField_str rfl).trans (dif_pos r.branch_nonblank)
  have href : value.get? "ref" = some (.str ref) := rfl
  have htype : value.get? "refType" = some (.str "commit") := rfl
  change validate value = _
  simp only [validate, value] at hrepository hbranch href htype ⊢
  simp only [hrepository, hbranch, refField_str href, htype]
  by_cases h : isBlank ref = false
  · rw [dif_pos h, dif_pos h]
    rfl
  · rw [dif_neg h, dif_neg h]
    rfl

/-- What a task returned, the next task can be given. -/
theorem WorkspaceRef.validate_modelDump (r : WorkspaceRef) : validate r.modelDump = .ok r := by
  have h := r.publishedOutput_eq r.ref
  rw [dif_pos r.ref_nonblank] at h
  exact h

end Perago
