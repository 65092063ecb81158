import Perago.TaskModule
import Perago.Traversal.Worklist

/-!
# The models of a task

The classes met from the params and the output model of a task through the
annotations of their fields, and the gate of TaskDef generation that refuses a
root model among them.
-/

namespace Perago.Taskdef

open TaskModule (taskDefinitionError)
open Traversal (Reaches)

/-- An annotation, by the model class that it is, the annotations that `get_args` finds and the
model class that `get_origin` finds. -/
inductive TypeForm (M : Type) where
  | mk (model : Option M) (arguments : List (TypeForm M)) (origin : Option M)

/-- What is read of a model class. -/
structure ModelClass (M : Type) where
  name : String
  modelFields : List (String × TypeForm M)
  hasConfig : Bool
  isRootModel : Bool

variable {M : Type}

/-! ## Annotations -/

mutual

/-- `_iter_annotation_models`. -/
def annotationModels : TypeForm M → List M
  | .mk model arguments origin => model.toList ++ argumentModels arguments ++ origin.toList

/-- Its loop over the arguments. -/
def argumentModels : List (TypeForm M) → List M
  | [] => []
  | a :: arguments => annotationModels a ++ argumentModels arguments

end

/-- The class occurs in the annotation, at any depth. -/
inductive Mentions (m : M) : TypeForm M → Prop
  | model {arguments : List (TypeForm M)} {origin : Option M} :
    Mentions m (.mk (some m) arguments origin)
  | origin {model : Option M} {arguments : List (TypeForm M)} :
    Mentions m (.mk model arguments (some m))
  | argument {model : Option M} {arguments : List (TypeForm M)} {origin : Option M}
    {a : TypeForm M} : a ∈ arguments → Mentions m a → Mentions m (.mk model arguments origin)

variable {m : M} {a : TypeForm M}

theorem mem_argumentModels {arguments : List (TypeForm M)} :
    m ∈ argumentModels arguments ↔ ∃ a ∈ arguments, m ∈ annotationModels a := by
  induction arguments with
  | nil => simp [argumentModels]
  | cons a arguments ih => simp [argumentModels, ih]

mutual

theorem mentions_of_mem {m : M} : ∀ a : TypeForm M, m ∈ annotationModels a → Mentions m a
  | .mk model arguments origin, h => by
    rw [annotationModels, List.mem_append, List.mem_append] at h
    rcases h with (h | h) | h
    · obtain rfl := Option.mem_toList.mp h
      exact .model
    · obtain ⟨a, ha, mentions⟩ := mentions_of_mem_arguments arguments h
      exact .argument ha mentions
    · obtain rfl := Option.mem_toList.mp h
      exact .origin

theorem mentions_of_mem_arguments {m : M} : ∀ arguments : List (TypeForm M),
    m ∈ argumentModels arguments → ∃ a ∈ arguments, Mentions m a
  | [], h => by simp [argumentModels] at h
  | a :: arguments, h => by
    rw [argumentModels, List.mem_append] at h
    rcases h with h | h
    · exact ⟨a, List.mem_cons_self, mentions_of_mem a h⟩
    · obtain ⟨b, hb, mentions⟩ := mentions_of_mem_arguments arguments h
      exact ⟨b, List.mem_cons_of_mem a hb, mentions⟩

end

theorem mem_annotationModels_iff : m ∈ annotationModels a ↔ Mentions m a := by
  constructor
  · exact mentions_of_mem a
  · intro h
    induction h with
    | model => simp [annotationModels]
    | origin => simp [annotationModels]
    | argument ha _ ih =>
      have := mem_argumentModels.mpr ⟨_, ha, ih⟩
      simp [annotationModels, this]

/-! ## The graph -/

variable (classes : M → ModelClass M)

/-- What one turn of `_iter_model_graph` pushes, field after field. -/
def fieldModels (model : M) : List M :=
  (classes model).modelFields.flatMap fun field => annotationModels field.2

/-- The field annotations of one class mention the other. -/
def Uses (model used : M) : Prop :=
  ∃ field ∈ (classes model).modelFields, Mentions used field.2

/-- The class is the given one or is met from it through field annotations. -/
def PartOf (model part : M) : Prop := Relation.ReflTransGen (Uses classes) model part

theorem reaches_iff {model part : M} :
    Reaches (fieldModels classes) model part ↔ PartOf classes model part := by
  have uses : (fun x y => y ∈ fieldModels classes x) = Uses classes := by
    funext x y
    simp [fieldModels, Uses, mem_annotationModels_iff]
  rw [Reaches, uses, PartOf]

variable [DecidableEq M] [Fintype M]

/-- `_iter_model_graph`, over the classes that the process holds. -/
def iterModelGraph (model : M) : List M := Traversal.run (fieldModels classes) ⟨[model], []⟩

/-- The keys of a dictionary after they were assigned in this order. -/
def dictKeys (models : List M) : List M :=
  models.foldl (fun keys m => if m ∈ keys then keys else keys ++ [m]) []

/-- The loop that `task_models_with_config` and `task_models_with_root_model` share. -/
def taskModelsWith (p : ModelClass M → Bool) (task : TaskModule.TaskDefinition M) : List M :=
  dictKeys ([task.paramsModel, task.outputModel].flatMap fun model =>
    (iterModelGraph classes model).filter fun m => p (classes m))

def taskModelsWithConfig (task : TaskModule.TaskDefinition M) : List M :=
  taskModelsWith classes (·.hasConfig) task

def taskModelsWithRootModel (task : TaskModule.TaskDefinition M) : List M :=
  taskModelsWith classes (·.isRootModel) task

/-- `", ".join(model.__name__ for model in models)`. -/
def modelNames (models : List M) : String :=
  String.intercalate ", " (models.map fun m => (classes m).name)

def validateNoRootTaskModels (task : TaskModule.TaskDefinition M) : Except PyException Unit :=
  match taskModelsWithRootModel classes task with
  | [] => .ok ()
  | models => .error (taskDefinitionError ("Pydantic RootModel on task model(s) " ++
      modelNames classes models ++ " is not supported; Perago task contracts must use " ++
      "ordinary BaseModel object models."))

/-! ## What is found -/

/-- The class is part of the params or of the output of the task. -/
def InContract (task : TaskModule.TaskDefinition M) (m : M) : Prop :=
  PartOf classes task.paramsModel m ∨ PartOf classes task.outputModel m

/-- The models of the contract with a property, each of them once. -/
structure Lists (task : TaskModule.TaskDefinition M) (p : ModelClass M → Bool)
    (models : List M) : Prop where
  nodup : models.Nodup
  mem_iff : ∀ m, m ∈ models ↔ InContract classes task m ∧ p (classes m)

variable {classes} {task : TaskModule.TaskDefinition M}

theorem mem_iterModelGraph {model : M} :
    m ∈ iterModelGraph classes model ↔ PartOf classes model m :=
  Traversal.mem_run.trans (reaches_iff classes)

omit [Fintype M] in
theorem dictKeys_concat {models : List M} : dictKeys (models ++ [m]) =
    if m ∈ dictKeys models then dictKeys models else dictKeys models ++ [m] := by
  rw [dictKeys, List.foldl_concat]
  rfl

omit [Fintype M] in
theorem mem_dictKeys {models : List M} : m ∈ dictKeys models ↔ m ∈ models := by
  induction models using List.reverseRecOn with
  | nil => simp [dictKeys]
  | append_singleton models last ih =>
    rw [dictKeys_concat]
    split <;> grind

omit [Fintype M] in
theorem nodup_dictKeys {models : List M} : (dictKeys models).Nodup := by
  induction models using List.reverseRecOn with
  | nil => exact List.nodup_nil
  | append_singleton models last ih =>
    rw [dictKeys_concat]
    split
    · exact ih
    · rename_i fresh
      exact ih.append (List.nodup_singleton last) (List.disjoint_singleton.mpr fresh)

theorem lists_taskModelsWith (p : ModelClass M → Bool) :
    Lists classes task p (taskModelsWith classes p task) where
  nodup := nodup_dictKeys
  mem_iff m := by
    simp only [taskModelsWith, mem_dictKeys, List.mem_flatMap, List.mem_cons, List.mem_filter,
      mem_iterModelGraph, InContract, List.not_mem_nil, or_false, exists_eq_or_imp,
      exists_eq_left]
    tauto

theorem lists_taskModelsWithRootModel :
    Lists classes task (·.isRootModel) (taskModelsWithRootModel classes task) :=
  lists_taskModelsWith _

theorem validateNoRootTaskModels_eq_ok_iff : validateNoRootTaskModels classes task = .ok () ↔
    ∀ m, InContract classes task m → (classes m).isRootModel = false := by
  have none_iff : taskModelsWithRootModel classes task = [] ↔
      ∀ m, InContract classes task m → (classes m).isRootModel = false := by
    rw [List.eq_nil_iff_forall_not_mem]
    simp only [lists_taskModelsWithRootModel.mem_iff, not_and, Bool.not_eq_true]
  rw [← none_iff, validateNoRootTaskModels]
  split <;> simp_all

/-- Both walks over the models of a task end and list exactly the models of its contract that
they look for, however the classes refer to each other, and generation is refused exactly when
a root model is among them. The contract is what `get_args` and `get_origin` show of the
annotations: a root model behind a `TypeAliasType` is not part of it. -/
theorem contract_models_walked (classes : M → ModelClass M)
    (task : TaskModule.TaskDefinition M) :
    Lists classes task (·.hasConfig) (taskModelsWithConfig classes task) ∧
    Lists classes task (·.isRootModel) (taskModelsWithRootModel classes task) ∧
    (validateNoRootTaskModels classes task = .ok () ↔
      ∀ m, InContract classes task m → (classes m).isRootModel = false) ∧
    (∀ e, validateNoRootTaskModels classes task = .error e → e.cls = .taskDefinitionError) := by
  refine ⟨lists_taskModelsWith _, lists_taskModelsWithRootModel,
    validateNoRootTaskModels_eq_ok_iff, ?_⟩
  intro e h
  rw [validateNoRootTaskModels] at h
  split at h
  · cases h
  · cases h
    rfl

end Perago.Taskdef
