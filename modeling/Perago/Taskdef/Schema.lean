import Perago.Json
import Perago.Python

/-!
# The schema of a task model

The rewrites of `taskdef.py` from the JSON Schema that pydantic generates to the
one in a TaskDef: model metadata is stripped, references are inlined, generated
keys are stripped and `additionalProperties` is set on the object schemas.
-/

namespace Perago

/-- `_MODEL_SCHEMA_STRUCTURAL_KEYS`. -/
def structuralKeys : List String :=
  ["$defs", "additionalProperties", "properties", "required", "type"]

/-- `_GENERATED_SCHEMA_METADATA_KEYS`. -/
def generatedMetadataKeys : List String := ["title"]

/-- `_SCHEMA_NAME_MAPPING_KEYS`. -/
def nameMappingKeys : List String := ["properties"]

/-- `schema.get("type") == "object"`. -/
def isObjectType (schema : Members) : Bool :=
  match schema.lookup "type" with
  | some (.str t) => t == "object"
  | _ => false

/-! ## Model metadata -/

def stripObjectSchemaMetadata (schema : Members) : Members :=
  schema.filter fun m => structuralKeys.contains m.1

/-- One pass of the loop over the definitions. -/
def stripDefinition : Json → Json
  | .obj definition =>
    if isObjectType definition then .obj (stripObjectSchemaMetadata definition)
    else .obj definition
  | definition => definition

def stripModelSchemaMetadata (schema : Members) : Members :=
  match schema.lookup "$defs" with
  | some (.obj defs) =>
    setKey "$defs" (.obj (defs.map fun m => (m.1, stripDefinition m.2)))
      (stripObjectSchemaMetadata schema)
  | _ => stripObjectSchemaMetadata schema

/-! ## References -/

/-- The way `_inline_refs` ends other than by returning: the stack is used up, or an
exception is raised. -/
inductive InlineStop where
  | recursion
  | raised (e : PyException)

def refPrefix : String := "#/$defs/"

/-- `ref.removeprefix("#/$defs/")` where `value.get("$ref")` is a text with that prefix. -/
def refName (value : Members) : Option String :=
  match value.lookup "$ref" with
  | some (.str ref) =>
    if refPrefix.toList.isPrefixOf ref.toList then
      some (String.ofList (ref.toList.drop refPrefix.toList.length))
    else none
  | _ => none

/-- `type(value).__name__`. -/
def pyTypeName : Json → String
  | .null => "NoneType"
  | .bool _ => "bool"
  | .num n => if n.den = 1 then "int" else "float"
  | .str _ => "str"
  | .arr _ => "list"
  | .obj _ => "dict"

section

variable {ε : Type} (f : Json → Except ε Json)

/-- `{key: f(item) for key, item in members.items()}`. -/
def visitMembers : Members → Except ε Members
  | [] => .ok []
  | m :: members => do
    let item ← f m.2
    let rest ← visitMembers members
    return (m.1, item) :: rest

/-- `[f(item) for item in items]`. -/
def visitItems : List Json → Except ε (List Json)
  | [] => .ok []
  | item :: items => do
    let item ← f item
    let rest ← visitItems items
    return item :: rest

end

/-- `visit`, on a stack of so many frames. -/
def visit (defs : Members) : Nat → Json → Except InlineStop Json
  | 0, _ => .error .recursion
  | n + 1, .obj value => match refName value with
    | some name => match defs.lookup name with
      | none => .error (.raised (.mk' (.other "KeyError") ("'" ++ name ++ "'")))
      | some definition => do
        let siblings ← visitMembers (visit defs n) (eraseKey "$ref" value)
        match definition with
        | .obj replacement => visit defs n (.obj (updateKeys replacement siblings))
        | other => .error (.raised (.mk' .attributeError
            ("'" ++ pyTypeName other ++ "' object has no attribute 'update'")))
    | none => .obj <$> visitMembers (visit defs n) value
  | n + 1, .arr items => .arr <$> visitItems (visit defs n) items
  | _ + 1, value => .ok value

/-- `copied.pop("$defs", {})`, which is a mapping in every generated schema. -/
def definitionsOf (schema : Members) : Members :=
  match schema.lookup "$defs" with
  | some (.obj defs) => defs
  | _ => []

def inlineRefs (stack : Nat) (schema : Members) : Except InlineStop Json :=
  visit (definitionsOf schema) stack (.obj (eraseKey "$defs" schema))

/-! ## Generated keys -/

section

variable (keys preserveMappingKeys : List String)

mutual

/-- `_strip_schema_metadata_keys`. -/
def stripKeys (inPreservedMapping : Bool) : Json → Json
  | .obj members => .obj (stripKeysMembers inPreservedMapping members)
  | .arr items => .arr (stripKeysItems inPreservedMapping items)
  | value => value

def stripKeysMembers (inPreservedMapping : Bool) : Members → Members
  | [] => []
  | (key, item) :: members =>
    if !inPreservedMapping && keys.contains key then
      stripKeysMembers inPreservedMapping members
    else
      (key, stripKeys (preserveMappingKeys.contains key) item) ::
        stripKeysMembers inPreservedMapping members

def stripKeysItems (inPreservedMapping : Bool) : List Json → List Json
  | [] => []
  | item :: items =>
    stripKeys inPreservedMapping item :: stripKeysItems inPreservedMapping items

end

end

/-! ## Extra keys of objects -/

/-- `schema.get("type") == "object" and isinstance(schema.get("properties"), dict)`. -/
def isObjectSchema (schema : Members) : Bool :=
  isObjectType schema && match schema.lookup "properties" with
    | some (.obj _) => true
    | _ => false

mutual

/-- `_set_object_schema_extra`. The values are visited before the assignment, which they do
not depend on. -/
def setObjectSchemaExtra (allowExtra : Bool) : Json → Json
  | .obj members =>
    if isObjectSchema members then
      .obj (setKey "additionalProperties" (.bool allowExtra)
        (setObjectSchemaExtraMembers allowExtra members))
    else .obj (setObjectSchemaExtraMembers allowExtra members)
  | .arr items => .arr (setObjectSchemaExtraItems allowExtra items)
  | value => value

def setObjectSchemaExtraMembers (allowExtra : Bool) : Members → Members
  | [] => []
  | (key, item) :: members =>
    (key, setObjectSchemaExtra allowExtra item) :: setObjectSchemaExtraMembers allowExtra members

def setObjectSchemaExtraItems (allowExtra : Bool) : List Json → List Json
  | [] => []
  | item :: items =>
    setObjectSchemaExtra allowExtra item :: setObjectSchemaExtraItems allowExtra items

end

/-! ## The pipeline -/

/-- `schema_for_model`, from what `model_json_schema` returns. -/
def schemaForModel (stack : Nat) (schema : Members) (allowExtra : Bool) :
    Except InlineStop Json := do
  let inlined ← inlineRefs stack (stripModelSchemaMetadata schema)
  return setObjectSchemaExtra allowExtra
    (stripKeys generatedMetadataKeys nameMappingKeys false inlined)

end Perago
