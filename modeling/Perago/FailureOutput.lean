import Perago.Result

/-!
# Failure metadata

The values that `snapshot_failure_output` accepts, and what becomes of them on their way
from the task body to Conductor.
-/

namespace Perago

/-! ## Accepted values -/

/-- `isinstance(key, str)`. -/
def PyKey.isStr : PyKey → Bool
  | .str _ => true
  | .other _ => false

mutual

/-- Finite JSON values with string keys. -/
def PyValue.isJson : PyValue → Bool
  | .none | .bool _ | .int _ | .str _ => true
  | .float isfinite _ => isfinite
  | .dict items => jsonItems items
  | .list items => jsonList items
  | .other _ => false

def jsonItems : List (PyKey × PyValue) → Bool
  | [] => true
  | (key, item) :: items => key.isStr && item.isJson && jsonItems items

def jsonList : List PyValue → Bool
  | [] => true
  | item :: items => item.isJson && jsonList items

end

mutual

/-- The nested calls that a copy makes: one for the value itself, and those for the deepest
of its items. -/
def PyValue.depth : PyValue → Nat
  | .dict items => itemsDepth items + 1
  | .list items => listDepth items + 1
  | _ => 1

def itemsDepth : List (PyKey × PyValue) → Nat
  | [] => 0
  | (_, item) :: items => max item.depth (itemsDepth items)

def listDepth : List PyValue → Nat
  | [] => 0
  | item :: items => max item.depth (listDepth items)

end

variable {limit : Nat}

theorem copyJsonValue_dict (items : List (PyKey × PyValue)) :
    copyJsonValue (limit + 1) (.dict items) =
      if items.all (·.1.isStr) then .dict <$> copyJsonItems limit items
      else .error outputDataError := by
  rw [copyJsonValue]
  refine if_congr ?_ rfl rfl
  rw [List.all_eq_true, List.all_eq_true]
  refine forall₂_congr fun item _ => ?_
  obtain ⟨key, _⟩ := item
  cases key <;> rfl

theorem jsonItems_keys {items : List (PyKey × PyValue)} (h : jsonItems items = true) :
    items.all (·.1.isStr) = true := by
  induction items with
  | nil => rfl
  | cons item items ih =>
    simp only [jsonItems, Bool.and_eq_true] at h
    simp [h.1.1, ih h.2]

mutual

/-- A copy is equal to the value, and only finite JSON within the limit is copied. -/
theorem copyJsonValue_ok_iff (limit : Nat) (value copy : PyValue) :
    copyJsonValue limit value = .ok copy ↔
      value.isJson = true ∧ value.depth ≤ limit ∧ copy = value := by
  cases limit with
  | zero => cases value <;> simp [copyJsonValue, PyValue.depth]
  | succ limit =>
    cases value with
    | none | bool | int | str | other =>
      simp [copyJsonValue, PyValue.isJson, PyValue.depth, eq_comm]
    | float isfinite repr =>
      cases isfinite <;> simp [copyJsonValue, PyValue.isJson, PyValue.depth, eq_comm]
    | dict items =>
      rw [copyJsonValue_dict, PyValue.isJson, PyValue.depth, Nat.add_le_add_iff_right]
      by_cases keys : items.all (·.1.isStr) = true
      · rw [if_pos keys]
        constructor
        · intro h
          obtain ⟨copies, hcopies, rfl⟩ := ok_of_map h
          obtain ⟨json, deep, rfl⟩ := (copyJsonItems_ok_iff limit items copies keys).mp hcopies
          exact ⟨json, deep, rfl⟩
        · rintro ⟨json, deep, rfl⟩
          rw [(copyJsonItems_ok_iff limit items items keys).mpr ⟨json, deep, rfl⟩]
          rfl
      · have refused : jsonItems items = false := by
          rw [Bool.eq_false_iff]
          exact fun h => keys (jsonItems_keys h)
        simp [keys, refused]
    | list items =>
      rw [copyJsonValue, PyValue.isJson, PyValue.depth, Nat.add_le_add_iff_right]
      constructor
      · intro h
        obtain ⟨copies, hcopies, rfl⟩ := ok_of_map h
        obtain ⟨json, deep, rfl⟩ := (copyJsonList_ok_iff limit items copies).mp hcopies
        exact ⟨json, deep, rfl⟩
      · rintro ⟨json, deep, rfl⟩
        rw [(copyJsonList_ok_iff limit items items).mpr ⟨json, deep, rfl⟩]
        rfl

theorem copyJsonItems_ok_iff (limit : Nat) (items copies : List (PyKey × PyValue))
    (keys : items.all (·.1.isStr) = true) : copyJsonItems limit items = .ok copies ↔
      jsonItems items = true ∧ itemsDepth items ≤ limit ∧ copies = items := by
  cases items with
  | nil => simp [copyJsonItems, jsonItems, itemsDepth, eq_comm]
  | cons item items =>
    obtain ⟨key, value⟩ := item
    rw [List.all_cons, Bool.and_eq_true] at keys
    rw [copyJsonItems, jsonItems, itemsDepth, keys.1, Bool.true_and, Bool.and_eq_true,
      Nat.max_le]
    constructor
    · intro h
      obtain ⟨copy, hcopy, h⟩ := ok_of_bind h
      obtain ⟨rest, hrest, h⟩ := ok_of_bind h
      cases h
      obtain ⟨json, deep, rfl⟩ := (copyJsonValue_ok_iff limit value copy).mp hcopy
      obtain ⟨jsons, deeps, rfl⟩ := (copyJsonItems_ok_iff limit items rest keys.2).mp hrest
      exact ⟨⟨json, jsons⟩, ⟨deep, deeps⟩, rfl⟩
    · rintro ⟨⟨json, jsons⟩, ⟨deep, deeps⟩, rfl⟩
      rw [(copyJsonValue_ok_iff limit value value).mpr ⟨json, deep, rfl⟩,
        (copyJsonItems_ok_iff limit items items keys.2).mpr ⟨jsons, deeps, rfl⟩]
      rfl

theorem copyJsonList_ok_iff (limit : Nat) (items copies : List PyValue) :
    copyJsonList limit items = .ok copies ↔
      jsonList items = true ∧ listDepth items ≤ limit ∧ copies = items := by
  cases items with
  | nil => simp [copyJsonList, jsonList, listDepth, eq_comm]
  | cons value items =>
    rw [copyJsonList, jsonList, listDepth, Bool.and_eq_true, Nat.max_le]
    constructor
    · intro h
      obtain ⟨copy, hcopy, h⟩ := ok_of_bind h
      obtain ⟨rest, hrest, h⟩ := ok_of_bind h
      cases h
      obtain ⟨json, deep, rfl⟩ := (copyJsonValue_ok_iff limit value copy).mp hcopy
      obtain ⟨jsons, deeps, rfl⟩ := (copyJsonList_ok_iff limit items rest).mp hrest
      exact ⟨⟨json, jsons⟩, ⟨deep, deeps⟩, rfl⟩
    · rintro ⟨⟨json, jsons⟩, ⟨deep, deeps⟩, rfl⟩
      rw [(copyJsonValue_ok_iff limit value value).mpr ⟨json, deep, rfl⟩,
        (copyJsonList_ok_iff limit items items).mpr ⟨jsons, deeps, rfl⟩]
      rfl

end

/-- A refused value is refused with one of two errors. -/
def CopyError (exc : PyException) : Prop := exc = outputDataError ∨ exc = recursionError

mutual

theorem copyJsonValue_error (limit : Nat) (value : PyValue) (exc : PyException)
    (h : copyJsonValue limit value = .error exc) : CopyError exc := by
  cases limit with
  | zero =>
    rw [copyJsonValue] at h
    cases h
    exact .inr rfl
  | succ limit =>
    cases value with
    | none | bool | int | str => cases h
    | other => cases h; exact .inl rfl
    | float isfinite repr =>
      cases isfinite <;> cases h
      exact .inl rfl
    | dict items =>
      rw [copyJsonValue_dict] at h
      split at h
      · exact copyJsonItems_error limit items exc (error_of_map h)
      · cases h
        exact .inl rfl
    | list items => exact copyJsonList_error limit items exc (error_of_map h)

theorem copyJsonItems_error (limit : Nat) (items : List (PyKey × PyValue)) (exc : PyException)
    (h : copyJsonItems limit items = .error exc) : CopyError exc := by
  cases items with
  | nil => cases h
  | cons item items =>
    obtain ⟨key, value⟩ := item
    obtain h | ⟨copy, -, h⟩ := error_of_bind h
    · exact copyJsonValue_error limit value exc h
    · obtain h | ⟨rest, -, h⟩ := error_of_bind h
      · exact copyJsonItems_error limit items exc h
      · cases h

theorem copyJsonList_error (limit : Nat) (items : List PyValue) (exc : PyException)
    (h : copyJsonList limit items = .error exc) : CopyError exc := by
  cases items with
  | nil => cases h
  | cons value items =>
    obtain h | ⟨copy, -, h⟩ := error_of_bind h
    · exact copyJsonValue_error limit value exc h
    · obtain h | ⟨rest, -, h⟩ := error_of_bind h
      · exact copyJsonList_error limit items exc h
      · cases h

end

/-- A dictionary that holds finite JSON. -/
def PyValue.isJsonObject : PyValue → Bool
  | .dict items => jsonItems items
  | _ => false

/-- `snapshot_failure_output` accepts finite JSON objects within the limit, and keeps them
as they are. -/
theorem snapshotFailureOutput_ok_iff {value copy : PyValue} :
    snapshotFailureOutput limit value = .ok copy ↔
      value.isJsonObject = true ∧ value.depth ≤ limit ∧ copy = value := by
  cases value with
  | dict items =>
    have copied := copyJsonValue_ok_iff limit (.dict items) copy
    rw [PyValue.isJson] at copied
    rw [snapshotFailureOutput, PyValue.isJsonObject, ← copied]
    cases copyJsonValue limit (.dict items) <;> simp [Except.mapError]
  | none | bool | int | float | str | list | other =>
    simp [snapshotFailureOutput, PyValue.isJsonObject]

theorem snapshotFailureOutput_error {value : PyValue} {exc : PyException}
    (h : snapshotFailureOutput limit value = .error exc) :
    ∃ message, exc = .mk' .typeError message := by
  cases value with
  | dict items =>
    rw [snapshotFailureOutput] at h
    cases hcopy : copyJsonValue limit (.dict items) with
    | ok copy => simp [hcopy, Except.mapError] at h
    | error inner =>
      rw [hcopy] at h
      cases h
      obtain rfl | rfl := copyJsonValue_error limit _ inner hcopy
      · exact ⟨_, rfl⟩
      · exact ⟨_, rfl⟩
  | none | bool | int | float | str | list | other =>
    cases h
    exact ⟨_, rfl⟩

end Perago
