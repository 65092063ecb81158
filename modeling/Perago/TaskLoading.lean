import Mathlib.Data.List.Induction
import Mathlib.Data.List.Nodup
import Perago.TaskModule

/-!
# Loading task modules

The registry that the decorator fills, and the loading of the one definition
that a module registers. Over every sequence of loads the registry agrees with
the history of what was executed and accepted.
-/

namespace Perago.TaskModule

variable {M : Type} {task : TaskDefinition M}

/-! ## Loading a module -/

/-- What a module does when it is executed, as far as task definitions are concerned. The
modules it imports are executed in place. -/
inductive Statement (M : Type) where
  | decorated (d : Declaration) (fn : Function M)
  | raises (exc : PyException)

/-- `registered` is `_REGISTERED_TASKS`, a definition with its identity, and `modules` the names
in `sys.modules`. -/
structure Process (M : Type) where
  registered : List (String × List (Nat × TaskDefinition M)) := []
  created : Nat := 0
  modules : List String := []

/-- `registry.setdefault(key, []).append(item)`. -/
def appendUnder {α : Type} (key : String) (item : α) :
    List (String × List α) → List (String × List α)
  | [] => [(key, [item])]
  | (k, items) :: rest =>
    if k = key then (k, items ++ [item]) :: rest else (k, items) :: appendUnder key item rest

namespace Process

variable (isidentifier : Text → Bool)

def register (p : Process M) (task : TaskDefinition M) : Process M :=
  { p with registered := appendUnder task.fn.module (p.created, task) p.registered,
           created := p.created + 1 }

/-- The execution of a module, up to the statement that raises. -/
def execute : List (Statement M) → Process M → Except PyException Unit × Process M
  | [], p => (.ok (), p)
  | .raises exc :: _, p => (.error exc, p)
  | .decorated d fn :: rest, p => match decorate d fn with
    | .error exc => (.error exc, p)
    | .ok task => execute rest (p.register task)

/-- `importlib.import_module`, with what the module does when it is found. -/
def importModule (target : String) (source : Option (List (Statement M))) (p : Process M) :
    Except PyException Unit × Process M :=
  if target ∈ p.modules then (.ok (), p)
  else match source with
    | none => (.error (.mk' (.other "ModuleNotFoundError") ("No module named '" ++ target ++ "'")),
        p)
    | some body => match execute body p with
      | (.error exc, q) => (.error exc, q)
      | (.ok (), q) => (.ok (), { q with modules := target :: q.modules })

/-- `_validate_module_target`. -/
def isModuleTarget (target : String) : Bool :=
  !(target.toList.contains '/' || target.toList.contains '\\' || target.toList.contains ':' ||
    (text ".py").isSuffixOf (text target) || target.isEmpty ||
    ((text target).splitOn (Fin.ofNat 0x110000 0x2E)).any fun segment => !isidentifier segment)

/-- The loop that drops definitions of an identity seen before. -/
def uniqueTasks {α : Type} : List Nat → List (Nat × α) → List α
  | _, [] => []
  | seen, (id, task) :: rest =>
    if id ∈ seen then uniqueTasks seen rest else task :: uniqueTasks (id :: seen) rest

def tasksOf (p : Process M) (target : String) : List (Nat × TaskDefinition M) :=
  (p.registered.lookup target).getD []

def singleTask (target : String) : List (TaskDefinition M) →
    Except PyException (TaskDefinition M)
  | [] => .error (taskDefinitionError (target ++ " does not declare a Perago task"))
  | [task] => .ok task
  | _ => .error (taskDefinitionError (target ++ " declares more than one Perago task"))

def loadModuleTask (target : String) (source : Option (List (Statement M))) (p : Process M) :
    Except PyException (TaskDefinition M) × Process M :=
  if isModuleTarget isidentifier target then
    match importModule target source p with
    | (.error exc, q) => (.error exc, q)
    | (.ok (), q) =>
      (singleTask target (uniqueTasks []
        ((q.tasksOf target).filter fun task => task.2.fn.module = target)), q)
  else (.error (taskDefinitionError ("module target must be a Python import path, not a file " ++
    "path or object path")), p)

end Process

/-! ## The history of a process -/

/-- A request to load a module, with what the module does if it is executed now. -/
structure Load (M : Type) where
  target : String
  source : Option (List (Statement M))

/-- The definition that a statement leaves behind. -/
def Statement.accepted : Statement M → Option (TaskDefinition M)
  | decorated d fn => (decorate d fn).toOption
  | raises _ => none

/-- The definitions of a module, up to the statement that raises. -/
def accepted : List (Statement M) → List (TaskDefinition M)
  | [] => []
  | s :: rest => match s.accepted with
    | none => []
    | some task => task :: accepted rest

def completes (body : List (Statement M)) : Bool := body.all (·.accepted.isSome)

/-- The modules that were imported and every definition accepted so far, in order. -/
structure History (M : Type) where
  modules : List String := []
  declared : List (TaskDefinition M) := []

namespace History

variable (isidentifier : Text → Bool)

/-- A module is executed until an execution completes; what was accepted before an exception
stays. -/
def load (h : History M) (l : Load M) : History M :=
  if Process.isModuleTarget isidentifier l.target ∧ l.target ∉ h.modules then
    match l.source with
    | none => h
    | some body =>
      { modules := if completes body then l.target :: h.modules else h.modules,
        declared := h.declared ++ accepted body }
  else h

def after (loads : List (Load M)) : History M := loads.foldl (load isidentifier) {}

def ofModule (h : History M) (target : String) : List (TaskDefinition M) :=
  h.declared.filter fun task => task.fn.module = target

end History

namespace Process

def load (isidentifier : Text → Bool) (p : Process M) (l : Load M) : Process M :=
  (loadModuleTask isidentifier l.target l.source p).2

def after (isidentifier : Text → Bool) (loads : List (Load M)) : Process M :=
  loads.foldl (load isidentifier) {}

/-- The registry files every accepted definition under its module, each under an identity of
its own. -/
structure Records (p : Process M) (h : History M) : Prop where
  modules : p.modules = h.modules
  tasks : ∀ target, (p.tasksOf target).map (·.2) = h.ofModule target
  identities : ∀ target, ((p.tasksOf target).map (·.1)).Nodup
  created : ∀ target, ∀ task ∈ p.tasksOf target, task.1 < p.created

theorem lookup_appendUnder {α : Type} {key k : String} {item : α} {l : List (String × List α)} :
    ((appendUnder key item l).lookup k).getD [] =
      if k = key then (l.lookup k).getD [] ++ [item] else (l.lookup k).getD [] := by
  induction l with
  | nil =>
    by_cases h : k = key
    · simp [appendUnder, h]
    · have ne : (k == key) = false := by simpa using h
      simp [appendUnder, List.lookup_cons, ne, h]
  | cons m l ih =>
    obtain ⟨name, items⟩ := m
    by_cases hn : name = key
    · subst hn
      by_cases hk : k = name
      · simp [appendUnder, hk]
      · have ne : (k == name) = false := by simpa using hk
        simp [appendUnder, List.lookup_cons, ne, hk]
    · by_cases hk : k = name
      · subst hk
        simp [appendUnder, hn]
      · have ne : (k == name) = false := by simpa using hk
        simp only [appendUnder, if_neg hn, List.lookup_cons, ne]
        exact ih

theorem tasksOf_register {p : Process M} {target : String} : (p.register task).tasksOf target =
    if target = task.fn.module then p.tasksOf target ++ [(p.created, task)]
    else p.tasksOf target :=
  lookup_appendUnder

variable {p q : Process M} {h : History M} {target : String} {body : List (Statement M)}
  {isidentifier : Text → Bool}

theorem Records.register (r : p.Records h) (task : TaskDefinition M) :
    (p.register task).Records { h with declared := h.declared ++ [task] } where
  modules := r.modules
  tasks target := by
    rw [tasksOf_register]
    by_cases same : target = task.fn.module
    · subst same
      simpa [History.ofModule] using r.tasks task.fn.module
    · have other : task.fn.module ≠ target := fun h => same h.symm
      simp [r.tasks, History.ofModule, same, other]
  identities target := by
    rw [tasksOf_register]
    split
    · have fresh : p.created ∉ (p.tasksOf target).map (·.1) := by
        intro mem
        obtain ⟨old, hold, same⟩ := List.mem_map.mp mem
        have := r.created target old hold
        omega
      simpa using (r.identities target).append (List.nodup_singleton p.created)
        (List.disjoint_singleton.mpr fresh)
    · exact r.identities target
  created target old hold := by
    rw [tasksOf_register] at hold
    change old.1 < p.created + 1
    split at hold
    · rcases List.mem_append.mp hold with hold | hold
      · exact (r.created target old hold).trans (Nat.lt_succ_self _)
      · obtain rfl := List.mem_singleton.mp hold
        exact Nat.lt_succ_self _
    · exact (r.created target old hold).trans (Nat.lt_succ_self _)

/-- An execution registers what it accepts and ends without an exception exactly when every
statement is an accepted declaration. -/
theorem Records.execute (r : p.Records h) :
    (p.execute body).2.Records { h with declared := h.declared ++ accepted body } ∧
      ((p.execute body).1.isOk = completes body) := by
  induction body generalizing p h with
  | nil => exact ⟨by simpa [Process.execute, TaskModule.accepted] using r, rfl⟩
  | cons s body ih =>
    cases s with
    | raises exc =>
      exact ⟨by simpa [Process.execute, TaskModule.accepted, Statement.accepted] using r, rfl⟩
    | decorated d fn =>
      cases hd : TaskModule.decorate d fn with
      | error exc =>
        have none : (Statement.decorated d fn).accepted = none := by
          simp [Statement.accepted, hd, Except.toOption]
        refine ⟨?_, by simp [Process.execute, hd, completes, none, Except.isOk, Except.toBool]⟩
        simpa [Process.execute, hd, TaskModule.accepted, none] using r
      | ok task =>
        have some : (Statement.decorated d fn).accepted = some task := by
          simp [Statement.accepted, hd, Except.toOption]
        obtain ⟨records, outcome⟩ := ih (r.register task)
        refine ⟨?_, ?_⟩
        · simpa [Process.execute, hd, TaskModule.accepted, some] using records
        · simpa [Process.execute, hd, completes, some] using outcome

/-- A load leaves the registry with what the history then holds; an import has raised exactly
when the module is not among the imported ones afterwards. -/
theorem Records.importModule (r : p.Records h) (l : Load M)
    (valid : isModuleTarget isidentifier l.target) :
    (p.importModule l.target l.source).2.Records (h.load isidentifier l) ∧
      ((p.importModule l.target l.source).1.isOk ↔
        l.target ∈ (h.load isidentifier l).modules) := by
  by_cases known : l.target ∈ h.modules
  · have here : l.target ∈ p.modules := r.modules ▸ known
    simpa [Process.importModule, here, History.load, known, Except.isOk, Except.toBool] using r
  · have unknown : l.target ∉ p.modules := r.modules ▸ known
    cases source : l.source with
    | none =>
      simpa [Process.importModule, unknown, source, History.load, known, Except.isOk,
        Except.toBool] using r
    | some body =>
      obtain ⟨records, outcome⟩ : (p.execute body).2.Records _ ∧ _ := r.execute
      cases hx : p.execute body with
      | mk result q =>
        rw [hx] at records outcome
        cases result with
        | error exc =>
          have failed : completes body = false := by
            simpa [Except.isOk, Except.toBool] using outcome.symm
          simpa [Process.importModule, unknown, source, hx, History.load, known, valid, failed,
            Except.isOk, Except.toBool] using records
        | ok done =>
          have done : completes body = true := by
            simpa [Except.isOk, Except.toBool] using outcome.symm
          have modules : q.modules = h.modules := records.modules
          simp only [Process.importModule, unknown, source, hx, History.load, known, valid, done]
          refine ⟨?_, by simp [Except.isOk, Except.toBool]⟩
          exact { modules := by simp [modules]
                  tasks := records.tasks
                  identities := records.identities
                  created := records.created }

theorem Records.load (r : p.Records h) (l : Load M) :
    (p.load isidentifier l).Records (h.load isidentifier l) := by
  by_cases valid : isModuleTarget isidentifier l.target
  · have records := (r.importModule l valid).1
    rw [Process.load, loadModuleTask, if_pos valid]
    split <;> simp_all
  · rw [Process.load, loadModuleTask, if_neg valid, History.load, if_neg (by simp [valid])]
    exact r

theorem records_after (loads : List (Load M)) :
    (after isidentifier loads).Records (History.after isidentifier loads) := by
  induction loads using List.reverseRecOn with
  | nil =>
    exact { modules := rfl
            tasks := fun _ => rfl
            identities := fun _ => List.nodup_nil
            created := by simp [after, tasksOf] }
  | append_singleton loads l ih =>
    rw [after, History.after, List.foldl_concat, List.foldl_concat]
    exact ih.load l

theorem uniqueTasks_of_nodup {α : Type} {seen : List Nat} {tasks : List (Nat × α)}
    (fresh : ∀ task ∈ tasks, task.1 ∉ seen) (nodup : (tasks.map (·.1)).Nodup) :
    uniqueTasks seen tasks = tasks.map (·.2) := by
  induction tasks generalizing seen with
  | nil => rfl
  | cons task tasks ih =>
    obtain ⟨id, value⟩ := task
    have first : id ∉ seen := fresh _ List.mem_cons_self
    obtain ⟨other, nodup⟩ := List.nodup_cons.mp nodup
    rw [uniqueTasks, if_neg first, ih _ nodup, List.map_cons]
    intro task htask mem
    rcases List.mem_cons.mp mem with same | mem
    · exact other (List.mem_map.mpr ⟨task, htask, same⟩)
    · exact fresh task (List.mem_cons_of_mem _ htask) mem

/-- Neither the filter nor the identities drop a definition. -/
theorem Records.uniqueTasks (r : p.Records h) (target : String) :
    Process.uniqueTasks [] ((p.tasksOf target).filter fun task => task.2.fn.module = target) =
      h.ofModule target := by
  have here : ∀ task ∈ p.tasksOf target, task.2.fn.module = target := by
    intro task htask
    have mem : task.2 ∈ h.ofModule target := by
      rw [← r.tasks]
      exact List.mem_map.mpr ⟨task, htask, rfl⟩
    simpa using (List.mem_filter.mp mem).2
  rw [List.filter_eq_self.mpr (by simpa using here),
    uniqueTasks_of_nodup (by simp) (r.identities target), r.tasks]

theorem singleTask_eq_ok_iff {tasks : List (TaskDefinition M)} {task : TaskDefinition M} :
    singleTask target tasks = .ok task ↔ tasks = [task] := by
  match tasks with
  | [] => simp [singleTask]
  | [only] => simp [singleTask]
  | first :: second :: rest => simp [singleTask]

/-- Whatever was loaded before, a load returns a definition exactly when the module can be
imported and that definition is the only one accepted for it in the history of the process. -/
theorem load_returns_the_only_task (isidentifier : Text → Bool) (loads : List (Load M))
    (l : Load M) (task : TaskDefinition M) :
    (loadModuleTask isidentifier l.target l.source (after isidentifier loads)).1 = .ok task ↔
      isModuleTarget isidentifier l.target ∧
      l.target ∈ (History.after isidentifier (loads ++ [l])).modules ∧
      (History.after isidentifier (loads ++ [l])).ofModule l.target = [task] := by
  have now : History.after isidentifier (loads ++ [l]) =
      (History.after isidentifier loads).load isidentifier l := by
    rw [History.after, History.after, List.foldl_concat]
  by_cases valid : isModuleTarget isidentifier l.target
  · obtain ⟨records, outcome⟩ := (records_after loads).importModule l valid
    rw [loadModuleTask, if_pos valid, now, ← outcome, ← records.uniqueTasks]
    cases hi : (after isidentifier loads).importModule l.target l.source with
    | mk result q =>
      cases result with
      | error exc => simp [Except.isOk, Except.toBool]
      | ok done => simp [Except.isOk, Except.toBool, valid, singleTask_eq_ok_iff]
  · simp [loadModuleTask, valid]

end Process

end Perago.TaskModule
