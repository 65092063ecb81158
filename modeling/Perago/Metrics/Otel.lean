import Mathlib.Data.List.Forall2
import Perago.Transition.Machine
import Perago.Metrics.InMemory

/-!
# Recording through OpenTelemetry

The recorders that `with_context` binds share one meter, two dicts of instruments and one
lock. Threads call the recording methods in any interleaving; creating an instrument and
recording on one are calls into the SDK, which may raise.
-/

namespace Perago.Metrics

open Perago.Transition

variable {V : Type}

/-! ## Recorders and threads -/

/-- Where a call of a recording method is. -/
inductive OtelPhase (V : Type) where
  | idle
  | acquiring (c : BoundCall V) (attributes : Labels)
  | looking (c : BoundCall V) (attributes : Labels)
  | creating (c : BoundCall V) (attributes : Labels)
  | storing (c : BoundCall V) (attributes : Labels) (instrument : Nat)
  | leaving (c : BoundCall V) (attributes : Labels) (instrument : Nat)
  | raising (c : BoundCall V)
  | recording (c : BoundCall V) (attributes : Labels) (instrument : Nat)

namespace OtelPhase

/-- The thread is in the `with self._instruments_lock:` block. -/
def locked : OtelPhase V → Bool
  | .looking _ _ | .creating _ _ | .storing _ _ _ | .leaving _ _ _ | .raising _ => true
  | .idle | .acquiring _ _ | .recording _ _ _ => false

def stores : OtelPhase V → Bool
  | .storing _ _ _ => true
  | _ => false

/-- The call that has neither returned nor raised. -/
def call? : OtelPhase V → Option (BoundCall V)
  | .idle => none
  | .acquiring c _ | .looking c _ | .creating c _ | .storing c _ _ | .leaving c _ _
  | .raising c | .recording c _ _ => some c

/-- What a phase knows of the dicts and of the instruments there are. -/
def Sound (cache : MetricKind × String → Option Nat)
    (instruments : List (MetricKind × String)) : OtelPhase V → Prop
  | .idle | .raising _ => True
  | .acquiring c attributes | .looking c attributes => c.Gives attributes
  | .creating c attributes => c.Gives attributes ∧ cache c.key = none
  | .storing c attributes instrument =>
    c.Gives attributes ∧ cache c.key = none ∧ instruments[instrument]? = some c.key
  | .leaving c attributes instrument | .recording c attributes instrument =>
    c.Gives attributes ∧ instruments[instrument]? = some c.key

/-- Outside the block a phase relies on the instruments alone, and these stay. -/
theorem Sound.outside {phase : OtelPhase V} {cache : MetricKind × String → Option Nat}
    {instruments : List (MetricKind × String)} (h : phase.Sound cache instruments)
    (outside : phase.locked = false) (cache' : MetricKind × String → Option Nat)
    (more : List (MetricKind × String)) : phase.Sound cache' (instruments ++ more) := by
  cases phase with
  | idle => trivial
  | acquiring c attributes => exact h
  | recording c attributes instrument =>
    refine ⟨h.1, ?_⟩
    obtain ⟨inside, -⟩ := List.getElem?_eq_some_iff.mp h.2
    rw [List.getElem?_append_left inside]
    exact h.2
  | looking | creating | storing | leaving | raising => cases outside

end OtelPhase

/-- One process: its recorders, with the context each is bound to, what they share, the
threads, and what has been called so far. -/
structure Otel (V : Type) where
  recorders : List (Option TaskAttemptMetricContext)
  /-- `_histograms` and `_gauges`. -/
  cache : MetricKind × String → Option Nat
  lock : Option Nat
  instruments : List (MetricKind × String)
  measured : List (Nat × V × Labels)
  threads : List (OtelPhase V)
  warnings : List MetricWarning
  called : List (BoundCall V)
  completed : List (BoundCall V)
  raised : List (BoundCall V)

inductive OtelAction (V : Type) where
  | thread
  | withContext (recorder : Nat) (context : TaskAttemptMetricContext)
  | call (i recorder : Nat) (call : MetricCall V)
  | advance (i : Nat) (ok : Bool)

namespace Otel

def initial : Otel V where
  recorders := [none]
  cache := fun _ => none
  lock := none
  instruments := []
  measured := []
  threads := []
  warnings := []
  called := []
  completed := []
  raised := []

/-- `with_context`: a new recorder; the one it is called on stays as it is. -/
def withContext (s : Otel V) (recorder : Nat) (context : TaskAttemptMetricContext) :
    Option (Otel V) :=
  match s.recorders[recorder]? with
  | none => none
  | some none => some { s with recorders := s.recorders ++ [some context] }
  | some (some current) => some
      { s with
        recorders := s.recorders ++ [some context]
        warnings := s.warnings ++ [.rebindingContext current.taskId context.taskId] }

/-- The name and the labels come before the lock; without a context the call raises. -/
def begin (s : Otel V) (i : Nat) (c : BoundCall V) : Otel V :=
  match c.attributes with
  | .error _ => { s with called := s.called ++ [c], raised := s.raised ++ [c] }
  | .ok (attributes, warnings) =>
    { s with
      called := s.called ++ [c]
      warnings := s.warnings ++ warnings
      threads := s.threads.set i (.acquiring c attributes) }

/-- The next piece of a call; `ok` is what the SDK does, where it is called. -/
def advance (s : Otel V) (i : Nat) (ok : Bool) : OtelPhase V → Option (Otel V)
  | .idle => none
  | .acquiring c attributes =>
    if s.lock = none then
      some { s with lock := some i, threads := s.threads.set i (.looking c attributes) }
    else none
  | .looking c attributes =>
    match s.cache c.key with
    | some instrument =>
      some { s with threads := s.threads.set i (.leaving c attributes instrument) }
    | none => some { s with threads := s.threads.set i (.creating c attributes) }
  | .creating c attributes =>
    if ok then some
      { s with
        instruments := s.instruments ++ [c.key]
        threads := s.threads.set i (.storing c attributes s.instruments.length) }
    else some { s with threads := s.threads.set i (.raising c) }
  | .storing c attributes instrument => some
      { s with
        cache := fun key => if key = c.key then some instrument else s.cache key
        threads := s.threads.set i (.leaving c attributes instrument) }
  | .leaving c attributes instrument => some
      { s with lock := none, threads := s.threads.set i (.recording c attributes instrument) }
  | .raising c => some
      { s with
        lock := none
        raised := s.raised ++ [c]
        threads := s.threads.set i .idle }
  | .recording c attributes instrument =>
    if ok then some
      { s with
        measured := s.measured ++ [(instrument, c.call.value, attributes)]
        completed := s.completed ++ [c]
        threads := s.threads.set i .idle }
    else some { s with raised := s.raised ++ [c], threads := s.threads.set i .idle }

def step (s : Otel V) : OtelAction V → Option (Otel V)
  | .thread => some { s with threads := s.threads ++ [.idle] }
  | .withContext recorder context => s.withContext recorder context
  | .call i recorder call =>
    match s.threads[i]?, s.recorders[recorder]? with
    | some .idle, some context => some (s.begin i ⟨context, call⟩)
    | _, _ => none
  | .advance i ok =>
    match s.threads[i]? with
    | some phase => s.advance i ok phase
    | none => none

/-- The calls under way. -/
def inFlight (s : Otel V) : List (BoundCall V) := s.threads.filterMap (·.call?)

/-- What the instruments of a kind were given, in order. -/
def samplesOf (instruments : List (MetricKind × String)) (kind : MetricKind)
    (measured : List (Nat × V × Labels)) : List (RecordedMetricSample V) :=
  measured.filterMap fun m =>
    (instruments[m.1]?.filter fun key => key.1 = kind).map fun key => ⟨key.2, m.2.1, m.2.2⟩

def samples (s : Otel V) (kind : MetricKind) : List (RecordedMetricSample V) :=
  samplesOf s.instruments kind s.measured

end Otel

/-- The recorders of a process, from one base recorder. -/
def otelMetricRecorders (V : Type) : Machine (Otel V) (OtelAction V) where
  init := (· = Otel.initial)
  step := Otel.step

/-! ## The lock -/

namespace Otel

variable {s t : Otel V} {i : Nat} {ok : Bool} {phase : OtelPhase V}

/-- The threads in the block are those that have the lock. -/
structure Guarded (s : Otel V) : Prop where
  holds : ∀ i phase, s.threads[i]? = some phase → (phase.locked = true ↔ s.lock = some i)
  held : ∀ i, s.lock = some i → i < s.threads.length

/-- One thread goes on, and takes or leaves the lock as its phase says. -/
theorem Guarded.set (h : s.Guarded) (hi : s.threads[i]? = some phase) {next : OtelPhase V}
    (threads : t.threads = s.threads.set i next)
    (lock : t.lock = if next.locked then some i else if phase.locked then none else s.lock)
    (free : next.locked = true → phase.locked = true ∨ s.lock = none) : t.Guarded := by
  have mine := h.holds i phase hi
  obtain ⟨inside, -⟩ := List.getElem?_eq_some_iff.mp hi
  constructor
  · intro j other hj
    rw [threads, getElem?_set_iff hi] at hj
    obtain ⟨rfl, rfl⟩ | ⟨different, hj⟩ := hj
    · cases now : other.locked <;> cases before : phase.locked <;> grind
    · have others := h.holds j other hj
      cases now : next.locked <;> cases before : phase.locked <;> grind
  · intro j hj
    rw [threads, List.length_set]
    have kept := h.held j
    cases now : next.locked <;> cases before : phase.locked <;> grind

theorem Guarded.advance (h : s.Guarded) (hi : s.threads[i]? = some phase)
    (ht : s.advance i ok phase = some t) : t.Guarded := by
  have mine := h.holds i phase hi
  cases phase with
  | idle => cases ht
  | acquiring c attributes =>
    simp only [Otel.advance] at ht
    split at ht
    · next free =>
      cases ht
      exact h.set hi rfl rfl fun _ => .inr free
    · cases ht
  | looking c attributes =>
    have lock : s.lock = some i := mine.mp rfl
    simp only [Otel.advance] at ht
    split at ht
    · cases ht
      exact h.set hi rfl lock fun _ => .inl rfl
    · cases ht
      exact h.set hi rfl lock fun _ => .inl rfl
  | creating c attributes =>
    have lock : s.lock = some i := mine.mp rfl
    simp only [Otel.advance] at ht
    split at ht
    · cases ht
      exact h.set hi rfl lock fun _ => .inl rfl
    · cases ht
      exact h.set hi rfl lock fun _ => .inl rfl
  | storing c attributes instrument =>
    have lock : s.lock = some i := mine.mp rfl
    cases ht
    exact h.set hi rfl lock fun _ => .inl rfl
  | leaving c attributes instrument =>
    cases ht
    exact h.set hi rfl rfl fun entered => Bool.noConfusion entered
  | raising c =>
    cases ht
    exact h.set hi rfl rfl fun entered => Bool.noConfusion entered
  | recording c attributes instrument =>
    simp only [Otel.advance] at ht
    split at ht
    · cases ht
      exact h.set hi rfl rfl fun entered => Bool.noConfusion entered
    · cases ht
      exact h.set hi rfl rfl fun entered => Bool.noConfusion entered

/-! ## The instruments -/

/-- Every instrument is in the dict of its kind, or its creator is about to put it there. -/
structure Cached (s : Otel V) : Prop where
  known : ∀ key instrument, s.cache key = some instrument → s.instruments[instrument]? = some key
  stored : ∀ instrument key, s.instruments[instrument]? = some key →
    s.cache key = some instrument ∨
      ∃ (i : Nat) (c : BoundCall V) (attributes : Labels),
        s.threads[i]? = some (.storing c attributes instrument)
  sound : ∀ (i : Nat) (phase : OtelPhase V), s.threads[i]? = some phase →
    phase.Sound s.cache s.instruments

/-- A step that creates and stores nothing. -/
theorem Cached.set (h : s.Cached) (hi : s.threads[i]? = some phase) {next : OtelPhase V}
    (threads : t.threads = s.threads.set i next) (cache : t.cache = s.cache)
    (instruments : t.instruments = s.instruments) (sound : next.Sound s.cache s.instruments)
    (other : phase.stores = false) : t.Cached := by
  constructor
  · rw [cache, instruments]
    exact h.known
  · intro instrument key hkey
    rw [instruments] at hkey
    rw [cache]
    refine (h.stored instrument key hkey).imp_right ?_
    rintro ⟨j, c, attributes, hj⟩
    refine ⟨j, c, attributes, ?_⟩
    rw [threads, getElem?_set_iff hi]
    refine .inr ⟨?_, hj⟩
    rintro rfl
    obtain rfl := Option.some.inj (hi.symm.trans hj)
    cases other
  · intro j q hj
    rw [threads, getElem?_set_iff hi] at hj
    rw [cache, instruments]
    obtain ⟨rfl, rfl⟩ | ⟨-, hj⟩ := hj
    · exact sound
    · exact h.sound j q hj

theorem Cached.advance (h : s.Cached) (g : s.Guarded) (hi : s.threads[i]? = some phase)
    (ht : s.advance i ok phase = some t) : t.Cached := by
  have mine := h.sound i phase hi
  -- inside the block there is no other thread
  have others : phase.locked = true → ∀ j q, j ≠ i → s.threads[j]? = some q →
      q.locked = false := by
    intro inside j q different hj
    have lock := (g.holds i phase hi).mp inside
    by_contra entered
    have also := (g.holds j q hj).mp (by simpa using entered)
    exact different (Option.some.inj (also.symm.trans lock))
  cases phase with
  | idle => cases ht
  | acquiring c attributes =>
    simp only [Otel.advance] at ht
    split at ht
    · cases ht
      exact h.set hi rfl rfl rfl mine rfl
    · cases ht
  | looking c attributes =>
    simp only [Otel.advance] at ht
    split at ht
    · next instrument found =>
      cases ht
      exact h.set hi rfl rfl rfl ⟨mine, h.known _ _ found⟩ rfl
    · next missing =>
      cases ht
      exact h.set hi rfl rfl rfl ⟨mine, missing⟩ rfl
  | creating c attributes =>
    obtain ⟨gives, missing⟩ := mine
    simp only [Otel.advance] at ht
    split at ht
    · cases ht
      have appended : ∀ (instrument : Nat) (key : MetricKind × String),
          s.instruments[instrument]? = some key →
            (s.instruments ++ [c.key])[instrument]? = some key := by
        intro instrument key hkey
        obtain ⟨inside, -⟩ := List.getElem?_eq_some_iff.mp hkey
        rw [List.getElem?_append_left inside]
        exact hkey
      constructor
      · intro key instrument found
        exact appended _ _ (h.known key instrument found)
      · intro instrument key hkey
        rw [getElem?_concat_iff] at hkey
        obtain ⟨rfl, rfl⟩ | ⟨-, hkey⟩ := hkey
        · exact .inr ⟨i, c, attributes, (getElem?_set_iff hi _ _ _).mpr (.inl ⟨rfl, rfl⟩)⟩
        · refine .inl ((h.stored instrument key hkey).resolve_right ?_)
          rintro ⟨j, c', attributes', hj⟩
          by_cases same : j = i
          · subst same
            simp [hi] at hj
          · simpa [OtelPhase.locked] using others rfl j _ same hj
      · intro j q hj
        rw [getElem?_set_iff hi] at hj
        obtain ⟨rfl, rfl⟩ | ⟨different, hj⟩ := hj
        · exact ⟨gives, missing, by simp⟩
        · exact (h.sound j q hj).outside (others rfl j q different hj) _ _
    · cases ht
      exact h.set hi rfl rfl rfl trivial rfl
  | storing c attributes instrument =>
    obtain ⟨gives, missing, there⟩ := mine
    cases ht
    constructor
    · intro key found hfound
      simp only at hfound
      split at hfound
      · next same =>
        cases hfound
        exact same ▸ there
      · exact h.known key found hfound
    · intro found key hkey
      by_cases same : found = instrument
      · subst same
        refine .inl (if_pos ?_)
        exact Option.some.inj (hkey.symm.trans there)
      · obtain hcache | ⟨j, c', attributes', hj⟩ := h.stored found key hkey
        · refine .inl ?_
          have different : key ≠ c.key := by
            rintro rfl
            simp [missing] at hcache
          rw [← hcache]
          exact if_neg different
        · by_cases at_i : j = i
          · subst at_i
            simp only [hi, Option.some.injEq, OtelPhase.storing.injEq] at hj
            exact absurd hj.2.2.symm same
          · simpa [OtelPhase.locked] using others rfl j _ at_i hj
    · intro j q hj
      rw [getElem?_set_iff hi] at hj
      obtain ⟨rfl, rfl⟩ | ⟨different, hj⟩ := hj
      · exact ⟨gives, there⟩
      · have kept := (h.sound j q hj).outside (others rfl j q different hj)
          (fun key => if key = c.key then some instrument else s.cache key) []
        rwa [List.append_nil] at kept
  | leaving c attributes instrument =>
    cases ht
    exact h.set hi rfl rfl rfl mine rfl
  | raising c =>
    cases ht
    exact h.set hi rfl rfl rfl trivial rfl
  | recording c attributes instrument =>
    simp only [Otel.advance] at ht
    split at ht
    · cases ht
      exact h.set hi rfl rfl rfl trivial rfl
    · cases ht
      exact h.set hi rfl rfl rfl trivial rfl

/-- No instrument is created twice. -/
theorem Cached.nodup (h : s.Cached) (g : s.Guarded) : s.instruments.Nodup := by
  rw [List.nodup_iff_getElem?_ne_getElem?]
  intro a b less inside same
  obtain ⟨key, ha⟩ : ∃ key, s.instruments[a]? = some key :=
    ⟨_, List.getElem?_eq_getElem (less.trans inside)⟩
  have hb : s.instruments[b]? = some key := same ▸ ha
  obtain cached | ⟨i, c, attributes, hi⟩ := h.stored a key ha
  · obtain also | ⟨j, c', attributes', hj⟩ := h.stored b key hb
    · have := Option.some.inj (cached.symm.trans also)
      omega
    · obtain ⟨-, missing, there⟩ := h.sound j _ hj
      obtain rfl := Option.some.inj (hb.symm.trans there)
      simp [missing] at cached
  · obtain ⟨-, missing, there⟩ := h.sound i _ hi
    obtain rfl := Option.some.inj (ha.symm.trans there)
    obtain also | ⟨j, c', attributes', hj⟩ := h.stored b c.key hb
    · simp [missing] at also
    · -- only one thread is in the block
      have lock := (g.holds i _ hi).mp rfl
      have lock' := (g.holds j _ hj).mp rfl
      obtain rfl := Option.some.inj (lock.symm.trans lock')
      simp only [hi, Option.some.injEq, OtelPhase.storing.injEq] at hj
      omega

/-! ## The calls -/

/-- What a call has left on an instrument. -/
def Measures (instruments : List (MetricKind × String)) (measured : Nat × V × Labels)
    (c : BoundCall V) : Prop :=
  instruments[measured.1]? = some c.key ∧ measured.2.1 = c.call.value ∧ c.Gives measured.2.2

theorem Measures.append {instruments : List (MetricKind × String)} {m : Nat × V × Labels}
    {c : BoundCall V} (h : Measures instruments m c) (more : List (MetricKind × String)) :
    Measures (instruments ++ more) m c := by
  refine ⟨?_, h.2⟩
  obtain ⟨inside, -⟩ := List.getElem?_eq_some_iff.mp h.1
  rw [List.getElem?_append_left inside]
  exact h.1

/-- The calls that returned are those the instruments have, in this order. -/
structure Recorded (s : Otel V) : Prop where
  matched : List.Forall₂ (Measures s.instruments) s.measured s.completed
  accounted : (s.completed ++ s.raised ++ s.inFlight).Perm s.called

theorem inFlight_set (hi : s.threads[i]? = some phase) {next : OtelPhase V}
    (threads : t.threads = s.threads.set i next) :
    (t.inFlight ++ phase.call?.toList).Perm (s.inFlight ++ next.call?.toList) := by
  unfold inFlight
  rw [threads]
  exact filterMap_set_perm (·.call?) hi next

/-- A call goes on. -/
theorem Recorded.goes_on (h : s.Recorded) (hi : s.threads[i]? = some phase)
    {next : OtelPhase V} (threads : t.threads = s.threads.set i next)
    (same : next.call? = phase.call?) (more : List (MetricKind × String))
    (instruments : t.instruments = s.instruments ++ more) (measured : t.measured = s.measured)
    (completed : t.completed = s.completed) (raised : t.raised = s.raised)
    (called : t.called = s.called) : t.Recorded := by
  constructor
  · rw [instruments, measured, completed]
    exact h.matched.imp fun _ _ m => m.append more
  · have moved := inFlight_set hi threads
    rw [same] at moved
    rw [completed, raised, called]
    exact (((List.perm_append_right_iff _).mp moved).append_left _).trans h.accounted

/-- A call ends, one way or the other. -/
theorem Recorded.account_end (h : s.Recorded) (hi : s.threads[i]? = some phase)
    {c : BoundCall V} (now : phase.call? = some c) (threads : t.threads = s.threads.set i .idle)
    (outcome : (t.completed ++ t.raised).Perm (s.completed ++ s.raised ++ [c]))
    (called : t.called = s.called) :
    (t.completed ++ t.raised ++ t.inFlight).Perm t.called := by
  have moved := inFlight_set hi threads
  have idle : (OtelPhase.idle : OtelPhase V).call? = none := rfl
  rw [now, idle, Option.toList_some, Option.toList_none, List.append_nil] at moved
  have front : (t.completed ++ t.raised ++ t.inFlight).Perm
      (s.completed ++ s.raised ++ (t.inFlight ++ [c])) := by
    refine (outcome.append_right _).trans ?_
    rw [List.append_assoc]
    exact List.perm_append_comm.append_left _
  rw [called]
  exact (front.trans (moved.append_left _)).trans h.accounted

/-- A call raises. -/
theorem Recorded.raises (h : s.Recorded) (hi : s.threads[i]? = some phase) {c : BoundCall V}
    (now : phase.call? = some c) (threads : t.threads = s.threads.set i .idle)
    (instruments : t.instruments = s.instruments) (measured : t.measured = s.measured)
    (completed : t.completed = s.completed) (raised : t.raised = s.raised ++ [c])
    (called : t.called = s.called) : t.Recorded := by
  constructor
  · rw [instruments, measured, completed]
    exact h.matched
  · refine h.account_end hi now threads ?_ called
    rw [completed, raised, List.append_assoc]

theorem Recorded.advance (h : s.Recorded) (k : s.Cached) (hi : s.threads[i]? = some phase)
    (ht : s.advance i ok phase = some t) : t.Recorded := by
  have mine := k.sound i phase hi
  cases phase with
  | idle => cases ht
  | acquiring c attributes =>
    simp only [Otel.advance] at ht
    split at ht
    · cases ht
      exact h.goes_on hi rfl rfl [] (List.append_nil _).symm rfl rfl rfl rfl
    · cases ht
  | looking c attributes =>
    simp only [Otel.advance] at ht
    split at ht
    · cases ht
      exact h.goes_on hi rfl rfl [] (List.append_nil _).symm rfl rfl rfl rfl
    · cases ht
      exact h.goes_on hi rfl rfl [] (List.append_nil _).symm rfl rfl rfl rfl
  | creating c attributes =>
    simp only [Otel.advance] at ht
    split at ht
    · cases ht
      exact h.goes_on hi rfl rfl [c.key] rfl rfl rfl rfl rfl
    · cases ht
      exact h.goes_on hi rfl rfl [] (List.append_nil _).symm rfl rfl rfl rfl
  | storing c attributes instrument =>
    cases ht
    exact h.goes_on hi rfl rfl [] (List.append_nil _).symm rfl rfl rfl rfl
  | leaving c attributes instrument =>
    cases ht
    exact h.goes_on hi rfl rfl [] (List.append_nil _).symm rfl rfl rfl rfl
  | raising c =>
    cases ht
    exact h.raises hi rfl rfl rfl rfl rfl rfl rfl
  | recording c attributes instrument =>
    simp only [Otel.advance] at ht
    split at ht
    · cases ht
      constructor
      · exact List.rel_append h.matched (.cons ⟨mine.2, rfl, mine.1⟩ .nil)
      · refine h.account_end hi rfl rfl ?_ rfl
        simp only [List.append_assoc]
        exact List.perm_append_comm.append_left _
    · cases ht
      exact h.raises hi rfl rfl rfl rfl rfl rfl rfl

/-! ## Runs -/

theorem advance_log (ht : s.advance i ok phase = some t) :
    t.called = s.called ∧ t.warnings = s.warnings := by
  cases phase <;> simp only [Otel.advance] at ht <;> (try split at ht) <;> cases ht <;>
    exact ⟨rfl, rfl⟩

/-- Every label that a call left out has been warned about. -/
def Warned (s : Otel V) : Prop :=
  ∀ c ∈ s.called, ∀ attributes warnings, c.attributes = .ok (attributes, warnings) →
    ∀ warning ∈ warnings, warning ∈ s.warnings

structure Consistent (s : Otel V) : Prop where
  guarded : s.Guarded
  cached : s.Cached
  recorded : s.Recorded
  warned : s.Warned

theorem initial_consistent : (initial : Otel V).Consistent where
  guarded := ⟨by simp [initial], by simp [initial]⟩
  cached := ⟨by simp [initial], by simp [initial], by simp [initial]⟩
  recorded := ⟨.nil, .refl _⟩
  warned := by simp [Warned, initial]

theorem Consistent.thread (h : s.Consistent) :
    ({ s with threads := s.threads ++ [.idle] } : Otel V).Consistent where
  guarded := by
    refine ⟨fun j q hj => ?_, fun j hj => ?_⟩
    · rw [getElem?_concat_iff] at hj
      obtain ⟨rfl, rfl⟩ | ⟨-, hj⟩ := hj
      · refine ⟨fun entered => Bool.noConfusion entered, fun lock => ?_⟩
        have := h.guarded.held _ lock
        omega
      · exact h.guarded.holds j q hj
    · have := h.guarded.held j hj
      rw [List.length_append]
      omega
  cached := by
    refine ⟨h.cached.known, fun instrument key hkey => ?_, fun j q hj => ?_⟩
    · refine (h.cached.stored instrument key hkey).imp_right ?_
      rintro ⟨j, c, attributes, hj⟩
      obtain ⟨inside, -⟩ := List.getElem?_eq_some_iff.mp hj
      refine ⟨j, c, attributes, ?_⟩
      rw [List.getElem?_append_left inside]
      exact hj
    · rw [getElem?_concat_iff] at hj
      obtain ⟨rfl, rfl⟩ | ⟨-, hj⟩ := hj
      · trivial
      · exact h.cached.sound j q hj
  recorded := by
    refine ⟨h.recorded.matched, ?_⟩
    have same : ({ s with threads := s.threads ++ [.idle] } : Otel V).inFlight = s.inFlight := by
      simp [inFlight, OtelPhase.call?]
    rw [same]
    exact h.recorded.accounted
  warned := h.warned

theorem Consistent.withContext (h : s.Consistent) {recorder : Nat}
    {context : TaskAttemptMetricContext} (ht : s.withContext recorder context = some t) :
    t.Consistent := by
  unfold Otel.withContext at ht
  split at ht
  · cases ht
  · cases ht
    exact ⟨⟨h.guarded.holds, h.guarded.held⟩,
      ⟨h.cached.known, h.cached.stored, h.cached.sound⟩,
      ⟨h.recorded.matched, h.recorded.accounted⟩, h.warned⟩
  · cases ht
    refine ⟨⟨h.guarded.holds, h.guarded.held⟩,
      ⟨h.cached.known, h.cached.stored, h.cached.sound⟩,
      ⟨h.recorded.matched, h.recorded.accounted⟩, ?_⟩
    intro c hc attributes warnings gives warning mem
    exact List.mem_append_left _ (h.warned c hc attributes warnings gives warning mem)

theorem Consistent.begin (h : s.Consistent) (hi : s.threads[i]? = some .idle)
    (c : BoundCall V) : (s.begin i c).Consistent := by
  cases given : c.attributes with
  | error e =>
    have outcome : s.begin i c =
        { s with called := s.called ++ [c], raised := s.raised ++ [c] } := by
      simp [Otel.begin, given]
    rw [outcome]
    refine ⟨⟨h.guarded.holds, h.guarded.held⟩,
      ⟨h.cached.known, h.cached.stored, h.cached.sound⟩, ⟨h.recorded.matched, ?_⟩, ?_⟩
    · have moved : (s.completed ++ (s.raised ++ [c]) ++ s.inFlight).Perm
          (s.completed ++ s.raised ++ s.inFlight ++ [c]) := by
        simp only [List.append_assoc]
        exact (List.perm_append_comm.append_left _).append_left _
      exact moved.trans (h.recorded.accounted.append_right _)
    · intro c' hc' attributes warnings gives
      obtain old | new := List.mem_append.mp hc'
      · exact h.warned c' old attributes warnings gives
      · obtain rfl := List.mem_singleton.mp new
        rw [given] at gives
        cases gives
  | ok merged =>
    obtain ⟨attributes, warnings⟩ := merged
    have outcome : s.begin i c =
        { s with
          called := s.called ++ [c]
          warnings := s.warnings ++ warnings
          threads := s.threads.set i (.acquiring c attributes) } := by
      simp [Otel.begin, given]
    rw [outcome]
    refine ⟨h.guarded.set hi rfl rfl fun entered => Bool.noConfusion entered,
      h.cached.set hi rfl rfl rfl ⟨warnings, given⟩ rfl, ⟨h.recorded.matched, ?_⟩, ?_⟩
    · have moved := inFlight_set
        (t := { s with threads := s.threads.set i (.acquiring c attributes) }) hi rfl
      change (_ ++ []).Perm (_ ++ [c]) at moved
      rw [List.append_nil] at moved
      refine (moved.append_left _).trans ?_
      rw [← List.append_assoc]
      exact h.recorded.accounted.append_right _
    · intro c' hc' attributes' warnings' gives warning mem
      obtain old | new := List.mem_append.mp hc'
      · exact List.mem_append_left _ (h.warned c' old attributes' warnings' gives warning mem)
      · obtain rfl := List.mem_singleton.mp new
        rw [given] at gives
        cases gives
        exact List.mem_append_right _ mem

theorem Consistent.step (h : s.Consistent) {a : OtelAction V} (ht : s.step a = some t) :
    t.Consistent := by
  cases a with
  | thread =>
    cases ht
    exact h.thread
  | withContext recorder context => exact h.withContext ht
  | call i recorder call =>
    simp only [Otel.step] at ht
    split at ht
    · next hi _ =>
      cases ht
      exact h.begin hi _
    · cases ht
  | advance i ok =>
    simp only [Otel.step] at ht
    split at ht
    · next phase hi =>
      obtain ⟨called, warnings⟩ := advance_log ht
      refine ⟨h.guarded.advance hi ht, h.cached.advance h.guarded hi ht,
        h.recorded.advance h.cached hi ht, ?_⟩
      unfold Warned
      rw [called, warnings]
      exact h.warned
    · cases ht

theorem consistent (h : (otelMetricRecorders V).Reachable s) : s.Consistent := by
  refine h.invariant ?_ fun s a t _ ih _ ht => ih.step ht
  rintro s rfl
  exact initial_consistent

/-! ## Both recorders -/

/-- The calls that returned, on a recorder of the tests. -/
theorem replay {instruments : List (MetricKind × String)} {measured : List (Nat × V × Labels)}
    {completed : List (BoundCall V)}
    (h : List.Forall₂ (Measures instruments) measured completed) (before : InMemorySamples V) :
    completed.foldlM InMemorySamples.record before =
      .ok ⟨before.histograms ++ samplesOf instruments .histogram measured,
        before.gauges ++ samplesOf instruments .gauge measured⟩ := by
  induction h generalizing before with
  | nil => simp [samplesOf, pure, Except.pure]
  | @cons m c measured completed first _ ih =>
    obtain ⟨instrument, value, labels⟩ := m
    obtain ⟨there, rfl, gives⟩ := first
    rw [List.foldlM_cons, InMemorySamples.record_eq gives]
    refine (ih _).trans ?_
    simp only [BoundCall.key] at there
    cases kind : c.call.kind with
    | histogram => simp [samplesOf, InMemorySamples.add, there, kind]
    | gauge => simp [samplesOf, InMemorySamples.add, there, kind]

/-- A call that goes on somewhere is never stuck: who waits for the lock waits for a thread
that goes on. -/
theorem Guarded.advances (h : s.Guarded) (hi : s.threads[i]? = some phase)
    (busy : phase.call?.isSome) : ∃ j ok, (s.step (.advance j ok)).isSome := by
  have inside : ∀ j q, s.threads[j]? = some q → q.locked = true →
      (s.step (.advance j true)).isSome := by
    intro j q hj entered
    cases q with
    | idle | acquiring | recording => cases entered
    | looking c attributes =>
      simp only [Otel.step, hj, Otel.advance]
      split <;> rfl
    | creating | storing | leaving | raising => simp [Otel.step, hj, Otel.advance]
  by_cases entered : phase.locked = true
  · exact ⟨i, true, inside i phase hi entered⟩
  · cases phase with
    | idle => cases busy
    | looking | creating | storing | leaving | raising => exact absurd rfl entered
    | recording c attributes instrument => exact ⟨i, true, by simp [Otel.step, hi, Otel.advance]⟩
    | acquiring c attributes =>
      cases lock : s.lock with
      | none => exact ⟨i, true, by simp [Otel.step, hi, Otel.advance, lock]⟩
      | some j =>
        obtain ⟨q, hj⟩ : ∃ q, s.threads[j]? = some q :=
          ⟨_, List.getElem?_eq_getElem (h.held j lock)⟩
        exact ⟨j, true, inside j q hj ((h.holds j q hj).mpr lock)⟩

end Otel

/-- In every interleaving of calls the meter has each instrument once, a call ends in one
sample or in an exception, the samples are those that the recorder of the tests takes from
the same calls, and no call waits forever for the lock. -/
theorem otel_records_as_in_memory {s : Otel V} (h : (otelMetricRecorders V).Reachable s) :
    s.instruments.Nodup ∧
    (s.completed ++ s.raised ++ s.inFlight).Perm s.called ∧
    s.completed.foldlM InMemorySamples.record ⟨[], []⟩ =
      .ok ⟨s.samples .histogram, s.samples .gauge⟩ ∧
    (s.inFlight ≠ [] → ∃ i ok, (s.step (.advance i ok)).isSome) := by
  have consistent := Otel.consistent h
  refine ⟨consistent.cached.nodup consistent.guarded, consistent.recorded.accounted, ?_, ?_⟩
  · have same := Otel.replay consistent.recorded.matched ⟨[], []⟩
    simpa [Otel.samples] using same
  · intro busy
    obtain ⟨c, mem⟩ := List.exists_mem_of_ne_nil _ busy
    obtain ⟨phase, hphase, now⟩ := List.mem_filterMap.mp mem
    obtain ⟨i, hi⟩ := List.getElem?_of_mem hphase
    exact consistent.guarded.advances hi (by simp [now])

/-- Two threads, of which the second waits until the first has created the instrument. -/
def racingRecorders : Otel Nat :=
  (otelMetricRecorders Nat).follow Otel.initial
    [.thread, .thread, .withContext 0 ⟨"features.build", "t-1", "wf-1", "e-1", "w-1", 0⟩,
      .call 0 1 (histogram "rows" 3 none), .call 1 1 (histogram "rows" 5 none),
      .advance 0 true, .advance 1 true, .advance 0 true, .advance 0 true, .advance 0 true,
      .advance 0 true, .advance 1 true, .advance 1 true, .advance 1 true, .advance 1 true,
      .advance 0 true]

theorem otel_records_as_in_memory_racing :
    racingRecorders.measured.map (fun m => (m.1, m.2.1)) = [(0, 5), (0, 3)] ∧
    racingRecorders.instruments.Nodup ∧
    (racingRecorders.completed ++ racingRecorders.raised ++ racingRecorders.inFlight).Perm
      racingRecorders.called ∧
    racingRecorders.completed.foldlM InMemorySamples.record ⟨[], []⟩ =
      .ok ⟨racingRecorders.samples .histogram, racingRecorders.samples .gauge⟩ ∧
    (racingRecorders.inFlight ≠ [] →
      ∃ i ok, (racingRecorders.step (.advance i ok)).isSome) :=
  ⟨by decide, otel_records_as_in_memory (Machine.Reachable.follow rfl)⟩

end Perago.Metrics
