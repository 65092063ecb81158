import Perago.ConductorRuntime.ProcessIpc
import Perago.Transition.Machine

/-!
# The attempt-fence RPC

Executors ask the broker for fresh Conductor snapshots through one request queue
and one response queue for each worker id. The queues outlive the executors, and
a request names no call. Each request and response is paired here with the call
it belongs to and the time of its making, which the runtime does not record.
-/

namespace Perago.ConductorRuntime

open Perago.Transition

structure ProcessAttemptFenceRequest where
  workerId : String
  taskId : String

structure ProcessAttemptFenceResponse where
  taskId : String
  attempt : Option ConductorTaskAttempt := none
  error : Option String := none

/-- What the broker has: the response queues it was given, and a client unless none
was configured. `getTask` answers, at each time, with a snapshot or an error's text. -/
structure FenceBroker where
  responseQueues : List String
  client : Option (Nat → String → Except String ConductorTaskAttempt)

/-- `_handle_attempt_fence_request`, up to the put: no response without a queue for it. -/
def FenceBroker.handle (b : FenceBroker) (now : Nat) (request : ProcessAttemptFenceRequest) :
    Option ProcessAttemptFenceResponse :=
  if request.workerId ∈ b.responseQueues then
    match b.client with
    | none => some { taskId := request.taskId, error := some "broker has no conductor client" }
    | some getTask => match getTask now request.taskId with
      | .ok attempt => some { taskId := request.taskId, attempt := some attempt }
      | .error text => some { taskId := request.taskId, error := some text }
  else none

/-- The checks of `load_current_attempt_via_broker` on what it dequeued; `none` is
any object that is not a response. -/
def checkFenceResponse (current : ConductorTaskAttempt) :
    Option ProcessAttemptFenceResponse → Except PyException ConductorTaskAttempt
  | none => .error (.mk' (.other "RuntimeError") "broker returned invalid attempt-fence response")
  | some response =>
    if response.taskId ≠ current.taskId then
      .error (.mk' (.other "RuntimeError") ("broker returned attempt-fence response for " ++
        response.taskId ++ "; expected " ++ current.taskId))
    else match response.error, response.attempt with
      | some text, _ => .error (.mk' (.other "RuntimeError")
          ("broker failed to reload attempt " ++ current.taskId ++ ": " ++ text))
      | none, none => .error (.mk' (.other "RuntimeError")
          ("broker returned empty attempt-fence response for " ++ current.taskId))
      | none, some attempt => .ok attempt

/-! ## The queues and their parties -/

/-- A request, with the call that put it and when. -/
structure FenceRequest where
  request : ProcessAttemptFenceRequest
  call : Nat
  putAt : Nat

/-- A response, with the call whose request it answers and when `get_task` answered. -/
structure FenceResponse where
  response : ProcessAttemptFenceResponse
  call : Nat
  loadedAt : Nat

/-- A call of `load_current_attempt_via_broker` that has put its request. -/
structure FenceCall where
  id : Nat
  workerId : String
  current : ConductorTaskAttempt
  putAt : Nat

/-- A broker thread draining the request queue. -/
inductive FenceThread where
  | idle
  | handling (r : FenceRequest)
  | answering (r : FenceRequest) (a : FenceResponse)

structure FenceState where
  clock : Nat
  calls : Nat
  requestQueue : List FenceRequest
  responseQueues : String → List FenceResponse
  threads : Nat → FenceThread
  /-- The call in which the executor of a worker id is. -/
  callers : String → Option FenceCall
  /-- Every call that dequeued a response, with that response. -/
  finished : List (FenceCall × FenceResponse)

/-- `crash` ends the executor of a worker id; its replacement may call at once. -/
inductive FenceAction where
  | put (w : String) (current : ConductorTaskAttempt)
  | pop (k : Nat)
  | load (k : Nat)
  | answer (k : Nat)
  | get (w : String)
  | crash (w : String)

def FenceCall.request (c : FenceCall) : FenceRequest where
  request := { workerId := c.workerId, taskId := c.current.taskId }
  call := c.id
  putAt := c.putAt

namespace FenceState

def start : FenceState where
  clock := 0
  calls := 0
  requestQueue := []
  responseQueues _ := []
  threads _ := .idle
  callers _ := none
  finished := []

def setThread (s : FenceState) (k : Nat) (th : FenceThread) : FenceState :=
  { s with threads := Function.update s.threads k th }

def setCaller (s : FenceState) (w : String) (c : Option FenceCall) : FenceState :=
  { s with callers := Function.update s.callers w c }

def setResponses (s : FenceState) (w : String) (l : List FenceResponse) : FenceState :=
  { s with responseQueues := Function.update s.responseQueues w l }

/-- One step of a party. A response is put whatever has become of the caller. -/
def act (b : FenceBroker) (s : FenceState) : FenceAction → Option FenceState
  | .put w current => match s.callers w with
    | none =>
      let c : FenceCall := { id := s.calls, workerId := w, current := current, putAt := s.clock }
      some ({ s with
        calls := s.calls + 1
        requestQueue := s.requestQueue ++ [c.request] }.setCaller w (some c))
    | some _ => none
  | .pop k => match s.threads k, s.requestQueue with
    | .idle, r :: rest => some ({ s with requestQueue := rest }.setThread k (.handling r))
    | _, _ => none
  | .load k => match s.threads k with
    | .handling r => match b.handle s.clock r.request with
      | some response => some (s.setThread k (.answering r
          { response := response, call := r.call, loadedAt := s.clock }))
      | none => some (s.setThread k .idle)
    | _ => none
  | .answer k => match s.threads k with
    | .answering r a => some ((s.setResponses r.request.workerId
        (s.responseQueues r.request.workerId ++ [a])).setThread k .idle)
    | _ => none
  | .get w => match s.callers w, s.responseQueues w with
    | some c, a :: rest =>
      some ({ s with finished := s.finished ++ [(c, a)] }.setResponses w rest |>.setCaller w none)
    | _, _ => none
  | .crash w => some (s.setCaller w none)

def step (b : FenceBroker) (s : FenceState) (a : FenceAction) : Option FenceState :=
  (s.act b a).map fun t => { t with clock := s.clock + 1 }

end FenceState

def attemptFence (b : FenceBroker) : Machine FenceState FenceAction where
  init s := s = .start
  step := FenceState.step b

/-! ## Correlation -/

namespace FenceState

variable {b : FenceBroker} {s t : FenceState} {w : String} {a : FenceAction}

/-- Something of an older call of this worker id is still on its way. -/
def Outstanding (s : FenceState) (w : String) : Prop :=
  (∃ r ∈ s.requestQueue, r.request.workerId = w) ∨
    (∃ k r, s.threads k = .handling r ∧ r.request.workerId = w) ∨
    (∃ k r x, s.threads k = .answering r x ∧ r.request.workerId = w) ∨
    s.responseQueues w ≠ []

/-- No call puts a request while something of an older one is outstanding. -/
def NoLeftover (s : FenceState) (a : FenceAction) : Prop :=
  ∀ w current, a = .put w current → ¬ s.Outstanding w

/-- The response that the broker made for this request, after it was put. -/
def Answers (b : FenceBroker) (r : FenceRequest) (x : FenceResponse) : Prop :=
  x.call = r.call ∧ r.putAt < x.loadedAt ∧ b.handle x.loadedAt r.request = some x.response

/-- Everything outstanding of a worker id belongs to the call it is in. -/
structure Correlated (b : FenceBroker) (s : FenceState) : Prop where
  caller : ∀ w c, s.callers w = some c → c.workerId = w
  queued : ∀ r ∈ s.requestQueue, r.putAt < s.clock ∧
    ∀ c, s.callers r.request.workerId = some c → r = c.request
  handling : ∀ k r, s.threads k = .handling r → r.putAt < s.clock ∧
    ∀ c, s.callers r.request.workerId = some c → r = c.request
  answering : ∀ k r x, s.threads k = .answering r x → Answers b r x ∧
    ∀ c, s.callers r.request.workerId = some c → r = c.request
  responses : ∀ w x, x ∈ s.responseQueues w → ∀ c, s.callers w = some c → Answers b c.request x
  finished : ∀ c x, (c, x) ∈ s.finished → Answers b c.request x

theorem Correlated.start (b : FenceBroker) : FenceState.start.Correlated b := by
  constructor <;> simp [FenceState.start]

/-- A step that forgets the caller of a worker id, or none. -/
theorem Correlated.setCaller_none (h : s.Correlated b) : (s.setCaller w none).Correlated b := by
  have old : ∀ {v c}, (s.setCaller w none).callers v = some c → s.callers v = some c := by
    intro v c hc
    by_cases hv : v = w
    · simp [setCaller, hv] at hc
    · simpa [setCaller, hv] using hc
  exact {
    caller := fun v c hc => h.caller v c (old hc)
    queued := fun r hr => ⟨(h.queued r hr).1, fun c hc => (h.queued r hr).2 c (old hc)⟩
    handling := fun k r hk => ⟨(h.handling k r hk).1, fun c hc => (h.handling k r hk).2 c (old hc)⟩
    answering := fun k r x hk =>
      ⟨(h.answering k r x hk).1, fun c hc => (h.answering k r x hk).2 c (old hc)⟩
    responses := fun v x hx c hc => h.responses v x hx c (old hc)
    finished := h.finished }

theorem Correlated.tick (h : s.Correlated b) : Correlated b { s with clock := s.clock + 1 } := by
  refine ⟨h.caller, ?_, ?_, h.answering, h.responses, h.finished⟩
  · exact fun r hr => ⟨by have := (h.queued r hr).1; dsimp only; omega, (h.queued r hr).2⟩
  · exact fun k r hk => ⟨by have := (h.handling k r hk).1; dsimp only; omega, (h.handling k r hk).2⟩

theorem act_clock (h : s.act b a = some t) : t.clock = s.clock := by
  cases a with
  | crash w =>
    cases h
    rfl
  | load k =>
    simp only [act] at h
    split at h
    · split at h <;> cases h <;> rfl
    · cases h
  | put | pop | answer | get =>
    simp only [act] at h
    split at h <;> cases h
    rfl

theorem setThread_cases {k j : Nat} {th th' : FenceThread}
    (h : (s.setThread k th).threads j = th') : j = k ∧ th' = th ∨ s.threads j = th' := by
  by_cases hj : j = k
  · subst hj
    exact .inl ⟨rfl, by simpa [setThread] using h.symm⟩
  · exact .inr (by simpa [setThread, hj] using h)

/-- A thread takes over what it was handed, if that is as it should be. -/
theorem Correlated.setThread (h : s.Correlated b) (k : Nat) {th : FenceThread}
    (handling : ∀ r, th = .handling r → r.putAt < s.clock ∧
      ∀ c, s.callers r.request.workerId = some c → r = c.request)
    (answering : ∀ r x, th = .answering r x → Answers b r x ∧
      ∀ c, s.callers r.request.workerId = some c → r = c.request) :
    (s.setThread k th).Correlated b := by
  refine ⟨h.caller, h.queued, ?_, ?_, h.responses, h.finished⟩
  · intro j r hj
    obtain ⟨-, rfl⟩ | hj := setThread_cases hj
    · exact handling r rfl
    · exact h.handling j r hj
  · intro j r x hj
    obtain ⟨-, rfl⟩ | hj := setThread_cases hj
    · exact answering r x rfl
    · exact h.answering j r x hj

theorem Correlated.setResponses (h : s.Correlated b) {l : List FenceResponse}
    (hl : ∀ x ∈ l, ∀ c, s.callers w = some c → Answers b c.request x) :
    (s.setResponses w l).Correlated b := by
  refine { h with responses := fun v x hx c hc => ?_ }
  by_cases hv : v = w
  · subst hv
    exact hl x (by simpa [FenceState.setResponses] using hx) c hc
  · exact h.responses v x (by simpa [FenceState.setResponses, hv] using hx) c hc

/-- A call that starts with nothing outstanding owns all that is outstanding. -/
theorem Correlated.put (h : s.Correlated b) {current : ConductorTaskAttempt}
    (clear : ¬ s.Outstanding w)
    (hst : s.step b (.put w current) = some t) : t.Correlated b := by
  simp only [step, act] at hst
  split at hst
  · obtain rfl := Option.some.inj hst
    have caller : ∀ {v d}, Function.update s.callers w (some
        { id := s.calls, workerId := w, current := current, putAt := s.clock }) v = some d →
        v = w ∧ d = { id := s.calls, workerId := w, current := current, putAt := s.clock } ∨
          v ≠ w ∧ s.callers v = some d := by
      intro v d hd
      by_cases hv : v = w
      · subst hv
        exact .inl ⟨rfl, by simpa using hd.symm⟩
      · exact .inr ⟨hv, by simpa [hv] using hd⟩
    refine ⟨?_, ?_, ?_, ?_, ?_, h.finished⟩
    · intro v d hd
      obtain ⟨rfl, rfl⟩ | ⟨-, hd⟩ := caller hd
      · rfl
      · exact h.caller v d hd
    · intro r hr
      obtain hr | hr := List.mem_append.mp hr
      · refine ⟨Nat.lt_succ_of_lt (h.queued r hr).1, fun d hd => ?_⟩
        obtain ⟨hw, -⟩ | ⟨-, hd⟩ := caller hd
        · exact absurd (.inl ⟨r, hr, hw⟩) clear
        · exact (h.queued r hr).2 d hd
      · obtain rfl := List.mem_singleton.mp hr
        refine ⟨Nat.lt_succ_self _, fun d hd => ?_⟩
        obtain ⟨-, rfl⟩ | ⟨hne, -⟩ := caller hd
        · rfl
        · exact absurd rfl hne
    · intro k r hk
      refine ⟨Nat.lt_succ_of_lt (h.handling k r hk).1, fun d hd => ?_⟩
      obtain ⟨hw, -⟩ | ⟨-, hd⟩ := caller hd
      · exact absurd (.inr (.inl ⟨k, r, hk, hw⟩)) clear
      · exact (h.handling k r hk).2 d hd
    · intro k r x hk
      refine ⟨(h.answering k r x hk).1, fun d hd => ?_⟩
      obtain ⟨hw, -⟩ | ⟨-, hd⟩ := caller hd
      · exact absurd (.inr (.inr (.inl ⟨k, r, x, hk, hw⟩))) clear
      · exact (h.answering k r x hk).2 d hd
    · intro v x hx d hd
      obtain ⟨rfl, -⟩ | ⟨-, hd⟩ := caller hd
      · exact absurd (.inr (.inr (.inr (List.ne_nil_of_mem hx)))) clear
      · exact h.responses v x hx d hd
  · cases hst

theorem Correlated.act (h : s.Correlated b) (noPut : ∀ w current, a ≠ .put w current)
    (hst : s.act b a = some t) : t.Correlated b := by
  cases a with
  | put w current => exact absurd rfl (noPut w current)
  | pop k =>
    simp only [FenceState.act] at hst
    split at hst
    · rename_i r rest _ hq
      obtain rfl := Option.some.inj hst
      have popped : Correlated b { s with requestQueue := rest } :=
        { h with queued := fun r' hr' => h.queued r' (hq ▸ List.mem_cons_of_mem r hr') }
      refine popped.setThread k ?_ (by simp)
      rintro _ ⟨⟩
      exact h.queued r (hq ▸ List.mem_cons_self)
    · cases hst
  | load k =>
    simp only [FenceState.act] at hst
    split at hst
    · rename_i r hk
      split at hst
      · rename_i response hr
        obtain rfl := Option.some.inj hst
        refine h.setThread k (by simp) ?_
        rintro _ _ ⟨⟩
        exact ⟨⟨rfl, (h.handling k r hk).1, hr⟩, (h.handling k r hk).2⟩
      · obtain rfl := Option.some.inj hst
        exact h.setThread k (by simp) (by simp)
    · cases hst
  | answer k =>
    simp only [FenceState.act] at hst
    split at hst
    · rename_i r x hk
      obtain rfl := Option.some.inj hst
      obtain ⟨made, own⟩ := h.answering k r x hk
      refine Correlated.setThread (h.setResponses fun y hy c hc => ?_) k (by simp) (by simp)
      obtain hy | hy := List.mem_append.mp hy
      · exact h.responses _ y hy c hc
      · obtain rfl := List.mem_singleton.mp hy
        exact own c hc ▸ made
    · cases hst
  | get w =>
    simp only [FenceState.act] at hst
    split at hst
    · rename_i c x rest hc hx
      obtain rfl := Option.some.inj hst
      have own := h.responses w x (hx ▸ List.mem_cons_self) c hc
      have done : Correlated b { s with finished := s.finished ++ [(c, x)] } := by
        refine { h with finished := fun d y hd => ?_ }
        obtain hd | hd := List.mem_append.mp hd
        · exact h.finished d y hd
        · obtain ⟨rfl, rfl⟩ := Prod.mk.inj (List.mem_singleton.mp hd)
          exact own
      refine (done.setResponses fun y hy d hd => ?_).setCaller_none
      exact h.responses w y (hx ▸ List.mem_cons_of_mem x hy) d hd
    · cases hst
  | crash w =>
    obtain rfl := Option.some.inj hst
    exact h.setCaller_none

theorem correlated (h : (attemptFence b).Guarded NoLeftover s) : s.Correlated b := by
  refine h.invariant (P := Correlated b) ?_ ?_
  · rintro _ rfl
    exact .start b
  · intro s a t _ hs clear hst
    by_cases put : ∃ w current, a = .put w current
    · obtain ⟨w, current, rfl⟩ := put
      exact hs.put (clear w current rfl) hst
    · obtain ⟨u, hu, rfl⟩ := Option.map_eq_some_iff.mp hst
      have next := hs.act (fun w current ha => put ⟨w, current, ha⟩) hu
      have clock := act_clock hu
      exact clock ▸ next.tick

/-! ## What a fence is decided from -/

/-- As long as no call puts a request over the leftovers of an older one, a call
dequeues the response made for its own request after the put, and it fails only if
the broker could not answer that request. -/
theorem fence_answered (h : (attemptFence b).Guarded NoLeftover s) {c : FenceCall}
    {x : FenceResponse} (hx : (c, x) ∈ s.finished) :
    x.call = c.id ∧ c.putAt < x.loadedAt ∧
      b.handle x.loadedAt { workerId := c.workerId, taskId := c.current.taskId } =
        some x.response ∧
      ∀ getTask, b.client = some getTask → checkFenceResponse c.current (some x.response) =
        match getTask x.loadedAt c.current.taskId with
        | .ok attempt => .ok attempt
        | .error text => .error (.mk' (.other "RuntimeError")
            ("broker failed to reload attempt " ++ c.current.taskId ++ ": " ++ text)) := by
  obtain ⟨call, later, made⟩ := (correlated h).finished c x hx
  refine ⟨call, later, made, fun getTask client => ?_⟩
  simp only [FenceBroker.handle, client, FenceCall.request] at made
  split at made
  · cases hg : getTask x.loadedAt c.current.taskId with
    | ok attempt =>
      simp only [hg, Option.some.injEq] at made
      simp [← made, checkFenceResponse]
    | error text =>
      simp only [hg, Option.some.injEq] at made
      simp [← made, checkFenceResponse]
  · cases made

/-- One worker id, and a Conductor that knows no task. -/
def someFenceBroker : FenceBroker where
  responseQueues := ["w"]
  client := some fun _ _ => .error "not found"

theorem fence_answered_once : ∃ s : FenceState,
    (attemptFence someFenceBroker).Guarded NoLeftover s ∧
      ∃ c x, (c, x) ∈ s.finished ∧ x.call = c.id ∧ c.putAt < x.loadedAt := by
  have first : (attemptFence someFenceBroker).Guarded NoLeftover
      ((attemptFence someFenceBroker).follow .start [.put "w" someAttempt]) := by
    refine .step (.put "w" someAttempt) (.init rfl) ?_ rfl
    intro w current _ outstanding
    simp [Outstanding, FenceState.start] at outstanding
  have run := first.follow [.pop 0, .load 0, .answer 0, .get "w"] (by simp [NoLeftover])
  have answered := fence_answered run (c := ⟨0, "w", someAttempt, 0⟩)
    (x := ⟨{ taskId := "task", error := some "not found" }, 0, 2⟩)
    (by exact List.mem_singleton_self _)
  exact ⟨_, run, _, _, List.mem_singleton_self _, answered.1, answered.2.1⟩

/-- The executor crashes between its request and the response. Its replacement asks
for another task, and dequeues the answer to its predecessor. -/
theorem fence_answered_for_another_call : ∃ s : FenceState,
    (attemptFence someFenceBroker).Reachable s ∧
      ∃ c x, (c, x) ∈ s.finished ∧ x.call ≠ c.id ∧ x.loadedAt < c.putAt ∧
        x.response.taskId ≠ c.current.taskId := by
  refine ⟨(attemptFence someFenceBroker).follow .start [.put "w" someAttempt, .pop 0, .load 0,
    .crash "w", .answer 0, .put "w" { someAttempt with taskId := "next" }, .get "w"],
    .follow rfl, ⟨1, "w", { someAttempt with taskId := "next" }, 5⟩,
    ⟨{ taskId := "task", error := some "not found" }, 0, 2⟩, ?_, by decide, by decide, by decide⟩
  exact List.mem_singleton_self _

end FenceState

end Perago.ConductorRuntime
