import Perago.ConductorRuntime.Delivery

/-!
# Pipes of available slots

A slot that `_lease_slot` can hand out has nothing on its pipe, so that the first
completion a call receives is its own. A call that gives up at its completion
deadline breaks this: it releases its slot with the assignment, or the completion,
still on the pipe.
-/

namespace Perago.ConductorRuntime

open Perago.Transition

namespace ProcessRuntime

variable {cfg : ProcessRuntimeConfig} {s t : ProcessRuntime}

/-- The step begins no call with a used execution id, is no stale release, and is no
call giving up at its deadline while its pipe carries something. -/
structure Clean (s : ProcessRuntime) (a : RuntimeAction) : Prop where
  serial : s.Serial a
  left : ∀ p, s.NothingLeft a p

theorem quiescent_of_clean (h : (processRuntime cfg).Guarded Clean s) (p : SlotPipe) :
    s.Quiescent p := by
  refine h.invariant (P := fun s => s.Quiescent p) ?_ ?_
  · rintro _ rfl
    exact .start cfg p
  · intro s a t hs q ok hst
    exact q.step (facts (hs.mono fun _ _ ok => ok.serial)) (step_inv hst) (ok.left p)

/-- The slot can be leased, and its pipe is `p`. -/
def Offered (s : ProcessRuntime) (w : String) (p : SlotPipe) : Prop :=
  w ∈ s.dispatch.broker.table.availableWorkerIds ∧
    s.dispatch.broker.table.connection w = some p

/-- Nobody leases the pipe of an available slot. -/
theorem Facts.offered_free (f : s.Facts cfg) {w : String} {p : SlotPipe} (h : s.Offered w p)
    {i : Nat} {c : ExecuteCall SlotPipe} {l : Lease SlotPipe} (hc : s.dispatch.calls i = some c)
    (hl : c.phase.lease = some l) : l.connection ≠ p := by
  rintro rfl
  obtain ⟨hname, hg⟩ := f.connection_named h.2
  have hheld := (f.held_named hc (Phase.held_of_lease hl)).1
  obtain rfl : w = l.workerId := by
    rw [hheld] at hname
    exact (congrArg Prod.fst hname).symm
  refine f.exclusive.idle i l ?_ h.1 ?_
  · simp [Dispatch.view, hc, hl]
  · simpa [Dispatch.view, hheld] using hg

theorem Quiescent.offered (q : s.Quiescent p) (f : s.Facts cfg) {w : String} (h : s.Offered w p) :
    s.flight p = [] := by
  refine q.idle ?_ fun i c l hc hl => f.offered_free h hc hl
  have hw : p.1 = w := congrArg Prod.fst (f.connection_named h.2).1
  rw [hw]
  exact h.2

/-- What a waiting call finds on its pipe is the completion of its own assignment. -/
theorem Quiescent.first {l : Lease SlotPipe} (q : s.Quiescent l.connection) (f : s.Facts cfg)
    {i : Nat} {c : ExecuteCall SlotPipe} {x : BrokerMessage} {rest : List BrokerMessage}
    (hc : s.dispatch.calls i = some c) (hphase : c.phase = .waitRecv l)
    (hpipe : (s.pipes l.connection).toBroker = x :: rest) :
    ∃ m, x = .completion m ∧ inspectCompletion c.attempt c.executionId x = .completion m := by
  obtain ⟨m, rfl, hid, done, -⟩ := q.head f hc hphase rfl hpipe
  obtain ⟨j, d, k, hd, -, -, hid', htask⟩ := f.completed_origin done
  obtain rfl := f.traced.fresh j i d c hd hc (hid'.symm.trans hid)
  obtain rfl : c = d := by simpa [hc] using hd
  exact ⟨m, rfl, by simp [inspectCompletion, htask, hid]⟩

/-- Nothing of any call is on the pipe or with its executor. -/
structure Vacant (s : ProcessRuntime) (p : SlotPipe) : Prop where
  unread : ∀ a, .assignment a ∉ (s.pipes p).toExecutor
  inHand : ∀ e, s.executors p = some e → ∀ a r, e.phase ≠ .executing a ∧ e.phase ≠ .sending a r
  undelivered : ∀ m, .completion m ∉ (s.pipes p).toBroker

theorem vacant_of_flight {p : SlotPipe} (hp : (s.executors p).isSome) (h : s.flight p = []) :
    s.Vacant p := by
  obtain ⟨e, he⟩ := Option.isSome_iff_exists.mp hp
  simp only [flight, he, Executor.flight, List.append_eq_nil_iff] at h
  obtain ⟨hback, hhand, hunread⟩ := h
  refine ⟨fun a ha => ?_, fun d hd a r => ?_, fun m hm => ?_⟩
  · have : a.executionId ∈ (s.pipes p).unread :=
      List.mem_flatMap.mpr ⟨_, ha, List.mem_singleton_self _⟩
    simp [hunread] at this
  · obtain rfl : e = d := by simpa [he] using hd
    constructor <;> intro hphase <;> simp [hphase, ExecutorPhase.inHand] at hhand
  · have : m.executionId ∈ (s.pipes p).undelivered :=
      List.mem_flatMap.mpr ⟨_, hm, List.mem_singleton_self _⟩
    simp [hback] at this

/-- The result of another call's assignment is never what settles a call. -/
def Settled (s : ProcessRuntime) : Prop :=
  ∀ i c l o, s.dispatch.calls i = some c → c.phase.outcome = some (l, o) →
    (∃ m, o = .completion m) ∨ o = .exited ∨ o = .brokenPipe ∨ o = .deadline

theorem Settled.step (h : s.Settled) (q : ∀ p, s.Quiescent p) (f : s.Facts cfg)
    {timeout : Option Nat} {a : RuntimeAction} (st : Step timeout s a t) : t.Settled := by
  intro i c' l o hc' ho
  rcases st.call_origin hc' with hc | ⟨attempt, executionId, -, -, rfl⟩ |
    ⟨c, x, b', hc, hcall, hrecv⟩
  · exact h i c' l o hc ho
  · cases ho
  · obtain ho | ⟨m, rfl, hphase, rfl⟩ | ⟨-, -, rfl⟩ | ⟨-, -, rfl⟩ | ⟨-, -, rfl⟩ := hcall.outcome ho
    · exact h i c l o hc ho
    · obtain ⟨rest, hpipe⟩ := List.head?_eq_some_iff.mp (hrecv m l rfl hphase)
      obtain ⟨r, -, own⟩ := (q l.connection).first f hc hphase hpipe
      exact .inl ⟨r, own⟩
    · exact .inr (.inl rfl)
    · exact .inr (.inr (.inr rfl))
    · exact .inr (.inr (.inl rfl))

/-- A slot that can be leased has a vacant pipe, a waiting call reads the completion of
its own assignment, and no call fails for the completion of another. -/
theorem offered_pipe_vacant (h : (processRuntime cfg).Guarded Clean s) :
    (∀ w p, s.Offered w p → s.Vacant p) ∧
      (∀ i c l x rest, s.dispatch.calls i = some c → c.phase = .waitRecv l →
        (s.pipes l.connection).toBroker = x :: rest →
          ∃ m, x = .completion m ∧ inspectCompletion c.attempt c.executionId x = .completion m) ∧
      s.Settled := by
  have facts : ∀ {s}, (processRuntime cfg).Guarded Clean s → s.Facts cfg := fun hs =>
    facts (hs.mono fun _ _ ok => ok.serial)
  refine ⟨fun w p hw => ?_, ?_, ?_⟩
  · have f := facts h
    refine vacant_of_flight ?_ ((quiescent_of_clean h p).offered f hw)
    exact (f.origin_named (f.announced.connected w _ p hw.2 (f.connection_named hw.2).2)).2
  · exact fun i c l x rest hc hphase hpipe =>
      (quiescent_of_clean h l.connection).first (facts h) hc hphase hpipe
  · refine h.invariant (P := Settled) ?_ ?_
    · rintro _ rfl i c l o hc
      simp [ProcessRuntime.start, Dispatch.start] at hc
    · exact fun s a t hs settled _ hst =>
        settled.step (quiescent_of_clean hs) (facts hs) (step_inv hst)

/-! ## A slot served, and one left with an assignment -/

theorem offered_pipe_vacant_served : ∃ s : ProcessRuntime,
    (processRuntime oneWorker).Guarded Clean s ∧ s.Offered "w" ("w", 1) ∧ s.Vacant ("w", 1) := by
  have begun_clean : (processRuntime oneWorker).Guarded Clean begun :=
    .step (.begin 0 someAttempt "e0") (.init rfl) ⟨begin_serial, by simp [NothingLeft]⟩ rfl
  have run := guarded_of_alone begun_clean begun_alone servedSchedule (by simp [servedSchedule])
    fun a ha s serial => ⟨serial, fun p i c l hi => absurd (hi ▸ ha) (by simp [servedSchedule])⟩
  have offered : ((processRuntime oneWorker).follow begun servedSchedule).Offered "w" ("w", 1) :=
    ⟨by decide, rfl⟩
  exact ⟨_, run, offered, (offered_pipe_vacant run).1 "w" ("w", 1) offered⟩

/-- One worker id, and a completion timeout. -/
def timedWorker : ProcessRuntimeConfig := { oneWorker with completionTimeoutSeconds := some 1 }

/-- Call 0 gives up while the executor has not read its assignment. -/
def timeoutSchedule : List RuntimeAction :=
  .begin 0 someAttempt "e0" ::
    [.drained, .getSlot, .lockLease, .sendOk, .drained, .checkExited, .deadline, .drained,
      .lockRelease].map (.call 0)

/-- Call 1 is served next. -/
def shiftedSchedule : List RuntimeAction :=
  .begin 1 { someAttempt with taskId := "next" } "e1" ::
    [.drained, .getSlot, .lockLease, .sendOk].map (.call 1) ++
    [.test, .poll true, .recv, .finish (completedResult []), .sendOk].map (.executor ("w", 1)) ++
    [.call 1 .drained, .call 1 .checkExited, .call 1 (.poll true), .receive 1]

/-- After a timeout the slot is offered with the old assignment on its pipe, and the next
call fails for the completion of that. -/
theorem offered_pipe_not_vacant : ∃ s t : ProcessRuntime,
    (processRuntime timedWorker).Reachable s ∧ s.Offered "w" ("w", 1) ∧ ¬ s.Vacant ("w", 1) ∧
      (processRuntime timedWorker).Reachable t ∧ ∃ l,
        (t.dispatch.calls 1).map (·.phase) = some (.releaseDrain l (.otherTask "task")) := by
  have first : (processRuntime timedWorker).Reachable
      ((processRuntime timedWorker).follow (.start timedWorker) timeoutSchedule) :=
    Machine.Reachable.follow rfl
  refine ⟨_, _, first, ⟨by decide, rfl⟩, fun vacant => ?_,
    Machine.Guarded.follow first shiftedSchedule fun _ _ _ => trivial, ⟨"w", 1, "w", 1⟩, rfl⟩
  exact vacant.unread _ (List.mem_singleton_self _)

end ProcessRuntime

end Perago.ConductorRuntime
