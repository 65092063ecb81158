import Perago.ConductorRuntime.Quiescence

/-!
# Delivered completions

A completion that the executor of a leased pipe has sent is what the call
returns, unless the call first found its generation exited, or a completion
deadline passed on the pipe. An exit report is looked at before the pipe, so the
first exception is real.
-/

namespace Perago.ConductorRuntime

open Perago.Transition

/-- Every execution id an executor ever had: sent, in hand or not yet read. -/
def Executor.history (e : Executor) (p : Pipe) : List String :=
  e.sent.map ProcessTaskCompletion.executionId ++ (e.phase.inHand ++ p.unread)

theorem ExecutorStep.history {p p' : Pipe} {e e' : Executor} {a : ExecutorAction}
    (h : ExecutorStep p e a p' e') : (e'.history p').Sublist (e.history p) := by
  have dropped : ∀ sent hand : List String,
      (sent ++ ([] ++ p.unread)).Sublist (sent ++ (hand ++ p.unread)) := by
    intro sent hand
    exact List.Sublist.append_left (List.Sublist.append_right (List.nil_sublist _) _) _
  cases h with
  | sendBroken b r | crash => exact dropped _ _
  | poll ready hp => cases ready <;> simp [Executor.history, ExecutorPhase.inHand, hp]
  | broken hp => rcases hp with hp | hp <;> simp [Executor.history, ExecutorPhase.inHand, hp]
  | consume b rest hp hpipe | stop rest hp hpipe | skip rest hp hpipe =>
    simp [Executor.history, Pipe.unread, ExecutorPhase.inHand, hp, hpipe,
      ExecutorMessage.executionIds]
  | sendOk b r hp => simp [Executor.history, Pipe.unread, ExecutorPhase.inHand, hp, completionOf]
  | signal => exact List.Sublist.refl _
  | shutdown hp | enter hp | finish b r hp | exit hp =>
    simp [Executor.history, ExecutorPhase.inHand, hp]

namespace ProcessRuntime

variable {cfg : ProcessRuntimeConfig} {s t : ProcessRuntime} {p : SlotPipe}
variable {timeout : Option Nat} {a : RuntimeAction}

def history (s : ProcessRuntime) (p : SlotPipe) : List String :=
  match s.executors p with
  | some e => e.history (s.pipes p)
  | none => []

theorem Completed.mem_history {m : ProcessTaskCompletion} (h : s.Completed p m) :
    m.executionId ∈ s.history p := by
  obtain ⟨e, he, hm⟩ := h
  simp only [history, he, Executor.history, List.mem_append, List.mem_map]
  exact .inl ⟨m, hm, rfl⟩

/-- A sent completion is the completion of an assignment of the call with its id. -/
theorem Facts.completed_origin (f : s.Facts cfg) {m : ProcessTaskCompletion}
    (h : s.Completed p m) : ∃ i c l, s.dispatch.calls i = some c ∧ c.phase.past = some l ∧
      l.connection = p ∧ m.executionId = c.executionId ∧ m.taskId = c.attempt.taskId := by
  obtain ⟨e, he, hm⟩ := h
  have ordered := f.traced.ordered p e he
  obtain ⟨⟨a, r⟩, har, rfl⟩ := List.mem_map.mp (ordered.sent.subset hm)
  have consumed := ordered.produced.subset (List.mem_map.mpr ⟨(a, r), har, rfl⟩)
  obtain ⟨i, c, l, hc, hl, hp, rfl⟩ := f.traced.consumed p e a he consumed
  exact ⟨i, c, l, hc, hl, hp, rfl, rfl⟩

theorem Facts.history_dispatched (f : s.Facts cfg) {x : String} (hx : x ∈ s.history p) :
    ∃ i c l, s.dispatch.calls i = some c ∧ c.phase.past = some l ∧ l.connection = p ∧
      x = c.executionId := by
  cases he : s.executors p with
  | none => simp [history, he] at hx
  | some e =>
    simp only [history, he, Executor.history, List.mem_append, List.mem_map] at hx
    obtain ⟨m, hm, rfl⟩ | hx := hx
    · obtain ⟨i, c, l, hc, hl, hp, hid, -⟩ := f.completed_origin ⟨e, he, hm⟩
      exact ⟨i, c, l, hc, hl, hp, hid⟩
    · refine f.flight_dispatched ?_
      simp only [flight, he, Executor.flight, List.mem_append]
      exact .inr hx

/-- A call that has not sent its assignment is unknown to every executor. -/
theorem Facts.history_unsent (f : s.Facts cfg) {i : Nat} {c : ExecuteCall SlotPipe}
    (hc : s.dispatch.calls i = some c) (unsent : c.phase.past = none) :
    c.executionId ∉ s.history p := by
  intro hx
  obtain ⟨j, d, l, hd, hl, -, hid⟩ := f.history_dispatched hx
  obtain rfl := f.traced.fresh i j c d hc hd hid
  obtain rfl : c = d := by simpa [hc] using hd
  simp [unsent] at hl

/-! ## An execution reaches an executor once -/

theorem history_of_same {u : ProcessRuntime}
    (hpipe : (u.pipes p).toExecutor = (s.pipes p).toExecutor)
    (hexec : u.executors p = s.executors p) : (u.history p).Sublist (s.history p) := by
  simp [history, Executor.history, Pipe.unread, hpipe, hexec]

/-- A step other than a send can only lose execution ids of a pipe. -/
theorem Step.history_sublist (h : Step timeout s a t) (quiet : ∀ i, a ≠ .call i .sendOk)
    (p : SlotPipe) : (t.history p).Sublist (s.history p) := by
  cases h with
  | sent i => exact absurd rfl (quiet i)
  | received i c l m rest =>
    refine history_of_same ?_ rfl
    by_cases hp : p = l.connection
    · simp [setPipe, hp]
    · simp [setPipe, setCall, hp]
  | executor q a e e' pipe he hstep =>
    by_cases hp : p = q
    · subst hp
      simpa [ProcessRuntime.history, setPipe, he] using hstep.history
    · exact history_of_same (by simp [setPipe, hp]) (Function.update_of_ne hp ..)
  | respawned w g =>
    by_cases hp : p = (w, g + 1)
    · subst hp
      simp [ProcessRuntime.history, setSlot, spawn, Executor.history, Pipe.unread,
        ExecutorPhase.inHand]
    · exact history_of_same (by simp [setSlot, spawn, hp]) (by simp [setSlot, spawn, hp])
  | stopSent w slot =>
    by_cases hp : p = (w, slot.generation)
    · subst hp
      simp [ProcessRuntime.history, setPipe, Executor.history, Pipe.unread,
        ExecutorMessage.executionIds]
    · exact history_of_same (by simp [setPipe, hp]) rfl
  | begin | call | exitReported | startReported => exact history_of_same rfl rfl

/-- A step loses execution ids of a pipe, or adds that of the call that sends. -/
theorem Step.history (h : Step timeout s a t) (f : s.Facts cfg) (p : SlotPipe) :
    (t.history p).Sublist (s.history p) ∨
      ∃ i c l, s.dispatch.calls i = some c ∧ c.phase = .send l ∧ l.connection = p ∧
        t.history p = s.history p ++ [c.executionId] := by
  by_cases sends : ∃ i, a = .call i .sendOk
  · obtain ⟨i, rfl⟩ := sends
    cases h with
    | call _ _ c b' c' hc hsend => exact absurd rfl hsend
    | sent _ c l hc idle hphase =>
      by_cases hp : p = l.connection
      · obtain ⟨e, he⟩ := Option.isSome_iff_exists.mp
          (f.held_named hc (l := l) (by simp [hphase, Phase.held])).2
        subst hp
        refine .inr ⟨i, c, l, hc, hphase, rfl, ?_⟩
        simp [ProcessRuntime.history, setPipe, setCall, he, Executor.history, Pipe.unread,
          ExecutorMessage.executionIds, ExecuteCall.assignment]
      · exact .inl (history_of_same (by simp [setPipe, setCall, hp]) rfl)
  · exact .inl (h.history_sublist (fun i hi => sends ⟨i, hi⟩) p)

theorem Step.history_nodup (h : Step timeout s a t) (f : s.Facts cfg)
    (nodup : (s.history p).Nodup) : (t.history p).Nodup := by
  obtain hsub | ⟨i, c, l, hc, hphase, -, hist⟩ := h.history f p
  · exact nodup.sublist hsub
  · rw [hist]
    refine nodup.append (List.nodup_singleton _) (List.disjoint_singleton.mpr ?_)
    exact f.history_unsent hc (by simp [hphase, Phase.past])

theorem history_nodup (h : (processRuntime cfg).Guarded Serial s) (p : SlotPipe) :
    (s.history p).Nodup := by
  refine h.invariant (P := fun s => (s.history p).Nodup) ?_ ?_
  · rintro _ rfl
    have empty : (ProcessRuntime.start cfg).history p = [] := by
      unfold history ProcessRuntime.start
      dsimp only
      split
      · rename_i e he
        split at he <;> cases he
        rfl
      · rfl
    simp [empty]
  · exact fun s a t hs nodup _ hst => (step_inv hst).history_nodup (facts hs) nodup

/-- An executor sends one completion for one execution id. -/
theorem Completed.unique (nodup : (s.history p).Nodup) {m m' : ProcessTaskCompletion}
    (hm : s.Completed p m) (hm' : s.Completed p m') (same : m.executionId = m'.executionId) :
    m = m' := by
  obtain ⟨e, he, hm⟩ := hm
  obtain ⟨e', he', hm'⟩ := hm'
  obtain rfl : e = e' := by simpa [he] using he'
  simp only [history, he, Executor.history] at nodup
  exact List.inj_on_of_nodup_map nodup.of_append_left hm hm' same

/-! ## No completion is lost -/

/-- The pipe of the call broke before a completion was received. -/
def PipeBroke (c : ExecuteCall SlotPipe) (l : Lease SlotPipe) : Prop :=
  c.phase = .markExited l ∨ c.phase.outcome = some (l, .brokenPipe)

/-- Until a deadline passes, a call on the pipe is settled by its own completion, by
the exit check or by a broken pipe; what the executor completed for a waiting call is
still on the pipe; and for a call whose pipe broke, it completed nothing and never will. -/
structure Delivered (s : ProcessRuntime) (p : SlotPipe) : Prop where
  proper : ∀ i c l o, s.dispatch.calls i = some c → c.phase.outcome = some (l, o) →
    l.connection = p → (∃ m, o = .completion m) ∨ o = .exited ∨ o = .brokenPipe
  waiting : ∀ i c l m, s.dispatch.calls i = some c → c.phase.waiting = some l →
    l.connection = p → s.Completed p m → m.executionId = c.executionId →
      .completion m ∈ (s.pipes p).toBroker
  broken : ∀ i c l, s.dispatch.calls i = some c → PipeBroke c l → l.connection = p →
    (∀ m, s.Completed p m → m.executionId ≠ c.executionId) ∧
      (s.Gone p ∨ c.executionId ∉ s.history p)

theorem past_of_waiting {κ : Type} {q : Phase κ} {l : Lease κ} (h : q.waiting = some l) :
    q.past = some l := by
  cases q <;> simp_all [Phase.waiting, Phase.past]

theorem PipeBroke.past {c : ExecuteCall SlotPipe} {l : Lease SlotPipe} (h : PipeBroke c l) :
    c.phase.past = some l := by
  obtain h | h := h
  · simp [h, Phase.past]
  · exact Phase.past_of_outcome h

/-- A step that touches no call: completions of waiting calls go onto the pipe. -/
theorem Delivered.of_calls (d : s.Delivered p) (hcalls : t.dispatch.calls = s.dispatch.calls)
    (hgone : s.Gone p → t.Gone p) (hist : (t.history p).Sublist (s.history p))
    (kept : ∀ x ∈ (s.pipes p).toBroker, x ∈ (t.pipes p).toBroker)
    (new : ∀ m, t.Completed p m → s.Completed p m ∨
      .completion m ∈ (t.pipes p).toBroker ∧ m.executionId ∈ s.history p ∧ ¬ s.Gone p) :
    t.Delivered p := by
  refine ⟨by rw [hcalls]; exact d.proper, ?_, ?_⟩
  · rw [hcalls]
    intro i c l m hc hw hp hm hid
    obtain hm | ⟨hm, -⟩ := new m hm
    · exact kept _ (d.waiting i c l m hc hw hp hm hid)
    · exact hm
  · rw [hcalls]
    intro i c l hc hb hp
    obtain ⟨none, fate⟩ := d.broken i c l hc hb hp
    refine ⟨fun m hm hid => ?_, fate.imp hgone fun hx hmem => hx (hist.subset hmem)⟩
    obtain hm | ⟨-, hmem, alive⟩ := new m hm
    · exact none m hm hid
    · obtain gone | hx := fate
      · exact alive gone
      · exact hx (hid ▸ hmem)

/-- How the pipe of a call comes to be broken. -/
theorem PipeBroke.arises {c c' : ExecuteCall SlotPipe} {b b' : Broker SlotPipe} {a : CallAction}
    {l : Lease SlotPipe} (broke : PipeBroke c' l) (hcall : CallStep timeout b c a b' c')
    (hrecv : ∀ m, a ≠ .recv m) : PipeBroke c l ∨ c.phase.past = none ∨
      a = .recvBroken ∧ (c.phase = .waitPoll l ∨ c.phase = .waitRecv l) := by
  cases hcall with
  | handleEvent | popEvent => exact .inl broke
  | drained r _ hr =>
    obtain hb | hb := broke
    · cases hcp : c.phase <;> simp_all [Phase.drained]
    · exact .inl (.inr ((Phase.drained_past hr).2 ▸ hb))
  | sendBroken k _ hphase => exact .inr (.inl (by simp [hphase, Phase.past]))
  | recvBroken k _ hphase =>
    obtain rfl : k = l := by
      obtain hb | hb := broke
      · simpa using hb
      · simp [Phase.outcome] at hb
    exact .inr (.inr ⟨rfl, hphase⟩)
  | markExited k _ hphase =>
    obtain rfl : k = l := by
      obtain hb | hb := broke
      · simp at hb
      · simpa [Phase.outcome] using hb
    exact .inl (.inl hphase)
  | poll ready k _ hphase => cases ready <;> simp [PipeBroke, Phase.outcome] at broke
  | released k o _ hphase =>
    refine .inl (.inr ?_)
    simpa [PipeBroke, Phase.outcome, hphase] using broke
  | recv m => exact absurd rfl (hrecv m)
  | _ => simp_all [PipeBroke, Phase.outcome]

/-- A pipe at its end is empty, and nothing more comes. -/
theorem gone_of_atEof (eof : s.atEof p = true) : s.Gone p ∧ (s.pipes p).toBroker = [] := by
  simp only [atEof, Bool.and_eq_true, List.isEmpty_iff] at eof
  refine ⟨?_, eof.2⟩
  have dead := eof.1
  unfold exited at dead
  split at dead
  · rename_i e he
    split at dead
    · exact ⟨e, he, .inr (by assumption)⟩
    · cases dead
  · cases dead

/-- What settles a call anew on a pipe where no deadline has passed. -/
theorem Delivered.call {i : Nat} {a : CallAction} {c c' : ExecuteCall SlotPipe}
    {b' : Broker SlotPipe} (d : s.Delivered p) (f : s.Facts cfg)
    (hc : s.dispatch.calls i = some c) (hsend : a ≠ .sendOk) (hrecv : ∀ m, a ≠ .recv m)
    (heof : ∀ l, a = .recvBroken → c.phase = .waitPoll l ∨ c.phase = .waitRecv l →
      s.atEof l.connection = true)
    (hcall : CallStep timeout s.dispatch.broker c a b' c')
    (intime : ¬ (s.setCall i b' c').DeadlinePassed p) : (s.setCall i b' c').Delivered p := by
  have same := hcall.assignment
  simp only [ExecuteCall.assignment, ProcessTaskAssignment.mk.injEq] at same
  refine ⟨?_, ?_, ?_⟩
  · intro j e l o he ho hp
    obtain ⟨rfl, rfl⟩ | ⟨-, he⟩ := setCall_calls he
    · obtain ho | ⟨m, rfl, -⟩ | ⟨-, -, rfl⟩ | ⟨-, -, rfl⟩ | ⟨-, -, rfl⟩ := hcall.outcome ho
      · exact d.proper j c l o hc ho hp
      · exact absurd rfl (hrecv m)
      · exact .inr (.inl rfl)
      · exact absurd ⟨j, _, l, he, ho, hp⟩ intime
      · exact .inr (.inr rfl)
    · exact d.proper j e l o he ho hp
  · intro j e l m he hw hp hm hid
    obtain ⟨rfl, rfl⟩ | ⟨-, he⟩ := setCall_calls he
    · refine d.waiting j c l m hc ?_ hp hm (hid.trans same.2)
      cases hcall with
      | handleEvent | popEvent => exact hw
      | drained r _ hr => exact (Phase.drained_waiting hr).1 ▸ hw
      | poll ready k _ hphase => cases ready <;> simp_all [Phase.waiting]
      | recvBroken k => simp [Phase.waiting] at hw
      | sendOk => exact absurd rfl hsend
      | _ => simp_all [Phase.waiting]
    · exact d.waiting j e l m he hw hp hm hid
  · intro j e l he hb hp
    obtain ⟨rfl, rfl⟩ | ⟨-, he⟩ := setCall_calls he
    · rw [same.2]
      obtain was | unsent | ⟨rfl, hphase⟩ := hb.arises hcall hrecv
      · exact d.broken j c l hc was hp
      · have undispatched : c.executionId ∉ s.history p := f.history_unsent hc unsent
        exact ⟨fun m hm hid => undispatched (hid ▸ Completed.mem_history hm), .inr undispatched⟩
      · have eof := heof l rfl hphase
        rw [hp] at eof
        obtain ⟨gone, empty⟩ := gone_of_atEof eof
        have waiting : c.phase.waiting = some l := by
          rcases hphase with hphase | hphase <;> simp [hphase, Phase.waiting]
        refine ⟨fun m hm hid => ?_, .inl gone⟩
        have := d.waiting j c l m hc waiting hp hm hid
        simp [empty] at this
    · exact d.broken j e l he hb hp

/-- A dispatch adds only its own execution id to a history. -/
theorem Step.history_of_past (h : Step timeout s a t) (f : s.Facts cfg) {i : Nat}
    {c : ExecuteCall SlotPipe} (hc : s.dispatch.calls i = some c) (past : c.phase.past ≠ none)
    (hx : c.executionId ∉ s.history p) : c.executionId ∉ t.history p := by
  obtain hsub | ⟨j, d, l, hd, hphase, -, hist⟩ := h.history f p
  · exact fun hmem => hx (hsub.subset hmem)
  · rw [hist, List.mem_append, List.mem_singleton, not_or]
    refine ⟨hx, fun hid => ?_⟩
    obtain rfl := f.traced.fresh i j c d hc hd hid
    obtain rfl : c = d := by simpa [hc] using hd
    simp [hphase, Phase.past] at past

theorem Delivered.sent {i : Nat} {c : ExecuteCall SlotPipe} {l : Lease SlotPipe}
    (d : s.Delivered p) (f : s.Facts cfg) (hc : s.dispatch.calls i = some c)
    (idle : c.event = none) (hphase : c.phase = .send l) :
    Delivered ((s.setCall i s.dispatch.broker { c with phase := .waitDrain l }).setPipe l.connection
      { s.pipes l.connection with
        toExecutor := (s.pipes l.connection).toExecutor ++ [.assignment c.assignment] }) p := by
  have st : Step (some 0) s _ _ := .sent i c l hc idle hphase
  have unsent : c.executionId ∉ s.history p :=
    f.history_unsent hc (by simp [hphase, Phase.past])
  set u := (s.setCall i s.dispatch.broker { c with phase := .waitDrain l }).setPipe l.connection
    { s.pipes l.connection with
      toExecutor := (s.pipes l.connection).toExecutor ++ [.assignment c.assignment] }
  have toBroker : (u.pipes p).toBroker = (s.pipes p).toBroker := by
    by_cases hp : p = l.connection
    · simp [u, setPipe, hp]
    · simp [u, setPipe, setCall, hp]
  refine ⟨?_, ?_, ?_⟩
  · intro j e k o he ho hp
    obtain ⟨rfl, rfl⟩ | ⟨-, he⟩ := setCall_calls he
    · cases ho
    · exact d.proper j e k o he ho hp
  · intro j e k m he hw hp hm hid
    rw [toBroker]
    obtain ⟨rfl, rfl⟩ | ⟨-, he⟩ := setCall_calls he
    · exact absurd (hid ▸ Completed.mem_history (s := s) hm) unsent
    · exact d.waiting j e k m he hw hp hm hid
  · intro j e k he hb hp
    obtain ⟨rfl, rfl⟩ | ⟨hj, he⟩ := setCall_calls he
    · simp [PipeBroke, Phase.outcome] at hb
    · obtain ⟨never, fate⟩ := d.broken j e k he hb hp
      exact ⟨never, fate.imp_right (st.history_of_past f he (by simp [hb.past]))⟩

theorem inspectCompletion_own {attempt : ConductorTaskAttempt} {m : ProcessTaskCompletion}
    {executionId : String} (htask : m.taskId = attempt.taskId)
    (hexec : m.executionId = executionId) :
    inspectCompletion attempt executionId (.completion m) = .completion m := by
  simp [inspectCompletion, htask, hexec]

theorem inspectCompletion_ne_brokenPipe {attempt : ConductorTaskAttempt} {executionId : String}
    {x : BrokerMessage} : inspectCompletion attempt executionId x ≠ .brokenPipe := by
  unfold inspectCompletion
  split
  · simp
  · split
    · simp
    · split <;> simp

theorem Delivered.received {i : Nat} {c : ExecuteCall SlotPipe} {l : Lease SlotPipe}
    {x : BrokerMessage} {rest : List BrokerMessage} (d : s.Delivered p) (q : s.Quiescent p)
    (f : s.Facts cfg) (hc : s.dispatch.calls i = some c) (idle : c.event = none)
    (hphase : c.phase = .waitRecv l) (hpipe : (s.pipes l.connection).toBroker = x :: rest) :
    Delivered ((s.setCall i s.dispatch.broker
      { c with phase := .releaseDrain l (inspectCompletion c.attempt c.executionId x) }).setPipe
        l.connection { s.pipes l.connection with toBroker := rest }) p := by
  have st : Step (some 0) s _ _ := .received i c l x rest hc idle hphase hpipe
  have lease : c.phase.lease = some l := by simp [hphase, Phase.lease]
  set u := (s.setCall i s.dispatch.broker
    { c with phase := .releaseDrain l (inspectCompletion c.attempt c.executionId x) }).setPipe
      l.connection { s.pipes l.connection with toBroker := rest }
  refine ⟨?_, ?_, ?_⟩
  · intro j e k o he ho hp
    obtain ⟨rfl, rfl⟩ | ⟨-, he⟩ := setCall_calls he
    · simp only [Phase.outcome, Option.some.injEq, Prod.mk.injEq] at ho
      obtain ⟨rfl, rfl⟩ := ho
      -- the pipe was quiescent, so the message is the call's own completion
      obtain ⟨m, rfl, hid, done, -⟩ := q.head f hc hphase hp (hp ▸ hpipe)
      obtain ⟨k, e, _, he, -, -, hid', htask⟩ := f.completed_origin done
      obtain rfl := f.traced.fresh j k c e hc he (hid.symm.trans hid')
      obtain rfl : c = e := by simpa [hc] using he
      exact .inl ⟨m, inspectCompletion_own htask hid⟩
    · exact d.proper j e k o he ho hp
  · intro j e k m he hw hp hm hid
    obtain ⟨rfl, rfl⟩ | ⟨hj, he⟩ := setCall_calls he
    · cases hw
    · have other : p ≠ l.connection := fun heq =>
        hj (f.lease_unique he (Phase.lease_of_waiting hw) hc lease (hp.trans heq))
      simpa [u, setPipe, setCall, other] using d.waiting j e k m he hw hp hm hid
  · intro j e k he hb hp
    obtain ⟨rfl, rfl⟩ | ⟨-, he⟩ := setCall_calls he
    · simp [PipeBroke, Phase.outcome, inspectCompletion_ne_brokenPipe] at hb
    · obtain ⟨never, fate⟩ := d.broken j e k he hb hp
      exact ⟨never, fate.imp_right (st.history_of_past f he (by simp [hb.past]))⟩

/-- Sending is the only way an executor completes anything. -/
theorem executor_completed {pipe pipe' : Pipe} {e e' : Executor} {x : ExecutorAction}
    {m : ProcessTaskCompletion} (h : ExecutorStep pipe e x pipe' e') (hm : m ∈ e'.sent) :
    m ∈ e.sent ∨ .completion m ∈ pipe'.toBroker ∧ m.executionId ∈ e.history pipe ∧ ¬ e.Gone := by
  cases h with
  | sendOk b r hp =>
    refine (List.mem_append.mp hm).imp_right fun hm => ?_
    obtain rfl := List.mem_singleton.mp hm
    refine ⟨by simp, ?_, by simp [Executor.Gone, hp]⟩
    simp [Executor.history, hp, ExecutorPhase.inHand, completionOf]
  | _ => exact .inl hm

theorem executor_toBroker {pipe pipe' : Pipe} {e e' : Executor} {x : ExecutorAction}
    (h : ExecutorStep pipe e x pipe' e') : ∀ y ∈ pipe.toBroker, y ∈ pipe'.toBroker := by
  cases h with
  | sendOk b r hp => exact fun y hy => List.mem_append_left _ hy
  | _ => exact fun y hy => hy

theorem Delivered.step (d : s.Delivered p) (q : s.Quiescent p) (f : s.Facts cfg)
    (st : Step timeout s a t) (intime : ¬ t.DeadlinePassed p) : t.Delivered p := by
  have gone := st.gone f.traced (p := p)
  have hist := fun quiet => st.history_sublist quiet p
  cases st with
  | begin i attempt executionId hnone =>
    have old : ∀ {j e l}, Function.update s.dispatch.calls i (some { attempt, executionId }) j =
        some e → e.phase.past = some l → s.dispatch.calls j = some e := by
      intro j e l he hl
      by_cases hj : j = i
      · subst hj
        simp only [Function.update_self, Option.some.injEq] at he
        subst he
        cases hl
      · simpa [hj] using he
    exact ⟨fun j e l o he ho => d.proper j e l o (old he (Phase.past_of_outcome ho)) ho,
      fun j e l m he hw => d.waiting j e l m (old he (past_of_waiting hw)) hw,
      fun j e l he hb => d.broken j e l (old he hb.past) hb⟩
  | call i a c b' c' hc hsend hcall hrecv heof => exact d.call f hc hsend hrecv heof hcall intime
  | sent i c l hc idle hphase => exact d.sent f hc idle hphase
  | received i c l m rest hc idle hphase hpipe => exact d.received q f hc idle hphase hpipe
  | executor r x e e' pipe he hstep =>
    refine d.of_calls rfl gone (hist (by simp)) ?_ ?_
    · by_cases hp : p = r
      · subst hp
        simpa [setPipe] using executor_toBroker hstep
      · simp [setPipe, hp]
    · rintro m ⟨e'', he'', hm⟩
      by_cases hp : p = r
      · subst hp
        simp only [Function.update_self, Option.some.injEq] at he''
        subst he''
        obtain hm | ⟨hmem, hid, alive⟩ := executor_completed hstep hm
        · exact .inl ⟨e, he, hm⟩
        · refine .inr ⟨by simpa [setPipe] using hmem,
            by simpa [ProcessRuntime.history, he] using hid, ?_⟩
          rintro ⟨e₀, he₀, hgone⟩
          obtain rfl : e = e₀ := by simpa [he] using he₀
          exact alive hgone
      · exact .inl ⟨e'', by simpa [hp] using he'', hm⟩
  | exitReported w g code hslot hexit =>
    exact d.of_calls rfl gone (hist (by simp)) (fun _ hx => hx) fun m hm => .inl hm
  | startReported w g hslot =>
    exact d.of_calls rfl gone (hist (by simp)) (fun _ hx => hx) fun m hm => .inl hm
  | respawned w g hslot =>
    refine d.of_calls rfl gone (hist (by simp)) ?_ ?_
    · intro x hx
      by_cases hp : p = (w, g + 1)
      · -- the pipe is new: nothing was ever on it
        subst hp
        obtain ⟨m, -, e, he, -⟩ := f.traced.delivered _ x hx
        obtain ⟨slot, hslot', hle⟩ := f.traced.spawned _ e he
        obtain rfl : slot = ⟨g, .exitReported⟩ := by simpa [hslot] using hslot'.symm
        simp at hle
      · simpa [setSlot, spawn, hp] using hx
    · rintro m ⟨e, he, hm⟩
      by_cases hp : p = (w, g + 1)
      · subst hp
        obtain rfl : e = {} := by simpa [setSlot, spawn] using he.symm
        cases hm
      · exact .inl ⟨e, by simpa [setSlot, spawn, hp] using he, hm⟩
  | stopSent w slot hslot =>
    refine d.of_calls rfl gone (hist (by simp)) ?_ fun m hm => .inl hm
    by_cases hp : p = (w, slot.generation)
    · subst hp
      simp [setPipe]
    · simp [setPipe, hp]

theorem delivered (h : (processRuntime cfg).Guarded Serial s) (p : SlotPipe)
    (intime : ¬ s.DeadlinePassed p) : s.Delivered p := by
  refine h.invariant (P := fun s => ¬ s.DeadlinePassed p → s.Delivered p) ?_ ?_ intime
  · rintro _ rfl _
    refine ⟨?_, ?_, ?_⟩ <;> simp [ProcessRuntime.start, Dispatch.start]
  · intro s a t hs d _ hst intime
    have st := step_inv hst
    have before : ¬ s.DeadlinePassed p := fun passed => intime (passed.step st)
    exact (d before).step (quiescent hs p before) (facts hs) st intime

/-! ## What a call returns when its completion was sent -/

/-- If the executor of its pipe sent a completion with its execution id, a call returns
that completion, or it found its generation exited, or a deadline passed on the pipe. -/
theorem sent_completion_returned (h : (processRuntime cfg).Guarded Serial s) {i : Nat}
    {c : ExecuteCall SlotPipe} {l : Lease SlotPipe} {o : Outcome} {e : Executor}
    {m : ProcessTaskCompletion} (hc : s.dispatch.calls i = some c)
    (hret : c.phase = .returned l o) (he : s.executors l.connection = some e) (hm : m ∈ e.sent)
    (hexec : m.executionId = c.executionId) :
    o = .completion m ∨ o = .exited ∨ s.DeadlinePassed l.connection := by
  by_cases intime : s.DeadlinePassed l.connection
  · exact .inr (.inr intime)
  have outcome : c.phase.outcome = some (l, o) := by simp [hret, Phase.outcome]
  have done : s.Completed l.connection m := ⟨e, he, hm⟩
  have d := delivered h l.connection intime
  obtain ⟨m', rfl⟩ | rfl | rfl := d.proper i c l o hc outcome rfl
  · obtain ⟨-, hid, done'⟩ := (facts h).traced.settled i c l m' hc outcome
    left
    rw [done.unique (history_nodup h _) done' (hexec.trans hid.symm)]
  · exact .inr (.inl rfl)
  · exact absurd hexec ((d.broken i c l hc (.inr outcome) rfl).1 m done)

/-- Only call `i` has begun. -/
def Alone (i : Nat) (s : ProcessRuntime) : Prop := ∀ j, j ≠ i → s.dispatch.calls j = none

/-- A schedule of one call is a run without stale releases. -/
theorem guarded_of_alone {ok : ProcessRuntime → RuntimeAction → Prop} {i : Nat}
    (h : (processRuntime cfg).Guarded ok s) (hs : Alone i s) (l : List RuntimeAction)
    (quiet : ∀ a ∈ l, ∀ j attempt executionId, a ≠ .begin j attempt executionId)
    (serial : ∀ a ∈ l, ∀ s, Serial s a → ok s a) :
    (processRuntime cfg).Guarded ok ((processRuntime cfg).follow s l) := by
  refine h.follow_of hs l ?_ ?_
  · intro a ha s alone
    refine serial a ha s ⟨fun j attempt executionId hj =>
      absurd hj (quiet a ha j attempt executionId), ?_⟩
    rintro j - ⟨k, x, y, hk, hx, hne, -⟩
    have running : ∀ {n z}, s.dispatch.view.leaseOf n = some z → n = i := by
      intro n z hn
      by_contra hni
      simp [Dispatch.view, alone n hni] at hn
    exact hne ((running hx).trans (running hk).symm)
  · intro a ha s t alone hst j hj
    cases hc : t.dispatch.calls j with
    | none => rfl
    | some c =>
      rcases (step_inv hst).call_origin hc with hc | ⟨attempt, executionId, hb, -⟩ |
        ⟨c₀, -, -, hc₀, -⟩
      · simp [alone j hj] at hc
      · exact absurd hb (quiet a ha j attempt executionId)
      · simp [alone j hj] at hc₀

/-- The state in which call 0 has just begun. -/
def begun : ProcessRuntime := (processRuntime oneWorker).follow (.start oneWorker)
  [.begin 0 someAttempt "e0"]

theorem begin_serial : (ProcessRuntime.start oneWorker).Serial (.begin 0 someAttempt "e0") := by
  refine ⟨?_, by simp⟩
  intro i attempt executionId _ j c hj
  simp [ProcessRuntime.start, Dispatch.start] at hj

theorem begun_alone : Alone 0 begun := by
  intro j hj
  have calls : begun.dispatch.calls = Function.update (fun _ => none) 0
      (some { attempt := someAttempt, executionId := "e0" }) := rfl
  rw [calls, Function.update_of_ne hj]

/-- A schedule that call 0 alone follows from its begin on. -/
theorem serial_schedule (l : List RuntimeAction)
    (quiet : ∀ a ∈ l, ∀ j attempt executionId, a ≠ .begin j attempt executionId) :
    (processRuntime oneWorker).Guarded Serial ((processRuntime oneWorker).follow begun l) :=
  guarded_of_alone (.step (.begin 0 someAttempt "e0") (.init rfl) begin_serial rfl) begun_alone l
    quiet fun _ _ _ serial => serial

theorem sent_completion_returned_served :
    ∃ s : ProcessRuntime, (processRuntime oneWorker).Guarded Serial s ∧
      ∃ o m, (s.dispatch.calls 0).map (·.phase) = some (.returned ⟨"w", 1, "w", 1⟩ o) ∧
        s.Completed ("w", 1) m ∧ m.executionId = "e0" ∧
          (o = .completion m ∨ o = .exited ∨ s.DeadlinePassed ("w", 1)) := by
  have run := serial_schedule servedSchedule (by simp [servedSchedule])
  refine ⟨_, run, .completion ⟨"task", "e0", completedResult []⟩,
    ⟨"task", "e0", completedResult []⟩,
    rfl, ⟨_, rfl, List.mem_singleton_self _⟩, rfl, ?_⟩
  exact sent_completion_returned run (i := 0) (l := ⟨"w", 1, "w", 1⟩) rfl rfl rfl
    (List.mem_singleton_self _) rfl

/-- Call 0 is dispatched and completed, but its executor exits before the broker
reads the completion, and the exit report is handled first. -/
def exitedSchedule : List RuntimeAction :=
  [.drained, .getSlot, .lockLease, .sendOk].map (.call 0) ++
    [.test, .poll true, .recv, .finish (completedResult []), .sendOk, .crash].map
      (.executor ("w", 1)) ++
    [.reportExit "w" (some 1)] ++
    [.popEvent, .handleEvent, .drained, .checkExited, .drained, .lockRelease].map (.call 0)

theorem sent_completion_thrown_away :
    ∃ s : ProcessRuntime, (processRuntime oneWorker).Guarded Serial s ∧
      ∃ c l e m, s.dispatch.calls 0 = some c ∧ c.phase = .returned l .exited ∧
        s.executors l.connection = some e ∧ m ∈ e.sent ∧ m.taskId = c.attempt.taskId ∧
          m.executionId = c.executionId ∧ ∀ maxLength,
            Outcome.exited.result l.workerId c.attempt c.executionId maxLength ≠ m.result := by
  have run := serial_schedule exitedSchedule (by simp [exitedSchedule])
  refine ⟨_, run, _, ⟨"w", 1, "w", 1⟩, _, ⟨"task", "e0", completedResult []⟩, rfl, rfl, rfl,
    List.mem_singleton_self _, rfl, rfl, fun maxLength same => ?_⟩
  have status : TaskResultStatus.failed = .completed := congrArg RuntimeTaskResult.status same
  cases status

end ProcessRuntime

end Perago.ConductorRuntime
