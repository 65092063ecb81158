import Mathlib.Algebra.Order.Group.Nat
import Mathlib.Algebra.Order.Ring.Int
import Mathlib.Data.List.Count
import Perago.Transition.Machine

/-!
# The thread worker

`PeragoThreadWorker` as a machine. Any number of `execute` calls run concurrently.
What a call does under the lock is one step; the write of the gauge is another, after
the lock is released. The counter is always right, and the gauge is as old as the
update whose value is written last.
-/

namespace Perago.ConductorRuntime

open Perago.Transition

/-! ## One call -/

/-- Where a call of `execute` is. A call that is recording has read its value under the lock. -/
inductive ThreadCall where
  | starting
  | recordingIncrement (value : Int)
  | executing
  /-- `execute_polled_task` has returned or raised, and the `finally` clause has the lock to
  wait for. -/
  | finishing (raised : Bool)
  | recordingDecrement (value : Int) (raised : Bool)
  | ended (raised : Bool)
  deriving DecidableEq

namespace ThreadCall

/-- The call is inside `execute_polled_task`. -/
def isExecuting : ThreadCall → Bool
  | executing => true
  | _ => false

/-- The call has counted itself in and not out. -/
def isCounted : ThreadCall → Bool
  | recordingIncrement _ | executing | finishing _ => true
  | _ => false

/-- An increment and its record, or a decrement and its record, are in progress. -/
def inPair : ThreadCall → Bool
  | recordingIncrement _ | finishing _ | recordingDecrement _ _ => true
  | _ => false

def isEnded : ThreadCall → Bool
  | ended _ => true
  | _ => false

/-- The value that the call is about to record. -/
def pending : ThreadCall → Option Int
  | recordingIncrement value | recordingDecrement value _ => some value
  | _ => none

end ThreadCall

/-! ## Runs -/

/-- The counter, the last value recorded for `busy_slots`, and the calls in the order in
which they came. -/
structure ThreadWorker where
  activeCount : Int
  busySlots : Int
  calls : List ThreadCall
  deriving DecidableEq

inductive ThreadAction where
  | call
  /-- The lines before the counter raise. -/
  | fail (i : Nat)
  | increment (i : Nat)
  | record (i : Nat)
  | finish (i : Nat) (raised : Bool)
  | decrement (i : Nat)
  deriving DecidableEq

namespace ThreadWorker

def setCall (s : ThreadWorker) (i : Nat) (c : ThreadCall) : ThreadWorker :=
  { s with calls := s.calls.set i c }

def step (s : ThreadWorker) : ThreadAction → Option ThreadWorker
  | .call => some { s with calls := s.calls ++ [.starting] }
  | .fail i => match s.calls[i]? with
    | some .starting => some (s.setCall i (.ended true))
    | _ => none
  | .increment i => match s.calls[i]? with
    | some .starting =>
      let value := s.activeCount + 1
      some { s.setCall i (.recordingIncrement value) with activeCount := value }
    | _ => none
  | .record i => match s.calls[i]? with
    | some (.recordingIncrement value) =>
      some { s.setCall i .executing with busySlots := value }
    | some (.recordingDecrement value raised) =>
      some { s.setCall i (.ended raised) with busySlots := value }
    | _ => none
  | .finish i raised => match s.calls[i]? with
    | some .executing => some (s.setCall i (.finishing raised))
    | _ => none
  | .decrement i => match s.calls[i]? with
    | some (.finishing raised) =>
      let value := s.activeCount - 1
      some { s.setCall i (.recordingDecrement value raised) with activeCount := value }
    | _ => none

/-- `__init__` records a zero. -/
def initial : ThreadWorker := { activeCount := 0, busySlots := 0, calls := [] }

/-- No pair is in progress. -/
def Settled (s : ThreadWorker) : Prop := ∀ c ∈ s.calls, c.inPair = false

/-- How many calls are inside `execute_polled_task`. -/
def executing (s : ThreadWorker) : Nat := s.calls.countP ThreadCall.isExecuting

/-- A settled gauge shows how many calls execute; it is zero when all have returned. -/
structure ShowsTruth (s : ThreadWorker) : Prop where
  settled : s.Settled → s.busySlots = s.executing
  ended : (∀ c ∈ s.calls, c.isEnded) → s.busySlots = 0

/-- A record with no other pair in progress writes the value that the counter still has. -/
def InTime (s : ThreadWorker) : ThreadAction → Prop
  | .record i => ∀ c, s.calls[i]? = some c → ∀ value ∈ c.pending,
    (∀ (j : Nat) d, s.calls[j]? = some d → j ≠ i → d.inPair = false) → value = s.activeCount
  | _ => True

end ThreadWorker

def threadMachine : Machine ThreadWorker ThreadAction where
  init s := s = .initial
  step := ThreadWorker.step

/-! ## What a step does -/

variable {s t : ThreadWorker} {a : ThreadAction}

/-- The call that the action moves, with the counter and the gauge after it. -/
inductive ThreadStep (s : ThreadWorker) :
    ThreadAction → Nat → ThreadCall → ThreadCall → Int → Int → Prop where
  | fail (i : Nat) : ThreadStep s (.fail i) i .starting (.ended true) s.activeCount s.busySlots
  | increment (i : Nat) : ThreadStep s (.increment i) i .starting
      (.recordingIncrement (s.activeCount + 1)) (s.activeCount + 1) s.busySlots
  | recordIncrement (i : Nat) (value : Int) :
      ThreadStep s (.record i) i (.recordingIncrement value) .executing s.activeCount value
  | recordDecrement (i : Nat) (value : Int) (raised : Bool) :
      ThreadStep s (.record i) i (.recordingDecrement value raised) (.ended raised)
        s.activeCount value
  | finish (i : Nat) (raised : Bool) : ThreadStep s (.finish i raised) i .executing
      (.finishing raised) s.activeCount s.busySlots
  | decrement (i : Nat) (raised : Bool) : ThreadStep s (.decrement i) i (.finishing raised)
      (.recordingDecrement (s.activeCount - 1) raised) (s.activeCount - 1) s.busySlots

theorem threadStep_of_step (h : s.step a = some t) :
    (a = .call ∧ t = { s with calls := s.calls ++ [.starting] }) ∨
      ∃ i c d active busy, s.calls[i]? = some c ∧ ThreadStep s a i c d active busy ∧
        t = { activeCount := active, busySlots := busy, calls := s.calls.set i d } := by
  unfold ThreadWorker.step at h
  split at h
  case h_1 => exact .inl ⟨rfl, (Option.some.inj h).symm⟩
  all_goals
    right
    split at h <;> cases h <;> rename_i hi <;>
      exact ⟨_, _, _, _, _, hi, by constructor, rfl⟩

/-! ## The counter -/

/-- The counter is the number of calls that have counted themselves. -/
def ThreadWorker.CounterRight (s : ThreadWorker) : Prop :=
  s.activeCount = s.calls.countP ThreadCall.isCounted

theorem counterRight_step (hs : s.CounterRight) (h : s.step a = some t) : t.CounterRight := by
  unfold ThreadWorker.CounterRight at hs ⊢
  obtain ⟨-, rfl⟩ | ⟨i, c, d, active, busy, hi, move, rfl⟩ := threadStep_of_step h
  · simp [hs, ThreadCall.isCounted]
  · have count := countP_set ThreadCall.isCounted hi d
    cases move <;> simp [ThreadCall.isCounted] at count ⊢ <;> omega

/-- Where no pair is in progress, the calls that have counted themselves execute. -/
theorem ThreadWorker.Settled.activeCount_eq (settled : s.Settled) (hs : s.CounterRight) :
    s.activeCount = s.executing := by
  have same : s.calls.countP ThreadCall.isCounted = s.calls.countP ThreadCall.isExecuting := by
    apply List.countP_congr
    intro c hc
    have idle := settled c hc
    cases c <;> simp_all [ThreadCall.inPair, ThreadCall.isCounted, ThreadCall.isExecuting]
  rw [hs, same, ThreadWorker.executing]

theorem ThreadWorker.settled_of_ended (ended : ∀ c ∈ s.calls, c.isEnded) :
    s.Settled ∧ s.executing = 0 := by
  constructor
  · intro c hc
    have hended := ended c hc
    cases c <;> simp_all [ThreadCall.isEnded, ThreadCall.inPair]
  · apply List.countP_eq_zero.mpr
    intro c hc
    have hended := ended c hc
    cases c <;> simp_all [ThreadCall.isEnded, ThreadCall.isExecuting]

/-! ## The gauge -/

/-- The gauge shows the counter whenever no pair is in progress. -/
def ThreadWorker.GaugeFresh (s : ThreadWorker) : Prop :=
  s.Settled → s.busySlots = s.activeCount

theorem showsTruth_iff (hs : s.CounterRight) : s.ShowsTruth ↔ s.GaugeFresh := by
  constructor
  · intro truth settled
    rw [truth.settled settled, settled.activeCount_eq hs]
  · intro fresh
    have shows (settled : s.Settled) : s.busySlots = s.executing := by
      rw [fresh settled, settled.activeCount_eq hs]
    refine ⟨shows, fun ended => ?_⟩
    obtain ⟨settled, none⟩ := ThreadWorker.settled_of_ended ended
    simp [shows settled, none]

/-- The others are out of their pairs, where a call's step leaves none in progress. -/
theorem settled_set_iff {i : Nat} {c d : ThreadCall} (hi : s.calls[i]? = some c)
    (active busy : Int) :
    ThreadWorker.Settled { activeCount := active, busySlots := busy, calls := s.calls.set i d } ↔
      d.inPair = false ∧
        ∀ (j : Nat) e, s.calls[j]? = some e → j ≠ i → e.inPair = false := by
  simp only [ThreadWorker.Settled, List.mem_iff_getElem?, getElem?_set_iff hi]
  grind

theorem gaugeFresh_step (fresh : s.GaugeFresh) (inTime : s.InTime a) (h : s.step a = some t) :
    t.GaugeFresh := by
  obtain ⟨-, rfl⟩ | ⟨i, c, d, active, busy, hi, move, rfl⟩ := threadStep_of_step h
  · intro settled
    exact fresh fun c hc => settled c (by simp [hc])
  · intro settled
    obtain ⟨hd, alone⟩ := (settled_set_iff hi active busy).mp settled
    have before (hc : c.inPair = false) : s.Settled := by
      intro e he
      obtain ⟨j, hj⟩ := List.mem_iff_getElem?.mp he
      by_cases hji : j = i
      · grind
      · exact alone j e hj hji
    cases move with
    | fail => exact fresh (before rfl)
    | recordIncrement | recordDecrement => exact inTime _ hi _ rfl alone
    | increment | finish | decrement => simp [ThreadCall.inPair] at hd

theorem inTime_of_gaugeFresh (fresh : ∀ t, s.step a = some t → t.GaugeFresh) : s.InTime a := by
  cases a with
  | record i =>
    intro c hi value pending alone
    cases c with
    | recordingIncrement v =>
      obtain rfl : v = value := by simpa [ThreadCall.pending] using pending
      have next := fresh { s.setCall i .executing with busySlots := v }
        (by simp [ThreadWorker.step, hi])
      exact next ((settled_set_iff hi _ _).mpr ⟨rfl, alone⟩)
    | recordingDecrement v raised =>
      obtain rfl : v = value := by simpa [ThreadCall.pending] using pending
      have next := fresh { s.setCall i (.ended raised) with busySlots := v }
        (by simp [ThreadWorker.step, hi])
      exact next ((settled_set_iff hi _ _).mpr ⟨rfl, alone⟩)
    | _ => simp [ThreadCall.pending] at pending
  | _ => trivial

theorem meets_inTime_iff (hs : s.CounterRight) (fresh : s.GaugeFresh) (l : List ThreadAction) :
    threadMachine.Meets ThreadWorker.InTime s l ↔
      ∀ p, p <+: l → (threadMachine.follow s p).ShowsTruth := by
  induction l generalizing s with
  | nil => simpa [Machine.Meets, Machine.follow] using (showsTruth_iff hs).mpr fresh
  | cons a l ih =>
    rw [Machine.forall_follow_cons]
    have truth := (showsTruth_iff hs).mpr fresh
    cases hst : threadMachine.step s a with
    | none =>
      have off : s.InTime a := inTime_of_gaugeFresh fun t ht => by cases hst.symm.trans ht
      simp only [Machine.Meets, hst, Option.getD_none, ih hs fresh, off, truth, true_and]
    | some t =>
      have right := counterRight_step hs hst
      simp only [Machine.Meets, hst, Option.getD_some, truth, true_and]
      constructor
      · rintro ⟨inTime, rest⟩
        exact (ih right (gaugeFresh_step fresh inTime hst)).mp rest
      · intro all
        have next : t.GaugeFresh := (showsTruth_iff right).mp (all [] List.nil_prefix)
        refine ⟨inTime_of_gaugeFresh fun u hu => ?_, (ih right next).mpr all⟩
        cases hst.symm.trans hu
        exact next

/-! ## A record under the lock -/

/-- A counter moves only where no value is waiting to be recorded, as if the lock were
held until the gauge is written. -/
def ThreadWorker.Locked (s : ThreadWorker) : ThreadAction → Prop
  | .increment _ | .decrement _ => ∀ c ∈ s.calls, c.pending = none
  | _ => True

/-- Every value waiting to be recorded is the counter's. -/
def ThreadWorker.PendingCurrent (s : ThreadWorker) : Prop :=
  ∀ c ∈ s.calls, ∀ value ∈ c.pending, value = s.activeCount

theorem ThreadWorker.PendingCurrent.inTime (hs : s.PendingCurrent) : s.InTime a := by
  cases a with
  | record i => exact fun c hi value pending _ => hs c (List.mem_of_getElem? hi) value pending
  | _ => trivial

theorem pendingCurrent_step (hs : s.PendingCurrent) (locked : s.Locked a)
    (h : s.step a = some t) : t.PendingCurrent := by
  intro e he value pending
  obtain ⟨-, rfl⟩ | ⟨i, c, d, active, busy, hi, move, rfl⟩ := threadStep_of_step h
  · obtain old | rfl : e ∈ s.calls ∨ e = .starting := by simpa using he
    · exact hs e old value pending
    · simp [ThreadCall.pending] at pending
  · obtain old | rfl := List.mem_or_eq_of_mem_set he
    · cases move with
      | increment | decrement => simp [locked e old] at pending
      | _ => exact hs e old value pending
    · cases move <;> simp_all [ThreadCall.pending]

/-- A gauge written before the lock is released would always settle on the truth. -/
theorem showsTruth_of_locked (h : threadMachine.Guarded ThreadWorker.Locked s) :
    s.ShowsTruth := by
  have all : s.CounterRight ∧ s.GaugeFresh ∧ s.PendingCurrent := by
    induction h with
    | init start => cases start; simp [ThreadWorker.CounterRight, ThreadWorker.GaugeFresh,
        ThreadWorker.PendingCurrent, ThreadWorker.initial]
    | step a _ locked hst ih =>
      obtain ⟨right, fresh, current⟩ := ih
      exact ⟨counterRight_step right hst, gaugeFresh_step fresh current.inTime hst,
        pendingCurrent_step current locked hst⟩
  exact (showsTruth_iff all.1).mpr all.2.1

/-! ## Overtaken records -/

theorem busy_slots_settle_iff (l : List ThreadAction) :
    (∀ p, p <+: l → (threadMachine.follow .initial p).ShowsTruth) ↔
      threadMachine.Meets ThreadWorker.InTime .initial l := by
  apply (meets_inTime_iff _ _ l).symm
  · simp [ThreadWorker.CounterRight, ThreadWorker.initial]
  · exact fun _ => rfl

/-- Two calls count themselves and record in the opposite order, and so they do when they
return. -/
def overtaken : List ThreadAction :=
  [.call, .call, .increment 0, .increment 1, .record 1, .record 0,
    .finish 0 false, .finish 1 true, .decrement 0, .decrement 1, .record 1, .record 0]

/-- The gauge shows one slot while two calls execute, and one when both have ended. -/
theorem overtaken_gauge :
    ¬ (∀ s, threadMachine.Reachable s → s.ShowsTruth) ∧
      (threadMachine.follow .initial (overtaken.take 6)).busySlots = 1 ∧
      (threadMachine.follow .initial (overtaken.take 6)).executing = 2 ∧
      (threadMachine.follow .initial overtaken).calls = [.ended false, .ended true] ∧
      (threadMachine.follow .initial overtaken).busySlots = 1 := by
  refine ⟨fun all => ?_, by decide, by decide, by decide, by decide⟩
  have reached : threadMachine.Reachable (threadMachine.follow .initial overtaken) :=
    Machine.Reachable.follow rfl
  exact absurd ((all _ reached).ended (by decide)) (by decide)

end Perago.ConductorRuntime
