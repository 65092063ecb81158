import Mathlib.Data.Prod.Lex
import Perago.Workspace.GcRuns

/-!
# What a pass leaves and what it removes

A pass leaves the directory of an attempt whose cleanup has not begun. What is due when
it copies the tokens belongs to no attempt that is registered, so that nothing but a pass
touches it any more, and it is gone when the pass has ended.
-/

namespace Perago

open Transition

variable {ttl : Int} {w v : GcWorld} {p p' : GcPass} {d : Text} {now : Int} {action : GcAction}
variable {call : PassCall} {workspaces : Text → WorkspaceState} {a : GcAttempt}

/-! ## What is due is removed -/

def PassPhase.Active : PassPhase → Prop
  | .done | .raised => False
  | _ => True

instance : DecidablePred PassPhase.Active
  | .done | .raised => .isFalse id
  | .clocked | .listing _ _ | .visiting _ _ | .removing _ _ _ => .isTrue trivial

/-- Neither listing the markers nor reading one nor removing a directory raises an `OSError`.
The passes of one loop do not overlap. -/
def GcWorld.NoErrors (oneLoop : Bool) (w : GcWorld) : GcAction → Prop
  | .startPass => oneLoop = true → ∀ p ∈ w.passes, ¬ p.phase.Active
  | .pass _ .listFails => False
  | .pass _ (.visit osError) => osError = false
  | .pass _ (.rmtreeFails _) => False
  | _ => True

instance (oneLoop : Bool) (w : GcWorld) : DecidablePred (w.NoErrors oneLoop)
  | .startPass => inferInstanceAs (Decidable (_ → _))
  | .pass _ (.visit _) => inferInstanceAs (Decidable (_ = _))
  | .pass _ .listFails | .pass _ (.rmtreeFails _) => .isFalse id
  | .tick _ | .register _ _ _ | .attempt _ _ | .pass _ .snapshot | .pass _ (.list _)
  | .pass _ .sort | .pass _ .rmtree => .isTrue trivial

/-- The pass has yet to come to the directory. -/
def GcPass.Ahead (p : GcPass) (d : Text) : Prop :=
  match p.phase with
  | .listing _ _ => d ∈ p.present
  | .visiting _ todo => d ∈ todo
  | .removing _ e todo => d = e ∨ d ∈ todo
  | .clocked | .done | .raised => False

/-- The workspace was removed; where passes do not overlap, this pass has done it. -/
structure GcPass.Gone (oneLoop : Bool) (w : GcWorld) (p : GcPass) (d : Text) : Prop where
  absent : w.workspaces d = .absent
  removed : ∃ q ∈ w.passes, d ∈ q.removed
  own : oneLoop = true → d ∈ p.removed

/-- The workspace has no running owner, and it was removed or the pass will remove it. -/
structure GcPass.Serves (ttl : Int) (oneLoop : Bool) (w : GcWorld) (p : GcPass) (d : Text) :
    Prop where
  used : d ∈ w.usedDirs
  ended : ∀ (i : Nat) a, w.attempts[i]? = some a → a.dir = d → a.phase = .done
  state : p.Gone oneLoop w d ∨ ∃ tokens ∈ p.phase.tokens,
    (w.workspaces d).collected ttl tokens p.now = true ∧ p.Ahead d

structure GcWorld.Serving (ttl : Int) (oneLoop : Bool) (w : GcWorld) : Prop where
  one : oneLoop = true → ∀ (j k : Nat) p q, w.passes[j]? = some p → w.passes[k]? = some q →
    p.phase.Active → q.phase.Active → j = k
  target : oneLoop = true → ∀ (k : Nat) p, w.passes[k]? = some p → ∀ d ∈ p.phase.target,
    w.workspaces d ≠ .absent
  due : ∀ (k : Nat) p, w.passes[k]? = some p → ∀ d ∈ p.due, p.Serves ttl oneLoop w d

variable {oneLoop : Bool}

theorem PassPhase.active_of_tokens {phase : PassPhase} {tokens : List String}
    (h : tokens ∈ phase.tokens) : phase.Active := by
  cases phase <;> trivial

theorem PassPhase.active_of_target {phase : PassPhase} (h : d ∈ phase.target) : phase.Active := by
  cases phase <;> trivial

/-- Other parties' steps leave a workspace that is due. -/
theorem GcPass.Serves.mono (h : p.Serves ttl oneLoop w d) (used : w.usedDirs ⊆ v.usedDirs)
    (attempts : ∀ (i : Nat) a, v.attempts[i]? = some a → a.dir = d →
      ∃ (j : Nat) (b : GcAttempt), w.attempts[j]? = some b ∧ b.dir = d ∧
        (b.phase = .done → a.phase = .done))
    (passes : w.passes ⊆ v.passes) (same : v.workspaces d = w.workspaces d) :
    p.Serves ttl oneLoop v d := by
  refine ⟨used h.used, fun i a ha hdir => ?_, ?_⟩
  · obtain ⟨j, b, hb, hbdir, hdone⟩ := attempts i a ha hdir
    exact hdone (h.ended j b hb hbdir)
  · obtain ⟨absent, ⟨q, hq, hd⟩, own⟩ | ahead := h.state
    · exact .inl ⟨same.trans absent, ⟨q, passes hq, hd⟩, own⟩
    · exact .inr (same ▸ ahead)

/-- What is due when a pass copies the tokens belongs to no attempt that is registered. -/
theorem GcWorld.Inv.ended_of_collected (inv : w.Inv)
    (collected : (w.workspaces d).collected ttl w.tokens now = true) {i : Nat}
    (ha : w.attempts[i]? = some a) (hdir : a.dir = d) : a.phase = .done := by
  obtain ⟨m, hm, unknown, -⟩ := collected_iff.mp collected
  have sound := inv.attempts i a ha
  obtain ⟨t, rfl⟩ := sound.fits m (hdir ▸ hm)
  by_contra live
  exact unknown (sound.registered live)

theorem PassEffect.active (h : PassEffect ttl w p call p' workspaces) : p.phase.Active := by
  cases h with
  | snapshot hp | listed tokens found e hp | unlisted tokens found hp | sorted tokens found hp
  | ended tokens osError hp | spared tokens e todo osError hp | chosen tokens e todo hp
  | removed tokens e todo hp | failed tokens e todo left hp =>
    rw [hp]
    trivial

theorem PassEffect.removed_subset (h : PassEffect ttl w p call p' workspaces) :
    p.removed ⊆ p'.removed := by
  cases h with
  | snapshot | listed | unlisted | sorted | ended | spared | chosen | failed =>
    exact List.Subset.refl _
  | removed => exact List.subset_append_left _ _

/-- Without errors, a pass leaves a directory or removes it. -/
theorem PassEffect.workspaces_eq {k : Nat} (ok : w.NoErrors oneLoop (.pass k call))
    (h : PassEffect ttl w p call p' workspaces) (d : Text) :
    workspaces d = w.workspaces d ∨ workspaces d = .absent ∧ d ∈ p'.removed := by
  cases h with
  | snapshot | listed | sorted | ended | spared | chosen => exact .inl rfl
  | unlisted => exact absurd ok id
  | removed tokens e todo hp =>
    by_cases hde : d = e
    · exact .inr ⟨by simp [hde], by simp [hde]⟩
    · exact .inl (by simp [hde])
  | failed => exact absurd ok id

/-- A pass keeps what was removed. -/
theorem GcPass.Gone.step {k : Nat} {q : GcPass} (gone : q.Gone oneLoop w d)
    (hp : w.passes[k]? = some p) (ok : w.NoErrors oneLoop (.pass k call))
    (h : PassEffect ttl w p call p' workspaces) {q' : GcPass} (more : q.removed ⊆ q'.removed) :
    q'.Gone oneLoop { w with workspaces := workspaces, passes := w.passes.set k p' } d := by
  obtain ⟨absent, ⟨r, hr, hd⟩, own⟩ := gone
  obtain ⟨hk, -⟩ := List.getElem?_eq_some_iff.mp hp
  refine ⟨?_, ?_, fun one => more (own one)⟩
  · obtain same | ⟨now, -⟩ := h.workspaces_eq ok d
    · exact same.trans absent
    · exact now
  · obtain ⟨j, hj, rfl⟩ := List.getElem_of_mem hr
    by_cases hjk : j = k
    · subst hjk
      obtain rfl : w.passes[j] = p := by simpa [hj] using hp
      exact ⟨p', List.mem_set hj _, h.removed_subset hd⟩
    · refine ⟨w.passes[j], List.mem_iff_getElem?.mpr ⟨j, ?_⟩, hd⟩
      exact (getElem?_set_iff hp p' j _).mpr (.inr ⟨hjk, List.getElem?_eq_getElem hj⟩)

/-- What the pass itself does about a workspace that is due. -/
theorem GcPass.Serves.own {k : Nat} (serves : p.Serves ttl oneLoop w d)
    (hp : w.passes[k]? = some p) (ok : w.NoErrors oneLoop (.pass k call))
    (h : PassEffect ttl w p call p' workspaces) :
    p'.Serves ttl oneLoop { w with workspaces := workspaces, passes := w.passes.set k p' } d := by
  obtain ⟨used, ended, gone | ⟨tokens, htokens, collected, ahead⟩⟩ := serves
  · exact ⟨used, ended, .inl (gone.step hp ok h h.removed_subset)⟩
  cases h with
  | snapshot hphase =>
    rw [hphase] at htokens
    cases htokens
  | listed tokens' found e hphase =>
    rw [hphase] at htokens
    simp only [GcPass.Ahead, hphase] at ahead
    exact ⟨used, ended, .inr ⟨tokens, htokens, collected, ahead⟩⟩
  | unlisted => exact absurd ok id
  | sorted tokens' found hphase all =>
    rw [hphase] at htokens
    simp only [GcPass.Ahead, hphase] at ahead
    obtain ⟨m, hm, -⟩ := collected_iff.mp collected
    have listed : d ∈ found := all d ahead (by rw [hm]; rfl)
    exact ⟨used, ended, .inr ⟨tokens, htokens, collected, (List.mem_insertionSort _).mpr listed⟩⟩
  | ended tokens' osError hphase => simp [GcPass.Ahead, hphase] at ahead
  | spared tokens' e todo osError hphase kept =>
    rw [hphase] at htokens
    obtain rfl : tokens' = tokens := by simpa [PassPhase.tokens] using htokens
    simp only [GcPass.Ahead, hphase, List.mem_cons] at ahead
    obtain rfl | later := ahead
    · obtain rfl : osError = false := ok
      simp [collected] at kept
    · exact ⟨used, ended, .inr ⟨tokens', rfl, collected, later⟩⟩
  | chosen tokens' e todo hphase =>
    rw [hphase] at htokens
    simp only [GcPass.Ahead, hphase, List.mem_cons] at ahead
    exact ⟨used, ended, .inr ⟨tokens, htokens, collected, ahead⟩⟩
  | removed tokens' e todo hphase =>
    by_cases hde : d = e
    · subst hde
      obtain ⟨hk, -⟩ := List.getElem?_eq_some_iff.mp hp
      exact ⟨used, ended, .inl ⟨by simp, ⟨_, List.mem_set hk _, by simp⟩, by simp⟩⟩
    · rw [hphase] at htokens
      simp only [GcPass.Ahead, hphase, hde, false_or] at ahead
      exact ⟨used, ended, .inr ⟨tokens, htokens, by simpa [hde] using collected, ahead⟩⟩
  | failed => exact absurd ok id

/-- What was due when a pass copied the tokens stays recorded. -/
theorem PassEffect.due_eq (h : PassEffect ttl w p call p' workspaces)
    (copied : p.phase ≠ .clocked) : p'.phase ≠ .clocked ∧ p'.due = p.due := by
  cases h with
  | snapshot hphase => exact absurd hphase copied
  | listed | unlisted | sorted | ended | spared | chosen | removed | failed => exact ⟨nofun, rfl⟩

theorem PassEffect.serves {k : Nat} (inv : w.Inv) (hp : w.passes[k]? = some p)
    (ok : w.NoErrors oneLoop (.pass k call)) (h : PassEffect ttl w p call p' workspaces)
    (old : ∀ d ∈ p.due, p.Serves ttl oneLoop w d) :
    ∀ d ∈ p'.due, p'.Serves ttl oneLoop
      { w with workspaces := workspaces, passes := w.passes.set k p' } d := by
  intro d hd
  by_cases clocked : p.phase = .clocked
  · cases h with
    | snapshot =>
      obtain ⟨used, collected⟩ := List.mem_filter.mp hd
      obtain ⟨m, hm, -⟩ := collected_iff.mp collected
      have there : (w.workspaces d).hasMarkerFile = true := by rw [hm]; rfl
      refine ⟨used, fun i a ha hdir => inv.ended_of_collected collected ha hdir,
        .inr ⟨w.tokens, rfl, collected, ?_⟩⟩
      exact List.mem_filter.mpr ⟨used, there⟩
    | listed tokens found e hphase | unlisted tokens found hphase | sorted tokens found hphase
    | ended tokens osError hphase | spared tokens e todo osError hphase
    | chosen tokens e todo hphase | removed tokens e todo hphase
    | failed tokens e todo left hphase =>
      cases clocked.symm.trans hphase
  · rw [(h.due_eq clocked).2] at hd
    exact (old d hd).own hp ok h

/-- What another pass does about it. -/
theorem GcPass.Serves.step {j k : Nat} {q : GcPass} (serves : q.Serves ttl oneLoop w d)
    (s : w.Serving ttl oneLoop) (hp : w.passes[k]? = some p) (hq : w.passes[j]? = some q)
    (hj : j ≠ k) (ok : w.NoErrors oneLoop (.pass k call))
    (h : PassEffect ttl w p call p' workspaces) :
    q.Serves ttl oneLoop { w with workspaces := workspaces, passes := w.passes.set k p' } d := by
  obtain ⟨used, ended, gone | ⟨tokens, htokens, collected, ahead⟩⟩ := serves
  · exact ⟨used, ended, .inl (gone.step hp ok h (List.Subset.refl _))⟩
  · obtain same | ⟨absent, removed⟩ := h.workspaces_eq ok d
    · exact ⟨used, ended, .inr ⟨tokens, htokens, by simpa [same] using collected, ahead⟩⟩
    · -- the other pass was first; two passes of one loop are not both active
      obtain ⟨hk, -⟩ := List.getElem?_eq_some_iff.mp hp
      refine ⟨used, ended, .inl ⟨absent, ⟨p', List.mem_set hk _, removed⟩, fun one => ?_⟩⟩
      exact absurd (s.one one j k q p hq hp (PassPhase.active_of_tokens htokens) h.active) hj

/-- A pass that has chosen a directory sees it until it removes it. -/
theorem PassEffect.target (h : PassEffect ttl w p call p' workspaces) :
    ∀ d ∈ p'.phase.target, workspaces d ≠ .absent := by
  cases h with
  | snapshot | listed | unlisted | sorted | ended | spared | removed | failed => nofun
  | chosen tokens e todo hphase collected =>
    intro d hd
    obtain rfl : e = d := by simpa [PassPhase.target] using hd
    obtain ⟨m, hm, -⟩ := collected_iff.mp collected
    simp [hm]

theorem GcWorld.Serving.pass (s : w.Serving ttl oneLoop) (inv : w.Inv) {k : Nat}
    (ok : w.NoErrors oneLoop (.pass k call)) (hp : w.passes[k]? = some p)
    (effect : PassEffect ttl w p call p' workspaces) :
    GcWorld.Serving ttl oneLoop
      { w with workspaces := workspaces, passes := w.passes.set k p' } := by
  refine ⟨fun one i j q r hq hr active active' => ?_, fun one j q hq d hd => ?_,
    fun j q hq d hd => ?_⟩
  · obtain ⟨rfl, rfl⟩ | ⟨-, old⟩ := (getElem?_set_iff hp _ i q).mp hq
    · obtain ⟨rfl, rfl⟩ | ⟨-, old'⟩ := (getElem?_set_iff hp _ j r).mp hr
      · rfl
      · exact s.one one i j p r hp old' effect.active active'
    · obtain ⟨rfl, rfl⟩ | ⟨-, old'⟩ := (getElem?_set_iff hp _ j r).mp hr
      · exact s.one one i j q p old hp active effect.active
      · exact s.one one i j q r old old' active active'
  · obtain ⟨rfl, rfl⟩ | ⟨hj, hq⟩ := (getElem?_set_iff hp _ j q).mp hq
    · exact effect.target d hd
    · exact absurd (s.one one j k q p hq hp (PassPhase.active_of_target hd) effect.active) hj
  · obtain ⟨rfl, rfl⟩ | ⟨hj, hq⟩ := (getElem?_set_iff hp _ j q).mp hq
    · exact effect.serves inv hp ok (s.due j p hp) d hd
    · exact (s.due j q hq d hd).step s hp hq hj ok effect

theorem GcWorld.Serving.step (s : w.Serving ttl oneLoop) (inv : w.Inv)
    (ok : w.NoErrors oneLoop action) (h : GcStep ttl w action v) : v.Serving ttl oneLoop := by
  cases h with
  | tick clock =>
    refine ⟨s.one, s.target, fun k p hp d hd => (s.due k p hp d hd).mono (List.Subset.refl _)
      (fun i a ha hdir => ⟨i, a, ha, hdir, id⟩) (List.Subset.refl _) rfl⟩
  | register owner executionId dir _ fresh =>
    refine ⟨s.one, s.target, fun k p hp d hd => ?_⟩
    have serves := s.due k p hp d hd
    refine serves.mono (List.subset_cons_self _ _) (fun i a ha hdir => ?_) (List.Subset.refl _) rfl
    obtain ⟨-, rfl⟩ | ⟨-, ha⟩ := (getElem?_concat_iff _ _ i a).mp ha
    · obtain rfl : dir = d := hdir
      exact absurd serves.used fresh
    · exact ⟨i, a, ha, hdir, id⟩
  | attempt i c b phase ws' hb effect =>
    refine ⟨s.one, fun one k p hp d hd => ?_, fun k p hp d hd => ?_⟩
    · have other : d ≠ b.dir := fun hdir =>
        effect.alive (((inv.passes k p hp).target d hd).2 i b hb hdir.symm)
      simpa [other] using s.target one k p hp d hd
    · have serves := s.due k p hp d hd
      have other : d ≠ b.dir := fun hdir => effect.alive (serves.ended i b hb hdir.symm)
      refine serves.mono (List.Subset.refl _) (fun j a ha hdir => ?_) (List.Subset.refl _)
        (by simp [other])
      obtain ⟨-, rfl⟩ | ⟨-, ha⟩ := (getElem?_set_iff hb _ j a).mp ha
      · exact absurd hdir.symm other
      · exact ⟨j, a, ha, hdir, id⟩
  | startPass =>
    refine ⟨fun one j k p q hp hq active active' => ?_, fun one k p hp d hd => ?_,
      fun k p hp d hd => ?_⟩
    · obtain ⟨rfl, -⟩ | ⟨-, hp⟩ := (getElem?_concat_iff _ _ j p).mp hp
      · obtain ⟨rfl, -⟩ | ⟨-, hq⟩ := (getElem?_concat_iff _ _ k q).mp hq
        · rfl
        · exact absurd active' (ok one q (List.mem_of_getElem? hq))
      · exact absurd active (ok one p (List.mem_of_getElem? hp))
    · obtain ⟨-, rfl⟩ | ⟨-, hp⟩ := (getElem?_concat_iff _ _ k p).mp hp
      · cases hd
      · exact s.target one k p hp d hd
    · obtain ⟨-, rfl⟩ | ⟨-, hp⟩ := (getElem?_concat_iff _ _ k p).mp hp
      · cases hd
      · exact (s.due k p hp d hd).mono (List.Subset.refl _)
          (fun i a ha hdir => ⟨i, a, ha, hdir, id⟩) (List.subset_append_left _ _) rfl
  | pass k call p p' workspaces hp effect => exact s.pass inv ok hp effect

theorem gcMachine_serving (httl : 0 < ttl)
    (h : (gcMachine ttl).Guarded (GcWorld.NoErrors oneLoop) w) : w.Serving ttl oneLoop :=
  h.invariant (fun _ init => ⟨by simp [init.passes], by simp [init.passes], by simp [init.passes]⟩)
    fun _ _ _ reached serving ok hst =>
      serving.step (gcMachine_inv httl reached.reachable) ok (gcStep_of_step hst)

/-- When a pass has ended, every workspace that was due is removed. -/
theorem GcWorld.Serving.removed (s : w.Serving ttl oneLoop) {k : Nat}
    (hp : w.passes[k]? = some p) (done : p.phase = .done) (hd : d ∈ p.due) :
    p.Gone oneLoop w d := by
  obtain ⟨-, -, gone | ⟨tokens, htokens, -⟩⟩ := s.due k p hp d hd
  · exact gone
  · rw [done] at htokens
    cases htokens

/-- How far a pass is from its end: its stage, and in its stage the markers it still lists,
or the visits and removals that are left. -/
def GcPass.rank (p : GcPass) : Nat ×ₗ Nat :=
  match p.phase with
  | .clocked => toLex (3, 0)
  | .listing _ found => toLex (2, (p.present.filter (· ∉ found)).length)
  | .removing _ _ todo => toLex (1, 2 * todo.length + 1)
  | .visiting _ todo => toLex (1, 2 * todo.length)
  | .done | .raised => toLex (0, 0)

/-- A pass of the loop never waits for another party: it has a step that takes it nearer
to its end. -/
theorem GcWorld.Serving.nearer (s : w.Serving ttl true) {k : Nat} (hp : w.passes[k]? = some p)
    (active : p.phase.Active) : ∃ call p' workspaces, w.NoErrors true (.pass k call) ∧
      p.step ttl w call = some (p', workspaces) ∧ p'.rank < p.rank ∧ p'.phase ≠ .raised := by
  cases hphase : p.phase with
  | clocked =>
    refine ⟨.snapshot, _, _, trivial, by simp only [GcPass.step, hphase]; rfl, ?_, by simp⟩
    simp [GcPass.rank, hphase, Prod.Lex.toLex_lt_toLex]
  | listing tokens found =>
    by_cases all : ∀ d ∈ p.present, (w.workspaces d).hasMarkerFile = true → d ∈ found
    · have step : p.step ttl w .sort =
          some ({ p with phase := .visiting tokens (sortedPaths found) }, w.workspaces) := by
        simpa [GcPass.step, hphase] using all
      refine ⟨.sort, _, _, trivial, step, ?_, by simp⟩
      simp [GcPass.rank, hphase, Prod.Lex.toLex_lt_toLex]
    · push Not at all
      obtain ⟨d, present, there, unlisted⟩ := all
      have step : p.step ttl w (.list d) =
          some ({ p with phase := .listing tokens (found ++ [d]) }, w.workspaces) := by
        simp [GcPass.step, hphase, there, unlisted]
      refine ⟨.list d, _, _, trivial, step, ?_, by simp⟩
      have fewer : ((p.present.filter (· ∉ found)).filter (· ≠ d)).length <
          (p.present.filter (· ∉ found)).length :=
        List.length_filter_lt_length_iff_exists.mpr ⟨d, by simp [present, unlisted], by simp⟩
      rw [List.filter_filter] at fewer
      simpa [GcPass.rank, hphase, Prod.Lex.toLex_lt_toLex, and_comm] using fewer
  | visiting tokens todo =>
    cases todo with
    | nil =>
      refine ⟨.visit false, _, _, rfl, by simp only [GcPass.step, hphase]; rfl, ?_, by simp⟩
      simp [GcPass.rank, hphase, Prod.Lex.toLex_lt_toLex]
    | cons d todo =>
      by_cases collected : (w.workspaces d).collected ttl tokens p.now = true
      · have step : p.step ttl w (.visit false) =
            some ({ p with phase := .removing tokens d todo }, w.workspaces) := by
          simp [GcPass.step, hphase, collected]
        refine ⟨.visit false, _, _, rfl, step, ?_, by simp⟩
        simp [GcPass.rank, hphase, Prod.Lex.toLex_lt_toLex, Nat.mul_add]
      · have step : p.step ttl w (.visit false) =
            some ({ p with phase := .visiting tokens todo }, w.workspaces) := by
          simp [GcPass.step, hphase, collected]
        refine ⟨.visit false, _, _, rfl, step, ?_, by simp⟩
        simp [GcPass.rank, hphase, Prod.Lex.toLex_lt_toLex]
  | removing tokens d todo =>
    have there := s.target rfl k p hp d (by rw [hphase]; rfl)
    have step : p.step ttl w .rmtree =
        some ({ p with phase := .visiting tokens todo, removed := p.removed ++ [d] },
          Function.update w.workspaces d .absent) := by
      simp [GcPass.step, hphase, there]
    refine ⟨.rmtree, _, _, trivial, step, ?_, by simp⟩
    simp [GcPass.rank, hphase, Prod.Lex.toLex_lt_toLex]
  | done | raised =>
    rw [hphase] at active
    exact active.elim

theorem exists_ended (httl : 0 < ttl) {k : Nat} :
    ∀ (r : Nat ×ₗ Nat) {w : GcWorld} {p : GcPass}, p.rank = r →
      (gcMachine ttl).Guarded (GcWorld.NoErrors true) w → w.passes[k]? = some p →
      p.phase.Active → ∃ v q, (gcMachine ttl).Steps (GcWorld.NoErrors true) w v ∧
        v.passes[k]? = some q ∧ q.phase = .done := by
  intro r
  induction r using WellFoundedLT.induction with
  | ind r ih =>
    rintro w p rfl reached hp active
    obtain ⟨call, p', workspaces, ok, hstep, less, whole⟩ :=
      (gcMachine_serving httl reached).nearer hp active
    have hw : w.step ttl (.pass k call) =
        some { w with workspaces := workspaces, passes := w.passes.set k p' } := by
      simp [GcWorld.step, hp, hstep]
    have hp' : (w.passes.set k p')[k]? = some p' :=
      (getElem?_set_iff hp p' k p').mpr (.inl ⟨rfl, rfl⟩)
    by_cases ended : p'.phase = .done
    · exact ⟨_, p', .single ⟨_, ok, hw⟩, hp', ended⟩
    · have active' : p'.phase.Active := by
        cases hphase : p'.phase with
        | done => exact absurd hphase ended
        | raised => exact absurd hphase whole
        | clocked | listing | visiting | removing => trivial
      obtain ⟨v, q, steps, hq, done⟩ := ih _ less rfl (.step _ reached ok hw) hp' active'
      exact ⟨v, q, .head ⟨_, ok, hw⟩ steps, hq, done⟩

/-- The passes keep their records. -/
def DueKept (u v : GcWorld) : Prop :=
  ∀ (k : Nat) p, u.passes[k]? = some p → p.phase ≠ .clocked →
    ∃ q, v.passes[k]? = some q ∧ q.phase ≠ .clocked ∧ q.due = p.due

theorem GcStep.dueKept (h : GcStep ttl w action v) : DueKept w v := by
  intro k p hp copied
  cases h with
  | tick | register | attempt => exact ⟨p, hp, copied, rfl⟩
  | startPass =>
    obtain ⟨hk, -⟩ := List.getElem?_eq_some_iff.mp hp
    exact ⟨p, (getElem?_concat_iff _ _ k p).mpr (.inr ⟨hk.ne, hp⟩), copied, rfl⟩
  | pass j call q q' workspaces hq effect =>
    by_cases hkj : k = j
    · subst hkj
      obtain rfl : q = p := by simpa [hq] using hp
      exact ⟨q', (getElem?_set_iff hq q' k q').mpr (.inl ⟨rfl, rfl⟩), effect.due_eq copied⟩
    · exact ⟨p, (getElem?_set_iff hq q' k p).mpr (.inr ⟨hkj, hp⟩), copied, rfl⟩

theorem dueKept_of_steps {ok : GcWorld → GcAction → Prop} (reached : (gcMachine ttl).Guarded ok w)
    (h : (gcMachine ttl).Steps ok w v) : DueKept w v := by
  refine h.invariant reached (fun s k p hp copied => ⟨p, hp, copied, rfl⟩) ?_
    fun s action t _ _ hst => (gcStep_of_step hst).dueKept
  intro s t u first second k p hp copied
  obtain ⟨q, hq, copied', same⟩ := first k p hp copied
  obtain ⟨r, hr, copied'', same'⟩ := second k q hq copied'
  exact ⟨r, hr, copied'', same'.trans same⟩

/-! ## Safety and completeness of a pass -/

/-- Whatever passes and attempts do, no pass changes the directory of an attempt whose
cleanup has not begun. -/
def SparesAttempts (ttl : Int) : Prop :=
  ∀ w, (gcMachine ttl).Reachable w → ∀ k call v, w.step ttl (.pass k call) = some v →
    ∀ a ∈ w.attempts, a.phase.Uncleaned → v.workspaces a.dir = w.workspaces a.dir

/-- Without errors, every workspace that has, when a pass copies the tokens, a complete
marker that is old enough and whose token is not among them is removed when the pass has
ended; where passes do not overlap, the pass itself has removed it. -/
def RemovesDue (ttl : Int) : Prop :=
  ∀ oneLoop u, (gcMachine ttl).Guarded (GcWorld.NoErrors oneLoop) u →
    ∀ (k : Nat) p, u.passes[k]? = some p → ∀ w, u.step ttl (.pass k .snapshot) = some w →
    ∀ v, (gcMachine ttl).Steps (GcWorld.NoErrors oneLoop) w v →
    ∀ q, v.passes[k]? = some q → q.phase = .done →
    ∀ d m, u.workspaces d = .marked m → m.ownerToken ∉ u.tokens → ttl ≤ p.now - m.startedAt →
      q.Gone oneLoop v d

/-- At every moment a pass of the loop can go on to its end, without another party's help. -/
def PassesEnd (ttl : Int) : Prop :=
  ∀ w, (gcMachine ttl).Guarded (GcWorld.NoErrors true) w → ∀ (k : Nat) p, w.passes[k]? = some p →
    p.phase.Active → ∃ v q, (gcMachine ttl).Steps (GcWorld.NoErrors true) w v ∧
      v.passes[k]? = some q ∧ q.phase = .done

theorem gc_beside_attempts (ttl : Int) (httl : 0 < ttl) :
    SparesAttempts ttl ∧ RemovesDue ttl ∧ PassesEnd ttl := by
  refine ⟨?_, ?_, ?_⟩
  · intro w h k call v hst a ha uncleaned
    obtain ⟨i, hi, rfl⟩ := List.getElem_of_mem ha
    exact (gcMachine_inv httl h).spares hst (List.getElem?_eq_getElem hi) uncleaned.live
  · intro oneLoop u hu k p hp w hst v steps q hq done d m hm unknown age
    have inv := gcMachine_inv httl hu.reachable
    have hw : (gcMachine ttl).Guarded (GcWorld.NoErrors oneLoop) w :=
      .step (.pass k .snapshot) hu trivial hst
    obtain ⟨p', workspaces, hp', effect, rfl⟩ : ∃ p' workspaces,
        (u.passes.set k p')[k]? = some p' ∧ PassEffect ttl u p .snapshot p' workspaces ∧
        w = { u with workspaces := workspaces, passes := u.passes.set k p' } := by
      cases gcStep_of_step hst with
      | pass k call r p' workspaces hr effect =>
        obtain rfl : r = p := by simpa [hr] using hp
        exact ⟨p', workspaces, (getElem?_set_iff hp p' k p').mpr (.inl ⟨rfl, rfl⟩), effect, rfl⟩
    cases effect with
    | snapshot hphase =>
      obtain ⟨q', hq', -, same⟩ := dueKept_of_steps hw steps k _ hp' nofun
      obtain rfl : q = q' := by simpa [hq] using hq'
      refine (gcMachine_serving httl (hw.steps steps)).removed hq done ?_
      rw [same]
      exact List.mem_filter.mpr
        ⟨inv.used d (by simp [hm]), collected_iff.mpr ⟨m, hm, unknown, age⟩⟩
  · intro w h k p hp active
    exact exists_ended httl p.rank rfl h hp active

/-! ## One pass -/

def leftDir : Text := text "left"

def runningDir : Text := text "running"

def leftMarker : GcMarker := ⟨"w", 1, "t0", "e0", 0⟩

/-- A run before left a workspace behind. -/
def leftWorld : GcWorld where
  clock := 100
  tokens := []
  usedTokens := ["t0"]
  usedDirs := [leftDir]
  workspaces := Function.update (fun _ => .absent) leftDir (.marked leftMarker)
  attempts := []
  passes := []

theorem leftWorld_initial : leftWorld.Initial := by
  refine ⟨rfl, rfl, rfl, fun d hd => ?_⟩
  by_contra other
  have : d ≠ leftDir := fun same => other (by simp [leftWorld, same])
  exact hd (by simp [leftWorld, this])

/-- An attempt runs when the pass starts. -/
def startedWorld : GcWorld := (gcMachine 60).follow leftWorld
  [.register ⟨"w", 2, "t1"⟩ "e1" runningDir, .attempt 0 .mkdir, .attempt 0 .stamp,
    .attempt 0 .openMarker, .attempt 0 .writeMarker, .startPass]

def copiedWorld : GcWorld := (gcMachine 60).follow startedWorld [.pass 0 .snapshot]

def chosenWorld : GcWorld := (gcMachine 60).follow copiedWorld
  [.pass 0 (.list runningDir), .tick 200, .pass 0 (.list leftDir), .pass 0 .sort,
    .pass 0 (.visit false)]

def removedWorld : GcWorld := (gcMachine 60).follow chosenWorld [.pass 0 .rmtree]

def endedWorld : GcWorld := (gcMachine 60).follow removedWorld
  [.pass 0 (.visit false), .pass 0 (.visit false)]

theorem startedWorld_guarded : (gcMachine 60).Guarded (GcWorld.NoErrors true) startedWorld :=
  Machine.Guarded.follow_meets (.init leftWorld_initial) (by decide +kernel)

theorem copiedWorld_guarded : (gcMachine 60).Guarded (GcWorld.NoErrors true) copiedWorld :=
  startedWorld_guarded.follow_meets (by decide +kernel)

theorem chosenWorld_guarded : (gcMachine 60).Guarded (GcWorld.NoErrors true) chosenWorld :=
  copiedWorld_guarded.follow_meets (by decide +kernel)

theorem endedWorld_of_copiedWorld :
    (gcMachine 60).Steps (GcWorld.NoErrors true) copiedWorld endedWorld :=
  ((Machine.steps_follow (by decide +kernel)).trans
    (Machine.steps_follow (s := chosenWorld) (by decide +kernel))).trans
    (Machine.steps_follow (by decide +kernel))

/-- The pass removes the workspace that was left behind and not the one beside it. -/
theorem gc_beside_attempts_leftover :
    removedWorld.workspaces runningDir = chosenWorld.workspaces runningDir ∧
      (∃ q ∈ endedWorld.passes, q.Gone true endedWorld leftDir) ∧
      ∃ v q, (gcMachine 60).Steps (GcWorld.NoErrors true) chosenWorld v ∧
        v.passes[0]? = some q ∧ q.phase = .done := by
  obtain ⟨spares, removes, ends⟩ := gc_beside_attempts 60 (by decide)
  refine ⟨?_, ?_, ?_⟩
  · exact spares chosenWorld chosenWorld_guarded.reachable 0 .rmtree removedWorld rfl
      ⟨⟨"w", 2, "t1"⟩, "e1", runningDir, .running 100⟩
      (List.mem_of_getElem? (show chosenWorld.attempts[0]? = some _ from rfl)) trivial
  · obtain ⟨q, hq, done⟩ : ∃ q, endedWorld.passes[0]? = some q ∧ q.phase = .done :=
      ⟨_, rfl, by decide +kernel⟩
    refine ⟨q, List.mem_of_getElem? hq, ?_⟩
    exact removes true startedWorld startedWorld_guarded 0 _ rfl copiedWorld rfl endedWorld
      endedWorld_of_copiedWorld q hq done leftDir leftMarker rfl (by decide +kernel)
      (by decide +kernel)
  · exact ends chosenWorld chosenWorld_guarded 0 _ rfl (by decide +kernel)

end Perago
