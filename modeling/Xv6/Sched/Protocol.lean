import Xv6.Lib.Handoff
import Xv6.Sched.Step

/-!
# The scheduler follows the hand-off protocol

`State.abs` forgets everything but the phases of the slots, the places of the schedulers and
the lock.  Each step of the machine is a sequence of steps of the protocol in
`Xv6.Lib.Handoff` (`Did.steps`), so the invariant of the protocol holds in every state of
every run: a process runs on at most one CPU, and `ptable.lock` is with that CPU exactly
between a switch and a release.
-/

namespace Xv6
namespace Sched

open Proc Lib Function

/-- The phase of a slot. -/
def Task.phase (t : Task) : Handoff.Phase :=
  match t.state, t.place with
  | .unused, _ => .absent
  | .embryo, _ => .embryo
  | .runnable, _ => .ready
  | .sleeping, _ => .asleep
  | .zombie, _ => .dead
  | .running, .back _ => .taken
  | .running, _ => .running

/-- The place of a scheduler. -/
def Loop.abs : Loop → Handoff.Loop
  | .top => .top
  | .ran _ i => .ran i
  | .back _ i => .back i

/-- The state of the protocol. -/
def State.abs (s : State) : Handoff.Abs where
  phase := fun i => (s.proc i).phase
  loop := fun c => (s.cpu c).loop.abs
  lock := s.lock

variable {s s' : State} {c i j p n : Nat} {l : Label}

/-! ## Updates -/

theorem abs_setProc (s : State) (i : Nat) (t : Task) :
    (s.setProc i t).abs = { s.abs with phase := update s.abs.phase i t.phase } := by
  ext j
  · show ((s.setProc i t).proc j).phase = update s.abs.phase i t.phase j
    by_cases h : j = i
    · rw [h, State.proc_setProc, update_self]
    · rw [State.proc_setProc_of_ne _ _ h, update_of_ne h]
      rfl
  · rfl
  · rfl

/-- Updates that keep the phase do not matter. -/
theorem abs_setProc_self {t : Task} (h : t.phase = (s.proc i).phase) :
    (s.setProc i t).abs = s.abs := by
  rw [abs_setProc, h]
  show { s.abs with phase := update s.abs.phase i (s.abs.phase i) } = s.abs
  rw [update_eq_self]

theorem abs_setJob (s : State) (i : Nat) (j : Job) : (s.setJob i j).abs = s.abs :=
  abs_setProc_self rfl

theorem abs_setCpu (s : State) (c : Nat) (u : Cpu) :
    (s.setCpu c u).abs = { s.abs with loop := update s.abs.loop c u.loop.abs } := by
  ext d
  · rfl
  · show ((s.setCpu c u).cpu d).loop.abs = update s.abs.loop c u.loop.abs d
    by_cases h : d = c
    · rw [h, State.cpu_setCpu, update_self]
    · rw [State.cpu_setCpu_of_ne _ _ h, update_of_ne h]
      rfl
  · rfl

theorem abs_setCpu_self {u : Cpu} (h : u.loop = (s.cpu c).loop) : (s.setCpu c u).abs = s.abs := by
  rw [abs_setCpu, h]
  show { s.abs with loop := update s.abs.loop c (s.abs.loop c) } = s.abs
  rw [update_eq_self]

theorem phase_age (t : Task) (policy : Int) (chosen : Bool) :
    (t.age policy chosen).phase = t.phase := by
  unfold Task.age
  split
  · rfl
  · rfl

theorem phase_wake (t : Task) (chan : Chan) :
    (t.wake chan).phase = if t.phase = .asleep ∧ t.chan = chan then .ready else t.phase := by
  have hiff : t.phase = .asleep ↔ t.state = .sleeping := by
    unfold Task.phase
    split <;> simp_all
  unfold Task.wake
  simp only [hiff]
  split
  · rfl
  · rfl

/-! ## Steps of the protocol -/

theorem phase_running {t : Task} (hstate : t.state = .running) (hplace : t.place = .run) :
    t.phase = .running := by
  simp [Task.phase, hstate, hplace]

/-- A process that goes on with the lock is RUNNING. -/
theorem state_of_holds (h : s.abs.Holds c p) : (s.proc p).state = .running := by
  have hphase : (s.proc p).phase = .running ∨ (s.proc p).phase = .taken := by
    rcases h.2 with h | h
    · exact .inl h.1
    · exact .inr h
  unfold Task.phase at hphase
  split at hphase <;> simp_all

/-- What a process in the middle of `fork` has taken is an embryo. -/
def Embryos (s : State) : Prop :=
  ∀ p n, (s.proc p).job = .forking n ∨ (s.proc p).job = .forked n → (s.proc n).state = .embryo

section

variable (hc : Handoff.Coherent s.abs)

include hc

theorem loop_of_runs (h : Runs s c p) : s.abs.loop c = .ran p ∧ s.abs.phase p = .running := by
  obtain ⟨⟨policy, hloop⟩, hplace⟩ := h
  have habs : s.abs.loop c = .ran p := congrArg Loop.abs hloop
  refine ⟨habs, ?_⟩
  have hphase := hc.ran c p habs
  simp only [State.abs, Task.phase, hplace] at hphase ⊢
  split at hphase <;> simp_all

theorem loop_of_back {k : Cont} (hran : ∃ policy, (s.cpu c).loop = .ran policy p)
    (hplace : (s.proc p).place = .back k) : s.abs.loop c = .ran p ∧ s.abs.phase p = .taken := by
  obtain ⟨policy, hloop⟩ := hran
  have habs : s.abs.loop c = .ran p := congrArg Loop.abs hloop
  refine ⟨habs, ?_⟩
  have hphase := hc.ran c p habs
  simp only [State.abs, Task.phase, hplace] at hphase ⊢
  split at hphase <;> simp_all

/-- A process that takes the lock may go on with it. -/
theorem holds_of_runs (h : Runs s c p) (hlock : s.lock = none) : s.abs.Holds c p := by
  obtain ⟨hloop, hphase⟩ := loop_of_runs hc h
  exact ⟨hloop, .inl ⟨hphase, hlock⟩⟩

theorem holds_of_waits {a : Act} {s0 : State} (h : Waits s c p a s0) :
    s.abs.Holds c p ∧ s0.abs = s.abs ∧ ∃ policy, (s0.cpu c).loop = .ran policy p := by
  cases h with
  | call hruns _ hlock => exact ⟨holds_of_runs hc hruns hlock, rfl, hruns.ran⟩
  | again hran hplace =>
    obtain ⟨hloop, hphase⟩ := loop_of_back hc hran hplace
    exact ⟨⟨hloop, .inr hphase⟩, abs_setProc_self rfl, hran⟩

/-- While a process goes on with the lock, no scheduler is between `swtch` and `release`. -/
theorem ne_back_of_holds (h : s.abs.Holds c p) (d i : Nat) : s.abs.loop d ≠ .back i := by
  intro hback
  have hlock := hc.backLock d i hback
  obtain ⟨hran, hfree | htaken⟩ := h
  · rw [hfree.2] at hlock
    cases hlock
  · rw [hc.takenLock c p hran htaken] at hlock
    cases hlock
    rw [hback] at hran
    cases hran

theorem ne_back_of_lock (h : s.lock = none) (d i : Nat) : s.abs.loop d ≠ .back i := by
  intro hback
  have hlock : s.lock = some d := hc.backLock d i hback
  rw [h] at hlock
  cases hlock

end

/-- Waking processes is a step of the protocol. -/
theorem steps_wakeup1 (chan : Chan) (h : ∀ d i, s.abs.loop d ≠ .back i) :
    Handoff.Step s.abs (wakeup1 chan s).abs := by
  have habs : (wakeup1 chan s).abs =
      { s.abs with
        phase := fun i =>
          if s.abs.phase i = .asleep ∧ (s.proc i).chan = chan then .ready else s.abs.phase i } := by
    ext i
    · exact phase_wake (s.proc i) chan
    · rfl
    · rfl
  rw [habs]
  exact .wake (fun i => (s.proc i).chan = chan) h

theorem abs_reparent (p : Nat) (s : State) : (reparent p s).abs = s.abs := by
  ext i
  · show (if (s.proc i).parent = some p then { s.proc i with parent := some s.initproc }
      else s.proc i).phase = _
    split
    · rfl
    · rfl
  · rfl
  · rfl

/-- What `exit` does to the others is at most two wakeups. -/
theorem steps_abandon (p : Nat) (h : ∀ d i, s.abs.loop d ≠ .back i) :
    Handoff.Steps s.abs (abandon p s).abs := by
  have hfirst := steps_wakeup1 (s := s) (waitChan (s.proc p).parent) h
  unfold abandon
  dsimp only
  split
  · refine .tail (.single hfirst) ?_
    rw [← abs_reparent p]
    refine steps_wakeup1 _ ?_
    rw [abs_reparent]
    exact h
  · rw [abs_reparent]
    exact .single hfirst

theorem abs_sched {policy : Int} (h : (s.cpu c).loop = .ran policy p) :
    (sched c s).abs =
      { s.abs with loop := update s.abs.loop c (.back p), lock := some c } := by
  have hcpu := abs_setCpu s c { s.cpu c with loop := .back policy p }
  unfold sched
  rw [h]
  dsimp only
  rw [Handoff.Abs.ext_iff] at hcpu ⊢
  exact ⟨hcpu.1, hcpu.2.1, rfl⟩

/-- A process that changes its phase and calls `sched` leaves its CPU. -/
theorem step_leave {t : Task} (h : s.abs.Holds c p) (hran : ∃ policy, (s.cpu c).loop = .ran policy p)
    (hphase : t.phase = .ready ∨ t.phase = .asleep ∨ t.phase = .dead) :
    Handoff.Step s.abs (sched c (s.setProc p t)).abs := by
  obtain ⟨policy, hloop⟩ := hran
  rw [abs_sched (s := s.setProc p t) hloop, abs_setProc]
  exact .leave c p t.phase h hphase

/-- A process that goes on without the lock releases it. -/
theorem step_release {t : Task} (h : s.abs.Holds c p) (hphase : t.phase = .running) :
    Handoff.Step s.abs { (s.setProc p t).abs with lock := none } := by
  rw [abs_setProc, hphase]
  exact .release c p h

/-- The scheduler of a CPU at its turn. -/
theorem turn_of_turn {s0 : State} (h : Turn s c l s0) : s.abs.Turn c ∧ s0.abs = s.abs := by
  cases h with
  | top hloop hlock => exact ⟨.inl ⟨congrArg Loop.abs hloop, hlock⟩, rfl⟩
  | back i hloop => exact ⟨.inr ⟨i, congrArg Loop.abs hloop⟩, abs_setCpu_self rfl⟩

/-- The scheduler of a CPU ends its round. -/
theorem step_rest {u : Cpu} (hturn : s.abs.Turn c) (hu : u.loop = .top) :
    Handoff.Step s.abs { (s.setCpu c u).abs with lock := none } := by
  rw [abs_setCpu, hu]
  exact .rest c hturn

theorem abs_endIteration (policy : Int) (chosen : Option Nat) :
    (endIteration c policy chosen s).abs =
      { (s.setCpu c { s.cpu c with loop := .top }).abs with lock := none } := by
  ext i
  · exact phase_age (s.proc i) policy (chosen == some i)
  · show (update s.cpu c _ i).loop.abs = (update s.cpu c _ i).loop.abs
    rw [update_apply, update_apply]
    split
    · rfl
    · rfl
  · rfl

theorem abs_dispatch (c i : Nat) (policy : Int) (s : State) :
    (dispatch c i policy s).abs =
      { phase := update s.abs.phase i .taken
        loop := update s.abs.loop c (.ran i)
        lock := some c } := by
  have hproc := abs_setProc s i
    { s.proc i with state := .running, place := .back (s.proc i).place.cont }
  have hcpu := abs_setCpu
    (s.setProc i { s.proc i with state := .running, place := .back (s.proc i).place.cont }) c
    { s.cpu c with
      proc := some i, loop := .ran policy i
      ranPid := (s.proc i).pid, ranLevel := (s.proc i).row.priority }
  rw [hproc, Handoff.Abs.ext_iff] at hcpu
  exact Handoff.Abs.ext hcpu.1 hcpu.2.1 rfl

/-- Waking one process that is asleep. -/
theorem update_of_asleep {phase : Nat → Handoff.Phase} (h : phase j = .asleep) :
    update phase j .ready =
      fun i => if phase i = .asleep ∧ i = j then .ready else phase i := by
  funext i
  by_cases hij : i = j
  · subst hij
    simp [h]
  · simp [hij]

/-- Every step of the machine is a sequence of steps of the protocol. -/
theorem Did.steps (h : Did s l s') (hc : Handoff.Coherent s.abs) (he : Embryos s) :
    Handoff.Steps s.abs s'.abs := by
  cases h with
  | idle => exact .refl
  | @fork c p n hruns hjob hlock hn hfree =>
    have hphase : s.abs.phase n = .absent := by
      simp [State.abs, Task.phase, hfree]
    have habs : (fill p n s).abs = { s.abs with phase := update s.abs.phase n .embryo } :=
      (abs_setJob _ p _).trans (abs_setProc _ _ _)
    rw [habs]
    exact .single (.make n hphase)
  | @forkFail c p n hruns hjob =>
    have hphase : s.abs.phase n = .embryo := by
      simp [State.abs, Task.phase, he p n (.inl hjob)]
    rw [abs_setJob, abs_setProc]
    exact .single (.drop n hphase)
  | forkParent hruns hjob => rw [abs_setJob, abs_setProc_self (by rfl)]
  | @forkDone c p n hruns hjob hlock =>
    have hphase : s.abs.phase n = .embryo := by
      simp [State.abs, Task.phase, he p n (.inr hjob)]
    rw [abs_setJob, abs_setProc]
    exact .single (.publish n hphase)
  | @exit c p hruns hjob hlock hne =>
    have hsteps := steps_abandon (s := s) p (ne_back_of_lock hc hlock)
    -- the wakeups leave the exiting process running on its CPU
    obtain ⟨st, hproc, _⟩ := abandon_proc p p s
    have hrun : Runs (abandon p s) c p := by
      refine ⟨?_, by rw [hproc]; exact hruns.place⟩
      rw [abandon_eq]
      exact hruns.ran
    have hfree : (abandon p s).lock = none := by
      rw [abandon_eq]
      exact hlock
    have hholds := holds_of_runs (hc.steps hsteps) hrun hfree
    exact hsteps.tail (step_leave hholds hrun.ran (.inr (.inr rfl)))
  | @reap c p j a s0 hw hj hpar hz =>
    obtain ⟨hholds, habs, hran⟩ := holds_of_waits hc hw
    have hdead : s0.abs.phase j = .dead := by
      rw [habs]
      simp [State.abs, Task.phase, hz]
    have hback := ne_back_of_holds hc hholds
    rw [← habs] at hholds hback ⊢
    have hstate := state_of_holds hholds
    have hpj : p ≠ j := by
      rintro rfl
      simp [State.abs, Task.phase, hstate] at hdead
      split at hdead <;> simp_all
    have hbury : (s0.setProc j
        { s0.proc j with pid := 0, parent := none, killed := false, state := .unused }).abs =
        { s0.abs with phase := update s0.abs.phase j .absent } := abs_setProc _ _ _
    refine .tail (.single (.bury j hdead fun d => hback d j)) ?_
    rw [← hbury]
    refine step_release (c := c) ?_ (phase_running ?_ rfl)
    · refine ⟨hholds.1, ?_⟩
      rw [hbury]
      show update s0.abs.phase j .absent p = .running ∧ _ ∨ update s0.abs.phase j .absent p = .taken
      rw [update_of_ne hpj]
      exact hholds.2
    · show ((s0.setProc j _).proc p).state = .running
      rw [State.proc_setProc_of_ne _ _ hpj]
      exact hstate
  | @noChild c p a s0 hw hno =>
    obtain ⟨hholds, habs, _⟩ := holds_of_waits hc hw
    rw [← habs] at hholds ⊢
    exact .single (step_release hholds (phase_running (state_of_holds hholds) rfl))
  | @waitSleep c p a s0 hw hno =>
    obtain ⟨hholds, habs, hran⟩ := holds_of_waits hc hw
    rw [← habs] at hholds ⊢
    exact .single (step_leave hholds hran (.inr (.inl rfl)))
  | sleep hruns hjob hlock =>
    exact .single (step_leave (holds_of_runs hc hruns hlock) hruns.ran (.inr (.inl rfl)))
  | yield hruns hlock =>
    exact .single (step_leave (holds_of_runs hc hruns hlock) hruns.ran (.inl rfl))
  | @resume c p k hran hplace hk =>
    obtain ⟨hloop, hphase⟩ := loop_of_back hc hran hplace
    have hholds : s.abs.Holds c p := ⟨hloop, .inr hphase⟩
    have hrun := state_of_holds hholds
    cases k with
    | forkret => exact .single (step_release hholds (phase_running hrun rfl))
    | yield => exact .single (step_release hholds (phase_running hrun rfl))
    | sleep => exact .single (step_release hholds (phase_running hrun rfl))
    | wait => exact absurd rfl hk
  | fault hruns => rw [abs_setProc_self (by rfl)]
  | setPolicy hruns => rw [abs_setCpu_self (by rfl)]
  | @dispatch c i l policy s0 hturn hi hrun =>
    obtain ⟨ht, habs⟩ := turn_of_turn hturn
    have hready : s0.abs.phase i = .ready := by
      rw [habs]
      simp [State.abs, Task.phase, hrun]
    rw [← habs] at ht ⊢
    rw [abs_dispatch]
    exact .single (.dispatch c i ht hready)
  | roundEnd hturn =>
    obtain ⟨ht, habs⟩ := turn_of_turn hturn
    rw [← habs] at ht ⊢
    exact .single (step_rest ht rfl)
  | @iterate c hloop hlock =>
    rw [abs_endIteration]
    exact .single (step_rest (.inl ⟨congrArg Loop.abs hloop, hlock⟩) rfl)
  | @sliceEnd c i policy hloop =>
    rw [abs_endIteration]
    have habs : ((s.setCpu c { s.cpu c with proc := none }).setProc i
        { s.proc i with row := (s.proc i).row.slice.demote }).abs = s.abs := by
      rw [abs_setProc_self (by rfl), abs_setCpu_self (by rfl)]
    rw [← habs]
    refine .single (step_rest ?_ rfl)
    rw [habs]
    exact .inr ⟨i, congrArg Loop.abs hloop⟩
  | wakeup hlock => exact .single (steps_wakeup1 _ (ne_back_of_lock hc hlock))
  | @kill j pid hlock hj hpid =>
    by_cases hsleep : (s.proc j).state = .sleeping
    · -- killing a sleeping process wakes it
      have hphase : s.abs.phase j = .asleep := by
        simp [State.abs, Task.phase, hsleep]
      rw [if_pos hsleep, abs_setProc]
      show Handoff.Steps s.abs { s.abs with phase := update s.abs.phase j .ready }
      rw [update_of_asleep hphase]
      exact .single (.wake (fun i => i = j) (ne_back_of_lock hc hlock))
    · rw [abs_setProc_self]
      simp [Task.phase, hsleep]

end Sched
end Xv6
