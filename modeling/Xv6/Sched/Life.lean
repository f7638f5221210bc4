import Xv6.Sched.Protocol

/-!
# The life of processes

`State.kin` forgets everything but the processes and how they are related.  Each step of the
machine leaves it as it is or is a step of `Kin.Step` (`Did.kin`), so parents are alive and
names are given out once in every state of every run.

Two more invariants are about what `Kin` forgets: nobody sleeps in `wait` with an exited
child (`Waiting`), and a CPU knows the process it runs (`OnCpu`).
-/

namespace Xv6
namespace Sched

open Proc Lib Function

/-- What a slot in a given state holds. -/
def cls : ProcState → Class
  | .unused => .unused
  | .embryo => .embryo
  | .sleeping => .alive
  | .runnable => .alive
  | .running => .alive
  | .zombie => .zombie

/-- The pids that have exited. -/
def exited : List Event → List Nat :=
  List.filterMap fun
    | .exit pid => some pid
    | _ => none

/-- The pids that `wait` has returned. -/
def waited : List Event → List Nat :=
  List.filterMap fun
    | .wait _ pid => some pid
    | _ => none

/-- The processes and how they are related. -/
def State.kin (s : State) : Kin where
  cls := fun i => cls (s.proc i).state
  parent := fun i => (s.proc i).parent
  pid := fun i => (s.proc i).pid
  creator := fun i => (s.proc i).creator
  job := fun i => (s.proc i).job
  init := s.initproc
  next := s.nextpid
  exits := exited s.events
  waits := waited s.events

variable {s s' : State} {c i j p n : Nat} {l : Label}

/-! ## Updates -/

theorem kin_setProc (s : State) (i : Nat) (t : Task) :
    (s.setProc i t).kin =
      { s.kin with
        cls := update s.kin.cls i (cls t.state)
        parent := update s.kin.parent i t.parent
        pid := update s.kin.pid i t.pid
        creator := update s.kin.creator i t.creator
        job := update s.kin.job i t.job } := by
  have happly : ∀ {α : Type} (f : Task → α) (j : Nat),
      f ((s.setProc i t).proc j) = update (fun k => f (s.proc k)) i (f t) j := by
    intro α f j
    rw [State.proc_setProc_apply, update_apply]
    split
    · rfl
    · rfl
  ext j
  · show cls _ = _
    exact congrFun (funext (happly fun t => cls t.state)) j
  · exact Eq.to_iff (congrArg (fun x => _ ∈ x) (happly (fun t => t.parent) j))
  · exact happly (fun t => t.pid) j
  · exact happly (fun t => t.creator) j
  · exact happly (fun t => t.job) j
  · rfl
  · rfl
  · rfl
  · rfl

section

variable (s) (i)

@[simp] theorem update_kin_cls : update s.kin.cls i (cls (s.proc i).state) = s.kin.cls :=
  update_eq_self ..

@[simp] theorem update_kin_parent : update s.kin.parent i (s.proc i).parent = s.kin.parent :=
  update_eq_self ..

@[simp] theorem update_kin_pid : update s.kin.pid i (s.proc i).pid = s.kin.pid :=
  update_eq_self ..

@[simp] theorem update_kin_creator :
    update s.kin.creator i (s.proc i).creator = s.kin.creator := update_eq_self ..

@[simp] theorem update_kin_job : update s.kin.job i (s.proc i).job = s.kin.job :=
  update_eq_self ..

end

theorem kin_setJob (s : State) (p : Nat) (j : Job) :
    (s.setJob p j).kin = { s.kin with job := update s.kin.job p j } := by
  unfold State.setJob
  simp [kin_setProc]

/-- A step that moves processes between RUNNABLE, RUNNING and SLEEPING. -/
theorem kin_congr (hproc : ∀ i, cls (s'.proc i).state = cls (s.proc i).state ∧
      (s'.proc i).parent = (s.proc i).parent ∧ (s'.proc i).pid = (s.proc i).pid ∧
      (s'.proc i).creator = (s.proc i).creator ∧ (s'.proc i).job = (s.proc i).job)
    (hinit : s'.initproc = s.initproc) (hnext : s'.nextpid = s.nextpid)
    (hexited : exited s'.events = exited s.events) (hwaited : waited s'.events = waited s.events) :
    s'.kin = s.kin := by
  have hpar : s'.kin.parent = s.kin.parent := funext fun i => (hproc i).2.1
  exact Kin.ext (funext fun i => (hproc i).1) hpar (funext fun i => (hproc i).2.2.1)
    (funext fun i => (hproc i).2.2.2.1) (funext fun i => (hproc i).2.2.2.2) hinit hnext hexited
    hwaited

@[simp] theorem exited_append (es fs : List Event) : exited (es ++ fs) = exited es ++ exited fs :=
  List.filterMap_append

@[simp] theorem waited_append (es fs : List Event) : waited (es ++ fs) = waited es ++ waited fs :=
  List.filterMap_append

/-- One process moves between RUNNABLE, RUNNING and SLEEPING. -/
theorem kin_setProc_self {t : Task} (hcls : cls t.state = cls (s.proc i).state)
    (hrest : t.parent = (s.proc i).parent ∧ t.pid = (s.proc i).pid ∧
      t.creator = (s.proc i).creator ∧ t.job = (s.proc i).job) : (s.setProc i t).kin = s.kin := by
  obtain ⟨hpar, hpid, hcr, hjob⟩ := hrest
  rw [kin_setProc, hcls, hpar, hpid, hcr, hjob]
  simp

theorem kin_goto (s : State) (i : Nat) (x : Place) : (s.goto i x).kin = s.kin :=
  kin_setProc_self rfl ⟨rfl, rfl, rfl, rfl⟩

theorem cls_wake (t : Task) (chan : Chan) : cls (t.wake chan).state = cls t.state := by
  rcases wake_eq t chan with h | ⟨hs, h⟩
  · rw [h]
  · rw [h, hs]
    rfl

theorem kin_wakeup1 (chan : Chan) (s : State) : (wakeup1 chan s).kin = s.kin := by
  refine kin_congr (fun i => ⟨cls_wake _ _, ?_⟩) rfl rfl rfl rfl
  show ((s.proc i).wake chan).parent = _ ∧ ((s.proc i).wake chan).pid = _ ∧
    ((s.proc i).wake chan).creator = _ ∧ ((s.proc i).wake chan).job = _
  unfold Task.wake
  split
  · exact ⟨rfl, rfl, rfl, rfl⟩
  · exact ⟨rfl, rfl, rfl, rfl⟩

theorem kin_endIteration (policy : Int) (chosen : Option Nat) :
    (endIteration c policy chosen s).kin = s.kin := by
  refine kin_congr (fun i => ?_) rfl rfl rfl rfl
  show cls ((s.proc i).age policy (chosen == some i)).state = _ ∧
    ((s.proc i).age policy _).parent = _ ∧ ((s.proc i).age policy _).pid = _ ∧
    ((s.proc i).age policy _).creator = _ ∧ ((s.proc i).age policy _).job = _
  unfold Task.age
  split
  · exact ⟨rfl, rfl, rfl, rfl, rfl⟩
  · exact ⟨rfl, rfl, rfl, rfl, rfl⟩

theorem kin_abandon (p : Nat) (s : State) :
    (abandon p s).kin =
      { s.kin with
        parent := fun i =>
          if s.kin.parent i = some p then some s.kin.init else s.kin.parent i } := by
  have hrest := abandon_eq p s
  have hproc : ∀ i, cls ((abandon p s).proc i).state = cls (s.proc i).state ∧
      ((abandon p s).proc i).parent =
        (if (s.proc i).parent = some p then some s.initproc else (s.proc i).parent) ∧
      ((abandon p s).proc i).pid = (s.proc i).pid ∧
      ((abandon p s).proc i).creator = (s.proc i).creator ∧
      ((abandon p s).proc i).job = (s.proc i).job := by
    intro i
    obtain ⟨st, heq, hst⟩ := abandon_proc p i s
    rw [heq]
    refine ⟨?_, rfl, rfl, rfl, rfl⟩
    rcases hst with rfl | ⟨hs, rfl⟩
    · rfl
    · rw [hs]
      rfl
  refine Kin.ext (funext fun i => (hproc i).1) (funext fun i => (hproc i).2.1)
    (funext fun i => (hproc i).2.2.1) (funext fun i => (hproc i).2.2.2.1)
    (funext fun i => (hproc i).2.2.2.2) ?_ ?_ ?_ ?_
  all_goals
    rw [hrest]
    rfl

/-! ## Steps -/

theorem cls_alive {x : ProcState} (h : x = .runnable ∨ x = .sleeping ∨ x = .running) :
    cls x = .alive := by
  rcases h with rfl | rfl | rfl <;> rfl

theorem embryos_of_ok (h : Kin.Ok NPROC s.kin) : Embryos s := by
  intro p n hjob
  have hcls : s.kin.cls n = .embryo := by
    rcases hjob with hjob | hjob
    · exact (h.forking p n hjob).2.1
    · exact (h.forked p n hjob).2.1
  have hcls : cls (s.proc n).state = .embryo := hcls
  cases hst : (s.proc n).state <;> simp_all [cls]

section

variable (hc : Handoff.Coherent s.abs)

include hc

theorem running_of_runs (h : Runs s c p) : (s.proc p).state = .running := by
  have hphase : (s.proc p).phase = .running := (loop_of_runs hc h).2
  unfold Task.phase at hphase
  split at hphase <;> simp_all

/-- A process that is in `wait` runs, and the state in which it looks at the table is as good
as the one before. -/
theorem waits_facts {a : Act} {s0 : State} (h : Waits s c p a s0) :
    (s0.proc p).state = .running ∧ s0.kin = s.kin := by
  obtain ⟨hholds, habs, -⟩ := holds_of_waits hc h
  rw [← habs] at hholds
  refine ⟨state_of_holds hholds, ?_⟩
  cases h with
  | call => rfl
  | again => exact kin_setProc_self rfl ⟨rfl, rfl, rfl, rfl⟩

/-- Every step of the machine leaves the processes as they are or is a step of theirs. -/
theorem Did.kin (h : Did s l s') : s'.kin = s.kin ∨ Kin.Step NPROC s.kin s'.kin := by
  cases h with
  | idle => exact .inl rfl
  | @fork c p n hruns hjob hlock hn hfree =>
    have hp : s.kin.cls p = .alive := cls_alive (.inr (.inr (running_of_runs hc hruns)))
    have hunused : s.kin.cls n = .unused := by
      show cls _ = _
      rw [hfree]
      rfl
    right
    have hkin : (fill p n s).kin = { ((s.setProc n
          { s.proc n with state := .embryo, pid := s.nextpid % 2 ^ 32, row := Row.fresh }).setJob
            p (.forking n)).kin with next := s.nextpid + 1 } := rfl
    rw [hkin, kin_setJob, kin_setProc]
    simp only [update_kin_parent, update_kin_creator, update_kin_job]
    exact .fill p n hp hjob hn hunused
  | @forkFail c p n hruns hjob =>
    right
    rw [kin_setJob, kin_setProc]
    simp only [update_kin_parent, update_kin_pid, update_kin_creator, update_kin_job]
    exact .drop p n hjob
  | @forkParent c p n hruns hjob =>
    right
    rw [kin_setJob, kin_setProc]
    simp only [update_kin_cls, update_kin_pid, update_kin_job]
    exact .adopt p n hjob
  | @forkDone c p n hruns hjob hlock =>
    right
    rw [kin_setJob, kin_setProc]
    simp only [update_kin_parent, update_kin_pid, update_kin_creator, update_kin_job]
    exact .publish p n hjob
  | @exit c p hruns hjob hlock hne =>
    have hp : s.kin.cls p = .alive := cls_alive (.inr (.inr (running_of_runs hc hruns)))
    right
    have hpid : ((abandon p s).proc p).pid = (s.proc p).pid :=
      congrFun (congrArg Kin.pid (kin_abandon p s)) p
    have hkin : (sched c (becomeZombie p (abandon p s))).kin = { ((abandon p s).setProc p
          { (abandon p s).proc p with
            state := .zombie, place := .off
            row := ((abandon p s).proc p).row.charge }).kin with
          exits := (abandon p s).kin.exits ++ [((abandon p s).proc p).pid] } := by
      refine Kin.ext rfl rfl rfl rfl rfl rfl rfl ?_ ?_
      · exact exited_append _ _
      · exact (waited_append _ _).trans (List.append_nil _)
    rw [hkin, kin_setProc]
    simp only [update_kin_parent, update_kin_pid, update_kin_creator, update_kin_job]
    rw [hpid, kin_abandon]
    exact .exit p hp hjob hne
  | @reap c p j a s0 hw hj hpar hz =>
    obtain ⟨hrun, heq⟩ := waits_facts hc hw
    right
    have hkin : (Sched.reap p j s0).kin = { ((s0.setProc j
          { s0.proc j with pid := 0, parent := none, killed := false, state := .unused }).goto p
            .run).kin with waits := s0.kin.waits ++ [(s0.proc j).pid] } := by
      refine Kin.ext rfl rfl rfl rfl rfl rfl rfl ?_ ?_
      · exact (exited_append _ _).trans (List.append_nil _)
      · exact waited_append _ _
    rw [hkin, kin_goto, kin_setProc]
    simp only [update_kin_creator, update_kin_job]
    rw [show (s0.proc j).pid = s0.kin.pid j from rfl, heq]
    refine .reap p j ?_ hpar
    show cls _ = _
    rw [hz]
    rfl
  | @noChild c p a s0 hw hno =>
    obtain ⟨hrun, heq⟩ := waits_facts hc hw
    left
    have hkin : (Sched.noChild p s0).kin = (s0.goto p .run).kin := by
      refine Kin.ext rfl rfl rfl rfl rfl rfl rfl ?_ ?_
      · exact (exited_append _ _).trans (List.append_nil _)
      · exact (waited_append _ _).trans (List.append_nil _)
    rw [hkin, kin_goto, heq]
  | @waitSleep c p a s0 hw hno =>
    obtain ⟨hrun, heq⟩ := waits_facts hc hw
    left
    rw [← heq]
    exact kin_setProc_self (by rw [hrun]; rfl) ⟨rfl, rfl, rfl, rfl⟩
  | sleep hruns hjob hlock =>
    left
    exact kin_setProc_self (by rw [running_of_runs hc hruns]; rfl) ⟨rfl, rfl, rfl, rfl⟩
  | yield hruns hlock =>
    left
    exact kin_setProc_self (by rw [running_of_runs hc hruns]; rfl) ⟨rfl, rfl, rfl, rfl⟩
  | @resume c p k hran hplace hk =>
    left
    cases k with
    | forkret => exact kin_goto s p .run
    | yield => exact kin_goto s p .run
    | sleep => exact kin_setProc_self (s := s) rfl ⟨rfl, rfl, rfl, rfl⟩
    | wait => exact absurd rfl hk
  | fault hruns => exact .inl (kin_setProc_self rfl ⟨rfl, rfl, rfl, rfl⟩)
  | setPolicy hruns => exact .inl rfl
  | @dispatch c i l policy s0 hturn hi hrun =>
    left
    have hproc : s0.kin = s.kin ∧ s0.proc i = s.proc i := by
      cases hturn with
      | top => exact ⟨rfl, rfl⟩
      | back => exact ⟨rfl, rfl⟩
    rw [← hproc.1]
    refine kin_setProc_self (s := s0) ?_ ⟨rfl, rfl, rfl, rfl⟩
    rw [hproc.2, hrun]
    rfl
  | roundEnd hturn =>
    left
    cases hturn with
    | top => rfl
    | back => rfl
  | iterate hloop hlock => exact .inl (kin_endIteration _ _)
  | @sliceEnd c i policy hloop =>
    left
    rw [kin_endIteration]
    exact kin_setProc_self (s := s.setCpu c { s.cpu c with proc := none }) rfl ⟨rfl, rfl, rfl, rfl⟩
  | wakeup hlock => exact .inl (kin_wakeup1 _ _)
  | @kill j pid hlock hj hpid =>
    left
    refine kin_setProc_self ?_ ⟨rfl, rfl, rfl, rfl⟩
    split
    · next hsleep =>
      rw [hsleep]
      rfl
    · rfl

end

/-! ## Sleeping in `wait` -/

/-- Nobody sleeps in `wait` with an exited child. -/
def Waiting (s : State) : Prop :=
  ∀ i j, (s.proc i).state = .sleeping → (s.proc i).chan = .proc j →
    j = i ∧ ∀ k, (s.proc k).parent = some i → (s.proc k).state ≠ .zombie

namespace Waiting

/-- Nobody new sleeps in `wait`, and there is no new exited child. -/
theorem mono (h : Waiting s)
    (hsleep : ∀ i j, (s'.proc i).state = .sleeping → (s'.proc i).chan = .proc j →
      (s.proc i).state = .sleeping ∧ (s.proc i).chan = .proc j)
    (hzombie : ∀ k i, (s'.proc k).parent = some i → (s'.proc k).state = .zombie →
      (s.proc k).parent = some i ∧ (s.proc k).state = .zombie) : Waiting s' := by
  intro i j hs hchan
  obtain ⟨hs0, hchan0⟩ := hsleep i j hs hchan
  obtain ⟨hji, hkids⟩ := h i j hs0 hchan0
  refine ⟨hji, fun k hpar hz => ?_⟩
  obtain ⟨hpar0, hz0⟩ := hzombie k i hpar hz
  exact hkids k hpar0 hz0

/-- As `mono`, for one slot. -/
theorem setProc (h : Waiting s) {t : Task} (hsleep : ∀ j, t.state = .sleeping → t.chan = .proc j →
      (s.proc i).state = .sleeping ∧ (s.proc i).chan = .proc j)
    (hzombie : t.state = .zombie → t.parent = (s.proc i).parent ∧ (s.proc i).state = .zombie) :
    Waiting (s.setProc i t) := by
  refine h.mono (fun k j hs hchan => ?_) (fun k j hpar hz => ?_)
  · rw [State.proc_setProc_apply] at hs hchan
    split at hs
    · next hki =>
      rw [if_pos hki] at hchan
      exact hki ▸ hsleep j hs hchan
    · next hki =>
      rw [if_neg hki] at hchan
      exact ⟨hs, hchan⟩
  · rw [State.proc_setProc_apply] at hpar hz
    split at hz
    · next hki =>
      rw [if_pos hki] at hpar
      exact hki ▸ ⟨(hzombie hz).1 ▸ hpar, (hzombie hz).2⟩
    · next hki =>
      rw [if_neg hki] at hpar
      exact ⟨hpar, hz⟩

/-- One process goes on, and neither sleeps in `wait` nor has exited. -/
theorem setProc_of_ne (h : Waiting s) {t : Task} (hsleep : ∀ j, t.state = .sleeping → t.chan ≠ .proc j)
    (hzombie : t.state ≠ .zombie) : Waiting (s.setProc i t) :=
  h.setProc (fun j hs hchan => absurd hchan (hsleep j hs)) fun hz => absurd hz hzombie

/-- Nothing changes that matters. -/
theorem setProc_self (h : Waiting s) {t : Task} (hstate : t.state = (s.proc i).state)
    (hchan : t.chan = (s.proc i).chan) (hpar : t.parent = (s.proc i).parent) :
    Waiting (s.setProc i t) :=
  h.setProc (fun _ hs hc => ⟨hstate ▸ hs, hchan ▸ hc⟩) fun hz => ⟨hpar, hstate ▸ hz⟩

theorem setJob (h : Waiting s) (p : Nat) (j : Job) : Waiting (s.setJob p j) :=
  h.setProc_self rfl rfl rfl

theorem goto (h : Waiting s) (p : Nat) (x : Place) : Waiting (s.goto p x) :=
  h.setProc_self rfl rfl rfl

theorem wake (h : Waiting s) (chan : Chan) : Waiting (wakeup1 chan s) := by
  refine h.mono (fun i j hs hchan => ?_) (fun k i hpar hz => ?_)
  · have hs : ((s.proc i).wake chan).state = .sleeping := hs
    have hchan : ((s.proc i).wake chan).chan = .proc j := hchan
    rcases wake_eq (s.proc i) chan with heq | ⟨_, heq⟩
    · rw [heq] at hs hchan
      exact ⟨hs, hchan⟩
    · rw [heq] at hs
      cases hs
  · have hpar : ((s.proc k).wake chan).parent = some i := hpar
    have hz : ((s.proc k).wake chan).state = .zombie := hz
    rcases wake_eq (s.proc k) chan with heq | ⟨_, heq⟩
    · rw [heq] at hpar hz
      exact ⟨hpar, hz⟩
    · rw [heq] at hz
      cases hz

theorem age (h : Waiting s) (policy : Int) (chosen : Option Nat) :
    Waiting (endIteration c policy chosen s) := by
  have hage : ∀ i, ((endIteration c policy chosen s).proc i).state = (s.proc i).state ∧
      ((endIteration c policy chosen s).proc i).chan = (s.proc i).chan ∧
      ((endIteration c policy chosen s).proc i).parent = (s.proc i).parent := by
    intro i
    show ((s.proc i).age policy (chosen == some i)).state = _ ∧
      ((s.proc i).age policy _).chan = _ ∧ ((s.proc i).age policy _).parent = _
    unfold Task.age
    split
    · exact ⟨rfl, rfl, rfl⟩
    · exact ⟨rfl, rfl, rfl⟩
  refine h.mono (fun i j hs hchan => ?_) (fun k i hpar hz => ?_)
  · exact ⟨(hage i).1 ▸ hs, (hage i).2.1 ▸ hchan⟩
  · exact ⟨(hage k).2.2 ▸ hpar, (hage k).1 ▸ hz⟩

end Waiting

/-- What sleeps after a wakeup slept before, on another channel. -/
theorem sleeping_wake {t : Task} {chan : Chan} (h : (t.wake chan).state = .sleeping) :
    t.wake chan = t ∧ t.chan ≠ chan := by
  unfold Task.wake at h ⊢
  split at h
  · cases h
  · next hno =>
    rw [if_neg hno]
    exact ⟨rfl, fun hchan => hno ⟨h, hchan⟩⟩

/-- Who sleeps after `exit` has dealt with the other processes: not the parent in `wait`, and
not init in `wait` if it gets an exited child. -/
theorem sleeping_abandon (h : ((abandon p s).proc i).state = .sleeping) :
    (s.proc i).state = .sleeping ∧ ((abandon p s).proc i).chan = (s.proc i).chan ∧
      (s.proc i).chan ≠ waitChan (s.proc p).parent ∧
      ((∃ k, k < NPROC ∧ (s.proc k).parent = some p ∧ (s.proc k).state = .zombie) →
        (s.proc i).chan ≠ .proc s.initproc) := by
  -- the state after the first wakeup and the new parents
  have hfirst : ∀ {t : Task},
      t = (reparent p (wakeup1 (waitChan (s.proc p).parent) s)).proc i → t.state = .sleeping →
      (s.proc i).state = .sleeping ∧ t.chan = (s.proc i).chan ∧
        (s.proc i).chan ≠ waitChan (s.proc p).parent := by
    intro t ht hsleep
    have ht : t = if ((s.proc i).wake (waitChan (s.proc p).parent)).parent = some p then
        { (s.proc i).wake (waitChan (s.proc p).parent) with parent := some s.initproc }
      else (s.proc i).wake (waitChan (s.proc p).parent) := ht
    have hstate : t.state = ((s.proc i).wake (waitChan (s.proc p).parent)).state ∧
        t.chan = ((s.proc i).wake (waitChan (s.proc p).parent)).chan := by
      rw [ht]
      split
      · exact ⟨rfl, rfl⟩
      · exact ⟨rfl, rfl⟩
    obtain ⟨heq, hne⟩ := sleeping_wake (hstate.1 ▸ hsleep)
    rw [heq] at hstate
    exact ⟨hstate.1 ▸ hsleep, hstate.2, hne⟩
  unfold abandon at h ⊢
  dsimp only at h ⊢
  split at h
  · next horphan =>
    rw [if_pos horphan]
    have h : (((reparent p (wakeup1 (waitChan (s.proc p).parent) s)).proc i).wake
      (.proc s.initproc)).state = .sleeping := h
    obtain ⟨heq, hne⟩ := sleeping_wake h
    rw [heq] at h
    obtain ⟨hs, hchan, hpar⟩ := hfirst rfl h
    refine ⟨hs, ?_, hpar, fun _ => hchan ▸ hne⟩
    exact (congrArg Task.chan heq).trans hchan
  · next horphan =>
    rw [if_neg horphan]
    obtain ⟨hs, hchan, hpar⟩ := hfirst rfl h
    refine ⟨hs, hchan, hpar, ?_⟩
    rintro ⟨k, hk, hkpar, hkz⟩
    -- the search would have found this child
    rw [Bool.not_eq_true, Option.isSome_eq_false_iff, Option.isNone_iff_eq_none] at horphan
    have hno := State.find_none horphan hk
    have hwake : (wakeup1 (waitChan (s.proc p).parent) s).proc k = s.proc k := by
      rcases wake_eq (s.proc k) (waitChan (s.proc p).parent) with heq | ⟨hsleep, _⟩
      · exact heq
      · cases hkz.symm.trans hsleep
    rw [hwake] at hno
    simp [hkpar, hkz] at hno

/-- `exit` wakes whoever waits for the exiting process or for one of its children. -/
theorem waiting_exit (h : Waiting s) (hok : Kin.Ok NPROC s.kin) :
    Waiting (sched c (becomeZombie p (abandon p s))) := by
  have hstate : ∀ i, i ≠ p →
      ((sched c (becomeZombie p (abandon p s))).proc i) = (abandon p s).proc i :=
    fun i hi => State.proc_setProc_of_ne _ _ hi
  have hp : ((sched c (becomeZombie p (abandon p s))).proc p).state = .zombie := by
    show (((abandon p s).setProc p _).proc p).state = _
    rw [State.proc_setProc]
  have hparent : ∀ k, ((sched c (becomeZombie p (abandon p s))).proc k).parent =
      if (s.proc k).parent = some p then some s.initproc else (s.proc k).parent := by
    intro k
    obtain ⟨st, heq, _⟩ := abandon_proc p k s
    by_cases hk : k = p
    · subst hk
      show (((abandon k s).setProc k _).proc k).parent = _
      rw [State.proc_setProc, heq]
    · rw [hstate k hk, heq]
  intro i j hs hchan
  have hip : i ≠ p := by
    rintro rfl
    cases hp.symm.trans hs
  rw [hstate i hip] at hs hchan
  obtain ⟨hs0, hchan0, hnotParent, hnotInit⟩ := sleeping_abandon hs
  rw [hchan0] at hchan
  obtain ⟨hji, hkids⟩ := h i j hs0 hchan
  subst hji
  refine ⟨rfl, fun k hpar hz => ?_⟩
  rw [hparent k] at hpar
  by_cases hkp : k = p
  · -- the exiting process itself: its parent has been woken
    subst hkp
    have hne : (s.proc k).parent ≠ some k := hok.irrefl k
    rw [if_neg hne] at hpar
    rw [hchan, hpar] at hnotParent
    exact hnotParent rfl
  · have hz0 : (s.proc k).state = .zombie := by
      obtain ⟨st, heq, hst⟩ := abandon_proc p k s
      rw [hstate k hkp, heq] at hz
      rcases hst with hst | ⟨_, hst⟩
      · exact hst.symm.trans hz
      · cases hst.symm.trans hz
    split at hpar
    · -- a child that init gets: init has been woken
      next hkpar =>
      have hk : k < NPROC := by
        by_contra hge
        have hunused : cls (s.proc k).state = .unused := hok.outside k (not_lt.mp hge)
        rw [hz0] at hunused
        cases hunused
      cases hpar
      exact hnotInit ⟨k, hk, hkpar, hz0⟩ hchan
    · exact hkids k hpar hz0

/-- A process goes to sleep in `wait`, having found no exited child. -/
theorem waiting_sleepOn (h : Waiting s) (hok : Kin.Ok NPROC s.kin)
    (hno : ∀ i, i < NPROC → (s.proc i).parent = some p → (s.proc i).state ≠ .zombie) :
    Waiting (sleepOn c p (.proc p) .wait s) := by
  have hproc : (sleepOn c p (.proc p) .wait s).proc = (s.setProc p
        { s.proc p with chan := .proc p, state := .sleeping, place := .sched .wait }).proc := rfl
  -- there is no new exited process, and the new parent is none
  have hzombie : ∀ k i, ((sleepOn c p (.proc p) .wait s).proc k).parent = some i →
      ((sleepOn c p (.proc p) .wait s).proc k).state = .zombie →
      (s.proc k).parent = some i ∧ (s.proc k).state = .zombie := by
    intro k i hpar hz
    rw [hproc, State.proc_setProc_apply] at hpar hz
    split at hz
    · cases hz
    · next hk =>
      rw [if_neg hk] at hpar
      exact ⟨hpar, hz⟩
  intro i j hs hchan
  by_cases hip : i = p
  · subst hip
    rw [hproc, State.proc_setProc] at hchan
    cases hchan
    refine ⟨rfl, fun k hpar hz => ?_⟩
    obtain ⟨hpar0, hz0⟩ := hzombie k i hpar hz
    by_cases hk : k < NPROC
    · exact hno k hk hpar0 hz0
    · have hunused : cls (s.proc k).state = .unused := hok.outside k (not_lt.mp hk)
      rw [hz0] at hunused
      cases hunused
  · rw [hproc, State.proc_setProc_of_ne _ _ hip] at hs hchan
    obtain ⟨hji, hkids⟩ := h i j hs hchan
    refine ⟨hji, fun k hpar hz => ?_⟩
    obtain ⟨hpar0, hz0⟩ := hzombie k i hpar hz
    exact hkids k hpar0 hz0

/-- The state in which a process in `wait` looks at the table. -/
theorem Waiting.waits (h : Waiting s) {a : Act} {s0 : State} (hw : Waits s c p a s0) :
    Waiting s0 := by
  cases hw with
  | call => exact h
  | again => exact h.setProc (fun _ _ => nofun) fun hz => ⟨rfl, hz⟩

theorem Waiting.step (h : Waiting s) (hc : Handoff.Coherent s.abs) (hok : Kin.Ok NPROC s.kin)
    (hd : Did s l s') : Waiting s' := by
  cases hd with
  | idle => exact h
  | @fork c p n hruns hjob hlock hn hfree =>
    show Waiting (State.setJob (s.setProc n _) p _)
    apply Waiting.setJob
    apply h.setProc_of_ne
    · nofun
    · nofun
  | @forkFail c p n hruns hjob =>
    apply Waiting.setJob
    apply h.setProc_of_ne
    · nofun
    · nofun
  | @forkParent c p n hruns hjob =>
    have hembryo := embryos_of_ok hok p n (.inl hjob)
    refine Waiting.setJob (h.setProc_of_ne (fun j hs => ?_) fun hz => ?_) p (.forked n)
    · cases hembryo.symm.trans hs
    · cases hembryo.symm.trans hz
  | @forkDone c p n hruns hjob hlock =>
    apply Waiting.setJob
    apply h.setProc_of_ne
    · nofun
    · nofun
  | exit hruns hjob hlock hne => exact waiting_exit h hok
  | @reap c p j a s0 hw hj hpar hz =>
    show Waiting (State.goto (s0.setProc j _) p _)
    apply Waiting.goto
    apply (h.waits hw).setProc_of_ne
    · nofun
    · nofun
  | @noChild c p a s0 hw hno => exact (h.waits hw).goto p .run
  | @waitSleep c p a s0 hw hno =>
    have heq := (waits_facts hc hw).2
    refine waiting_sleepOn (h.waits hw) (heq ▸ hok) fun i hi hpar hz => ?_
    exact hno i hi ((hw.same i).1 ▸ hpar) ((hw.same i).2.1 ▸ hz)
  | @sleep c p n hruns hjob hlock =>
    exact Waiting.setProc_of_ne (i := p) h (fun j _ => nofun) nofun
  | yield hruns hlock => exact Waiting.setProc_of_ne (i := _) h nofun nofun
  | @resume c p k hran hplace hk =>
    cases k with
    | forkret => exact h.goto p .run
    | yield => exact h.goto p .run
    | sleep => exact Waiting.setProc (i := p) h (fun _ _ => nofun) fun hz => ⟨rfl, hz⟩
    | wait => exact absurd rfl hk
  | fault hruns => exact h.setProc_self rfl rfl rfl
  | setPolicy hruns => exact h
  | @dispatch c i l policy s0 hturn hi hrun =>
    have hproc : Waiting s0 := by
      cases hturn with
      | top => exact h
      | back => exact h
    exact hproc.setProc_of_ne (i := i) nofun nofun
  | roundEnd hturn =>
    cases hturn with
    | top => exact h
    | back => exact h
  | iterate hloop hlock => exact h.age _ _
  | @sliceEnd c i policy hloop =>
    apply Waiting.age
    show Waiting (s.setProc i _)
    exact h.setProc_self rfl rfl rfl
  | wakeup hlock => exact h.wake _
  | @kill j pid hlock hj hpid =>
    refine h.setProc (fun k hs => ?_) fun hz => ?_
    · dsimp only at hs
      split at hs
      · cases hs
      · next hne => exact absurd hs hne
    · dsimp only at hz
      split at hz
      · cases hz
      · exact ⟨rfl, hz⟩

/-! ## The process of a CPU -/

/-- The slot whose process the scheduler has switched to. -/
def Loop.slot : Loop → Option Nat
  | .top => none
  | .ran _ i => some i
  | .back _ i => some i

/-- `c->proc` is the process the scheduler has switched to. -/
def OnCpu (s : State) : Prop := ∀ c, (s.cpu c).proc = (s.cpu c).loop.slot

/-- One CPU goes on. -/
theorem OnCpu.update (h : OnCpu s) (hother : ∀ d, d ≠ c → s'.cpu d = s.cpu d)
    (hc : (s'.cpu c).proc = (s'.cpu c).loop.slot) : OnCpu s' := by
  intro d
  by_cases hd : d = c
  · subst hd
    exact hc
  · rw [hother d hd]
    exact h d

theorem OnCpu.sched (h : OnCpu s) (c : Nat) : OnCpu (sched c s) := by
  refine h.update (c := c) (fun d hd => update_of_ne hd ..) ?_
  rw [sched_cpu]
  show (s.cpu c).proc = Loop.slot _
  rw [h c]
  cases (s.cpu c).loop with
  | top => rfl
  | ran policy i => rfl
  | back policy i => rfl

theorem OnCpu.step (h : OnCpu s) (hd : Did s l s') : OnCpu s' := by
  -- the steps that leave the CPUs alone
  have hsame : ∀ {s' : State}, s'.cpu = s.cpu → OnCpu s' := by
    intro s' hcpu
    unfold OnCpu
    rw [hcpu]
    exact h
  cases hd with
  | exit hruns hjob hlock hne =>
    refine OnCpu.sched (hsame ?_) _
    show (abandon _ s).cpu = s.cpu
    rw [abandon_eq]
  | reap hw _ _ _ =>
    have hcpu := hw.rest.1
    exact hsame hcpu
  | noChild hw _ =>
    have hcpu := hw.rest.1
    exact hsame hcpu
  | waitSleep hw _ =>
    have hcpu := hw.rest.1
    exact OnCpu.sched (hsame hcpu) _
  | sleep hruns hjob hlock => exact OnCpu.sched (hsame rfl) _
  | yield hruns hlock => exact OnCpu.sched (hsame rfl) _
  | @resume c p k hran hplace hk =>
    cases k with
    | forkret => exact h
    | yield => exact h
    | sleep => exact h
    | wait => exact absurd rfl hk
  | @setPolicy c p policy hruns =>
    refine h.update (c := c) (fun d hd => update_of_ne hd ..) ?_
    rw [State.cpu_setCpu]
    exact h c
  | @dispatch c i l policy s0 hturn hi hrun =>
    refine h.update (c := c) (fun d hd => ?_) ?_
    · refine (update_of_ne hd ..).trans ?_
      cases hturn with
      | top => rfl
      | back => exact update_of_ne hd ..
    · have hcpu : (Sched.dispatch c i policy s0).cpu c =
          { s0.cpu c with
            proc := some i, loop := .ran policy i
            ranPid := (s0.proc i).pid, ranLevel := (s0.proc i).row.priority } :=
        update_self ..
      rw [hcpu]
      rfl
  | @roundEnd c l s0 hturn =>
    refine h.update (c := c) (fun d hd => ?_) ?_
    · refine (update_of_ne hd ..).trans ?_
      cases hturn with
      | top => rfl
      | back => exact update_of_ne hd ..
    · show ((s0.setCpu c _).cpu c).proc = ((s0.setCpu c _).cpu c).loop.slot
      rw [State.cpu_setCpu]
      cases hturn with
      | top hloop hlock => exact (h c).trans (congrArg Loop.slot hloop)
      | back i hloop =>
        show ((s.setCpu c _).cpu c).proc = none
        rw [State.cpu_setCpu]
  | @iterate c hloop hlock =>
    refine h.update (c := c) (fun d hd => update_of_ne hd ..) ?_
    have hcpu : (endIteration c (s.cpu c).policy none s).cpu c =
        { s.cpu c with loop := .top, iterations := (s.cpu c).iterations + 1 } :=
      update_self ..
    rw [hcpu]
    exact (h c).trans (congrArg Loop.slot hloop)
  | @sliceEnd c i policy hloop =>
    refine h.update (c := c) (fun d hd => ?_) ?_
    · exact (update_of_ne hd ..).trans (update_of_ne hd ..)
    · have hcpu : ∀ s0 : State, (endIteration c policy (some i) s0).cpu c =
          { s0.cpu c with loop := .top, iterations := (s0.cpu c).iterations + 1 } :=
        fun _ => update_self ..
      rw [hcpu]
      show ((s.setCpu c _).cpu c).proc = none
      rw [State.cpu_setCpu]
  | _ => exact h

/-! ## The number of processes made -/

/-- How often `fork` is called. -/
def forks (ls : List Label) : Nat :=
  ls.countP fun
    | .act _ .fork => true
    | _ => false

theorem Did.nextpid (h : Did s l s') : s'.nextpid ≤ s.nextpid + forks [l] := by
  have hsame : ∀ {s' : State}, s'.nextpid = s.nextpid → s'.nextpid ≤ s.nextpid + forks [l] :=
    fun heq => heq ▸ Nat.le_add_right ..
  cases h with
  | fork => exact Nat.le_refl _
  | exit =>
    apply hsame
    show (abandon _ s).nextpid = s.nextpid
    rw [abandon_eq]
  | reap hw _ _ _ =>
    have hnext := hw.rest.2
    exact hsame hnext
  | noChild hw _ =>
    have hnext := hw.rest.2
    exact hsame hnext
  | waitSleep hw _ =>
    have hnext := hw.rest.2
    exact hsame hnext
  | @resume c p k hran hplace hk =>
    cases k with
    | forkret => exact hsame rfl
    | yield => exact hsame rfl
    | sleep => exact hsame rfl
    | wait => exact absurd rfl hk
  | @dispatch c i l policy s0 hturn =>
    cases hturn with
    | top => exact hsame rfl
    | back => exact hsame rfl
  | @roundEnd c l s0 hturn =>
    cases hturn with
    | top => exact hsame rfl
    | back => exact hsame rfl
  | _ => exact hsame rfl

end Sched
end Xv6
