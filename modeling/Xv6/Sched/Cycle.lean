import Xv6.Sched.Life

/-!
# The life cycle of processes

The invariants of `Xv6.Sched.Protocol` and `Xv6.Sched.Life` together (`Inv`), in every state
of every run, on any number of CPUs.  `LifeCycle` puts what follows from them in the terms of
`fork`, `exit` and `wait`.
-/

namespace Xv6
namespace Sched

open Proc Lib

variable {s s' : State} {ls : List Label} {l : Label} {policy : Nat → Int}

/-- What holds between any two steps. -/
structure Inv (s : State) : Prop where
  coherent : Handoff.Coherent s.abs
  kin : Kin.Ok NPROC s.kin
  waiting : Waiting s
  onCpu : OnCpu s

namespace Inv

theorem start (policy : Nat → Int) : Inv (start policy) := by
  have hproc : ∀ i, i ≠ 0 → (Sched.start policy).proc i = Task.free := fun i hi => if_neg hi
  have hphase : ∀ i, (Sched.start policy).abs.phase i = if i = 0 then .ready else .absent := by
    intro i
    show ((Sched.start policy).proc i).phase = _
    split
    · next hi => subst hi; rfl
    · next hi => rw [hproc i hi]; rfl
  have hjob : ∀ p, ((Sched.start policy).proc p).job = .none := by
    intro p
    by_cases hp : p = 0
    · subst hp; rfl
    · rw [hproc p hp]; rfl
  constructor
  case coherent =>
    constructor
    case onCpu =>
      intro i hi
      rw [hphase] at hi
      split at hi <;> simp at hi
    all_goals nofun
  case kin =>
    have hjob' : ∀ p, (Sched.start policy).kin.job p = .none := hjob
    have hcls : ∀ i, (Sched.start policy).kin.cls i = if i = 0 then .alive else .unused := by
      intro i
      show cls ((Sched.start policy).proc i).state = _
      split
      · next hi => subst hi; rfl
      · next hi => rw [hproc i hi]; rfl
    have hpar : ∀ i, (Sched.start policy).kin.parent i = none := by
      intro i
      show ((Sched.start policy).proc i).parent = _
      by_cases hi : i = 0
      · subst hi; rfl
      · rw [hproc i hi]; rfl
    constructor
    case outside =>
      intro i hi
      rw [hcls, if_neg]
      rintro rfl
      cases hi
    case child =>
      intro i hi hlive
      have hi : i ≠ 0 := hi
      rw [hcls, if_neg hi] at hlive
      rcases hlive with hlive | hlive <;> cases hlive
    all_goals simp_all [Job.child]
    rfl
  case waiting =>
    intro i j hs
    by_cases hi : i = 0
    · subst hi
      cases hs
    · rw [hproc i hi] at hs
      cases hs
  case onCpu =>
    intro c
    rfl

theorem step (h : Inv s) (hs : Steps s l s') : Inv s' := by
  have hd := step_did hs
  obtain ⟨hc, hk, hw, ho⟩ := h
  refine ⟨hc.steps (hd.steps hc (embryos_of_ok hk)), ?_, hw.step hc hk hd, ho.step hd⟩
  rcases hd.kin hc with heq | hstep
  · rw [heq]
    exact hk
  · exact hk.step hstep

theorem run (h : Run Steps (Sched.start policy) ls s) : Inv s :=
  h.invariant (start policy) fun _ _ _ => step

end Inv

/-! ## Names -/

theorem names_start (policy : Nat → Int) : Kin.Names (start policy).kin := by
  have hone : ∀ i, (start policy).kin.cls i ≠ .unused → i = 0 := by
    intro i hi
    by_contra hne
    refine hi ?_
    show cls ((start policy).proc i).state = _
    rw [show (start policy).proc i = Task.free from if_neg hne]
    rfl
  constructor
  case lt =>
    intro i hi
    rw [hone i hi]
    show 1 < 2
    decide
  case inj =>
    intro i j hi hj _
    rw [hone i hi, hone j hj]
  case zombie =>
    intro i hi
    rw [hone i (by rw [hi]; nofun)] at hi
    cases hi
  case exitsNodup => exact List.nodup_nil
  case waitsNodup => exact List.nodup_nil
  case notExited => exact fun i _ => List.not_mem_nil
  all_goals nofun

/-- Names are given out once, as long as the counter has not gone round. -/
theorem names_run (h : Run Steps (start policy) ls s) (hnext : s.nextpid ≤ 2 ^ 32) :
    Kin.Names s.kin := by
  induction h with
  | nil => exact names_start policy
  | @snoc ls l s s' h hs ih =>
    have hinv := Inv.run h
    rcases (step_did hs).kin hinv.coherent with heq | hstep
    · have hsame : s'.nextpid = s.nextpid := congrArg Kin.next heq
      rw [heq]
      exact ih (hsame ▸ hnext)
    · have hle : s.kin.next ≤ s'.kin.next := hstep.next_le
      exact (ih (hle.trans hnext)).step hinv.kin hstep hnext

/-- How many pids have been given out. -/
theorem nextpid_run (h : Run Steps (start policy) ls s) : s.nextpid ≤ 2 + forks ls := by
  induction h with
  | nil => exact Nat.le_refl _
  | @snoc ls l s s' h hs ih =>
    have hle := (step_did hs).nextpid
    have happend : forks (ls ++ [l]) = forks ls + forks [l] := List.countP_append
    omega

/-! ## What `exit` and `wait` record -/

/-- What a step records: nothing, an exit, or the result of `wait`. -/
inductive Records (s : State) : Label → List Event → Prop
  | nothing (l : Label) : Records s l []
  | exit {c p : Nat} : (s.cpu c).loop.slot = some p →
      Records s (.act c .exit) [.exit (s.proc p).pid]
  | wait {c p j : Nat} {a : Act} : (s.cpu c).loop.slot = some p → (s.proc j).state = .zombie →
      (s.proc j).parent = some p → Records s (.act c a) [.wait p (s.proc j).pid]
  | noChild {c p : Nat} {a : Act} : (s.cpu c).loop.slot = some p →
      (∀ i, i < NPROC → (s.proc i).parent ≠ some p) ∨ (s.proc p).killed = true →
      Records s (.act c a) [.noChild p]

/-- The process that is in `wait` runs on its CPU. -/
theorem Waits.slot {c p : Nat} {a : Act} {s0 : State} (h : Waits s c p a s0) :
    (s.cpu c).loop.slot = some p := by
  cases h with
  | call hruns _ _ =>
    obtain ⟨policy, hloop⟩ := hruns.ran
    rw [hloop]
    rfl
  | again hran _ =>
    obtain ⟨policy, hloop⟩ := hran
    rw [hloop]
    rfl

theorem Did.records (h : Did s l s') : ∃ es, Records s l es ∧ s'.events = s.events ++ es := by
  have hsame : ∀ {s' : State}, s'.events = s.events →
      ∃ es, Records s l es ∧ s'.events = s.events ++ es :=
    fun heq => ⟨[], .nothing l, heq.trans (List.append_nil _).symm⟩
  cases h with
  | @exit c p hruns hjob hlock hne =>
    obtain ⟨policy, hloop⟩ := hruns.ran
    refine ⟨_, .exit (p := p) (by rw [hloop]; rfl), ?_⟩
    show (abandon p s).events ++ [.exit ((abandon p s).proc p).pid] = _
    obtain ⟨st, heq, _⟩ := abandon_proc p p s
    rw [heq, abandon_eq]
  | @reap c p j a s0 hw hj hpar hz =>
    refine ⟨_, .wait hw.slot hz hpar, ?_⟩
    cases hw with
    | call => rfl
    | again =>
      show s.events ++ [.wait p ((s.setProc p { s.proc p with chan := .null }).proc j).pid] = _
      rw [State.proc_setProc_apply]
      split
      · next hjp =>
        subst hjp
        rfl
      · rfl
  | @noChild c p a s0 hw hno =>
    refine ⟨_, .noChild hw.slot hno, ?_⟩
    cases hw with
    | call => rfl
    | again => rfl
  | waitSleep hw _ =>
    cases hw with
    | call => exact hsame rfl
    | again => exact hsame rfl
  | @resume c p k hran hplace hk =>
    cases k with
    | forkret => exact hsame rfl
    | yield => exact hsame rfl
    | sleep => exact hsame rfl
    | wait => exact absurd rfl hk
  | dispatch hturn _ _ =>
    cases hturn with
    | top => exact hsame rfl
    | back => exact hsame rfl
  | roundEnd hturn =>
    cases hturn with
    | top => exact hsame rfl
    | back => exact hsame rfl
  | _ => exact hsame rfl

/-! ## The life cycle -/

/-- The life cycle of processes, in one state and the steps from it. -/
structure LifeCycle (s : State) : Prop where
  /-- The pids of the slots that are in use are distinct. -/
  pids : ∀ i j, (s.proc i).state ≠ .unused → (s.proc j).state ≠ .unused →
    (s.proc i).pid = (s.proc j).pid → i = j
  /-- A process other than init that `fork` has completed has a parent, which is init if the
  creator has exited. -/
  parents : ∀ i, i ≠ s.initproc → (s.proc i).state ≠ .unused → (s.proc i).state ≠ .embryo →
    ∃ j, (s.proc i).parent = some j ∧ (s.proc j).state ≠ .unused ∧
      (.exit (s.proc i).creator ∈ s.events → j = s.initproc)
  /-- A process exits once. -/
  exits : (exited s.events).Nodup
  /-- An exited process is a ZOMBIE until `wait` returns its pid, which happens once. -/
  waits : ∀ q, .exit q ∈ s.events → (waited s.events).count q = 1 ∨
      (waited s.events).count q = 0 ∧ ∃ i, (s.proc i).state = .zombie ∧ (s.proc i).pid = q
  /-- `wait` returns pids of exited processes only. -/
  waited : ∀ q ∈ waited s.events, .exit q ∈ s.events
  /-- The process whose call of `wait` returns a pid is the parent of the process with this
  pid, which has exited. -/
  returns : ∀ l s' p q, Steps s l s' → s'.events = s.events ++ [.wait p q] →
    (∃ c a, l = .act c a ∧ (s.cpu c).proc = some p) ∧
      ∃ j, (s.proc j).state = .zombie ∧ (s.proc j).parent = some p ∧ (s.proc j).pid = q
  /-- `wait` returns -1 to a process without children or to one that has been killed. -/
  fails : ∀ l s' p, Steps s l s' → s'.events = s.events ++ [.noChild p] →
    (∀ i, (s.proc i).parent ≠ some p) ∨ (s.proc p).killed = true
  /-- A RUNNING process is the process of exactly one CPU. -/
  running : ∀ i, (s.proc i).state = .running → ∃! c, (s.cpu c).proc = some i
  /-- Nobody sleeps in `wait` with an exited child while `ptable.lock` is free. -/
  asleep : s.lock = none → ∀ i j, (s.proc i).state = .sleeping → (s.proc i).chan = .proc j →
    ∀ k, (s.proc k).parent = some i → (s.proc k).state ≠ .zombie

theorem mem_exited {q : Nat} {es : List Event} : q ∈ exited es ↔ .exit q ∈ es := by
  unfold exited
  rw [List.mem_filterMap]
  constructor
  · rintro ⟨e, he, heq⟩
    cases e <;> simp_all
  · intro h
    exact ⟨_, h, rfl⟩

theorem cls_eq_unused {x : ProcState} : cls x = .unused ↔ x = .unused := by
  cases x <;> simp [cls]

theorem cls_eq_zombie {x : ProcState} : cls x = .zombie ↔ x = .zombie := by
  cases x <;> simp [cls]

/-- The parents of the living and of the exited. -/
theorem exists_parent (hinv : Inv s) (hnames : Kin.Names s.kin) {i : Nat} (hi : i ≠ s.initproc)
    (hunused : (s.proc i).state ≠ .unused) (hembryo : (s.proc i).state ≠ .embryo) :
    ∃ j, (s.proc i).parent = some j ∧ (s.proc j).state ≠ .unused ∧
      (.exit (s.proc i).creator ∈ s.events → j = s.initproc) := by
  have hcls : s.kin.cls i = .alive ∨ s.kin.cls i = .zombie := by
    show cls _ = _ ∨ cls _ = _
    cases hst : (s.proc i).state <;> simp_all [cls]
  obtain ⟨j, hpar, halive, hwho⟩ := hinv.kin.child i hi hcls
  refine ⟨j, hpar, fun hu => ?_, fun hexit => ?_⟩
  · have halive : cls (s.proc j).state = .alive := halive
    rw [hu] at halive
    cases halive
  · -- the pid of a living process has not exited
    rcases hwho with hwho | hwho
    · exact hwho
    · have hnot := hnames.notExited j (.inr halive)
      rw [hwho] at hnot
      exact absurd (mem_exited.mpr hexit) hnot

/-- A RUNNING process is the process of exactly one CPU. -/
theorem existsUnique_cpu (hinv : Inv s) {i : Nat} (hi : (s.proc i).state = .running) :
    ∃! c, (s.cpu c).proc = some i := by
  have hphase : s.abs.phase i = .running ∨ s.abs.phase i = .taken := by
    show (s.proc i).phase = _ ∨ (s.proc i).phase = _
    unfold Task.phase
    rw [hi]
    split <;> simp_all
  have hslot : ∀ c, (s.cpu c).proc = some i ↔ s.abs.loop c = .ran i ∨ s.abs.loop c = .back i := by
    intro c
    rw [hinv.onCpu c]
    show _ ↔ (s.cpu c).loop.abs = _ ∨ (s.cpu c).loop.abs = _
    cases (s.cpu c).loop <;> simp [Loop.slot, Loop.abs]
  obtain ⟨c, hc⟩ := hinv.coherent.onCpu i hphase
  refine ⟨c, (hslot c).mpr (.inl hc), fun d hd => ?_⟩
  exact hinv.coherent.one d c i ((hslot d).mp hd) (.inl hc)

/-- For any interleaving of the calls of any number of processes on any number of CPUs, with
fewer than `2 ^ 31` calls of `fork`. -/
theorem lifeCycle_of_run (h : Run Steps (start policy) ls s) (hforks : forks ls < 2 ^ 31) :
    LifeCycle s := by
  have hinv := Inv.run h
  have hnames : Kin.Names s.kin := by
    have hnext := nextpid_run h
    exact names_run h (by omega)
  constructor
  case pids =>
    intro i j hi hj heq
    exact hnames.inj i j (fun hu => hi (cls_eq_unused.mp hu)) (fun hu => hj (cls_eq_unused.mp hu))
      heq
  case parents => exact fun i hi hu he => exists_parent hinv hnames hi hu he
  case exits => exact hnames.exitsNodup
  case waits =>
    intro q hq
    by_cases hw : q ∈ Sched.waited s.events
    · exact .inl (List.count_eq_one_of_mem hnames.waitsNodup hw)
    · obtain ⟨i, hz, hpid⟩ := hnames.pending q (mem_exited.mpr hq) hw
      exact .inr ⟨List.count_eq_zero.mpr hw, i, cls_eq_zombie.mp hz, hpid⟩
  case waited => exact fun q hq => mem_exited.mp (hnames.waitsExited q hq)
  case returns =>
    intro l s' p q hs hev
    obtain ⟨es, hrec, hes⟩ := (step_did hs).records
    obtain rfl := List.append_cancel_left (hev.symm.trans hes)
    cases hrec with
    | @wait c p j a hslot hz hpar =>
      exact ⟨⟨c, a, rfl, (hinv.onCpu c).trans hslot⟩, j, hz, hpar, rfl⟩
  case fails =>
    intro l s' p hs hev
    obtain ⟨es, hrec, hes⟩ := (step_did hs).records
    obtain rfl := List.append_cancel_left (hev.symm.trans hes)
    cases hrec with
    | noChild hslot hno =>
      refine hno.imp_left fun hno i hpar => ?_
      -- a slot outside the table has no parent
      by_cases hi : i < NPROC
      · exact hno i hi hpar
      · have hnone := hinv.kin.orphan i (hinv.kin.outside i (not_lt.mp hi))
        cases hpar.symm.trans hnone
  case running => exact fun i hi => existsUnique_cpu hinv hi
  case asleep => exact fun _ i j hs hchan => (hinv.waiting i j hs hchan).2

/-- Init forks a child and waits, the child exits, and `wait` returns its pid. -/
def forkExitWait : List Label :=
  [.schedule 0, .act 0 .resume, .act 0 .fork, .act 0 .forkParent, .act 0 .forkDone,
    .act 0 .wait, .goOn 0, .act 0 .resume, .act 0 .exit, .goOn 0, .schedule 0, .act 0 .resume]

theorem lifeCycle_of_forkExitWait :
    ∃ s, Run Steps (start fun _ => 0) forkExitWait s ∧
      (s.events == [.exit 2, .wait 0 2]) = true ∧ LifeCycle s := by
  have heval : Run.passes step forkExitWait (start fun _ => 0)
      (fun s => s.events == [.exit 2, .wait 0 2]) = true := by decide +kernel
  obtain ⟨s, hrun, hev⟩ := Run.exists_of_passes heval
  exact ⟨s, hrun, hev, lifeCycle_of_run hrun (by decide)⟩

end Sched
end Xv6
