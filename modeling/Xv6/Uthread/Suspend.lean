import Xv6.Lib.Run
import Xv6.Uthread.Model

/-!
# Suspending and resuming threads (`uthread3.c`)

The threads of `uthread3.c` under any sequence of calls.  A call is one step, but a thread
that suspends itself or exits takes two: it sets its own state, and then it is on its way into
`thread_schedule` and can do nothing else.  Between two calls `next_thread` is 0.

`thread_switch` stores the stack pointer at the address of the thread it leaves.  In this
program the first field of `struct thread` is `tid`, so the switch overwrites the `tid`; the
stack pointer is part of the step.

`thread_schedule` makes the thread it leaves RUNNABLE, also one that has just suspended itself
or exited; and `thread_suspend` and `thread_resume` take no notice of FREE.  Away from these
two the states are what they are meant to be (`obeys_iff`).
-/

namespace Xv6
namespace Uthread
namespace Suspend

open Lib Function

/-- The fields of `struct thread` that the calls read. -/
structure Thread where
  tid : Int
  state : ThreadState

/-- `all_thread` and `current_thread`. -/
structure State where
  thread : Nat → Thread
  current : Nat
  /-- The current thread has set its own state and is about to call `thread_schedule`. -/
  leaving : Bool

variable {s s' : State}

/-- The states of all threads. -/
def State.state (s : State) (i : Nat) : ThreadState :=
  (s.thread i).state

/-- `t->state = state`. -/
def State.setState (s : State) (i : Nat) (state : ThreadState) : State :=
  { s with thread := update s.thread i { s.thread i with state := state } }

@[simp] theorem setState_current (s : State) (i : Nat) (state : ThreadState) :
    (s.setState i state).current = s.current := rfl

@[simp] theorem setState_leaving (s : State) (i : Nat) (state : ThreadState) :
    (s.setState i state).leaving = s.leaving := rfl

theorem setState_state (s : State) (i : Nat) (state : ThreadState) :
    (s.setState i state).state = update s.state i state := by
  funext j
  by_cases hj : j = i
  · subst hj
    simp [State.state, State.setState]
  · simp [State.state, State.setState, hj]

/-- The state after `thread_init`: `all_thread` is zero but for the main thread. -/
def threadInit : State where
  thread i := ⟨0, if i = 0 then .running else .free⟩
  current := 0
  leaving := false

/-- `thread_create`, which returns the `tid`. -/
def threadCreate (s : State) : Except String (Int × State) :=
  match Program.uthread3.firstFree s.state with
  | none => .error "thread_create: no available slot\n"
  | some t => .ok (t, { s with thread := update s.thread t ⟨t, .runnable⟩ })

/-- The loop of `thread_suspend` and `thread_resume`. -/
def State.find (s : State) (tid : Int) : Option Nat :=
  (List.range Program.uthread3.maxThread).find? fun t => (s.thread t).tid = tid

/-- `t->state = WAIT`, after which the current thread calls `thread_schedule`. -/
def State.suspend (s : State) (t : Nat) : State :=
  { s.setState t .wait with leaving := t = s.current }

theorem suspend_state (s : State) (t : Nat) :
    (s.suspend t).state = update s.state t .wait :=
  setState_state s t .wait

/-- `thread_suspend`, up to its call of `thread_schedule`. -/
def threadSuspend (tid : Int) (s : State) : Except String State :=
  match s.find tid with
  | none => .error s!"thread_suspend: thread with tid {tid} not found\n"
  | some t =>
    if s.state t = .wait then
      .error s!"thread_suspend: thread with tid {tid} is already suspended\n"
    else .ok (s.suspend t)

/-- `thread_resume`. -/
def threadResume (tid : Int) (s : State) : Except String State :=
  match s.find tid with
  | none => .error s!"thread_resume: thread with tid {tid} not found\n"
  | some t =>
    if s.state t = .running then
      .error s!"thread_resume: thread with tid {tid} is already running\n"
    else .ok (s.setState t .runnable)

/-- The end of a thread: `current_thread->state = FREE`, before it calls `thread_schedule`. -/
def threadExit (s : State) : State :=
  { s.setState s.current .free with leaving := true }

theorem threadExit_state (s : State) :
    (threadExit s).state = update s.state s.current .free :=
  setState_state s s.current .free

/-- `thread_switch`: the stack pointer goes to offset 0 of the thread that is left. -/
def threadSwitch (esp : Int) (next : Nat) (s : State) : State :=
  { s with
    thread := update s.thread s.current { s.thread s.current with tid := esp }
    current := next }

/-- The states that `thread_schedule` sets. -/
def State.handOver (s : State) (next : Nat) : State where
  thread i := ⟨(s.thread i).tid, Program.uthread3.handOver s.state s.current next i⟩
  current := s.current
  leaving := false

/-- `thread_schedule`; an error ends the process. -/
def threadSchedule (esp : Int) (s : State) : Except String State :=
  match Program.uthread3.findNext s.state s.current with
  | none => .error "thread_schedule: no runnable threads\n"
  | some next =>
    if s.current ≠ next then .ok (threadSwitch esp next (s.handOver next))
    else .ok { s with leaving := false }

/-- The calls, whichever thread makes them. -/
inductive Call where
  | create
  | suspend (tid : Int)
  | resume (tid : Int)
  | exit
  /-- `esp` is the stack pointer at which `thread_switch` leaves. -/
  | schedule (esp : Int)

/-- A call that fails prints a message and changes nothing. -/
def State.orKeep (s : State) : Except String State → State
  | .ok s' => s'
  | .error _ => s

/-- One call. -/
def step : Call → State → Except String State
  | .create, s => .ok (s.orKeep ((threadCreate s).map Prod.snd))
  | .suspend tid, s => .ok (s.orKeep (threadSuspend tid s))
  | .resume tid, s => .ok (s.orKeep (threadResume tid s))
  | .exit, s => .ok (threadExit s)
  | .schedule esp, s => threadSchedule esp s

/-- The call can be made next, and leads to `s'`. -/
def Steps (s : State) (c : Call) (s' : State) : Prop :=
  (s.leaving = true → ∃ esp, c = .schedule esp) ∧ step c s = .ok s'

/-! ## What a call does -/

/-- Everything a call can do.  A call that finds a FREE thread does something to it. -/
inductive Did (s : State) : Call → State → Prop
  | full : Did s .create s
  | notSuspended {tid : Int} (hfind : ∀ t, s.find tid = some t → s.state t = .wait) :
      Did s (.suspend tid) s
  | notResumed {tid : Int} (hfind : ∀ t, s.find tid = some t → s.state t = .running) :
      Did s (.resume tid) s
  | create {t : Nat} (hfree : s.state t = .free) :
      Did s .create { s with thread := update s.thread t ⟨t, .runnable⟩ }
  | suspend {tid : Int} {t : Nat} (hfind : s.find tid = some t) (hwait : s.state t ≠ .wait) :
      Did s (.suspend tid) (s.suspend t)
  | resume {tid : Int} {t : Nat} (hfind : s.find tid = some t) (hrun : s.state t ≠ .running) :
      Did s (.resume tid) (s.setState t .runnable)
  | exit : Did s .exit (threadExit s)
  | switch {esp : Int} {next : Nat} (hnext : s.state next = .runnable) (hne : next ≠ s.current) :
      Did s (.schedule esp) (threadSwitch esp next (s.handOver next))
  | stay {esp : Int} (hcur : s.state s.current = .runnable) :
      Did s (.schedule esp) { s with leaving := false }

variable {c : Call}

theorem step_did (h : step c s = .ok s') : Did s c s' := by
  cases c with
  | create =>
    cases h
    show Did s .create (s.orKeep ((threadCreate s).map Prod.snd))
    cases ht : Program.uthread3.firstFree s.state with
    | none =>
      rw [show threadCreate s = _ by unfold threadCreate; rw [ht]]
      exact .full
    | some t =>
      rw [show threadCreate s = _ by unfold threadCreate; rw [ht]]
      exact .create (firstFree_spec ht).2
  | suspend tid =>
    cases h
    cases ht : s.find tid with
    | none =>
      rw [show threadSuspend tid s = _ by unfold threadSuspend; rw [ht]]
      exact .notSuspended fun t h => by cases ht.symm.trans h
    | some t =>
      rw [show threadSuspend tid s = _ by unfold threadSuspend; rw [ht]]
      by_cases hwait : s.state t = .wait
      · simp only [if_pos hwait]
        exact .notSuspended fun t' h => by cases ht.symm.trans h; exact hwait
      · simp only [if_neg hwait]
        exact .suspend ht hwait
  | resume tid =>
    cases h
    cases ht : s.find tid with
    | none =>
      rw [show threadResume tid s = _ by unfold threadResume; rw [ht]]
      exact .notResumed fun t h => by cases ht.symm.trans h
    | some t =>
      rw [show threadResume tid s = _ by unfold threadResume; rw [ht]]
      by_cases hrun : s.state t = .running
      · simp only [if_pos hrun]
        exact .notResumed fun t' h => by cases ht.symm.trans h; exact hrun
      · simp only [if_neg hrun]
        exact .resume ht hrun
  | exit =>
    cases h
    exact .exit
  | schedule esp =>
    change threadSchedule esp s = .ok s' at h
    unfold threadSchedule at h
    split at h
    · cases h
    · next n hn =>
      have hspec := findNext_spec hn
      split at h
      · next hne =>
        cases h
        rcases hspec with ⟨_, hrun, _⟩ | ⟨heq, _⟩
        · exact .switch hrun (Ne.symm hne)
        · exact absurd heq.symm hne
      · next heq =>
        cases h
        rw [not_not] at heq
        rcases hspec with ⟨_, _, hne⟩ | ⟨_, hcur | ⟨hp, _⟩⟩
        · exact absurd heq.symm hne
        · exact .stay hcur
        · cases hp

theorem find_tid {tid : Int} {t : Nat} (h : s.find tid = some t) : (s.thread t).tid = tid := by
  have htid := List.find?_some h
  simpa only [decide_eq_true_eq] using htid

/-- The states after a call of `thread_create`. -/
theorem create_state (s : State) (t : Nat) :
    State.state { s with thread := update s.thread t ⟨t, .runnable⟩ } =
      update s.state t .runnable := by
  funext j
  by_cases hj : j = t
  · subst hj
    simp [State.state]
  · simp [State.state, hj]

/-- The states after `thread_schedule` has switched. -/
theorem switch_state (s : State) (esp : Int) (next : Nat) :
    (threadSwitch esp next (s.handOver next)).state =
      update (update s.state next .running) s.current .runnable := by
  funext j
  by_cases hj : j = s.current
  · subst hj
    simp [State.state, threadSwitch, State.handOver, Program.handOver]
  · simp [State.state, threadSwitch, State.handOver, Program.handOver, hj]

/-! ## Which thread runs -/

/-- Between calls the current thread is the one that is RUNNING; on its way into
`thread_schedule` it is in the state it has set, and no thread is RUNNING. -/
structure Inv (s : State) : Prop where
  running : s.leaving = false → ∀ i, s.state i = .running ↔ i = s.current
  left : s.leaving = true →
    (∀ i, s.state i ≠ .running) ∧ (s.state s.current = .wait ∨ s.state s.current = .free)

theorem inv_threadInit : Inv threadInit := by
  constructor
  · intro _ i
    show (if i = 0 then ThreadState.running else .free) = .running ↔ i = 0
    split <;> simp_all
  · nofun

variable {v : ThreadState}

/-- A state that is not RUNNING and becomes one that is not changes nothing. -/
theorem running_update {state : Nat → ThreadState} {current t : Nat}
    (h : ∀ i, state i = .running ↔ i = current) (ht : t ≠ current) (hv : v ≠ .running) (i : Nat) :
    update state t v i = .running ↔ i = current := by
  by_cases hi : i = t
  · subst hi
    simp [hv, ht]
  · rw [update_of_ne hi]
    exact h i

/-- The current thread gives up the CPU. -/
theorem not_running_update {state : Nat → ThreadState} {current : Nat}
    (h : ∀ i, state i = .running ↔ i = current) (hv : v ≠ .running) (i : Nat) :
    update state current v i ≠ .running := by
  by_cases hi : i = current
  · subst hi
    simpa using hv
  · rw [update_of_ne hi]
    exact fun hrun => hi ((h i).mp hrun)

theorem Inv.step (h : Inv s) (hs : Steps s c s') : Inv s' := by
  obtain ⟨hleave, hstep⟩ := hs
  -- all calls but `thread_schedule` are made by a thread that runs
  have hfree : (∀ esp, c ≠ .schedule esp) → s.leaving = false := by
    intro hc
    by_contra hl
    obtain ⟨esp, rfl⟩ := hleave (by simpa using hl)
    exact hc esp rfl
  cases step_did hstep with
  | full => exact h
  | notSuspended _ => exact h
  | notResumed _ => exact h
  | @create t ht =>
    have hl := hfree nofun
    have hrun := h.running hl
    constructor
    · intro _ i
      rw [create_state]
      apply running_update hrun
      · rintro rfl
        rw [(hrun _).mpr rfl] at ht
        cases ht
      · nofun
    · intro hl'
      exact absurd hl' (by simp [hl])
  | @suspend tid t hfind hwait =>
    have hrun := h.running (hfree nofun)
    constructor
    · intro hl i
      have ht : t ≠ s.current := by simpa [State.suspend] using hl
      rw [suspend_state]
      apply running_update hrun ht
      nofun
    · intro hl
      obtain rfl : t = s.current := by simpa [State.suspend] using hl
      rw [suspend_state]
      refine ⟨not_running_update hrun ?_, .inl (update_self ..)⟩
      nofun
  | @resume tid t hfind hnot =>
    have hl := hfree nofun
    have hrun := h.running hl
    constructor
    · intro _ i
      rw [setState_state]
      apply running_update hrun
      · exact fun ht => hnot ((hrun t).mpr ht)
      · nofun
    · intro hl'
      exact absurd hl' (by simp [hl])
  | exit =>
    have hrun := h.running (hfree nofun)
    constructor
    · nofun
    · intro _
      rw [threadExit_state]
      refine ⟨not_running_update hrun ?_, .inr (update_self ..)⟩
      nofun
  | @switch esp next hnext hne =>
    constructor
    · intro _ i
      rw [switch_state]
      show _ ↔ i = next
      -- of the other threads only the one that is left can have been RUNNING
      have hother : i ≠ s.current → s.state i ≠ .running := by
        intro hi hrun
        cases hl : s.leaving with
        | false => exact hi ((h.running hl i).mp hrun)
        | true => exact (h.left hl).1 i hrun
      by_cases hi : i = s.current
      · subst hi
        simp [Ne.symm hne]
      · rw [update_of_ne hi]
        by_cases hin : i = next
        · subst hin
          simp
        · simp [hin, hother hi]
    · nofun
  | stay hcur =>
    -- the current thread is never RUNNABLE
    cases hl : s.leaving with
    | false =>
      rw [(h.running hl _).mpr rfl] at hcur
      cases hcur
    | true =>
      rcases (h.left hl).2 with hw | hw
      · rw [hw] at hcur
        cases hcur
      · rw [hw] at hcur
        cases hcur

/-! ## Suspended and finished threads -/

/-- What the states of the threads are for: a thread leaves WAIT when it is resumed, leaves
FREE when it is created, and `thread_schedule` goes to a thread that was RUNNABLE and leaves
it as the only one RUNNING. -/
structure Obeys (s : State) (c : Call) (s' : State) : Prop where
  wait : ∀ i, s.state i = .wait → s'.state i ≠ .wait → c = .resume (s.thread i).tid
  free : ∀ i, s.state i = .free → s'.state i ≠ .free → c = .create
  dispatch : ∀ esp, c = .schedule esp → s.state s'.current = .runnable
  one : ∀ esp, c = .schedule esp → ∀ i, s'.state i = .running ↔ i = s'.current

/-- The calls that are safe to make: `thread_schedule` from a thread that is RUNNING, and
`thread_suspend` and `thread_resume` with a `tid` whose thread is not FREE. -/
def Call.Safe (s : State) : Call → Prop
  | .create => True
  | .suspend tid => ∀ t, s.find tid = some t → s.state t ≠ .free
  | .resume tid => ∀ t, s.find tid = some t → s.state t ≠ .free
  | .exit => True
  | .schedule _ => s.state s.current = .running

/-- A call that changes nothing obeys. -/
theorem Obeys.same (hc : ∀ esp, c ≠ .schedule esp) : Obeys s c s :=
  ⟨fun _ h h' => absurd h h', fun _ h h' => absurd h h', fun esp he => absurd he (hc esp),
    fun esp he => absurd he (hc esp)⟩

/-- A call that changes the state of one thread `t` obeys, if it may do so with `t`. -/
theorem Obeys.of_update {t : Nat}
    (hstate : s'.state = update s.state t v) (hc : ∀ esp, c ≠ .schedule esp)
    (hwait : s.state t = .wait → v ≠ .wait → c = .resume (s.thread t).tid)
    (hfree : s.state t = .free → v ≠ .free → c = .create) : Obeys s c s' := by
  constructor
  · intro i hi hi'
    by_cases hit : i = t
    · subst hit
      rw [hstate, update_self] at hi'
      exact hwait hi hi'
    · rw [hstate, update_of_ne hit] at hi'
      exact absurd hi hi'
  · intro i hi hi'
    by_cases hit : i = t
    · subst hit
      rw [hstate, update_self] at hi'
      exact hfree hi hi'
    · rw [hstate, update_of_ne hit] at hi'
      exact absurd hi hi'
  · intro esp he
    exact absurd he (hc esp)
  · intro esp he
    exact absurd he (hc esp)

theorem Obeys.of_safe (h : Inv s) (hs : Steps s c s') (hc : c.Safe s) :
    Obeys s c s' := by
  have hinv := h.step hs
  cases step_did hs.2 with
  | full => exact .same nofun
  | notSuspended _ => exact .same nofun
  | notResumed _ => exact .same nofun
  | create ht =>
    apply Obeys.of_update (create_state s _)
    · nofun
    · intro hw
      rw [ht] at hw
      cases hw
    · intro _ _
      rfl
  | @suspend tid t hfind hwait =>
    apply Obeys.of_update (suspend_state s t)
    · nofun
    · intro hw
      exact absurd hw hwait
    · intro hf
      exact absurd hf (hc t hfind)
  | @resume tid t hfind hnot =>
    apply Obeys.of_update (setState_state s t .runnable)
    · nofun
    · intro _ _
      rw [find_tid hfind]
    · intro hf
      exact absurd hf (hc t hfind)
  | exit =>
    -- the thread that exits runs, so it is neither in WAIT nor FREE
    have hl : s.leaving = false := by
      by_contra hl
      obtain ⟨esp, he⟩ := hs.1 (by simpa using hl)
      cases he
    have hrun := (h.running hl _).mpr rfl
    apply Obeys.of_update (threadExit_state s)
    · nofun
    · intro hw
      rw [hrun] at hw
      cases hw
    · intro hf
      rw [hrun] at hf
      cases hf
  | @switch esp next hnext hne =>
    have hrun : s.state s.current = .running := hc
    -- the threads whose state changes were RUNNABLE and RUNNING
    have hsame : ∀ i, s.state i ≠ .runnable → s.state i ≠ .running →
        (threadSwitch esp next (s.handOver next)).state i = s.state i := by
      intro i hi hi'
      rw [switch_state, update_of_ne, update_of_ne]
      · rintro rfl
        exact hi hnext
      · rintro rfl
        exact hi' hrun
    constructor
    · intro i hi hi'
      rw [hsame i (by simp [hi]) (by simp [hi])] at hi'
      exact absurd hi hi'
    · intro i hi hi'
      rw [hsame i (by simp [hi]) (by simp [hi])] at hi'
      exact absurd hi hi'
    · intro _ _
      exact hnext
    · intro _ _
      exact hinv.running rfl
  | stay hcur =>
    have hrun : s.state s.current = .running := hc
    rw [hrun] at hcur
    cases hcur

theorem Obeys.safe (h : Inv s) (hs : Steps s c s') (ho : Obeys s c s') : c.Safe s := by
  cases step_did hs.2 with
  | full => trivial
  | create _ => trivial
  | exit => trivial
  | notSuspended hfind =>
    intro t ht
    simp [hfind t ht]
  | notResumed hfind =>
    intro t ht
    simp [hfind t ht]
  | @suspend tid t hfind _ =>
    intro t' ht' hf
    cases hfind.symm.trans ht'
    have hstate : (s.suspend t).state t = .wait := by
      rw [suspend_state, update_self]
    cases ho.free t hf (by simp [hstate])
  | @resume tid t hfind _ =>
    intro t' ht' hf
    cases hfind.symm.trans ht'
    have hstate : (s.setState t .runnable).state t = .runnable := by
      rw [setState_state, update_self]
    cases ho.free t hf (by simp [hstate])
  | @switch esp next hnext hne =>
    cases hl : s.leaving with
    | false => exact (h.running hl _).mpr rfl
    | true =>
      -- `thread_schedule` has made the thread it leaves RUNNABLE
      have hstate : (threadSwitch esp next (s.handOver next)).state s.current = .runnable := by
        rw [switch_state, update_self]
      rcases (h.left hl).2 with hw | hf
      · cases ho.wait s.current hw (by simp [hstate])
      · cases ho.free s.current hf (by simp [hstate])
  | stay hcur =>
    cases hl : s.leaving with
    | false => exact (h.running hl _).mpr rfl
    | true =>
      rcases (h.left hl).2 with hw | hf
      · cases hcur.symm.trans hw
      · cases hcur.symm.trans hf

/-- Suspended and finished threads stay as they are in exactly the runs in which every call
is safe. -/
theorem obeys_iff {cs : List Call} {s : State} :
    Run (fun s c s' => Steps s c s' ∧ Obeys s c s') threadInit cs s ↔
      Run (fun s c s' => Steps s c s' ∧ c.Safe s) threadInit cs s := by
  constructor
  · intro h
    apply h.mono_of_invariant inv_threadInit
    · intro s c s' hi hs
      exact hi.step hs.1
    · intro s c s' hi hs
      exact ⟨hs.1, hs.2.safe hi hs.1⟩
  · intro h
    apply h.mono_of_invariant inv_threadInit
    · intro s c s' hi hs
      exact hi.step hs.1
    · intro s c s' hi hs
      exact ⟨hs.1, .of_safe hi hs.1 hs.2⟩

/-- The main thread creates a thread and suspends itself.  `thread_schedule` goes to the new
thread and makes the main thread RUNNABLE again, and the next call dispatches it. -/
theorem suspended_dispatched :
    ∃ s1 s2 s3 : State, Run Steps threadInit [.create, .suspend 0] s1 ∧
      Steps s1 (.schedule 0x2fb0) s2 ∧ Steps s2 (.schedule 0x4fd0) s3 ∧
      s1.state 0 = .wait ∧ s2.state 0 = .runnable ∧ s3.current = 0 ∧
      ¬ Obeys s1 (.schedule 0x2fb0) s2 := by
  let s0 := threadInit.orKeep ((threadCreate threadInit).map Prod.snd)
  let s1 := s0.suspend 0
  let s2 := threadSwitch 0x2fb0 1 (s1.handOver 1)
  let s3 := threadSwitch 0x4fd0 0 (s2.handOver 0)
  have hcreate : Steps threadInit .create s0 := ⟨nofun, rfl⟩
  have hsuspend : Steps s0 (.suspend 0) s1 := ⟨fun h => absurd h (by decide), rfl⟩
  have hleave : Steps s1 (.schedule 0x2fb0) s2 := ⟨fun _ => ⟨_, rfl⟩, rfl⟩
  have hback : Steps s2 (.schedule 0x4fd0) s3 := ⟨fun _ => ⟨_, rfl⟩, rfl⟩
  have hrunnable : s2.state 0 = .runnable := rfl
  refine ⟨s1, s2, s3, (Run.single hcreate).snoc hsuspend, hleave, hback, rfl, hrunnable, rfl, ?_⟩
  intro h
  cases h.wait 0 rfl (by simp [hrunnable])

end Suspend
end Uthread
end Xv6
