import Xv6.Lib.Run
import Xv6.Uthread.Model

/-!
# Joining threads (`uthread2.c`)

A thread waits in `thread_join_all` until it finds no thread that is not FREE and has its `tid`
as `ptid`.  This module follows the thread table of `uthread2.c` through every sequence of calls,
together with a history that says which thread created which; the program does not have it.

Main results:

* `joinRight_iff` — the test of `thread_join_all` is right unless the caller has no child left
  and is the main thread, which is its own parent, or took the slot of a thread that finished
  before its children;
* `wakesParent_iff` — a finishing thread wakes its waiting parent unless it finishes as
  `mythread` does.

A call is one step; a thread that waits or has finished then calls `thread_schedule`.
`thread_create` with no FREE thread writes behind `all_thread`; there is no such step.
-/

namespace Xv6
namespace Uthread
namespace Join

open Lib Function

/-- The fields of `struct thread` that the calls read. -/
structure Thread where
  state : ThreadState
  tid : Nat
  ptid : Nat

/-- `all_thread` and `current_thread`. -/
structure State where
  thread : Nat → Thread
  current : Nat
  /-- The current thread has set its own state and is about to call `thread_schedule`. -/
  leaving : Bool

/-- The states of all threads. -/
def State.state (s : State) (i : Nat) : ThreadState := (s.thread i).state

/-- `t->state = v`. -/
def State.setState (s : State) (i : Nat) (v : ThreadState) : State :=
  { s with thread := update s.thread i { s.thread i with state := v } }

/-- The state after `thread_init`: `all_thread` is zero but for the state of the main thread. -/
def threadInit : State where
  thread i := ⟨if i = 0 then .running else .free, 0, 0⟩
  current := 0
  leaving := false

/-- `thread_create`. -/
def threadCreate (s : State) : Option State :=
  (Program.uthread2.firstFree s.state).map fun t =>
    { s with thread := update s.thread t ⟨.runnable, t, (s.thread s.current).tid⟩ }

/-- The inner loop of `thread_join_all`: the value of `found`. -/
def State.found (s : State) : Bool :=
  (List.range Program.uthread2.maxThread).any fun i =>
    s.state i ≠ .free ∧ (s.thread i).ptid = (s.thread s.current).tid

/-- One round of `thread_join_all`, up to its call of `thread_schedule`; the flag says that it
returns. -/
def threadJoinAll (s : State) : Bool × State :=
  if s.found then (false, { s.setState s.current .wait with leaving := true }) else (true, s)

/-- The first thread with this `tid` that waits is made RUNNABLE: the loop at the end of
`child_thread`, and the second one of `wake_pthread`. -/
def State.rouse (s : State) (tid : Nat) : State :=
  match (List.range Program.uthread2.maxThread).find? fun i =>
      (s.thread i).tid = tid ∧ s.state i = .wait with
  | some i => s.setState i .runnable
  | none => s

/-- `wake_pthread`. -/
def wakePthread (s : State) : State :=
  let t := s.thread s.current
  let childAlive := (List.range Program.uthread2.maxThread).any fun i =>
    (s.thread i).ptid = t.ptid ∧ (s.thread i).tid ≠ t.tid ∧ s.state i ≠ .free
  if childAlive then s else s.rouse t.ptid

/-- The end of `mythread`: `current_thread->state = FREE`. -/
def parentExit (s : State) : State :=
  { s.setState s.current .free with leaving := true }

/-- The end of `child_thread`, up to its call of `thread_schedule`. -/
def childExit (s : State) : State :=
  wakePthread (parentExit (s.rouse (s.thread s.current).ptid))

/-- The states that `thread_schedule` leaves. -/
def State.scheduled (s : State) (next : Nat) : Nat → ThreadState :=
  if s.current ≠ next then Program.uthread2.handOver s.state s.current next else s.state

/-- `thread_schedule`; without a thread to run the process exits. -/
def threadSchedule (s : State) : Option State :=
  (Program.uthread2.findNext s.state s.current).map fun next =>
    { thread := fun i => { s.thread i with state := s.scheduled next i }
      current := next
      leaving := false }

/-- The calls, whichever thread makes them; `thread_schedule` is also called on clock ticks. -/
inductive Call where
  | create
  | joinAll
  | childExit
  | parentExit
  | schedule
deriving DecidableEq

/-- One call. -/
def step : Call → State → Option State
  | .create, s => threadCreate s
  | .joinAll, s => some (threadJoinAll s).2
  | .childExit, s => if s.current = 0 then none else some (childExit s)
  | .parentExit, s => if s.current = 0 then none else some (parentExit s)
  | .schedule, s => threadSchedule s

/-- Who created whom.  A thread is known by its slot and by how many threads had the slot
before. -/
structure History where
  gen : Nat → Nat
  creator : Nat → Option (Nat × Nat)

/-- Nothing was created yet. -/
def History.start : History := ⟨fun _ => 0, fun _ => none⟩

/-- The history after a call. -/
def History.after (h : History) (s : State) : Call → History
  | .create =>
    match Program.uthread2.firstFree s.state with
    | some t => ⟨update h.gen t (h.gen t + 1),
        update h.creator t (some (s.current, h.gen s.current))⟩
    | none => h
  | _ => h

/-- The call can be made next, and leads to this table and history. -/
def Steps (w : State × History) (c : Call) (w' : State × History) : Prop :=
  (w.1.leaving = true → c = .schedule) ∧ step c w.1 = some w'.1 ∧ w'.2 = w.2.after w.1 c

/-- `t` was created by the thread in slot `c`, and has not finished. -/
def Unfinished (s : State) (h : History) (c t : Nat) : Prop :=
  t ≠ c ∧ s.state t ≠ .free ∧ h.creator t = some (c, h.gen c)

/-- `t` was created by a thread that had slot `c` before, and has not finished. -/
def Orphan (s : State) (h : History) (c t : Nat) : Prop :=
  s.state t ≠ .free ∧ ∃ g, h.creator t = some (c, g) ∧ g ≠ h.gen c

/-- `thread_join_all` returns exactly if all children of the caller have finished. -/
def JoinRight (s : State) (h : History) : Prop :=
  (threadJoinAll s).1 = true ↔ ∀ t, ¬Unfinished s h s.current t

/-- A parent that waits for `t` alone. -/
def AwaitedBy (s : State) (h : History) (t p : Nat) : Prop :=
  h.creator t = some (p, h.gen p) ∧ s.state p = .wait ∧ ∀ u, Unfinished s h p u → u = t

/-- A parent that waits is RUNNABLE once its last child has finished. -/
def WakesParent (s : State) (h : History) (s' : State) : Prop :=
  ∀ t p, s.state t ≠ .free → s'.state t = .free → AwaitedBy s h t p → s'.state p = .runnable

variable {s s' : State} {h : History} {c : Call}

/-! ## What a call does -/

theorem setState_state (s : State) (i : Nat) (v : ThreadState) :
    (s.setState i v).state = update s.state i v := by
  funext j
  by_cases hj : j = i
  · subst hj
    simp [State.state, State.setState]
  · simp [State.state, State.setState, hj]

/-- The two tables agree but for the states. -/
def SameIds (s s' : State) : Prop :=
  ∀ i, (s'.thread i).tid = (s.thread i).tid ∧ (s'.thread i).ptid = (s.thread i).ptid

theorem setState_sameIds (s : State) (i : Nat) (v : ThreadState) : SameIds s (s.setState i v) := by
  intro j
  by_cases hj : j = i
  · subst hj
    simp [State.setState]
  · simp [State.setState, hj]

theorem SameIds.trans {s1 s2 s3 : State} (h1 : SameIds s1 s2) (h2 : SameIds s2 s3) : SameIds s1 s3 :=
  fun i => ⟨(h2 i).1.trans (h1 i).1, (h2 i).2.trans (h1 i).2⟩

/-- What `rouse` does: nothing, or one thread stops waiting. -/
theorem rouse_cases (s : State) (tid : Nat) :
    (s.rouse tid = s ∧ ∀ i < Program.uthread2.maxThread, (s.thread i).tid = tid → s.state i ≠ .wait) ∨
      ∃ i, i < Program.uthread2.maxThread ∧ (s.thread i).tid = tid ∧ s.state i = .wait ∧
        s.rouse tid = s.setState i .runnable := by
  unfold State.rouse
  split
  · next i hfind =>
    have hmem := List.mem_of_find?_eq_some hfind
    have hi := List.find?_some hfind
    simp only [decide_eq_true_eq] at hi
    exact .inr ⟨i, List.mem_range.mp hmem, hi.1, hi.2, rfl⟩
  · next hfind =>
    refine .inl ⟨rfl, ?_⟩
    intro i hi htid hwait
    have hnone := List.find?_eq_none.mp hfind i (List.mem_range.mpr hi)
    simp [htid, hwait] at hnone

/-- The calls leave everything but the states alone, and `rouse` makes no thread FREE. -/
structure Rouses (s s' : State) : Prop where
  ids : SameIds s s'
  current : s'.current = s.current
  leaving : s'.leaving = s.leaving
  state : ∀ i, s'.state i = s.state i ∨ s.state i = .wait ∧ s'.state i = .runnable

theorem Rouses.refl (s : State) : Rouses s s :=
  ⟨fun _ => ⟨rfl, rfl⟩, rfl, rfl, fun _ => .inl rfl⟩

theorem rouse_rouses (s : State) (tid : Nat) : Rouses s (s.rouse tid) := by
  rcases rouse_cases s tid with ⟨heq, -⟩ | ⟨i, -, -, hwait, heq⟩
  · rw [heq]
    exact Rouses.refl s
  · rw [heq]
    refine ⟨setState_sameIds s i _, rfl, rfl, ?_⟩
    intro j
    rw [setState_state]
    by_cases hj : j = i
    · subst hj
      exact .inr ⟨hwait, update_self ..⟩
    · exact .inl (update_of_ne hj _ _)

theorem wakePthread_rouses (s : State) : Rouses s (wakePthread s) := by
  unfold wakePthread
  dsimp only
  split
  · exact Rouses.refl s
  · exact rouse_rouses s _

theorem Rouses.free_iff (hr : Rouses s s') (i : Nat) : s'.state i = .free ↔ s.state i = .free := by
  rcases hr.state i with heq | ⟨hwait, hrun⟩
  · rw [heq]
  · rw [hwait, hrun]
    decide

theorem Rouses.runnable (hr : Rouses s s') {i : Nat} (hi : s.state i = .runnable) :
    s'.state i = .runnable := by
  rcases hr.state i with heq | ⟨-, hrun⟩
  · rw [heq, hi]
  · exact hrun

/-- A call other than `thread_create` and `thread_schedule` leaves the ids alone, and only the
current thread can become FREE. -/
structure Quiet (s s' : State) : Prop where
  ids : SameIds s s'
  current : s'.current = s.current
  free : ∀ i, i ≠ s.current → (s'.state i = .free ↔ s.state i = .free)

theorem quiet_setState (s : State) (v : ThreadState) (b : Bool) :
    Quiet s { s.setState s.current v with leaving := b } := by
  refine ⟨setState_sameIds s _ v, rfl, ?_⟩
  intro i hi
  show (s.setState s.current v).state i = .free ↔ _
  rw [setState_state, update_of_ne hi]

theorem Rouses.quiet (hr : Rouses s s') : Quiet s s' :=
  ⟨hr.ids, hr.current, fun i _ => hr.free_iff i⟩

theorem Quiet.trans {s1 s2 s3 : State} (h1 : Quiet s1 s2) (h2 : Quiet s2 s3) : Quiet s1 s3 := by
  refine ⟨h1.ids.trans h2.ids, h2.current.trans h1.current, ?_⟩
  intro i hi
  rw [h2.free i (by rw [h1.current]; exact hi), h1.free i hi]

theorem quiet_childExit (s : State) : Quiet s (childExit s) :=
  ((rouse_rouses s _).quiet.trans (quiet_setState _ .free true)).trans (wakePthread_rouses _).quiet

/-- `thread_schedule` makes no thread FREE, and none that was. -/
theorem scheduled_free_iff {next : Nat} (hnext : Program.uthread2.findNext s.state s.current = some next)
    (i : Nat) : s.scheduled next i = .free ↔ s.state i = .free := by
  unfold State.scheduled
  split
  · next hne =>
    have hrun : s.state next = .runnable := by
      rcases findNext_spec hnext with ⟨-, hrun, -⟩ | ⟨heq, -⟩
      · exact hrun
      · exact absurd heq.symm hne
    constructor
    · intro hfree
      by_contra hlive
      exact handOver_ne_free (.inl hlive) hfree
    · intro hfree
      have hin : i ≠ next := by
        rintro rfl
        rw [hrun] at hfree
        cases hfree
      by_cases hic : i = s.current
      · subst hic
        simp [Program.handOver, update_of_ne hin, hfree]
      · rw [handOver_of_ne hic hin]
        exact hfree
  · rfl

/-! ## The table and the history -/

/-- What holds of every reachable table and its history. -/
structure Inv (s : State) (h : History) : Prop where
  current : s.current < Program.uthread2.maxThread
  live : s.leaving = false → s.state s.current ≠ .free
  main : s.state 0 ≠ .free ∧ (s.thread 0).ptid = 0 ∧ h.creator 0 = none
  ids : ∀ i, s.state i ≠ .free → i < Program.uthread2.maxThread ∧ (s.thread i).tid = i
  kin : ∀ i, i ≠ 0 → s.state i ≠ .free →
    ∃ g, h.creator i = some ((s.thread i).ptid, g) ∧ (s.thread i).ptid ≠ i

theorem inv_threadInit : Inv threadInit History.start := by
  refine ⟨by decide, fun _ => nofun, ⟨nofun, rfl, rfl⟩, ?_, ?_⟩
  · intro i hi
    have hi0 : i = 0 := by
      by_contra hne
      exact hi (if_neg hne)
    subst hi0
    exact ⟨by decide, rfl⟩
  · intro i hi0 hi
    exact absurd (if_neg hi0) hi

/-- The ids and the threads in use stay. -/
theorem Inv.of_live (hinv : Inv s h) (hids : SameIds s s')
    (hcur : s'.current < Program.uthread2.maxThread)
    (hlive : s'.leaving = false → s'.state s'.current ≠ .free) (hmain : s'.state 0 ≠ .free)
    (hsub : ∀ i, s'.state i ≠ .free → s.state i ≠ .free) : Inv s' h := by
  refine ⟨hcur, hlive, ⟨hmain, ?_, hinv.main.2.2⟩, ?_, ?_⟩
  · rw [(hids 0).2]
    exact hinv.main.2.1
  · intro i hi
    rw [(hids i).1]
    exact hinv.ids i (hsub i hi)
  · intro i hi0 hi
    rw [(hids i).2]
    exact hinv.kin i hi0 (hsub i hi)

/-- A call of the current thread after which it calls `thread_schedule`. -/
theorem Inv.of_quiet (hinv : Inv s h) (hstay : s.leaving = false) (hq : Quiet s s')
    (hleaving : s'.leaving = true) (hmain : s.current = 0 → s'.state 0 ≠ .free) : Inv s' h := by
  refine hinv.of_live hq.ids ?_ ?_ ?_ ?_
  · rw [hq.current]
    exact hinv.current
  · rw [hleaving]
    nofun
  · by_cases h0 : s.current = 0
    · exact hmain h0
    · rw [Ne, hq.free 0 (Ne.symm h0)]
      exact hinv.main.1
  · intro i hi
    by_cases hic : i = s.current
    · subst hic
      exact hinv.live hstay
    · rwa [Ne, hq.free i hic] at hi

/-- The new thread is a child of the current one. -/
theorem Inv.create (hinv : Inv s h) (hstay : s.leaving = false) (hs : threadCreate s = some s') :
    Inv s' (h.after s .create) := by
  unfold threadCreate at hs
  obtain ⟨t, hfree, rfl⟩ := Option.map_eq_some_iff.mp hs
  have hafter : h.after s .create = ⟨update h.gen t (h.gen t + 1),
      update h.creator t (some (s.current, h.gen s.current))⟩ := by
    simp only [History.after, hfree]
  obtain ⟨ht, hstate⟩ := firstFree_spec hfree
  have hold : ∀ i, i ≠ t → update s.thread t
      ⟨.runnable, t, (s.thread s.current).tid⟩ i = s.thread i := fun i hi => update_of_ne hi _ _
  have htc : s.current ≠ t := by
    rintro rfl
    exact hinv.live hstay hstate
  have ht0 : (0 : Nat) ≠ t := by
    rintro rfl
    exact hinv.main.1 hstate
  have htid : (s.thread s.current).tid = s.current := (hinv.ids _ (hinv.live hstay)).2
  rw [hafter]
  refine ⟨hinv.current, ?_, ⟨?_, ?_, ?_⟩, ?_, ?_⟩
  · intro _
    simp only [State.state, hold _ htc]
    exact hinv.live hstay
  · simp only [State.state, hold _ ht0]
    exact hinv.main.1
  · simp only [hold _ ht0]
    exact hinv.main.2.1
  · simp only [update_of_ne ht0]
    exact hinv.main.2.2
  · intro i hi
    by_cases hit : i = t
    · subst hit
      simpa using ht
    · simp only [State.state, hold _ hit] at hi ⊢
      exact hinv.ids i hi
  · intro i hi0 hi
    by_cases hit : i = t
    · subst hit
      refine ⟨h.gen s.current, ?_, ?_⟩
      · simp [htid]
      · simpa [htid] using htc
    · simp only [State.state, hold _ hit, update_of_ne hit] at hi ⊢
      exact hinv.kin i hi0 hi

theorem Inv.schedule (hinv : Inv s h) (hs : threadSchedule s = some s') : Inv s' h := by
  unfold threadSchedule at hs
  obtain ⟨next, hnext, rfl⟩ := Option.map_eq_some_iff.mp hs
  have hfree := scheduled_free_iff hnext
  refine hinv.of_live (fun _ => ⟨rfl, rfl⟩) ?_ ?_ ?_ ?_
  · rcases findNext_spec hnext with ⟨hlt, -⟩ | ⟨rfl, -⟩
    · exact hlt
    · exact hinv.current
  · intro _
    show s.scheduled next next ≠ .free
    rw [Ne, hfree]
    rcases findNext_spec hnext with ⟨-, hrun, -⟩ | ⟨rfl, hrun | ⟨-, hrun⟩⟩
    all_goals
      rw [hrun]
      decide
  · show s.scheduled next 0 ≠ .free
    rw [Ne, hfree]
    exact hinv.main.1
  · intro i hi
    rwa [Ne, ← hfree i]

variable {w w' : State × History}

/-- Between two calls the current thread is not on its way into `thread_schedule`. -/
theorem Steps.staying (hs : Steps w c w') (hc : c ≠ .schedule) :
    w.1.leaving = false := by
  cases hl : w.1.leaving with
  | false => rfl
  | true => exact absurd (hs.1 hl) hc

theorem leaving_childExit (s : State) : (childExit s).leaving = true :=
  (wakePthread_rouses _).leaving

theorem Inv.step (hinv : Inv w.1 w.2) (hs : Steps w c w') : Inv w'.1 w'.2 := by
  have hstaying := hs.staying
  obtain ⟨s, h⟩ := w
  obtain ⟨s', h'⟩ := w'
  obtain ⟨-, hstep, rfl⟩ := hs
  dsimp only at *
  cases c with
  | schedule => exact hinv.schedule hstep
  | create => exact hinv.create (hstaying nofun) hstep
  | joinAll =>
    cases hstep
    show Inv (threadJoinAll s).2 h
    unfold threadJoinAll
    split
    · refine hinv.of_quiet (hstaying nofun) (quiet_setState s .wait true) rfl ?_
      intro h0
      show (s.setState s.current .wait).state 0 ≠ .free
      rw [setState_state, h0]
      simp
    · exact hinv
  | childExit =>
    by_cases h0 : s.current = 0
    · cases (if_pos h0).symm.trans hstep
    · cases (if_neg h0).symm.trans hstep
      exact hinv.of_quiet (hstaying nofun) (quiet_childExit s) (leaving_childExit s)
        fun h => absurd h h0
  | parentExit =>
    by_cases h0 : s.current = 0
    · cases (if_pos h0).symm.trans hstep
    · cases (if_neg h0).symm.trans hstep
      exact hinv.of_quiet (hstaying nofun) (quiet_setState s .free true) rfl
        fun h => absurd h h0

variable {p t : Nat}

/-- The slot of a live thread's creator is its `ptid`. -/
theorem Inv.parent (hinv : Inv s h) {g : Nat} (hlive : s.state t ≠ .free)
    (hcreator : h.creator t = some (p, g)) : (s.thread t).ptid = p ∧ p ≠ t := by
  have ht0 : t ≠ 0 := by
    rintro rfl
    rw [hinv.main.2.2] at hcreator
    cases hcreator
  obtain ⟨g', hcreator', hne⟩ := hinv.kin t ht0 hlive
  rw [hcreator] at hcreator'
  have hp := (Prod.mk.inj (Option.some.inj hcreator')).1
  rw [← hp] at hne ⊢
  exact ⟨rfl, hne⟩

/-! ## The test of `thread_join_all` -/

/-- What the test finds: the caller itself if it is the main thread, a child of the caller, or
one of an earlier thread in the caller's slot. -/
theorem found_iff (hinv : Inv s h) (hstay : s.leaving = false) :
    s.found = true ↔ s.current = 0 ∨ ∃ t, Unfinished s h s.current t ∨ Orphan s h s.current t := by
  have htid : (s.thread s.current).tid = s.current := (hinv.ids _ (hinv.live hstay)).2
  have hfound : s.found = true ↔ ∃ i, s.state i ≠ .free ∧ (s.thread i).ptid = s.current := by
    simp only [State.found, htid, List.any_eq_true, List.mem_range, decide_eq_true_eq]
    constructor
    · rintro ⟨i, -, hi⟩
      exact ⟨i, hi⟩
    · rintro ⟨i, hi⟩
      exact ⟨i, (hinv.ids i hi.1).1, hi⟩
  rw [hfound]
  constructor
  · rintro ⟨i, hlive, hptid⟩
    by_cases hi0 : i = 0
    · subst hi0
      exact .inl (hptid.symm.trans hinv.main.2.1)
    · obtain ⟨g, hcreator, hne⟩ := hinv.kin i hi0 hlive
      rw [hptid] at hcreator hne
      by_cases hg : g = h.gen s.current
      · subst hg
        exact .inr ⟨i, .inl ⟨Ne.symm hne, hlive, hcreator⟩⟩
      · exact .inr ⟨i, .inr ⟨hlive, g, hcreator, hg⟩⟩
  · -- whoever has the caller's slot as its creator's has it as `ptid`
    rintro (h0 | ⟨t, ⟨-, hlive, hcreator⟩ | ⟨hlive, g, hcreator, -⟩⟩)
    · exact ⟨0, hinv.main.1, hinv.main.2.1.trans h0.symm⟩
    · exact ⟨t, hlive, (hinv.parent hlive hcreator).1⟩
    · exact ⟨t, hlive, (hinv.parent hlive hcreator).1⟩

/-- The caller has a child, or it is not the main thread and nobody takes it for another. -/
theorem joinRight_iff (hinv : Inv s h) (hstay : s.leaving = false) :
    JoinRight s h ↔ (∃ t, Unfinished s h s.current t) ∨
      s.current ≠ 0 ∧ ∀ t, ¬Orphan s h s.current t := by
  have hreturns : (threadJoinAll s).1 = true ↔ ¬s.found = true := by
    unfold threadJoinAll
    split
    · next hfound => simp [hfound]
    · next hfound => simp [hfound]
  unfold JoinRight
  rw [hreturns, found_iff hinv hstay]
  constructor
  · intro hright
    by_cases hchild : ∃ t, Unfinished s h s.current t
    · exact .inl hchild
    · have hnone := hright.mpr (not_exists.mp hchild)
      refine .inr ⟨fun h0 => hnone (.inl h0), ?_⟩
      intro t horphan
      exact hnone (.inr ⟨t, .inr horphan⟩)
  · rintro (⟨t, hchild⟩ | ⟨h0, horphan⟩)
    · refine iff_of_false ?_ ?_
      · intro hnone
        exact hnone (.inr ⟨t, .inl hchild⟩)
      · intro hnone
        exact hnone t hchild
    · constructor
      · intro hnone t hchild
        exact hnone (.inr ⟨t, .inl hchild⟩)
      · rintro hnone (h | ⟨t, hchild | horph⟩)
        · exact h0 h
        · exact hnone t hchild
        · exact horphan t horph

/-! ## Waking the parent -/

/-- The parent that waits is the one that `rouse` finds. -/
theorem rouse_parent (hinv : Inv s h) (hwait : s.state p = .wait) :
    (s.rouse p).state p = .runnable := by
  have hp := hinv.ids p (by rw [hwait]; decide)
  rcases rouse_cases s p with ⟨-, hnone⟩ | ⟨i, -, htid, hi, heq⟩
  · exact absurd hwait (hnone p hp.1 hp.2)
  · have hip : i = p := by
      rw [← (hinv.ids i (by rw [hi]; decide)).2]
      exact htid
    subst hip
    rw [heq, setState_state]
    exact update_self ..

theorem childExit_wakes (hinv : Inv s h) (hpc : p ≠ s.current)
    (hptid : (s.thread s.current).ptid = p) (hwait : s.state p = .wait) :
    (childExit s).state p = .runnable := by
  unfold childExit
  apply (wakePthread_rouses _).runnable
  rw [hptid]
  have hrun := rouse_parent hinv hwait
  have hcur : (s.rouse p).current = s.current := (rouse_rouses s p).current
  show ((s.rouse p).setState (s.rouse p).current .free).state p = .runnable
  rw [setState_state, hcur, update_of_ne hpc]
  exact hrun

/-- A thread that finishes is the current one, and finishes in one of two ways. -/
theorem Steps.finishes (hs : Steps w c w')
    (hlive : w.1.state t ≠ .free) (hfree : w'.1.state t = .free) :
    t = w.1.current ∧ (w'.1 = childExit w.1 ∨ c = .parentExit) := by
  obtain ⟨s, h⟩ := w
  obtain ⟨s', h'⟩ := w'
  obtain ⟨-, hstep, -⟩ := hs
  dsimp only at *
  have hcurrent : Quiet s s' → t = s.current := by
    intro hq
    by_contra hne
    exact hlive ((hq.free t hne).mp hfree)
  cases c with
  | create =>
    exfalso
    obtain ⟨u, -, rfl⟩ := Option.map_eq_some_iff.mp hstep
    by_cases htu : t = u
    · subst htu
      simp [State.state] at hfree
    · simp only [State.state, update_of_ne htu] at hfree
      exact hlive hfree
  | joinAll =>
    exfalso
    cases hstep
    unfold threadJoinAll at hfree
    split at hfree
    · have hwait : (s.setState s.current .wait).state t = .free := hfree
      rw [setState_state] at hwait
      by_cases htc : t = s.current
      · subst htc
        simp at hwait
      · rw [update_of_ne htc] at hwait
        exact hlive hwait
    · exact hlive hfree
  | childExit =>
    by_cases h0 : s.current = 0
    · cases (if_pos h0).symm.trans hstep
    · cases (if_neg h0).symm.trans hstep
      exact ⟨hcurrent (quiet_childExit s), .inl rfl⟩
  | parentExit =>
    by_cases h0 : s.current = 0
    · cases (if_pos h0).symm.trans hstep
    · cases (if_neg h0).symm.trans hstep
      exact ⟨hcurrent (quiet_setState s .free true), .inr rfl⟩
  | schedule =>
    exfalso
    obtain ⟨next, hnext, rfl⟩ := Option.map_eq_some_iff.mp hstep
    exact hlive ((scheduled_free_iff hnext t).mp hfree)

/-- All parents that wait are woken, except by a thread that finishes as `mythread` does. -/
theorem wakesParent_iff (hinv : Inv w.1 w.2) (hs : Steps w c w') :
    WakesParent w.1 w.2 w'.1 ↔ (c = .parentExit → ∀ p, ¬AwaitedBy w.1 w.2 w.1.current p) := by
  constructor
  · rintro hwakes rfl p hawaited
    have hlive := hinv.live (hs.staying nofun)
    have hne := (hinv.parent hlive hawaited.1).2
    obtain ⟨-, hstep, -⟩ := hs
    have hs' : w'.1 = parentExit w.1 := by
      by_cases h0 : w.1.current = 0
      · cases (if_pos h0).symm.trans hstep
      · exact (Option.some.inj ((if_neg h0).symm.trans hstep)).symm
    have hstate : w'.1.state = update w.1.state w.1.current .free := by
      rw [hs']
      exact setState_state w.1 w.1.current .free
    have hrun := hwakes w.1.current p hlive (by rw [hstate]; simp) hawaited
    rw [hstate, update_of_ne hne, hawaited.2.1] at hrun
    cases hrun
  · intro hcond t p hlive hfree hawaited
    obtain ⟨rfl, hs' | rfl⟩ := hs.finishes hlive hfree
    · obtain ⟨hptid, hne⟩ := hinv.parent hlive hawaited.1
      rw [hs']
      exact childExit_wakes hinv hne hptid hawaited.2.1
    · exact absurd hawaited (hcond rfl p)

/-! ## Every run -/

/-- In every reachable table: `thread_join_all` returns exactly if the children of the caller have
finished, and calls wake the parents that wait for the thread that finishes, except as said. -/
theorem join_waits {cs : List Call} {w : State × History}
    (hrun : Run Steps (threadInit, History.start) cs w) :
    (w.1.leaving = false → (JoinRight w.1 w.2 ↔ (∃ t, Unfinished w.1 w.2 w.1.current t) ∨
      w.1.current ≠ 0 ∧ ∀ t, ¬Orphan w.1 w.2 w.1.current t)) ∧
    ∀ c w', Steps w c w' →
      (WakesParent w.1 w.2 w'.1 ↔ (c = .parentExit → ∀ p, ¬AwaitedBy w.1 w.2 w.1.current p)) := by
  have hinv : Inv w.1 w.2 := by
    apply hrun.invariant (I := fun w => Inv w.1 w.2) inv_threadInit
    intro w1 c w2 h1 hs
    exact h1.step hs
  exact ⟨joinRight_iff hinv, fun c w' hs => wakesParent_iff hinv hs⟩

/-- The table and the history after a call, if it is possible. -/
def next (w : State × History) (c : Call) : Option (State × History) :=
  if w.1.leaving ∧ c ≠ .schedule then none else (step c w.1).map (·, w.2.after w.1 c)

theorem steps_of_next (w : State × History) (c : Call) (w' : State × History)
    (h : next w c = some w') : Steps w c w' := by
  unfold next at h
  split_ifs at h with hleave
  obtain ⟨s, hs, rfl⟩ := Option.map_eq_some_iff.mp h
  exact ⟨fun hl => by_contra fun hc => hleave ⟨hl, hc⟩, hs, rfl⟩

/-- `main` waits for the one thread that it has created, which runs. -/
structure Pair (w : State × History) : Prop where
  current : w.1.current = 1
  staying : w.1.leaving = false
  waits : w.1.state 0 = .wait
  runs : w.1.state 1 = .running
  gen : w.2.gen 0 = 0
  creator : w.2.creator = update (fun _ : Nat => none) 1 (some (0, 0))
  exit : (childExit w.1).state 1 = .free

theorem exists_pair : ∃ w, Run Steps (threadInit, History.start) [.create, .joinAll, .schedule] w ∧
    Pair w := by
  obtain ⟨w, hw, hpair⟩ : ∃ w, [.create, .joinAll, .schedule].foldlM next
      (threadInit, History.start) = some w ∧ Pair w := ⟨_, rfl, rfl, rfl, rfl, rfl, rfl, rfl, rfl⟩
  exact ⟨w, Run.of_foldlM steps_of_next hw, hpair⟩

theorem Pair.creator_eq (hw : Pair w) {q : Nat × Nat}
    (ht : w.2.creator t = some q) : t = 1 ∧ q = (0, 0) := by
  rw [hw.creator] at ht
  by_cases ht1 : t = 1
  · subst ht1
    rw [update_self] at ht
    exact ⟨rfl, (Option.some.inj ht).symm⟩
  · rw [update_of_ne ht1] at ht
    cases ht

theorem Pair.awaited (hw : Pair w) : AwaitedBy w.1 w.2 1 0 := by
  refine ⟨?_, hw.waits, ?_⟩
  · rw [hw.creator, hw.gen]
    rfl
  · rintro u ⟨-, -, hu⟩
    exact (hw.creator_eq hu).1

/-- A thread without children may join at once, and wakes `main` if it finishes as `child_thread`
does. -/
theorem join_waits_child : ∃ w, Run Steps (threadInit, History.start) [.create, .joinAll, .schedule] w ∧
    w.1.current = 1 ∧ JoinRight w.1 w.2 ∧ ∃ w', Steps w .childExit w' ∧ w'.1.state 0 = .runnable := by
  obtain ⟨w, hrun, hw⟩ := exists_pair
  have hjoin := join_waits hrun
  refine ⟨w, hrun, hw.current, (hjoin.1 hw.staying).mpr (.inr ⟨?_, ?_⟩), ?_⟩
  · rw [hw.current]
    decide
  · rw [hw.current]
    rintro t ⟨-, g, hg, -⟩
    cases (hw.creator_eq hg).2
  · have hstep : Steps w .childExit (childExit w.1, w.2) := by
      refine ⟨?_, ?_, rfl⟩
      · rw [hw.staying]
        nofun
      · exact if_neg (by rw [hw.current]; decide)
    refine ⟨_, hstep, (hjoin.2 _ _ hstep).mpr nofun 1 0 ?_ hw.exit hw.awaited⟩
    rw [hw.runs]
    decide

/-- The main thread without children finds itself; a thread that took the slot of a finished one
finds its own parent; and `main` is not woken by a thread that finishes as `mythread` does. -/
theorem join_goes_wrong : ¬JoinRight threadInit History.start ∧
    (∃ w, Run Steps (threadInit, History.start)
      [.create, .schedule, .create, .parentExit, .schedule, .create, .schedule] w ∧
      w.1.current = 1 ∧ ¬JoinRight w.1 w.2) ∧
    ∃ w w', Run Steps (threadInit, History.start) [.create, .joinAll, .schedule] w ∧
      Steps w .parentExit w' ∧ AwaitedBy w.1 w.2 1 0 ∧ w'.1.state 1 = .free ∧ w'.1.state 0 = .wait := by
  refine ⟨?_, ?_, ?_⟩
  · intro hright
    exact absurd (hright.mpr nofun) (by decide)
  · obtain ⟨w, hw, hcur, hjoin, hgen, hcreator⟩ : ∃ w,
        [.create, .schedule, .create, .parentExit, .schedule, .create, .schedule].foldlM next
          (threadInit, History.start) = some w ∧
        w.1.current = 1 ∧ (threadJoinAll w.1).1 = false ∧ w.2.gen 1 = 2 ∧
        w.2.creator = update (update (update (fun _ : Nat => none) 1
          (some (0, 0))) 2 (some (1, 1))) 1 (some (2, 1)) := ⟨_, rfl, rfl, rfl, rfl, rfl⟩
    refine ⟨w, Run.of_foldlM steps_of_next hw, hcur, ?_⟩
    intro hright
    rw [JoinRight, hjoin, hcur] at hright
    refine absurd (hright.mpr ?_) (by decide)
    rintro t ⟨ht, -, hchild⟩
    rw [hgen, hcreator, update_of_ne ht] at hchild
    by_cases ht2 : t = 2
    · subst ht2
      rw [update_self] at hchild
      cases hchild
    · rw [update_of_ne ht2, update_of_ne ht] at hchild
      cases hchild
  · obtain ⟨w, hrun, hw⟩ := exists_pair
    have hstate : (parentExit w.1).state = update w.1.state 1 .free := by
      rw [← hw.current]
      exact setState_state w.1 w.1.current .free
    refine ⟨w, (parentExit w.1, w.2), hrun, ⟨?_, ?_, rfl⟩, hw.awaited, ?_, ?_⟩
    · rw [hw.staying]
      nofun
    · exact if_neg (by rw [hw.current]; decide)
    · show (parentExit w.1).state 1 = .free
      rw [hstate]
      rfl
    · show (parentExit w.1).state 0 = .wait
      rw [hstate]
      exact hw.waits

end Join
end Uthread
end Xv6
