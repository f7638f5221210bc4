import Xv6.Sched.Model

/-!
# What a step of the scheduler machine can do

`Did` lists the outcomes of a step with what has to hold for each; every invariant of the
machine is proved by going through this list (`step_did`).
-/

namespace Xv6
namespace Sched

open Proc Function

/-! ## Updates -/

namespace State

@[simp] theorem proc_setProc (s : State) (i : Nat) (t : Task) : (s.setProc i t).proc i = t :=
  update_self ..

theorem proc_setProc_of_ne (s : State) {i j : Nat} (t : Task) (h : j ≠ i) :
    (s.setProc i t).proc j = s.proc j := update_of_ne h ..

theorem proc_setProc_apply (s : State) (i j : Nat) (t : Task) :
    (s.setProc i t).proc j = if j = i then t else s.proc j := update_apply ..

@[simp] theorem cpu_setCpu (s : State) (c : Nat) (u : Cpu) : (s.setCpu c u).cpu c = u :=
  update_self ..

theorem cpu_setCpu_of_ne (s : State) {c d : Nat} (u : Cpu) (h : d ≠ c) :
    (s.setCpu c u).cpu d = s.cpu d := update_of_ne h ..

theorem find_some {s : State} {test : Task → Bool} {i : Nat} (h : s.find test = some i) :
    i < NPROC ∧ test (s.proc i) = true :=
  ⟨List.mem_range.mp (List.mem_of_find?_eq_some h),
    List.find?_some (p := fun i => test (s.proc i)) h⟩

theorem find_none {s : State} {test : Task → Bool} (h : s.find test = none) {i : Nat}
    (hi : i < NPROC) : test (s.proc i) = false := by
  simpa using List.find?_eq_none.mp h i (List.mem_range.mpr hi)

end State

/-! ## The outcomes of a step -/

/-- Process `p` runs on CPU `c` without `ptable.lock`. -/
structure Runs (s : State) (c p : Nat) : Prop where
  ran : ∃ policy, (s.cpu c).loop = .ran policy p
  place : (s.proc p).place = .run

/-- Process `p` on CPU `c` is in the loop of `wait`: it has called `wait`, or goes on after
`sleep`.  `s0` is the state in which it looks at the table. -/
inductive Waits (s : State) (c p : Nat) : Act → State → Prop
  | call : Runs s c p → (s.proc p).job = .none → s.lock = none → Waits s c p .wait s
  | again : (∃ policy, (s.cpu c).loop = .ran policy p) → (s.proc p).place = .back .wait →
      Waits s c p .resume (s.setProc p { s.proc p with chan := .null })

/-- The scheduler of CPU `c` has the lock: at the top of the loop or, under round robin, after
a process has switched back.  `s0` is the state in which it looks at the table. -/
inductive Turn (s : State) (c : Nat) : Label → State → Prop
  | top : (s.cpu c).loop = .top → s.lock = none → Turn s c (.schedule c) s
  | back (i : Nat) : (s.cpu c).loop = .back 0 i →
      Turn s c (.goOn c) (s.setCpu c { s.cpu c with proc := none })

/-- The scheduler of CPU `c` picks slot `i` under a policy: the one it has read at the top of
the loop, or round robin. -/
def Picks (s : State) (c : Nat) (l : Label) (i : Nat) (policy : Int) : Prop :=
  l = .schedule c ∧ policy = (s.cpu c).policy ∧ (policy ≠ 0 → choose s = some i) ∨
    l = .goOn c ∧ policy = 0 ∧ ∃ j, (s.cpu c).loop = .back 0 j

/-- What a step can do. -/
inductive Did (s : State) : Label → State → Prop
  /-- `fork` finds no slot, or `kill` no process. -/
  | idle {l : Label} : (∃ c, l = .act c .fork) ∨ (∃ pid, l = .kill pid) → Did s l s
  | fork {c p n : Nat} : Runs s c p → (s.proc p).job = .none → s.lock = none →
      n < NPROC → (s.proc n).state = .unused → Did s (.act c .fork) (fill p n s)
  | forkFail {c p n : Nat} : Runs s c p → (s.proc p).job = .forking n → Did s (.act c .forkFail)
        ((s.setProc n { s.proc n with state := .unused }).setJob p .none)
  | forkParent {c p n : Nat} : Runs s c p → (s.proc p).job = .forking n → Did s (.act c .forkParent)
        ((s.setProc n
          { s.proc n with parent := some p, creator := (s.proc p).pid }).setJob p (.forked n))
  | forkDone {c p n : Nat} : Runs s c p → (s.proc p).job = .forked n → s.lock = none →
      Did s (.act c .forkDone)
        ((s.setProc n
          { s.proc n with state := .runnable, place := .sched .forkret }).setJob p .none)
  | exit {c p : Nat} : Runs s c p → (s.proc p).job = .none → s.lock = none → p ≠ s.initproc →
      Did s (.act c .exit) (sched c (becomeZombie p (abandon p s)))
  | reap {c p j : Nat} {a : Act} {s0 : State} : Waits s c p a s0 → j < NPROC →
      (s.proc j).parent = some p → (s.proc j).state = .zombie → Did s (.act c a) (reap p j s0)
  | noChild {c p : Nat} {a : Act} {s0 : State} : Waits s c p a s0 →
      (∀ i, i < NPROC → (s.proc i).parent ≠ some p) ∨ (s.proc p).killed = true →
      Did s (.act c a) (noChild p s0)
  | waitSleep {c p : Nat} {a : Act} {s0 : State} : Waits s c p a s0 →
      (∀ i, i < NPROC → (s.proc i).parent = some p → (s.proc i).state ≠ .zombie) →
      Did s (.act c a) (sleepOn c p (.proc p) .wait s0)
  | sleep {c p n : Nat} : Runs s c p → (s.proc p).job = .none → s.lock = none →
      Did s (.act c (.sleep n)) (sleepOn c p (.other n) .sleep s)
  | yield {c p : Nat} : Runs s c p → s.lock = none → Did s (.act c .yield) (yield c p s)
  | resume {c p : Nat} {k : Cont} : (∃ policy, (s.cpu c).loop = .ran policy p) → (s.proc p).place = .back k →
      k ≠ .wait → Did s (.act c .resume) (resume c p k s)
  | fault {c p : Nat} : Runs s c p →
      Did s (.act c .fault) (s.setProc p { s.proc p with killed := true })
  | setPolicy {c p : Nat} {policy : Int} : Runs s c p →
      Did s (.act c (.setSchedPolicy policy)) (s.setCpu c { s.cpu c with policy := policy })
  | dispatch {c i : Nat} {l : Label} {policy : Int} {s0 : State} : Turn s c l s0 → i < NPROC →
      (s.proc i).state = .runnable → Picks s c l i policy → Did s l (dispatch c i policy s0)
  | roundEnd {c : Nat} {l : Label} {s0 : State} : Turn s c l s0 →
      Did s l { s0.setCpu c { s0.cpu c with loop := .top } with lock := none }
  | iterate {c : Nat} : (s.cpu c).loop = .top → s.lock = none → (s.cpu c).policy ≠ 0 →
      Did s (.schedule c) (endIteration c (s.cpu c).policy none s)
  | sliceEnd {c i : Nat} {policy : Int} : (s.cpu c).loop = .back policy i → policy ≠ 0 →
      Did s (.goOn c) (endIteration c policy (some i)
        ((s.setCpu c { s.cpu c with proc := none }).setProc i
          { s.proc i with row := (s.proc i).row.slice.demote }))
  | wakeup {n : Nat} : s.lock = none → Did s (.wakeup n) (wakeup1 (.other n) s)
  | kill {j pid : Nat} : s.lock = none → j < NPROC → (s.proc j).pid = pid → Did s (.kill pid)
        (s.setProc j
          { s.proc j with
            killed := true
            state := if (s.proc j).state = .sleeping then .runnable else (s.proc j).state })

variable {s s' : State} {c i j p n : Nat} {l : Label}

/-! ## What `exit` does to the others -/

/-- A wakeup makes a sleeping process runnable, or leaves it as it is. -/
theorem wake_eq (t : Task) (chan : Chan) :
    t.wake chan = t ∨ t.state = .sleeping ∧ t.wake chan = { t with state := .runnable } := by
  unfold Task.wake
  split
  · next h => exact .inr ⟨h.1, rfl⟩
  · exact .inl rfl

/-- Only the table changes. -/
theorem abandon_eq (p : Nat) (s : State) : abandon p s = { s with proc := (abandon p s).proc } := by
  unfold abandon
  dsimp only
  split
  · rfl
  · rfl

/-- A slot gets init as its parent if the exiting process was its parent, and is woken or
not. -/
theorem abandon_proc (p i : Nat) (s : State) :
    ∃ st, (abandon p s).proc i =
        { s.proc i with
          state := st
          parent := if (s.proc i).parent = some p then some s.initproc else (s.proc i).parent } ∧
      (st = (s.proc i).state ∨ (s.proc i).state = .sleeping ∧ st = .runnable) := by
  -- the first wakeup, then the new parent, then perhaps the second wakeup
  have hfirst : ∃ st, (s.proc i).wake (waitChan (s.proc p).parent) = { s.proc i with state := st } ∧
      (st = (s.proc i).state ∨ (s.proc i).state = .sleeping ∧ st = .runnable) := by
    rcases wake_eq (s.proc i) (waitChan (s.proc p).parent) with h | ⟨hs, h⟩
    · exact ⟨(s.proc i).state, h, .inl rfl⟩
    · exact ⟨.runnable, h, .inr ⟨hs, rfl⟩⟩
  obtain ⟨st, hwake, hst⟩ := hfirst
  have hpar : (reparent p (wakeup1 (waitChan (s.proc p).parent) s)).proc i =
      { s.proc i with
        state := st
        parent := if (s.proc i).parent = some p then some s.initproc else (s.proc i).parent } := by
    show (if ((s.proc i).wake _).parent = some p then
      { (s.proc i).wake _ with parent := some s.initproc } else (s.proc i).wake _) = _
    rw [hwake]
    split
    · rfl
    · rfl
  unfold abandon
  dsimp only
  split
  · show ∃ st, ((reparent p _).proc i).wake _ = _ ∧ _
    rw [hpar]
    rcases wake_eq { s.proc i with
        state := st
        parent := if (s.proc i).parent = some p then some s.initproc else (s.proc i).parent }
      (.proc s.initproc) with h | ⟨hs, h⟩
    · exact ⟨st, h, hst⟩
    · refine ⟨.runnable, h, ?_⟩
      rcases hst with rfl | ⟨hs', _⟩
      · exact .inr ⟨hs, rfl⟩
      · exact .inr ⟨hs', rfl⟩
  · exact ⟨st, hpar, hst⟩

variable {a : Act} {s0 : State}

/-- Forgetting the channel of a process changes no parent, state or flag. -/
theorem Waits.same (h : Waits s c p a s0) (i : Nat) :
    (s0.proc i).parent = (s.proc i).parent ∧ (s0.proc i).state = (s.proc i).state ∧
      (s0.proc i).killed = (s.proc i).killed := by
  cases h with
  | call _ _ _ => exact ⟨rfl, rfl, rfl⟩
  | again _ _ =>
    rw [State.proc_setProc_apply]
    split
    · next hi => exact hi ▸ ⟨rfl, rfl, rfl⟩
    · exact ⟨rfl, rfl, rfl⟩

/-- Only the table changes. -/
theorem Waits.rest (h : Waits s c p a s0) :
    s0.cpu = s.cpu ∧ s0.nextpid = s.nextpid := by
  cases h with
  | call _ _ _ => exact ⟨rfl, rfl⟩
  | again _ _ => exact ⟨rfl, rfl⟩

/-- The outcomes of one round of `wait`. -/
theorem Waits.did (h : Waits s c p a s0) :
    Did s (.act c a) (waitRound c p s0) := by
  have hsame := h.same
  unfold waitRound
  split
  · next j hj =>
    obtain ⟨hlt, htest⟩ := State.find_some hj
    simp only [Bool.and_eq_true, beq_iff_eq] at htest
    exact .reap h hlt ((hsame j).1 ▸ htest.1) ((hsame j).2.1 ▸ htest.2)
  · next hnone =>
    split
    · next hgive =>
      refine .noChild h ?_
      rw [Bool.or_eq_true, Option.isNone_iff_eq_none] at hgive
      rcases hgive with hkids | hkilled
      · refine .inl fun i hi => ?_
        have := State.find_none hkids hi
        rw [← (hsame i).1]
        simpa using this
      · exact .inr ((hsame p).2.2 ▸ hkilled)
    · refine .waitSleep h fun i hi hpar hz => ?_
      have := State.find_none hnone hi
      rw [(hsame i).1, (hsame i).2.1] at this
      simp [hpar, hz] at this

/-- The outcomes of one search of round robin. -/
theorem Turn.did (h : Turn s c l s0) (hpol : l = .schedule c → (s.cpu c).policy = 0)
    (i : Nat) : Did s l (roundRobin c i s0) := by
  have hproc : s0.proc = s.proc := by
    cases h with
    | top _ _ => rfl
    | back _ _ => rfl
  unfold roundRobin
  split
  · next j hj =>
    have hmem := List.mem_of_find?_eq_some hj
    have htest := List.find?_some hj
    rw [List.mem_range'_1] at hmem
    refine .dispatch h (by omega) ?_ ?_
    · rw [hproc] at htest
      simpa using htest
    · cases h with
      | top _ _ => exact .inl ⟨rfl, (hpol rfl).symm, fun h => absurd rfl h⟩
      | back k hloop => exact .inr ⟨rfl, rfl, k, hloop⟩
  · exact .roundEnd h

/-- The search of the multi-level feedback queue finds a RUNNABLE process. -/
theorem choose_some (h : choose s = some i) : i < NPROC ∧ (s.proc i).state = .runnable := by
  obtain ⟨level, _, hfind⟩ := List.exists_of_findSome?_eq_some h
  obtain ⟨hlt, htest⟩ := State.find_some hfind
  simp only [Bool.and_eq_true, beq_iff_eq] at htest
  exact ⟨hlt, htest.1⟩

theorem schedule_did (h : schedule c s = .ok s') : Did s (.schedule c) s' := by
  unfold schedule at h
  dsimp only at h
  split at h
  · next hturn =>
    split at h
    · next hpol =>
      cases h
      exact (Turn.top hturn.1 hturn.2).did (fun _ => hpol) 0
    · next hpol =>
      split at h
      · next i hi =>
        cases h
        obtain ⟨hlt, hrun⟩ := choose_some hi
        exact .dispatch (.top hturn.1 hturn.2) hlt hrun (.inl ⟨rfl, rfl, fun _ => hi⟩)
      · cases h
        exact .iterate hturn.1 hturn.2 hpol
  · cases h

theorem goOn_did (h : goOn c s = .ok s') : Did s (.goOn c) s' := by
  unfold goOn at h
  split at h
  · next policy i hloop =>
    dsimp only at h
    split at h
    · next hpol =>
      cases h
      subst hpol
      exact (Turn.back i hloop).did nofun (i + 1)
    · next hpol =>
      cases h
      exact .sliceEnd hloop hpol
  · cases h

/-- What `locked` lets through. -/
theorem locked_ok {next : Except Stop State} (h : locked p s next = .ok s') :
    (s.proc p).job = .none ∧ s.lock = none ∧ next = .ok s' := by
  unfold locked at h
  split at h
  · next hcond => exact ⟨hcond.1, hcond.2, h⟩
  · cases h

theorem actRun_did (hruns : Runs s c p) (h : actRun c p s a = .ok s') :
    Did s (.act c a) s' := by
  cases a with
  | fork =>
    obtain ⟨hjob, hlock, heq⟩ := locked_ok h
    cases heq
    unfold allocproc
    split
    · exact .idle (.inl ⟨c, rfl⟩)
    · next n hn =>
      obtain ⟨hlt, htest⟩ := State.find_some hn
      exact .fork hruns hjob hlock hlt (by simpa using htest)
  | forkFail =>
    simp only [actRun] at h
    split at h
    · next n hjob =>
      cases h
      exact .forkFail hruns hjob
    · cases h
  | forkParent =>
    simp only [actRun] at h
    split at h
    · next n hjob =>
      cases h
      exact .forkParent hruns hjob
    · cases h
  | forkDone =>
    simp only [actRun] at h
    split at h
    · next n hjob =>
      split at h
      · next hlock =>
        cases h
        exact .forkDone hruns hjob hlock
      · cases h
    · cases h
  | exit =>
    obtain ⟨hjob, hlock, heq⟩ := locked_ok h
    unfold exit at heq
    split at heq
    · cases heq
    · next hne =>
      cases heq
      exact .exit hruns hjob hlock hne
  | wait =>
    obtain ⟨hjob, hlock, heq⟩ := locked_ok h
    cases heq
    exact (Waits.call hruns hjob hlock).did
  | sleep n =>
    obtain ⟨hjob, hlock, heq⟩ := locked_ok h
    cases heq
    exact .sleep hruns hjob hlock
  | yield =>
    simp only [actRun] at h
    split at h
    · next hlock =>
      cases h
      exact .yield hruns hlock
    · cases h
  | resume => cases h
  | fault =>
    cases h
    exact .fault hruns
  | setSchedPolicy policy =>
    cases h
    exact .setPolicy hruns

theorem act_did (h : act c a s = .ok s') : Did s (.act c a) s' := by
  unfold act at h
  split at h
  · next policy p hloop =>
    split at h
    · next hplace => exact actRun_did ⟨⟨policy, hloop⟩, hplace⟩ h
    · next k hplace =>
      cases h
      by_cases hk : k = .wait
      · subst hk
        exact (Waits.again ⟨policy, hloop⟩ hplace).did
      · exact .resume ⟨policy, hloop⟩ hplace hk
    · cases h
  · cases h

theorem kill_did {pid : Nat} (hlock : s.lock = none) : Did s (.kill pid) (kill pid s) := by
  unfold kill
  split
  · exact .idle (.inr ⟨pid, rfl⟩)
  · next j hj =>
    obtain ⟨hlt, htest⟩ := State.find_some hj
    exact .kill hlock hlt (by simpa using htest)

/-- Every step has one of the listed outcomes. -/
theorem step_did (h : Steps s l s') : Did s l s' := by
  unfold Steps step at h
  split at h
  · exact act_did h
  · exact schedule_did h
  · exact goOn_did h
  · split at h
    · next hlock =>
      cases h
      exact .wakeup hlock
    · cases h
  · split at h
    · next hlock =>
      cases h
      exact kill_did hlock
    · cases h

end Sched
end Xv6
