import Xv6.Sched.Queue

/-!
# Waiting for one CPU

Runs of one CPU under the multi-level feedback queue.  Two processes that stay ready at one
level do not take turns: the search begins at slot 0 every time, so the one in the lower slot
runs again and again (`not_dispatched_of_peers`).  A process that waits is boosted: the wait
ticks of its level go up by one in every iteration, and reach the bound of the level.
-/

namespace Xv6
namespace Sched

open Proc Lib Function

variable {s s' : State} {c i j : Nat} {l : Label} {ls : List Label} {policy : Nat → Int}

/-! ## One CPU -/

/-- The step is one of CPU 0, if it is of a CPU at all. -/
def Label.cpu0 : Label → Prop
  | .act c _ => c = 0
  | .schedule c => c = 0
  | .goOn c => c = 0
  | .wakeup _ => True
  | .kill _ => True

/-- The step sets a policy only to a number that `ok` allows. -/
def Label.sets (ok : Int → Prop) : Label → Prop
  | .act _ (.setSchedPolicy policy) => ok policy
  | _ => True

/-- The machine with one CPU, under policies that `ok` allows. -/
def OneCpu (ok : Int → Prop) (s : State) (l : Label) (s' : State) : Prop :=
  Steps s l s' ∧ l.cpu0 ∧ l.sets ok

/-- What holds between any two steps of one CPU. -/
structure Single (ok : Int → Prop) (s : State) : Prop where
  rows : RowInv s
  others : ∀ c, c ≠ 0 → (s.cpu c).loop = .top
  policy : ok (s.cpu 0).policy
  loop : ∀ policy i, (s.cpu 0).loop = .ran policy i ∨ (s.cpu 0).loop = .back policy i → ok policy

variable {ok : Int → Prop}

theorem Single.start (h : ok (policy 0)) : Single ok (start policy) :=
  ⟨RowInv.start policy, fun _ _ => rfl, h, fun _ _ hloop => by rcases hloop with h | h <;> cases h⟩

/-- Whoever is dispatched on one CPU has been chosen. -/
theorem Picks.allowed {policy : Int} (h : Picks s 0 l i policy) (hs : Single ok s) : ok policy := by
  rcases h with ⟨_, rfl, _⟩ | ⟨_, rfl, j, hloop⟩
  · exact hs.policy
  · exact hs.loop 0 j (.inr hloop)

theorem Single.step (h : Single ok s) (hs : OneCpu ok s l s') : Single ok s' := by
  obtain ⟨hstep, hcpu, hsets⟩ := hs
  have hd := step_did hstep
  refine ⟨h.rows.step hstep, fun c hc => ?_, ?_, fun policy i hloop => ?_⟩
  · -- a step of CPU 0 leaves the others at the top
    have htop := h.others c hc
    cases hd.cpuDid c with
    | same hloop _ _ _ _ =>
      rcases hloop with hloop | ⟨policy, i, hran, _⟩
      · rw [hloop, htop]
      · cases htop.symm.trans hran
    | dispatched _ hpick _ _ _ _ _ _ =>
      rcases hpick with ⟨rfl, _⟩ | ⟨rfl, _⟩
      · exact absurd hcpu hc
      · exact absurd hcpu hc
    | top htop' _ => exact htop'
  · cases hd.cpuDid 0 with
    | same _ _ _ hpol _ =>
      rcases hpol with hpol | ⟨policy, rfl, hpol⟩
      · rw [hpol]
        exact h.policy
      · rw [hpol]
        exact hsets
    | dispatched _ _ _ _ _ _ _ hpol =>
      rw [hpol]
      exact h.policy
    | top _ hpol =>
      rw [hpol]
      exact h.policy
  · cases hd.cpuDid 0 with
    | same hsame _ _ _ _ =>
      rcases hsame with hsame | ⟨policy', i', hran, hback⟩
      · rw [hsame] at hloop
        exact h.loop policy i hloop
      · rw [hback] at hloop
        rcases hloop with hloop | hloop
        · cases hloop
        · cases hloop
          exact h.loop _ _ (.inl hran)
    | dispatched hran hpick _ _ _ _ _ _ =>
      rw [hran] at hloop
      rcases hloop with hloop | hloop
      · cases hloop
        exact hpick.allowed h
      · cases hloop
    | top htop _ =>
      rw [htop] at hloop
      rcases hloop with hloop | hloop <;> cases hloop

/-! ## Equals -/

/-- The scheduler switches to slot `i`. -/
def Dispatches (s s' : State) (i : Nat) : Prop :=
  (s.proc i).state = .runnable ∧ (s'.proc i).state = .running

instance (s s' : State) (i : Nat) : Decidable (Dispatches s s' i) :=
  inferInstanceAs (Decidable (_ ∧ _))

/-- The process is RUNNABLE or RUNNING at level `q`. -/
def Task.Ready (q : Int) (t : Task) : Prop :=
  (t.state = .runnable ∨ t.state = .running) ∧ t.row.priority = q

/-- Both processes are RUNNABLE or RUNNING at level `q`. -/
def Peers (i j : Nat) (q : Int) (s : State) : Prop :=
  (s.proc i).Ready q ∧ (s.proc j).Ready q

instance (q : Int) (t : Task) : Decidable (t.Ready q) :=
  inferInstanceAs (Decidable ((_ ∨ _) ∧ _))

instance (i j : Nat) (q : Int) (s : State) : Decidable (Peers i j q s) :=
  inferInstanceAs (Decidable (_ ∧ _))

/-- A RUNNING process is the one that the scheduler has switched to. -/
theorem loop_of_running (h : Single ok s) (hi : (s.proc i).state = .running) :
    ∃ policy, (s.cpu 0).loop = .ran policy i := by
  have hphase : s.abs.phase i = .running ∨ s.abs.phase i = .taken := by
    show (s.proc i).phase = _ ∨ (s.proc i).phase = _
    unfold Task.phase
    rw [hi]
    split <;> simp_all
  obtain ⟨c, hc⟩ := h.rows.inv.coherent.onCpu i hphase
  have hc : (s.cpu c).loop.abs = .ran i := hc
  cases hloop : (s.cpu c).loop with
  | top =>
    rw [hloop] at hc
    cases hc
  | back policy k =>
    rw [hloop] at hc
    cases hc
  | ran policy k =>
    rw [hloop] at hc
    cases hc
    have hzero : c = 0 := by
      by_contra hne
      cases (h.others c hne).symm.trans hloop
    exact ⟨policy, hzero ▸ hloop⟩

/-- A process that is dispatched on one CPU has been chosen at the top of the loop. -/
theorem choose_of_dispatches (h : Single (· ≠ 0) s) (hs : OneCpu (· ≠ 0) s l s')
    (hdisp : Dispatches s s' i) : choose s = some i ∧ (s.cpu 0).loop = .top := by
  obtain ⟨hrun, hrunning⟩ := hdisp
  have hd := step_did hs.1
  obtain ⟨policy, hloop'⟩ := loop_of_running (h.step hs) hrunning
  cases hd.cpuDid 0 with
  | same hloop _ _ _ _ =>
    exfalso
    rcases hloop with hloop | ⟨_, _, _, hback⟩
    · have hran : s.abs.loop 0 = .ran i := congrArg Loop.abs (hloop.symm.trans hloop')
      have hphase : (s.proc i).phase = .running ∨ (s.proc i).phase = .taken :=
        h.rows.inv.coherent.ran 0 i hran
      unfold Task.phase at hphase
      rw [hrun] at hphase
      rcases hphase with hphase | hphase <;> cases hphase
    · cases hback.symm.trans hloop'
  | dispatched hran hpick _ _ _ _ _ _ =>
    cases hran.symm.trans hloop'
    rcases hpick with ⟨rfl, rfl, hchoose⟩ | ⟨_, _, k, hback⟩
    · have htop := (schedule_mlfq hs.1 h.policy).1
      exact ⟨hchoose h.policy, htop⟩
    · exact absurd rfl (h.loop 0 k (.inr hback))
  | top htop _ => cases htop.symm.trans hloop'

/-- At the top of the loop nobody runs. -/
theorem runnable_of_ready {q : Int} (h : Single ok s) (htop : (s.cpu 0).loop = .top)
    (hi : (s.proc i).Ready q) : (s.proc i).state = .runnable ∧ (s.proc i).row.priority = q := by
  obtain ⟨hstate, hlevel⟩ := hi
  refine ⟨hstate.resolve_right fun hrunning => ?_, hlevel⟩
  obtain ⟨policy, hloop⟩ := loop_of_running h hrunning
  cases htop.symm.trans hloop

/-- Of two equals the one in the lower slot is dispatched. -/
theorem le_of_dispatches {q : Int} (h : Single (· ≠ 0) s) (hs : OneCpu (· ≠ 0) s l s')
    (hi : (s.proc i).Ready q) (hj : (s.proc j).Ready q) (hdisp : Dispatches s s' i) : i ≤ j := by
  obtain ⟨hchoose, htop⟩ := choose_of_dispatches h hs hdisp
  have hspec := choose_spec h.rows.searchable hchoose
  obtain ⟨hrun, hlevel⟩ := runnable_of_ready h htop hj
  obtain ⟨_, hlevel'⟩ := runnable_of_ready h htop hi
  exact hspec.2.2 j hrun (hlevel.trans hlevel'.symm)

/-- Once one of two equals has been dispatched, the other is not dispatched as long as both
stay RUNNABLE or RUNNING at their level. -/
theorem not_dispatched_of_peers {ls1 ls2 : List Label} {s1 s2 s3 : State} {q : Int}
    (hpol : policy 0 ≠ 0) (hij : i ≠ j) (h1 : Run (OneCpu (· ≠ 0)) (start policy) ls1 s1)
    (hfirst : OneCpu (· ≠ 0) s1 l s2) (hp1 : Peers i j q s1) (hdisp : Dispatches s1 s2 i)
    (hstay : Run (fun s l s' => OneCpu (· ≠ 0) s l s' ∧ Peers i j q s ∧ Peers i j q s')
      s2 ls2 s3) :
    Run (fun s l s' => OneCpu (· ≠ 0) s l s' ∧ ¬ Dispatches s s' j) s2 ls2 s3 := by
  have hs1 : Single (· ≠ 0) s1 := h1.invariant (Single.start hpol) fun _ _ _ => Single.step
  have hle : i ≤ j := le_of_dispatches hs1 hfirst hp1.1 hp1.2 hdisp
  refine hstay.mono_of_invariant (hs1.step hfirst) (fun _ _ _ hs h => hs.step h.1) ?_
  rintro s l s' hs ⟨hstep, hp, _⟩
  refine ⟨hstep, fun hdisp' => hij ?_⟩
  have hge : j ≤ i := le_of_dispatches hs hstep hp.2 hp.1 hdisp'
  exact le_antisymm hle hge

/-- Init and its child are equals: init is dispatched, yields and is dispatched again. -/
theorem exists_lowerSlotTwice :
    ∃ s1 s2 s3 s4, Run (OneCpu (· ≠ 0)) (start fun _ => 1) forkYield s1 ∧
      OneCpu (· ≠ 0) s1 (.schedule 0) s2 ∧ Peers 0 1 3 s1 ∧ Dispatches s1 s2 0 ∧
      Run (fun s l s' => OneCpu (· ≠ 0) s l s' ∧ Peers 0 1 3 s ∧ Peers 0 1 3 s') s2
        [.act 0 .resume, .act 0 .yield, .goOn 0] s3 ∧
      OneCpu (· ≠ 0) s3 (.schedule 0) s4 ∧ Dispatches s3 s4 0 := by
  have heval : Run.passesAll step (fun _ _ _ => true) forkYield (start fun _ => 1) (fun s1 =>
      Run.passesAll step (fun s _ s' => Peers 0 1 3 s && Dispatches s s' 0) [.schedule 0] s1 (fun s2 =>
      Run.passesAll step (fun s _ s' => Peers 0 1 3 s && Peers 0 1 3 s')
        [.act 0 .resume, .act 0 .yield, .goOn 0] s2 (fun s3 =>
      Run.passesAll step (fun s _ s' => Dispatches s s' 0) [.schedule 0] s3 fun _ => true))) =
      true := by decide +kernel
  obtain ⟨s1, hrun1, heval⟩ := Run.exists_of_passesAll heval
  obtain ⟨s2, hrun2, heval⟩ := Run.exists_of_passesAll heval
  obtain ⟨s3, hrun3, heval⟩ := Run.exists_of_passesAll heval
  obtain ⟨s4, hrun4, _⟩ := Run.exists_of_passesAll heval
  obtain ⟨hstep2, htest2⟩ := hrun2.of_single
  obtain ⟨hstep4, htest4⟩ := hrun4.of_single
  rw [Bool.and_eq_true, decide_eq_true_eq, decide_eq_true_eq] at htest2
  have hlabels : ∀ l ∈ forkYield, l.cpu0 ∧ l.sets (· ≠ 0) := by
    simp [forkYield, Label.cpu0, Label.sets]
  have hlabels' : ∀ l ∈ ([.act 0 .resume, .act 0 .yield, .goOn 0] : List Label),
      l.cpu0 ∧ l.sets (· ≠ 0) := by
    simp [Label.cpu0, Label.sets]
  refine ⟨s1, s2, s3, s4, ?_, ⟨hstep2, rfl, trivial⟩, htest2.1, htest2.2, ?_,
    ⟨hstep4, rfl, trivial⟩, of_decide_eq_true htest4⟩
  · exact hrun1.mono_of_mem fun _ l hl _ hs => ⟨hs.1, hlabels l hl⟩
  · refine hrun3.mono_of_mem fun s l hl s' hs => ⟨⟨hs.1, hlabels' l hl⟩, ?_⟩
    have htest := hs.2
    rwa [Bool.and_eq_true, decide_eq_true_eq, decide_eq_true_eq] at htest

theorem not_dispatched_of_peers_forkYield :
    ∃ s1 s2 s3 s4, Run (OneCpu (· ≠ 0)) (start fun _ => 1) forkYield s1 ∧
      Dispatches s1 s2 0 ∧ Dispatches s3 s4 0 ∧
      Run (fun s l s' => OneCpu (· ≠ 0) s l s' ∧ ¬ Dispatches s s' 1) s2
        [.act 0 .resume, .act 0 .yield, .goOn 0] s3 := by
  obtain ⟨s1, s2, s3, s4, h1, hfirst, hp1, hdisp, hstay, _, hdisp'⟩ := exists_lowerSlotTwice
  exact ⟨s1, s2, s3, s4, h1, hdisp, hdisp',
    not_dispatched_of_peers (by decide) (by decide) h1 hfirst hp1 hdisp hstay⟩

/-- Two equals do not always take turns: it is not so that between two dispatches of one of
them the other is always dispatched. -/
theorem not_takingTurns :
    ¬ ∀ (policy : Nat → Int) (i j : Nat) (q : Int) (ls1 ls2 : List Label) (l l' : Label)
        (s1 s2 s3 s4 : State), policy 0 ≠ 0 → i ≠ j →
        Run (OneCpu (· ≠ 0)) (start policy) ls1 s1 → OneCpu (· ≠ 0) s1 l s2 →
        Peers i j q s1 → Dispatches s1 s2 i →
        Run (fun s l s' => OneCpu (· ≠ 0) s l s' ∧ Peers i j q s ∧ Peers i j q s') s2 ls2 s3 →
        OneCpu (· ≠ 0) s3 l' s4 → Dispatches s3 s4 i →
        ∃ ls3 ls4 m s s', ls2 = ls3 ++ m :: ls4 ∧
          Run (fun s l s' => OneCpu (· ≠ 0) s l s' ∧ Peers i j q s ∧ Peers i j q s') s2 ls3 s ∧
          (OneCpu (· ≠ 0) s m s' ∧ Peers i j q s ∧ Peers i j q s') ∧ Dispatches s s' j := by
  intro hclaim
  obtain ⟨s1, s2, s3, s4, h1, hfirst, hp1, hdisp, hstay, hlast, hdisp'⟩ := exists_lowerSlotTwice
  obtain ⟨ls3, ls4, m, s, s', _, hrun, ⟨hstep, hp, _⟩, hother⟩ :=
    hclaim (fun _ => 1) 0 1 3 _ _ _ _ _ _ _ _ (by decide) (by decide) h1 hfirst hp1 hdisp hstay
      hlast hdisp'
  have hs1 : Single (· ≠ 0) s1 := h1.invariant (Single.start (by decide)) fun _ _ _ => Single.step
  have hs : Single (· ≠ 0) s :=
    hrun.invariant (hs1.step hfirst) fun _ _ _ hs h => hs.step h.1
  exact absurd (le_of_dispatches hs hstep hp.2 hp.1 hother) (by decide)

/-! ## Boosting -/

/-- The policies that boost. -/
def Boosts (policy : Int) : Prop := policy = 1 ∨ policy = 2

/-- A step of one CPU under a policy that boosts, in which slot `i` stays RUNNABLE. -/
def StaysRunnable (i : Nat) (s : State) (l : Label) (s' : State) : Prop :=
  OneCpu Boosts s l s' ∧ (s.proc i).state = .runnable ∧ (s'.proc i).state = .runnable

/-- The wait ticks of the level of a row. -/
def Row.waited (r : Row) : Int := r.waitTicks r.priority

/-- What the end of an iteration does to a process that waits below level 3. -/
theorem age_waited {r : Row} {policy : Int} (hpol : Boosts policy) (hlevel : r.priority < 3)
    (hlow : 0 ≤ r.waited) (hhigh : r.waited ≤ 2 ^ 30) :
    (required r.priority ≤ r.waited + 1 ∧ (r.age policy false).priority = r.priority + 1 ∧
      (r.age policy false).waited = 0) ∨
    (r.waited + 1 < required r.priority ∧ (r.age policy false).priority = r.priority ∧
      (r.age policy false).waited = r.waited + 1) := by
  have hage : r.age policy false = r.waitTick.boost := by
    show (if policy ≠ 3 then r.waitTick.boost else r.waitTick) = _
    rw [if_pos]
    rcases hpol with rfl | rfl <;> decide
  have htick : r.waitTick.waited = r.waited + 1 := by
    show update r.waitTicks r.priority (incr (r.waitTicks r.priority)) r.priority = _
    rw [update_self]
    exact Int.bmod_eq_of_le (by unfold Row.waited at hlow; omega) (by unfold Row.waited at hhigh; omega)
  rw [hage]
  by_cases hreq : required r.priority ≤ r.waited + 1
  · left
    have hboost : r.waitTick.boost = r.waitTick.move (r.priority + 1) := by
      unfold Row.boost
      rw [if_pos ⟨hlevel, le_of_le_of_eq hreq htick.symm⟩]
      rfl
    rw [hboost]
    exact ⟨hreq, rfl, rfl⟩
  · right
    have hboost : r.waitTick.boost = r.waitTick := by
      unfold Row.boost
      rw [if_neg]
      rintro ⟨_, hwait⟩
      exact hreq (le_of_le_of_eq hwait htick)
    rw [hboost]
    exact ⟨not_le.mp hreq, rfl, htick⟩

/-- How many iterations a process below level 3 may still have to wait: for its level, and for
the levels between it and level 3. -/
def Row.need (r : Row) : Int :=
  max 1 (required r.priority - r.waited) +
    if r.priority = 0 then 480 else if r.priority = 1 then 160 else 0

/-- A process that has waited in slot `i` since the iterations of the CPU were `n0`, and was at
level `q0` then. -/
structure Patient (i n0 : Nat) (q0 : Int) (s : State) : Prop where
  single : Single Boosts s
  slot : (s.cpu 0).loop.slot ≠ some i
  count : n0 ≤ (s.cpu 0).iterations
  /-- It has left its first level, or has waited there all the time. -/
  first : q0 < 3 → q0 < (s.proc i).row.priority ∨
    (s.proc i).row.priority = q0 ∧ ((s.cpu 0).iterations - n0 : Int) ≤ (s.proc i).row.waited ∧
      ((s.cpu 0).iterations = n0 ∨ (s.proc i).row.waited < required q0)
  /-- It has come to level 3, or what it still needs fits. -/
  all : (s.proc i).row.priority = 3 ∨
    (s.proc i).row.priority < 3 ∧ 0 ≤ (s.proc i).row.waited ∧ (s.proc i).row.waited ≤ 2 ^ 30 ∧
      (s.proc i).row.need + ((s.cpu 0).iterations - n0) ≤ 980

theorem required_eq (q : Int) : required q =
    if q = 0 then 500 else if q = 1 then 320 else if q = 2 then 160 else if q = 3 then 80 else 0 := by
  unfold required allotment
  grind

/-- What an iteration takes off the need. -/
theorem need_age {r : Row} {policy : Int} (hpol : Boosts policy) (h : r.Ok)
    (hlevel : r.priority < 3) (hlow : 0 ≤ r.waited) (hhigh : r.waited ≤ 2 ^ 30) :
    (r.age policy false).priority = 3 ∨
      (r.age policy false).priority < 3 ∧ 0 ≤ (r.age policy false).waited ∧
        (r.age policy false).waited ≤ 2 ^ 30 ∧ (r.age policy false).need + 1 ≤ r.need := by
  have hnonneg := h.nonneg
  have hreq := required_eq r.priority
  have hreq' := required_eq (r.priority + 1)
  unfold Row.need
  rcases age_waited hpol hlevel hlow hhigh with ⟨hdue, hprio, hwait⟩ | ⟨hdue, hprio, hwait⟩
  · rw [hprio, hwait]
    by_cases htop : r.priority + 1 = 3
    · exact .inl htop
    · right
      split_ifs at * <;> omega
  · rw [hprio, hwait]
    right
    split_ifs at * <;> omega

theorem Patient.step {n0 : Nat} {q0 : Int} (h : Patient i n0 q0 s) (hs : StaysRunnable i s l s') :
    Patient i n0 q0 s' := by
  obtain ⟨hone, hrun, hrun'⟩ := hs
  have hsingle' := h.single.step hone
  have hd := step_did hone.1
  have hok := h.single.rows.rows i
  -- the process is not dispatched
  have hslot' : (s'.cpu 0).loop.slot ≠ some i := by
    intro hslot
    cases hd.cpuDid 0 with
    | same hloop _ _ _ _ =>
      rw [slot_of_same hloop] at hslot
      exact h.slot hslot
    | dispatched hloop _ _ _ _ _ _ _ =>
      rw [hloop] at hslot
      cases hslot
      have hran : (s'.proc i).phase = .running ∨ (s'.proc i).phase = .taken :=
        hsingle'.rows.inv.coherent.ran 0 i (congrArg Loop.abs hloop)
      unfold Task.phase at hran
      rw [hrun'] at hran
      rcases hran with hran | hran <;> cases hran
    | top htop _ =>
      rw [htop] at hslot
      cases hslot
  -- so its row changes only at the end of an iteration
  have hends : ¬ EndsSlice s l i := by
    rintro ⟨c, policy, rfl, hloop, _⟩
    cases hone.2.1
    refine h.slot ?_
    rw [hloop]
    rfl
  cases hd.rowDid h.single.rows.inv.coherent i with
  | fresh _ hfree _ _ => cases hfree.symm.trans hrun
  | charge _ _ hrunning _ => cases hrunning.symm.trans hrun
  | slice hslice _ _ => exact absurd hslice hends
  | sliceAge _ hslice _ _ => exact absurd hslice hends
  | same hrow hcount _ =>
    have hcount := hcount hrun 0
    refine ⟨hsingle', hslot', ?_, ?_, ?_⟩
    · rw [hcount]
      exact h.count
    · rw [hrow, hcount]
      exact h.first
    · rw [hrow, hcount]
      exact h.all
  | @age c policy hend _ hrow hcount =>
    have hboosts : c = 0 ∧ Boosts policy := by
      obtain ⟨_, ⟨rfl, _, _, rfl⟩ | ⟨j, rfl, hloop, _⟩⟩ := hend
      · have hc : c = 0 := hone.2.1
        subst hc
        exact ⟨rfl, h.single.policy⟩
      · have hc : c = 0 := hone.2.1
        subst hc
        exact ⟨rfl, h.single.loop policy j (.inr hloop)⟩
    obtain ⟨rfl, hpol⟩ := hboosts
    have hmono := priority_le_age (s.proc i).row policy false
    have hle := (hsingle'.rows.rows i).le
    rw [hrow] at hle
    refine ⟨hsingle', hslot', ?_, fun hq => ?_, ?_⟩
    · have := h.count
      omega
    · rw [hrow, hcount]
      rcases h.first hq with hup | ⟨hq0, hwaited, hdue⟩
      · left
        omega
      · rcases h.all with hthree | ⟨hlevel, hlow, hhigh, _⟩
        · omega
        · rcases age_waited hpol hlevel hlow hhigh with ⟨_, hprio, _⟩ | ⟨hlt, hprio, hwait⟩
          · left
            omega
          · right
            rw [hq0] at hlt
            refine ⟨by omega, ?_, .inr ?_⟩
            · rw [hwait]
              push_cast
              omega
            · rw [hwait]
              exact hlt
    · rw [hrow, hcount]
      rcases h.all with hthree | ⟨hlevel, hlow, hhigh, hneed⟩
      · left
        omega
      · rcases need_age hpol hok hlevel hlow hhigh with hthree | ⟨hlevel', hlow', hhigh', hneed'⟩
        · exact .inl hthree
        · refine .inr ⟨hlevel', hlow', hhigh', ?_⟩
          push_cast
          omega

/-- The state with other contents of `proc_wait_ticks`. -/
def State.withWaitTicks (s : State) (w : Nat → Int → Int) : State :=
  { s with
    proc := fun i => { s.proc i with row := { (s.proc i).row with waitTicks := w i } } }

/-- No invariant speaks of the wait ticks. -/
theorem RowInv.withWaitTicks (h : RowInv s) (w : Nat → Int → Int) :
    RowInv (s.withWaitTicks w) := by
  have habs : (s.withWaitTicks w).abs = s.abs := rfl
  have hkin : (s.withWaitTicks w).kin = s.kin := rfl
  refine ⟨⟨habs ▸ h.inv.coherent, hkin ▸ h.inv.kin, h.inv.waiting, h.inv.onCpu⟩, ?_, h.ran⟩
  intro i
  exact ⟨(h.rows i).nonneg, (h.rows i).le, (h.rows i).ticks, (h.rows i).stay⟩

/-- On one CPU, from any state at the top of the loop, under policy 1 or 2 and with any wait
ticks up to `2 ^ 30`: a process that stays RUNNABLE, so that it is not dispatched, has risen
after 500 iterations from level 0, 320 from level 1 and 160 from level 2, and is at level 3
after 980 iterations. -/
theorem boosted_of_waiting {ls0 : List Label} {s0 : State} {w : Nat → Int → Int}
    (h0 : Run (OneCpu fun _ => True) (start policy) ls0 s0) (htop : (s0.cpu 0).loop = .top)
    (hpol : Boosts (s0.cpu 0).policy) (hw : ∀ k q, 0 ≤ w k q ∧ w k q ≤ 2 ^ 30)
    (h : Run (StaysRunnable i) (s0.withWaitTicks w) ls s) :
    ((s0.proc i).row.priority = 0 ∧ (s0.cpu 0).iterations + 500 ≤ (s.cpu 0).iterations ∨
      (s0.proc i).row.priority = 1 ∧ (s0.cpu 0).iterations + 320 ≤ (s.cpu 0).iterations ∨
      (s0.proc i).row.priority = 2 ∧ (s0.cpu 0).iterations + 160 ≤ (s.cpu 0).iterations →
        (s0.proc i).row.priority < (s.proc i).row.priority) ∧
    ((s0.cpu 0).iterations + 980 ≤ (s.cpu 0).iterations → (s.proc i).row.priority = 3) := by
  have hs0 : Single (fun _ => True) s0 :=
    h0.invariant (Single.start trivial) fun _ _ _ => Single.step
  have hlevel := hs0.rows.searchable.level i
  have hstart : Patient i (s0.cpu 0).iterations (s0.proc i).row.priority
      (s0.withWaitTicks w) := by
    have hwaited : ((s0.withWaitTicks w).proc i).row.waited = w i (s0.proc i).row.priority := rfl
    have hprio : ((s0.withWaitTicks w).proc i).row.priority = (s0.proc i).row.priority := rfl
    have hcount : ((s0.withWaitTicks w).cpu 0).iterations = (s0.cpu 0).iterations := rfl
    obtain ⟨hlow, hhigh⟩ := hw i (s0.proc i).row.priority
    refine ⟨⟨hs0.rows.withWaitTicks w, hs0.others, hpol, fun p k hloop => ?_⟩, ?_, le_refl _,
      fun _ => .inr ⟨rfl, ?_, .inl rfl⟩, ?_⟩
    · have hloop : (s0.cpu 0).loop = .ran p k ∨ (s0.cpu 0).loop = .back p k := hloop
      rw [htop] at hloop
      rcases hloop with hloop | hloop <;> cases hloop
    · show (s0.cpu 0).loop.slot ≠ some i
      rw [htop]
      nofun
    · rw [hwaited, hcount]
      omega
    · by_cases hthree : (s0.proc i).row.priority = 3
      · exact .inl hthree
      · right
        have hreq := required_eq (s0.proc i).row.priority
        unfold Row.need
        rw [hwaited, hprio, hcount]
        refine ⟨by omega, hlow, hhigh, ?_⟩
        split_ifs at * <;> omega
  have hend := h.invariant hstart fun _ _ _ hp hs => hp.step hs
  have hreq := required_eq (s0.proc i).row.priority
  constructor
  · intro hn
    rcases hend.first (by omega) with hup | ⟨_, hwaited, hdue⟩
    · exact hup
    · split_ifs at hreq <;> omega
  · intro hn
    rcases hend.all with hthree | ⟨_, _, _, hneed⟩
    · exact hthree
    · unfold Row.need at hneed
      split_ifs at hneed <;> omega

/-! ### A process that waits for 500 iterations -/

/-- Slots 0 and 1 are RUNNABLE at level 0 and nobody else is.  Slot 1 has waited for `n` iterations. -/
structure Duel (n : Nat) (s : State) : Prop where
  single : Single Boosts s
  top : (s.cpu 0).loop = .top
  lock : s.lock = none
  policy : (s.cpu 0).policy = 1
  place : (s.proc 0).place = .sched .yield
  both : ∀ j, j < 2 → (s.proc j).state = .runnable ∧ (s.proc j).row.priority = 0
  others : ∀ j, (s.proc j).state = .runnable → j < 2
  waited : (s.proc 0).row.waited = 0 ∧ (s.proc 1).row.waited = n

/-- The lower slot is chosen. -/
theorem Duel.choose_eq {n : Nat} (h : Duel n s) : choose s = some 0 := by
  obtain ⟨i, hi⟩ := choose_isSome h.single.rows.searchable (h.both 0 (by decide)).1
  obtain ⟨hrun, -, hlowest⟩ := choose_spec h.single.rows.searchable hi
  have hlevel := (h.both i (h.others i hrun)).2
  have hle := hlowest 0 (h.both 0 (by decide)).1 ((h.both 0 (by decide)).2.trans hlevel.symm)
  rw [hi, Nat.le_zero.mp hle]

/-- The row of a process that yields at level 0 without having waited. -/
theorem age_yielded {r : Row} (hlevel : r.priority = 0) (hwaited : r.waited = 0) :
    (r.charge.slice.demote.age 1 true).priority = 0 ∧ (r.charge.slice.demote.age 1 true).waited = 0 := by
  have hdemote : r.charge.slice.demote = r.charge.slice := by
    unfold Row.demote
    rw [if_neg]
    rintro ⟨-, hpos⟩
    exact absurd (hlevel ▸ hpos : (0 : Int) > 0) (by decide)
  have hboost : (r.charge.slice.age 1 true) = r.charge.slice := by
    show r.charge.slice.boost = _
    unfold Row.boost
    rw [if_neg]
    rintro ⟨-, hdue⟩
    have hdue : r.waited ≥ required r.priority := hdue
    rw [hwaited, hlevel] at hdue
    exact absurd hdue (by decide)
  rw [hdemote, hboost]
  exact ⟨hlevel, hwaited⟩

/-- Slot 0 is dispatched and yields. -/
theorem Duel.yields {n : Nat} (h : Duel n s) : ∃ s', Run (StaysRunnable 1) s yieldSlice s' ∧
    s'.lock = none ∧ ((s'.cpu 0).loop = .top ∧ (s'.cpu 0).policy = 1 ∧
      (s'.cpu 0).iterations = (s.cpu 0).iterations + 1) ∧
    ∀ j, s'.proc j = (update s.proc 0 { s.proc 0 with
      state := .runnable, place := .sched .yield, row := (s.proc 0).row.charge.slice.demote } j).age 1
        (some 0 == some j) := by
  have hone := (h.both 1 (by decide)).1
  have h1 : step (.schedule 0) s = .ok (dispatch 0 0 1 s) := by
    simp [step, schedule, h.top, h.lock, h.policy, h.choose_eq]
  have h2 : step (.act 0 .resume) (dispatch 0 0 1 s) =
      .ok { (dispatch 0 0 1 s).goto 0 .run with lock := none } := by
    simp [step, act, dispatch, State.setCpu, State.setProc, h.place, Place.cont, resume]
  obtain ⟨s2, hs2⟩ : ∃ s2, s2 = { (dispatch 0 0 1 s).goto 0 .run with lock := none } := ⟨_, rfl⟩
  rw [← hs2] at h2
  have hcpu2 : s2.cpu 0 = { s.cpu 0 with
      proc := some 0, loop := .ran 1 0, ranPid := (s.proc 0).pid, ranLevel := (s.proc 0).row.priority } := by
    rw [hs2]
    simp [State.goto, State.setProc, dispatch, State.setCpu]
  have hproc2 : s2.proc = update s.proc 0 { s.proc 0 with state := .running, place := .run } := by
    simp [hs2, State.goto, State.setProc, dispatch, State.setCpu]
  have h3 : step (.act 0 .yield) s2 = .ok (yield 0 0 s2) := by
    have hlock : s2.lock = none := by rw [hs2]
    simp [step, act, actRun, hcpu2, hproc2, hlock]
  obtain ⟨s3, hs3⟩ : ∃ s3, s3 = yield 0 0 s2 := ⟨_, rfl⟩
  rw [← hs3] at h3
  have hcpu3 : s3.cpu 0 = { s2.cpu 0 with loop := .back 1 0 } := by
    rw [hs3, yield, sched_cpu]
    simp [State.setProc, hcpu2]
  have hproc3 : s3.proc = update s.proc 0
      { s.proc 0 with state := .runnable, place := .sched .yield, row := (s.proc 0).row.charge } := by
    simp [hs3, yield, sched, State.setCpu, State.setProc, hproc2]
  have h4 : step (.goOn 0) s3 = .ok (endIteration 0 1 (some 0)
      ((s3.setCpu 0 { s3.cpu 0 with proc := none }).setProc 0
        { s3.proc 0 with row := (s3.proc 0).row.slice.demote })) := by
    show goOn 0 s3 = _
    unfold goOn
    rw [hcpu3]
    rfl
  obtain ⟨s4, hs4⟩ : ∃ s4, s4 = endIteration 0 1 (some 0)
      ((s3.setCpu 0 { s3.cpu 0 with proc := none }).setProc 0
        { s3.proc 0 with row := (s3.proc 0).row.slice.demote }) := ⟨_, rfl⟩
  rw [← hs4] at h4
  have hproc4 : ∀ j, s4.proc j = (update s.proc 0 { s.proc 0 with
      state := .runnable, place := .sched .yield, row := (s.proc 0).row.charge.slice.demote } j).age 1
        (some 0 == some j) := by
    intro j
    simp [hs4, endIteration, State.setCpu, State.setProc, hproc3]
  have hstay : ∀ x, (update s.proc 0 x 1).state = .runnable := by
    intro x
    rw [update_of_ne (by decide)]
    exact hone
  have hstay1 : ((dispatch 0 0 1 s).proc 1).state = .runnable := by
    simp [dispatch, State.setCpu, State.setProc, hone]
  have hrun1 : StaysRunnable 1 s (.schedule 0) (dispatch 0 0 1 s) :=
    ⟨⟨h1, rfl, trivial⟩, hone, hstay1⟩
  have hrun2 : StaysRunnable 1 (dispatch 0 0 1 s) (.act 0 .resume) s2 :=
    ⟨⟨h2, rfl, trivial⟩, hstay1, by rw [hproc2]; exact hstay _⟩
  have hrun3 : StaysRunnable 1 s2 (.act 0 .yield) s3 :=
    ⟨⟨h3, rfl, trivial⟩, by rw [hproc2]; exact hstay _, by rw [hproc3]; exact hstay _⟩
  have hrun4 : StaysRunnable 1 s3 (.goOn 0) s4 :=
    ⟨⟨h4, rfl, trivial⟩, by rw [hproc3]; exact hstay _, by simp [hproc4, Task.age, hone]⟩
  refine ⟨s4, (((Run.single hrun1).snoc hrun2).snoc hrun3).snoc hrun4, by rw [hs4]; rfl, ?_, hproc4⟩
  simp [hs4, endIteration, State.setCpu, State.setProc, hcpu3, hcpu2, h.policy]

/-- Slot 0 runs for a slice, and slot 1 has waited for one more iteration. -/
theorem Duel.slice {n : Nat} (h : Duel n s) : ∃ s', Run (StaysRunnable 1) s yieldSlice s' ∧
    (s'.cpu 0).iterations = (s.cpu 0).iterations + 1 ∧ (n + 1 < 500 → Duel (n + 1) s') := by
  obtain ⟨hone, hlevel⟩ := h.both 1 (by decide)
  obtain ⟨s4, hrun, hlock4, hcpu4, hproc4⟩ := h.yields
  have hone4 : s4.proc 1 = { s.proc 1 with row := (s.proc 1).row.age 1 false } := by
    rw [hproc4]
    simp [Task.age, hone]
  have hzero4 : s4.proc 0 = { s.proc 0 with
      state := .runnable, place := .sched .yield
      row := (s.proc 0).row.charge.slice.demote.age 1 true } := by
    rw [hproc4]
    simp [Task.age]
  refine ⟨s4, hrun, hcpu4.2.2, fun hn => ?_⟩
  have hzero := age_yielded (h.both 0 (by decide)).2 h.waited.1
  rcases age_waited (r := (s.proc 1).row) (.inl rfl) (by omega) (by rw [h.waited.2]; omega)
      (by rw [h.waited.2]; omega) with ⟨hdue, -⟩ | ⟨-, hsame, hcount⟩
  · rw [hlevel, h.waited.2] at hdue
    exact absurd (show (500 : Int) ≤ n + 1 from hdue) (by omega)
  · refine ⟨hrun.invariant h.single fun _ _ _ hs hstep => hs.step hstep.1, hcpu4.1, hlock4,
      hcpu4.2.1, by rw [hzero4], ?_, ?_, ?_, ?_⟩
    · intro j hj
      obtain rfl | rfl : j = 0 ∨ j = 1 := by omega
      · rw [hzero4]
        exact ⟨rfl, hzero.1⟩
      · rw [hone4]
        exact ⟨hone, hsame.trans hlevel⟩
    · intro j hj
      by_cases hj0 : j = 0
      · omega
      · rw [hproc4, update_of_ne hj0] at hj
        apply h.others j
        unfold Task.age at hj
        split_ifs at hj with hrun
        · exact hrun
        · exact hj
    · rw [hzero4]
      exact hzero.2
    · rw [hone4]
      show ((s.proc 1).row.age 1 false).waited = _
      rw [hcount, h.waited.2]
      rfl

/-- Slot 0 runs for up to 500 slices. -/
theorem Duel.run (h : Duel 0 s) {m : Nat} (hm : m ≤ 500) : ∃ ls s', Run (StaysRunnable 1) s ls s' ∧
    (s'.cpu 0).iterations = (s.cpu 0).iterations + m ∧ (m < 500 → Duel m s') := by
  induction m with
  | zero => exact ⟨[], s, .nil, rfl, fun _ => h⟩
  | succ m ih =>
    obtain ⟨ls, s1, hrun, hcount, hduel⟩ := ih (by omega)
    obtain ⟨s2, hslice, hcount', hnext⟩ := (hduel hm).slice
    exact ⟨_, s2, hrun.append hslice, by omega, hnext⟩

/-- Init forks, and both processes come down to level 0. -/
def comeDown : List Label := forkYield ++ (List.replicate 57 yieldSlice).flatten

/-- At level 0 init runs for 500 slices, and then its child has risen. -/
theorem boosted_of_waiting_duel :
    ∃ s0 ls s, Run (OneCpu fun _ => True) (start fun _ => 1) comeDown s0 ∧
      (s0.proc 1).row.priority = 0 ∧ Run (StaysRunnable 1) (s0.withWaitTicks fun _ _ => 0) ls s ∧
      (s.cpu 0).iterations = (s0.cpu 0).iterations + 500 ∧ 0 < (s.proc 1).row.priority := by
  have heval : Run.passes step comeDown (start fun _ => 1)
      (fun s : State => decide ((s.cpu 0).loop = .top ∧ s.lock = none ∧ (s.cpu 0).policy = 1 ∧
        (s.proc 0).place = .sched .yield ∧
        (∀ j : Nat, j < 2 → (s.proc j).state = .runnable ∧ (s.proc j).row.priority = 0) ∧
        ∀ j : Nat, j < NPROC → (s.proc j).state = .runnable → j < 2)) = true := by
    decide +kernel
  obtain ⟨s0, hrun, heval⟩ := Run.exists_of_passes heval
  obtain ⟨htop, hlock, hpolicy, hplace, hboth, hothers⟩ := of_decide_eq_true heval
  have hlabels : ∀ l ∈ forkYield ++ yieldSlice, l.cpu0 ∧ l.sets (fun _ => True) := by
    simp [forkYield, yieldSlice, Label.cpu0, Label.sets]
  have h0 : Run (OneCpu fun _ => True) (start fun _ => 1) comeDown s0 := by
    refine hrun.mono_of_mem fun _ l hl _ hs => ⟨hs, hlabels l ?_⟩
    simp only [comeDown, List.mem_append, List.mem_flatten, List.mem_replicate] at hl ⊢
    rcases hl with hl | ⟨_, ⟨-, rfl⟩, hl⟩
    · exact .inl hl
    · exact .inr hl
  have hsingle : Single (fun _ => True) s0 :=
    h0.invariant (Single.start trivial) fun _ _ _ => Single.step
  have hduel : Duel 0 (s0.withWaitTicks fun _ _ => 0) := by
    refine ⟨⟨hsingle.rows.withWaitTicks _, hsingle.others, .inl hpolicy, fun p k hloop => ?_⟩, htop, hlock,
      hpolicy, hplace, hboth, fun j hj => ?_, rfl, rfl⟩
    · have hloop : (s0.cpu 0).loop = .ran p k ∨ (s0.cpu 0).loop = .back p k := hloop
      rw [htop] at hloop
      rcases hloop with hloop | hloop <;> cases hloop
    · exact hothers j (hsingle.rows.searchable.lt j hj) hj
  obtain ⟨ls, s, hwait, hcount, -⟩ := hduel.run (Nat.le_refl 500)
  have hcount : (s.cpu 0).iterations = (s0.cpu 0).iterations + 500 := hcount
  have hlevel := (hboth 1 (by decide)).2
  have hrise := (boosted_of_waiting h0 htop (.inl hpolicy) (fun _ _ => by decide) hwait).1
    (.inl ⟨hlevel, by omega⟩)
  rw [hlevel] at hrise
  exact ⟨s0, ls, s, h0, hlevel, hwait, hcount, hrise⟩

end Sched
end Xv6
