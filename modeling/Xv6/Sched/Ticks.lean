import Xv6.Sched.Rows

/-!
# What the ticks of a process count

The scheduler adds a tick for the slice that has ended, but `yield` and `exit` have already
added one for the same slice.  So `proc_ticks` is the number of slices exactly as long as
slices end in `sleep` or `wait` (`accounts_iff`), and a level is left too early as soon as the
ticks of calls of `yield`, or of an earlier stay at the level, make up for slices that are
missing (`keepsAllotment_iff`).
-/

namespace Xv6
namespace Sched

open Proc Lib

variable {s s' : State} {c i j p n : Nat} {l : Label} {ls : List Label} {policy : Nat → Int}

/-- `struct pstat` -/
structure Pstat where
  inuse : Nat → Bool
  pid : Nat → Nat
  priority : Nat → Int
  state : Nat → ProcState
  ticks : Nat → Int → Int
  waitTicks : Nat → Int → Int

/-- `sys_getpinfo` -/
def getpinfo (s : State) : Pstat where
  inuse := fun i => (s.proc i).state != .unused
  pid := fun i => (s.proc i).pid
  priority := fun i => (s.proc i).row.priority
  state := fun i => (s.proc i).state
  ticks := fun i q => (s.proc i).row.ticks q
  waitTicks := fun i q => (s.proc i).row.waitTicks q

/-! ## Ticks and slices -/

/-- The step allocates slot `i`. -/
def Allocates (s s' : State) (i : Nat) : Prop :=
  (s.proc i).state = .unused ∧ (s'.proc i).state = .embryo

/-- A slice ends in which the process in slot `i` was dispatched at level `q`. -/
def EndsSliceAt (s : State) (l : Label) (i : Nat) (q : Int) : Prop :=
  ∃ c policy, l = .goOn c ∧ (s.cpu c).loop = .back policy i ∧ policy ≠ 0 ∧ (s.cpu c).ranLevel = q

/-- The ticks that `getpinfo` reports change as the slices say: one more for the slice that
ends, none after allocation, and otherwise as before. -/
def Accounts (s : State) (l : Label) (s' : State) : Prop :=
  ∀ i q, (Allocates s s' i → (getpinfo s').ticks i q = 0) ∧
    (¬ Allocates s s' i → EndsSliceAt s l i q →
      (getpinfo s').ticks i q = incr ((getpinfo s).ticks i q)) ∧
    (¬ Allocates s s' i → ¬ EndsSliceAt s l i q → (getpinfo s').ticks i q = (getpinfo s).ticks i q)

/-- The slice ends in a call that adds a tick of its own. -/
def Label.charges : Label → Bool
  | .act _ .yield => true
  | .act _ .exit => true
  | _ => false

theorem incr_ne {x : Int} (h : x.bmod (2 ^ 32) = x) : incr x ≠ x := by
  intro heq
  unfold incr at heq
  have h1 : (x + 1).bmod (2 ^ 32) = x.bmod (2 ^ 32) := heq.trans h.symm
  rw [Int.bmod_eq_bmod_iff_bmod_sub_eq_zero] at h1
  have h2 : x + 1 - x = 1 := by omega
  rw [h2] at h1
  exact absurd h1 (by decide)

/-- A slice ends at the level at which it began. -/
theorem endsSliceAt_iff (hran : Ran s) {q : Int} :
    EndsSliceAt s l i q ↔ EndsSlice s l i ∧ q = (s.proc i).row.priority := by
  constructor
  · rintro ⟨c, policy, hl, hloop, hpol, hlevel⟩
    have hran' := hran c i (by rw [hloop]; rfl)
    exact ⟨⟨c, policy, hl, hloop, hpol⟩, by rw [← hlevel, hran'.2]⟩
  · rintro ⟨⟨c, policy, hl, hloop, hpol⟩, hq⟩
    have hran' := hran c i (by rw [hloop]; rfl)
    exact ⟨c, policy, hl, hloop, hpol, by rw [hran'.2, hq]⟩

/-- Moving to another level leaves what has been counted. -/
theorem counts_demote (r : Row) :
    r.demote.ticks = r.ticks ∧ r.demote.charged = r.charged := by
  unfold Row.demote
  split
  · exact ⟨rfl, rfl⟩
  · exact ⟨rfl, rfl⟩

theorem counts_age (r : Row) (policy : Int) (chosen : Bool) :
    (r.age policy chosen).ticks = r.ticks ∧ (r.age policy chosen).charged = r.charged := by
  have hboost : ∀ r : Row, r.boost.ticks = r.ticks ∧ r.boost.charged = r.charged := by
    intro r
    unfold Row.boost
    split
    · exact ⟨rfl, rfl⟩
    · exact ⟨rfl, rfl⟩
  have hall : ∀ r' : Row, r'.ticks = r.ticks ∧ r'.charged = r.charged →
      (if policy ≠ 3 then r'.boost else r').ticks = r.ticks ∧
      (if policy ≠ 3 then r'.boost else r').charged = r.charged := by
    intro r' h
    split
    · rw [(hboost r').1, (hboost r').2]
      exact h
    · exact h
  cases chosen with
  | true => exact hall r ⟨rfl, rfl⟩
  | false => exact hall r.waitTick ⟨rfl, rfl⟩

/-- Allocation makes the row fresh. -/
theorem row_of_allocates (h : Did s l s') (hc : Handoff.Coherent s.abs) (ha : Allocates s s' i) :
    (s'.proc i).row = Row.fresh := by
  obtain ⟨hfree, hembryo⟩ := ha
  have hcls : s.kin.cls i = .unused := cls_eq_unused.mpr hfree
  have hcls' : s'.kin.cls i = .embryo := by
    show cls _ = _
    rw [hembryo]
    rfl
  -- only `fork` gives out a pid
  have hnext : s'.nextpid = s.nextpid + 1 := by
    rcases h.kin hc with heq | hstep
    · rw [heq, hcls] at hcls'
      cases hcls'
    · show s'.kin.next = s.kin.next + 1
      generalize s'.kin = k' at hstep hcls'
      cases hstep with
      | fill => rfl
      | _ => grind
  have hfork : ∃ c, l = .act c .fork := by
    have hle := h.nextpid
    have hpos : 0 < forks [l] := by omega
    obtain ⟨l', hmem, hl'⟩ := List.countP_pos_iff.mp hpos
    cases List.mem_singleton.mp hmem
    split at hl'
    · next c => exact ⟨c, rfl⟩
    · cases hl'
  obtain ⟨c, rfl⟩ := hfork
  cases h with
  | idle => cases hfree.symm.trans hembryo
  | @fork _ p n hruns hjob hlock hn hunused =>
    have hrow : ((fill p n s).proc i).row = ((s.setProc n
        { s.proc n with state := .embryo, pid := s.nextpid % 2 ^ 32, row := Row.fresh }).proc
          i).row := row_setProc _ i p rfl
    have hin : i = n := by
      by_contra hin
      have hstate : ((fill p n s).proc i).state = (s.proc i).state := by
        show ((State.setJob (s.setProc n _) p _).proc i).state = _
        unfold State.setJob
        rw [State.proc_setProc_apply]
        split
        · next hip =>
          subst hip
          rw [State.proc_setProc_of_ne _ _ hin]
        · rw [State.proc_setProc_of_ne _ _ hin]
      rw [hstate, hfree] at hembryo
      cases hembryo
    subst hin
    rw [hrow, State.proc_setProc]
  | reap hw => cases hw
  | noChild hw => cases hw
  | waitSleep hw => cases hw
  | dispatch hturn => cases hturn
  | roundEnd hturn => cases hturn

/-- A slice that ends is not an iteration in which the slot waits. -/
theorem not_endsSlice_of_endsIteration {policy : Int} (h : EndsIteration s l c policy i) :
    ¬ EndsSlice s l i := by
  rintro ⟨d, pol, hl, hloop, _⟩
  obtain ⟨_, ⟨hl', _⟩ | ⟨j, hl', hloop', hj⟩⟩ := h
  · cases hl.symm.trans hl'
  · cases hl.symm.trans hl'
    cases hloop.symm.trans hloop'
    exact hj rfl

/-- The ticks after a slice. -/
theorem ticks_slice (r : Row) (q : Int) :
    r.slice.demote.ticks q = if q = r.priority then incr (r.ticks q) else r.ticks q := by
  rw [(counts_demote _).1]
  exact Row.ticks_tick r q

theorem accounts_of_did (hd : Did s l s') (hinv : Inv s) (hran : Ran s) (hl : l.charges = false) :
    Accounts s l s' := by
  intro i q
  have hends := endsSliceAt_iff (l := l) (i := i) (q := q) hran
  refine ⟨fun ha => ?_, fun hna hat => ?_, fun hna hnot => ?_⟩
  · show (s'.proc i).row.ticks q = 0
    rw [row_of_allocates hd hinv.coherent ha]
    rfl
  · obtain ⟨hslice, hq⟩ := hends.mp hat
    show (s'.proc i).row.ticks q = incr ((s.proc i).row.ticks q)
    cases hd.rowDid hinv.coherent i with
    | same _ _ hno => exact absurd hslice hno
    | fresh _ hfree hembryo _ => exact absurd ⟨hfree, hembryo⟩ hna
    | charge _ hcall _ _ =>
      rcases hcall with rfl | rfl <;> cases hl
    | age hend _ _ _ => exact absurd hslice (not_endsSlice_of_endsIteration hend)
    | slice _ _ hrow => rw [hrow, ticks_slice, if_pos hq]
    | sliceAge _ _ _ hrow => rw [hrow, (counts_age _ _ _).1, ticks_slice, if_pos hq]
  · show (s'.proc i).row.ticks q = (s.proc i).row.ticks q
    cases hd.rowDid hinv.coherent i with
    | same hrow _ _ => rw [hrow]
    | fresh _ hfree hembryo _ => exact absurd ⟨hfree, hembryo⟩ hna
    | charge _ hcall _ _ =>
      rcases hcall with rfl | rfl <;> cases hl
    | age _ _ hrow _ => rw [hrow, (counts_age _ _ _).1]
    | slice hslice _ hrow =>
      rw [hrow, ticks_slice, if_neg fun hq => hnot (hends.mpr ⟨hslice, hq⟩)]
    | sliceAge _ hslice _ hrow =>
      rw [hrow, (counts_age _ _ _).1, ticks_slice, if_neg fun hq => hnot (hends.mpr ⟨hslice, hq⟩)]

/-- `yield` and `exit` charge the process that calls them. -/
theorem exists_charged (hd : Did s l s') (hinv : Inv s) (hl : l.charges = true) :
    ∃ i, (s.proc i).state = .running ∧ (s'.proc i).row = (s.proc i).row.charge := by
  cases hd with
  | @exit c p hruns hjob hlock hne =>
    refine ⟨p, running_of_runs hinv.coherent hruns, ?_⟩
    show (((abandon p s).setProc p _).proc p).row = _
    rw [State.proc_setProc]
    exact congrArg Row.charge (row_abandon p p s)
  | @yield c p hruns hlock =>
    refine ⟨p, running_of_runs hinv.coherent hruns, ?_⟩
    show ((s.setProc p _).proc p).row = _
    rw [State.proc_setProc]
  | idle hidle =>
    rcases hidle with ⟨_, rfl⟩ | ⟨_, rfl⟩ <;> cases hl
  | reap hw => cases hw <;> cases hl
  | noChild hw => cases hw <;> cases hl
  | waitSleep hw => cases hw <;> cases hl
  | dispatch hturn => cases hturn <;> cases hl
  | roundEnd hturn => cases hturn <;> cases hl
  | _ => cases hl

theorem not_accounts_of_did (hd : Did s l s') (hinv : Inv s) (hrows : Rows s)
    (hl : l.charges = true) : ¬ Accounts s l s' := by
  intro hacc
  obtain ⟨i, hrun, hrow⟩ := exists_charged hd hinv hl
  have hna : ¬ Allocates s s' i := by
    rintro ⟨hfree, _⟩
    cases hrun.symm.trans hfree
  have hnot : ¬ EndsSliceAt s l i (s.proc i).row.priority := by
    rintro ⟨c, policy, rfl, _⟩
    cases hl
  have heq : (s'.proc i).row.ticks (s.proc i).row.priority =
      (s.proc i).row.ticks (s.proc i).row.priority := (hacc i _).2.2 hna hnot
  rw [hrow] at heq
  have hincr := (Row.ticks_tick (s.proc i).row (s.proc i).row.priority).symm.trans heq
  rw [if_pos rfl] at hincr
  refine incr_ne ?_ hincr
  rw [(hrows i).ticks, Int.bmod_bmod]

/-! ## Whole runs -/

/-- What every run keeps, and the rows with it. -/
structure RowInv (s : State) : Prop where
  inv : Inv s
  rows : Rows s
  ran : Ran s

theorem RowInv.start (policy : Nat → Int) : RowInv (start policy) :=
  ⟨Inv.start policy, Rows.start policy, nofun⟩

theorem RowInv.step (h : RowInv s) (hs : Steps s l s') : RowInv s' :=
  ⟨h.inv.step hs, h.rows.step h.inv.coherent (step_did hs),
    h.ran.step h.inv (h.inv.step hs) (step_did hs)⟩

theorem RowInv.run (h : Run Steps (Sched.start policy) ls s) : RowInv s :=
  h.invariant (RowInv.start policy) fun _ _ _ => RowInv.step

/-- Without calls of `yield` and `exit` nothing is charged to them. -/
theorem charged_eq_zero (h : Run (fun s l s' => Steps s l s' ∧ l.charges = false) (start policy) ls s)
    (i : Nat) (q : Int) : (s.proc i).row.charged q = 0 := by
  induction h with
  | nil =>
    by_cases hi : i = 0
    · subst hi
      rfl
    · have hfree : (start policy).proc i = Task.free := if_neg hi
      rw [hfree]
      rfl
  | @snoc ls l s s' h hs ih =>
    have hinv := RowInv.run (h.mono fun _ _ _ hs => hs.1)
    cases (step_did hs.1).rowDid hinv.inv.coherent i with
    | same hrow _ _ => rw [hrow, ih]
    | fresh _ _ _ hrow =>
      rw [hrow]
      rfl
    | charge _ hcall _ _ =>
      have hl := hs.2
      rcases hcall with rfl | rfl <;> cases hl
    | age _ _ hrow _ => rw [hrow, (counts_age _ _ _).2, ih]
    | slice _ _ hrow =>
      rw [hrow, (counts_demote _).2]
      exact ih
    | sliceAge _ _ _ hrow =>
      rw [hrow, (counts_age _ _ _).2, (counts_demote _).2]
      exact ih

/-- In every run, the ticks that `getpinfo` reports go up by one for each slice, and are the
number of slices, exactly if no slice ends in `yield` or `exit`. -/
theorem accounts_iff (h : Run Steps (start policy) ls s) :
    (Run (fun s l s' => Steps s l s' ∧ Accounts s l s') (start policy) ls s ∧
      ∀ i q, (getpinfo s).ticks i q = ((s.proc i).row.slices q : Int).bmod (2 ^ 32)) ↔
    ∀ l ∈ ls, l.charges = false := by
  constructor
  · rintro ⟨hacc, _⟩
    -- each step that accounts for its slice is no call of `yield` or `exit`
    have hquiet : Run (fun s l s' => Steps s l s' ∧ l.charges = false) (start policy) ls s := by
      refine hacc.mono_of_invariant (RowInv.start policy) (fun _ _ _ hi hs => hi.step hs.1) ?_
      intro s l s' hi hs
      refine ⟨hs.1, ?_⟩
      by_contra hl
      rw [Bool.not_eq_false] at hl
      exact not_accounts_of_did (step_did hs.1) hi.inv hi.rows hl hs.2
    exact hquiet.forall_label fun _ _ _ hs => hs.2
  · intro hl
    have hquiet : Run (fun s l s' => Steps s l s' ∧ l.charges = false) (start policy) ls s :=
      h.mono_of_mem fun _ l hmem _ hs => ⟨hs, hl l hmem⟩
    refine ⟨?_, fun i q => ?_⟩
    · refine hquiet.mono_of_invariant (RowInv.start policy) (fun _ _ _ hi hs => hi.step hs.1) ?_
      intro s l s' hi hs
      exact ⟨hs.1, accounts_of_did (step_did hs.1) hi.inv hi.ran hs.2⟩
    · show (s.proc i).row.ticks q = _
      rw [((RowInv.run h).rows i).ticks q, charged_eq_zero hquiet i q, Nat.add_zero]

/-- A slice that ends in `sleep` is counted once. -/
theorem accounts_of_sleep :
    ∃ s, Run Steps (start fun _ => 1)
        [.schedule 0, .act 0 .resume, .act 0 (.sleep 5), .goOn 0] s ∧
      Run (fun s l s' => Steps s l s' ∧ Accounts s l s') (start fun _ => 1)
        [.schedule 0, .act 0 .resume, .act 0 (.sleep 5), .goOn 0] s ∧
      (s.proc 0).row.slices 3 = 1 := by
  have heval : Run.passes step [.schedule 0, .act 0 .resume, .act 0 (.sleep 5), .goOn 0]
      (start fun _ => 1) (fun s => (s.proc 0).row.slices 3 == 1) = true := by decide +kernel
  obtain ⟨s, hrun, hs⟩ := Run.exists_of_passes heval
  refine ⟨s, hrun, ((accounts_iff hrun).mpr ?_).1, by simpa using hs⟩
  simp [Label.charges]

/-- A slice of one process, which ends in `yield`. -/
def yieldSlice : List Label := [.schedule 0, .act 0 .resume, .act 0 .yield, .goOn 0]

/-- A slice that ends in `yield` is counted twice. -/
theorem yield_countedTwice :
    ∃ s, Run Steps (start fun _ => 1) yieldSlice s ∧
      (getpinfo s).ticks 0 3 = 2 ∧ (s.proc 0).row.slices 3 = 1 := by
  have heval : Run.passes step yieldSlice (start fun _ => 1)
      (fun s => (s.proc 0).row.ticks 3 == 2 && (s.proc 0).row.slices 3 == 1) = true := by
    decide +kernel
  obtain ⟨s, hrun, hs⟩ := Run.exists_of_passes heval
  rw [Bool.and_eq_true, beq_iff_eq, beq_iff_eq] at hs
  exact ⟨s, hrun, hs⟩

/-! ## Allotments -/

/-- What the counter of the level will be at the end of a slice: the ticks the process had
there when it came, the slices since then with this one, and the calls of `yield` and `exit`
since then. -/
def Row.due (r : Row) : Int := (r.entered + (r.stay + 1) + r.stayCharged).bmod (2 ^ 32)

theorem ticks_slice_self {r : Row} (h : r.Ok) : r.slice.ticks r.priority = r.due := by
  have hslice := h.slice.stay
  unfold Row.due
  rw [show r.slice.ticks r.priority = r.slice.ticks r.slice.priority from rfl, hslice]
  show (r.entered + (r.stay + 1 : Nat) + r.stayCharged).bmod _ = _
  push_cast
  rfl

/-- The end of a slice demotes by one level, or leaves the level. -/
theorem priority_slice {r : Row} (h : r.Ok) :
    r.slice.demote =
      if allotment r.priority ≤ r.due ∧ 0 < r.priority then r.slice.move (r.priority - 1)
      else r.slice := by
  unfold Row.demote
  rw [show r.slice.ticks r.slice.priority = r.due from ticks_slice_self h]
  rfl

theorem required_pos (q : Int) : 0 < required q ∨ q < 0 ∨ 3 < q := by
  unfold required allotment
  grind

/-- A process that has just been demoted is not boosted. -/
theorem boost_move {r : Row} {q : Int} (h : 0 ≤ q) (h' : q ≤ 3) : (r.move q).boost = r.move q := by
  unfold Row.boost
  rw [if_neg]
  rintro ⟨_, hwait⟩
  have hpos := required_pos q
  have hzero : (0 : Int) ≥ required q := hwait
  omega

theorem priority_le_boost (r : Row) : r.priority ≤ r.boost.priority := by
  unfold Row.boost
  split
  · show r.priority ≤ r.priority + 1
    omega
  · exact le_refl _

/-- Waiting does not lower the level. -/
theorem priority_le_age (r : Row) (policy : Int) (chosen : Bool) :
    r.priority ≤ (r.age policy chosen).priority := by
  have hall : ∀ r' : Row, r'.priority = r.priority →
      r.priority ≤ (if policy ≠ 3 then r'.boost else r').priority := by
    intro r' h
    rw [← h]
    split
    · exact priority_le_boost r'
    · exact le_refl _
  cases chosen with
  | true => exact hall r rfl
  | false => exact hall r.waitTick rfl

/-- A level above 0 is left downwards only when the allotment is used up, one level at a time,
and then it is left. -/
structure KeepsAllotment (s : State) (l : Label) (s' : State) (i : Nat) : Prop where
  only : (s'.proc i).row.priority < (s.proc i).row.priority →
    (s'.proc i).row.priority = (s.proc i).row.priority - 1 ∧ EndsSlice s l i ∧
      allotment (s.proc i).row.priority ≤ (s.proc i).row.stay + 1
  due : EndsSlice s l i → 0 < (s.proc i).row.priority →
    allotment (s.proc i).row.priority ≤ (s.proc i).row.stay + 1 →
    (s'.proc i).row.priority = (s.proc i).row.priority - 1

/-- At the end of a slice at a level above 0, the ticks from before the process came to the
level and the calls of `yield` and `exit` since then make no difference to whether the
allotment is reached. -/
def Earned (s : State) (l : Label) (i : Nat) : Prop :=
  EndsSlice s l i → 0 < (s.proc i).row.priority →
    (allotment (s.proc i).row.priority ≤ (s.proc i).row.due ↔
      allotment (s.proc i).row.priority ≤ (s.proc i).row.stay + 1)

/-- The level after a slice. -/
theorem priority_endsSlice (hd : Did s l s') (hinv : RowInv s) (hends : EndsSlice s l i)
    (hpos : 0 < (s.proc i).row.priority) :
    (allotment (s.proc i).row.priority ≤ (s.proc i).row.due →
      (s'.proc i).row.priority = (s.proc i).row.priority - 1) ∧
    (¬ allotment (s.proc i).row.priority ≤ (s.proc i).row.due →
      (s.proc i).row.priority ≤ (s'.proc i).row.priority) := by
  have hok := hinv.rows i
  have hle := hok.le
  have hslice := priority_slice hok
  cases hd.rowDid hinv.inv.coherent i with
  | same _ _ hno => exact absurd hends hno
  | fresh hl _ _ _ =>
    obtain ⟨c, policy, hl', _⟩ := hends
    cases hl.symm.trans hl'
  | charge _ hcall _ _ =>
    obtain ⟨c, policy, rfl, _⟩ := hends
    rcases hcall with h | h <;> cases h
  | age hend _ _ _ => exact absurd hends (not_endsSlice_of_endsIteration hend)
  | slice _ _ hrow =>
    rw [hrow, hslice]
    constructor
    · intro hdue
      rw [if_pos ⟨hdue, hpos⟩]
      rfl
    · intro hdue
      rw [if_neg fun h => hdue h.1]
      exact le_refl _
  | sliceAge policy _ _ hrow =>
    rw [hrow, hslice]
    constructor
    · intro hdue
      rw [if_pos ⟨hdue, hpos⟩]
      -- the time waited has been forgotten, so there is no boost
      show (if policy ≠ 3 then (Row.move _ _).boost else Row.move _ _).priority = _
      rw [boost_move (by omega) (by omega), ite_self]
      rfl
    · intro hdue
      rw [if_neg fun h => hdue h.1]
      exact priority_le_age (s.proc i).row.slice policy true

theorem keepsAllotment_iff_earned (hd : Did s l s') (hinv : RowInv s) :
    KeepsAllotment s l s' i ↔ Earned s l i := by
  constructor
  · intro hkeeps hends hpos
    obtain ⟨hdown, hstay⟩ := priority_endsSlice hd hinv hends hpos
    constructor
    · intro hdue
      have hlevel := hdown hdue
      exact (hkeeps.only (by omega)).2.2
    · intro hused
      by_contra hdue
      have hlevel := hkeeps.due hends hpos hused
      have := hstay hdue
      omega
  · intro hearned
    constructor
    · intro hlt
      have hends : EndsSlice s l i := by
        by_contra hno
        cases hd.rowDid hinv.inv.coherent i with
        | same hrow _ _ =>
          rw [hrow] at hlt
          exact lt_irrefl _ hlt
        | fresh _ _ _ hrow =>
          have hle := (hinv.rows i).le
          rw [hrow] at hlt
          exact absurd hlt (not_lt.mpr hle)
        | charge _ _ _ hrow =>
          rw [hrow] at hlt
          exact lt_irrefl _ hlt
        | age _ _ hrow _ =>
          rw [hrow] at hlt
          exact absurd hlt (not_lt.mpr (priority_le_age _ _ _))
        | slice hends _ _ => exact hno hends
        | sliceAge _ hends _ _ => exact hno hends
      have hpos : 0 < (s.proc i).row.priority := by
        have hok' := (hinv.rows.step hinv.inv.coherent hd i).nonneg
        omega
      obtain ⟨hdown, hstay⟩ := priority_endsSlice hd hinv hends hpos
      by_cases hdue : allotment (s.proc i).row.priority ≤ (s.proc i).row.due
      · exact ⟨hdown hdue, hends, (hearned hends hpos).mp hdue⟩
      · exact absurd hlt (not_lt.mpr (hstay hdue))
    · intro hends hpos hused
      exact (priority_endsSlice hd hinv hends hpos).1 ((hearned hends hpos).mpr hused)

/-- A run keeps the allotments of all levels exactly if no slice ends at which ticks from
before the process came to the level, or calls of `yield` and `exit`, make a difference. -/
theorem keepsAllotment_iff (policy : Nat → Int) (ls : List Label) (s : State) :
    Run (fun s l s' => Steps s l s' ∧ ∀ i, KeepsAllotment s l s' i) (start policy) ls s ↔
      Run (fun s l s' => Steps s l s' ∧ ∀ i, Earned s l i) (start policy) ls s := by
  constructor
  · intro h
    refine h.mono_of_invariant (RowInv.start policy) (fun _ _ _ hi hs => hi.step hs.1) ?_
    intro s l s' hi hs
    exact ⟨hs.1, fun i => (keepsAllotment_iff_earned (step_did hs.1) hi).mp (hs.2 i)⟩
  · intro h
    refine h.mono_of_invariant (RowInv.start policy) (fun _ _ _ hi hs => hi.step hs.1) ?_
    intro s l s' hi hs
    exact ⟨hs.1, fun i => (keepsAllotment_iff_earned (step_did hs.1) hi).mpr (hs.2 i)⟩

/-- A slice that ends at a level above 0 ends where the process came without ticks, and has called
neither `yield` nor `exit` since. -/
def Plain (s : State) (l : Label) (i : Nat) : Prop :=
  EndsSlice s l i → 0 < (s.proc i).row.priority →
    (s.proc i).row.entered = 0 ∧ (s.proc i).row.stayCharged = 0

/-- The allotment is not used up. -/
def Row.Within (r : Row) : Prop := 0 < r.priority → r.stay < allotment r.priority

theorem Row.Within.move {r : Row} {q : Int} (hq : q ≤ 3) : (r.move q).Within := by
  intro hpos
  show (0 : Int) < allotment q
  have hpos : 0 < q := hpos
  unfold allotment
  split_ifs <;> omega

theorem Row.Within.boost {r : Row} (h : r.Within) : r.boost.Within := by
  unfold Row.boost
  split_ifs
  · exact .move (by omega)
  · exact h

theorem Row.Within.age {r : Row} (h : r.Within) (policy : Int) (chosen : Bool) :
    (r.age policy chosen).Within := by
  have hwait : (if chosen then r else r.waitTick).Within := by
    split_ifs <;> exact h
  unfold Row.age
  dsimp only
  split
  · exact hwait.boost
  · exact hwait

/-- In a stay without such ticks and calls, the counter of the level counts the slices. -/
theorem due_of_plain {r : Row} (h : r.Within) (hpos : 0 < r.priority)
    (hplain : r.entered = 0 ∧ r.stayCharged = 0) : r.due = r.stay + 1 := by
  have hlt := h hpos
  have hle : allotment r.priority ≤ 32 := by
    unfold allotment
    split_ifs <;> omega
  unfold Row.due
  rw [hplain.1, hplain.2]
  exact (Int.bmod_eq_of_le (by omega) (by omega)).trans (by omega)

theorem Row.Within.slice {r : Row} (h : r.Within) (hok : r.Ok)
    (hplain : 0 < r.priority → r.entered = 0 ∧ r.stayCharged = 0) : r.slice.demote.Within := by
  have hle := hok.le
  rw [priority_slice hok]
  split_ifs with hdue
  · exact .move (by omega)
  · intro hpos
    have hpos : 0 < r.priority := hpos
    rw [due_of_plain h hpos (hplain hpos)] at hdue
    show ((r.stay + 1 : Nat) : Int) < allotment r.priority
    push_cast
    omega

theorem Did.within (hd : Did s l s') (hinv : RowInv s) (hplain : Plain s l i)
    (h : (s.proc i).row.Within) : (s'.proc i).row.Within := by
  have hok := hinv.rows i
  cases hd.rowDid hinv.inv.coherent i with
  | same hrow _ _ => exact hrow ▸ h
  | fresh _ _ _ hrow =>
    rw [hrow]
    exact fun _ => by decide
  | charge _ _ _ hrow => exact hrow ▸ h
  | age _ _ hrow _ =>
    rw [hrow]
    exact h.age _ _
  | slice hends _ hrow =>
    rw [hrow]
    exact h.slice hok (hplain hends)
  | sliceAge policy hends _ hrow =>
    rw [hrow]
    exact (h.slice hok (hplain hends)).age _ _

/-- A process whose stays at the levels above 0 are like that keeps its allotments. -/
theorem keepsAllotment_of_plain {policy : Nat → Int} {ls : List Label}
    (h : Run (fun s l s' => Steps s l s' ∧ Plain s l i) (start policy) ls s) :
    Run (fun s l s' => Steps s l s' ∧ KeepsAllotment s l s' i) (start policy) ls s := by
  refine h.mono_of_invariant (I := fun s => RowInv s ∧ (s.proc i).row.Within)
    ⟨RowInv.start policy, ?_⟩ ?_ ?_
  · show (if i = 0 then _ else Task.free).row.Within
    split_ifs <;> exact fun hpos => by revert hpos; decide
  · exact fun s l s' hi hs => ⟨hi.1.step hs.1, (step_did hs.1).within hi.1 hs.2 hi.2⟩
  · rintro s l s' ⟨hinv, hwithin⟩ ⟨hstep, hplain⟩
    refine ⟨hstep, (keepsAllotment_iff_earned (step_did hstep) hinv).mpr fun hends hpos => ?_⟩
    rw [due_of_plain hwithin hpos (hplain hends hpos)]

/-- Four slices that end in `yield` use up the allotment of eight. -/
theorem demoted_after_four :
    ∃ s, Run Steps (start fun _ => 1) (yieldSlice ++ yieldSlice ++ yieldSlice ++ yieldSlice) s ∧
      (s.proc 0).row.priority = 2 ∧ (s.proc 0).row.slices 3 = 4 ∧ allotment 3 = 8 := by
  have heval : Run.passes step (yieldSlice ++ yieldSlice ++ yieldSlice ++ yieldSlice)
      (start fun _ => 1)
      (fun s => (s.proc 0).row.priority == 2 && (s.proc 0).row.slices 3 == 4) = true := by
    decide +kernel
  obtain ⟨s, hrun, hs⟩ := Run.exists_of_passes heval
  rw [Bool.and_eq_true, beq_iff_eq, beq_iff_eq] at hs
  exact ⟨s, hrun, hs.1, hs.2, by decide⟩

end Sched
end Xv6
