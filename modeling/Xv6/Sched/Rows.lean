import Xv6.Sched.Cycle

/-!
# Ticks and levels

What a step can do to the row of a slot in `proc_priority`, `proc_ticks` and
`proc_wait_ticks` (`Did.rowDid`): allocation makes it fresh, `yield` and `exit` add a tick,
the end of a slice adds another and may demote, and the end of an iteration lets the others
wait and may boost them.  Everything about levels and ticks follows from this list.
-/

namespace Xv6
namespace Sched

open Proc Lib Function

variable {s s' : State} {c i j p n : Nat} {l : Label} {ls : List Label} {policy : Nat → Int}

/-- The scheduler of a CPU ends a slice of slot `i` under the multi-level feedback queue. -/
def EndsSlice (s : State) (l : Label) (i : Nat) : Prop :=
  ∃ c policy, l = .goOn c ∧ (s.cpu c).loop = .back policy i ∧ policy ≠ 0

/-- The scheduler of CPU `c` ends an iteration of the multi-level feedback queue in which slot
`i` was not chosen. -/
def EndsIteration (s : State) (l : Label) (c : Nat) (policy : Int) (i : Nat) : Prop :=
  policy ≠ 0 ∧
    (l = .schedule c ∧ (s.cpu c).loop = .top ∧ s.lock = none ∧ policy = (s.cpu c).policy ∨
      ∃ j, l = .goOn c ∧ (s.cpu c).loop = .back policy j ∧ j ≠ i)

/-- What a step can do to the row of slot `i`. -/
inductive RowDid (s : State) (l : Label) (s' : State) (i : Nat) : Prop
  | same : (s'.proc i).row = (s.proc i).row →
      ((s.proc i).state = .runnable → ∀ c, (s'.cpu c).iterations = (s.cpu c).iterations) →
      ¬ EndsSlice s l i → RowDid s l s' i
  | fresh {c : Nat} : l = .act c .fork → (s.proc i).state = .unused →
      (s'.proc i).state = .embryo → (s'.proc i).row = Row.fresh → RowDid s l s' i
  | charge {c : Nat} : (s.cpu c).loop.slot = some i → l = .act c .yield ∨ l = .act c .exit →
      (s.proc i).state = .running → (s'.proc i).row = (s.proc i).row.charge → RowDid s l s' i
  | age {c : Nat} {policy : Int} : EndsIteration s l c policy i → (s.proc i).state = .runnable →
      (s'.proc i).row = (s.proc i).row.age policy false →
      (s'.cpu c).iterations = (s.cpu c).iterations + 1 → RowDid s l s' i
  | slice : EndsSlice s l i → (s.proc i).state ≠ .runnable →
      (s'.proc i).row = (s.proc i).row.slice.demote → RowDid s l s' i
  | sliceAge (policy : Int) : EndsSlice s l i → (s.proc i).state = .runnable →
      (s'.proc i).row = (s.proc i).row.slice.demote.age policy true → RowDid s l s' i

/-- Steps other than `goOn` end no slice. -/
theorem not_endsSlice (h : ∀ c, l ≠ .goOn c) : ¬ EndsSlice s l i := by
  rintro ⟨c, policy, rfl, _⟩
  exact h c rfl

/-- One slot changes, and its row stays as it is. -/
theorem row_setProc (s : State) (i j : Nat) {t : Task} (h : t.row = (s.proc j).row) :
    ((s.setProc j t).proc i).row = (s.proc i).row := by
  rw [State.proc_setProc_apply]
  split
  · next hij =>
    subst hij
    exact h
  · rfl

theorem row_wake (t : Task) (chan : Chan) : (t.wake chan).row = t.row := by
  rcases wake_eq t chan with h | ⟨_, h⟩
  · rw [h]
  · rw [h]

theorem row_abandon (p i : Nat) (s : State) : ((abandon p s).proc i).row = (s.proc i).row := by
  obtain ⟨st, heq, _⟩ := abandon_proc p i s
  rw [heq]

/-- `sched` leaves the iterations alone. -/
theorem iterations_sched (c d : Nat) (s : State) :
    ((sched c s).cpu d).iterations = (s.cpu d).iterations := by
  show ((s.setCpu c _).cpu d).iterations = _
  by_cases hd : d = c
  · subst hd
    rw [State.cpu_setCpu]
  · rw [State.cpu_setCpu_of_ne _ _ hd]

theorem Runs.slot (h : Runs s c p) : (s.cpu c).loop.slot = some p := by
  obtain ⟨policy, hloop⟩ := h.ran
  rw [hloop]
  rfl

variable {s0 : State}

theorem Waits.row {a : Act} (h : Waits s c p a s0) (i : Nat) :
    (s0.proc i).row = (s.proc i).row := by
  cases h with
  | call => rfl
  | again => exact row_setProc s i p rfl

/-- Round robin ends no slice of the multi-level feedback queue. -/
theorem Turn.not_endsSlice (h : Turn s c l s0) : ¬ EndsSlice s l i := by
  rintro ⟨d, policy, hl, hloop, hpol⟩
  cases h with
  | top => cases hl
  | back j hback =>
    cases hl
    cases hback.symm.trans hloop
    exact hpol rfl

theorem Turn.iterations (h : Turn s c l s0) (d : Nat) :
    (s0.cpu d).iterations = (s.cpu d).iterations ∧ s0.proc = s.proc := by
  cases h with
  | top => exact ⟨rfl, rfl⟩
  | back j hback =>
    refine ⟨?_, rfl⟩
    by_cases hd : d = c
    · subst hd
      rw [State.cpu_setCpu]
    · rw [State.cpu_setCpu_of_ne _ _ hd]

/-- The CPU that changes keeps its count of iterations. -/
theorem iterations_setCpu (s : State) (c d : Nat) {u : Cpu}
    (h : u.iterations = (s.cpu c).iterations) :
    ((s.setCpu c u).cpu d).iterations = (s.cpu d).iterations := by
  by_cases hd : d = c
  · subst hd
    rw [State.cpu_setCpu]
    exact h
  · rw [State.cpu_setCpu_of_ne _ _ hd]

/-- The end of an iteration, for a slot that was not chosen. -/
theorem rowDid_endIteration {policy : Int} {chosen : Option Nat}
    (hend : EndsIteration s l c policy i) (hrow : (s0.proc i).row = (s.proc i).row)
    (hstate : (s0.proc i).state = (s.proc i).state)
    (hcount : (s0.cpu c).iterations = (s.cpu c).iterations) (hchosen : chosen ≠ some i)
    (hslice : ¬ EndsSlice s l i) : RowDid s l (endIteration c policy chosen s0) i := by
  have hproc : (endIteration c policy chosen s0).proc i = (s0.proc i).age policy false := by
    show (s0.proc i).age policy (chosen == some i) = _
    rw [beq_false_of_ne hchosen]
  by_cases hrun : (s.proc i).state = .runnable
  · refine .age hend hrun ?_ ?_
    · rw [hproc, Task.age, if_pos (hstate.trans hrun)]
      exact congrArg (Row.age policy false) hrow
    · show (update s0.cpu c _ c).iterations = _
      rw [update_self]
      exact congrArg (· + 1) hcount
  · refine .same ?_ (fun h => absurd h hrun) hslice
    rw [hproc, Task.age, if_neg fun h => hrun (hstate.symm.trans h)]
    exact hrow

/-- The slot that `allocproc` has found. -/
theorem state_fill (p n : Nat) (s : State) : ((fill p n s).proc n).state = .embryo := by
  show ((State.setJob (s.setProc n _) p _).proc n).state = _
  unfold State.setJob
  rw [State.proc_setProc_apply]
  split
  · next hnp =>
    subst hnp
    rw [State.proc_setProc]
  · rw [State.proc_setProc]

theorem Did.rowDid (h : Did s l s') (hc : Handoff.Coherent s.abs) (i : Nat) : RowDid s l s' i := by
  -- most steps leave the rows and the iterations alone and end no slice
  have hsame : ∀ {s' : State}, (∀ c, l ≠ .goOn c) → (s'.proc i).row = (s.proc i).row →
      (∀ c, (s'.cpu c).iterations = (s.cpu c).iterations) → RowDid s l s' i :=
    fun hl hrow hit => .same hrow (fun _ => hit) (not_endsSlice hl)
  cases h with
  | idle hl =>
    refine hsame (fun c hgo => ?_) rfl fun _ => rfl
    rcases hl with ⟨_, hl⟩ | ⟨_, hl⟩
    · cases hl.symm.trans hgo
    · cases hl.symm.trans hgo
  | @fork c p n hruns hjob hlock hn hfree =>
    have hrow : ((Sched.fill p n s).proc i).row = ((s.setProc n
        { s.proc n with state := .embryo, pid := s.nextpid % 2 ^ 32, row := Row.fresh }).proc
          i).row := row_setProc _ i p rfl
    by_cases hin : i = n
    · subst hin
      rw [State.proc_setProc] at hrow
      exact .fresh rfl hfree (state_fill p i s) hrow
    · rw [State.proc_setProc_of_ne _ _ hin] at hrow
      exact hsame nofun hrow fun _ => rfl
  | @forkFail c p n hruns hjob =>
    refine hsame nofun ?_ fun _ => rfl
    refine (row_setProc _ i p ?_).trans (row_setProc s i n ?_)
    · rfl
    · rfl
  | @forkParent c p n hruns hjob =>
    refine hsame nofun ?_ fun _ => rfl
    refine (row_setProc _ i p ?_).trans (row_setProc s i n ?_)
    · rfl
    · rfl
  | @forkDone c p n hruns hjob hlock =>
    refine hsame nofun ?_ fun _ => rfl
    refine (row_setProc _ i p ?_).trans (row_setProc s i n ?_)
    · rfl
    · rfl
  | @exit c p hruns hjob hlock hne =>
    by_cases hip : i = p
    · subst hip
      refine .charge hruns.slot (.inr rfl) (running_of_runs hc hruns) ?_
      show (((abandon i s).setProc i _).proc i).row = _
      rw [State.proc_setProc]
      exact congrArg Row.charge (row_abandon i i s)
    · refine hsame nofun ?_ fun d => ?_
      · show (((abandon p s).setProc p _).proc i).row = _
        rw [State.proc_setProc_of_ne _ _ hip]
        exact row_abandon p i s
      · rw [iterations_sched]
        show ((abandon p s).cpu d).iterations = _
        rw [abandon_eq]
  | @reap c p j a s0 hw hj hpar hz =>
    refine hsame nofun ?_ fun d => ?_
    · refine (row_setProc _ i p ?_).trans ((row_setProc s0 i j ?_).trans (hw.row i))
      · rfl
      · rfl
    · show (s0.cpu d).iterations = _
      rw [hw.rest.1]
  | @noChild c p a s0 hw hno =>
    refine hsame nofun ?_ fun d => ?_
    · refine (row_setProc s0 i p ?_).trans (hw.row i)
      rfl
    · show (s0.cpu d).iterations = _
      rw [hw.rest.1]
  | @waitSleep c p a s0 hw hno =>
    refine hsame nofun ?_ fun d => ?_
    · refine (row_setProc s0 i p ?_).trans (hw.row i)
      rfl
    · refine (iterations_sched _ _ _).trans ?_
      show (s0.cpu d).iterations = _
      rw [hw.rest.1]
  | @sleep c p n hruns hjob hlock =>
    exact hsame nofun (row_setProc s i p rfl) fun d => iterations_sched _ _ _
  | @yield c p hruns hlock =>
    by_cases hip : i = p
    · subst hip
      refine .charge hruns.slot (.inl rfl) (running_of_runs hc hruns) ?_
      show ((s.setProc i _).proc i).row = _
      rw [State.proc_setProc]
    · refine hsame nofun ?_ fun d => iterations_sched _ _ _
      show ((s.setProc p _).proc i).row = _
      rw [State.proc_setProc_of_ne _ _ hip]
  | @resume c p k hran hplace hk =>
    cases k with
    | forkret => exact hsame nofun (row_setProc s i p rfl) fun _ => rfl
    | yield => exact hsame nofun (row_setProc s i p rfl) fun _ => rfl
    | sleep => exact hsame nofun (row_setProc s i p rfl) fun _ => rfl
    | wait => exact absurd rfl hk
  | @fault c p hruns => exact hsame nofun (row_setProc s i p rfl) fun _ => rfl
  | @setPolicy c p policy hruns =>
    exact hsame nofun rfl fun d => iterations_setCpu s c d rfl
  | @dispatch c j l policy s0 hturn hi hrun =>
    have hproc := (hturn.iterations 0).2
    refine .same ?_ (fun _ d => ?_) hturn.not_endsSlice
    · rw [← hproc]
      exact row_setProc s0 i j rfl
    · rw [← (hturn.iterations d).1]
      exact iterations_setCpu _ c d rfl
  | @roundEnd c l s0 hturn =>
    refine .same ?_ (fun _ d => ?_) hturn.not_endsSlice
    · show (s0.proc i).row = _
      rw [(hturn.iterations 0).2]
    · rw [← (hturn.iterations d).1]
      exact iterations_setCpu s0 c d rfl
  | @iterate c hloop hlock hpol =>
    refine rowDid_endIteration ⟨hpol, .inl ⟨rfl, hloop, hlock, rfl⟩⟩ rfl rfl rfl nofun ?_
    exact not_endsSlice nofun
  | @sliceEnd c j policy hloop hpol =>
    by_cases hij : i = j
    · -- the slot whose slice ends
      subst hij
      have hends : EndsSlice s (.goOn c) i := ⟨c, policy, rfl, hloop, hpol⟩
      have hproc : ∀ s0 : State, (endIteration c policy (some i) s0).proc i =
          (s0.proc i).age policy true := by
        intro s0
        show (s0.proc i).age policy (some i == some i) = _
        rw [beq_self_eq_true]
      by_cases hrun : (s.proc i).state = .runnable
      · refine .sliceAge policy hends hrun ?_
        rw [hproc, State.proc_setProc, Task.age, if_pos hrun]
      · refine .slice hends hrun ?_
        rw [hproc, State.proc_setProc, Task.age, if_neg hrun]
    · have hproc : ((s.setCpu c { s.cpu c with proc := none }).setProc j
          { s.proc j with row := (s.proc j).row.slice.demote }).proc i = s.proc i :=
        State.proc_setProc_of_ne _ _ hij
      refine rowDid_endIteration ⟨hpol, .inr ⟨j, rfl, hloop, Ne.symm hij⟩⟩ ?_ ?_ ?_ ?_ ?_
      · rw [hproc]
      · rw [hproc]
      · exact iterations_setCpu s c c rfl
      · rintro ⟨⟩
        exact hij rfl
      · rintro ⟨d, pol, hl, hloop', _⟩
        cases hl
        cases hloop.symm.trans hloop'
        exact hij rfl
  | @wakeup n hlock => exact hsame nofun (row_wake _ _) fun _ => rfl
  | @kill j pid hlock hj hpid => exact hsame nofun (row_setProc s i j rfl) fun _ => rfl

/-! ## The law of the rows -/

/-- `x++` on a counter that has gone round. -/
theorem incr_bmod (x : Int) : incr (x.bmod (2 ^ 32)) = (x + 1).bmod (2 ^ 32) :=
  Int.bmod_add_bmod ..

/-- The law of a row: the level is one of the four, and the ticks are the slices and the calls
of `yield` and `exit` together. -/
structure Row.Ok (r : Row) : Prop where
  nonneg : 0 ≤ r.priority
  le : r.priority ≤ 3
  ticks : ∀ q, r.ticks q = ((r.slices q + r.charged q : Nat) : Int).bmod (2 ^ 32)
  stay : r.ticks r.priority = (r.entered + r.stay + r.stayCharged).bmod (2 ^ 32)

namespace Row

variable {r : Row}

theorem ok_fresh : Ok fresh := by
  constructor
  · decide
  · decide
  · intro q
    simp [fresh]
  · simp [fresh]

/-- A slot that has never been used. -/
theorem ok_free : Ok { fresh with priority := 0 } := by
  constructor
  · decide
  · decide
  · intro q
    simp [fresh]
  · simp [fresh]

/-- The tick at the level of the row. -/
theorem ticks_tick (r : Row) (q : Int) :
    r.tick.ticks q = if q = r.priority then incr (r.ticks q) else r.ticks q := by
  show update r.ticks r.priority _ q = _
  rw [update_apply]
  split
  · next h => rw [h]
  · rfl

theorem Ok.charge (h : Ok r) : Ok r.charge := by
  constructor
  · exact h.nonneg
  · exact h.le
  · intro q
    show r.tick.ticks q = ((r.slices q + update r.charged r.priority _ q : Nat) : Int).bmod _
    rw [ticks_tick, update_apply]
    split
    · next hq =>
      rw [h.ticks q, incr_bmod, hq]
      push_cast
      rw [add_assoc]
    · exact h.ticks q
  · show r.tick.ticks r.priority = (r.entered + r.stay + (r.stayCharged + 1 : Nat)).bmod _
    rw [ticks_tick, if_pos rfl, h.stay, incr_bmod]
    push_cast
    rw [add_assoc _ (r.stayCharged : Int)]

theorem Ok.slice (h : Ok r) : Ok r.slice := by
  constructor
  · exact h.nonneg
  · exact h.le
  · intro q
    show r.tick.ticks q = ((update r.slices r.priority _ q + r.charged q : Nat) : Int).bmod _
    rw [ticks_tick, update_apply]
    split
    · next hq =>
      rw [h.ticks q, incr_bmod, hq]
      push_cast
      rw [add_right_comm]
    · exact h.ticks q
  · show r.tick.ticks r.priority = (r.entered + (r.stay + 1 : Nat) + r.stayCharged).bmod _
    rw [ticks_tick, if_pos rfl, h.stay, incr_bmod]
    push_cast
    rw [add_right_comm, add_assoc r.entered]

theorem Ok.move (h : Ok r) {q : Int} (hq : 0 ≤ q) (hq' : q ≤ 3) : Ok (r.move q) := by
  constructor
  · exact hq
  · exact hq'
  · exact h.ticks
  · show r.ticks q = (r.ticks q + (0 : Nat) + (0 : Nat)).bmod _
    rw [h.ticks q]
    simp

theorem Ok.demote (h : Ok r) : Ok r.demote := by
  unfold Row.demote
  split
  · next hd => exact h.move (by omega) (by have := h.le; omega)
  · exact h

theorem Ok.waitTick (h : Ok r) : Ok r.waitTick := ⟨h.nonneg, h.le, h.ticks, h.stay⟩

theorem Ok.boost (h : Ok r) : Ok r.boost := by
  unfold Row.boost
  split
  · next hb => exact h.move (by have := h.nonneg; omega) (by omega)
  · exact h

theorem Ok.age (h : Ok r) (policy : Int) (chosen : Bool) : Ok (r.age policy chosen) := by
  have hwait : Ok (if chosen then r else r.waitTick) := by
    split
    · exact h
    · exact h.waitTick
  unfold Row.age
  dsimp only
  split
  · exact hwait.boost
  · exact hwait

end Row

/-- Every row keeps the law. -/
def Rows (s : State) : Prop := ∀ i, (s.proc i).row.Ok

theorem Rows.start (policy : Nat → Int) : Rows (start policy) := by
  intro i
  by_cases hi : i = 0
  · subst hi
    exact Row.ok_fresh
  · have hfree : (Sched.start policy).proc i = Task.free := if_neg hi
    rw [hfree]
    exact Row.ok_free

theorem Rows.step (h : Rows s) (hc : Handoff.Coherent s.abs) (hd : Did s l s') : Rows s' := by
  intro i
  cases hd.rowDid hc i with
  | same hrow _ _ => exact hrow ▸ h i
  | fresh _ _ _ hrow => exact hrow ▸ Row.ok_fresh
  | charge _ _ _ hrow => exact hrow ▸ (h i).charge
  | age _ _ hrow _ => exact hrow ▸ (h i).age _ _
  | slice _ _ hrow => exact hrow ▸ (h i).slice.demote
  | sliceAge _ _ _ hrow => exact hrow ▸ (h i).slice.demote.age _ _

/-! ## The process that ran -/

/-- What a step can do to CPU `c`: its scheduler stays with the process it has switched to,
switches to one, or gets back to the top of its loop. -/
inductive CpuDid (s : State) (l : Label) (s' : State) (c : Nat) : Prop
  | same : (s'.cpu c).loop = (s.cpu c).loop ∨
        (∃ policy i, (s.cpu c).loop = .ran policy i ∧ (s'.cpu c).loop = .back policy i) →
      (s'.cpu c).ranPid = (s.cpu c).ranPid → (s'.cpu c).ranLevel = (s.cpu c).ranLevel →
      (s'.cpu c).policy = (s.cpu c).policy ∨
        (∃ policy, l = .act c (.setSchedPolicy policy) ∧ (s'.cpu c).policy = policy) →
      l ≠ .goOn c → CpuDid s l s' c
  | dispatched {i : Nat} {policy : Int} : (s'.cpu c).loop = .ran policy i →
      Picks s c l i policy → (s.proc i).state = .runnable →
      (s'.cpu c).ranPid = (s.proc i).pid → (s'.cpu c).ranLevel = (s.proc i).row.priority →
      (s'.proc i).pid = (s.proc i).pid → (s'.proc i).row = (s.proc i).row →
      (s'.cpu c).policy = (s.cpu c).policy → CpuDid s l s' c
  | top : (s'.cpu c).loop = .top → (s'.cpu c).policy = (s.cpu c).policy → CpuDid s l s' c

/-- Nothing happens to the CPU. -/
theorem CpuDid.of_cpu (hl : l ≠ .goOn c) (h : s'.cpu c = s0.cpu c)
    (h0 : s0.cpu = s.cpu) : CpuDid s l s' c := by
  rw [h0] at h
  refine .same (.inl ?_) ?_ ?_ (.inl ?_) hl
  all_goals rw [h]

/-- The process on a CPU calls `sched`. -/
theorem CpuDid.of_sched {d : Nat} (hl : l ≠ .goOn c) (h0 : s0.cpu = s.cpu) :
    CpuDid s l (sched d s0) c := by
  by_cases hcd : c = d
  · subst hcd
    have hcpu := sched_cpu c s0
    rw [h0] at hcpu
    refine .same ?_ ?_ ?_ (.inl ?_) hl
    · rw [hcpu]
      cases (s.cpu c).loop with
      | top => exact .inl rfl
      | ran policy i => exact .inr ⟨policy, i, rfl, rfl⟩
      | back policy i => exact .inl rfl
    all_goals rw [hcpu]
  · refine .of_cpu hl ?_ h0
    exact update_of_ne hcd ..

/-- The CPUs at the turn of one of them. -/
theorem Turn.cpu {d : Nat} (h : Turn s d l s0) :
    (s0.cpu d).policy = (s.cpu d).policy ∧ ∀ c, c ≠ d → l ≠ .goOn c ∧ s0.cpu c = s.cpu c := by
  cases h with
  | top => exact ⟨rfl, fun c _ => ⟨nofun, rfl⟩⟩
  | back j hback =>
    refine ⟨?_, fun c hcd => ⟨?_, update_of_ne hcd ..⟩⟩
    · rw [State.cpu_setCpu]
    · rintro ⟨⟩
      exact hcd rfl

theorem Did.cpuDid (h : Did s l s') (c : Nat) : CpuDid s l s' c := by
  cases h with
  | idle hl =>
    refine .of_cpu ?_ rfl rfl
    rintro rfl
    rcases hl with ⟨_, hl⟩ | ⟨_, hl⟩ <;> cases hl
  | exit =>
    refine .of_sched nofun ?_
    show (abandon _ s).cpu = s.cpu
    rw [abandon_eq]
  | reap hw _ _ _ => exact .of_cpu nofun rfl hw.rest.1
  | noChild hw _ => exact .of_cpu nofun rfl hw.rest.1
  | waitSleep hw _ => exact .of_sched nofun hw.rest.1
  | sleep => exact .of_sched nofun rfl
  | yield => exact .of_sched nofun rfl
  | @resume d p k hran hplace hk =>
    cases k with
    | forkret => exact .of_cpu nofun rfl rfl
    | yield => exact .of_cpu nofun rfl rfl
    | sleep => exact .of_cpu nofun rfl rfl
    | wait => exact absurd rfl hk
  | @setPolicy d p policy hruns =>
    by_cases hcd : c = d
    · subst hcd
      refine .same (.inl ?_) ?_ ?_ (.inr ⟨policy, rfl, ?_⟩) nofun
      all_goals rw [State.cpu_setCpu]
    · exact .of_cpu nofun (State.cpu_setCpu_of_ne _ _ hcd) rfl
  | @dispatch d i l policy s0 hturn hi hrun hpick =>
    have hproc := (hturn.iterations 0).2
    obtain ⟨hpolicy, hother⟩ := hturn.cpu
    by_cases hcd : c = d
    · subst hcd
      have hcpu : (Sched.dispatch c i policy s0).cpu c =
          { s0.cpu c with
            proc := some i, loop := .ran policy i
            ranPid := (s0.proc i).pid, ranLevel := (s0.proc i).row.priority } :=
        update_self ..
      have hi' : (Sched.dispatch c i policy s0).proc i =
          { s0.proc i with state := .running, place := .back (s0.proc i).place.cont } :=
        update_self ..
      rw [hproc] at hcpu hi'
      refine .dispatched (i := i) ?_ hpick hrun ?_ ?_ ?_ ?_ ?_
      · rw [hcpu]
      · rw [hcpu]
      · rw [hcpu]
      · rw [hi']
      · rw [hi']
      · rw [hcpu]
        exact hpolicy
    · obtain ⟨hl, heq⟩ := hother c hcd
      have hcpu : (Sched.dispatch d i policy s0).cpu c = s0.cpu c := update_of_ne hcd ..
      rw [heq] at hcpu
      exact .of_cpu hl hcpu rfl
  | @roundEnd d l s0 hturn =>
    obtain ⟨hpolicy, hother⟩ := hturn.cpu
    by_cases hcd : c = d
    · subst hcd
      have hcpu : ((s0.setCpu c { s0.cpu c with loop := .top }).cpu c) =
          { s0.cpu c with loop := .top } := State.cpu_setCpu ..
      exact .top (congrArg Cpu.loop hcpu) ((congrArg Cpu.policy hcpu).trans hpolicy)
    · obtain ⟨hl, heq⟩ := hother c hcd
      refine .of_cpu hl ?_ rfl
      exact (State.cpu_setCpu_of_ne s0 _ hcd).trans heq
  | @iterate d hloop hlock hpol =>
    by_cases hcd : c = d
    · subst hcd
      have hcpu : (endIteration c (s.cpu c).policy none s).cpu c =
          { s.cpu c with loop := .top, iterations := (s.cpu c).iterations + 1 } :=
        update_self ..
      refine .top ?_ ?_
      · rw [hcpu]
      · rw [hcpu]
    · exact .of_cpu nofun (update_of_ne hcd ..) rfl
  | @sliceEnd d i policy hloop hpol =>
    by_cases hcd : c = d
    · subst hcd
      have hcpu : ∀ s0 : State, (endIteration c policy (some i) s0).cpu c =
          { s0.cpu c with loop := .top, iterations := (s0.cpu c).iterations + 1 } :=
        fun _ => update_self ..
      refine .top (congrArg Cpu.loop (hcpu _)) ((congrArg Cpu.policy (hcpu _)).trans ?_)
      show ((s.setCpu c _).cpu c).policy = _
      rw [State.cpu_setCpu]
    · refine .of_cpu ?_ ((update_of_ne hcd ..).trans (update_of_ne hcd ..)) rfl
      rintro ⟨⟩
      exact hcd rfl
  | _ => exact .of_cpu nofun rfl rfl

/-- A slot whose process a scheduler has switched to is in use. -/
theorem state_of_slot (hc : Handoff.Coherent s.abs) (h : (s.cpu c).loop.slot = some i) :
    (s.proc i).state ≠ .unused ∧ (s.proc i).state ≠ .embryo := by
  have hphase : (s.proc i).phase ≠ .absent ∧ (s.proc i).phase ≠ .embryo := by
    cases hloop : (s.cpu c).loop with
    | top =>
      rw [hloop] at h
      cases h
    | ran policy j =>
      rw [hloop] at h
      cases h
      have hran : (s.proc i).phase = .running ∨ (s.proc i).phase = .taken :=
        hc.ran c i (congrArg Loop.abs hloop)
      rcases hran with hran | hran <;> rw [hran] <;> exact ⟨nofun, nofun⟩
    | back policy j =>
      rw [hloop] at h
      cases h
      have hback : (s.proc i).phase = .ready ∨ (s.proc i).phase = .asleep ∨
          (s.proc i).phase = .dead := hc.back c i (congrArg Loop.abs hloop)
      rcases hback with hback | hback | hback <;> rw [hback] <;> exact ⟨nofun, nofun⟩
  constructor
  · intro hst
    exact hphase.1 (by simp [Task.phase, hst])
  · intro hst
    exact hphase.2 (by simp [Task.phase, hst])

/-- A slot that is in use before and after a step keeps its pid. -/
theorem pid_of_kin (h : s'.kin = s.kin ∨ Kin.Step NPROC s.kin s'.kin)
    (hi : (s.proc i).state ≠ .unused) (hi' : (s'.proc i).state ≠ .unused) :
    (s'.proc i).pid = (s.proc i).pid := by
  have hcls : s.kin.cls i ≠ .unused := fun hu => hi (cls_eq_unused.mp hu)
  have hcls' : s'.kin.cls i ≠ .unused := fun hu => hi' (cls_eq_unused.mp hu)
  show s'.kin.pid i = s.kin.pid i
  rcases h with heq | hstep
  · rw [heq]
  · generalize s'.kin = k' at hstep hcls'
    cases hstep with
    | fill p n hp hjob hlt hn =>
      refine update_of_ne ?_ ..
      rintro rfl
      exact hcls hn
    | reap p j hj hpar =>
      refine update_of_ne ?_ ..
      rintro rfl
      exact hcls' (update_self ..)
    | _ => rfl

section

variable (hc : Handoff.Coherent s.abs)

include hc

/-- The scheduler of another CPU ends no slice of the process of this CPU. -/
theorem not_endsSlice_of_slot (h : (s.cpu c).loop.slot = some i) (hl : l ≠ .goOn c) :
    ¬ EndsSlice s l i := by
  rintro ⟨d, policy, rfl, hloop, _⟩
  have hback : s.abs.loop d = .back i := congrArg Loop.abs hloop
  have hslot : s.abs.loop c = .ran i ∨ s.abs.loop c = .back i := by
    show (s.cpu c).loop.abs = _ ∨ (s.cpu c).loop.abs = _
    cases hc' : (s.cpu c).loop <;> simp_all [Loop.slot, Loop.abs]
  cases hc.one c d i hslot (.inr hback)
  exact hl rfl

/-- A RUNNABLE process that its scheduler has not dealt with yet does not wait meanwhile. -/
theorem not_endsIteration_of_slot {d : Nat} {policy : Int} (h : (s.cpu c).loop.slot = some i)
    (hrun : (s.proc i).state = .runnable) : ¬ EndsIteration s l d policy i := by
  have hready : s.abs.phase i = .ready := by
    show (s.proc i).phase = _
    simp [Task.phase, hrun]
  -- the scheduler is back from the process and has the lock
  have hback : s.abs.loop c = .back i := by
    cases hloop : (s.cpu c).loop with
    | top =>
      rw [hloop] at h
      cases h
    | ran policy j =>
      rw [hloop] at h
      cases h
      have hran := hc.ran c i (congrArg Loop.abs hloop)
      rw [hready] at hran
      rcases hran with hran | hran <;> cases hran
    | back policy j =>
      rw [hloop] at h
      cases h
      exact congrArg Loop.abs hloop
  have hlock : s.lock = some c := hc.backLock c i hback
  rintro ⟨_, ⟨_, _, hfree, _⟩ | ⟨j, _, hloop, hj⟩⟩
  · cases hfree.symm.trans hlock
  · have hd : s.abs.loop d = .back j := congrArg Loop.abs hloop
    have hlock' : s.lock = some d := hc.backLock d j hd
    cases hlock.symm.trans hlock'
    cases hback.symm.trans hd
    exact hj rfl

end

/-- The slot whose process a scheduler has switched to is still held by that process, at the
level it had then. -/
def Ran (s : State) : Prop :=
  ∀ c i, (s.cpu c).loop.slot = some i →
    (s.cpu c).ranPid = (s.proc i).pid ∧ (s.cpu c).ranLevel = (s.proc i).row.priority

/-- The slot that the scheduler stays with. -/
theorem slot_of_same (h : (s'.cpu c).loop = (s.cpu c).loop ∨
    ∃ policy i, (s.cpu c).loop = .ran policy i ∧ (s'.cpu c).loop = .back policy i) :
    (s'.cpu c).loop.slot = (s.cpu c).loop.slot := by
  rcases h with h | ⟨policy, i, h, h'⟩
  · rw [h]
  · rw [h, h']
    rfl

theorem Ran.step (h : Ran s) (hinv : Inv s) (hinv' : Inv s') (hd : Did s l s') : Ran s' := by
  intro c i hslot'
  cases hd.cpuDid c with
  | dispatched hloop hpick hrun hpid hlevel hpid' hrow _ =>
    rw [hloop] at hslot'
    cases hslot'
    rw [hpid, hlevel, hpid', hrow]
    exact ⟨rfl, rfl⟩
  | top htop _ =>
    rw [htop] at hslot'
    cases hslot'
  | same hloop hpid hlevel _ hl =>
    have hslot := slot_of_same hloop
    rw [hslot] at hslot'
    have huse := state_of_slot hinv.coherent hslot'
    have huse' := state_of_slot hinv'.coherent (hslot.trans hslot')
    obtain ⟨hranPid, hranLevel⟩ := h c i hslot'
    refine ⟨?_, ?_⟩
    · rw [hpid, hranPid]
      exact (pid_of_kin (hd.kin hinv.coherent) huse.1 huse'.1).symm
    · rw [hlevel, hranLevel]
      cases hd.rowDid hinv.coherent i with
      | same hrow _ _ => rw [hrow]
      | fresh _ hfree _ _ => exact absurd hfree huse.1
      | charge _ _ _ hrow =>
        rw [hrow]
        rfl
      | age hend hrun _ _ => exact absurd hend (not_endsIteration_of_slot hinv.coherent hslot' hrun)
      | slice hend _ _ => exact absurd hend (not_endsSlice_of_slot hinv.coherent hslot' hl)
      | sliceAge _ hend _ _ => exact absurd hend (not_endsSlice_of_slot hinv.coherent hslot' hl)

end Sched
end Xv6
