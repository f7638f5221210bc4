import Xv6.Sched.Ticks

/-!
# The choice of the multi-level feedback queue

`choose` finds a RUNNABLE process of the highest level and, among those, of the lowest slot
(`choose_spec`).  Since the level of a slot is always one of the four, the search finds
a process whenever there is one to find.
-/

namespace Xv6
namespace Sched

open Proc Lib Function

variable {s s' : State} {c i j : Nat} {l : Label} {ls : List Label} {policy : Nat → Int}

/-! ## The search -/

/-- A search finds the lowest slot. -/
theorem State.find_lowest {test : Task → Bool} (h : s.find test = some i) (hj : j < i) :
    test (s.proc j) = false := by
  have hlow := (List.find?_range_eq_some.mp h).2.2 j hj
  simpa using hlow

/-- The test of the search at one level. -/
def atLevel (q : Int) (t : Task) : Bool := t.state == .runnable && t.row.priority == q

theorem atLevel_iff {q : Int} {t : Task} :
    atLevel q t = true ↔ t.state = .runnable ∧ t.row.priority = q := by
  simp [atLevel]

/-- The search from the highest level down. -/
theorem choose_eq (s : State) :
    choose s = ((s.find (atLevel 3)).or ((s.find (atLevel 2)).or
      ((s.find (atLevel 1)).or (s.find (atLevel 0))))) := by
  have hlevel : ∀ q, (s.find fun t => t.state == .runnable && t.row.priority == q) =
      s.find (atLevel q) := fun _ => rfl
  unfold choose
  simp only [hlevel, List.findSome?_cons, List.findSome?_nil]
  cases s.find (atLevel 3) <;> cases s.find (atLevel 2) <;> cases s.find (atLevel 1) <;>
    cases s.find (atLevel 0) <;> rfl

/-- The level at which the search ends. -/
theorem exists_level_of_choose (h : choose s = some i) :
    ∃ q, s.find (atLevel q) = some i ∧ ∀ q', q < q' → q' ≤ 3 → s.find (atLevel q') = none := by
  rw [choose_eq] at h
  cases h3 : s.find (atLevel 3) with
  | some k =>
    rw [h3] at h
    cases h
    exact ⟨3, h3, fun q' _ _ => by omega⟩
  | none =>
    rw [h3, Option.none_or] at h
    cases h2 : s.find (atLevel 2) with
    | some k =>
      rw [h2] at h
      cases h
      refine ⟨2, h2, fun q' hlt hle => ?_⟩
      obtain rfl : q' = 3 := by omega
      exact h3
    | none =>
      rw [h2, Option.none_or] at h
      cases h1 : s.find (atLevel 1) with
      | some k =>
        rw [h1] at h
        cases h
        refine ⟨1, h1, fun q' hlt hle => ?_⟩
        obtain rfl | rfl : q' = 2 ∨ q' = 3 := by omega
        · exact h2
        · exact h3
      | none =>
        rw [h1, Option.none_or] at h
        refine ⟨0, h, fun q' hlt hle => ?_⟩
        obtain rfl | rfl | rfl : q' = 1 ∨ q' = 2 ∨ q' = 3 := by omega
        · exact h1
        · exact h2
        · exact h3

/-- What the search has to find is in the table and at one of the four levels. -/
structure Searchable (s : State) : Prop where
  lt : ∀ i, (s.proc i).state = .runnable → i < NPROC
  level : ∀ i, 0 ≤ (s.proc i).row.priority ∧ (s.proc i).row.priority ≤ 3

/-- The search chooses the highest level and there the lowest slot. -/
theorem choose_spec (hs : Searchable s) (h : choose s = some i) :
    (s.proc i).state = .runnable ∧
      (∀ j, (s.proc j).state = .runnable → (s.proc j).row.priority ≤ (s.proc i).row.priority) ∧
      ∀ j, (s.proc j).state = .runnable → (s.proc j).row.priority = (s.proc i).row.priority →
        i ≤ j := by
  obtain ⟨q, hq, hnone⟩ := exists_level_of_choose h
  obtain ⟨hrun, hlevel⟩ := atLevel_iff.mp (State.find_some hq).2
  refine ⟨hrun, fun j hj => ?_, fun j hj heq => ?_⟩
  · by_contra hlt
    have hno := State.find_none (hnone (s.proc j).row.priority (by omega) (hs.level j).2) (hs.lt j hj)
    rw [atLevel_iff.mpr ⟨hj, rfl⟩] at hno
    cases hno
  · by_contra hlt
    have hno := State.find_lowest hq (not_le.mp hlt)
    rw [atLevel_iff.mpr ⟨hj, heq.trans hlevel⟩] at hno
    cases hno

/-- The search finds a process if there is one. -/
theorem choose_isSome (hs : Searchable s) (hj : (s.proc j).state = .runnable) :
    ∃ i, choose s = some i := by
  by_contra hno
  have hnone : choose s = none := by
    cases h : choose s with
    | none => rfl
    | some i => exact absurd ⟨i, h⟩ hno
  rw [choose_eq, Option.or_eq_none_iff, Option.or_eq_none_iff, Option.or_eq_none_iff] at hnone
  obtain ⟨h3, h2, h1, h0⟩ := hnone
  have hlevel := hs.level j
  have hfind : s.find (atLevel (s.proc j).row.priority) = none := by
    obtain h | h | h | h : (s.proc j).row.priority = 0 ∨ (s.proc j).row.priority = 1 ∨
        (s.proc j).row.priority = 2 ∨ (s.proc j).row.priority = 3 := by omega
    all_goals
      rw [h]
      assumption
  have hmiss := State.find_none hfind (hs.lt j hj)
  rw [atLevel_iff.mpr ⟨hj, rfl⟩] at hmiss
  cases hmiss

theorem RowInv.searchable (h : RowInv s) : Searchable s := by
  refine ⟨fun i hi => ?_, fun i => ⟨(h.rows i).nonneg, (h.rows i).le⟩⟩
  by_contra hge
  have hunused := h.inv.kin.outside i (not_lt.mp hge)
  rw [cls_eq_unused.mp hunused] at hi
  cases hi

/-! ## An iteration -/

/-- The two outcomes of the top of the loop under the multi-level feedback queue. -/
theorem schedule_mlfq (h : Steps s (.schedule c) s') (hpol : (s.cpu c).policy ≠ 0) :
    (s.cpu c).loop = .top ∧ s.lock = none ∧
      ((∃ i, choose s = some i ∧ s' = dispatch c i (s.cpu c).policy s) ∨
        choose s = none ∧ s' = endIteration c (s.cpu c).policy none s) := by
  have h : schedule c s = .ok s' := h
  unfold schedule at h
  dsimp only at h
  split at h
  · next hturn =>
    refine ⟨hturn.1, hturn.2, ?_⟩
    split at h
    · next i hi =>
      cases h
      exact .inl ⟨i, hi, rfl⟩
    · next hnone =>
      cases h
      exact .inr ⟨hnone, rfl⟩
  · cases h

theorem proc_dispatch (c i : Nat) (policy : Int) (s : State) :
    ((dispatch c i policy s).cpu c).proc = some i ∧
      ((dispatch c i policy s).proc i).state = .running := by
  constructor
  · show ((State.setCpu _ c _).cpu c).proc = _
    rw [State.cpu_setCpu]
  · show ((s.setProc i _).proc i).state = _
    rw [State.proc_setProc]

/-- On any number of CPUs with any policies: the level of a slot is one of the four, also in
the middle of an iteration; an iteration of the multi-level feedback queue dispatches a
process if and only if one is RUNNABLE, and then the one with the lowest slot among those of
the highest level; and the slot that is charged after the switch is still held by the process
that ran. -/
theorem mlfq_selection (h : Run Steps (start policy) ls s) :
    (∀ i, (0 ≤ (s.proc i).row.priority ∧ (s.proc i).row.priority ≤ 3) ∧
      0 ≤ (s.proc i).row.slice.demote.priority ∧ (s.proc i).row.slice.demote.priority ≤ 3) ∧
    (∀ c s', Steps s (.schedule c) s' → (s.cpu c).policy ≠ 0 →
      ((∃ i, (s'.cpu c).proc = some i) ↔ ∃ i, (s.proc i).state = .runnable) ∧
      ∀ i, (s'.cpu c).proc = some i → (s.proc i).state = .runnable ∧ (s'.proc i).state = .running ∧
        (∀ j, (s.proc j).state = .runnable → (s.proc j).row.priority ≤ (s.proc i).row.priority) ∧
        ∀ j, (s.proc j).state = .runnable →
          (s.proc j).row.priority = (s.proc i).row.priority → i ≤ j) ∧
    ∀ c policy i, (s.cpu c).loop = .ran policy i ∨ (s.cpu c).loop = .back policy i →
      (s.proc i).state ≠ .unused ∧ (s.proc i).state ≠ .embryo ∧
        (s.proc i).pid = (s.cpu c).ranPid := by
  have hinv := RowInv.run h
  have hsearch := hinv.searchable
  refine ⟨fun i => ?_, fun c s' hs hpol => ?_, fun c pol i hloop => ?_⟩
  · have hslice := (hinv.rows i).slice.demote
    exact ⟨hsearch.level i, hslice.nonneg, hslice.le⟩
  · obtain ⟨htop, hlock, hdisp | hend⟩ := schedule_mlfq hs hpol
    · obtain ⟨i, hchoose, rfl⟩ := hdisp
      obtain ⟨hproc, hrunning⟩ := proc_dispatch c i (s.cpu c).policy s
      have hspec := choose_spec hsearch hchoose
      refine ⟨⟨fun _ => ⟨i, hspec.1⟩, fun _ => ⟨i, hproc⟩⟩, fun k hk => ?_⟩
      cases hproc.symm.trans hk
      exact ⟨hspec.1, hrunning, hspec.2⟩
    · obtain ⟨hnone, rfl⟩ := hend
      -- nothing is found, and `c->proc` stays null
      have hproc : ((endIteration c (s.cpu c).policy none s).cpu c).proc = none := by
        show (update s.cpu c _ c).proc = _
        rw [update_self]
        exact (hinv.inv.onCpu c).trans (congrArg Loop.slot htop)
      refine ⟨⟨?_, ?_⟩, ?_⟩
      · rintro ⟨i, hi⟩
        cases hproc.symm.trans hi
      · rintro ⟨j, hj⟩
        obtain ⟨i, hi⟩ := choose_isSome hsearch hj
        cases hnone.symm.trans hi
      · intro i hi
        cases hproc.symm.trans hi
  · have hslot : (s.cpu c).loop.slot = some i := by
      rcases hloop with hloop | hloop
      · rw [hloop]
        rfl
      · rw [hloop]
        rfl
    obtain ⟨hunused, hembryo⟩ := state_of_slot hinv.inv.coherent hslot
    exact ⟨hunused, hembryo, (hinv.ran c i hslot).1.symm⟩

/-- Init has forked a child and yields: two processes are RUNNABLE at level 3. -/
def forkYield : List Label :=
  [.schedule 0, .act 0 .resume, .act 0 .fork, .act 0 .forkParent, .act 0 .forkDone,
    .act 0 .yield, .goOn 0]

theorem mlfq_selection_forkYield :
    ∃ s s', Run Steps (start fun _ => 1) forkYield s ∧ Steps s (.schedule 0) s' ∧
      (s.proc 1).state = .runnable ∧ ∃ i, (s'.cpu 0).proc = some i := by
  have heval : Run.passes step forkYield (start fun _ => 1)
      (fun s => (s.cpu 0).policy == 1 && (s.proc 1).state == .runnable &&
        (step (.schedule 0) s).toBool) = true := by
    decide +kernel
  obtain ⟨s, hrun, hs⟩ := Run.exists_of_passes heval
  rw [Bool.and_eq_true, Bool.and_eq_true, beq_iff_eq, beq_iff_eq] at hs
  obtain ⟨⟨hpol, hrunnable⟩, hok⟩ := hs
  cases hstep : step (.schedule 0) s with
  | error e =>
    rw [hstep] at hok
    cases hok
  | ok s' =>
    have hsel := (mlfq_selection hrun).2.1 0 s' hstep (by rw [hpol]; decide)
    exact ⟨s, s', hrun, hstep, hrunnable, hsel.1.mpr ⟨1, hrunnable⟩⟩

end Sched
end Xv6
