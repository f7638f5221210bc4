import Xv6.Log.Group
import Xv6.Lib.Tally

/-!
# The space reserved in the log

`begin_op` lets an operation in if `MAXOPBLOCKS` entries are left for each operation that
is running.  If every operation keeps to `MAXOPBLOCKS` distinct blocks (`Limited`), the
entries of the header fit into what has been reserved (`Roomy`), so no store is outside
the array `log.lh.block`.

`log_write`, however, panics one entry before the array is full.  The reservations add
up to `LOGSIZE` entries, and the test of `log_write` admits `LOGSIZE - 1`.
-/

namespace Xv6
namespace Log

open Lib Sync

variable {size : Nat} {s s' : Sys Shared Place Unit} {l : Label Choice}

/-- The steps in which every operation keeps to `MAXOPBLOCKS` distinct blocks. -/
def LimitedSteps (size : Nat) (s : Sys Shared Place Unit) (l : Label Choice)
    (s' : Sys Shared Place Unit) : Prop :=
  Steps (logClient size) s l s' ∧ Limited s l

/-! ## The array is large enough -/

/-- The blocks that the operation at a place has logged. -/
def Place.logged : Place → List Nat
  | .op _ logged | .check _ logged _ | .record _ logged _ | .ending _ logged => logged
  | _ => []

/-- The blocks it has logged once `log_write`, if it is in `log_write`, has returned. -/
def Place.target : Place → List Nat
  | .check _ logged b | .record _ logged b => addLogged b logged
  | l => l.logged

theorem length_addLogged (b : Nat) (logged : List Nat) :
    (addLogged b logged).length = if b ∈ logged then logged.length else logged.length + 1 := by
  unfold addLogged
  split_ifs <;> rfl

/-- The entries that are still set aside for the operation at a place. -/
def Place.due (l : Place) : Nat :=
  if l.running.isSome then MAXOPBLOCKS - l.logged.length else 0

theorem Place.due_le (l : Place) : l.due ≤ MAXOPBLOCKS := by
  unfold due
  split_ifs <;> omega

theorem Place.due_of_not_running {l : Place} (h : l.running = none) : l.due = 0 := by
  simp [due, h]

theorem Place.logged_of_not_running {l : Place} (h : l.running = none) : l.logged = [] := by
  cases l <;> first | rfl | cases h

/-- The entries in use and those set aside fit into the array. -/
structure Roomy (s : Shared) (place : Nat → Place) (A : Finset Nat) : Prop where
  logged : ∀ p, ∀ b ∈ (place p).logged, b ∈ s.lh.blocks
  target : ∀ p, (place p).target.length ≤ MAXOPBLOCKS
  idle : ∀ p, p ∉ A → (place p).due = 0
  room : s.lh.n + ∑ p ∈ A, ((place p).due : Int) ≤ LOGSIZE

namespace Roomy

variable {s s' : Shared} {place : Nat → Place} {A : Finset Nat} {p : Nat} {l : Place}

/-- The sum does not depend on the processes that have nothing set aside. -/
theorem congr (h : Roomy s place A) {B : Finset Nat} (hB : ∀ p, p ∉ B → (place p).due = 0) :
    Roomy s place B := by
  refine ⟨h.logged, h.target, hB, ?_⟩
  have hA : ∑ p ∈ A, ((place p).due : Int) = ∑ p ∈ A ∪ B, ((place p).due : Int) :=
    Finset.sum_subset Finset.subset_union_left fun q _ hq => by rw [h.idle q hq]; rfl
  have hB : ∑ p ∈ B, ((place p).due : Int) = ∑ p ∈ A ∪ B, ((place p).due : Int) :=
    Finset.sum_subset Finset.subset_union_right fun q _ hq => by rw [hB q hq]; rfl
  rw [hB, ← hA]
  exact h.room

/-- A process goes on, and uses entries that were set aside for it. -/
theorem update (h : Roomy s place A) (hblocks : ∀ b ∈ s.lh.blocks, b ∈ s'.lh.blocks)
    (hlogged : ∀ b ∈ l.logged, b ∈ s'.lh.blocks) (htarget : l.target.length ≤ MAXOPBLOCKS)
    (hroom : s'.lh.n + l.due ≤ s.lh.n + (place p).due) :
    Roomy s' (Function.update place p l) (insert p A) := by
  have hwide : Roomy s place (insert p A) :=
    h.congr fun q hq => h.idle q fun hqA => hq (Finset.mem_insert_of_mem hqA)
  constructor
  · intro q b hb
    by_cases hq : q = p
    · subst hq
      exact hlogged b (by simpa using hb)
    · exact hblocks b (h.logged q b (by simpa [hq] using hb))
  · intro q
    by_cases hq : q = p
    · subst hq
      simpa using htarget
    · simpa [hq] using h.target q
  · intro q hq
    have hqp : q ≠ p := fun hqp => hq (by simp [hqp])
    rw [Function.update_of_ne hqp]
    exact hwide.idle q hq
  · have hsum := sum_of_agree (fun q => ((place q).due : Int))
      (fun q => ((Function.update place p l q).due : Int)) (Finset.mem_insert_self p A)
      fun q hq => by rw [Function.update_of_ne hq]
    rw [Function.update_self] at hsum
    have := hwide.room
    omega

/-- A process goes on, and the header is as before. -/
theorem keep (h : Roomy s place A) (hlh : s'.lh = s.lh)
    (hlogged : ∀ b ∈ l.logged, b ∈ (place p).logged) (htarget : l.target.length ≤ MAXOPBLOCKS)
    (hdue : l.due ≤ (place p).due) : Roomy s' (Function.update place p l) (insert p A) := by
  apply h.update
  · exact fun b hb => by rwa [hlh]
  · exact fun b hb => by rw [hlh]; exact h.logged p b (hlogged b hb)
  · exact htarget
  · rw [hlh]
    omega

/-- A process is at a place outside of every operation. -/
theorem idles (h : Roomy s place A) (hlh : s'.lh = s.lh) (hl : l.running = none) :
    Roomy s' (Function.update place p l) (insert p A) := by
  have hlogged := Place.logged_of_not_running hl
  apply h.keep hlh
  · rw [hlogged]
    exact fun b hb => absurd hb List.not_mem_nil
  · cases l <;> first | exact Nat.zero_le _ | cases hl
  · rw [Place.due_of_not_running hl]
    exact Nat.zero_le _

/-- `begin_op` lets an operation in. -/
theorem enter (h : Roomy s place A) {B : Finset Nat} (hB : Grouped s place B)
    (hfull : ¬ s.full = true) (hlh : s'.lh = s.lh) (c : Nat) :
    Roomy s' (Function.update place p (.op c [])) (insert p B) := by
  have hnone : ∀ q, q ∉ B → (place q).due = 0 := by
    intro q hq
    rw [hB.active q] at hq
    exact Place.due_of_not_running (by simpa using hq)
  constructor
  · intro q b hb
    by_cases hq : q = p
    · subst hq
      simp [Place.logged] at hb
    · rw [hlh]
      exact h.logged q b (by simpa [hq] using hb)
  · intro q
    by_cases hq : q = p
    · subst hq
      simp [Place.target, Place.logged]
    · simpa [hq] using h.target q
  · intro q hq
    have hqp : q ≠ p := fun hqp => hq (by simp [hqp])
    rw [Function.update_of_ne hqp]
    exact hnone q fun hqB => hq (Finset.mem_insert_of_mem hqB)
  · have hsum : ∑ q ∈ insert p B, ((Function.update place p (.op c []) q).due : Int) ≤
        (insert p B).card • (MAXOPBLOCKS : Int) :=
      Finset.sum_le_card_nsmul _ _ _ fun q _ => by exact_mod_cast Place.due_le _
    have hcard := Finset.card_insert_le p B
    have hcount := hB.count
    simp only [Shared.full, Bool.or_eq_true, decide_eq_true_eq, not_or, not_lt] at hfull
    rw [hlh]
    rw [Int.nsmul_eq_mul] at hsum
    simp only [MAXOPBLOCKS] at hsum hfull ⊢
    omega

/-- `log_write` records a block. -/
theorem record (h : Roomy s place A) (htidy : Tidy s) {st b : Nat} {logged : List Nat}
    (hp : place p = .record st logged b) {lh : LogHeader} (hrec : s.lh.record b = some lh)
    (hlh : s'.lh = lh) :
    Roomy s' (Function.update place p (.op st (addLogged b logged))) (insert p A) := by
  have hlogged : ∀ b' ∈ logged, b' ∈ s.lh.blocks := by
    have := h.logged p
    rwa [hp] at this
  have htarget : (addLogged b logged).length ≤ MAXOPBLOCKS := by
    have := h.target p
    rwa [hp] at this
  have hmem : ∀ b' ∈ addLogged b logged, b' = b ∨ b' ∈ logged := by
    intro b' hb'
    unfold addLogged at hb'
    split_ifs at hb'
    · exact .inr hb'
    · exact List.mem_cons.mp hb'
  have hlen := length_addLogged b logged
  by_cases hb : b ∈ s.lh.blocks
  · rw [LogHeader.record_of_mem htidy.nonneg htidy.le hb] at hrec
    cases hrec
    apply h.update
    · exact fun b' hb' => by rwa [hlh]
    · intro b' hb'
      rw [hlh]
      rcases hmem b' hb' with rfl | hold
      · exact hb
      · exact hlogged b' hold
    · exact htarget
    · rw [hlh, hp]
      simp only [Place.due, Place.running, Place.logged, Option.isSome_some, if_true]
      split_ifs at hlen <;> omega
  · obtain ⟨-, hn, hblocks⟩ := LogHeader.record_of_not_mem htidy.nonneg hb hrec
    have hnew : b ∉ logged := fun hin => hb (hlogged b hin)
    rw [if_neg hnew] at hlen
    apply h.update
    · intro b' hb'
      rw [hlh, hblocks]
      exact List.mem_append_left _ hb'
    · intro b' hb'
      rw [hlh, hblocks, List.mem_append, List.mem_singleton]
      rcases hmem b' hb' with rfl | hold
      · exact .inr rfl
      · exact .inl (hlogged b' hold)
    · exact htarget
    · rw [hlh, hn, hp]
      simp only [Place.due, Place.running, Place.logged, Option.isSome_some, if_true]
      omega

/-- `commit` empties the header; no operation is running. -/
theorem clear (hnone : ∀ q, (place q).running = none) (hn : s'.lh.n = 0) : Roomy s' place ∅ := by
  constructor
  · intro q b hb
    rw [Place.logged_of_not_running (hnone q)] at hb
    cases hb
  · intro q
    have := hnone q
    cases hq : place q <;> first | exact Nat.zero_le _ | (rw [hq] at this; cases this)
  · exact fun q _ => Place.due_of_not_running (hnone q)
  · simp [hn, LOGSIZE]

end Roomy

/-- What holds in every reachable state, if every operation is limited. -/
structure Reserved (s : Sys Shared Place Unit) : Prop where
  sorted : Sorted s
  roomy : ∃ A, Roomy s.shared s.place A

namespace Reserved

theorem call (h : Reserved s) {p : Nat} {a : Choice} {l0 : Place} {s1 : Shared} {o : Outer Place}
    (hlim : Limited s (.call p a)) (hctl : s.ctl p = .out l0)
    (hrun : (logClient size).outside p a l0 s.shared = some (.ok (s1, o))) :
    ∃ A, Roomy s1 (Function.update s.place p o.loc) A := by
  obtain ⟨A, hA⟩ := h.roomy
  have hp : s.place p = l0 := by rw [Sys.place, hctl]; rfl
  have htarget := hA.target p
  rw [hp] at htarget
  change Log.outside size p a l0 s.shared = _ at hrun
  cases l0 <;> cases a <;> simp only [Log.outside] at hrun
  all_goals try (cases hrun; done)
  case idle.beginOp | commit.write | cleared.goOn =>
    cases hrun
    exact ⟨_, hA.idles rfl rfl⟩
  case op.logWrite st logged b =>
    split_ifs at hrun
    · cases hrun
    · cases hrun
      refine ⟨_, hA.keep rfl ?_ (hlim st logged hctl) ?_⟩
      · rw [hp]
        exact fun _ => id
      · rw [hp]
        exact le_rfl
  case check.goOn =>
    split_ifs at hrun
    · cases hrun
    · cases hrun
      refine ⟨_, hA.keep rfl ?_ htarget ?_⟩
      · rw [hp]
        exact fun _ => id
      · rw [hp]
        exact le_rfl
  case op.endOp =>
    cases hrun
    refine ⟨_, hA.keep rfl ?_ htarget ?_⟩
    · rw [hp]
      exact fun _ => id
    · rw [hp]
      exact le_rfl
  case commit.goOn =>
    cases hrun
    obtain ⟨B, hB⟩ := h.sorted.grouped
    have hquiet := hB.quiet (hB.committer p (by rw [hp]; rfl))
    refine ⟨∅, Roomy.clear (fun q => ?_) ?_⟩
    · by_cases hq : q = p
      · simp [hq, Outer.loc, Place.running]
      · have hnot : q ∉ B := by simp [hquiet]
        rw [hB.active q] at hnot
        simpa [hq] using hnot
    · have := h.sorted.tidy.nonneg
      dsimp only
      split_ifs <;> omega

theorem inside (h : Reserved s) {p : Nat} (killed : Bool) {l0 : Place} {s1 : Shared}
    {n : Next Place Unit} (hp : s.place p = l0)
    (hrun : (logClient size).inside p killed l0 s.shared = .ok (s1, n)) :
    ∃ A, Roomy s1 (Function.update s.place p n.loc) A := by
  obtain ⟨A, hA⟩ := h.roomy
  have htarget := hA.target p
  rw [hp] at htarget
  change Log.inside p killed l0 s.shared = _ at hrun
  cases l0 with
  | idle | commit | cleared | unlock | finish =>
    cases hrun
    exact ⟨_, hA.idles rfl rfl⟩
  | op st logged | check st logged b =>
    cases hrun
    refine ⟨_, hA.keep rfl ?_ htarget ?_⟩
    · rw [hp]
      exact fun _ => id
    · rw [hp]
      exact le_rfl
  | begin =>
    simp only [Log.inside] at hrun
    split_ifs at hrun with hfull
    · cases hrun
      exact ⟨_, hA.idles rfl rfl⟩
    · cases hrun
      obtain ⟨B, hB⟩ := h.sorted.grouped
      refine ⟨insert p B, hA.enter hB hfull ?_ _⟩
      rfl
  | record st logged b =>
    simp only [Log.inside] at hrun
    split at hrun
    · cases hrun
    · next lh hrec =>
        cases hrun
        exact ⟨_, hA.record h.sorted.tidy hp hrec rfl⟩
  | ending st logged =>
    simp only [Log.inside] at hrun
    split_ifs at hrun
    all_goals
      cases hrun
      exact ⟨_, hA.idles rfl rfl⟩

theorem step (h : Reserved s) (hstep : LimitedSteps size s l s') : Reserved s' := by
  refine ⟨h.sorted.step hstep.1, ?_⟩
  cases seen_step hstep.1 with
  | same hshared hplace =>
    rw [hshared, hplace]
    exact h.roomy
  | call hl hp hrun hshared hplace =>
    subst hl
    rw [hshared, hplace]
    exact h.call hstep.2 hp hrun
  | @inside p _ _ _ _ hp hrun hshared hplace =>
    rw [hshared, hplace]
    exact h.inside (s.killed p) (by rw [Sys.place, hp]; rfl) hrun

/-- What is set aside for an operation is still free. -/
theorem due_le (h : Reserved s) (p : Nat) : s.shared.lh.n + (s.place p).due ≤ LOGSIZE := by
  obtain ⟨A, hA⟩ := h.roomy
  by_cases hp : p ∈ A
  · have hsum := Finset.single_le_sum (f := fun q => ((s.place q).due : Int))
      (fun q _ => Int.natCast_nonneg _) hp
    have hroom := hA.room
    omega
  · have hnone := hA.idle p hp
    have hle := h.sorted.tidy.le
    omega

/-- The store of `log_write` is within the array. -/
theorem slot_lt (h : Reserved s) {p st b : Nat} {logged : List Nat}
    (hp : s.place p = .record st logged b) : s.shared.lh.slot b < LOGSIZE := by
  obtain ⟨A, hA⟩ := h.roomy
  have htidy := h.sorted.tidy
  have hnonneg := htidy.nonneg
  have hle := htidy.le
  by_cases hb : b ∈ s.shared.lh.blocks
  · have := (LogHeader.slot_of_mem hb).1
    omega
  · rw [LogHeader.slot_of_not_mem hb]
    -- One of the entries set aside for this operation is still there.
    have hnew : b ∉ logged := fun hin => hb (hA.logged p b (by rw [hp]; exact hin))
    have htarget := hA.target p
    have hdue : 1 ≤ (s.place p).due := by
      rw [hp] at htarget ⊢
      simp only [Place.target, length_addLogged, if_neg hnew] at htarget
      simp only [Place.due, Place.running, Place.logged, Option.isSome_some, if_true]
      omega
    have hroom := h.due_le p
    omega

end Reserved

theorem reserved_of_run {lh : LogHeader} {ls : List (Label Choice)}
    (h : Run (LimitedSteps size) (start lh) ls s) : Reserved s :=
  h.invariant ⟨sorted_start lh, ∅, Roomy.clear (fun _ => rfl) rfl⟩ fun _ _ _ hs hstep =>
    hs.step hstep

/-- If every operation is limited, `log_write` stores nothing outside `log.lh.block`. -/
theorem no_overrun {lh : LogHeader} {ls : List (Label Choice)}
    (h : Run (LimitedSteps size) (start lh) ls s) (l : Label Choice) :
    step (logClient size) l s ≠ .error (.panic .overrun) := by
  intro hpanic
  rcases panic_step hpanic with ⟨p, l0, -, hp, hin⟩ | ⟨p, a, l0, -, -, hout⟩
  · change Log.inside p (s.killed p) l0 s.shared = _ at hin
    cases l0 with
    | record st logged b =>
      have hlt := (reserved_of_run h).slot_lt (p := p) (by rw [Sys.place, hp]; rfl)
      simp only [Log.inside, LogHeader.record, if_neg (Nat.not_le.mpr hlt)] at hin
      cases hin
    | begin | ending _ _ =>
      simp only [Log.inside] at hin
      split_ifs at hin <;> cases hin
    | _ => cases hin
  · change Log.outside size p a l0 s.shared = _ at hout
    unfold Log.outside at hout
    split at hout
    all_goals try split_ifs at hout
    all_goals cases hout

/-! ## The test of `log_write` -/

theorem Tidy.n_eq_card {s : Shared} (h : Tidy s) : s.lh.n = s.since.toFinset.card := by
  have hset : s.since.toFinset = s.lh.blocks.toFinset := by
    ext b
    rw [List.mem_toFinset, List.mem_toFinset, h.mem b]
  rw [hset, List.toFinset_card_of_nodup h.nodup, LogHeader.length_blocks]
  have := h.nonneg
  omega

theorem logWrite_panics_iff (size : Nat) {p st : Nat} {logged : List Nat}
    (hp : s.ctl p = .out (.op st logged)) (b : Nat) :
    step (logClient size) (.call p (.logWrite b)) s = .error (.panic .tooBig) ↔
      s.shared.lh.n ≥ LOGSIZE ∨ s.shared.lh.n ≥ (size : Int) - 1 := by
  have hout : (logClient size).outside p (.logWrite b) (.op st logged) s.shared =
      if s.shared.lh.n ≥ LOGSIZE ∨ s.shared.lh.n ≥ (size : Int) - 1 then some (.error .tooBig)
      else some (.ok ({ s.shared with passed := s.shared.passed ++ [b] },
        .stay (.check st logged b))) := rfl
  simp only [step, hp, hout]
  by_cases hbig : s.shared.lh.n ≥ LOGSIZE ∨ s.shared.lh.n ≥ (size : Int) - 1
  · rw [if_pos hbig]
    exact iff_of_true rfl hbig
  · rw [if_neg hbig]
    exact iff_of_false (by rintro ⟨⟩) hbig

/-- With the log that `mkfs` lays out, the test of `log_write` fails if and only if
`LOGSIZE - 1` distinct blocks have been logged since the last commit. -/
theorem tooBig_test_iff (h : Tidy s.shared) :
    (s.shared.lh.n ≥ LOGSIZE ∨ s.shared.lh.n ≥ (nlog : Int) - 1) ↔
      LOGSIZE - 1 ≤ s.shared.since.toFinset.card := by
  rw [h.n_eq_card]
  simp only [nlog, LOGSIZE]
  omega

/-- If every operation is limited, `log_write` panics if and only if `LOGSIZE - 1` distinct
blocks have been logged since the last commit, whatever the block.  This does not happen to an
operation that has logged fewer than `MAXOPBLOCKS - 1` distinct blocks. -/
theorem logWrite_tooBig_iff {lh : LogHeader} {ls : List (Label Choice)}
    (h : Run (LimitedSteps nlog) (start lh) ls s) {p st : Nat} {logged : List Nat}
    (hp : s.ctl p = .out (.op st logged)) (b : Nat) :
    (step (logClient nlog) (.call p (.logWrite b)) s = .error (.panic .tooBig) ↔
      LOGSIZE - 1 ≤ s.shared.since.toFinset.card) ∧
    (step (logClient nlog) (.call p (.logWrite b)) s = .error (.panic .tooBig) →
      MAXOPBLOCKS - 1 ≤ logged.length) := by
  have hres := reserved_of_run h
  have hpanics := logWrite_panics_iff nlog hp b
  refine ⟨hpanics.trans (tooBig_test_iff hres.sorted.tidy), fun hpanic => ?_⟩
  have hbig := hpanics.mp hpanic
  have hroom := hres.due_le p
  have hplace : s.place p = .op st logged := by rw [Sys.place, hp]; rfl
  simp only [hplace, Place.due, Place.running, Place.logged, Option.isSome_some, if_true] at hroom
  simp only [nlog, LOGSIZE, MAXOPBLOCKS] at *
  omega

/-! ## A log that fills up -/

/-- The test of `Limited`. -/
def limited (s : Sys Shared Place Unit) : Label Choice → Bool
  | .call p (.logWrite b) =>
    match s.ctl p with
    | .out (.op _ logged) => decide ((addLogged b logged).length ≤ MAXOPBLOCKS)
    | _ => true
  | _ => true

theorem limited_of_test (h : limited s l = true) : Limited s l := by
  cases l with
  | call p a =>
    cases a with
    | logWrite b =>
      intro st logged hp
      simpa [limited, hp] using h
    | _ => trivial
  | _ => trivial

/-- Process `p` begins an operation. -/
def begins (p : Nat) : List (Label Choice) := [.call p .beginOp, .run p, .run p]

/-- Process `p` passes these blocks to `log_write`. -/
def logs (p : Nat) (bs : List Nat) : List (Label Choice) :=
  bs.flatMap fun b => [.call p (.logWrite b), .call p .goOn, .run p, .run p]

/-- Three operations begin.  They log 10, 10 and 8 blocks, and the third is about to record
another one. -/
def fillsUp : List (Label Choice) :=
  begins 0 ++ begins 1 ++ begins 2 ++ logs 0 (List.range' 100 10) ++ logs 1 (List.range' 110 10) ++
    logs 2 (List.range' 120 8) ++ [.call 2 (.logWrite 128), .call 2 .goOn, .run 2]

/-- A run of limited operations that has been executed. -/
theorem exists_limited_run {ls : List (Label Choice)} {P : Sys Shared Place Unit → Bool}
    (h : Run.passesAll (step (logClient nlog)) (fun s l _ => limited s l) ls
      (start ⟨0, fun _ => 0⟩) P = true) :
    ∃ s, Run (LimitedSteps nlog) (start ⟨0, fun _ => 0⟩) ls s ∧ P s = true := by
  obtain ⟨s, hrun, hP⟩ := Run.exists_of_passesAll h
  exact ⟨s, hrun.mono fun _ _ _ hs => ⟨hs.1, limited_of_test hs.2⟩, hP⟩

/-- Process 2 has recorded 28 distinct blocks with the others, and its next step records another. -/
theorem no_overrun_fillsUp : ∃ s, Run (LimitedSteps nlog) (start ⟨0, fun _ => 0⟩) fillsUp s ∧
    s.shared.lh.n = 28 ∧
    (step (logClient nlog) (.run 2) s).toOption.any (fun s' => s'.shared.lh.n = 29) = true ∧
    ∀ l, step (logClient nlog) l s ≠ .error (.panic .overrun) := by
  obtain ⟨s, hrun, hs⟩ : ∃ s, Run (LimitedSteps nlog) (start ⟨0, fun _ => 0⟩) fillsUp s ∧
      decide (s.shared.lh.n = 28 ∧ (step (logClient nlog) (.run 2) s).toOption.any
        (fun s' => s'.shared.lh.n = 29) = true) = true := exists_limited_run (by decide +kernel)
  obtain ⟨hn, hnext⟩ := of_decide_eq_true hs
  exact ⟨s, hrun, hn, hnext, no_overrun hrun⟩

/-- The operation of a process, if the process is outside the code of the log. -/
def opOf (s : Sys Shared Place Unit) (p : Nat) : Option (Nat × List Nat) :=
  match s.ctl p with
  | .out (.op st logged) => some (st, logged)
  | _ => none

theorem ctl_of_opOf {p st : Nat} {logged : List Nat} (h : opOf s p = some (st, logged)) :
    s.ctl p = .out (.op st logged) := by
  unfold opOf at h
  split at h
  · next hp =>
      cases h
      exact hp
  · cases h

/-- Then the third operation has logged nine blocks. -/
theorem exists_run_full : ∃ s, Run (LimitedSteps nlog) (start ⟨0, fun _ => 0⟩) (fillsUp ++ [.run 2]) s ∧
    s.ctl 2 = .out (.op 0 (List.range' 120 9).reverse) ∧ s.shared.since = List.range' 100 29 := by
  obtain ⟨s, hrun, hs⟩ : ∃ s, Run (LimitedSteps nlog) (start ⟨0, fun _ => 0⟩) (fillsUp ++ [.run 2]) s ∧
      decide (opOf s 2 = some (0, (List.range' 120 9).reverse) ∧
        s.shared.since = List.range' 100 29) = true := exists_limited_run (by decide +kernel)
  obtain ⟨hop, hsince⟩ := of_decide_eq_true hs
  exact ⟨s, hrun, ctl_of_opOf hop, hsince⟩

/-- Its tenth block makes `log_write` panic. -/
theorem logWrite_tooBig_iff_fillsUp :
    ∃ s, Run (LimitedSteps nlog) (start ⟨0, fun _ => 0⟩) (fillsUp ++ [.run 2]) s ∧
      s.ctl 2 = .out (.op 0 (List.range' 120 9).reverse) ∧
      step (logClient nlog) (.call 2 (.logWrite 129)) s = .error (.panic .tooBig) ∧
      MAXOPBLOCKS - 1 ≤ (List.range' 120 9).reverse.length := by
  obtain ⟨s, hrun, hctl, hsince⟩ := exists_run_full
  have hiff := logWrite_tooBig_iff hrun hctl 129
  have hpanic := hiff.1.mpr (by rw [hsince]; decide)
  exact ⟨s, hrun, hctl, hpanic, hiff.2 hpanic⟩

/-- So does a block that it has logged before. -/
theorem logWrite_tooBig_reachable :
    ∃ ls s, Run (LimitedSteps nlog) (start ⟨0, fun _ => 0⟩) ls s ∧
      Limited s (.call 2 (.logWrite 129)) ∧ 129 ∉ s.shared.since ∧
      step (logClient nlog) (.call 2 (.logWrite 129)) s = .error (.panic .tooBig) ∧
      Limited s (.call 2 (.logWrite 120)) ∧ 120 ∈ s.shared.since ∧
      step (logClient nlog) (.call 2 (.logWrite 120)) s = .error (.panic .tooBig) := by
  obtain ⟨s, hrun, hctl, hsince⟩ := exists_run_full
  have hlimited : ∀ b, Limited s (.call 2 (.logWrite b)) := by
    intro b st logged hp
    rw [hctl] at hp
    cases hp
    rw [length_addLogged]
    split_ifs <;> decide
  have hpanics : ∀ b, step (logClient nlog) (.call 2 (.logWrite b)) s = .error (.panic .tooBig) := by
    intro b
    rw [logWrite_panics_iff nlog hctl, tooBig_test_iff (reserved_of_run hrun).sorted.tidy, hsince]
    decide
  exact ⟨_, s, hrun, hlimited 129, by rw [hsince]; decide, hpanics 129, hlimited 120,
    by rw [hsince]; decide, hpanics 120⟩

end Log
end Xv6
