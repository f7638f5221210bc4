import Xv6.Sync.Model

/-!
# Who holds the locks

`Exclusive` says that a lock is held by the process that is in its critical section, and
by no other: for `lk`, for the lock of the process table, and for the case that both are
one lock.  It is an invariant of every step of the machine, whatever the client does
(`Exclusive.step`).
-/

namespace Xv6
namespace Sync

open Function

variable {S L C A E : Type}

namespace Ctl

/-- The place where the client goes on. -/
def loc : Ctl L C → L
  | .out l | .acquire l | .inside l | .sleepLock _ l | .sleepUnlock _ l | .sleepSched _ l
  | .asleep _ l | .runnable l | .sleepReturn l | .wakeupLock _ l | .wakeupScan _ l
  | .wakeupUnlock l => l

/-- Does a process here hold `lk`, if that is not the lock of the table? -/
def holdsLk : Ctl L C → Bool
  | .inside _ | .sleepLock _ _ | .sleepUnlock _ _ | .wakeupLock _ _ | .wakeupScan _ _
  | .wakeupUnlock _ => true
  | _ => false

/-- Does a process here hold `ptable.lock`, if `lk` is another lock? -/
def holdsTable : Ctl L C → Bool
  | .sleepUnlock _ _ | .sleepSched _ _ | .sleepReturn _ | .wakeupScan _ _
  | .wakeupUnlock _ => true
  | _ => false

/-- Does a process here hold `ptable.lock`, if `lk` is that lock? -/
def holdsBoth : Ctl L C → Bool
  | .inside _ | .sleepSched _ _ | .wakeupScan _ _ => true
  | _ => false

/-- The places of a process whose `lk` is `ptable.lock`. -/
def tableOnly : Ctl L C → Bool
  | .sleepLock _ _ | .sleepUnlock _ _ | .sleepReturn _ | .wakeupLock _ _
  | .wakeupUnlock _ => false
  | _ => true

end Ctl

namespace Sys

/-- Process `p` holds `lk`. -/
def HasLk (s : Sys S L C) (p : Nat) : Prop := s.lk = some p

/-- Process `p` holds `ptable.lock`. -/
def HasTable (s : Sys S L C) (p : Nat) : Prop := s.ptable = some (.proc p)

variable (s : Sys S L C) (p : Nat) (x : Ctl L C)

@[simp] theorem goto_shared : (s.goto p x).shared = s.shared := rfl

@[simp] theorem goto_lk : (s.goto p x).lk = s.lk := rfl

@[simp] theorem goto_ptable : (s.goto p x).ptable = s.ptable := rfl

@[simp] theorem goto_killed : (s.goto p x).killed = s.killed := rfl

@[simp] theorem goto_ctl : (s.goto p x).ctl = update s.ctl p x := rfl

end Sys

/-! ## Mutual exclusion -/

variable {cl : Client S L C A E}

/-- Who holds which lock. -/
structure Exclusive (cl : Client S L C A E) (s : Sys S L C) : Prop where
  lk : cl.table = false → ∀ p, s.HasLk p ↔ (s.ctl p).holdsLk = true
  table : cl.table = false → ∀ p, s.HasTable p ↔ (s.ctl p).holdsTable = true
  both : cl.table = true → ∀ p, s.HasTable p ↔ (s.ctl p).holdsBoth = true
  only : cl.table = true → ∀ p, (s.ctl p).tableOnly = true

theorem Initial.exclusive {s : Sys S L C} (h : Initial s) : Exclusive cl s := by
  constructor
  all_goals
    intro _ p
    obtain ⟨l, hl⟩ := h.out p
    simp [hl, Sys.HasLk, Sys.HasTable, h.lk, h.ptable, Ctl.holdsLk, Ctl.holdsTable, Ctl.holdsBoth,
      Ctl.tableOnly]

/-- The holder of a lock changes, if at all, to or from process `p`, which holds it
afterwards exactly if `b`. -/
def Hands (o o' : Nat → Prop) (p : Nat) (b : Bool) : Prop :=
  ∀ q, o' q ↔ if q = p then b = true else o q

namespace Hands

variable {o o' : Nat → Prop} {p : Nat}

theorem keep {b : Bool} (h : o p ↔ b = true) : Hands o o p b := by
  intro q
  by_cases hq : q = p
  · subst hq
    simpa using h
  · simp [hq]

theorem take (h : ∀ q, ¬ o q) (h' : ∀ q, o' q ↔ p = q) : Hands o o' p true := by
  intro q
  by_cases hq : q = p
  · simp [hq, h']
  · simp [hq, h, h', Ne.symm hq]

theorem drop (h : ∀ q, o q → p = q) (h' : ∀ q, ¬ o' q) : Hands o o' p false := by
  intro q
  by_cases hq : q = p
  · simp [hq, h']
  · have : ¬ o q := fun hoq => hq (h q hoq).symm
    simp [hq, h', this]

end Hands

variable {s s' : Sys S L C}

namespace Exclusive

variable {p : Nat} {x : Ctl L C}

/-- Process `p` moves to `x`, and the locks change hands accordingly. -/
theorem goto (h : Exclusive cl s) (hctl : s'.ctl = update s.ctl p x)
    (hlk : cl.table = false → Hands s.HasLk s'.HasLk p x.holdsLk)
    (htable : cl.table = false → Hands s.HasTable s'.HasTable p x.holdsTable)
    (hboth : cl.table = true → Hands s.HasTable s'.HasTable p x.holdsBoth)
    (honly : cl.table = true → x.tableOnly = true) : Exclusive cl s' := by
  constructor
  all_goals
    intro ht q
    by_cases hq : q = p
    · subst hq
      simp_all [Hands]
    · have h1 := h.lk
      have h2 := h.table
      have h3 := h.both
      have h4 := h.only
      simp_all [Hands]

theorem keepLk (h : Exclusive cl s) (hx : x.holdsLk = (s.ctl p).holdsLk) (ht : cl.table = false) :
    Hands s.HasLk s.HasLk p x.holdsLk :=
  Hands.keep (by rw [hx]; exact h.lk ht p)

theorem keepTable (h : Exclusive cl s)
    (hx : x.holdsTable = (s.ctl p).holdsTable) (ht : cl.table = false) :
    Hands s.HasTable s.HasTable p x.holdsTable :=
  Hands.keep (by rw [hx]; exact h.table ht p)

theorem keepBoth (h : Exclusive cl s)
    (hx : x.holdsBoth = (s.ctl p).holdsBoth) (ht : cl.table = true) :
    Hands s.HasTable s.HasTable p x.holdsBoth :=
  Hands.keep (by rw [hx]; exact h.both ht p)

end Exclusive

variable {p : Nat}

theorem Exclusive.acquireLk (h : Exclusive cl s) {l : L} (hctl : s.ctl p = .acquire l)
    (hrun : acquireLk cl p l s = .ok s') : Exclusive cl s' := by
  unfold Sync.acquireLk at hrun
  split_ifs at hrun with ht hfree hfree
  · cases hrun
    apply h.goto rfl
    · intro hf
      rw [ht] at hf
      cases hf
    · intro hf
      rw [ht] at hf
      cases hf
    · exact fun _ => Hands.take (by simp [Sys.HasTable, hfree]) (by simp [Sys.HasTable])
    · exact fun _ => rfl
  · cases hrun
    apply h.goto rfl
    · exact fun _ => Hands.take (by simp [Sys.HasLk, hfree]) (by simp [Sys.HasLk])
    · exact h.keepTable (by rw [hctl]; rfl)
    · exact fun hf => absurd hf ht
    · exact fun hf => absurd hf ht

theorem Exclusive.acquireTable (h : Exclusive cl s) {x : Ctl L C}
    (hlk : x.holdsLk = (s.ctl p).holdsLk) (htable : x.holdsTable = true)
    (honly : (s.ctl p).tableOnly = false)
    (hrun : acquireTable (E := E) p x s = .ok s') : Exclusive cl s' := by
  have ht : ¬ cl.table = true := by
    intro ht
    rw [h.only ht p] at honly
    cases honly
  unfold Sync.acquireTable at hrun
  split_ifs at hrun with hfree
  cases hrun
  apply h.goto rfl
  · exact h.keepLk hlk
  · intro _
    rw [htable]
    exact Hands.take (by simp [Sys.HasTable, hfree]) (by simp [Sys.HasTable])
  · exact fun hf => absurd hf ht
  · exact fun hf => absurd hf ht

/-- `release(lk)`, by a process that holds it. -/
theorem Exclusive.releaseLk (h : Exclusive cl s) {l l' : L}
    (hctl : s.ctl p = .inside l) : Exclusive cl ((releaseLk cl s).goto p (.out l')) := by
  unfold Sync.releaseLk
  by_cases ht : cl.table = true
  · have hp : s.ptable = some (.proc p) := (h.both ht p).mpr (by rw [hctl]; rfl)
    rw [if_pos ht]
    apply h.goto rfl
    · exact fun hf => absurd ht (by simp [hf])
    · exact fun hf => absurd ht (by simp [hf])
    · exact fun _ => Hands.drop (by simp [Sys.HasTable, hp]) (by simp [Sys.HasTable])
    · exact fun _ => rfl
  · have hf : cl.table = false := by simpa using ht
    have hp : s.lk = some p := (h.lk hf p).mpr (by rw [hctl]; rfl)
    rw [if_neg ht]
    apply h.goto rfl
    · exact fun _ => Hands.drop (by simp [Sys.HasLk, hp]) (by simp [Sys.HasLk])
    · exact h.keepTable (by rw [hctl]; rfl)
    · exact fun hf => absurd hf ht
    · exact fun hf => absurd hf ht

/-- The process that holds `ptable.lock` gives it away, to a scheduler or to nobody. -/
theorem Exclusive.dropTable (h : Exclusive cl s) {x : Ctl L C} {o : Option Holder}
    (ho : ∀ q, o ≠ some (.proc q)) (hlk : x.holdsLk = (s.ctl p).holdsLk)
    (htable : (s.ctl p).holdsTable = true) (htable' : x.holdsTable = false)
    (hboth : cl.table = true → (s.ctl p).holdsBoth = true ∧ x.holdsBoth = false ∧
      x.tableOnly = true) : Exclusive cl { s.goto p x with ptable := o } := by
  apply h.goto rfl
  · exact h.keepLk hlk
  · intro hf
    have hp : s.ptable = some (.proc p) := (h.table hf p).mpr htable
    rw [htable']
    exact Hands.drop (by simp [Sys.HasTable, hp]) (by simpa [Sys.HasTable] using ho)
  · intro ht
    have hp : s.ptable = some (.proc p) := (h.both ht p).mpr (hboth ht).1
    rw [(hboth ht).2.1]
    exact Hands.drop (by simp [Sys.HasTable, hp]) (by simpa [Sys.HasTable] using ho)
  · exact fun ht => (hboth ht).2.2

/-- A call of `sleep` or `wakeup` starts with `lk` held, as both locks when they are one. -/
theorem Exclusive.call (h : Exclusive cl s) {l : L} {x y : Ctl L C} (hctl : s.ctl p = .inside l)
    (hx : x.holdsBoth = true ∧ x.tableOnly = true)
    (hy : y.holdsLk = true ∧ y.holdsTable = false) :
    Exclusive cl (s.goto p (if cl.table then x else y)) := by
  by_cases ht : cl.table = true
  · rw [if_pos ht]
    apply h.goto rfl
    · exact fun hf => absurd ht (by simp [hf])
    · exact fun hf => absurd ht (by simp [hf])
    · exact h.keepBoth (by rw [hctl, hx.1]; rfl)
    · exact fun _ => hx.2
  · rw [if_neg ht]
    apply h.goto rfl
    · exact h.keepLk (by rw [hctl, hy.1]; rfl)
    · exact h.keepTable (by rw [hctl, hy.2]; rfl)
    · exact fun hf => absurd hf ht
    · exact fun hf => absurd hf ht

/-- Client code goes on with `lk` held, or calls `sleep` or `wakeup`. -/
theorem Exclusive.proceed (h : Exclusive cl s) {l : L} (hctl : s.ctl p = .inside l)
    (n : Next L C) : Exclusive cl (proceed cl p s n) := by
  cases n with
  | release l' => exact h.releaseLk hctl
  | stay l' =>
    apply h.goto rfl
    · exact h.keepLk (by rw [hctl]; rfl)
    · exact h.keepTable (by rw [hctl]; rfl)
    · exact h.keepBoth (by rw [hctl]; rfl)
    · exact fun _ => rfl
  | sleep c l' => exact h.call hctl ⟨rfl, rfl⟩ ⟨rfl, rfl⟩
  | wakeup c l' => exact h.call hctl ⟨rfl, rfl⟩ ⟨rfl, rfl⟩

/-- A process outside stays outside the locks. -/
theorem Exclusive.moveOut (h : Exclusive cl s) {x : Ctl L C} {s1 : S}
    (hp : (s.ctl p).holdsLk = false ∧ (s.ctl p).holdsTable = false ∧ (s.ctl p).holdsBoth = false)
    (hx : x.holdsLk = false ∧ x.holdsTable = false ∧ x.holdsBoth = false ∧ x.tableOnly = true) :
    Exclusive cl ({ s with shared := s1 }.goto p x) := by
  apply h.goto rfl
  · exact h.keepLk (hx.1.trans hp.1.symm)
  · exact h.keepTable (hx.2.1.trans hp.2.1.symm)
  · exact h.keepBoth (hx.2.2.1.trans hp.2.2.symm)
  · exact fun _ => hx.2.2.2

variable [DecidableEq C]

@[simp] theorem Ctl.wake_loc (x : Ctl L C) (c : C) : (x.wake c).loc = x.loc := by
  cases x <;> simp only [Ctl.wake]
  split <;> rfl

@[simp] theorem Ctl.wake_holdsLk (x : Ctl L C) (c : C) : (x.wake c).holdsLk = x.holdsLk := by
  cases x <;> simp only [Ctl.wake]
  split <;> rfl

@[simp] theorem Ctl.wake_holdsTable (x : Ctl L C) (c : C) :
    (x.wake c).holdsTable = x.holdsTable := by
  cases x <;> simp only [Ctl.wake]
  split <;> rfl

@[simp] theorem Ctl.wake_holdsBoth (x : Ctl L C) (c : C) :
    (x.wake c).holdsBoth = x.holdsBoth := by
  cases x <;> simp only [Ctl.wake]
  split <;> rfl

@[simp] theorem Ctl.wake_tableOnly (x : Ctl L C) (c : C) :
    (x.wake c).tableOnly = x.tableOnly := by
  cases x <;> simp only [Ctl.wake]
  split <;> rfl

theorem Exclusive.wake (h : Exclusive cl s) (c : C) :
    Exclusive cl { s with ctl := fun q => (s.ctl q).wake c } := by
  constructor
  · simpa [Sys.HasLk] using h.lk
  · simpa [Sys.HasTable] using h.table
  · simpa [Sys.HasTable] using h.both
  · simpa using h.only

theorem Exclusive.runProc (h : Exclusive cl s) (hrun : runProc cl p s = .ok s') :
    Exclusive cl s' := by
  unfold Sync.runProc at hrun
  cases hctl : s.ctl p with
  | out l | asleep c l | runnable l =>
    simp only [hctl] at hrun
    cases hrun
  | acquire l =>
    simp only [hctl] at hrun
    exact h.acquireLk hctl hrun
  | inside l =>
    simp only [hctl] at hrun
    split at hrun
    · cases hrun
    · next s1 n _ =>
        cases hrun
        have h1 : Exclusive cl { s with shared := s1 } := ⟨h.lk, h.table, h.both, h.only⟩
        exact h1.proceed hctl n
  | sleepLock c l | wakeupLock c l =>
    simp only [hctl] at hrun
    exact h.acquireTable (by rw [hctl]; rfl) rfl (by rw [hctl]; rfl) hrun
  | sleepUnlock c l =>
    simp only [hctl] at hrun
    cases hrun
    have ht : ¬ cl.table = true := fun ht => by simpa [hctl, Ctl.tableOnly] using h.only ht p
    have hf : cl.table = false := by simpa using ht
    have hp : s.lk = some p := (h.lk hf p).mpr (by rw [hctl]; rfl)
    apply h.goto rfl
    · exact fun _ => Hands.drop (by simp [Sys.HasLk, hp]) (by simp [Sys.HasLk])
    · exact h.keepTable (by rw [hctl]; rfl)
    · exact fun hf => absurd hf ht
    · exact fun hf => absurd hf ht
  | sleepSched c l =>
    simp only [hctl] at hrun
    cases hrun
    exact h.dropTable (by simp) (by rw [hctl]; rfl) (by rw [hctl]; rfl) rfl
      fun _ => ⟨by rw [hctl]; rfl, rfl, rfl⟩
  | sleepReturn l | wakeupUnlock l =>
    simp only [hctl] at hrun
    cases hrun
    refine h.dropTable (by simp) (by rw [hctl]; rfl) (by rw [hctl]; rfl) rfl fun ht => ?_
    have := h.only ht p
    rw [hctl] at this
    cases this
  | wakeupScan c l =>
    simp only [hctl] at hrun
    cases hrun
    have hw := h.wake c
    have hp : (s.ctl p).wake c = .wakeupScan c l := by rw [hctl]; rfl
    by_cases ht : cl.table = true
    · apply hw.goto rfl
      · exact fun hf => absurd ht (by simp [hf])
      · exact fun hf => absurd ht (by simp [hf])
      · exact hw.keepBoth (by rw [if_pos ht]; simp only [hp]; rfl)
      · exact fun _ => by rw [if_pos ht]; rfl
    · apply hw.goto rfl
      · exact hw.keepLk (by rw [if_neg ht]; simp only [hp]; rfl)
      · exact hw.keepTable (by rw [if_neg ht]; simp only [hp]; rfl)
      · exact fun hf => absurd hf ht
      · exact fun hf => absurd hf ht

/-- Mutual exclusion is an invariant. -/
theorem Exclusive.step (h : Exclusive cl s) {l : Label A} (hstep : step cl l s = .ok s') :
    Exclusive cl s' := by
  cases l with
  | run p => exact h.runProc hstep
  | call p a =>
    simp only [Sync.step] at hstep
    split at hstep
    · next l hctl =>
        split at hstep
        all_goals
          cases hstep
          try exact h.moveOut (by rw [hctl]; exact ⟨rfl, rfl, rfl⟩) ⟨rfl, rfl, rfl, rfl⟩
    · cases hstep
  | dispatch p =>
    simp only [Sync.step] at hstep
    split at hstep
    · next l hsched hctl =>
        cases hstep
        have hnone : ∀ q, ¬ s.HasTable q := by simp [Sys.HasTable, hsched]
        have htake : Hands s.HasTable
            (Sys.HasTable { s.goto p (if cl.table then .inside l else .sleepReturn l) with
              ptable := some (.proc p) }) p true :=
          Hands.take hnone (by simp [Sys.HasTable])
        by_cases ht : cl.table = true
        · apply h.goto rfl
          · exact fun hf => absurd ht (by simp [hf])
          · exact fun hf => absurd ht (by simp [hf])
          · exact fun _ => by simpa [ht, Ctl.holdsBoth] using htake
          · exact fun _ => by rw [if_pos ht]; rfl
        · apply h.goto rfl
          · exact h.keepLk (by rw [if_neg ht, hctl]; rfl)
          · exact fun _ => by simpa [ht, Ctl.holdsTable] using htake
          · exact fun hf => absurd hf ht
          · exact fun hf => absurd hf ht
    · cases hstep
  | lockTable =>
    simp only [Sync.step] at hstep
    split_ifs at hstep with hfree
    cases hstep
    have hsame : ∀ q, s.HasTable q ↔ Sys.HasTable { s with ptable := some .scheduler } q := by
      simp [Sys.HasTable, hfree]
    exact ⟨h.lk, fun ht q => (hsame q).symm.trans (h.table ht q),
      fun ht q => (hsame q).symm.trans (h.both ht q), h.only⟩
  | unlockTable =>
    simp only [Sync.step] at hstep
    split_ifs at hstep with hsched
    cases hstep
    have hsame : ∀ q, s.HasTable q ↔ Sys.HasTable { s with ptable := none } q := by
      simp [Sys.HasTable, hsched]
    exact ⟨h.lk, fun ht q => (hsame q).symm.trans (h.table ht q),
      fun ht q => (hsame q).symm.trans (h.both ht q), h.only⟩
  | kill p =>
    simp only [Sync.step] at hstep
    split_ifs at hstep with hfree
    cases hstep
    apply h.goto rfl
    · exact h.keepLk (by cases s.ctl p <;> rfl)
    · exact h.keepTable (by cases s.ctl p <;> rfl)
    · exact h.keepBoth (by cases s.ctl p <;> rfl)
    · intro ht
      have := h.only ht p
      revert this
      cases s.ctl p <;> exact id

end Sync
end Xv6
