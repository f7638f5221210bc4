import Xv6.Sync.Sleeplock

/-!
# Who releases a sleep lock (`sleeplock.c`, `bio.c`, `fs.c`)

`brelse` and `iunlock` release the sleep lock of a buffer or an inode after they have asked
`holdingsleep`, and panic if the answer is no.  `holdingsleep` answers whether the lock is
locked, by whomever: a process that releases a lock which another one holds is not stopped
by the guard.  `released_by_other` is a run in which this lets two processes have the lock.

`released_by_holder` says what holds if no process passes the guard with a lock that
another one holds.  What a process does with `lk->lk` held is one step here.
-/

namespace Xv6
namespace Sync
namespace Release

open Lib Function
open Sleeplock (Lock)

/-- What has a sleep lock. -/
inductive Obj where
  | buf (b : Nat)
  | inode (i : Nat)
deriving DecidableEq

/-- The functions that ask `holdingsleep`.  `iunlock` may be given a null pointer. -/
inductive Call where
  | bwrite (b : Nat)
  | brelse (b : Nat)
  | iunlock (ip : Option Nat)
deriving DecidableEq

/-- The places in the code. -/
inductive Place where
  | idle
  /-- In `acquiresleep`, at `while (lk->locked)`. -/
  | acquire (o : Obj)
  /-- At `holdingsleep`. -/
  | guard (c : Call)
  /-- In `iunlock`, at `ip->ref < 1`. -/
  | ref (i : Nat)
  /-- In `releasesleep`. -/
  | release (o : Obj)

/-- The locks and the processes. -/
structure Locks where
  lock : Obj → Lock
  /-- `ip->ref`. -/
  ref : Nat → Nat
  place : Nat → Place
  /-- Is the process between its `acquiresleep` and its release? -/
  held : Nat → Obj → Bool
  panicked : Option String

inductive Label where
  /-- A process calls `acquiresleep`. -/
  | acquire (p : Nat) (o : Obj)
  /-- It looks at the lock. -/
  | test (p : Nat)
  | call (p : Nat) (c : Call)
  /-- The guard of a call. -/
  | guard (p : Nat)
  /-- The rest of the guard of `iunlock`. -/
  | ref (p : Nat)
  /-- The store of `releasesleep`. -/
  | free (p : Nat)
  /-- `iget`, `idup` or `iput` of some process. -/
  | setRef (i n : Nat)
deriving DecidableEq

def holdingsleep (lk : Lock) : Bool := lk.locked

/-- The lock that a call is to release. -/
def Call.releases : Call → Option Obj
  | .bwrite _ => none
  | .brelse b => some (.buf b)
  | .iunlock ip => ip.map Obj.inode

/-- The text of its panic. -/
def Call.name : Call → String
  | .bwrite _ => "bwrite"
  | .brelse _ => "brelse"
  | .iunlock _ => "iunlock"

def Locks.goto (s : Locks) (p : Nat) (l : Place) : Locks :=
  { s with place := update s.place p l }

def Locks.panic (s : Locks) (c : Call) : Locks := { s with panicked := some c.name }

/-- Process `p` stores `lk` in the lock and leaves the function. -/
def Locks.store (s : Locks) (p : Nat) (o : Obj) (lk : Lock) : Locks :=
  { s with
    lock := update s.lock o lk
    held := update s.held p (update (s.held p) o lk.locked)
    place := update s.place p .idle }

/-- The end of `acquiresleep`. -/
def Locks.take (s : Locks) (p : Nat) (o : Obj) : Locks := s.store p o ⟨true, p⟩

/-- `releasesleep`. -/
def Locks.release (s : Locks) (p : Nat) (o : Obj) : Locks := s.store p o ⟨false, 0⟩

/-- The guard with `holdingsleep`. -/
def Locks.guard (s : Locks) (p : Nat) (c : Call) : Locks :=
  match c with
  | .bwrite b => if holdingsleep (s.lock (.buf b)) then s.goto p .idle else s.panic c
  | .brelse b =>
    if holdingsleep (s.lock (.buf b)) then s.goto p (.release (.buf b)) else s.panic c
  | .iunlock none => s.panic c
  | .iunlock (some i) =>
    if holdingsleep (s.lock (.inode i)) then s.goto p (.ref i) else s.panic c

/-- The steps of the system while nobody has panicked. -/
def go (l : Label) (s : Locks) : Except Unit Locks :=
  match l with
  | .acquire p o =>
    match s.place p with
    | .idle => .ok (s.goto p (.acquire o))
    | _ => .error ()
  | .test p =>
    match s.place p with
    | .acquire o => if (s.lock o).locked then .ok s else .ok (s.take p o)
    | _ => .error ()
  | .call p c =>
    match s.place p with
    | .idle => .ok (s.goto p (.guard c))
    | _ => .error ()
  | .guard p =>
    match s.place p with
    | .guard c => .ok (s.guard p c)
    | _ => .error ()
  | .ref p =>
    match s.place p with
    | .ref i => .ok (if s.ref i < 1 then s.panic (.iunlock (some i))
        else s.goto p (.release (.inode i)))
    | _ => .error ()
  | .free p =>
    match s.place p with
    | .release o => .ok (s.release p o)
    | _ => .error ()
  | .setRef i n => .ok { s with ref := update s.ref i n }

def step (l : Label) (s : Locks) : Except Unit Locks :=
  match s.panicked with
  | some _ => .error ()
  | none => go l s

def Steps (s : Locks) (l : Label) (s' : Locks) : Prop := step l s = .ok s'

/-- All locks are free. -/
def start (ref : Nat → Nat) : Locks :=
  ⟨fun _ => ⟨false, 0⟩, ref, fun _ => .idle, fun _ _ => false, none⟩

/-! ## What the guard is for -/

/-- At most one process is between its `acquiresleep` and its release. -/
def Exclusive (s : Locks) : Prop :=
  ∀ p q o, s.held p o = true → s.held q o = true → p = q

/-- A lock becomes free only by a release of the process that acquired it. -/
def ByHolder (s : Locks) (l : Label) (s' : Locks) : Prop :=
  ∀ p o, s.lock o = ⟨true, p⟩ → s'.lock o ≠ s.lock o → l = .free p

/-- A process that attempts to release a lock it does not have panics, and the locks are as
before. -/
def Refuses (s : Locks) (l : Label) (s' : Locks) : Prop :=
  ∀ p c o, l = .guard p → s.place p = .guard c → c.releases = some o → s.held p o = false →
    s'.panicked = some c.name ∧ s'.lock = s.lock

/-- At the guard of `brelse` or `iunlock` the lock is free or the process's own. -/
def Safe (s : Locks) (l : Label) : Prop :=
  ∀ p c o, l = .guard p → s.place p = .guard c → c.releases = some o →
    (s.lock o).locked = true → (s.lock o).pid = p

/-- What holds then. -/
structure Inv (s : Locks) : Prop where
  held : ∀ p o, s.held p o = true ↔ s.lock o = ⟨true, p⟩
  ref : ∀ p i, s.place p = .ref i → s.held p (.inode i) = true
  release : ∀ p o, s.place p = .release o → s.held p o = true

section steps

variable {s s' : Locks} {l : Label} {p : Nat} {o : Obj} {c : Call} {l' : Place}

theorem inv_start (ref : Nat → Nat) : Inv (start ref) := by
  constructor
  · intro p o
    constructor
    · intro h
      cases h
    · intro h
      exact absurd (congrArg Lock.locked h) Bool.false_ne_true
  · intro p i h
    cases h
  · intro p o h
    cases h

theorem Inv.exclusive (h : Inv s) : Exclusive s := by
  intro p q o hp hq
  have hlock := ((h.held p o).mp hp).symm.trans ((h.held q o).mp hq)
  exact congrArg Lock.pid hlock

/-- A process goes on, and the locks are as before. -/
theorem Inv.goto (h : Inv s) (href : ∀ i, l' = .ref i → s.held p (.inode i) = true)
    (hrelease : ∀ o, l' = .release o → s.held p o = true) : Inv (s.goto p l') := by
  constructor
  · exact h.held
  · intro q i hq
    by_cases hqp : q = p
    · subst hqp
      exact href i ((update_self ..).symm.trans hq)
    · exact h.ref q i ((update_of_ne hqp ..).symm.trans hq)
  · intro q o hq
    by_cases hqp : q = p
    · subst hqp
      exact hrelease o ((update_self ..).symm.trans hq)
    · exact h.release q o ((update_of_ne hqp ..).symm.trans hq)

theorem Inv.panic (h : Inv s) : Inv (s.panic c) := ⟨h.held, h.ref, h.release⟩

theorem held_update (s : Locks) (p q : Nat) (o o' : Obj) (b : Bool) :
    update s.held p (update (s.held p) o b) q o' =
      if q = p ∧ o' = o then b else s.held q o' := by
  by_cases hq : q = p
  · subst hq
    rw [update_self]
    by_cases ho : o' = o
    · rw [ho, update_self, if_pos ⟨rfl, rfl⟩]
    · rw [update_of_ne ho, if_neg fun h => ho h.2]
  · rw [update_of_ne hq, if_neg fun h => hq h.1]

/-- Process `p` stores in a lock that no other process has. -/
theorem Inv.store {lk : Lock} (h : Inv s) (hothers : ∀ q, q ≠ p → s.held q o = false)
    (hlk : ∀ q, lk = ⟨true, q⟩ ↔ lk.locked = true ∧ q = p) : Inv (s.store p o lk) := by
  have hkeep : ∀ q o', q ≠ p → s.held q o' = true → (s.store p o lk).held q o' = true := by
    intro q o' hqp hq
    show update s.held p (update (s.held p) o lk.locked) q o' = true
    rw [held_update, if_neg fun h => hqp h.1]
    exact hq
  have hplace : ∀ q, q ≠ p → (s.store p o lk).place q = s.place q :=
    fun q hq => update_of_ne hq ..
  have hidle : (s.store p o lk).place p = .idle := update_self ..
  constructor
  · intro q o'
    show update s.held p (update (s.held p) o lk.locked) q o' = true ↔
      update s.lock o lk o' = ⟨true, q⟩
    rw [held_update]
    by_cases ho : o' = o
    · subst ho
      rw [update_self, hlk]
      by_cases hq : q = p
      · simp [hq]
      · simp [hq, hothers q hq]
    · rw [update_of_ne ho, if_neg fun h => ho h.2]
      exact h.held q o'
  · intro q i hq
    by_cases hqp : q = p
    · rw [hqp, hidle] at hq
      cases hq
    · rw [hplace q hqp] at hq
      exact hkeep q _ hqp (h.ref q i hq)
  · intro q o' hq
    by_cases hqp : q = p
    · rw [hqp, hidle] at hq
      cases hq
    · rw [hplace q hqp] at hq
      exact hkeep q _ hqp (h.release q o' hq)

/-- Nobody has a free lock, so the process that takes it is alone. -/
theorem Inv.take (h : Inv s) (hfree : (s.lock o).locked = false) : Inv (s.take p o) := by
  apply h.store
  · intro q _
    rw [Bool.eq_false_iff]
    intro hq
    rw [(h.held q o).mp hq] at hfree
    cases hfree
  · intro q
    constructor
    · intro heq
      exact ⟨rfl, (congrArg Lock.pid heq).symm⟩
    · intro hq
      rw [hq.2]

/-- The holder releases. -/
theorem Inv.free (h : Inv s) (hp : s.held p o = true) : Inv (s.release p o) := by
  apply h.store
  · intro q hqp
    rw [Bool.eq_false_iff]
    intro hq
    exact hqp (h.exclusive q p o hq hp)
  · intro q
    constructor
    · intro heq
      exact absurd (congrArg Lock.locked heq) Bool.false_ne_true
    · intro hq
      exact absurd hq.1 Bool.false_ne_true

/-- A process that does not have the lock finds it free, if it is safe to ask. -/
theorem Inv.not_locked (h : Inv s) (hpid : (s.lock o).locked = true → (s.lock o).pid = p)
    (hp : s.held p o = false) : (s.lock o).locked = false := by
  rw [Bool.eq_false_iff]
  intro hlocked
  have hlock : s.lock o = ⟨true, p⟩ := by
    have heta : s.lock o = ⟨(s.lock o).locked, (s.lock o).pid⟩ := rfl
    rw [heta, hlocked, hpid hlocked]
  rw [(h.held p o).mpr hlock] at hp
  cases hp

/-- The guard. -/
theorem Inv.guard (h : Inv s) (hpid : ∀ o, c.releases = some o → (s.lock o).locked = true →
    (s.lock o).pid = p) :
    Inv (s.guard p c) ∧ (s.guard p c).lock = s.lock ∧
      ∀ o, c.releases = some o → s.held p o = false → (s.guard p c).panicked = some c.name := by
  -- a process that passes the guard has the lock
  have hhas : ∀ o, c.releases = some o → holdingsleep (s.lock o) = true → s.held p o = true := by
    intro o ho hlocked
    by_contra hp
    have hfree := h.not_locked (hpid o ho) (Bool.eq_false_iff.mpr hp)
    exact Bool.false_ne_true (hfree.symm.trans hlocked)
  cases c with
  | bwrite b =>
    refine ⟨?_, ?_, nofun⟩
    · unfold Locks.guard
      dsimp only
      split_ifs
      · exact h.goto nofun nofun
      · exact h.panic
    · unfold Locks.guard
      dsimp only
      split_ifs
      · rfl
      · rfl
  | brelse b =>
    unfold Locks.guard
    dsimp only
    split_ifs with hlocked
    · have hheld := hhas _ rfl hlocked
      refine ⟨h.goto nofun ?_, rfl, ?_⟩
      · intro o ho
        cases ho
        exact hheld
      · intro o ho hp
        cases ho
        rw [hheld] at hp
        cases hp
    · exact ⟨h.panic, rfl, fun _ _ _ => rfl⟩
  | iunlock ip =>
    cases ip with
    | none => exact ⟨h.panic, rfl, fun _ _ _ => rfl⟩
    | some i =>
      unfold Locks.guard
      dsimp only
      split_ifs with hlocked
      · have hheld := hhas _ rfl hlocked
        refine ⟨h.goto ?_ nofun, rfl, ?_⟩
        · intro j hj
          cases hj
          exact hheld
        · intro o ho hp
          cases ho
          rw [hheld] at hp
          cases hp
      · exact ⟨h.panic, rfl, fun _ _ _ => rfl⟩

/-- One step. -/
theorem Inv.step (h : Inv s) (hstep : Steps s l s') (hsafe : Safe s l) :
    Inv s' ∧ ByHolder s l s' ∧ Refuses s l s' := by
  have hsame : s'.lock = s.lock → ByHolder s l s' := by
    intro heq p o _ hne
    rw [heq] at hne
    exact absurd rfl hne
  unfold Steps Release.step at hstep
  split at hstep
  · cases hstep
  cases l with
  | acquire p o =>
    change (match s.place p with
      | .idle => _
      | _ => _) = _ at hstep
    split at hstep
    · cases hstep
      exact ⟨h.goto nofun nofun, hsame rfl, nofun⟩
    · cases hstep
  | test p =>
    change (match s.place p with
      | .acquire o => _
      | _ => _) = _ at hstep
    split at hstep
    · next o _ =>
      by_cases hlocked : (s.lock o).locked = true
      · rw [if_pos hlocked] at hstep
        cases hstep
        exact ⟨h, hsame rfl, nofun⟩
      · rw [if_neg hlocked] at hstep
        cases hstep
        refine ⟨h.take (Bool.eq_false_iff.mpr hlocked), ?_, nofun⟩
        intro q o' hq hne
        by_cases ho : o' = o
        · rw [ho] at hq
          rw [hq] at hlocked
          exact absurd rfl hlocked
        · exact absurd (update_of_ne ho ..) hne
    · cases hstep
  | call p c =>
    change (match s.place p with
      | .idle => _
      | _ => _) = _ at hstep
    split at hstep
    · cases hstep
      exact ⟨h.goto nofun nofun, hsame rfl, nofun⟩
    · cases hstep
  | guard p =>
    change (match s.place p with
      | .guard c => _
      | _ => _) = _ at hstep
    split at hstep
    · next c hplace =>
      cases hstep
      obtain ⟨hinv, hlock, hpanic⟩ := h.guard (fun o ho => hsafe p c o rfl hplace ho)
      refine ⟨hinv, hsame hlock, ?_⟩
      intro q c' o hl hplace' ho hheld
      cases hl
      cases hplace.symm.trans hplace'
      exact ⟨hpanic o ho hheld, hlock⟩
    · cases hstep
  | ref p =>
    change (match s.place p with
      | .ref i => _
      | _ => _) = _ at hstep
    split at hstep
    · next i hplace =>
      split_ifs at hstep
      · cases hstep
        exact ⟨h.panic, hsame rfl, nofun⟩
      · cases hstep
        refine ⟨h.goto nofun ?_, hsame rfl, nofun⟩
        intro o ho
        cases ho
        exact h.ref p i hplace
    · cases hstep
  | free p =>
    change (match s.place p with
      | .release o => _
      | _ => _) = _ at hstep
    split at hstep
    · next o hplace =>
      cases hstep
      have hheld := h.release p o hplace
      refine ⟨h.free hheld, ?_, nofun⟩
      intro q o' hq hne
      by_cases ho : o' = o
      · -- only the holder is at the release
        have hpq : s.held q o = true := (h.held q o).mpr (ho ▸ hq)
        rw [h.exclusive q p o hpq hheld]
      · exact absurd (update_of_ne ho ..) hne
    · cases hstep
  | setRef i n =>
    cases hstep
    exact ⟨⟨h.held, h.ref, h.release⟩, hsame rfl, nofun⟩

/-- In every run in which a process that asks to release a lock finds it free or its own, at
most one process has a lock at any time, locks become free by their holders, and other
attempts panic. -/
theorem released_by_holder {ref : Nat → Nat} {ls : List Label}
    (h : Run (fun s l s' => Steps s l s' ∧ Safe s l) (start ref) ls s) :
    Exclusive s ∧ Run (fun s l s' => Steps s l s' ∧ ByHolder s l s' ∧ Refuses s l s')
      (start ref) ls s := by
  have hinv : Inv s ∧ Run (fun s l s' => Steps s l s' ∧ ByHolder s l s' ∧ Refuses s l s')
      (start ref) ls s := by
    induction h with
    | nil => exact ⟨inv_start ref, Run.nil⟩
    | snoc _ hs ih =>
      obtain ⟨hinv, hrun⟩ := ih
      obtain ⟨hnext, hrest⟩ := hinv.step hs.1 hs.2
      exact ⟨hnext, hrun.snoc ⟨hs.1, hrest⟩⟩
  exact ⟨hinv.1.exclusive, hinv.2⟩

end steps

/-- The test of `Safe`. -/
def Locks.safe (s : Locks) : Label → Bool
  | .guard p =>
    match s.place p with
    | .guard c => c.releases.all fun o => !(s.lock o).locked || (s.lock o).pid == p
    | _ => true
  | _ => true

theorem safe_of_test {s : Locks} {l : Label} (h : s.safe l = true) : Safe s l := by
  rintro p c o rfl hplace ho hlocked
  simpa [Locks.safe, hplace, ho, hlocked] using h

/-- Processes 1 and 2 ask for buffer 0; process 1 gets it and releases it, and process 2 gets it.
Then process 1 releases buffer 1, which it does not have. -/
def handOver : List Label :=
  [.acquire 1 (.buf 0), .acquire 2 (.buf 0), .test 1, .test 2, .call 1 (.brelse 0), .guard 1,
    .free 1, .test 2, .call 1 (.brelse 1), .guard 1]

theorem released_by_holder_sample : ∃ s,
    Run (fun s l s' => Steps s l s' ∧ Safe s l) (start fun _ => 0) handOver s ∧
    (s.held 1 (.buf 0) = false ∧ s.held 2 (.buf 0) = true ∧ s.panicked = some "brelse") ∧
    Exclusive s ∧ Run (fun s l s' => Steps s l s' ∧ ByHolder s l s' ∧ Refuses s l s')
      (start fun _ => 0) handOver s := by
  have heval : Run.passesAll step (fun s l _ => s.safe l) handOver (start fun _ => 0)
      (fun s => s.held 1 (.buf 0) = false ∧ s.held 2 (.buf 0) = true ∧
        s.panicked = some "brelse") = true := by
    decide +kernel
  obtain ⟨s, hsafe, hend⟩ := Run.exists_of_passesAll heval
  have hrun : Run (fun s l s' => Steps s l s' ∧ Safe s l) (start fun _ => 0) handOver s :=
    hsafe.mono fun _ _ _ hs => ⟨hs.1, safe_of_test hs.2⟩
  exact ⟨s, hrun, of_decide_eq_true hend, released_by_holder hrun⟩

/-- Process 1 has buffer 0.  Process 2 releases it, without a panic, and acquires it: both
have it. -/
theorem released_by_other : ∃ s s' s'', Run Steps (start fun _ => 0)
      [.acquire 1 (.buf 0), .test 1, .call 2 (.brelse 0), .guard 2] s ∧
    s.panicked = none ∧ s.lock (.buf 0) = ⟨true, 1⟩ ∧
    Steps s (.free 2) s' ∧ s'.lock (.buf 0) = ⟨false, 0⟩ ∧
    Run Steps s' [.acquire 2 (.buf 0), .test 2] s'' ∧
    s''.held 1 (.buf 0) = true ∧ s''.held 2 (.buf 0) = true := by
  refine ⟨_, _, _, Run.of_toOption rfl, rfl, rfl, rfl, rfl, Run.of_toOption rfl, ?_, ?_⟩
  · decide
  · decide

end Release
end Sync
end Xv6
