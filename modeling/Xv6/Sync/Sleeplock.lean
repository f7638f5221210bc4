import Xv6.Sync.Wakeup

/-!
# Sleep locks (`sleeplock.c`)

A sleep lock is a client of the machine: its fields are protected by the spin lock
`lk->lk`, and a process that finds it locked sleeps on the lock itself.

The theorems of the module are the case of `no_lost_wakeup` for sleep locks.
-/

namespace Xv6
namespace Sync
namespace Sleeplock

open Lib

/-- `struct sleeplock`, without the spin lock and the name. -/
structure Lock where
  locked : Bool
  pid : Nat

/-- The places in the code. -/
inductive Place where
  /-- Not using the lock. -/
  | idle
  /-- In `acquiresleep`, at `while (lk->locked)`. -/
  | test
  /-- Holding the sleep lock. -/
  | holding
  /-- In `releasesleep`, at `lk->locked = 0`. -/
  | unlock
  /-- At `wakeup(lk)`. -/
  | announce
  /-- At `release(&lk->lk)`. -/
  | done
deriving DecidableEq

/-- The statements executed with `lk->lk` held.  A process number stands for its pid. -/
def inside (p : Nat) (_killed : Bool) (l : Place) (lk : Lock) :
    Except Empty (Lock × Next Place Unit) :=
  match l with
  | .test =>
    if lk.locked then
      .ok (lk, .sleep () .test)
    else
      .ok (⟨true, p⟩, .release .holding)
  | .unlock => .ok (⟨false, 0⟩, .stay .announce)
  | .announce => .ok (lk, .wakeup () .done)
  | .done => .ok (lk, .release .idle)
  | .idle => .ok (lk, .release .idle)
  | .holding => .ok (lk, .release .holding)

/-- A process outside calls `acquiresleep`, or `releasesleep` if it holds the lock. -/
def outside (_p : Nat) (_a : Unit) (l : Place) (lk : Lock) :
    Option (Except Empty (Lock × Outer Place)) :=
  match l with
  | .idle => some (.ok (lk, .acquire .test))
  | .holding => some (.ok (lk, .acquire .unlock))
  | _ => none

/-- The code of sleep locks. -/
def sleeplock : Client Lock Place Unit Unit Empty where
  table := false
  inside := inside
  outside := outside

/-- The lock is free and nobody uses it. -/
def start : Sys Lock Place Unit where
  shared := ⟨false, 0⟩
  lk := none
  ptable := none
  ctl := fun _ => .out .idle
  killed := fun _ => false

theorem start_initial : Initial start := ⟨rfl, rfl, fun _ => ⟨.idle, rfl⟩⟩

/-- `releasesleep` calls `wakeup` after it has unlocked the lock, and `acquiresleep` sleeps
only while the lock is locked. -/
theorem sleeplock_careful (s : Sys Lock Place Unit) (l : Label Unit) :
    Careful sleeplock (Awaits (fun lk => lk.locked = false) ())
      (Announces (fun l => l = .announce) ()) s l := by
  cases l with
  | run p =>
    intro l0 s1 n _ hrun
    change inside p (s.killed p) l0 s.shared = _ at hrun
    cases l0 with
    | test =>
      simp only [inside] at hrun
      split_ifs at hrun with hlocked
      · cases hrun
        refine ⟨fun c _ hc => ?_, fun c l' _ _ => by simpa using hlocked⟩
        exact .inl fun _ => by simpa using hlocked
      · cases hrun
        exact ⟨fun c _ _ => .inl fun _ => by simp, nofun⟩
    | unlock =>
      cases hrun
      exact ⟨fun c _ _ => .inr (.inr ⟨rfl, rfl⟩), nofun⟩
    | announce =>
      cases hrun
      exact ⟨fun c _ _ => .inr (.inl rfl), nofun⟩
    | done | idle | holding =>
      cases hrun
      refine ⟨fun c _ hc => .inl (hc.resolve_right ?_), nofun⟩
      rintro ⟨-, h⟩
      cases h
  | call p a =>
    intro l0 s1 o _ hrun c _ hc
    change outside p a l0 s.shared = _ at hrun
    cases l0 with
    | idle | holding =>
      cases hrun
      refine .inl (hc.resolve_right ?_)
      rintro ⟨-, h⟩
      cases h
    | test | unlock | announce | done => cases hrun
  | dispatch p | lockTable | unlockTable | kill p => trivial

/-- Process 0 takes the sleep lock; process 1 finds it locked and falls asleep; process 0
releases it, which wakes process 1. -/
def contended : List (Label Unit) :=
  [.call 0 (), .run 0, .run 0, .call 1 (), .run 1, .run 1, .run 1, .run 1, .run 1, .unlockTable,
   .call 0 (), .run 0, .run 0, .run 0, .run 0, .run 0, .run 0, .run 0]

/-- After that the lock is free, nobody is about to call `wakeup`, and nobody sleeps. -/
theorem no_lost_wakeup_contended :
    ∃ s, Run (Steps sleeplock) start contended s ∧ s.shared.locked = false ∧
      (∀ p, ¬ (s.ctl p).Owes (Announces (fun l => l = .announce) ()) ()) ∧
      ¬ ∃ q l, s.ctl q = .asleep () l := by
  obtain ⟨s, hs⟩ : ∃ s, contended.foldlM (fun s l => (step sleeplock l s).toOption) start = some s :=
    ⟨_, rfl⟩
  have hrun : Run (Steps sleeplock) start contended s := Run.of_toOption hs
  have hcareful : Run (CarefulSteps sleeplock (Awaits (fun lk => lk.locked = false) ())
      (Announces (fun l => l = .announce) ())) start contended s :=
    hrun.mono fun s l _ hstep => ⟨hstep, sleeplock_careful s l⟩
  have hfree : s.shared.locked = false := by
    cases hs
    rfl
  have hnone : ∀ p, ¬ (s.ctl p).Owes (Announces (fun l => l = .announce) ()) () := by
    cases hs
    intro p
    -- Process 1 is runnable, and all others are idle.
    rcases p with _ | _ | p
    all_goals
      rintro (hwakes | ⟨-, hplace⟩)
      · exact hwakes
      · cases hplace
  refine ⟨s, hrun, hfree, hnone, fun hq => ?_⟩
  exact (no_lost_wakeup _ _ _ start_initial hcareful).1 ⟨hfree, hnone, hq⟩

end Sleeplock
end Sync
end Xv6
