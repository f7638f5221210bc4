import Mathlib.Data.Finset.Card
import Mathlib.Logic.Function.Basic
import Xv6.Lib.Run

/-!
# Interrupts and spin locks (`spinlock.c`, `proc.c`: `sched`, `scheduler`)

`acquire` turns interrupts off and `release` turns them on again, through `pushcli` and `popcli`: a
CPU counts in `ncli` how often they were turned off, and keeps in `intena` whether they were on before.
The count and the flag belong to the CPU, the nesting belongs to a thread that may leave the CPU in
`sched` and go on with another one.  `sched` carries `intena` over.

A step is taken by one CPU: by the code of the thread on it, or by its scheduler.  Any number of CPUs,
threads and locks take part, and the steps come in any order.

* `CpuOk` is what holds of a CPU at any moment, and `Ok.step` says that every step keeps it.
* `interrupts_follow_thread`: interrupts are off wherever a lock is held, and once a thread has released
  its last lock, they are as at its outermost `pushcli`.
-/

namespace Xv6
namespace Sync
namespace Interrupt

open Lib Function

/-- What a CPU executes. -/
inductive Ctx where
  /-- `scheduler`, before it acquires `ptable.lock`; or the handler of an interrupt that came there. -/
  | loop
  /-- `scheduler`, from its `acquire` on. -/
  | held
  /-- The kernel code of a thread, or the thread in user mode. -/
  | thread (p : Nat)
deriving DecidableEq

/-- Where a thread is. -/
inductive Thread where
  /-- It has not run yet, and will begin in `forkret`. -/
  | fresh
  | running (c : Nat)
  /-- It has left its CPU in `sched`; the flag is the local variable `intena`. -/
  | saved (intena : Bool)
deriving DecidableEq

structure Cpu (Lk : Type) where
  ncli : Nat
  intena : Bool
  /-- `FL_IF` of `%eflags`. -/
  iflag : Bool
  ctx : Ctx
  /-- The lock that `acquire` is waiting for. -/
  spin : Option Lk
  /-- The calls of `pushcli`, other than those of `acquire`, that have no `popcli` yet. -/
  pushed : Nat

structure Sys (Lk : Type) where
  cpu : Nat → Cpu Lk
  /-- `lk->cpu`, for a lock that is locked. -/
  owner : Lk → Option Nat
  thread : Nat → Thread
  /-- Whether interrupts were on when a thread called its outermost `pushcli`; for the record. -/
  outer : Nat → Option Bool

/-- Why a step is not taken. -/
inductive Stop where
  | panic (msg : String)
  | blocked
deriving DecidableEq

inductive Act (Lk : Type) where
  | pushcli
  | popcli
  /-- `acquire`, up to its loop. -/
  | acquire (lk : Lk)
  /-- `scheduler` calls `acquire(&ptable.lock)`. -/
  | scheduler
  /-- The `xchg` of `acquire` gets the lock. -/
  | xchg
  | release (lk : Lk)
  /-- A thread calls `sched`. -/
  | sched
  /-- `scheduler` switches to a thread. -/
  | dispatch (p : Nat)
  /-- `sti`, or the beginning or the end of an interrupt. -/
  | flag (b : Bool)

variable {Lk : Type}

def Cpu.pushcli (x : Cpu Lk) : Cpu Lk :=
  { x with iflag := false, intena := if x.ncli = 0 then x.iflag else x.intena, ncli := x.ncli + 1 }

def Cpu.popcli (x : Cpu Lk) : Except Stop (Cpu Lk) :=
  if x.iflag then
    .error (.panic "popcli - interruptible")
  else if x.ncli = 0 then
    .error (.panic "popcli")
  else
    .ok { x with ncli := x.ncli - 1, iflag := x.ncli = 1 && x.intena }

/-- The record of outermost calls after a `pushcli`. -/
def Sys.noteOuter (s : Sys Lk) (c : Nat) : Nat → Option Bool :=
  match (s.cpu c).ctx with
  | .thread p => if (s.cpu c).ncli = 0 then update s.outer p (some (s.cpu c).iflag) else s.outer
  | _ => s.outer

/-- `pushcli` on CPU `c`, where `f` is what happens besides. -/
def Sys.push (s : Sys Lk) (c : Nat) (f : Cpu Lk → Cpu Lk) : Sys Lk :=
  { s with cpu := update s.cpu c (f (s.cpu c).pushcli), outer := s.noteOuter c }

def Sys.set (s : Sys Lk) (c : Nat) (x : Cpu Lk) : Sys Lk := { s with cpu := update s.cpu c x }

section step

variable [DecidableEq Lk] (ptable : Lk)

/-- A step of CPU `c`.  A `popcli` of its own is called only to match a `pushcli`, and `scheduler`
acquires no other lock while it holds `ptable.lock`. -/
def step (c : Nat) (a : Act Lk) (s : Sys Lk) : Except Stop (Sys Lk) :=
  let x := s.cpu c
  match a with
  | .pushcli =>
    if x.spin = none then
      .ok (s.push c fun x => { x with pushed := x.pushed + 1 })
    else
      .error .blocked
  | .popcli =>
    if x.spin = none ∧ 0 < x.pushed then do
      let x ← x.popcli
      return s.set c { x with pushed := x.pushed - 1 }
    else
      .error .blocked
  | .acquire lk =>
    if x.spin = none ∧ x.ctx ≠ .held then
      if s.owner lk = some c then
        .error (.panic "acquire")
      else
        .ok (s.push c fun x => { x with spin := some lk })
    else
      .error .blocked
  | .scheduler =>
    if x.spin = none ∧ x.ctx = .loop ∧ x.ncli = 0 then
      if s.owner ptable = some c then
        .error (.panic "acquire")
      else
        .ok (s.push c fun x => { x with spin := some ptable, ctx := .held })
    else
      .error .blocked
  | .xchg =>
    match x.spin with
    | some lk =>
      if s.owner lk = none then
        .ok { s.set c { x with spin := none } with owner := update s.owner lk (some c) }
      else
        .error .blocked
    | none => .error .blocked
  | .release lk =>
    if x.spin = none ∧ (x.ctx = .held → lk = ptable) then
      if s.owner lk = some c then do
        let x ← x.popcli
        return { s.set c { x with ctx := if x.ctx = .held then .loop else x.ctx } with
          owner := update s.owner lk none }
      else
        .error (.panic "release")
    else
      .error .blocked
  | .sched =>
    match x.ctx with
    | .thread p =>
      if x.spin ≠ none then
        .error .blocked
      else if s.owner ptable ≠ some c then
        .error (.panic "sched ptable.lock")
      else if x.ncli ≠ 1 then
        .error (.panic "sched locks")
      else if x.iflag then
        .error (.panic "sched interruptible")
      else
        .ok { s.set c { x with ctx := .held } with
          thread := update s.thread p (.saved x.intena) }
    | _ => .error .blocked
  | .dispatch p =>
    if x.ctx = .held ∧ x.spin = none ∧ x.pushed = 0 then
      match s.thread p with
      | .fresh =>
        -- `forkret` releases a lock that the thread has not acquired
        .ok { s.set c { x with ctx := .thread p } with
          thread := update s.thread p (.running c)
          outer := update s.outer p none }
      | .saved intena =>
        .ok { s.set c { x with ctx := .thread p, intena := intena } with
          thread := update s.thread p (.running c) }
      | .running _ => .error .blocked
    else
      .error .blocked
  | .flag b => if x.ncli = 0 then .ok (s.set c { x with iflag := b }) else .error .blocked

/-- One step, by the CPU that the label names. -/
def Steps (s : Sys Lk) (l : Nat × Act Lk) (s' : Sys Lk) : Prop := step ptable l.1 l.2 s = .ok s'

end step

/-- All CPUs have entered `scheduler`. -/
def start : Sys Lk where
  cpu _ := ⟨0, false, false, .loop, none, 0⟩
  owner _ := none
  thread _ := .fresh
  outer _ := none

/-! ## The invariant -/

/-- One `pushcli` for each lock that is held or waited for. -/
def Cpu.Counts (x : Cpu Lk) (held : Finset Lk) : Prop :=
  x.ncli = x.pushed + held.card + if x.spin = none then 0 else 1

/-- What holds of CPU `c`. -/
structure CpuOk (c : Nat) (x : Cpu Lk) (owner : Lk → Option Nat) (thread : Nat → Thread)
    (outer : Nat → Option Bool) : Prop where
  off : 0 < x.ncli → x.iflag = false
  count : ∃ held : Finset Lk, (∀ lk, lk ∈ held ↔ owner lk = some c) ∧ x.Counts held
  running : ∀ p, x.ctx = .thread p → thread p = .running c
  intena : ∀ p b, x.ctx = .thread p → outer p = some b → 0 < x.ncli → x.intena = b

/-- The invariant: besides, a thread that has left its CPU has taken along what it needs. -/
structure Ok (s : Sys Lk) : Prop where
  cpus : ∀ c, CpuOk c (s.cpu c) s.owner s.thread s.outer
  saved : ∀ p intena b, s.thread p = .saved intena → s.outer p = some b → intena = b

theorem start_ok : Ok (start : Sys Lk) where
  cpus _ := ⟨fun _ => rfl, ⟨∅, fun _ => ⟨nofun, nofun⟩, rfl⟩, nofun, nofun⟩
  saved _ _ _ := nofun

section kept

variable {s s' : Sys Lk} {c : Nat} {x y : Cpu Lk}

/-- A step of CPU `c` keeps the invariant if it does so there, and leaves alone the locks of the
others and the threads on them. -/
theorem Ok.of_cpu (h : Ok s) (hcpu : s'.cpu = update s.cpu c x)
    (hc : CpuOk c x s'.owner s'.thread s'.outer)
    (howner : ∀ lk j, j ≠ c → (s'.owner lk = some j ↔ s.owner lk = some j))
    (hthread : ∀ p j, j ≠ c → s.thread p = .running j →
      s'.thread p = .running j ∧ s'.outer p = s.outer p)
    (hsaved : ∀ p intena b, s'.thread p = .saved intena → s'.outer p = some b → intena = b) : Ok s' := by
  refine ⟨fun j => ?_, hsaved⟩
  rw [hcpu]
  by_cases hj : j = c
  · rw [hj, update_self]
    exact hc
  · rw [update_of_ne hj]
    obtain ⟨hoff, ⟨held, hmem, hcount⟩, hrun, hintena⟩ := h.cpus j
    refine ⟨hoff, ⟨held, fun lk => (hmem lk).trans (howner lk j hj).symm, hcount⟩, ?_, ?_⟩
    · intro p hp
      exact (hthread p j hj (hrun p hp)).1
    · intro p b hp hb
      rw [(hthread p j hj (hrun p hp)).2] at hb
      exact hintena p b hp hb

/-- Only the CPU changes. -/
theorem Ok.set (h : Ok s) (hc : CpuOk c x s.owner s.thread s.outer) : Ok (s.set c x) :=
  h.of_cpu rfl hc (fun _ _ _ => Iff.rfl) (fun _ _ _ h => ⟨h, rfl⟩) h.saved

/-- The note is about the thread that runs. -/
theorem noteOuter_of_ne (h : Ok s) {p : Nat} (hp : s.thread p ≠ .running c) :
    s.noteOuter c p = s.outer p := by
  unfold Sys.noteOuter
  cases hctx : (s.cpu c).ctx with
  | loop => rfl
  | held => rfl
  | thread q =>
    have hne : p ≠ q := by
      rintro rfl
      exact hp ((h.cpus c).running p hctx)
    dsimp only
    split_ifs
    · exact update_of_ne hne ..
    · rfl

/-- A thread comes to the CPU or leaves it. -/
theorem Ok.move (h : Ok s) {p : Nat} {t : Thread} {outer : Nat → Option Bool}
    (hfree : ∀ j, j ≠ c → s.thread p ≠ .running j) (houter : ∀ q, q ≠ p → outer q = s.outer q)
    (hc : CpuOk c x s.owner (update s.thread p t) outer)
    (ht : ∀ intena b, t = .saved intena → outer p = some b → intena = b) :
    Ok { s.set c x with thread := update s.thread p t, outer := outer } := by
  refine h.of_cpu rfl hc (fun _ _ _ => Iff.rfl) ?_ ?_
  · intro q j hj hq
    have hne : q ≠ p := by
      rintro rfl
      exact hfree j hj hq
    refine ⟨?_, houter q hne⟩
    show update s.thread p t q = _
    rw [update_of_ne hne]
    exact hq
  · intro q intena b hq hb
    have hq : update s.thread p t q = .saved intena := hq
    have hb : outer q = some b := hb
    by_cases hqp : q = p
    · rw [hqp, update_self] at hq
      exact ht intena b hq (hqp ▸ hb)
    · rw [update_of_ne hqp] at hq
      rw [houter q hqp] at hb
      exact h.saved q intena b hq hb

/-- A `pushcli`, in `acquire` or by itself. -/
theorem Ok.push (h : Ok s) {f : Cpu Lk → Cpu Lk} (hx : f (s.cpu c).pushcli = x)
    (hiflag : x.iflag = false)
    (hintena : x.intena = (s.cpu c).pushcli.intena)
    (hctx : ∀ p, x.ctx = .thread p → (s.cpu c).ctx = .thread p)
    (hcount : ∀ held, (s.cpu c).Counts held → x.Counts held) : Ok (s.push c f) := by
  obtain ⟨hoff, ⟨held, hmem, hcnt⟩, hrun, hint⟩ := h.cpus c
  refine h.of_cpu (x := x) (by rw [← hx]; rfl) ⟨fun _ => hiflag, ⟨held, hmem, hcount held hcnt⟩, ?_, ?_⟩
    (fun _ _ _ => Iff.rfl) ?_ ?_
  · intro p hp
    exact hrun p (hctx p hp)
  · intro p b hp hb _
    have hp := hctx p hp
    have hnote : s.noteOuter c p = some b := hb
    unfold Sys.noteOuter at hnote
    rw [hp] at hnote
    rw [hintena]
    show (if (s.cpu c).ncli = 0 then _ else _) = b
    dsimp only at hnote
    split_ifs at hnote ⊢ with hzero
    · rw [update_self] at hnote
      exact Option.some.inj hnote
    · exact hint p b hp hnote (Nat.pos_of_ne_zero hzero)
  · intro p j hj hp
    refine ⟨hp, noteOuter_of_ne h ?_⟩
    rw [hp]
    exact fun heq => hj (Thread.running.inj heq)
  · intro p intena b hp hb
    have hthread : s.thread p = .saved intena := hp
    have hnote : s.noteOuter c p = some b := hb
    rw [noteOuter_of_ne h (by rw [hthread]; nofun)] at hnote
    exact h.saved p intena b hthread hnote

theorem bind_eq_ok {α β : Type} {m : Except Stop α} {f : α → Except Stop β} {b : β}
    (h : (m >>= f) = .ok b) : ∃ a, m = .ok a ∧ f a = .ok b := by
  cases m with
  | error e => cases h
  | ok a => exact ⟨a, rfl, h⟩

theorem popcli_ok (h : x.popcli = .ok y) : 0 < x.ncli ∧
    y = { x with ncli := x.ncli - 1, iflag := x.ncli = 1 && x.intena } := by
  unfold Cpu.popcli at h
  split_ifs at h with hiflag hzero
  exact ⟨Nat.pos_of_ne_zero hzero, (Except.ok.inj h).symm⟩

/-- `popcli`, where the lock or the call that it matches is accounted for. -/
theorem CpuOk.popcli {x y z : Cpu Lk} {owner owner' : Lk → Option Nat} {thread : Nat → Thread}
    {outer : Nat → Option Bool} (h : CpuOk c x owner thread outer) (hpop : x.popcli = .ok y)
    (hz : z.ncli = y.ncli ∧ z.iflag = y.iflag ∧ z.intena = y.intena)
    (hctx : ∀ p, z.ctx = .thread p → x.ctx = .thread p)
    (hcount : ∃ held : Finset Lk, (∀ lk, lk ∈ held ↔ owner' lk = some c) ∧ z.Counts held) :
    CpuOk c z owner' thread outer := by
  obtain ⟨hpos, rfl⟩ := popcli_ok hpop
  obtain ⟨hncli, hiflag, hint⟩ := hz
  dsimp only at hncli hiflag hint
  refine ⟨?_, hcount, fun p hp => h.running p (hctx p hp), ?_⟩
  · intro hleft
    rw [hiflag, decide_eq_false (by omega), Bool.false_and]
  · intro p b hp hb _
    rw [hint]
    exact h.intena p b (hctx p hp) hb hpos

end kept

section run

variable [DecidableEq Lk] {ptable : Lk} {s s' : Sys Lk} {c : Nat} {a : Act Lk}

theorem Ok.step (h : Ok s) (hstep : step ptable c a s = .ok s') : Ok s' := by
  obtain ⟨held, hmem, hcount⟩ := (h.cpus c).count
  unfold Cpu.Counts at hcount
  unfold Interrupt.step at hstep
  cases a with
  | pushcli =>
    dsimp only at hstep
    split_ifs at hstep with hspin
    cases hstep
    refine h.push rfl rfl rfl (fun _ h => h) fun held hcnt => ?_
    unfold Cpu.Counts Cpu.pushcli at *
    dsimp only
    omega
  | popcli =>
    dsimp only at hstep
    split_ifs at hstep with hguard
    obtain ⟨y, hpop, hstep⟩ := bind_eq_ok hstep
    cases hstep
    obtain ⟨hpos, hy⟩ := popcli_ok hpop
    refine h.set ((h.cpus c).popcli hpop ⟨rfl, rfl, rfl⟩ ?_ ⟨held, hmem, ?_⟩)
    · rw [hy]
      exact fun p hp => hp
    · rw [hy]
      unfold Cpu.Counts
      dsimp only
      omega
  | acquire lk =>
    dsimp only at hstep
    split_ifs at hstep with hfree hown
    cases hstep
    refine h.push rfl rfl rfl (fun _ h => h) fun held hcnt => ?_
    unfold Cpu.Counts Cpu.pushcli at *
    dsimp only
    rw [if_pos hfree.1] at hcnt
    rw [if_neg (Option.some_ne_none _)]
    omega
  | scheduler =>
    dsimp only at hstep
    split_ifs at hstep with hfree hown
    cases hstep
    refine h.push rfl rfl rfl nofun fun held hcnt => ?_
    unfold Cpu.Counts Cpu.pushcli at *
    dsimp only
    rw [if_pos hfree.1] at hcnt
    rw [if_neg (Option.some_ne_none _)]
    omega
  | xchg =>
    dsimp only at hstep
    cases hspin : (s.cpu c).spin with
    | none =>
      rw [hspin] at hstep
      cases hstep
    | some lk =>
      rw [hspin] at hstep
      dsimp only at hstep
      split_ifs at hstep with hfree
      cases hstep
      have hnew : lk ∉ held := by
        rw [hmem, hfree]
        nofun
      refine h.of_cpu rfl ⟨(h.cpus c).off, ⟨insert lk held, ?_, ?_⟩, (h.cpus c).running,
        (h.cpus c).intena⟩ ?_ (fun _ _ _ h => ⟨h, rfl⟩) h.saved
      · intro k
        show _ ↔ update s.owner lk (some c) k = some c
        by_cases hk : k = lk
        · simp [hk]
        · rw [Finset.mem_insert, update_of_ne hk, hmem]
          exact or_iff_right hk
      · unfold Cpu.Counts
        rw [hspin, if_neg (Option.some_ne_none _)] at hcount
        rw [Finset.card_insert_of_notMem hnew]
        dsimp only
        rw [if_pos rfl]
        omega
      · intro k j hj
        show update s.owner lk (some c) k = some j ↔ _
        by_cases hk : k = lk
        · rw [hk, update_self, hfree]
          exact iff_of_false (fun h => hj (Option.some.inj h).symm) nofun
        · rw [update_of_ne hk]
  | release lk =>
    dsimp only at hstep
    split_ifs at hstep with hfree hown
    obtain ⟨y, hpop, hstep⟩ := bind_eq_ok hstep
    cases hstep
    obtain ⟨hpos, hy⟩ := popcli_ok hpop
    have hin : lk ∈ held := (hmem lk).mpr hown
    refine h.of_cpu rfl ((h.cpus c).popcli hpop ⟨rfl, rfl, rfl⟩ ?_ ⟨held.erase lk, ?_, ?_⟩) ?_
      (fun _ _ _ h => ⟨h, rfl⟩) h.saved
    · intro p hp
      rw [hy] at hp
      dsimp only at hp
      split_ifs at hp
      exact hp
    · intro k
      show _ ↔ update s.owner lk none k = some c
      by_cases hk : k = lk
      · simp [hk]
      · rw [Finset.mem_erase, update_of_ne hk, hmem]
        exact and_iff_right hk
    · have hcard := Finset.card_erase_add_one hin
      rw [hy]
      unfold Cpu.Counts
      dsimp only
      omega
    · intro k j hj
      show update s.owner lk none k = some j ↔ _
      by_cases hk : k = lk
      · rw [hk, update_self, hown]
        exact iff_of_false nofun (fun h => hj (Option.some.inj h).symm)
      · rw [update_of_ne hk]
  | sched =>
    dsimp only at hstep
    cases hctx : (s.cpu c).ctx with
    | loop =>
      rw [hctx] at hstep
      cases hstep
    | held =>
      rw [hctx] at hstep
      cases hstep
    | thread p =>
      rw [hctx] at hstep
      dsimp only at hstep
      split_ifs at hstep with hspin hown hncli hiflag
      cases hstep
      refine h.move ?_ (fun _ _ => rfl) ⟨(h.cpus c).off, ⟨held, hmem, hcount⟩, nofun, nofun⟩ ?_
      · intro j hj heq
        rw [(h.cpus c).running p hctx] at heq
        exact hj (Thread.running.inj heq).symm
      · rintro _ b ⟨⟩ hb
        exact (h.cpus c).intena p b hctx hb (by omega)
  | dispatch p =>
    dsimp only at hstep
    split_ifs at hstep with hguard
    have hrunning : ∀ q, Ctx.thread p = .thread q →
        update s.thread p (.running c) q = .running c := by
      rintro _ ⟨⟩
      exact update_self ..
    cases hthread : s.thread p with
    | running j =>
      rw [hthread] at hstep
      cases hstep
    | fresh =>
      rw [hthread] at hstep
      cases hstep
      refine h.move (by rw [hthread]; nofun) (fun q hq => update_of_ne hq ..)
        ⟨(h.cpus c).off, ⟨held, hmem, hcount⟩, hrunning, ?_⟩ nofun
      rintro _ b ⟨⟩ hb
      rw [update_self] at hb
      cases hb
    | saved intena =>
      rw [hthread] at hstep
      cases hstep
      refine h.move (by rw [hthread]; nofun) (fun _ _ => rfl)
        ⟨(h.cpus c).off, ⟨held, hmem, hcount⟩, hrunning, ?_⟩ nofun
      rintro _ b ⟨⟩ hb _
      exact h.saved p intena b hthread hb
  | flag b =>
    dsimp only at hstep
    split_ifs at hstep with hzero
    cases hstep
    refine h.set ⟨fun hpos => absurd hpos ?_, ⟨held, hmem, hcount⟩, (h.cpus c).running,
      (h.cpus c).intena⟩
    dsimp only
    omega

/-- What brings `ncli` down to 0 is a `popcli`, and `intena` decides what it does. -/
theorem iflag_of_last (hstep : step ptable c a s = .ok s') (hpos : 0 < (s.cpu c).ncli)
    (hzero : (s'.cpu c).ncli = 0) : (s'.cpu c).iflag = (s.cpu c).intena := by
  have hpop : ∀ y, (s.cpu c).popcli = .ok y → y.ncli = 0 → y.iflag = (s.cpu c).intena := by
    intro y hpop hy
    obtain ⟨-, rfl⟩ := popcli_ok hpop
    dsimp only at hy ⊢
    rw [decide_eq_true (by omega), Bool.true_and]
  -- the other steps leave `ncli` as it is, or add to it
  have hset : ∀ x owner thread outer, s' = { cpu := update s.cpu c x, owner, thread, outer } →
      x.ncli ≠ 0 → (s'.cpu c).iflag = (s.cpu c).intena := by
    rintro x owner thread outer rfl hx
    dsimp only at hzero
    rw [update_self] at hzero
    exact absurd hzero hx
  unfold Interrupt.step at hstep
  cases a with
  | pushcli =>
    dsimp only at hstep
    split_ifs at hstep
    exact hset _ _ _ _ (Except.ok.inj hstep).symm (Nat.succ_ne_zero _)
  | popcli =>
    dsimp only at hstep
    split_ifs at hstep
    obtain ⟨y, hy, hstep⟩ := bind_eq_ok hstep
    cases hstep
    simp only [Sys.set, update_self] at hzero ⊢
    exact hpop y hy hzero
  | acquire lk =>
    dsimp only at hstep
    split_ifs at hstep
    exact hset _ _ _ _ (Except.ok.inj hstep).symm (Nat.succ_ne_zero _)
  | scheduler =>
    dsimp only at hstep
    split_ifs at hstep
    exact hset _ _ _ _ (Except.ok.inj hstep).symm (Nat.succ_ne_zero _)
  | xchg =>
    dsimp only at hstep
    split at hstep
    · split_ifs at hstep
      exact hset _ _ _ _ (Except.ok.inj hstep).symm (Nat.ne_of_gt hpos)
    · cases hstep
  | release lk =>
    dsimp only at hstep
    split_ifs at hstep
    obtain ⟨y, hy, hstep⟩ := bind_eq_ok hstep
    cases hstep
    simp only [Sys.set, update_self] at hzero ⊢
    exact hpop y hy hzero
  | sched =>
    dsimp only at hstep
    split at hstep
    · split_ifs at hstep
      exact hset _ _ _ _ (Except.ok.inj hstep).symm (Nat.ne_of_gt hpos)
    · cases hstep
  | dispatch q =>
    dsimp only at hstep
    split_ifs at hstep
    split at hstep
    · exact hset _ _ _ _ (Except.ok.inj hstep).symm (Nat.ne_of_gt hpos)
    · exact hset _ _ _ _ (Except.ok.inj hstep).symm (Nat.ne_of_gt hpos)
    · cases hstep
  | flag b =>
    dsimp only at hstep
    split_ifs at hstep
    omega

/-- At any moment of any run, interrupts are off on a CPU that holds a lock; and when a thread gives up
the last reason to have them off, they are as they were at its outermost `pushcli`. -/
theorem interrupts_follow_thread {ls : List (Nat × Act Lk)} (hrun : Run (Steps ptable) start ls s) :
    (∀ c lk, s.owner lk = some c → (s.cpu c).iflag = false) ∧
    ∀ c p a s' b, (s.cpu c).ctx = .thread p → step ptable c a s = .ok s' → 0 < (s.cpu c).ncli →
      (s'.cpu c).ncli = 0 → s.outer p = some b → (s'.cpu c).iflag = b := by
  have hok : Ok s := hrun.invariant start_ok fun _ _ _ h hstep => h.step hstep
  constructor
  · intro c lk hown
    obtain ⟨held, hmem, hcount⟩ := (hok.cpus c).count
    have hcard := Finset.card_pos.mpr ⟨lk, (hmem lk).mpr hown⟩
    unfold Cpu.Counts at hcount
    exact (hok.cpus c).off (by omega)
  · intro c p a s' b hctx hstep hpos hzero hb
    rw [iflag_of_last hstep hpos hzero]
    exact (hok.cpus c).intena p b hctx hb hpos

end run

/-! ## A thread that goes on with another CPU -/

/-- Thread 0 acquires lock 1 on CPU 0 with interrupts on, and sleeps; CPU 1 resumes it after thread 1,
which had interrupts off, has run there. -/
def migrates : List (Nat × Act Nat) :=
  [(0, .scheduler), (0, .xchg), (0, .dispatch 0), (0, .release 0), (0, .flag true),
    (0, .acquire 1), (0, .xchg), (0, .acquire 0), (0, .xchg), (0, .release 1), (0, .sched), (0, .release 0),
    (1, .scheduler), (1, .xchg), (1, .dispatch 1), (1, .release 0), (1, .flag false), (1, .acquire 0),
    (1, .xchg), (1, .sched), (1, .dispatch 0)]

theorem interrupts_follow_thread_migrates :
    ∃ s s', Run (Steps 0) start migrates s ∧ s.outer 0 = some true ∧ (s.cpu 1).iflag = false ∧
      step 0 1 (.release 0) s = .ok s' ∧ (s'.cpu 1).iflag = true := by
  have hpass : Run.passes (fun l s => step 0 l.1 l.2 s) migrates start (fun s =>
      decide ((s.cpu 1).ctx = .thread 0 ∧ s.outer 0 = some true ∧ s.owner 0 = some 1 ∧
        (s.cpu 1).ncli = 1 ∧ (s.cpu 1).spin = none)) = true := by
    decide +kernel
  obtain ⟨s, hpassed, htest⟩ := Run.exists_of_passes hpass
  have hrun : Run (Steps 0) start migrates s := hpassed
  obtain ⟨hctx, houter, hown, hncli, hspin⟩ := of_decide_eq_true htest
  obtain ⟨hoff, hback⟩ := interrupts_follow_thread hrun
  have hiflag := hoff 1 0 hown
  obtain ⟨s', hstep, hzero⟩ : ∃ s', step 0 1 (.release 0) s = .ok s' ∧ (s'.cpu 1).ncli = 0 := by
    simp [step, Cpu.popcli, Sys.set, hspin, hown, hiflag, hncli, bind, Except.bind, pure, Except.pure]
  exact ⟨s, s', hrun, houter, hiflag, hstep, hback 1 0 _ s' true hctx hstep (by omega) hzero houter⟩

end Interrupt
end Sync
end Xv6
