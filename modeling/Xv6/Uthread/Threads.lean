import Xv6.Lib.Run
import Xv6.Uthread.Switch

/-!
# Cooperative threads

Runs of a program with threads.  The thread that runs computes, creates threads, and calls
`thread_schedule`, which goes to another thread by `thread_switch`; before such a call it may
set itself FREE or, in `uthread2.c`, WAIT.  It writes its own stack and memory that has nothing
to do with the threads, and does not overflow its stack.

The history `ctx` says how each thread is meant to go on: a new one at its function, one that
has been left behind the call of `thread_switch` that left it, with the registers of the call.
-/

namespace Xv6
namespace Uthread
namespace Threads

open Function

open Lib X86

/-- How a thread is meant to go on. -/
inductive Ctx where
  /-- A thread that has not run yet. -/
  | entry (func : Nat)
  /-- A thread that is in `thread_switch`: its registers and the address behind the call. -/
  | call (reg : Reg → Nat) (eip : Nat)

/-- The machine, with the history. -/
structure State where
  m : Machine
  ctx : Nat → Option Ctx
  /-- The current thread has set its own state and is about to call `thread_schedule`. -/
  leaving : Bool

variable {g : Image} {s s' : State} {mem mem' : Nat → Nat} {t a : Nat}

/-- The process after `thread_init`. -/
def start (g : Image) (m : Machine) : State :=
  ⟨{ m with mem := g.threadInit m.mem }, fun _ => none, false⟩

/-- The words that thread `t` may write. -/
def Writes (g : Image) (t a : Nat) : Prop :=
  g.stackLo t ≤ a ∧ a < g.stackHi t ∨
    ¬ (g.allThread ≤ a ∧ a < g.arrayEnd) ∧ a ≠ g.currentThread ∧ a ≠ g.nextThread ∧
      ¬ (g.mainStack ≤ a ∧ a < g.mainTop)

instance (g : Image) (t a : Nat) : Decidable (Writes g t a) :=
  inferInstanceAs (Decidable (_ ∨ _))

/-- The stack has room for the frame of `pushal`, below the return address. -/
def Room (g : Image) (s : State) : Prop :=
  g.stackLo (g.current s.m.mem) + 32 ≤ s.m.reg .esp ∧
    s.m.reg .esp + 4 ≤ g.stackHi (g.current s.m.mem) ∧ 4 ∣ s.m.reg .esp

instance (g : Image) (s : State) : Decidable (Room g s) :=
  inferInstanceAs (Decidable (_ ∧ _))

/-- What the thread that runs does next. -/
inductive Label where
  /-- Its own code, up to the next of the others. -/
  | compute (reg : Reg → Nat) (eip : Nat) (writes : List (Nat × Nat))
  | create (func : Nat)
  /-- `thread_schedule`, with the registers and the stack it has where it calls
  `thread_switch`. -/
  | schedule
  /-- `current_thread->state = FREE`. -/
  | exit
  /-- `current_thread->state = WAIT`, in `thread_join_all`. -/
  | wait
  /-- A thread in WAIT becomes RUNNABLE, when a child of it exits. -/
  | wake (t : Nat)

/-- Assignments, in order. -/
def assign (mem : Nat → Nat) (writes : List (Nat × Nat)) : Nat → Nat :=
  writes.foldl (fun mem w => update mem w.1 w.2) mem

/-- The current thread computes. -/
def compute (reg : Reg → Nat) (eip : Nat) (writes : List (Nat × Nat)) (s : State) : State where
  m := ⟨reg, eip, assign s.m.mem writes⟩
  ctx := s.ctx
  leaving := s.leaving

/-- The current thread sets its own state, on its way into `thread_schedule`. -/
def leave (g : Image) (v : ThreadState) (s : State) : State :=
  { s with m.mem := g.setState (g.current s.m.mem) v s.m.mem, leaving := true }

/-- `thread_create`. -/
def create (g : Image) (func : Nat) (s : State) : State where
  m := { s.m with mem := g.threadCreate func s.m.mem }
  ctx :=
    match g.program.firstFree (g.state s.m.mem) with
    | some t => update s.ctx t (some (.entry func))
    | none => s.ctx
  leaving := s.leaving

/-- `thread_schedule` where it switches. -/
def switch (g : Image) (next : Nat) (s : State) : State where
  m := run g.threadSwitch (g.atSwitch next s.m)
  ctx := update s.ctx (g.current s.m.mem) (some
    (.call (update s.m.reg .esp (s.m.reg .esp + 4)) (s.m.mem (s.m.reg .esp))))
  leaving := false

/-- One step; there is none where the program exits, or where the thread does what no thread
does. -/
def step (g : Image) : Label → State → Option State
  | .compute reg eip writes, s =>
    if ∀ w ∈ writes, Writes g (g.current s.m.mem) w.1 then
      some (compute reg eip writes s)
    else none
  | .create func, s => if s.leaving then none else some (create g func s)
  | .schedule, s =>
    if Room g s then
      match g.program.findNext (g.state s.m.mem) (g.current s.m.mem) with
      | none => none
      | some next =>
        if g.current s.m.mem ≠ next then some (switch g next s)
        else some { s with
          m.mem := update s.m.mem g.nextThread 0
          leaving := false }
    else none
  | .exit, s =>
    -- the main thread leaves by ending the process
    if s.leaving ∨ g.current s.m.mem = 0 then none else some (leave g .free s)
  | .wait, s => if s.leaving ∨ g.program ≠ .uthread2 then none else some (leave g .wait s)
  | .wake t, s =>
    if t < g.program.maxThread ∧ g.state s.m.mem t = .wait then
      some { s with m.mem := g.setState t .runnable s.m.mem }
    else none

/-- The step leads from `s` to `s'`. -/
def Steps (g : Image) (s : State) (l : Label) (s' : State) : Prop :=
  step g l s = some s'

/-- Everything a step can do. -/
inductive Did (g : Image) (s : State) : Label → State → Prop
  | compute {reg : Reg → Nat} {eip : Nat} {writes : List (Nat × Nat)}
      (hw : ∀ w ∈ writes, Writes g (g.current s.m.mem) w.1) :
      Did g s (.compute reg eip writes) (compute reg eip writes s)
  | create {func t : Nat} (hl : s.leaving = false)
      (hfirst : g.program.firstFree (g.state s.m.mem) = some t) :
      Did g s (.create func)
        ⟨{ s.m with mem := g.initThread t func s.m.mem },
          update s.ctx t (some (.entry func)), s.leaving⟩
  | full {func : Nat} (hp : g.program ≠ .uthread2) : Did g s (.create func) s
  | past {func : Nat} (hp : g.program = .uthread2)
      (hfirst : g.program.firstFree (g.state s.m.mem) = none) :
      Did g s (.create func) (create g func s)
  | switch {next : Nat} (hroom : Room g s)
      (hnext : g.program.findNext (g.state s.m.mem) (g.current s.m.mem) = some next)
      (hne : next ≠ g.current s.m.mem) : Did g s .schedule (switch g next s)
  | stay (hnext : g.program.findNext (g.state s.m.mem) (g.current s.m.mem) =
      some (g.current s.m.mem)) :
      Did g s .schedule
        { s with m.mem := update s.m.mem g.nextThread 0, leaving := false }
  | leave {l : Label} {v : ThreadState} (hl : l = .exit ∨ l = .wait)
      (hv : v = .free → g.current s.m.mem ≠ 0) : Did g s l (leave g v s)
  | wake {t : Nat} (ht : t < g.program.maxThread) (hwait : g.state s.m.mem t = .wait) :
      Did g s (.wake t) { s with m.mem := g.setState t .runnable s.m.mem }

variable {l : Label}

theorem step_did (h : Steps g s l s') : Did g s l s' := by
  unfold Steps at h
  cases l with
  | compute reg eip writes =>
    obtain ⟨hw, ⟨⟩⟩ := Option.ite_none_right_eq_some.mp h
    exact .compute hw
  | create func =>
    have h : (if s.leaving then none else some (Threads.create g func s)) = some s' := h
    obtain ⟨hl, ⟨⟩⟩ := Option.ite_none_left_eq_some.mp h
    cases hfirst : g.program.firstFree (g.state s.m.mem) with
    | none =>
      by_cases hp : g.program = .uthread2
      · exact .past hp hfirst
      · have hcreate : Threads.create g func s = s := by
          simp only [Threads.create, Image.threadCreate, hfirst, if_neg hp]
        rw [hcreate]
        exact .full hp
    | some t =>
      have hcreate : Threads.create g func s = ⟨{ s.m with mem := g.initThread t func s.m.mem },
            update s.ctx t (some (.entry func)), s.leaving⟩ := by
        simp only [Threads.create, Image.threadCreate, hfirst]
      rw [hcreate]
      exact .create (by simpa using hl) hfirst
  | schedule =>
    unfold step at h
    dsimp only at h
    split at h
    · next hroom =>
      split at h
      · cases h
      · next next hnext =>
        split at h
        · next hne =>
          cases h
          exact .switch hroom hnext (Ne.symm hne)
        · next heq =>
          cases h
          rw [not_not] at heq
          exact .stay (hnext.trans (congrArg some heq.symm))
    · cases h
  | exit =>
    have h : (if s.leaving ∨ g.current s.m.mem = 0 then none else some (Threads.leave g .free s)) =
        some s' := h
    obtain ⟨hl, ⟨⟩⟩ := Option.ite_none_left_eq_some.mp h
    exact .leave (.inl rfl) fun _ h0 => hl (.inr h0)
  | wait =>
    have h : (if s.leaving ∨ g.program ≠ .uthread2 then none
        else some (Threads.leave g .wait s)) = some s' := h
    obtain ⟨_, ⟨⟩⟩ := Option.ite_none_left_eq_some.mp h
    exact .leave (.inr rfl) nofun
  | wake t =>
    obtain ⟨hw, ⟨⟩⟩ := Option.ite_none_right_eq_some.mp h
    exact .wake hw.1 hw.2

/-! ## What the threads rely on -/

/-- Thread `t` goes on as it is meant to. -/
def Ctx.GoesOn (g : Image) (t : Nat) (m : Machine) : Ctx → Prop
  | .entry func => m.eip = func ∧ m.reg .esp = g.stackTop t
  | .call reg eip => m.reg = reg ∧ m.eip = eip

/-- `thread_switch` goes to a thread that goes on as it is meant to, with an aligned stack;
and of the array it changes the field `sp` of the thread it leaves, and the words that `pushal`
puts on the stack of that thread. -/
def Preserves (g : Image) (s : State) (l : Label) (s' : State) : Prop :=
  l = .schedule → ∀ next, g.program.findNext (g.state s.m.mem) (g.current s.m.mem) = some next →
    next ≠ g.current s.m.mem →
    (∃ k, s.ctx next = some k ∧ k.GoesOn g next s'.m ∧ 4 ∣ s'.m.reg .esp) ∧
    ∀ a, g.allThread ≤ a → a < g.arrayEnd → s'.m.mem a ≠ (g.atSwitch next s.m).mem a →
      a = g.thread (g.current s.m.mem) + g.layout.sp ∨ s.m.reg .esp - 32 ≤ a ∧ a < s.m.reg .esp

/-- In `uthread2.c` a thread is created only where one is FREE. -/
def Label.Fits (g : Image) (s : State) : Label → Prop
  | .create _ => g.program = .uthread2 → g.program.firstFree (g.state s.m.mem) ≠ none
  | _ => True

/-- In `uthread3.c` nothing is safe that switches. -/
def Label.Safe (g : Image) (s : State) (l : Label) : Prop :=
  l.Fits g s ∧ (l = .schedule → g.program = .uthread3 → ∀ next,
      g.program.findNext (g.state s.m.mem) (g.current s.m.mem) = some next →
      next = g.current s.m.mem)

/-- Where a thread that does not run has the address of its frame: a new one in its `sp`, one
that has been left where `thread_switch` has put it. -/
def Ctx.spAt (g : Image) (t : Nat) : Ctx → Nat
  | .entry _ => g.thread t + g.layout.sp
  | .call _ _ => g.thread t

/-- A thread that does not run has its frame on its stack. -/
structure Saved (g : Image) (mem : Nat → Nat) (t : Nat) (k : Ctx) (sp : Nat) : Prop where
  sp_eq : mem (k.spAt g t) = sp
  lo : g.stackLo t ≤ sp
  hi : sp + 36 ≤ g.stackHi t
  aligned : 4 ∣ sp
  frame : match k with
    | .entry func => sp + 36 = g.stackTop t ∧ mem (sp + 32) = func
    | .call reg eip => reg .esp = sp + 36 ∧ (∀ r, r ≠ .esp → mem (sp + r.offset) = reg r) ∧
        mem (sp + 32) = eip

/-- What holds between any two steps. -/
structure Inv (g : Image) (s : State) : Prop where
  current : ∃ c < g.program.maxThread, s.m.mem g.currentThread = g.thread c
  main : g.state s.m.mem 0 ≠ .free
  live : s.leaving = false → g.state s.m.mem (g.current s.m.mem) ≠ .free
  saved : ∀ t < g.program.maxThread, t ≠ g.current s.m.mem → g.state s.m.mem t ≠ .free →
    ∃ k sp, s.ctx t = some k ∧ Saved g s.m.mem t k sp

theorem Ctx.own_spAt (k : Ctx) : g.Own t (k.spAt g t) := by
  cases k with
  | entry func => exact .inr (.inl rfl)
  | call reg eip => exact .inl rfl

/-- A frame depends on the thread's own words only. -/
theorem Saved.congr {k : Ctx} {sp : Nat} (h : Saved g mem t k sp)
    (hmem : ∀ a, g.Own t a → mem' a = mem a) : Saved g mem' t k sp := by
  have hlo := h.lo
  have hhi := h.hi
  have hframe (i : Nat) (hi : i < 36) : mem' (sp + i) = mem (sp + i) :=
    hmem _ (.inr (.inr (by omega)))
  refine ⟨?_, h.lo, h.hi, h.aligned, ?_⟩
  · rw [hmem _ k.own_spAt, h.sp_eq]
  · have hk := h.frame
    cases k with
    | entry func => exact ⟨hk.1, (hframe 32 (by omega)).trans hk.2⟩
    | call reg eip =>
      refine ⟨hk.1, fun r hr => ?_, (hframe 32 (by omega)).trans hk.2.2⟩
      have hoff := r.offset_lt
      exact (hframe _ (by omega)).trans (hk.2.1 r hr)

variable {c func next : Nat}

/-- A new thread has the frame that `thread_create` builds. -/
theorem Saved.init (ht0 : t ≠ 0) :
    Saved g (g.initThread t func mem) t (.entry func) (g.stackTop t - 36) := by
  have hl := Image.layout_spec g.program
  obtain ⟨hsp, hfunc⟩ := g.initThread_frame t func mem
  have htop : g.stackTop t = g.thread t + g.program.layout.stack + 8192 := rfl
  have hlo : g.stackLo t = g.thread t + g.program.layout.stack := if_neg ht0
  have hhi : g.stackHi t = g.stackTop t := if_neg ht0
  refine ⟨hsp, by omega, by omega, ?_, by omega, ?_⟩
  · have halign := g.aligned.1
    have hmul : 4 ∣ t * g.program.layout.size :=
      Nat.dvd_trans hl.2.2.2.2 (Nat.dvd_mul_left _ _)
    have hthread : g.thread t = g.allThread + t * g.program.layout.size := rfl
    omega
  · rw [← hfunc]
    congr 1

/-! ## Steps that leave the other threads alone -/

theorem Inv.lt (h : Inv g s) : g.current s.m.mem < g.program.maxThread := by
  obtain ⟨c, hc, hmem⟩ := h.current
  rwa [Image.current_eq hmem]

theorem Inv.mem_current (h : Inv g s) : s.m.mem g.currentThread = g.thread (g.current s.m.mem) := by
  obtain ⟨c, _, hmem⟩ := h.current
  rw [Image.current_eq hmem, hmem]

theorem current_congr (h : mem' g.currentThread = mem g.currentThread) :
    g.current mem' = g.current mem := by
  simp only [Image.current, h]

theorem state_congr (h : mem' (g.thread t + g.layout.state) = mem (g.thread t + g.layout.state)) :
    g.state mem' t = g.state mem t := by
  simp only [Image.state, h]

/-- A step after which the same thread runs, and the others have their frames or are FREE. -/
theorem Inv.of_same (h : Inv g s) (hcur : s'.m.mem g.currentThread = s.m.mem g.currentThread)
    (hmain : g.state s'.m.mem 0 ≠ .free)
    (hlive : s'.leaving = false → g.state s'.m.mem (g.current s.m.mem) ≠ .free)
    (hsaved : ∀ t < g.program.maxThread, t ≠ g.current s.m.mem → g.state s'.m.mem t ≠ .free →
      g.state s.m.mem t ≠ .free ∧ s'.ctx t = s.ctx t ∧
        ∀ a, g.Own t a → s'.m.mem a = s.m.mem a) : Inv g s' := by
  have hc := current_congr hcur
  obtain ⟨c, hlt, hmem⟩ := h.current
  refine ⟨⟨c, hlt, hcur.trans hmem⟩, hmain, ?_, ?_⟩
  · rw [hc]
    exact hlive
  · intro t ht htc hst
    rw [hc] at htc
    obtain ⟨hst', hctx, hown⟩ := hsaved t ht htc hst
    obtain ⟨k, sp, hk, hsv⟩ := h.saved t ht htc hst'
    exact ⟨k, sp, hctx.trans hk, hsv.congr hown⟩

variable {writes : List (Nat × Nat)}

theorem assign_of_not_mem (h : ∀ w ∈ writes, w.1 ≠ a) :
    assign mem writes a = mem a := by
  induction writes generalizing mem with
  | nil => rfl
  | cons w ws ih =>
    show assign (update mem w.1 w.2) ws a = mem a
    rw [ih fun w hw => h w (List.mem_cons_of_mem _ hw)]
    exact update_of_ne (h w List.mem_cons_self).symm _ _

/-- A thread writes neither the variables, nor a state, nor what another thread owns. -/
theorem Writes.ne (h : Writes g c a) (hc : c < g.program.maxThread) :
    a ≠ g.currentThread ∧ (∀ t < g.program.maxThread, a ≠ g.thread t + g.layout.state) ∧
      ∀ t < g.program.maxThread, t ≠ c → ¬ g.Own t a := by
  rcases h with hstack | ⟨harray, hcur, hnext, hmain⟩
  · have hown : g.Own c a := .inr (.inr hstack)
    exact ⟨hown.ne_current hc, fun t ht => hown.ne_state hc ht,
      fun t ht htc => hown.disjoint hc ht htc.symm⟩
  · refine ⟨hcur, fun t ht heq => ?_, fun t ht _ hown => ?_⟩
    · have hle := Image.thread_le ht
      have hlow := Image.allThread_le g t
      have hlt := g.state_lt_size
      omega
    · have hwhere := hown.where ht
      have hlow := Image.allThread_le g t
      omega

/-- The thread that runs computes. -/
theorem Inv.of_writes (h : Inv g s) (hctx : s'.ctx = s.ctx) (hl : s'.leaving = s.leaving)
    (hw : ∀ a, s'.m.mem a ≠ s.m.mem a → Writes g (g.current s.m.mem) a) : Inv g s' := by
  have hlt := h.lt
  have hsame (a : Nat) (ha : ¬ Writes g (g.current s.m.mem) a) : s'.m.mem a = s.m.mem a :=
    not_not.mp fun hne => ha (hw a hne)
  have hstate (t : Nat) (ht : t < g.program.maxThread) :
      g.state s'.m.mem t = g.state s.m.mem t :=
    state_congr (hsame _ fun hwr => (hwr.ne hlt).2.1 t ht rfl)
  apply h.of_same
  · exact hsame _ fun hwr => (hwr.ne hlt).1 rfl
  · rw [hstate 0 (by omega)]
    exact h.main
  · intro hl'
    rw [hstate _ hlt]
    exact h.live (hl ▸ hl')
  · intro t ht htc hst
    rw [hstate t ht] at hst
    exact ⟨hst, congrFun hctx t, fun a hown => hsame a fun hwr => (hwr.ne hlt).2.2 t ht htc hown⟩

theorem assign_writes (hw : ∀ w ∈ writes, Writes g c w.1)
    (h : assign mem writes a ≠ mem a) : Writes g c a := by
  by_contra hnot
  apply h
  apply assign_of_not_mem
  rintro w hmem rfl
  exact hnot (hw w hmem)

/-- `thread_schedule` lets the current thread go on. -/
theorem Inv.stay (h : Inv g s) (hlive : g.state s.m.mem (g.current s.m.mem) ≠ .free) :
    Inv g { s with m.mem := update s.m.mem g.nextThread 0, leaving := false } := by
  have hstate (t : Nat) (ht : t < g.program.maxThread) :
      g.state (update s.m.mem g.nextThread 0) t = g.state s.m.mem t :=
    state_congr (update_of_ne (Image.field_ne ht g.state_lt_size).2 _ _)
  have hlt := h.lt
  apply h.of_same
  · exact update_of_ne g.current_ne_next _ _
  · show g.state (update s.m.mem g.nextThread 0) 0 ≠ .free
    rw [hstate 0 (by omega)]
    exact h.main
  · intro _
    show g.state (update s.m.mem g.nextThread 0) _ ≠ .free
    rw [hstate _ hlt]
    exact hlive
  · intro t ht htc hst
    change g.state (update s.m.mem g.nextThread 0) t ≠ .free at hst
    rw [hstate t ht] at hst
    exact ⟨hst, rfl, fun a hown => update_of_ne (hown.ne_next ht) _ _⟩

/-- A state is set, to anything but FREE or for a thread that leaves. -/
theorem Inv.setState (h : Inv g s) {t : Nat} {v : ThreadState} {leaving : Bool}
    (ht : t < g.program.maxThread) (hmain : t = 0 → v ≠ .free)
    (hold : t ≠ g.current s.m.mem → g.state s.m.mem t ≠ .free)
    (hlive : leaving = false → v ≠ .free ∧ s.leaving = false) :
    Inv g { s with m.mem := g.setState t v s.m.mem, leaving := leaving } := by
  have hstate (u : Nat) : g.state (g.setState t v s.m.mem) u =
      update (g.state s.m.mem) t v u := congrFun (g.state_setState t v s.m.mem) u
  apply h.of_same
  · exact Image.setState_of_ne (Image.field_ne ht g.state_lt_size).1.symm
  · show g.state (g.setState t v s.m.mem) 0 ≠ .free
    rw [hstate]
    by_cases h0 : 0 = t
    · subst h0
      simpa using hmain rfl
    · rw [update_of_ne h0]
      exact h.main
  · intro hl
    show g.state (g.setState t v s.m.mem) _ ≠ .free
    rw [hstate]
    by_cases hc : g.current s.m.mem = t
    · rw [hc, update_self]
      exact (hlive hl).1
    · rw [update_of_ne hc]
      exact h.live (hlive hl).2
  · intro u hu huc hst
    refine ⟨?_, rfl, fun a hown => Image.setState_of_ne (hown.ne_state hu ht)⟩
    change g.state (g.setState t v s.m.mem) u ≠ .free at hst
    rw [hstate] at hst
    by_cases hut : u = t
    · subst hut
      exact hold huc
    · rwa [update_of_ne hut] at hst

/-- A thread is created. -/
theorem Inv.create (h : Inv g s) (hl : s.leaving = false)
    (hfirst : g.program.firstFree (g.state s.m.mem) = some t) :
    Inv g ⟨{ s.m with mem := g.initThread t func s.m.mem },
      update s.ctx t (some (.entry func)), s.leaving⟩ := by
  obtain ⟨ht, hfree⟩ := firstFree_spec hfirst
  have htc : t ≠ g.current s.m.mem := by
    rintro rfl
    exact h.live hl hfree
  have ht0 : t ≠ 0 := by
    rintro rfl
    exact h.main hfree
  have hstate (u : Nat) : g.state (g.initThread t func s.m.mem) u =
      update (g.state s.m.mem) t .runnable u :=
    congrFun (g.state_initThread t func s.m.mem) u
  have hcur : g.initThread t func s.m.mem g.currentThread = s.m.mem g.currentThread := by
    apply Image.initThread_of_out
    have hle := Image.thread_le ht
    have hlow := Image.allThread_le g t
    have hout := g.current_out
    simp only [Image.arrayEnd, Image.layout] at *
    omega
  have hc := current_congr hcur
  obtain ⟨c, hclt, hmem⟩ := h.current
  refine ⟨⟨c, hclt, hcur.trans hmem⟩, ?_, ?_, ?_⟩
  · rw [hstate, update_of_ne ht0.symm]
    exact h.main
  · intro _
    rw [hc, hstate, update_of_ne htc.symm]
    exact h.live hl
  · intro u hu huc hst
    rw [hc] at huc
    by_cases hut : u = t
    · subst hut
      exact ⟨_, _, update_self .., .init ht0⟩
    · rw [hstate, update_of_ne hut] at hst
      obtain ⟨k, sp, hk, hsv⟩ := h.saved u hu huc hst
      refine ⟨k, sp, (update_of_ne hut ..).trans hk, hsv.congr fun a hown => ?_⟩
      exact Image.initThread_of_out (hown.out_of_thread hu ht hut)

/-! ## The switch -/

section

variable {next : Nat}

/-- `thread_schedule` writes nothing that a thread owns. -/
theorem atSwitch_own (hc : g.current s.m.mem < g.program.maxThread)
    (hn : next < g.program.maxThread) (ht : t < g.program.maxThread) (hown : g.Own t a) :
    (g.atSwitch next s.m).mem a = s.m.mem a := by
  show g.handOver _ next _ a = s.m.mem a
  rw [Image.handOver_of_ne (hown.ne_state ht hc) (hown.ne_state ht hn)]
  exact update_of_ne (hown.ne_next ht) _ _

/-- The variables at the first instruction of `thread_switch`. -/
theorem atSwitch_vars (h : Inv g s) (hn : next < g.program.maxThread) :
    (g.atSwitch next s.m).mem g.currentThread = g.thread (g.current s.m.mem) ∧
      (g.atSwitch next s.m).mem g.nextThread = g.thread next := by
  have hc := Image.field_ne h.lt g.state_lt_size
  have hn' := Image.field_ne hn g.state_lt_size
  constructor
  · show g.handOver _ next _ _ = _
    rw [Image.handOver_of_ne hc.1.symm hn'.1.symm, update_of_ne g.current_ne_next]
    exact h.mem_current
  · show g.handOver _ next _ _ = _
    rw [Image.handOver_of_ne hc.2.symm hn'.2.symm, update_self]

/-- The memory after the first half of `thread_switch`. -/
def afterPush (g : Image) (next : Nat) (s : State) : Nat → Nat :=
  g.leftMem (g.atSwitch next s.m) (s.m.reg .esp - 32)

theorem afterPush_eq (h : Inv g s) (hn : next < g.program.maxThread) :
    afterPush g next s = update (saved s.m.reg (s.m.reg .esp - 32) (g.atSwitch next s.m).mem)
        (g.thread (g.current s.m.mem)) (s.m.reg .esp - 32) := by
  rw [← (atSwitch_vars h hn).1]
  rfl

/-- Everything a thread other than the one that is left owns is still there. -/
theorem afterPush_own (h : Inv g s) (hroom : Room g s) (hn : next < g.program.maxThread)
    (ht : t < g.program.maxThread) (htc : t ≠ g.current s.m.mem) (hown : g.Own t a) :
    afterPush g next s a = s.m.mem a := by
  have hnot := hown.disjoint ht h.lt htc
  have hframe : a < s.m.reg .esp - 32 ∨ s.m.reg .esp - 32 + 32 ≤ a := by
    by_contra hin
    exact hnot (.inr (.inr (by unfold Room at hroom; omega)))
  have hne : a ≠ g.thread (g.current s.m.mem) := by
    rintro rfl
    exact hnot (.inl rfl)
  rw [afterPush_eq h hn, update_of_ne hne, saved_of_outside _ _ hframe,
    atSwitch_own h.lt hn ht hown]

/-- The frame of the thread that is left is away from the variables. -/
theorem Room.out (h : Inv g s) (hroom : Room g s) :
    s.m.reg .esp - 32 + 32 = s.m.reg .esp ∧ s.m.reg .esp < 2 ^ 32 ∧
      (g.currentThread < s.m.reg .esp - 32 ∨ s.m.reg .esp - 32 + 32 ≤ g.currentThread) ∧
      (g.nextThread < s.m.reg .esp - 32 ∨ s.m.reg .esp - 32 + 32 ≤ g.nextThread) := by
  have hhi := Image.stackHi_le h.lt
  unfold Room at hroom
  have hown (a : Nat) (h1 : s.m.reg .esp - 32 ≤ a) (h2 : a < s.m.reg .esp - 32 + 32) :
      g.Own (g.current s.m.mem) a := .inr (.inr (by omega))
  refine ⟨by omega, by omega, ?_, ?_⟩
  · by_contra hin
    exact (hown _ (by omega) (by omega)).ne_current h.lt rfl
  · by_contra hin
    exact (hown _ (by omega) (by omega)).ne_next h.lt rfl

/-- The memory after the switch. -/
theorem switch_mem_eq (h : Inv g s) (hroom : Room g s) (hn : next < g.program.maxThread) :
    (switch g next s).m.mem = update (update (afterPush g next s) g.currentThread (g.thread next))
        g.nextThread 0 := by
  obtain ⟨hesp, hlt, hcur, hnext⟩ := Room.out h hroom
  have hvars := atSwitch_vars h hn
  have hne : (g.atSwitch next s.m).mem g.currentThread ≠ g.nextThread := by
    rw [hvars.1]
    exact (Image.field_ne h.lt g.size_pos).2
  have hrun := Image.run_threadSwitch_mem (m := g.atSwitch next s.m) hesp.symm (by omega)
    hcur hnext hne
  rw [hvars.2] at hrun
  exact hrun

/-- The array after the switch, away from the variables. -/
theorem switch_mem (h : Inv g s) (hroom : Room g s) (hn : next < g.program.maxThread)
    (hcur : a ≠ g.currentThread) (hnext : a ≠ g.nextThread) :
    (switch g next s).m.mem a = afterPush g next s a := by
  rw [switch_mem_eq h hroom hn, update_of_ne hnext, update_of_ne hcur]

/-- What the threads that are not left own stays as it is. -/
theorem switch_own (h : Inv g s) (hroom : Room g s) (hn : next < g.program.maxThread)
    (ht : t < g.program.maxThread) (htc : t ≠ g.current s.m.mem) (hown : g.Own t a) :
    (switch g next s).m.mem a = s.m.mem a := by
  rw [switch_mem h hroom hn (hown.ne_current ht) (hown.ne_next ht)]
  exact afterPush_own h hroom hn ht htc hown

/-- The next thread goes on as it is meant to, if the first word of its structure is the address
of its frame. -/
theorem switch_goesOn (h : Inv g s) (hroom : Room g s) (hn : next < g.program.maxThread)
    (hnc : next ≠ g.current s.m.mem) {k : Ctx} {sp : Nat} (hsv : Saved g s.m.mem next k sp)
    (hat : k.spAt g next = g.thread next) :
    k.GoesOn g next (switch g next s).m ∧ 4 ∣ (switch g next s).m.reg .esp := by
  obtain ⟨hesp, hlt, hcur, hnext⟩ := Room.out h hroom
  have hvars := atSwitch_vars h hn
  have hne : (g.atSwitch next s.m).mem g.currentThread ≠ g.nextThread := by
    rw [hvars.1]
    exact (Image.field_ne h.lt g.size_pos).2
  have hsv' : Saved g (afterPush g next s) next k sp :=
    hsv.congr fun a hown => afterPush_own h hroom hn hn hnc hown
  have hsp : g.leftMem (g.atSwitch next s.m) (s.m.reg .esp - 32)
      ((g.atSwitch next s.m).mem g.nextThread) = sp := by
    rw [hvars.2, ← hat]
    exact hsv'.sp_eq
  have hhi := Image.stackHi_le hn
  have hlo := hsv.lo
  have hsphi := hsv.hi
  have hown (a : Nat) (h1 : sp ≤ a) (h2 : a < sp + 36) : g.Own next a := .inr (.inr (by omega))
  obtain ⟨heip, hsp', hreg⟩ := Image.run_threadSwitch_reg (m := g.atSwitch next s.m) hesp.symm
    (by omega) hcur hnext hne hsp (by omega)
    (by by_contra hin; exact (hown _ (by omega) (by omega)).ne_current hn rfl)
    (by by_contra hin; exact (hown _ (by omega) (by omega)).ne_next hn rfl)
  have hframe := hsv'.frame
  have halign := hsv.aligned
  constructor
  · cases k with
    | entry func => exact ⟨heip.trans hframe.2, hsp'.trans hframe.1⟩
    | call reg eip =>
      refine ⟨?_, heip.trans hframe.2.2⟩
      funext r
      by_cases hr : r = .esp
      · subst hr
        exact hsp'.trans hframe.1.symm
      · exact (hreg r hr).trans (hframe.2.1 r hr)
  · have hreg' : (switch g next s).m.reg .esp = sp + 36 := hsp'
    omega

/-- Of the array, `thread_switch` changes the first word of the thread it leaves and the stack
it pushes to. -/
theorem switch_changes (h : Inv g s) (hroom : Room g s) (hn : next < g.program.maxThread)
    (hlo : g.allThread ≤ a) (hhi : a < g.arrayEnd)
    (hne : (switch g next s).m.mem a ≠ (g.atSwitch next s.m).mem a) :
    a = g.thread (g.current s.m.mem) ∨ s.m.reg .esp - 32 ≤ a ∧ a < s.m.reg .esp := by
  have hcur := g.current_out
  have hnext := g.next_out
  simp only [Image.arrayEnd, Image.layout] at hhi
  rw [switch_mem h hroom hn (by omega) (by omega), afterPush_eq h hn] at hne
  by_contra hnot
  unfold Room at hroom
  apply hne
  rw [update_of_ne (by omega), saved_of_outside _ _ (by omega)]

/-- The thread that is left has its frame on its stack. -/
theorem switch_saved (h : Inv g s) (hroom : Room g s) (hn : next < g.program.maxThread) :
    Saved g (switch g next s).m.mem (g.current s.m.mem)
      (.call (update s.m.reg .esp (s.m.reg .esp + 4)) (s.m.mem (s.m.reg .esp)))
      (s.m.reg .esp - 32) := by
  have hlt := h.lt
  have hout := Image.thread_out_of_stack hlt
  have hroom' := hroom
  unfold Room at hroom'
  have hown (i : Nat) (hi : i < 36) : g.Own (g.current s.m.mem) (s.m.reg .esp - 32 + i) :=
    .inr (.inr (by omega))
  -- a word of the stack that the frame is on
  have hword (i : Nat) (hi : i < 36) : (switch g next s).m.mem (s.m.reg .esp - 32 + i) =
      saved s.m.reg (s.m.reg .esp - 32) (g.atSwitch next s.m).mem (s.m.reg .esp - 32 + i) := by
    rw [switch_mem h hroom hn ((hown i hi).ne_current hlt) ((hown i hi).ne_next hlt),
      afterPush_eq h hn]
    exact update_of_ne (by omega) _ _
  refine ⟨?_, by omega, by omega, by omega, ?_, fun r hr => ?_, ?_⟩
  · have hfirst : g.Own (g.current s.m.mem) (g.thread (g.current s.m.mem)) := .inl rfl
    show (switch g next s).m.mem (g.thread _) = _
    rw [switch_mem h hroom hn (hfirst.ne_current hlt) (hfirst.ne_next hlt), afterPush_eq h hn]
    exact update_self ..
  · rw [update_self]
    omega
  · have hoff := r.offset_lt
    rw [hword _ (by omega), saved_offset, update_of_ne hr]
  · rw [hword 32 (by omega), saved_of_outside _ _ (by omega),
      atSwitch_own hlt hn hlt (hown 32 (by omega))]
    congr 1
    omega

/-- The stack of the thread that is left, from the stack pointer on. -/
theorem switch_stack (h : Inv g s) (hroom : Room g s) (hn : next < g.program.maxThread)
    (hlo : s.m.reg .esp ≤ a) (hhi : a < g.stackHi (g.current s.m.mem)) :
    (switch g next s).m.mem a = s.m.mem a := by
  have hlt := h.lt
  have hout := Image.thread_out_of_stack hlt
  have hroom' := hroom
  unfold Room at hroom'
  have hown : g.Own (g.current s.m.mem) a := .inr (.inr (by omega))
  rw [switch_mem h hroom hn (hown.ne_current hlt) (hown.ne_next hlt), afterPush_eq h hn,
    update_of_ne (by omega), saved_of_outside _ _ (by omega), atSwitch_own hlt hn hlt hown]

/-- The states after the switch. -/
theorem switch_state (h : Inv g s) (hroom : Room g s) (hn : next < g.program.maxThread)
    (ht : t < g.program.maxThread) :
    g.state (switch g next s).m.mem t =
      g.program.handOver (g.state s.m.mem) (g.current s.m.mem) next t := by
  have hlt := h.lt
  have hvars := Image.field_ne ht g.state_lt_size
  have hroom' := hroom
  unfold Room at hroom'
  have hfirst : g.Own (g.current s.m.mem) (g.thread (g.current s.m.mem)) := .inl rfl
  have hframe : g.thread t + g.layout.state < s.m.reg .esp - 32 ∨
      s.m.reg .esp - 32 + 32 ≤ g.thread t + g.layout.state := by
    by_contra hin
    have hown : g.Own (g.current s.m.mem) (g.thread t + g.layout.state) :=
      .inr (.inr (by omega))
    exact hown.ne_state hlt ht rfl
  have hstate : g.state (switch g next s).m.mem t = g.state (g.atSwitch next s.m).mem t := by
    apply state_congr
    rw [switch_mem h hroom hn hvars.1 hvars.2, afterPush_eq h hn,
      update_of_ne (hfirst.ne_state hlt ht).symm, saved_of_outside _ _ hframe]
  rw [hstate]
  show g.state (g.handOver _ next _) t = _
  have hset (u : Nat) (hu : u < g.program.maxThread) :
      g.state (update s.m.mem g.nextThread (g.thread next)) u = g.state s.m.mem u :=
    state_congr (update_of_ne (Image.field_ne hu g.state_lt_size).2 _ _)
  rw [Image.state_handOver]
  exact handOver_congr (hset _ hlt) (hset t ht)

/-- The next thread is the current one. -/
theorem switch_current (h : Inv g s) (hroom : Room g s) (hn : next < g.program.maxThread) :
    (switch g next s).m.mem g.currentThread = g.thread next := by
  rw [switch_mem_eq h hroom hn, update_of_ne g.current_ne_next, update_self]

theorem Inv.switch (h : Inv g s) (hroom : Room g s) (hn : next < g.program.maxThread) :
    Inv g (switch g next s) := by
  have hlt := h.lt
  have hstate (t : Nat) (ht : t < g.program.maxThread) := switch_state h hroom hn ht
  have hcur := switch_current h hroom hn
  have hc := Image.current_eq hcur
  refine ⟨⟨next, hn, hcur⟩, ?_, ?_, ?_⟩
  · rw [hstate 0 (by omega)]
    exact handOver_ne_free (.inl h.main)
  · intro _
    rw [hc, hstate next hn]
    exact handOver_ne_free (.inr rfl)
  · intro t ht htn hst
    rw [hc] at htn
    rw [hstate t ht] at hst
    by_cases htc : t = g.current s.m.mem
    · subst htc
      exact ⟨_, _, update_self .., switch_saved h hroom hn⟩
    · rw [handOver_of_ne htc htn] at hst
      obtain ⟨k, sp, hk, hsv⟩ := h.saved t ht htc hst
      exact ⟨k, sp, (update_of_ne htc ..).trans hk,
        hsv.congr fun a hown => switch_own h hroom hn ht htc hown⟩

end

/-! ## All runs -/

theorem steps_compute {reg : Reg → Nat} {eip : Nat}
    (hw : ∀ w ∈ writes, Writes g (g.current s.m.mem) w.1) :
    Steps g s (.compute reg eip writes) (compute reg eip writes s) :=
  if_pos hw

theorem steps_create (hl : s.leaving = false) :
    Steps g s (.create func) (create g func s) := by
  simp only [Steps, step, hl, Bool.false_eq_true, if_false]

theorem steps_switch (hroom : Room g s)
    (hnext : g.program.findNext (g.state s.m.mem) (g.current s.m.mem) = some next)
    (hne : g.current s.m.mem ≠ next) : Steps g s .schedule (switch g next s) := by
  simp only [Steps, step, if_pos hroom, hnext, if_pos hne]

theorem compute_ctx (reg : Reg → Nat) (eip : Nat) (writes : List (Nat × Nat)) (s : State) :
    (compute reg eip writes s).ctx = s.ctx := rfl

theorem create_ctx (h : g.program.firstFree (g.state s.m.mem) = some t) :
    (create g func s).ctx t = some (.entry func) := by
  simp only [create, h, update_self]

/-- Where `thread_schedule` switches, the next thread has its frame. -/
theorem Inv.next_saved (h : Inv g s)
    (hnext : g.program.findNext (g.state s.m.mem) (g.current s.m.mem) = some next)
    (hne : next ≠ g.current s.m.mem) :
    next < g.program.maxThread ∧ ∃ k sp, s.ctx next = some k ∧ Saved g s.m.mem next k sp := by
  rcases findNext_spec hnext with ⟨hlt, hrun, _⟩ | ⟨heq, _⟩
  · refine ⟨hlt, h.saved next hlt hne ?_⟩
    rw [hrun]
    nofun
  · exact absurd heq hne

theorem Inv.step (h : Inv g s) (hs : Steps g s l s') (hfits : l.Fits g s) :
    Inv g s' := by
  cases step_did hs with
  | compute hw => exact h.of_writes rfl rfl fun a ha => assign_writes hw ha
  | create hl hfirst => exact h.create hl hfirst
  | full _ => exact h
  | past hp hfirst => exact absurd hfirst (hfits hp)
  | switch hroom hnext hne => exact h.switch hroom (h.next_saved hnext hne).1
  | stay hnext =>
    apply h.stay
    rcases findNext_spec hnext with ⟨_, hrun, _⟩ | ⟨_, hrun | ⟨_, hrun⟩⟩
    · rw [hrun]
      nofun
    · rw [hrun]
      nofun
    · rw [hrun]
      nofun
  | leave _ hv =>
    apply h.setState h.lt
    · exact fun h0 hfree => hv hfree h0
    · exact absurd rfl
    · nofun
  | wake ht hwait =>
    apply h.setState ht
    · exact fun _ => nofun
    · intro _
      rw [hwait]
      nofun
    · exact fun hl => ⟨nofun, hl⟩

/-- What a step leaves of a thread that does not run and has not ended. -/
structure Keeps (g : Image) (t : Nat) (s s' : State) : Prop where
  ctx : s'.ctx t = s.ctx t
  own : ∀ a, g.Own t a → s'.m.mem a = s.m.mem a
  live : g.state s'.m.mem t ≠ .free

theorem Keeps.setState {u : Nat} {v : ThreadState} {leaving : Bool}
    (ht : t < g.program.maxThread) (hu : u < g.program.maxThread)
    (hst : g.state s.m.mem t ≠ .free) (hv : u = t → v ≠ .free) :
    Keeps g t s { s with m.mem := g.setState u v s.m.mem, leaving := leaving } := by
  refine ⟨rfl, fun a hown => Image.setState_of_ne (hown.ne_state ht hu), ?_⟩
  show g.state (g.setState u v s.m.mem) t ≠ .free
  rw [g.state_setState]
  by_cases htu : t = u
  · subst htu
    simpa using hv rfl
  · rwa [update_of_ne htu]

/-- The steps of the thread that runs leave the others alone. -/
theorem Steps.keeps (h : Inv g s) (hs : Steps g s l s') (hfits : l.Fits g s)
    (ht : t < g.program.maxThread) (htc : t ≠ g.current s.m.mem)
    (hst : g.state s.m.mem t ≠ .free) : Keeps g t s s' := by
  have hlt := h.lt
  cases step_did hs with
  | @compute reg eip writes hw =>
    have hsame (a : Nat) (ha : ¬ Writes g (g.current s.m.mem) a) :
        assign s.m.mem writes a = s.m.mem a := not_not.mp fun hne => ha (assign_writes hw hne)
    refine ⟨rfl, fun a hown => hsame a fun hwr => (hwr.ne hlt).2.2 t ht htc hown, ?_⟩
    show g.state (assign s.m.mem writes) t ≠ .free
    rwa [state_congr (hsame _ fun hwr => (hwr.ne hlt).2.1 t ht rfl)]
  | @create func u _ hfirst =>
    obtain ⟨hu, hfree⟩ := firstFree_spec hfirst
    have htu : t ≠ u := by
      rintro rfl
      exact hst hfree
    refine ⟨update_of_ne htu .., fun a hown =>
      Image.initThread_of_out (hown.out_of_thread ht hu htu), ?_⟩
    show g.state (g.initThread u func s.m.mem) t ≠ .free
    rwa [g.state_initThread, update_of_ne htu]
  | full _ => exact ⟨rfl, fun _ _ => rfl, hst⟩
  | past hp hfirst => exact absurd hfirst (hfits hp)
  | switch hroom hnext hne =>
    have hn := (h.next_saved hnext hne).1
    refine ⟨update_of_ne htc .., fun a hown => switch_own h hroom hn ht htc hown, ?_⟩
    rw [switch_state h hroom hn ht]
    exact handOver_ne_free (.inl hst)
  | stay _ =>
    refine ⟨rfl, fun a hown => update_of_ne (hown.ne_next ht) _ _, ?_⟩
    show g.state (update s.m.mem g.nextThread 0) t ≠ .free
    rwa [state_congr (update_of_ne (Image.field_ne ht g.state_lt_size).2 _ _)]
  | leave _ _ => exact .setState ht hlt hst fun heq => absurd heq.symm htc
  | wake hu _ =>
    apply Keeps.setState ht hu hst
    intro _
    nofun

/-- While other threads run, a thread that has not ended keeps what it owns. -/
theorem keeps_run {ls : List Label} (h : Inv g s) (hc : c < g.program.maxThread)
    (hst : g.state s.m.mem c ≠ .free) (haway : g.current s.m.mem ≠ c)
    (hrun : Run (fun s l s' => Steps g s l s' ∧ l.Fits g s ∧ g.current s'.m.mem ≠ c) s ls s') :
    Inv g s' ∧ g.current s'.m.mem ≠ c ∧ Keeps g c s s' := by
  apply hrun.invariant (I := fun s' => Inv g s' ∧ g.current s'.m.mem ≠ c ∧ Keeps g c s s')
  · exact ⟨h, haway, rfl, fun _ _ => rfl, hst⟩
  · rintro s1 l s2 ⟨hinv, hcur, hk⟩ ⟨hstep, hfits, hcur'⟩
    have hk' := hstep.keeps hinv hfits hc hcur.symm hk.live
    exact ⟨hinv.step hstep hfits, hcur', hk'.ctx.trans hk.ctx,
      fun a hown => (hk'.own a hown).trans (hk.own a hown), hk'.live⟩

/-- From the call of `thread_switch` that leaves a thread to the one that comes back to it, the
thread keeps its registers and its stack. -/
theorem round_trip {s1 s2 s3 s4 : State} {ls : List Label} (h : Inv g s1)
    (hlive : g.state s1.m.mem (g.current s1.m.mem) ≠ .free) (hleave : Steps g s1 .schedule s2)
    (haway : g.current s2.m.mem ≠ g.current s1.m.mem)
    (hrun : Run (fun s l s' => Steps g s l s' ∧ l.Fits g s ∧
      g.current s'.m.mem ≠ g.current s1.m.mem) s2 ls s3)
    (hback : Steps g s3 .schedule s4) (hcur : g.current s4.m.mem = g.current s1.m.mem) :
    s4.m.reg = update s1.m.reg .esp (s1.m.reg .esp + 4) ∧ s4.m.eip = s1.m.mem (s1.m.reg .esp) ∧
      ∀ a, s1.m.reg .esp ≤ a → a < g.stackHi (g.current s1.m.mem) →
        s4.m.mem a = s1.m.mem a := by
  have hlt := h.lt
  cases step_did hleave with
  | leave hl _ => rcases hl with hl | hl <;> cases hl
  | stay _ => exact absurd (current_congr (update_of_ne g.current_ne_next _ _)) haway
  | @switch next hroom hnext hne =>
  have hn := (h.next_saved hnext hne).1
  have hlive2 : g.state (switch g next s1).m.mem (g.current s1.m.mem) ≠ .free := by
    rw [switch_state h hroom hn hlt]
    exact handOver_ne_free (.inl hlive)
  obtain ⟨hinv3, hcur3, hkeeps⟩ := keeps_run (h.switch hroom hn) hlt hlive2 haway hrun
  cases step_did hback with
  | leave hl _ => rcases hl with hl | hl <;> cases hl
  | stay _ =>
    refine absurd ((current_congr ?_).symm.trans hcur) hcur3
    exact update_of_ne g.current_ne_next _ _
  | @switch next' hroom3 hnext' hne' =>
  have hn' := (hinv3.next_saved hnext' hne').1
  obtain rfl : next' = g.current s1.m.mem :=
    (Image.current_eq (switch_current hinv3 hroom3 hn')).symm.trans hcur
  -- the history still has the call that left the thread
  obtain ⟨k, sp, hk, hsv⟩ := hinv3.saved _ hlt hne' hkeeps.live
  cases (hkeeps.ctx.trans (update_self ..)).symm.trans hk
  obtain ⟨⟨hreg, heip⟩, _⟩ := switch_goesOn hinv3 hroom3 hlt hne' hsv rfl
  refine ⟨hreg, heip, fun a hlo hhi => ?_⟩
  have hroom' := hroom
  unfold Room at hroom'
  have hown : g.Own (g.current s1.m.mem) a := .inr (.inr (by omega))
  rw [switch_own hinv3 hroom3 hlt hlt hne' hown, hkeeps.own a hown]
  exact switch_stack h hroom hn hlo hhi

theorem Inv.start (g : Image) (m : Machine) : Inv g (start g m) := by
  have hpos := Image.maxThread_pos g.program
  have hcur := g.threadInit_current m.mem
  have hmain : g.state (g.threadInit m.mem) 0 ≠ .free := by
    rw [Image.state_threadInit hpos]
    nofun
  refine ⟨⟨0, hpos, hcur⟩, hmain, fun _ => ?_, fun t ht htc hst => ?_⟩
  · show g.state (g.threadInit m.mem) (g.current (g.threadInit m.mem)) ≠ .free
    rw [Image.current_eq hcur]
    exact hmain
  · have h0 : t ≠ 0 := fun h0 => htc (h0.trans (Image.current_eq hcur).symm)
    exact absurd ((Image.state_threadInit ht).trans (if_neg h0)) hst

theorem Preserves.of_safe (h : Inv g s) (hs : Steps g s l s') (hsafe : l.Safe g s) :
    Preserves g s l s' := by
  rintro rfl next hnext hne
  obtain ⟨hlt, k, sp, hk, hsv⟩ := h.next_saved hnext hne
  have hzero : g.layout.sp = 0 :=
    Image.layout_sp_of_ne fun hp => hne (hsafe.2 rfl hp next hnext)
  have hat : k.spAt g next = g.thread next := by
    cases k with
    | entry func => rw [Ctx.spAt, hzero, Nat.add_zero]
    | call reg eip => rfl
  cases step_did hs with
  | switch hroom hnext' _ =>
    cases hnext.symm.trans hnext'
    refine ⟨⟨k, hk, switch_goesOn h hroom hlt hne hsv hat⟩, fun a hlo hhi hdiff => ?_⟩
    rw [hzero, Nat.add_zero]
    exact switch_changes h hroom hlt hlo hhi hdiff
  | stay hnext' =>
    cases hnext.symm.trans hnext'
    exact absurd rfl hne
  | leave hl _ => rcases hl with hl | hl <;> cases hl

/-- Cooperative switches preserve the threads: in a run that does nothing unsafe, every switch
goes to a thread that goes on as it is meant to, and changes nothing of the threads but the
stack pointer of the thread it leaves and the frame below it. -/
theorem switches_preserve {m : Machine} {ls : List Label}
    (h : Run (fun s l s' => Steps g s l s' ∧ l.Safe g s) (start g m) ls s) :
    Run (fun s l s' => Steps g s l s' ∧ Preserves g s l s') (start g m) ls s := by
  apply h.mono_of_invariant (Inv.start g m)
  · intro s l s' hi hs
    exact hi.step hs.1 hs.2.1
  · intro s l s' hi hs
    exact ⟨hs.1, .of_safe hi hs.1 hs.2⟩

/-- A program linked at some addresses. -/
def sample (p : Program) : Image where
  program := p
  allThread := 0x1000
  currentThread := 0x16000
  nextThread := 0x16004
  mainStack := 0x17000
  mainTop := 0x18000
  aligned := by decide
  array_le := by cases p <;> decide
  main_le := by decide
  current_ne_next := by decide
  current_out := by cases p <;> decide
  next_out := by cases p <;> decide
  main_array := by cases p <;> decide
  main_current := by decide
  main_next := by decide

/-- Registers with a stack pointer, and the same number in all others. -/
def regs (esp v : Nat) (r : Reg) : Nat :=
  if r = .esp then esp else v

/-- The main thread creates two threads and leaves; the first calls `thread_schedule` with its
own registers, and the second makes the first go on. -/
def twoThreads : List Label :=
  [.create 0x40, .create 0x80, .compute (regs 0x17f00 1) 0 [(0x17f00, 0x500)], .schedule,
    .compute (regs 0x4f00 11) 0 [(0x4f00, 0x510)], .schedule,
    .compute (regs 0x6f00 22) 0 [(0x6f00, 0x520)], .schedule]

/-- The first thread goes on behind its call, with the registers it had there. -/
theorem switches_preserve_twoThreads :
    ∃ s, Run (fun s l s' => Steps (sample .uthread1) s l s' ∧ Preserves (sample .uthread1) s l s')
        (start (sample .uthread1) ⟨fun _ => 0, 0, fun _ => 0⟩) twoThreads s ∧
      s.m.eip = 0x510 ∧ s.m.reg .esp = 0x4f04 ∧ s.m.reg .ebx = 11 := by
  have hpass : Run.passes
      (fun l s => ((step (sample .uthread1) l s).map Except.ok).getD (Except.error ()))
      twoThreads (start (sample .uthread1) ⟨fun _ => 0, 0, fun _ => 0⟩)
      (fun s => s.m.eip = 0x510 ∧ s.m.reg .esp = 0x4f04 ∧ s.m.reg .ebx = 11) = true := by
    decide +kernel
  obtain ⟨s, hrun, hs⟩ := Run.exists_of_passes hpass
  refine ⟨s, switches_preserve (hrun.mono fun s l s' hstep => ⟨?_, ?_⟩), by simpa using hs⟩
  · cases h : step (sample .uthread1) l s with
    | none =>
      rw [h] at hstep
      cases hstep
    | some s1 =>
      rw [h] at hstep
      cases hstep
      exact h
  · constructor
    · cases l with
      | create func => nofun
      | _ => trivial
    · nofun

/-- A new thread that begins with another stack pointer is lost. -/
theorem not_preserves
    (hnext : g.program.findNext (g.state s.m.mem) (g.current s.m.mem) = some next)
    (hne : g.current s.m.mem ≠ next) (hctx : s.ctx next = some (.entry func))
    (hesp : s'.m.reg .esp ≠ g.stackTop next) : ¬ Preserves g s .schedule s' := by
  intro h
  obtain ⟨⟨k, hk, hgo, _⟩, _⟩ := h rfl next hnext hne.symm
  cases hctx.symm.trans hk
  exact hesp hgo.2

/-- In `uthread3.c` the first switch takes the `tid` of the next thread for its stack pointer,
and writes the stack pointer over the `tid` of the thread it leaves. -/
theorem uthread3_switch_lost :
    ∃ s s', Run (Steps (sample .uthread3))
        (start (sample .uthread3) ⟨fun _ => 0, 0, fun _ => 0⟩)
        [.create 0x40, .compute (regs 0x17f00 1) 0 [(0x17f00, 0x500)]] s ∧
      Steps (sample .uthread3) s .schedule s' ∧
      s'.m.reg .esp = 1 + 36 ∧ (sample .uthread3).stackTop 1 = 0x5014 ∧
      s.m.mem ((sample .uthread3).thread 0) = 0 ∧
      s'.m.mem ((sample .uthread3).thread 0) = 0x17ee0 ∧
      ¬ Preserves (sample .uthread3) s .schedule s' := by
  let g := sample .uthread3
  let s0 := start g ⟨fun _ => 0, 0, fun _ => 0⟩
  let s1 := create g 0x40 s0
  let s2 := compute (regs 0x17f00 1) 0 [(0x17f00, 0x500)] s1
  have hcreate : Steps g s0 (.create 0x40) s1 := steps_create rfl
  have hfirst : g.program.firstFree (g.state s0.m.mem) = some 1 := by decide +kernel
  have hwrites : ∀ w ∈ [((0x17f00 : Nat), (0x500 : Nat))], Writes g (g.current s1.m.mem) w.1 := by
    decide +kernel
  have hcompute : Steps g s1 (.compute (regs 0x17f00 1) 0 [(0x17f00, 0x500)]) s2 :=
    steps_compute hwrites
  have hroom : Room g s2 := by decide +kernel
  have hnext : g.program.findNext (g.state s2.m.mem) (g.current s2.m.mem) = some 1 := by
    decide +kernel
  have hne : g.current s2.m.mem ≠ 1 := by decide +kernel
  have hesp : (switch g 1 s2).m.reg .esp = 1 + 36 := by decide +kernel
  have htop : g.stackTop 1 = 0x5014 := by decide +kernel
  have htid : s2.m.mem (g.thread 0) = 0 := by decide +kernel
  have htid' : (switch g 1 s2).m.mem (g.thread 0) = 0x17ee0 := by decide +kernel
  have hs1 : s1 = create g 0x40 s0 := rfl
  have hs2 : s2 = compute (regs 0x17f00 1) 0 [(0x17f00, 0x500)] s1 := rfl
  have hrun := (Run.single hcreate).snoc hcompute
  refine ⟨s2, switch g 1 s2, hrun, steps_switch hroom hnext hne, hesp, htop, htid, htid', ?_⟩
  -- from here on the states are not to be evaluated
  clear_value s2 s1 s0
  apply not_preserves hnext hne
  · rw [hs2, compute_ctx, hs1]
    exact create_ctx hfirst
  · rw [hesp, htop]
    decide

end Threads
end Uthread
end Xv6
