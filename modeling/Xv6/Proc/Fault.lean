import Xv6.Vm.Copyuvm
import Xv6.Proc.Sbrk

/-!
# Page faults make progress (`trap.c`)

`trap` serves a page fault, or marks the process as killed; but a killed process exits only on
its way back to user mode.  A fault in the kernel that is not served, and every fault without a
process, returns to the instruction that faulted with the page table as it was, and faults
again.  `fault_progress` gives the faults for which this does not happen.

Main definitions:

* `Kernel.active` — the page directory that the CPU uses;
* `Progress` — the outcomes of `trap` that do not retry the access in vain;
* `PipesHeld` — every open pipe file has its end of a pipe, so that `exit` can close it.
-/

namespace Xv6
namespace Proc

open Lib Lib.Exec Vm Function

/-- The page directory that the CPU uses: the current process's, or the kernel's. -/
def Kernel.active (k : Kernel) (c : Nat) : PageDir :=
  match (k.cpu c).proc with
  | some i => (k.proc i).pgdir.getD k.kpgdir
  | none => k.kpgdir

/-- An entry that lets an access through; the kernel runs with `CR0_WP`, so a store needs
`PTE_W` in both modes. -/
def permits (e : Pte) (user write : Bool) : Bool :=
  e.present && (!user || e.user) && (!write || e.flags &&& PTE_W != 0)

/-- The access at `cr2` is let through. -/
def Kernel.Permits (k : Kernel) (c cr2 : Nat) (user write : Bool) : Prop :=
  permits ((k.active c).pte cr2) user write = true

/-- The outcomes of `trap` that do not retry the access in vain: the page is there, or the
process has exited, or the kernel has panicked. -/
def Progress (M : Machine) (k : Kernel) (c cr2 : Nat) (user write : Bool) (context : Context) :
    Prop :=
  match trapPgflt M c cr2 user context k with
  | .ok (_, k') => k'.Permits c cr2 user write ∨
      ∃ i, (k.cpu c).proc = some i ∧ (k'.proc i).state = .zombie
  | .error (.panic _) => True
  | .error _ => False

/-- An end of a pipe is open. -/
def Pipe.isOpen (p : Pipe) (writable : Bool) : Bool :=
  if writable then p.writeopen else p.readopen

/-- The end of a pipe that a file refers to. -/
def File.pipeEnd (x : File) : Option (Nat × Bool) :=
  if x.type = .pipe then some (x.pipe, x.writable) else none

/-- Every pipe file has an end of a pipe that is open, and to itself. -/
structure PipesHeld (k : Kernel) : Prop where
  held : ∀ f id w, (k.ftable f).pipeEnd = some (id, w) → ∃ p, k.pipe id = some p ∧ p.isOpen w = true
  own : ∀ f g e, (k.ftable f).pipeEnd = some e → (k.ftable g).pipeEnd = some e → f = g

/-- The outcome is a panic. -/
def Panicked (e : Stop) : Prop := ∃ p, e = .panic p

variable {M : Machine} {k k' : Kernel}

/-! ## `exit` returns, or panics -/

theorem PipesHeld.of_eq (h : PipesHeld k) (hfile : k'.ftable = k.ftable) (hpipe : k'.pipe = k.pipe) :
    PipesHeld k' := by
  constructor
  · rw [hfile, hpipe]
    exact h.held
  · rw [hfile]
    exact h.own

/-- Files may forget their ends. -/
theorem PipesHeld.of_ends (h : PipesHeld k) (hpipe : k'.pipe = k.pipe)
    (hfile : ∀ f e, (k'.ftable f).pipeEnd = some e → (k.ftable f).pipeEnd = some e) :
    PipesHeld k' := by
  constructor
  · intro f id w hf
    rw [hpipe]
    exact h.held f id w (hfile f _ hf)
  · intro f g e hf hg
    exact h.own f g e (hfile f e hf) (hfile g e hg)

/-- One file changes, and forgets its end or keeps it. -/
theorem PipesHeld.modFile (h : PipesHeld k) {f : Nat} {x : File}
    (hx : ∀ e, x.pipeEnd = some e → (k.ftable f).pipeEnd = some e) :
    PipesHeld { k with ftable := update k.ftable f x } := by
  refine h.of_ends rfl ?_
  intro g e hg
  by_cases hgf : g = f
  · subst hgf
    exact hx e (by simpa using hg)
  · simpa [update_of_ne hgf] using hg

/-- The pipe after one of its ends was closed. -/
def Pipe.close (p : Pipe) (writable : Bool) : Pipe :=
  if writable then { p with writeopen := false } else { p with readopen := false }

theorem Pipe.close_isOpen {p : Pipe} {w w' : Bool} (hne : w' ≠ w) :
    (p.close w).isOpen w' = p.isOpen w' := by
  cases w <;> cases w' <;> first | rfl | exact absurd rfl hne

/-- Closing an end of a pipe that no file has any more. -/
theorem PipesHeld.close (h : PipesHeld k) {id : Nat} {w : Bool} {p : Pipe} {x : Option Pipe}
    (hp : k.pipe id = some p) (hnone : ∀ f, (k.ftable f).pipeEnd ≠ some (id, w))
    (hx : x = some (p.close w) ∨ (p.close w).readopen = false ∧ (p.close w).writeopen = false) :
    PipesHeld { k with pipe := update k.pipe id x } := by
  refine ⟨?_, h.own⟩
  intro f id' w' hf
  obtain ⟨p', hp', hopen⟩ := h.held f id' w' hf
  by_cases hid : id' = id
  · subst hid
    rw [hp] at hp'
    cases hp'
    -- the file has the other end, which stays open
    have hw : w' ≠ w := by
      rintro rfl
      exact hnone f hf
    rw [← Pipe.close_isOpen hw] at hopen
    rcases hx with rfl | ⟨hread, hwrite⟩
    · exact ⟨p.close w, by simp, hopen⟩
    · exfalso
      cases w' <;> simp [Pipe.isOpen, hread, hwrite] at hopen
  · exact ⟨p', by simpa [update_of_ne hid] using hp', hopen⟩

/-- `kfree` changes nothing but the memory, or panics. -/
theorem kfree_holds {P : Kernel → Prop} {page : Nat} (hP : ∀ k s, P k → P { k with kmem := s }) :
    Triple P (liftVm (kfree M page)) (fun _ => P) Panicked := by
  intro k hk
  by_cases hr : M.InRange page
  · rw [liftVm_of_ok (kfree_of_inRange hr k.kmem)]
    exact hP k _ hk
  · have hstop : liftVm (kfree M page) k = .error (.panic .kfree) := by
      unfold liftVm kfree
      rw [if_neg hr]
      rfl
    rw [hstop]
    exact ⟨_, rfl⟩

/-- Closing an end of a pipe that no file has any more. -/
theorem pipeclose_holds {id : Nat} {w : Bool} : Triple
    (fun k => PipesHeld k ∧ (k.pipe id).isSome ∧ ∀ f, (k.ftable f).pipeEnd ≠ some (id, w))
    (pipeclose M id w) (fun _ => PipesHeld) Panicked := by
  rintro k ⟨hheld, hsome, hnone⟩
  obtain ⟨p, hp⟩ := Option.isSome_iff_exists.mp hsome
  have hclose : (if w = true then { p with writeopen := false } else { p with readopen := false }) =
      p.close w := rfl
  unfold pipeclose
  rw [bind_of_ok (get_apply k), hp]
  dsimp only
  rw [hclose]
  -- neither waking the other side up nor freeing the page concerns files or pipes
  refine Triple.bind (P := fun k => PipesHeld k ∧ k.pipe id = some p ∧
    ∀ f, (k.ftable f).pipeEnd ≠ some (id, w)) (Q := fun _ k => PipesHeld k ∧ k.pipe id = some p ∧
    ∀ f, (k.ftable f).pipeEnd ≠ some (id, w)) (R := fun _ => PipesHeld) ?_ (fun _ => ?_) k
    ⟨hheld, hp, hnone⟩
  · exact Triple.modify fun k hk => ⟨hk.1.of_eq rfl rfl, hk.2⟩
  · refine Triple.ite (fun hboth => ?_) fun _ => ?_
    · refine Triple.bind (kfree_holds fun k s hk => ⟨hk.1.of_eq rfl rfl, hk.2⟩) fun _ => ?_
      exact Triple.modify fun k hk => hk.1.close hk.2.1 hk.2.2 (.inr hboth)
    · exact Triple.modify fun k hk => hk.1.close hk.2.1 hk.2.2 (.inl rfl)

/-- The file is forgotten before its end of the pipe is closed. -/
theorem PipesHeld.drop (h : PipesHeld k) {f : Nat} {e : Nat × Bool} (hf : (k.ftable f).pipeEnd = some e)
    {x : File} (hx : x.pipeEnd = none) (g : Nat) :
    (update k.ftable f x g).pipeEnd ≠ some e := by
  intro hg
  by_cases hgf : g = f
  · subst hgf
    rw [update_self, hx] at hg
    cases hg
  · rw [update_of_ne hgf] at hg
    exact hgf (h.own g f e hg hf)

theorem fileclose_holds {f : Nat} :
    Triple PipesHeld (fileclose M f) (fun _ => PipesHeld) Panicked := by
  intro k hheld
  unfold fileclose
  rw [getFile_bind]
  split_ifs with href hlast hpipe hinode
  · exact ⟨_, rfl⟩
  · exact hheld.modFile fun e he => he
  · have hend : (k.ftable f).pipeEnd = some ((k.ftable f).pipe, (k.ftable f).writable) := if_pos hpipe
    obtain ⟨p, hp, -⟩ := hheld.held f _ _ hend
    rw [bind_of_ok (show modFile f _ k = .ok ((), _) from rfl)]
    apply pipeclose_holds
    refine ⟨hheld.modFile nofun, ?_, hheld.drop hend rfl⟩
    exact Option.isSome_iff_exists.mpr ⟨p, hp⟩
  · exact (hheld.modFile (f := f) (x := { k.ftable f with ref := 0, type := .none }) nofun).of_eq rfl rfl
  · exact hheld.modFile nofun

theorem closeFiles_holds {i : Nat} :
    Triple PipesHeld (closeFiles M i) (fun _ => PipesHeld) Panicked := by
  refine Triple.upto (I := fun _ => PipesHeld) ?_
  intro fd _ k hheld
  rw [getProc_bind]
  cases (k.proc i).ofile fd with
  | none => exact hheld
  | some f =>
    refine Triple.bind fileclose_holds (fun _ => ?_) k hheld
    exact Triple.modify fun k hk => hk.of_eq rfl rfl

theorem putCwd_returns (cwd : Option Nat) (k : Kernel) : ∃ u k', putCwd cwd k = .ok (u, k') := by
  cases cwd with
  | none => exact ⟨_, _, rfl⟩
  | some ip => exact ⟨_, _, rfl⟩

theorem wakeupInit_returns (orphan : Bool) (k : Kernel) :
    ∃ u k', wakeupInit orphan k = .ok (u, k') := by
  cases orphan with
  | true => exact ⟨_, _, rfl⟩
  | false => exact ⟨_, _, rfl⟩

/-- `exit` makes the process a zombie or panics. -/
theorem exit_zombie {c i : Nat} {context : Context} : Triple PipesHeld (exit M c i context)
    (fun _ k' => (k'.proc i).state = .zombie) Panicked := by
  unfold exit
  refine Triple.bind Triple.get fun k0 => Triple.ite (fun _ => Triple.stop ⟨_, rfl⟩) fun _ => ?_
  refine Triple.bind (closeFiles_holds.weaken (fun _ h => h.2) (fun _ _ _ => trivial) fun _ h => h)
    fun _ => ?_
  -- nothing stops it any more
  refine Triple.bind (Triple.total fun k => ⟨_, _, rfl⟩) fun p => ?_
  refine Triple.bind (Triple.total (putCwd_returns p.cwd)) fun _ => ?_
  refine Triple.bind (Triple.total fun k => ⟨_, _, rfl⟩) fun _ => ?_
  refine Triple.bind (Triple.total fun k => ⟨_, _, rfl⟩) fun p => ?_
  refine Triple.bind (Triple.total fun k => ⟨_, _, rfl⟩) fun _ => ?_
  refine Triple.bind (Triple.total fun k => ⟨_, _, rfl⟩) fun k => ?_
  refine Triple.bind (Triple.total fun k => ⟨_, _, rfl⟩) fun _ => ?_
  refine Triple.bind (Triple.total (wakeupInit_returns _)) fun _ => ?_
  refine Triple.bind (Triple.total fun k => ⟨_, _, rfl⟩) fun _ => ?_
  intro k _
  simp [modProc, sched, lcr3, setCpuProc, bind_apply]

/-! ## Serving a fault -/

/-- The fault of process `i` is served: the address is one of the process's that is not mapped
yet, and there is memory for the page and, if need be, for its page table. -/
def Serves (k : Kernel) (i : Nat) (d : PageDir) (cr2 : Nat) : Prop :=
  ¬Refused (k.proc i) d cr2 ∧ 1 + missing d (cr2 / PGSIZE / 1024) ≤ k.kmem.freelist.length

/-- The entry that is made for a page. -/
def faultPte (mem : Nat) : Pte := ⟨mem, (PTE_W ||| PTE_U) ||| PTE_P⟩

theorem permits_faultPte (mem : Nat) (user write : Bool) : permits (faultPte mem) user write = true := by
  simp [permits, faultPte, Pte.present, Pte.user, PTE_W, PTE_U, PTE_P]

section FaultPage

variable {d d' : PageDir} {v : Nat} {s s' : Kmem}

/-- With memory for the page and its table, the page is mapped. -/
theorem faultPage_enough (hv : v < userPages) (habs : (d.ent v).present = false)
    (henough : 1 + missing d (v / 1024) ≤ s.freelist.length) : ∃ mem d' t,
      faultPage M d (v * PGSIZE) s = .ok ((d', true), t) ∧ d'.ent v = faultPte mem := by
  unfold faultPage
  rcases kalloc_cases s with ⟨hnil, -⟩ | ⟨mem, rest, hcons, hk⟩
  · rw [hnil, List.length_nil] at henough
    omega
  · rw [hcons, List.length_cons] at henough
    have htable : missing d (v / 1024) ≤ rest.length := by omega
    obtain ⟨d', t, hmap, -⟩ := mappages_user_total mem (PTE_W ||| PTE_U)
      (s := ⟨rest, update s.mem mem fun _ => 0⟩) hv habs htable
    refine ⟨mem, d', t, ?_, ?_⟩
    · rw [bind_of_ok hk]
      dsimp only
      rw [bind_of_ok (show fillPage mem 0 ⟨rest, s.mem⟩ = .ok ((), _) from rfl), bind_of_ok hmap]
      rfl
    · rw [(mappages_user_ok hv hmap).1.ent v (Nat.lt_trans hv (by decide)), if_pos ⟨rfl, rfl⟩]
      rfl

/-- Without it, no page is mapped; a page whose table cannot be had is given back. -/
theorem faultPage_starved (hv : v < userPages) (hshort : s.freelist.length < 1 + missing d (v / 1024)) :
    faultPage M d (v * PGSIZE) s = .ok ((d, false), s) ∨ ∃ mem t, mem ∈ s.freelist ∧
        faultPage M d (v * PGSIZE) s = (kfree M mem >>= fun _ => pure (d, false)) t := by
  unfold faultPage
  rcases kalloc_cases s with ⟨-, hk⟩ | ⟨mem, rest, hcons, hk⟩
  · left
    rw [bind_of_ok hk]
    rfl
  · right
    rw [hcons, List.length_cons] at hshort
    have hone := missing_le_one d (v / 1024)
    have hnil : rest = [] := List.eq_nil_of_length_eq_zero (by omega)
    refine ⟨mem, ⟨rest, update s.mem mem fun _ => 0⟩, by simp [hcons], ?_⟩
    rw [bind_of_ok hk]
    dsimp only
    rw [bind_of_ok (show fillPage mem 0 ⟨rest, s.mem⟩ = .ok ((), _) from rfl),
      bind_of_ok (mappages_starved (Nat.lt_trans hv (by decide)) (by omega) hnil)]
    rfl

theorem faultPage_cases (hv : v < userPages) (habs : (d.ent v).present = false)
    (hfree : ∀ page ∈ s.freelist, M.InRange page) :
    (1 + missing d (v / 1024) ≤ s.freelist.length ∧ ∃ mem d' t,
      faultPage M d (v * PGSIZE) s = .ok ((d', true), t) ∧ d'.ent v = faultPte mem) ∨
    (s.freelist.length < 1 + missing d (v / 1024) ∧ ∃ d' t,
      faultPage M d (v * PGSIZE) s = .ok ((d', false), t)) := by
  rcases Nat.lt_or_ge s.freelist.length (1 + missing d (v / 1024)) with hshort | henough
  · refine .inr ⟨hshort, d, ?_⟩
    rcases faultPage_starved (M := M) hv hshort with hrun | ⟨mem, t, hmem, hrun⟩
    · exact ⟨s, hrun⟩
    · rw [hrun, bind_of_ok (kfree_of_inRange (hfree mem hmem) t)]
      exact ⟨_, rfl⟩
  · exact .inl ⟨henough, faultPage_enough hv habs henough⟩

end FaultPage

/-- The case `T_PGFLT` of `trap` returns, and the fault has been served or not. -/
theorem pageFault_cases (c cr2 : Nat) {i : Nat} {d : PageDir} (hdir : (k.proc i).pgdir = some d)
    (hfree : ∀ page ∈ k.kmem.freelist, M.InRange page) :
    (Serves k i d cr2 ∧ ∃ mem d' s, pageFault M c i cr2 k = .ok ((), served k c i d' s) ∧
      d'.pte cr2 = faultPte mem) ∨
    (¬Serves k i d cr2 ∧ ∃ d' s, pageFault M c i cr2 k = .ok ((), unserved k i d' s) ∧
      d'.pte cr2 = d.pte cr2) := by
  have hkill : setKilled i k = .ok ((), unserved k i d k.kmem) := by
    unfold unserved
    rw [← hdir]
    rfl
  unfold pageFault
  rw [getProc_bind]
  split_ifs with hlow
  · refine .inr ⟨?_, d, k.kmem, hkill, rfl⟩
    rintro ⟨hnot, -⟩
    rcases hlow with hva | hsz
    · exact hnot (.inl hva)
    · exact hnot (.inr (.inl hsz))
  · have hva : PGROUNDDOWN cr2 < KERNBASE := by
      by_contra hge
      exact hlow (.inl (by omega))
    have hv := page_lt_of_low hva
    have hvpn : vpn cr2 = cr2 / PGSIZE := Nat.mod_eq_of_lt (by simp only [userPages] at hv; omega)
    have hround : d.pte (PGROUNDDOWN cr2) = d.ent (cr2 / PGSIZE) := by
      rw [PageDir.pte_eq_ent, PGROUNDDOWN, vpn_mul_PGSIZE (by simp only [userPages] at hv; omega)]
    have hpte : ∀ e : PageDir, e.pte cr2 = e.ent (cr2 / PGSIZE) := by
      intro e
      rw [PageDir.pte_eq_ent, hvpn]
    rw [bind_of_ok (pgdirOf_some hdir), hround]
    split_ifs with hp
    · refine .inr ⟨?_, d, k.kmem, hkill, rfl⟩
      rintro ⟨hnot, -⟩
      exact hnot (.inr (.inr hp))
    · have hnot : ¬Refused (k.proc i) d cr2 := by
        rintro (hge | hsz | hpres)
        · omega
        · exact hlow (.inr hsz)
        · exact hp hpres
      rcases faultPage_cases hv (by simpa using hp) hfree with
        ⟨hlen, mem, d', t, hrun, hent⟩ | ⟨hlen, d', t, hrun⟩
      · refine .inl ⟨⟨hnot, hlen⟩, mem, d', t, ?_, (hpte d').trans hent⟩
        rw [show PGROUNDDOWN cr2 = cr2 / PGSIZE * PGSIZE from rfl, bind_of_ok (liftVm_of_ok hrun)]
        rfl
      · refine .inr ⟨fun hs => absurd hs.2 (by omega), d', t, ?_, ?_⟩
        · rw [show PGROUNDDOWN cr2 = cr2 / PGSIZE * PGSIZE from rfl, bind_of_ok (liftVm_of_ok hrun)]
          simp [unserved, modProc, setKilled, bind_apply]
        · rw [hpte, hpte]
          exact (faultPage_ok hv hrun).refused rfl

/-! ## Progress -/

/-- What holds of the kernel when a fault is taken on CPU `c`. -/
structure Orderly (M : Machine) (k : Kernel) (c : Nat) : Prop where
  current : ∀ i, (k.cpu c).proc = some i → (k.proc i).state = .running ∧ (k.proc i).pgdir.isSome
  free : ∀ page ∈ k.kmem.freelist, M.InRange page
  pipes : PipesHeld k

section

variable {c i cr2 : Nat} {user write : Bool} {context : Context} {d : PageDir}

/-- Without a process the fault is taken again. -/
theorem progress_none (hc : (k.cpu c).proc = none) :
    Progress M k c cr2 user write context ↔ k.Permits c cr2 user write := by
  have hrun : trapPgflt M c cr2 user context k = .ok ((), k) := by
    unfold trapPgflt
    rw [bind_of_ok (get_apply k), hc]
    rfl
  unfold Progress
  rw [hrun]
  simp [hc]

theorem Kernel.active_some (hc : (k.cpu c).proc = some i) (hdir : (k.proc i).pgdir = some d) :
    k.active c = d := by
  unfold active
  rw [hc]
  dsimp only
  rw [hdir]
  rfl

/-- The killed process exits on its way to user mode. -/
theorem progress_exits {k1 : Kernel} (hc : (k.cpu c).proc = some i)
    (hrun : pageFault M c i cr2 k = .ok ((), k1)) (hheld : PipesHeld k1)
    (hkilled : (k1.proc i).killed = true) : Progress M k c cr2 true write context := by
  have htrap : trapPgflt M c cr2 true context k = exit M c i context k1 := by
    unfold trapPgflt
    rw [bind_of_ok (get_apply k), hc]
    dsimp only
    rw [bind_of_ok hrun]
    unfold exitIfKilled
    rw [getProc_bind, hkilled]
    rfl
  unfold Progress
  rw [htrap]
  cases hexit : exit M c i context k1 with
  | ok r => exact .inr ⟨i, hc, exit_zombie.of_ok hheld hexit⟩
  | error e =>
    obtain ⟨p, rfl⟩ := exit_zombie.of_error hheld hexit
    trivial

/-- The handler returns to the instruction that faulted. -/
theorem progress_returns {k1 : Kernel} (hc : (k.cpu c).proc = some i)
    (hrun : pageFault M c i cr2 k = .ok ((), k1)) (hback : ((k1.proc i).killed && user) = false)
    (hlive : (k1.proc i).state ≠ .zombie) :
    Progress M k c cr2 user write context ↔ k1.Permits c cr2 user write := by
  have htrap : trapPgflt M c cr2 user context k = .ok ((), k1) := by
    unfold trapPgflt
    rw [bind_of_ok (get_apply k), hc]
    dsimp only
    rw [bind_of_ok hrun]
    unfold exitIfKilled
    rw [getProc_bind, hback]
    rfl
  unfold Progress
  rw [htrap]
  constructor
  · rintro (hpermits | ⟨j, hj, hzombie⟩)
    · exact hpermits
    · rw [hc] at hj
      cases hj
      exact absurd hzombie hlive
  · exact .inl

/-- For the current process: a fault from user mode always makes progress, one from the kernel
if it is served. -/
theorem progress_some (hk : Orderly M k c) (hc : (k.cpu c).proc = some i)
    (hdir : (k.proc i).pgdir = some d) (hfault : ¬k.Permits c cr2 user write) :
    Progress M k c cr2 user write context ↔ user = true ∨ Serves k i d cr2 := by
  have hlive : (k.proc i).state ≠ .zombie := by
    rw [(hk.current i hc).1]
    decide
  rcases pageFault_cases c cr2 hdir hk.free with
    ⟨hserves, mem, d', s, hrun, hpte⟩ | ⟨hnot, d', s, hrun, hpte⟩
  · refine iff_of_true ?_ (.inr hserves)
    have hheld : PipesHeld (served k c i d' s) := hk.pipes.of_eq rfl rfl
    cases hback : ((served k c i d' s).proc i).killed && user with
    | true =>
      rw [Bool.and_eq_true] at hback
      obtain ⟨hkilled, rfl⟩ := hback
      exact progress_exits hc hrun hheld hkilled
    | false =>
      refine (progress_returns hc hrun hback ?_).mpr ?_
      · simpa [served] using hlive
      · have hactive : (served k c i d' s).active c = d' := by
          apply Kernel.active_some (i := i)
          · exact (flush_proc k c c).trans hc
          · simp [served]
        unfold Kernel.Permits
        rw [hactive, hpte]
        exact permits_faultPte mem user write
  · have hkilled : ((unserved k i d' s).proc i).killed = true := by simp [unserved]
    cases user with
    | true => exact iff_of_true (progress_exits hc hrun (hk.pipes.of_eq rfl rfl) hkilled) (.inl rfl)
    | false =>
      have hactive : (unserved k i d' s).active c = d' := by
        apply Kernel.active_some (i := i)
        · exact hc
        · simp [unserved]
      rw [progress_returns hc hrun (by simp) (by simpa [unserved] using hlive)]
      refine iff_of_false ?_ (by simpa using hnot)
      -- the entry is as it was when the access was refused
      unfold Kernel.Permits at hfault ⊢
      rw [hactive, hpte]
      rw [Kernel.active_some hc hdir] at hfault
      exact hfault

/-- A page fault makes progress exactly if there is a process, and the fault comes from user mode
or is served. -/
theorem fault_progress (hk : Orderly M k c) (hfault : ¬k.Permits c cr2 user write) :
    Progress M k c cr2 user write context ↔ ∃ i d, (k.cpu c).proc = some i ∧
      (k.proc i).pgdir = some d ∧ (user = true ∨ Serves k i d cr2) := by
  cases hc : (k.cpu c).proc with
  | none =>
    rw [progress_none hc]
    exact iff_of_false hfault (by simp)
  | some i =>
    obtain ⟨d, hdir⟩ := Option.isSome_iff_exists.mp (hk.current i hc).2
    rw [progress_some hk hc hdir hfault]
    constructor
    · intro h
      exact ⟨i, d, rfl, hdir, h⟩
    · rintro ⟨j, e, hj, hdir', h⟩
      cases hj
      rw [hdir] at hdir'
      cases hdir'
      exact h

end

/-- A process that runs, on a machine with these pages left. -/
def busy (pages : List Nat) : Kernel :=
  { lone 0x4000 with kmem := ⟨pages, fun _ _ => 7⟩, cpu := fun _ => ⟨some 0, 0⟩ }

theorem busy_orderly {pages : List Nat} (hfree : ∀ page ∈ pages, pc.InRange page) :
    Orderly pc (busy pages) 0 := by
  refine ⟨?_, hfree, nofun, nofun⟩
  intro i hi
  exact ⟨rfl, rfl⟩

/-- A store of the kernel to a page below the process's size that is not there yet. -/
theorem fault_progress_served : Progress pc (busy [0x400]) 0 0x2000 false true ⟨0, 0, 0, 0, 0⟩ := by
  have hk : Orderly pc (busy [0x400]) 0 := busy_orderly (by decide)
  refine (fault_progress hk ?_).mpr ⟨0, progDir, rfl, rfl, .inr ⟨?_, ?_⟩⟩
  · unfold Kernel.Permits
    decide
  · rintro (h | h | h) <;> revert h <;> decide
  · decide

/-- The same store when no page is left returns to the instruction that faulted, and so does a
load of the kernel from an address of its own that is not mapped, and any fault without a
process. -/
theorem fault_repeats : ¬Progress pc (busy []) 0 0x2000 false true ⟨0, 0, 0, 0, 0⟩ ∧
    ¬Progress pc (busy [0x400]) 0 0xd0000000 false false ⟨0, 0, 0, 0, 0⟩ ∧
    ¬Progress pc (blank (PageDir.empty 0x303) ⟨[], fun _ _ => 0⟩) 0 0 false false ⟨0, 0, 0, 0, 0⟩ := by
  refine ⟨?_, ?_, ?_⟩
  · rw [progress_some (busy_orderly (by decide)) (i := 0) (d := progDir) rfl rfl
      (by unfold Kernel.Permits; decide)]
    rintro (h | ⟨-, hlen⟩)
    · cases h
    · exact absurd hlen (by decide)
  · rw [progress_some (busy_orderly (by decide)) (i := 0) (d := progDir) rfl rfl
      (by unfold Kernel.Permits; decide)]
    rintro (h | ⟨hnot, -⟩)
    · cases h
    · exact hnot (.inl (by decide))
  · rw [progress_none rfl]
    unfold Kernel.Permits
    decide

end Proc
end Xv6
