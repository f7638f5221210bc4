import Xv6.Vm.Copyuvm
import Xv6.Vm.Load
import Xv6.Proc.Sbrk

/-!
# A fork that fails (`proc.c`, `vm.c`)

When `fork` returns -1 it should have left no trace.  Two things remain.  The slot that
`allocproc` had chosen keeps the pid it was given, since neither error path resets it; and the
page that `copyuvm` could not map is not freed.  `noTrace_iff` says that all else is as before.
-/

namespace Xv6
namespace Proc

open Lib Lib.Exec Vm Function

/-- What a failed `fork` of process `i`, with directory `d`, should leave as it was. -/
structure NoTrace (k k' : Kernel) (i : Nat) (d : PageDir) : Prop where
  free : ∀ page, k'.kmem.free page = k.kmem.free page
  parent : k'.proc i = k.proc i
  memory : ∀ u, u < userPages → (d.ent u).present = true →
    k'.kmem.mem (d.ent u).ppn = k.kmem.mem (d.ent u).ppn
  files : k'.ftable = k.ftable
  inodes : k'.iref = k.iref
  slots : ∀ j, (k'.proc j).state = (k.proc j).state ∧ (k'.proc j).pid = (k.proc j).pid

/-- After `allocproc`, the copy of some page can be made but not its page table. -/
def CopyStarves (M : Machine) (d : PageDir) (s : Kmem) : Prop :=
  ∃ page t, kalloc s = .ok (some page, t) ∧ TableFails M d t

variable {M : Machine} {k k' : Kernel} {i : Nat} {d : PageDir}

/-- The pages after a failed copy: all are back, or one is lost. -/
theorem copy_conserves {page : Nat} {s s1 s2 : Kmem} {u : Unit}
    (halloc : kalloc k.kmem = .ok (some page, s1)) (hcopy : copyuvm M d s1 = .ok (none, s2))
    (hfree : kfree M page s2 = .ok (u, s)) :
    (¬CopyStarves M d k.kmem ∧ Conserves k.kmem s nothing nothing) ∨
      (CopyStarves M d k.kmem ∧ ∃ mem, Conserves k.kmem s nothing (single mem)) := by
  have hstarves : CopyStarves M d k.kmem ↔ TableFails M d s1 := by
    constructor
    · rintro ⟨page', t, halloc', hfails⟩
      rw [halloc] at halloc'
      cases halloc'
      exact hfails
    · intro hfails
      exact ⟨page, s1, halloc, hfails⟩
  -- the stack page goes out and comes back around the copy
  have hround : ∀ lost, Conserves s1 s2 nothing lost → Conserves k.kmem s nothing lost := by
    intro lost hc
    have htake : Conserves k.kmem s1 nothing fun p => nothing p + single page p :=
      (kalloc_some halloc).1.congr (fun _ => rfl) fun p => by simp [nothing]
    exact (htake.trans (hc.carry (single page))).trans (kfree_conserves_add hfree)
  rw [hstarves]
  rcases copyuvm_fails hcopy with ⟨hnot, hc⟩ | ⟨hfails, mem, hc⟩
  · exact .inl ⟨hnot, hround _ hc⟩
  · exact .inr ⟨hfails, mem, hround _ hc⟩

/-- The memory after a failed `fork`. -/
theorem failed_conserves {s : Kmem} (h : s = k.kmem ∧ kalloc k.kmem = .ok (none, k.kmem) ∨
      ∃ page s1 s2 u, kalloc k.kmem = .ok (some page, s1) ∧
        copyuvm M d s1 = .ok (none, s2) ∧ kfree M page s2 = .ok (u, s)) :
    (¬CopyStarves M d k.kmem ∧ Conserves k.kmem s nothing nothing) ∨
      (CopyStarves M d k.kmem ∧ ∃ mem, Conserves k.kmem s nothing (single mem)) := by
  rcases h with ⟨rfl, hnone⟩ | ⟨page, s1, s2, u, halloc, hcopy, hfree⟩
  · refine .inl ⟨?_, Conserves.refl _ _⟩
    rintro ⟨page, t, halloc, -⟩
    rw [hnone] at halloc
    cases halloc
  · exact copy_conserves halloc hcopy hfree

/-- A page that is lost is missing from the free list. -/
theorem free_eq_iff {s s' : Kmem} (h : (¬CopyStarves M d s ∧ Conserves s s' nothing nothing) ∨
    (CopyStarves M d s ∧ ∃ mem, Conserves s s' nothing (single mem))) :
    (∀ page, s'.free page = s.free page) ↔ ¬CopyStarves M d s := by
  rcases h with ⟨hnot, hc⟩ | ⟨hstarves, mem, hc⟩
  · refine iff_of_true ?_ hnot
    intro page
    exact hc.ledger page
  · refine iff_of_false ?_ (not_not_intro hstarves)
    intro hsame
    have hledger := hc.ledger mem
    rw [hsame mem, single_self] at hledger
    simp only [nothing] at hledger
    omega

/-- A failed `fork` has left no trace exactly if there was no slot, or the slot had the pid
already and no page was lost. -/
theorem noTrace_iff (hdir : (k.proc i).pgdir = some d) (hlive : (k.proc i).state ≠ .unused)
    (hmem : ∀ u, u < userPages → (d.ent u).present = true → k.kmem.free (d.ent u).ppn = 0)
    (h : fork M i k = .ok (-1, k')) :
    NoTrace k k' i d ↔ ∀ n, findProc k (fun p => p.state == .unused) = some n →
      (k.proc n).pid = k.nextpid ∧ ¬CopyStarves M d k.kmem := by
  rcases fork_ok hlive hdir h with ⟨-, hfailed⟩ | ⟨n, hpid, -⟩
  swap
  · -- a successful call does not return -1
    omega
  rcases hfailed with ⟨hnone, rfl⟩ | ⟨n, q, s, hn, hstate, hpid, -, -, -, hpages, rfl⟩
  · rw [hnone]
    exact iff_of_true ⟨fun _ => rfl, rfl, fun _ _ _ => rfl, rfl, rfl, fun _ => ⟨rfl, rfl⟩⟩ nofun
  · have hunused : (k.proc n).state = .unused := by
      simpa using (findProc_some hn).2
    have hni : i ≠ n := by
      rintro rfl
      exact hlive hunused
    have hcons := failed_conserves hpages
    rw [hn]
    constructor
    · intro htrace n' hn'
      cases hn'
      refine ⟨?_, (free_eq_iff hcons).mp htrace.free⟩
      have hslot := (htrace.slots n).2
      rw [← hslot]
      simpa using hpid
    · intro hcond
      obtain ⟨hsame, hnot⟩ := hcond n rfl
      refine ⟨(free_eq_iff hcons).mpr hnot, update_of_ne hni _ _, ?_, rfl, rfl, ?_⟩
      · intro u hu hp
        rcases hcons with ⟨-, hc⟩ | ⟨hstarves, -⟩
        · exact hc.frame _ (hmem u hu hp) rfl
        · exact absurd hstarves hnot
      · intro j
        by_cases hj : j = n
        · subst hj
          have hslot : update k.proc j q j = q := update_self ..
          show (update k.proc j q j).state = _ ∧ (update k.proc j q j).pid = _
          rw [hslot]
          exact ⟨hstate.trans hunused.symm, hpid.trans hsame.symm⟩
        · simp only [update_of_ne hj, and_self]

theorem findProc_exists {test : Process → Bool} {n : Nat} (hn : n < NPROC) (h : test (k.proc n) = true) :
    ∃ m, findProc k test = some m := by
  rw [← Option.isSome_iff_exists, findProc, List.find?_isSome]
  exact ⟨n, List.mem_range.mpr hn, h⟩

/-- Without open files there is nothing to duplicate. -/
theorem dupFiles_none {n : Nat} (h : ∀ fd, (k.proc i).ofile fd = none) :
    dupFiles i n k = .ok ((), k) := by
  unfold dupFiles
  induction NOFILE with
  | zero => rfl
  | succ m ih =>
    rw [Exec.upto, bind_of_ok ih, getProc_bind, h m]
    rfl

theorem dupCwd_returns (cwd : Option Nat) (k : Kernel) : ∃ k', dupCwd cwd k = .ok ((), k') := by
  cases cwd with
  | none => exact ⟨k, rfl⟩
  | some ip => exact ⟨_, rfl⟩

/-- A process without open files forks if there is a slot, and enough pages. -/
theorem fork_total {n : Nat} {us : Finset Nat} (hn : findProc k (fun p => p.state == .unused) = some n)
    (hlive : (k.proc i).state ≠ .unused) (hdir : (k.proc i).pgdir = some d)
    (hfiles : ∀ fd, (k.proc i).ofile fd = none)
    (hus : ∀ u, u < userPages → (d.ent u).present = true → u ∈ us)
    (hlen : setupCost + 2 * us.card + 1 ≤ k.kmem.freelist.length) :
    ∃ k', fork M i k = .ok (k.nextpid, k') ∧ Forked M i n k k' d := by
  obtain ⟨page, s, hk, hsp⟩ := kalloc_total (s := k.kmem) (by omega)
  have hspent : k.kmem.freelist.length ≤ s.freelist.length + 1 := hsp
  obtain ⟨child, t, hcopy⟩ := copyuvm_total (M := M) (s := s) hus (by omega)
  have hni : i ≠ n := by
    rintro rfl
    exact hlive (by simpa using (findProc_some hn).2)
  have hret : Returns (fork M i) k fun r _ => 0 ≤ r := by
    refine .bind (.of_ok (allocproc_total hn hk) (.bind (.of_ok rfl ?_)))
    refine .bind (.of_ok (pgdirOf_some ((congrArg Process.pgdir (update_of_ne hni _ _)).trans hdir)) ?_)
    refine .bind (.of_ok (liftVm_of_ok hcopy) (.bind (.of_ok rfl ?_)))
    refine .bind (.of_ok (dupFiles_none fun fd => ?_) ?_)
    · simpa [update_of_ne hni] using hfiles fd
    · obtain ⟨k1, hcwd⟩ := dupCwd_returns _ _
      refine .bind (.of_ok hcwd (.bind (.of_ok rfl (.bind (.of_ok rfl (.of_ok rfl ?_))))))
      exact Int.natCast_nonneg _
  obtain ⟨r, k', hfork, hr⟩ := hret
  rcases fork_ok hlive hdir hfork with ⟨rfl, -⟩ | ⟨m, rfl, hforked⟩
  · exact absurd hr (by decide)
  · have hm := hforked.slot
    rw [hn] at hm
    cases hm
    exact ⟨k', hfork, hforked⟩

/-- Without a directory for the child `fork` returns -1. -/
theorem fork_starved {n page : Nat} {s t : Kmem} (hn : findProc k (fun p => p.state == .unused) = some n)
    (hlive : (k.proc i).state ≠ .unused) (hdir : (k.proc i).pgdir = some d)
    (hk : kalloc k.kmem = .ok (some page, s)) (hpage : M.InRange page)
    (hset : setupkvm M s = .ok (none, t)) : ∃ k', fork M i k = .ok (-1, k') := by
  have hcopy : copyuvm M d s = .ok (none, t) := by
    rw [copyuvm, bind_of_ok hset]
    rfl
  have hni : i ≠ n := by
    rintro rfl
    exact hlive (by simpa using (findProc_some hn).2)
  have hret : Returns (fork M i) k fun r _ => r = -1 := by
    refine .bind (.of_ok (allocproc_total hn hk) (.bind (.of_ok rfl ?_)))
    refine .bind (.of_ok (pgdirOf_some ((congrArg Process.pgdir (update_of_ne hni _ _)).trans hdir)) ?_)
    refine .bind (.of_ok (liftVm_of_ok hcopy) (.bind (.of_ok rfl ?_)))
    simp only [update_self, embryo]
    exact .bind (.of_ok (liftVm_of_ok (kfree_of_inRange hpage _)) (.bind (.of_ok rfl (.of_ok rfl rfl))))
  obtain ⟨_, k', hfork, rfl⟩ := hret
  exact ⟨k', hfork⟩

/-- One process on a machine with two free pages, whose free slots have the next pid already. -/
def crowded : Kernel :=
  { blank (PageDir.empty 0x303) ⟨[0x400, 0x401], fun _ _ => 7⟩ with
    proc := update (fun _ => { Process.zero with pid := 2 }) 0
      { Process.zero with sz := 0x1000, pgdir := some progDir, state := .running, pid := 1 }
    nextpid := 2 }

/-- The child gets a kernel stack and a directory, but no page table: `fork` fails, and both pages are
free again. -/
theorem noTrace_crowded : ∃ k', fork pc 0 crowded = .ok (-1, k') ∧ NoTrace crowded k' 0 progDir ∧
    0 < k'.kmem.free 0x400 ∧ 0 < k'.kmem.free 0x401 := by
  have hslot : findProc crowded (fun p => p.state == .unused) = some 1 := rfl
  have hstack : kalloc crowded.kmem = .ok (some 0x400, ⟨[0x401], fun _ _ => 7⟩) := rfl
  obtain ⟨t, hset⟩ := setupkvm_starved (fun _ _ => 7) (by decide : pc.InRange 0x401)
  obtain ⟨k', hfork⟩ := fork_starved (i := 0) hslot (by decide) rfl hstack (by decide) hset
  have htrace : NoTrace crowded k' 0 progDir := by
    refine (noTrace_iff rfl (by decide) (fun u hu hp => ?_) hfork).mpr ?_
    · rw [progDir, PageDir.ent_setPte _ _ (Nat.lt_trans hu (by decide)) rfl,
        PageDir.ent_addTable _ _ _ rfl] at hp ⊢
      split_ifs at hp ⊢
      · decide
      · simp [PageDir.empty, PageDir.ent] at hp
    · intro n hn
      cases hn
      refine ⟨rfl, ?_⟩
      rintro ⟨page, s, halloc, d, t', hset', -⟩
      rw [hstack] at halloc
      cases halloc
      rw [hset] at hset'
      cases hset'
  refine ⟨k', hfork, htrace, ?_, ?_⟩
  · rw [htrace.free]
    decide
  · rw [htrace.free]
    decide

/-- One process on a machine that has no page left. -/
def exhausted : Kernel :=
  { blank (PageDir.empty 0x303) ⟨[], fun _ _ => 7⟩ with
    proc := update (fun _ => Process.zero) 0
      { Process.zero with sz := 0x1000, pgdir := some progDir, state := .running, pid := 1 }
    nextpid := 2 }

/-- Without memory `fork` fails, and the free slot that it had chosen is left with pid 2. -/
theorem fork_leaves_pid : ∃ k', fork pc 0 exhausted = .ok (-1, k') ∧
    (k'.proc 1).state = .unused ∧ (exhausted.proc 1).pid = 0 ∧ (k'.proc 1).pid = 2 ∧
      ¬NoTrace exhausted k' 0 progDir := by
  refine ⟨_, rfl, rfl, rfl, rfl, ?_⟩
  intro htrace
  exact absurd (htrace.slots 1).2 (by decide)

end Proc
end Xv6
