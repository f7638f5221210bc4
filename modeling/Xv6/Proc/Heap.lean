import Xv6.Vm.Load
import Xv6.Proc.Sbrk

/-!
# Where the heap starts (`exec.c`, `sysproc.c`)

`exec` gives every program the size `PGROUNDDOWN(0x3000)`, whatever its segments take, and
`sbrk` hands out the addresses from the size on.  The heap is apart from the program when no
segment reaches beyond `0x3000`, and as long as the process does not give back a part of a
segment.
-/

namespace Xv6
namespace Proc

open Lib Lib.Exec Vm

variable {M : Machine} {k k' : Kernel} {i c : Nat} {n r : Int} {last : List UInt8}
  {readi : Nat → Nat → List UInt8} {argv : List (List UInt8)}

/-- The size that `exec` installs. -/
theorem exec_sz (h : exec M c i last readi argv k = .ok (0, k')) : (k'.proc i).sz = 0x3000 := by
  unfold exec at h
  obtain ⟨q, k1, hlift, h1⟩ := bind_eq_ok.mp h
  obtain ⟨s, himage, rfl⟩ := liftVm_ok hlift
  rcases execImage_ok himage with ⟨im, rfl, -, -, hsz⟩ | ⟨rfl, -⟩
  · dsimp only at h1
    rw [getProc_bind] at h1
    simp only [bind_eq_ok] at h1
    obtain ⟨d0, k2, hpg, _, k3, hmod, _, k4, hsw, _, k5, hfv, h2⟩ := h1
    obtain ⟨-, rfl⟩ := pgdirOf_ok hpg
    cases hmod
    obtain rfl := switchuvm_ok hsw
    obtain ⟨s2, -, rfl⟩ := liftVm_ok hfv
    cases h2
    simp only [Function.update_self]
    exact hsz
  · cases h1

/-- What a call of `sys_sbrk` returns, and the size after it. -/
theorem sysSbrk_size (h : sysSbrk M i n k = .ok (r, k')) :
    (r = -1 ∧ (k'.proc i).sz = (k.proc i).sz) ∨
      (r = (k.proc i).sz ∧ (k'.proc i).sz = toUint ((k.proc i).sz + n)) := by
  unfold sysSbrk at h
  rw [getProc_bind] at h
  dsimp only at h
  by_cases hn : n < 0
  · rw [if_pos hn] at h
    obtain ⟨d, k1, hpg, h1⟩ := bind_eq_ok.mp h
    obtain ⟨-, rfl⟩ := pgdirOf_ok hpg
    obtain ⟨⟨d', sz⟩, k2, hlift, h2⟩ := bind_eq_ok.mp h1
    obtain ⟨s, -, rfl⟩ := liftVm_ok hlift
    obtain ⟨_, k3, hmod, h3⟩ := bind_eq_ok.mp h2
    cases hmod
    by_cases hsz : sz = 0
    · rw [if_pos hsz] at h3
      cases h3
      left
      simp
    · rw [if_neg hsz] at h3
      cases h3
      right
      simp
  · rw [if_neg hn] at h
    cases h
    right
    simp

/-- What may happen to the process after `exec`. -/
inductive Event where
  | sbrk (n : Int)
  /-- Anything that leaves the size of the process as it is. -/
  | other

/-- An event of process `i`. -/
def Happens (M : Machine) (i : Nat) (k : Kernel) : Event → Kernel → Prop
  | .sbrk n, k' => Word n ∧ ∃ r, sysSbrk M i n k = .ok (r, k')
  | .other, k' => (k'.proc i).sz = (k.proc i).sz

/-- The new size is a word, and leaves the segments in the process. -/
def Spares (segs : List Proghdr) (i : Nat) (k : Kernel) : Event → Prop
  | .sbrk n => (k.proc i).sz + n < 2 ^ 32 ∧ ∀ ph ∈ segs, (ph.stop : Int) ≤ (k.proc i).sz + n
  | .other => True

/-- The addresses that `sbrk` hands out are not in a segment. -/
def Apart (M : Machine) (segs : List Proghdr) (i : Nat) (k : Kernel) : Event → Prop
  | .sbrk n => ∀ r k', sysSbrk M i n k = .ok (r, k') → r ≠ -1 → 0 < n →
      ∀ ph ∈ segs, ∀ x : Int, r ≤ x → x < r + n → ¬(ph.vaddr ≤ x ∧ x < ph.stop)
  | .other => True

/-- Every segment ends in the process. -/
def Inside (segs : List Proghdr) (i : Nat) (k : Kernel) : Prop :=
  ∀ ph ∈ segs, ph.stop ≤ (k.proc i).sz

variable {segs : List Proghdr} {e : Event}

theorem Inside.apart (h : Inside segs i k) : Apart M segs i k e := by
  cases e with
  | other => trivial
  | sbrk n =>
    intro r k' hrun hr _ ph hph x hlo _ hin
    have hstop := h ph hph
    rcases sysSbrk_size hrun with ⟨hfail, -⟩ | ⟨hold, -⟩
    · exact hr hfail
    · omega

theorem Inside.step (h : Inside segs i k) (hstep : Happens M i k e k') (hspares : Spares segs i k e) :
    Inside segs i k' := by
  intro ph hph
  have hstop := h ph hph
  cases e with
  | other =>
    rw [show (k'.proc i).sz = (k.proc i).sz from hstep]
    exact hstop
  | sbrk n =>
    obtain ⟨-, r, hrun⟩ := hstep
    obtain ⟨hword, hends⟩ := hspares
    have hnew := hends ph hph
    rcases sysSbrk_size hrun with ⟨-, hsz⟩ | ⟨-, hsz⟩
    · rw [hsz]
      exact hstop
    · rw [hsz]
      unfold toUint
      omega

/-- A program is in the process that `exec` makes of it exactly if it ends at `0x3000` at the
latest.  Then, in every run whose calls of `sbrk` spare the segments, `sbrk` hands out only
addresses outside of them. -/
theorem heap_apart (M : Machine) (c i : Nat) (last : List UInt8) (readi : Nat → Nat → List UInt8)
    (argv : List (List UInt8)) (k k' : Kernel)
    (h : exec M c i last readi argv k = .ok (0, k')) :
    (Inside (loaded readi) i k' ↔ ∀ ph ∈ loaded readi, ph.stop ≤ 0x3000) ∧
    ((∀ ph ∈ loaded readi, ph.stop ≤ 0x3000) → ∀ es k'',
      Run (fun k e k' => Happens M i k e k' ∧ Spares (loaded readi) i k e) k' es k'' →
      Inside (loaded readi) i k'' ∧
      Run (fun k e k' => Happens M i k e k' ∧ Apart M (loaded readi) i k e) k' es k'') := by
  have hiff : Inside (loaded readi) i k' ↔ ∀ ph ∈ loaded readi, ph.stop ≤ 0x3000 := by
    unfold Inside
    rw [exec_sz h]
  refine ⟨hiff, ?_⟩
  intro hends es k'' hrun
  have hstart := hiff.mpr hends
  induction hrun with
  | nil => exact ⟨hstart, .nil⟩
  | snoc _ hstep ih =>
    obtain ⟨hinside, hruns⟩ := ih
    exact ⟨hinside.step hstep.1 hstep.2, hruns.snoc ⟨hstep.1, hinside.apart⟩⟩

/-! ### A program that is not below `0x3000` -/

/-- An ELF file with one segment of uninitialised data. -/
def bssFile (memsz : Nat) : List UInt8 :=
  wordBytes ELF_MAGIC ++ List.replicate 24 0 ++ wordBytes 52 ++ List.replicate 12 0 ++
    [1, 0] ++ List.replicate 6 0 ++
    [ELF_PROG_LOAD, 0, 0, 0, 0, memsz, 0, PGSIZE].flatMap wordBytes

/-- What `readi` delivers of a file. -/
def readFile (bytes : List UInt8) (off n : Nat) : List UInt8 := (bytes.drop off).take n

theorem bssFile_oneSegment : OneSegment (readFile (bssFile 0x1000)) 1 :=
  ⟨by decide, by decide, by decide, by decide⟩

/-- The image is committed to, and the old one is given back. -/
theorem exec_committed {im : Image} {d : PageDir} {page : Nat} {s t : Kmem}
    (hstack : (k.proc i).kstack = some page) (hdir : (k.proc i).pgdir = some d)
    (himage : execImage M readi argv k.kmem = .ok (some im, s)) (hfree : freevm M d s = .ok ((), t)) :
    ∃ k', exec M c i last readi argv k = .ok (0, k') ∧ k'.kmem = t ∧
      k'.proc i = execed (k.proc i) last im := by
  have hret : Returns (exec M c i last readi argv) k fun r k' =>
      r = 0 ∧ k'.kmem = t ∧ k'.proc i = execed (k.proc i) last im := by
    refine .bind (.of_ok (liftVm_of_ok himage) ?_)
    refine .bind (.of_ok rfl (.bind (.of_ok (pgdirOf_some hdir) (.bind (.of_ok rfl ?_)))))
    refine .bind (.of_ok (@switchuvm_total _ i im.pgdir c page ?_ ?_) ?_)
    · simpa using hstack
    · simp
    · refine .bind (.of_ok (liftVm_of_ok hfree) (.of_ok rfl ⟨rfl, rfl, ?_⟩))
      simp [execed]
  obtain ⟨_, k', hrun, rfl, hk'⟩ := hret
  exact ⟨k', hrun, hk'⟩

/-- `exec` succeeds on a file with one segment. -/
theorem exec_total {m page stack : Nat} (hfile : OneSegment readi m) (hm : 0 < m ∧ m < 0x7ffff)
    (hargs : argv.length ≤ MAXARG ∧ argBytes argv ≤ 0xe00)
    (hlen : setupCost + 2 * m + 2 ≤ k.kmem.freelist.length)
    (hram : ∀ p ∈ k.kmem.freelist, p < PHYSTOP / PGSIZE) (hpage : M.InRange page)
    (hdir : (k.proc i).pgdir = some (PageDir.empty page)) (hstack : (k.proc i).kstack = some stack) :
    ∃ k' d, exec M c i last readi argv k = .ok (0, k') ∧ (k'.proc i).pgdir = some d := by
  obtain ⟨im, s, himage⟩ := execImage_total (M := M) hfile hm hargs hlen hram
  obtain ⟨t, hfree⟩ := freevm_empty (s := s) hpage
  obtain ⟨k', hrun, -, hproc⟩ := exec_committed hstack hdir himage hfree
  exact ⟨k', im.pgdir, hrun, by rw [hproc]; rfl⟩

/-- Processes with an empty directory, on a machine with 500 free pages. -/
def fresh : Kernel :=
  { blank (PageDir.empty 0x303) ⟨List.range' 0x400 500, fun _ _ => 0⟩ with
    proc := fun _ => { Process.zero with
      kstack := some 0x300, pgdir := some (PageDir.empty 0x301), state := .running } }

theorem fresh_exec {m : Nat} (hfile : OneSegment readi m) (hm : 0 < m ∧ m ≤ 40)
    (argv : List (List UInt8)) (hargs : argv.length ≤ MAXARG ∧ argBytes argv ≤ 0xe00) :
    ∃ k' d, exec pc 0 0 [] readi argv fresh = .ok (0, k') ∧ (k'.proc 0).pgdir = some d := by
  have hcount : fresh.kmem.freelist.length = 500 := List.length_range'
  apply exec_total hfile ⟨hm.1, by omega⟩ hargs
  · rw [hcount]
    unfold setupCost
    omega
  · intro p hp
    have hp := (List.mem_range'_1.mp hp).2
    unfold PHYSTOP PGSIZE
    omega
  · show pc.InRange 0x301
    decide
  · rfl
  · rfl

/-- A program of one page gets a heap of its own. -/
theorem heap_apart_small : ∃ k' k'', exec pc 0 0 [] (readFile (bssFile 0x1000)) [] fresh = .ok (0, k') ∧
    Inside (loaded (readFile (bssFile 0x1000))) 0 k' ∧
    Run (fun k e k' => Happens pc 0 k e k' ∧ Apart pc (loaded (readFile (bssFile 0x1000))) 0 k e)
      k' [.sbrk 0x1000] k'' := by
  have hends : ∀ ph ∈ loaded (readFile (bssFile 0x1000)), ph.stop ≤ 0x3000 := by decide
  obtain ⟨k', d, hexec, hdir⟩ := fresh_exec bssFile_oneSegment (by decide) [] (by decide)
  have hsz := exec_sz hexec
  obtain ⟨k'', hrun⟩ : ∃ k'', Run (fun k e k' => Happens pc 0 k e k' ∧
      Spares (loaded (readFile (bssFile 0x1000))) 0 k e) k' [.sbrk 0x1000] k'' := by
    refine ⟨_, Run.single ⟨⟨by decide, _, sysSbrk_grow hdir (by decide)⟩, ?_, ?_⟩⟩
    · rw [hsz]
      decide
    · intro ph hph
      have hstop := hends ph hph
      rw [hsz]
      omega
  have hall := heap_apart pc 0 0 [] (readFile (bssFile 0x1000)) [] fresh k' hexec
  exact ⟨k', k'', hexec, hall.1.mpr hends, (hall.2 hends _ _ hrun).2⟩

/-- A program of five pages: the process that `exec` makes ends in its segment, and the first
page that `sbrk` hands out is a page of the segment. -/
theorem heap_overlaps : ∃ k' k'', exec pc 0 0 [] (readFile (bssFile 0x5000)) [] fresh = .ok (0, k') ∧
    ¬Inside (loaded (readFile (bssFile 0x5000))) 0 k' ∧
    sysSbrk pc 0 0x1000 k' = .ok (0x3000, k'') ∧
    ¬Apart pc (loaded (readFile (bssFile 0x5000))) 0 k' (.sbrk 0x1000) := by
  have hfile : OneSegment (readFile (bssFile 0x5000)) 5 := ⟨by decide, by decide, by decide, by decide⟩
  have hmem : (⟨ELF_PROG_LOAD, 0, 0, 0, 0x5000⟩ : Proghdr) ∈ loaded (readFile (bssFile 0x5000)) := by
    decide
  obtain ⟨k', d, hexec, hdir⟩ := fresh_exec hfile (by decide) [] (by decide)
  have hsz := exec_sz hexec
  have hsbrk := sysSbrk_grow (M := pc) (n := 0x1000) hdir (by decide)
  rw [hsz] at hsbrk
  refine ⟨k', _, hexec, ?_, hsbrk, ?_⟩
  · intro hinside
    have hstop := hinside _ hmem
    rw [hsz] at hstop
    exact absurd hstop (by decide)
  · intro hapart
    exact hapart _ _ hsbrk (by decide) (by decide) _ hmem 0x3000 (by decide) (by decide) (by decide)

end Proc
end Xv6
