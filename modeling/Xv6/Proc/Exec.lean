import Xv6.Fs.Write
import Xv6.Proc.Heap
import Xv6.Vm.Stack

/-!
# `exec` replaces the image as a whole or not at all

`exec` builds the new image beside the old one and commits to it at the end, where nothing can
fail any more.  Here the program file is a file of the file system: `State.reads` is what
`readi` delivers of it.

* `exec_failed` and `exec_committed` are the two ways in which `exec` returns.
* `exec_all_or_nothing` puts them together: one of the two happens, whatever the file, the
  arguments and the free list.
* `exec_stack_image` says what the new program finds on its stack.
-/

namespace Xv6

namespace Fs

/-- The bytes that `readi` delivers, for a count that is a word. -/
def State.reads (s : State) (ip off n : Nat) : List UInt8 :=
  if n < 2 ^ 32 then
    match readi ip off n s with
    | .ok (some bs, _) => bs
    | _ => []
  else []

open Vm in
/-- A well-formed inode is read as a regular file. -/
theorem WellFormed.reads_eq {s : State} {ip : Nat} (h : WellFormed s ip) :
    s.reads ip = regular (s.content ip) (s.inode ip).size := by
  funext off n
  unfold State.reads regular
  by_cases hn : n < 2 ^ 32
  · rw [if_pos hn, h.readi_eq hn]
    split
    · rename_i hread
      by_cases hin : off ≤ (s.inode ip).size ∧ off + n < 2 ^ 32
      · rw [if_pos hin] at hread ⊢
        cases hread
        rfl
      · rw [if_neg hin] at hread
        cases hread
    · rename_i hread
      by_cases hin : off ≤ (s.inode ip).size ∧ off + n < 2 ^ 32
      · rw [if_pos hin] at hread
        exact absurd rfl (hread _ _)
      · rw [if_neg hin]
  · rw [if_neg hn, if_neg]
    omega

end Fs

namespace Proc

open Lib Lib.Exec Vm Function

variable {M : Machine} {k : Kernel} {c i page : Nat} {last : List UInt8}
  {readi : Nat → Nat → List UInt8} {argv : List (List UInt8)} {d : PageDir} {s : Kmem}

/-- The image could not be built. -/
theorem exec_failed (himage : execImage M readi argv k.kmem = .ok (none, s)) :
    exec M c i last readi argv k = .ok (-1, { k with kmem := s }) := by
  unfold exec
  rw [bind_of_ok (liftVm_of_ok himage)]
  rfl

/-- Giving back the old image leaves the new one alone. -/
theorem byte_after_freevm {d' : PageDir} {t : Kmem} {x : Nat}
    (hpool : Pool M s fun p => d'.own p + d.own p) (hfree : freevm M d s = .ok ((), t))
    (hx : x < KERNBASE) : d'.byte t x = d'.byte s x := by
  by_cases hp : (d'.ent (x / PGSIZE)).present = true
  · rw [byte_of_present hp, byte_of_present hp]
    have hown := own_pos_of_present (userPage_lt hx) hp
    have honce := hpool.once (d'.ent (x / PGSIZE)).ppn
    rw [(freevm_ok hfree).frame _ (by omega) (by omega)]
  · have habs := Bool.eq_false_iff.mpr hp
    rw [byte_of_absent habs, byte_of_absent habs]

theorem fresh_pool : Pool pc fresh.kmem (PageDir.empty 0x301).own := by
  have hfree : ∀ p, 0 < fresh.kmem.free p → 0x400 ≤ p ∧ p < 0x400 + 500 := fun p hp =>
    List.mem_range'_1.mp (List.count_pos_iff.mp hp)
  have honce : ∀ p, fresh.kmem.free p ≤ 1 := List.nodup_iff_count_le_one.mp List.nodup_range'
  constructor
  · intro p hp
    rw [PageDir.own_empty] at hp
    by_cases hdir : 0x301 = p
    · subst hdir
      decide
    · rw [single_of_ne hdir, Nat.add_zero] at hp
      have hin := hfree p hp
      show 0x200 ≤ p ∧ p < PHYSTOP / PGSIZE
      unfold PHYSTOP PGSIZE
      omega
  · intro p
    rw [PageDir.own_empty]
    have hle := single_le_one 0x301 p
    have hfree := hfree p
    have honce := honce p
    by_cases hdir : 0x301 = p
    · omega
    · rw [single_of_ne hdir]
      exact honce

/-- `exec` of a file never panics and never hangs, whatever the bytes of the file and wherever the
pages run out.  If it fails, the processes and the free pages are as before.  If not, the
segments of the file are in memory, the later over the earlier, with zeros around them. -/
theorem exec_all_or_nothing (M : Machine) (k : Kernel) (c i page : Nat) (d : PageDir)
    (fs : Fs.State) (ip : Nat) (last : List UInt8) (argv : List (List UInt8))
    (hfile : Fs.WellFormed fs ip) (hstack : (k.proc i).kstack = some page)
    (hdir : (k.proc i).pgdir = some d) (hpool : Pool M k.kmem d.own)
    (hargs : argBytes argv < 2 ^ 20) :
    ∃ r k', exec M c i last (fs.reads ip) argv k = .ok (r, k') ∧
      ((r = -1 ∧ k'.proc = k.proc ∧ ∀ p, k'.kmem.free p = k.kmem.free p) ∨
        (r = 0 ∧ ∃ d', (k'.proc i).pgdir = some d' ∧ ∀ ph ∈ loaded (fs.reads ip), ∀ x, x < ph.stop →
            (d'.ent (x / PGSIZE)).present = true ∧
              d'.byte k'.kmem x = imageByte (fs.content ip) (loaded (fs.reads ip)) x)) := by
  have hnone : Pool M k.kmem nothing := hpool.mono fun _ => Nat.zero_le _
  obtain ⟨⟨q, s⟩, himage⟩ := @execImage_ends M k.kmem argv (fs.reads ip) hnone hargs
  cases q with
  | none =>
    refine ⟨-1, _, exec_failed himage, .inl ⟨rfl, rfl, fun p => ?_⟩⟩
    rcases execImage_ok himage with ⟨im, hsome, -⟩ | ⟨-, hc⟩
    · cases hsome
    · exact hc.ledger p
  | some im =>
    rcases execImage_ok himage with ⟨im', hsome, hc, -, -⟩ | ⟨hnone', -⟩
    · cases hsome
      -- the pages of both images and the free ones are different pages
      have hboth : Pool M s fun p => im.pgdir.own p + d.own p := by
        apply hpool.conserves
        exact (hc.carry d.own).congr (fun p => (Nat.zero_add _).symm) fun _ => rfl
      obtain ⟨⟨_, t⟩, hfree⟩ := freevm_ends (hboth.mono fun p => Nat.le_add_left (d.own p) _)
      obtain ⟨k', hexec, rfl, hproc⟩ := exec_committed hstack hdir himage hfree
      refine ⟨0, k', hexec, .inr ⟨rfl, im.pgdir, ?_, ?_⟩⟩
      · rw [hproc]
        rfl
      · intro ph hph x hx
        rw [hfile.reads_eq] at himage hph ⊢
        have hsize : (fs.inode ip).size < 2 ^ 32 :=
          hfile.size_le.trans_lt (by decide)
        obtain ⟨hxk, hp, hbyte⟩ := execImage_loaded hsize hnone hargs himage ph hph x hx
        refine ⟨hp, ?_⟩
        rw [← hbyte]
        exact byte_after_freevm hboth hfree hxk
    · cases hnone'

/-- A program of one page in the file system. -/
def program : Fs.State := Fs.sample Fs.T_FILE 1 fun _ => Fs.fill Block.zero 0 (bssFile 0x1000)

theorem program_wellFormed : Fs.WellFormed program 0 := Fs.sample_wellFormed (by decide) (by decide)

theorem program_oneSegment : OneSegment (program.reads 0) 1 := by
  have hreads : program.reads 0 = regular (patch Block.zero.byte 0 (bssFile 0x1000)) 512 := by
    rw [program_wellFormed.reads_eq]
    funext off n
    unfold regular
    refine if_congr Iff.rfl (firsts_congr fun o ho => ?_) rfl
    have hsize : (program.inode 0).size = 512 := rfl
    have hlt : off + o < 1 * BSIZE := by
      unfold BSIZE
      omega
    rw [program, Fs.sample_content hlt (by decide), Fs.byte_fill (Nat.mod_lt _ (by decide)),
      Nat.mod_eq_of_lt (by omega)]
  rw [hreads]
  exact ⟨by decide, by decide, by decide, by decide⟩

/-- A process with an empty directory executes the program, whose page is zero. -/
theorem exec_all_or_nothing_fresh : Pool pc fresh.kmem (PageDir.empty 0x301).own ∧
    ∃ k' d', exec pc 0 0 [] (program.reads 0) [[104, 105]] fresh = .ok (0, k') ∧
      (k'.proc 0).pgdir = some d' ∧ ∀ x, x < 0x1000 →
        (d'.ent (x / PGSIZE)).present = true ∧ d'.byte k'.kmem x = 0 := by
  obtain ⟨k', _, hexec, -⟩ := fresh_exec program_oneSegment (by decide) [[104, 105]] (by decide)
  obtain ⟨r, k1, hexec', hcase⟩ := exec_all_or_nothing pc fresh 0 0 0x300 (PageDir.empty 0x301)
    program 0 [] [[104, 105]] program_wellFormed rfl rfl fresh_pool (by decide)
  rw [hexec] at hexec'
  cases hexec'
  rcases hcase with ⟨hneg, -⟩ | ⟨-, d', hdir, hbytes⟩
  · exact absurd hneg (by decide)
  · rw [program_oneSegment.loaded_eq] at hbytes
    refine ⟨fresh_pool, k', d', hexec, hdir, fun x hx => ?_⟩
    obtain ⟨hp, hbyte⟩ := hbytes _ List.mem_cons_self x (by simpa [Proghdr.stop, PGSIZE] using hx)
    exact ⟨hp, by simpa [imageByte, Proghdr.put] using hbyte⟩

/-! ### The stack of the new program -/

/-- The stack of the image is the stack of the process, once the old image is given back. -/
theorem exec_pushed {k' : Kernel} (hstack : (k.proc i).kstack = some page)
    (hdir : (k.proc i).pgdir = some d) (hpool : Pool M k.kmem d.own)
    (h : exec M c i last readi argv k = .ok (0, k')) :
    ∃ d' t, (k'.proc i).pgdir = some d' ∧
      Pushed d' argv (KERNBASE - 1) [] (k'.proc i).tf.esp t k'.kmem := by
  have hnone : Pool M k.kmem nothing := hpool.mono fun _ => Nat.zero_le _
  obtain ⟨q, k1, hlift, -⟩ := bind_eq_ok.mp h
  obtain ⟨s, himage, -⟩ := liftVm_ok hlift
  rcases execImage_ok himage with ⟨im, rfl, hc, -, -⟩ | ⟨rfl, -⟩
  · have hboth : Pool M s fun p => im.pgdir.own p + d.own p := by
      apply hpool.conserves
      exact (hc.carry d.own).congr (fun p => (Nat.zero_add _).symm) fun _ => rfl
    obtain ⟨⟨_, t⟩, hfree⟩ := freevm_ends (hboth.mono fun p => Nat.le_add_left (d.own p) _)
    obtain ⟨k2, hexec, rfl, hproc⟩ := exec_committed hstack hdir himage hfree
    rw [hexec] at h
    cases h
    obtain ⟨t0, hpushed⟩ := execImage_pushed hnone himage
    refine ⟨im.pgdir, t0, ?_, ?_⟩
    · rw [hproc]
      rfl
    · rw [hproc]
      exact hpushed.after (by decide) fun x hx => byte_after_freevm hboth hfree hx
  · rw [exec_failed himage] at h
    cases h

/-- Where `exec` succeeds, the new program finds its arguments as the frame of `main` says, and
its stack pointer is a multiple of four where there is an argument.  Where strings and frame do
not fit into the stack page, `exec` returns -1. -/
theorem exec_stack_image (M : Machine) (k : Kernel) (c i page : Nat) (d : PageDir)
    (last : List UInt8) (readi : Nat → Nat → List UInt8) (argv : List (List UInt8))
    (hstack : (k.proc i).kstack = some page) (hdir : (k.proc i).pgdir = some d)
    (hpool : Pool M k.kmem d.own) :
    (∀ k', exec M c i last readi argv k = .ok (0, k') → ∃ d', (k'.proc i).pgdir = some d' ∧
      StackImage d' k'.kmem argv (k'.proc i).tf.esp ∧
      ((k'.proc i).tf.esp % 4 = 0 ↔ argv ≠ [])) ∧
    (argBytes argv < 2 ^ 20 → ¬Fits argv →
      ∃ k', exec M c i last readi argv k = .ok (-1, k')) := by
  constructor
  · intro k' h
    obtain ⟨d', t, hdir', hpushed⟩ := exec_pushed hstack hdir hpool h
    exact ⟨d', hdir', hpushed.stackImage, hpushed.aligned_iff⟩
  · intro hargs hfits
    have hnone : Pool M k.kmem nothing := hpool.mono fun _ => Nat.zero_le _
    obtain ⟨⟨q, s⟩, himage⟩ := @execImage_ends M k.kmem argv readi hnone hargs
    cases q with
    | none => exact ⟨_, exec_failed himage⟩
    | some im =>
      obtain ⟨t, hpushed⟩ := execImage_pushed hnone himage
      exact absurd hpushed.fits hfits

/-- A program is started with two arguments and finds them.  An argument of one page does not fit
beside the frame. -/
theorem exec_stack_image_fresh : Pool pc fresh.kmem (PageDir.empty 0x301).own ∧
    (∃ k' d', exec pc 0 0 [] (readFile (bssFile 0x1000)) [[104, 105], [33]] fresh = .ok (0, k') ∧
      (k'.proc 0).pgdir = some d' ∧ StackImage d' k'.kmem [[104, 105], [33]] (k'.proc 0).tf.esp ∧
      (k'.proc 0).tf.esp % 4 = 0) ∧
    ∃ k', exec pc 0 0 [] (readFile (bssFile 0x1000)) [List.replicate 4096 104] fresh =
      .ok (-1, k') := by
  have hlen : (List.replicate 4096 (104 : UInt8)).length = 4096 := List.length_replicate
  have hall := fun argv => exec_stack_image pc fresh 0 0 0x300 (PageDir.empty 0x301) []
    (readFile (bssFile 0x1000)) argv rfl rfl fresh_pool
  refine ⟨fresh_pool, ?_, ?_⟩
  · obtain ⟨k', _, hexec, -⟩ := fresh_exec bssFile_oneSegment (by decide) [[104, 105], [33]] (by decide)
    obtain ⟨d', hdir, himage, halign⟩ := (hall _).1 k' hexec
    exact ⟨k', d', hexec, hdir, himage, halign.mpr (by decide)⟩
  · apply (hall [List.replicate 4096 104]).2
    · rw [argBytes, List.map_singleton, hlen]
      decide
    · unfold Fits
      rw [List.foldl_cons, List.foldl_nil, pushed, hlen]
      decide

/-- Without arguments nothing rounds the stack pointer, and `main` starts at an odd one. -/
theorem exec_stack_unaligned : ∃ k', exec pc 0 0 [] (readFile (bssFile 0x1000)) [] fresh =
    .ok (0, k') ∧ (k'.proc 0).tf.esp % 4 ≠ 0 := by
  obtain ⟨k', d, hexec, -⟩ := fresh_exec bssFile_oneSegment (by decide) [] (by decide)
  have hstack : (fresh.proc 0).kstack = some 0x300 := rfl
  have hdir : (fresh.proc 0).pgdir = some (PageDir.empty 0x301) := rfl
  obtain ⟨d', t, -, hpushed⟩ := exec_pushed hstack hdir fresh_pool hexec
  exact ⟨k', hexec, fun halign => hpushed.aligned_iff.mp halign rfl⟩

end Proc
end Xv6
