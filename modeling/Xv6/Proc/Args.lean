import Xv6.Proc.Exec

/-!
# The argument vector of `exec` (`syscall.c`, `sysfile.c`)

`sys_exec` reads the arguments of the caller with `fetchint` and `fetchstr`; `exec` writes them on
the stack of the new program.  `argv_round_trip`: what is read there is what was written.
-/

namespace Xv6
namespace Proc

open Lib Vm

/-- The word at `addr`. -/
def fetchint (d : PageDir) (s : Kmem) (addr : Nat) : Option Nat :=
  if KERNBASE ≤ addr ∨ KERNBASE < (addr + 4) % 2 ^ 32 then none else some (d.word s addr)

/-- The loop of `fetchstr`, which has `n` bytes to go. -/
def scan (d : PageDir) (s : Kmem) : Nat → Nat → Option Nat
  | 0, _ => none
  | n + 1, a => if d.byte s a = 0 then some 0 else (scan d s n (a + 1)).map (· + 1)

/-- The length of the string at `addr`. -/
def fetchstr (d : PageDir) (s : Kmem) (addr : Nat) : Option Nat :=
  if KERNBASE ≤ addr then none else scan d s (KERNBASE - addr) addr

/-- The loop of `sys_exec`, at argument `i` and with room for `n` pointers. -/
def fetchArgv (d : PageDir) (s : Kmem) (uargv : Nat) : Nat → Nat → Option (List (List UInt8))
  | 0, _ => none
  | n + 1, i =>
    (fetchint d s ((uargv + 4 * i) % 2 ^ 32)).bind fun uarg =>
      if uarg = 0 then some []
      else (fetchstr d s uarg).bind fun len =>
        (fetchArgv d s uargv n (i + 1)).map (firsts (fun j => d.byte s (uarg + j)) len :: ·)

variable {M : Machine} {k k' : Kernel} {c i page a n esp : Nat} {d : PageDir} {s t : Kmem}
  {last arg : List UInt8} {readi : Nat → Nat → List UInt8} {argv : List (List UInt8)}

theorem scan_string (h : d.Holds s a (arg ++ [0])) (hnul : 0 ∉ arg) (hn : arg.length < n) :
    scan d s n a = some arg.length := by
  induction arg generalizing a n with
  | nil =>
    cases n with
    | zero => cases hn
    | succ n => exact if_pos (h 0 0 rfl)
  | cons b bs ih =>
    obtain ⟨m, rfl⟩ := Nat.exists_eq_succ_of_ne_zero (Nat.ne_of_gt (Nat.zero_lt_of_lt hn))
    have hb : d.byte s a = b := h 0 b rfl
    have hrest : d.Holds s (a + 1) (bs ++ [0]) := by
      intro j x hx
      rw [Nat.add_assoc, Nat.add_comm 1 j]
      exact h (j + 1) x hx
    rw [scan, if_neg, ih hrest (fun h => hnul (List.mem_cons_of_mem b h)) (Nat.lt_of_succ_lt_succ hn)]
    · rfl
    · intro hzero
      exact hnul (by rw [← hzero, hb]; exact List.mem_cons_self)

theorem firsts_string (h : d.Holds s a (arg ++ [0])) :
    firsts (fun j => d.byte s (a + j)) arg.length = arg := by
  apply List.ext_getElem length_firsts
  intro j _ hj
  rw [getElem_firsts]
  exact h j _ (by rw [List.getElem?_append_left hj, List.getElem?_eq_getElem hj])

/-- On a stack that `exec` has built, the loop finds the arguments from `i` on. -/
theorem fetchArgv_pushed (h : Pushed d argv (KERNBASE - 1) [] esp t s) (hnul : ∀ arg ∈ argv, 0 ∉ arg)
    (hi : i ≤ argv.length) :
    fetchArgv d s (esp + 12) n i = if argv.length < i + n then some (argv.drop i) else none := by
  have hroom := h.room
  have hdown : argv.foldl pushed (KERNBASE - 1) < 0x80000000 := h.down.trans_lt (by decide)
  have hlow : 0 < esp := Nat.lt_of_lt_of_le (by decide) h.low
  rw [List.length_nil] at hroom
  have hword : ∀ j, j ≤ argv.length →
      fetchint d s ((esp + 12 + 4 * j) % 2 ^ 32) = some (d.argAt s esp j) := by
    intro j hj
    rw [Nat.mod_eq_of_lt (by omega), fetchint, if_neg]
    · rfl
    · unfold KERNBASE
      omega
  induction n generalizing i with
  | zero => exact (if_neg (Nat.not_lt.mpr hi)).symm
  | succ n ih =>
    rw [fetchArgv, hword i hi, Option.bind_some]
    rcases Nat.eq_or_lt_of_le hi with rfl | hlt
    · -- the null pointer
      have hnull : d.argAt s esp argv.length = 0 := h.stackImage.null
      rw [if_pos hnull, if_pos (by omega), List.drop_length]
    · have harg : argv[i]? = some argv[i] := List.getElem?_eq_getElem hlt
      have hstring := h.stackImage.strings i _ harg
      obtain ⟨habove, hend⟩ := h.stackImage.above i _ harg
      rw [if_neg (by omega), fetchstr, if_neg (by omega),
        scan_string hstring (hnul _ (List.getElem_mem hlt)) (by omega), Option.bind_some,
        firsts_string hstring, ih hlt, List.drop_eq_getElem_cons hlt,
        show i + (n + 1) = i + 1 + n by omega]
      split_ifs <;> rfl

/-- A program that passes on the vector it was started with passes on its arguments, if there are
fewer than `MAXARG`.  Otherwise its call fails. -/
theorem argv_round_trip (hstack : (k.proc i).kstack = some page) (hdir : (k.proc i).pgdir = some d)
    (hpool : Pool M k.kmem d.own) (hnul : ∀ arg ∈ argv, 0 ∉ arg) :
    ∀ k', exec M c i last readi argv k = .ok (0, k') → ∃ d', (k'.proc i).pgdir = some d' ∧
      fetchArgv d' k'.kmem (d'.word k'.kmem ((k'.proc i).tf.esp + 8)) MAXARG 0 =
        if argv.length < MAXARG then some argv else none := by
  intro k' h
  obtain ⟨d', t, hdir', hpushed⟩ := exec_pushed hstack hdir hpool h
  refine ⟨d', hdir', ?_⟩
  rw [hpushed.stackImage.vector, fetchArgv_pushed hpushed hnul (Nat.zero_le _), Nat.zero_add,
    List.drop_zero]

/-- A program that is started with two arguments reads them back. -/
theorem argv_round_trip_fresh : Pool pc fresh.kmem (PageDir.empty 0x301).own ∧
    ∃ k' d', exec pc 0 0 [] (readFile (bssFile 0x1000)) [[104, 105], [33]] fresh = .ok (0, k') ∧
      (k'.proc 0).pgdir = some d' ∧
      fetchArgv d' k'.kmem (d'.word k'.kmem ((k'.proc 0).tf.esp + 8)) MAXARG 0 =
        some [[104, 105], [33]] := by
  obtain ⟨k', _, hexec, -⟩ := fresh_exec bssFile_oneSegment (by decide) [[104, 105], [33]] (by decide)
  obtain ⟨d', hdir, hargs⟩ := argv_round_trip rfl rfl fresh_pool (by decide) k' hexec
  exact ⟨fresh_pool, k', d', hexec, hdir, hargs⟩

end Proc
end Xv6
