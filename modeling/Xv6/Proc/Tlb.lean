import Xv6.Proc.Pages

/-!
# Stale translations

A CPU may keep translations of the directory it uses until the next `lcr3`.  The model gives every CPU
all user translations that it has seen since: a set that contains whatever the hardware keeps.
`switchuvm`, the fault handler and `exec` load `cr3` after they change a directory.  `sys_sbrk` does
not: the pages that it frees stay accessible.

* `look` is what the CPUs have seen after a transition.
* `Kept` says that a transition without `lcr3` has taken no translation away.
* `tlb_safe`: in runs whose calls of `sbrk` free no page, every translation that the running CPU has
  seen leads to a page of its process.
-/

namespace Xv6
namespace Proc

open Lib Lib.Exec Vm Function

/-- The kernel, and the user translations that each CPU has seen since its last `lcr3`. -/
structure Seen where
  kernel : Kernel
  tlb : Nat → Nat → Nat → Prop

/-- What the CPUs have seen after a transition to `k'`. -/
def look (x : Seen) (k' : Kernel) : Seen where
  kernel := k'
  tlb c v page := k'.Translates c v page ∨
    ((k'.cpu c).flushes = (x.kernel.cpu c).flushes ∧ x.tlb c v page)

/-- The CPUs see what the kernel does. -/
def Sees (M : Machine) (x : Seen) (l : Label) (x' : Seen) : Prop :=
  ∃ k', step M l x.kernel = .ok ((), k') ∧ x' = look x k'

/-- `sbrk(n)` has no page to free. -/
def FreesNothing (p : Process) (n : Int) : Prop :=
  n < 0 → toUint (p.sz + n) < p.sz → ∀ d, p.pgdir = some d →
    ∀ u, toUint (p.sz + n) / PGSIZE ≤ u → u * PGSIZE < p.sz → (d.ent u).present = false

/-- Transitions whose `sbrk`, if it is one, frees nothing. -/
def SeesQuiet (M : Machine) (x : Seen) (l : Label) (x' : Seen) : Prop :=
  Sees M x l x' ∧ ∀ c n context, l = .sbrk c n context →
    ∀ i, (x.kernel.cpu c).proc = some i → FreesNothing (x.kernel.proc i) n

variable {M : Machine} {k k' k1 k2 : Kernel} {l : Label} {d d' : PageDir} {x x0 : Seen}

/-! ## Translations that are kept -/

/-- The user pages of `d` are where they were. -/
def Extends (d d' : PageDir) : Prop :=
  ∀ v, v < userPages → (d.ent v).present = true → d'.ent v = d.ent v

theorem pgdir_of_space {p : Process} {stack : Option Nat} (h : p.space = some (stack, some d)) :
    p.pgdir = some d := by
  unfold Process.space at h
  split_ifs at h
  simp only [Option.some.injEq, Prod.mk.injEq] at h
  exact h.2

/-- A fault that is not served changes no entry. -/
theorem unserved_ent {v u : Nat} {s s' : Kmem} (h : Faulted d d' v false s s') (hu : u < 2 ^ 20) :
    d'.ent u = d.ent u := by
  by_cases huv : u = v
  · rw [huv]
    exact h.refused rfl
  · exact h.other u hu huv

/-- A CPU loads `cr3`, or keeps all translations. -/
structure Kept (k k' : Kernel) : Prop where
  cpu : ∀ c, k'.cpu c = k.cpu c ∨ (k.cpu c).flushes < (k'.cpu c).flushes
  dir : ∀ c i d, (k.cpu c).proc = some i → k'.cpu c = k.cpu c → (k.proc i).pgdir = some d →
    ∃ d', (k'.proc i).pgdir = some d' ∧ Extends d d'

namespace Kept

theorem trans (h1 : Kept k k1) (h2 : Kept k1 k2) : Kept k k2 := by
  constructor
  · intro c
    rcases h1.cpu c with heq1 | hlt1 <;> rcases h2.cpu c with heq2 | hlt2
    · exact .inl (heq2.trans heq1)
    · exact .inr (heq1 ▸ hlt2)
    · exact .inr (heq2 ▸ hlt1)
    · exact .inr (Nat.lt_trans hlt1 hlt2)
  · intro c i d hc heq hdir
    -- no flush on the whole way, so none on its parts
    have hmid : k1.cpu c = k.cpu c := by
      rcases h1.cpu c with heq1 | hlt1
      · exact heq1
      · rcases h2.cpu c with heq2 | hlt2
        · rw [← heq2, heq]
        · rw [heq] at hlt2
          omega
    obtain ⟨d1, hdir1, hext1⟩ := h1.dir c i d hc hmid hdir
    obtain ⟨d2, hdir2, hext2⟩ := h2.dir c i d1 (by rw [hmid, hc]) (by rw [heq, hmid]) hdir1
    refine ⟨d2, hdir2, ?_⟩
    intro v hv hp
    have hent := hext1 v hv hp
    rw [hext2 v hv (by rw [hent, hp]), hent]

end Kept

theorem cpu_update {c : Nat} {x : Cpu} (h : (k.cpu c).flushes < x.flushes) (c' : Nat) :
    update k.cpu c x c' = k.cpu c' ∨
      (k.cpu c').flushes < (update k.cpu c x c').flushes := by
  by_cases hc : c' = c
  · subst hc
    rw [update_self]
    exact .inr h
  · exact .inl (update_of_ne hc _ _)

/-- No address space has changed. -/
theorem Calm.kept (h : Calm k k') (hp : Placed k)
    (hcpu : ∀ c, k'.cpu c = k.cpu c ∨ (k.cpu c).flushes < (k'.cpu c).flushes) : Kept k k' := by
  refine ⟨hcpu, ?_⟩
  intro c i d hc _ hdir
  have hspace : (k'.proc i).space = some ((k.proc i).kstack, some d) := by
    rw [h.space i, space_of_used (hp.used hc).2, hdir]
  exact ⟨d, pgdir_of_space hspace, fun _ _ _ => rfl⟩

theorem Still.kept (h : Still k k') (hp : Placed k) : Kept k k' :=
  h.toCalm.kept hp fun c => .inl (by rw [h.cpu])

theorem Leaves.kept {c i : Nat} (h : Leaves c i k k') (hp : Placed k) : Kept k k' := by
  refine h.toCalm.kept hp ?_
  rw [h.cpu]
  exact cpu_update (Nat.lt_succ_self _)

/-- A call of `sbrk` that frees nothing. -/
theorem Resized.extends {i : Nat} {n : Int} (h : Resized i n k k' d d')
    (hdir : (k.proc i).pgdir = some d) (hnone : FreesNothing (k.proc i) n) : Extends d d' := by
  intro v hv hpres
  rcases h.dir with ⟨rfl, -⟩ | ⟨hn, hlt, hrel⟩
  · rfl
  · rw [hrel.ent v (Nat.lt_trans hv (by decide)), if_neg]
    rintro ⟨hlo, hhi, -⟩
    rw [hnone hn hlt d hdir v hlo hhi] at hpres
    cases hpres

theorem Acts.cpu_cases (h : Acts M k l k') (c : Nat) :
    k'.cpu c = k.cpu c ∨ (k.cpu c).flushes < (k'.cpu c).flushes := by
  cases h with
  | still h => exact .inl (by rw [h.cpu])
  | leaves hc h =>
    rw [h.cpu]
    exact cpu_update (Nat.lt_succ_self _) c
  | enters hc hi hrun => exact cpu_update (Nat.lt_succ_self _) c
  | resized hc hdir h => exact .inl (by rw [h.rest.2.2.2])
  | served hc hdir hlow h => exact cpu_update (Nat.lt_succ_self _) c
  | execed hc hdir hcons hkernel hsz => exact cpu_update (Nat.lt_succ_self _) c
  | forked hc hdir h =>
    obtain ⟨page, s, child, ft, -, -, hk'⟩ := h.child
    exact .inl (by rw [hk'])
  | forkFailed hc hdir h =>
    rcases h with ⟨-, rfl⟩ | ⟨n, q, s, -, -, -, -, -, -, -, rfl⟩
    · exact .inl rfl
    · exact .inl rfl
  | store hc => exact .inl rfl
  | unserved hc hdir h => exact .inl rfl
  | reaped hc hj hzombie hparent hstack hdir hcons => exact .inl rfl

/-- What the action of process `i` on CPU `c` did to its directory. -/
inductive Touches (k : Kernel) (c i : Nat) (d d' : PageDir) : Label → Kernel → Prop
  | resized {n context k'} (h : Resized i n k k' d d') : Touches k c i d d' (.sbrk c n context) k'
  | faulted {cr2 user context mapped s k'} (h : Faulted d d' (cr2 / PGSIZE) mapped k.kmem s)
      (hflush : mapped = true → k'.cpu = k.flush c) :
      Touches k c i d d' (.fault c cr2 user context) k'
  | execed {last readi argv context k'} (hflush : k'.cpu = k.flush c) :
      Touches k c i d d' (.exec c last readi argv context) k'

/-- An action leaves the address space of a process alone, or is one of those. -/
theorem Acts.touches (h : Acts M k l k') {i : Nat} (hused : (k.proc i).state ≠ .unused)
    (hlive : (k.proc i).state ≠ .zombie) : (k'.proc i).space = (k.proc i).space ∨
      ∃ c d d', (k.cpu c).proc = some i ∧ (k.proc i).pgdir = some d ∧
        (k'.proc i).space = some ((k.proc i).kstack, some d') ∧ Touches k c i d d' l k' := by
  -- the slot that is replaced is another one, or that of the process
  have hother : ∀ j q, i ≠ j → (update k.proc j q i).space = (k.proc i).space := by
    intro j q hj
    rw [update_of_ne hj]
  have hown : ∀ q d', q.state = (k.proc i).state → q.kstack = (k.proc i).kstack →
      q.pgdir = some d' →
      (update k.proc i q i).space = some ((k.proc i).kstack, some d') := by
    intro q d' hstate hstack hdir
    rw [update_self, space_of_used (by rw [hstate]; exact hused), hstack, hdir]
  cases h with
  | still h => exact .inl (h.space i)
  | store hc => exact .inl rfl
  | leaves hc h => exact .inl (h.space i)
  | enters hc hi hrun => exact .inl ((calm_entered hrun).space i)
  | @resized c n context j d d' _ hc hdir h =>
    obtain ⟨sz, -, hproc⟩ := h.proc
    rw [hproc]
    by_cases hj : i = j
    · subst hj
      exact .inr ⟨c, d, d', hc, hdir, hown _ _ rfl rfl rfl, .resized h⟩
    · exact .inl (hother _ _ hj)
  | @served c cr2 user context j d d' s hc hdir hlow h =>
    by_cases hj : i = j
    · subst hj
      exact .inr ⟨c, d, d', hc, hdir, hown _ _ rfl rfl rfl, .faulted h fun _ => rfl⟩
    · exact .inl (hother _ _ hj)
  | @unserved c cr2 user context j d d' s hc hdir h =>
    by_cases hj : i = j
    · subst hj
      rcases h with ⟨rfl, -⟩ | ⟨-, hf⟩
      · left
        rw [space_of_used hused, hdir]
        exact hown _ _ rfl rfl rfl
      · exact .inr ⟨c, d, d', hc, hdir, hown _ _ rfl rfl rfl, .faulted hf Bool.noConfusion⟩
    · exact .inl (hother _ _ hj)
  | @execed c last readi argv context j d im s hc hdir hcons hkernel hsz =>
    by_cases hj : i = j
    · subst hj
      exact .inr ⟨c, d, im.pgdir, hc, hdir, hown _ _ rfl rfl rfl, .execed rfl⟩
    · exact .inl (hother _ _ hj)
  | reaped hc hj hzombie hparent hstack hdir hcons =>
    exact .inl (hother _ _ fun heq => hlive (heq ▸ hzombie))
  | @forked c context j n d _ hc hdir h =>
    obtain ⟨page, s, child, ft, -, -, hk'⟩ := h.child
    have hunused : (k.proc n).state = .unused := by simpa using (findProc_some h.slot).2
    rw [hk']
    exact .inl (hother _ _ fun heq => hused (heq ▸ hunused))
  | forkFailed hc hdir h =>
    rcases h with ⟨-, rfl⟩ | ⟨n, q, s, hn, -, -, -, -, -, -, rfl⟩
    · exact .inl rfl
    · have hunused : (k.proc n).state = .unused := by simpa using (findProc_some hn).2
      exact .inl (hother _ _ fun heq => hused (heq ▸ hunused))

theorem flush_ne {c : Nat} (h : k'.cpu = k.flush c) : k'.cpu c ≠ k.cpu c := by
  intro heq
  have hflushes := congrArg Cpu.flushes heq
  rw [h] at hflushes
  simp [Kernel.flush] at hflushes

theorem Acts.kept (h : Acts M k l k') (hp : Placed k) (hquiet : ∀ c n context,
    l = .sbrk c n context → ∀ i, (k.cpu c).proc = some i → FreesNothing (k.proc i) n) :
    Kept k k' := by
  refine ⟨h.cpu_cases, ?_⟩
  intro c i d hc heq hdir
  have hused := (hp.used hc).2
  have hlive : (k.proc i).state ≠ .zombie := by
    rw [(hp.running c i hc).2]
    decide
  rcases h.touches hused hlive with hsame | ⟨c', d0, d', hc', hdir0, hspace, ht⟩
  · rw [space_of_used hused, hdir] at hsame
    exact ⟨d, pgdir_of_space hsame, fun _ _ _ => rfl⟩
  · obtain rfl := hp.exclusive c' c i hc' hc
    rw [hdir] at hdir0
    cases hdir0
    refine ⟨d', pgdir_of_space hspace, ?_⟩
    cases ht with
    | resized h => exact h.extends hdir (hquiet c' _ _ rfl i hc)
    | @faulted cr2 user context mapped s _ hf hflush =>
      cases mapped with
      | true => exact absurd heq (flush_ne (hflush rfl))
      | false => exact fun v hv _ => unserved_ent hf (Nat.lt_trans hv (by decide))
    | execed hflush => exact absurd heq (flush_ne hflush)

theorem Does.kept (h : Does M k l k') (hp : Placed k) (hquiet : ∀ c n context,
    l = .sbrk c n context → ∀ i, (k.cpu c).proc = some i → FreesNothing (k.proc i) n) :
    Kept k k' := by
  obtain ⟨k1, k2, hacts, hstill, hexit⟩ := h
  have hp1 := hacts.placed hp
  have hkept := (hacts.kept hp hquiet).trans (hstill.kept hp1)
  rcases hexit with rfl | ⟨c, i, -, hexit⟩
  · exact hkept
  · exact hkept.trans (hexit.kept (hstill.placed hp1))

/-! ## Runs -/

/-- The invariant: what the CPU of a running process has seen is still so. -/
structure Fresh (M : Machine) (x : Seen) : Prop where
  sound : Sound M x.kernel
  placed : Placed x.kernel
  tlb : ∀ c i v page, (x.kernel.cpu c).proc = some i → x.tlb c v page → x.kernel.Translates c v page

/-- A call that frees nothing does not start in the direct mapping, which is present. -/
theorem FreesNothing.safe {p : Process} {n : Int} (h : FreesNothing p n) (hdir : p.pgdir = some d)
    (hd : KernelHalf M d) : SbrkSafe M p n := by
  rintro hn hlt ⟨hlo, hhi⟩
  have hpres := present_direct (p := toUint (p.sz + n) / PGSIZE - 0x80000) hd
    ⟨by omega, by simp only [PHYSTOP, PGSIZE] at *; omega⟩
  rw [Nat.add_sub_cancel' (by omega), h hn hlt d hdir _ le_rfl (by
    simp only [PGSIZE]; omega)] at hpres
  cases hpres

theorem Fresh.step {l : Label} {x' : Seen} (h : Fresh M x) (hstep : SeesQuiet M x l x') :
    Fresh M x' := by
  obtain ⟨⟨k', hrun, rfl⟩, hquiet⟩ := hstep
  have hsafe : ∀ c n context, l = .sbrk c n context → ∀ i, (x.kernel.cpu c).proc = some i →
      SbrkSafe M (x.kernel.proc i) n := by
    intro c n context hl i hc
    obtain ⟨-, d, -, hdir, hd⟩ := h.sound.current h.placed hc
    exact (hquiet c n context hl i hc).safe hdir hd
  have hdoes := step_does h.sound h.placed hsafe hrun
  have hkept := hdoes.kept h.placed hquiet
  refine ⟨hdoes.sound h.sound h.placed, hdoes.placed h.placed, ?_⟩
  rintro c i v page hc (hnow | ⟨hflushes, hold⟩)
  · exact hnow
  · have heq : k'.cpu c = x.kernel.cpu c := by
      rcases hkept.cpu c with heq | hlt
      · exact heq
      · omega
    have hc' : (x.kernel.cpu c).proc = some i := by rw [← heq]; exact hc
    obtain ⟨j, d, hj, hdir, hv, hp, hpage⟩ := h.tlb c i v page hc' hold
    obtain ⟨d', hdir', hext⟩ := hkept.dir c j d hj heq hdir
    have hent := hext v hv hp
    rw [← hent] at hp hpage
    exact ⟨j, d', by rw [← hj]; exact congrArg Cpu.proc heq, hdir', hv, hp, hpage⟩

/-- A page of one process is neither free nor of another process. -/
theorem Sound.sole (hk : Sound M k) {i j page : Nat} (hi : i < NPROC) (hj : j < NPROC) (hne : i ≠ j)
    (hown : 0 < spaceOwn (k.proc i).space page) : spaceOwn (k.proc j).space page = 0 := by
  have hle : spaceOwn (k.proc i).space page + spaceOwn (k.proc j).space page ≤ k.procOwn page :=
    Finset.add_le_sum (f := fun j => spaceOwn (k.proc j).space page) (fun _ _ => Nat.zero_le _)
      (Finset.mem_range.mpr hi) (Finset.mem_range.mpr hj) hne
  have hall := hk.owners page
  unfold Kernel.owners at hall
  omega

/-- In a run from a machine that has booted, whose calls of `sbrk` free no page, the translations that
the CPU of a running process has seen lead to pages that are neither free nor of other processes. -/
theorem tlb_safe {cfg : Config} {ls : List Label} (hboot : boot M cfg = .ok x0.kernel)
    (hfirst : x0.tlb = x0.kernel.Translates) (hrun : Run (SeesQuiet M) x0 ls x) {c i v page : Nat}
    (hc : (x.kernel.cpu c).proc = some i) (hseen : x.tlb c v page) :
    x.kernel.kmem.free page = 0 ∧
      ∀ j, j < NPROC → j ≠ i → spaceOwn (x.kernel.proc j).space page = 0 := by
  have hinit : Fresh M x0 := by
    refine ⟨(boot_sound hboot).1, (boot_sound hboot).2, ?_⟩
    intro c i v page _ h
    rw [hfirst] at h
    exact h
  have hfresh := hrun.invariant hinit fun _ _ _ h hstep => h.step hstep
  obtain ⟨i', d, hc', hdir, hv, hp, rfl⟩ := hfresh.tlb c i v page hc hseen
  rw [hc] at hc'
  cases hc'
  obtain ⟨hi, hused⟩ := hfresh.placed.used hc
  have hown := spaceOwn_pos hused hdir hv hp
  refine ⟨hfresh.sound.free_eq_zero hi hown, ?_⟩
  intro j hj hne
  exact hfresh.sound.sole hi hj (Ne.symm hne) hown

/-- A process as `Runs` describes it sees the top page of the stack. -/
theorem Runs.translates {n page sz : Nat} (h : Runs k n page d sz)
    (htop : (d.ent (stackPage + 1)).present = true) :
    k.Translates 0 (stackPage + 1) (d.ent (stackPage + 1)).ppn :=
  ⟨n, d, h.cpu, h.pgdir, by decide, htop, rfl⟩

/-- Giving back a page that was never used frees nothing. -/
theorem deallocuvm_unused {s : Kmem} (habs : (d.ent 1).present = false) :
    ∃ d' s', deallocuvm M d (2 * PGSIZE) PGSIZE s = .ok ((d', PGSIZE), s') ∧
      ∀ u, u < 2 ^ 20 → d'.ent u = d.ent u := by
  have hspan : span (2 * PGSIZE) PGSIZE = 1 := by decide
  have hout : ∀ u, PGSIZE / PGSIZE ≤ u → u < PGSIZE / PGSIZE + 1 → (d.ent u).present ≠ true := by
    intro u hlo hhi
    rw [show u = 1 by simp only [PGSIZE] at hlo hhi; omega, habs]
    exact Bool.false_ne_true
  have hframes : ∀ p ∈ d.frames (PGSIZE / PGSIZE) (span (2 * PGSIZE) PGSIZE), M.InRange p := by
    rw [hspan]
    intro p hp
    obtain ⟨u, hlo, hhi, hp, -⟩ := mem_frames.mp hp
    exact absurd hp (hout u hlo hhi)
  obtain ⟨d', s', hrun, hshrunk⟩ := deallocuvm_shrinks (s := s) (by decide) (by decide) hframes
  rw [hspan] at hshrunk
  refine ⟨d', s', hrun, ?_⟩
  intro u hu
  rw [hshrunk.ent u hu, if_neg]
  rintro ⟨hlo, hhi, hp⟩
  exact hout u hlo hhi hp

/-- The first process is started, grows by a page and gives it back unused, and sees the top page of
its stack. -/
theorem tlb_safe_start : ∃ x0 x n context page, boot pc ⟨0, 0, [], fun _ _ => 0⟩ = .ok x0.kernel ∧
    x0.tlb = x0.kernel.Translates ∧
    Run (SeesQuiet pc) x0 [.dispatch 0 n, .sbrk 0 PGSIZE context, .sbrk 0 (-PGSIZE) context] x ∧
    (x.kernel.proc n).sz = PGSIZE ∧ x.tlb 0 (stackPage + 1) page ∧ x.kernel.kmem.free page = 0 := by
  obtain ⟨k0, hboot, -⟩ := pc_boots
  obtain ⟨n, page, d, hfirst⟩ := boot_entered hboot
  have hruns := Runs.of_started (entered_cpu k0 0 n) hfirst.proc
  have habs : (d.ent 1).present = false := by
    refine Bool.eq_false_iff.mpr fun hp => ?_
    exact absurd (hfirst.pages 1 (by decide) hp) (by decide)
  let context : Context := ⟨0, 0, 0, 0, 0⟩
  obtain ⟨k1, hgrow, hruns1⟩ := hruns.grow (M := pc) context (Int.natCast_nonneg PGSIZE)
  rw [show toUint (PGSIZE + (PGSIZE : Int)) = 2 * PGSIZE by decide] at hruns1
  obtain ⟨d', s', hdealloc, hent⟩ := deallocuvm_unused (M := pc) (s := k1.kmem) habs
  have hsz : toUint ((2 * PGSIZE : Nat) + -(PGSIZE : Int)) = PGSIZE := by decide
  have hdealloc' : deallocuvm pc d (2 * PGSIZE) (toUint ((2 * PGSIZE : Nat) + -(PGSIZE : Int))) k1.kmem =
      .ok ((d', PGSIZE), s') := by
    rw [hsz]
    exact hdealloc
  obtain ⟨k2, hshrink, hruns2, -, -⟩ := hruns1.shrink context (by decide) hdealloc' (by decide)
  rw [hsz] at hruns2
  have htop : (d'.ent (stackPage + 1)).present = true := by
    rw [hent _ (by decide)]
    exact hfirst.top
  let x0 : Seen := ⟨k0, k0.Translates⟩
  have hstep0 : SeesQuiet pc x0 (.dispatch 0 n) (look x0 (entered k0 0 n)) :=
    ⟨⟨_, hfirst.dispatch, rfl⟩, by rintro _ _ _ ⟨⟩⟩
  have hstep1 : SeesQuiet pc (look x0 (entered k0 0 n)) (.sbrk 0 PGSIZE context)
      (look (look x0 (entered k0 0 n)) k1) := by
    refine ⟨⟨_, hgrow, rfl⟩, ?_⟩
    rintro _ _ _ ⟨⟩ i - hneg
    exact absurd hneg (by decide)
  have hstep2 : SeesQuiet pc (look (look x0 (entered k0 0 n)) k1) (.sbrk 0 (-PGSIZE) context)
      (look (look (look x0 (entered k0 0 n)) k1) k2) := by
    refine ⟨⟨_, hshrink, rfl⟩, ?_⟩
    rintro _ _ _ ⟨⟩ i hi - - d1 hd1 u hlo hhi
    change (k1.cpu 0).proc = some i at hi
    change (k1.proc i).pgdir = some d1 at hd1
    change toUint ((k1.proc i).sz + -(PGSIZE : Int)) / PGSIZE ≤ u at hlo
    change u * PGSIZE < (k1.proc i).sz at hhi
    rw [hruns1.cpu] at hi
    cases hi
    rw [hruns1.pgdir] at hd1
    cases hd1
    rw [hruns1.sz] at hlo hhi
    rw [hsz] at hlo
    simp only [PGSIZE] at hlo hhi
    rw [show u = 1 by omega, habs]
  have hrun := ((Run.single hstep0).snoc hstep1).snoc hstep2
  have hseen : (look (look (look x0 (entered k0 0 n)) k1) k2).tlb 0 (stackPage + 1)
      (d'.ent (stackPage + 1)).ppn := .inl (hruns2.translates htop)
  exact ⟨x0, _, n, _, _, hboot, rfl, hrun, hruns2.sz, hseen, (tlb_safe hboot rfl hrun hruns2.cpu hseen).1⟩

/-- Shrinking from the top of the stack by a page frees the page, and no other. -/
theorem deallocuvm_top {s : Kmem} (htop : (d.ent (stackPage + 1)).present = true)
    (hpage : M.InRange (d.ent (stackPage + 1)).ppn) :
    ∃ d' s', deallocuvm M d USERSTACKTOP (USERSTACKTOP - PGSIZE) s =
      .ok ((d', USERSTACKTOP - PGSIZE), s') ∧ 0 < s'.free (d.ent (stackPage + 1)).ppn ∧
      d'.ent (stackPage + 1) = Pte.zero ∧ d'.ent stackPage = d.ent stackPage := by
  have hspan : span USERSTACKTOP (USERSTACKTOP - PGSIZE) = 1 := by decide
  have hfirst : (USERSTACKTOP - PGSIZE) / PGSIZE = stackPage + 1 := by decide
  have hframes : ∀ p ∈ d.frames ((USERSTACKTOP - PGSIZE) / PGSIZE)
      (span USERSTACKTOP (USERSTACKTOP - PGSIZE)), M.InRange p := by
    rw [hspan, hfirst]
    intro p hp
    obtain ⟨u, hlo, hhi, -, rfl⟩ := mem_frames.mp hp
    rw [show u = stackPage + 1 by omega]
    exact hpage
  obtain ⟨d', s', hrun, hshrunk⟩ := deallocuvm_shrinks (s := s) (by decide) (by decide) hframes
  rw [hspan, hfirst] at hshrunk
  refine ⟨d', s', hrun, ?_, ?_, ?_⟩
  · rw [Kmem.free, hshrunk.freelist, List.count_pos_iff, List.mem_append, List.mem_reverse]
    exact .inl (mem_frames.mpr ⟨stackPage + 1, Nat.le_refl _, Nat.lt_succ_self _, htop, rfl⟩)
  · rw [hshrunk.ent _ (by decide), if_pos ⟨Nat.le_refl _, Nat.lt_succ_self _, htop⟩]
  · rw [hshrunk.ent _ (by decide), if_neg (by omega)]

/-- The first process grows to the top of its stack and shrinks by a page. -/
structure Shrinks (M : Machine) (k0 k1 k2 : Kernel) (n : Nat) (context : Context) (d d' : PageDir) :
    Prop where
  dispatch : step M (.dispatch 0 n) k0 = .ok ((), entered k0 0 n)
  grow : step M (.sbrk 0 ((USERSTACKTOP - PGSIZE : Nat) : Int) context) (entered k0 0 n) = .ok ((), k1)
  shrink : step M (.sbrk 0 (-PGSIZE) context) k1 = .ok ((), k2)
  large : ∃ page, Runs k1 n page d USERSTACKTOP
  small : ∃ page, Runs k2 n page d' (USERSTACKTOP - PGSIZE)
  cpu : k2.cpu = k1.cpu
  top : (d.ent (stackPage + 1)).present = true
  free : 0 < k2.kmem.free (d.ent (stackPage + 1)).ppn
  gone : d'.ent (stackPage + 1) = Pte.zero
  below : (d'.ent stackPage).present = true

theorem boot_shrinks {cfg : Config} {k0 : Kernel} (hboot : boot M cfg = .ok k0) (context : Context) :
    ∃ k1 k2 n d d', Shrinks M k0 k1 k2 n context d d' := by
  obtain ⟨n, page, d, hfirst⟩ := boot_entered hboot
  have hpage : M.InRange (d.ent (stackPage + 1)).ppn := by
    apply hfirst.range
    have hown := own_pos_of_present (by decide) hfirst.top
    omega
  have hruns := Runs.of_started (entered_cpu k0 0 n) hfirst.proc
  obtain ⟨k1, hstep1, hruns1⟩ := hruns.grow (M := M) context
    (Int.natCast_nonneg (USERSTACKTOP - PGSIZE))
  rw [show toUint (PGSIZE + (USERSTACKTOP - PGSIZE : Nat)) = USERSTACKTOP by decide] at hruns1
  obtain ⟨d', s', hdealloc, hfree, hgone, hsame⟩ := deallocuvm_top (s := k1.kmem) hfirst.top hpage
  have hsz : toUint (USERSTACKTOP + -(PGSIZE : Int)) = USERSTACKTOP - PGSIZE := by decide
  rw [← hsz] at hdealloc
  obtain ⟨k2, hstep2, hruns2, rfl, hcpu⟩ := hruns1.shrink context (by decide) hdealloc (by decide)
  rw [hsz] at hruns2
  exact ⟨k1, k2, n, d, d', hfirst.dispatch, hstep1, hstep2, ⟨page, hruns1⟩, ⟨page, hruns2⟩, hcpu,
    hfirst.top, hfree, hgone, by rw [hsame, hfirst.below]⟩

/-- The CPU has seen the translation of the page that was given back and has not loaded `cr3` since,
and the page is free. -/
theorem tlb_stale : ∃ x0 x n context v page, boot pc ⟨0, 0, [], fun _ _ => 0⟩ = .ok x0.kernel ∧
    x0.tlb = x0.kernel.Translates ∧
    Run (Sees pc) x0 [.dispatch 0 n, .sbrk 0 ((USERSTACKTOP - PGSIZE : Nat) : Int) context,
      .sbrk 0 (-PGSIZE) context] x ∧
    (x.kernel.cpu 0).proc = some n ∧ x.tlb 0 v page ∧ 0 < x.kernel.kmem.free page := by
  obtain ⟨k0, hboot, -⟩ := pc_boots
  obtain ⟨k1, k2, n, d, d', h⟩ := boot_shrinks hboot ⟨0, 0, 0, 0, 0⟩
  obtain ⟨page1, hlarge⟩ := h.large
  obtain ⟨page2, hsmall⟩ := h.small
  let x0 : Seen := ⟨k0, k0.Translates⟩
  have hrun : Run (Sees pc) x0 _ (look (look (look x0 (entered k0 0 n)) k1) k2) :=
    ((Run.single ⟨_, h.dispatch, rfl⟩).snoc ⟨_, h.grow, rfl⟩).snoc ⟨_, h.shrink, rfl⟩
  refine ⟨x0, _, n, _, stackPage + 1, (d.ent (stackPage + 1)).ppn, hboot, rfl, hrun, hsmall.cpu, ?_,
    h.free⟩
  have hflushes : (k2.cpu 0).flushes = (k1.cpu 0).flushes := by rw [h.cpu]
  exact .inr ⟨hflushes, .inl (hlarge.translates h.top)⟩

end Proc
end Xv6
