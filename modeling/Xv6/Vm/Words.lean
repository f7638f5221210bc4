import Xv6.Vm.Conserve

/-!
# Page tables as words of memory (`vm.c`)

Here a page directory is what the code has: a page of 32-bit words, each of which may name the page
of a page table.  `walkpgdir` reads the directory word and returns the place of an entry, and
`mappages` stores through it.

`dirOf` reads a `PageDir` off the memory, and `Wf` says when that makes sense: no two directory
words name the same table, and neither the directory nor a table is free.  The functions here do to
`dirOf` what those of `Xv6.Vm.Model` do to a `PageDir` (`walkpgdir_refines`, `mappagesLoop_refines`);
with `mappagesLoop_maps`, which says what these do to the map from page numbers to frames, this gives
what the code does to that map.
-/

namespace Xv6
namespace Vm

open Lib Lib.Exec Function

/-! ## What `mappages` does to the map -/

/-- The frame and the flags of a virtual page, if it is mapped. -/
def PageDir.toMap (d : PageDir) (v : Nat) : Option (Nat × Nat) :=
  if (d.ent v).present then some ((d.ent v).ppn, (d.ent v).flags) else none

/-- The map with `m` pages from `first` on sent to the frames from `ppn` on. -/
def extend (f : Nat → Option (Nat × Nat)) (first m ppn flags v : Nat) : Option (Nat × Nat) :=
  if first ≤ v ∧ v < first + m then some ((ppn + (v - first)) % 2 ^ 20, flags) else f v

section maps

variable {d : PageDir} {k : Kmem} {perm last fuel ppn v n : Nat}

theorem walkpgdir_runs (d : PageDir) (va : Nat) (alloc : Bool) (k : Kmem) :
    ∃ d' found k', walkpgdir d va alloc k = .ok ((d', found), k') := by
  unfold walkpgdir
  cases d.pde (PDX va) with
  | some t => exact ⟨_, _, _, rfl⟩
  | none =>
    cases alloc with
    | false => exact ⟨_, _, _, rfl⟩
    | true =>
      rw [if_pos rfl]
      rcases kalloc_cases k with ⟨-, hrun⟩ | ⟨page, rest, -, hrun⟩
      · exact ⟨_, _, _, bind_of_ok hrun⟩
      · exact ⟨_, _, _, bind_of_ok hrun⟩

theorem toMap_congr {d' : PageDir} (h : ∀ v, d'.ent v = d.ent v) : d'.toMap = d.toMap := by
  funext v
  rw [PageDir.toMap, PageDir.toMap, h]

theorem toMap_setPte {e : Pte} (hv : v < 2 ^ 20) {u : Nat} (hu : u < 2 ^ 20)
    (htable : (d.pde (PDX (v * PGSIZE))).isSome) (he : e.present = true) :
    (d.setPte (v * PGSIZE) e).toMap u = if u = v then some (e.ppn, e.flags) else d.toMap u := by
  rw [PageDir.toMap, PageDir.ent_setPte d e hu htable, vpn_mul_PGSIZE hv]
  by_cases huv : u = v
  · rw [if_pos huv, if_pos huv, if_pos he]
  · rw [if_neg huv, if_neg huv]
    rfl

/-- One round of the loop, at a page that is not mapped. -/
theorem mappagesLoop_round (perm last fuel : Nat) (k : Kmem) (hv : v < 2 ^ 20)
    (hppn : ppn < 2 ^ 20) (hfree : d.toMap v = none) :
    (∃ d1 k1, mappagesLoop perm last (fuel + 1) d (v * PGSIZE) ppn k = .ok ((d1, false), k1) ∧
      d1.toMap = d.toMap) ∨
    ∃ d1 k1, mappagesLoop perm last (fuel + 1) d (v * PGSIZE) ppn k =
        (if v * PGSIZE = last then .ok ((d1, true), k1) else
          mappagesLoop perm last fuel d1 ((v * PGSIZE + PGSIZE) % 2 ^ 32) ((ppn + 1) % 2 ^ 20) k1) ∧
      ∀ u, u < 2 ^ 20 → d1.toMap u = extend d.toMap v 1 ppn (perm ||| PTE_P) u := by
  obtain ⟨d1, found, k1, hwalk⟩ := walkpgdir_runs d (v * PGSIZE) true k
  have hw := walkpgdir_ok hwalk
  have hmap := toMap_congr hw.ent
  rw [mappagesLoop, bind_of_ok hwalk]
  cases found with
  | false => exact .inl ⟨d1, k1, rfl, hmap⟩
  | true =>
    right
    have hpte : ¬(d1.pte (v * PGSIZE)).present = true := by
      rw [PageDir.pte_eq_ent, vpn_mul_PGSIZE hv, hw.ent]
      intro hpres
      rw [PageDir.toMap, if_pos hpres] at hfree
      cases hfree
    refine ⟨d1.setPte (v * PGSIZE) ⟨ppn, perm ||| PTE_P⟩, k1, ?_, ?_⟩
    · dsimp only
      rw [if_pos rfl, if_neg hpte]
      by_cases hlast : v * PGSIZE = last
      · rw [if_pos hlast, if_pos hlast]
        rfl
      · rw [if_neg hlast, if_neg hlast]
    · intro u hu
      rw [toMap_setPte hv hu (hw.found rfl) (Pte.present_or_P ppn perm), hmap, extend]
      by_cases huv : u = v
      · rw [if_pos huv, if_pos ⟨by omega, by omega⟩, huv, Nat.sub_self, Nat.add_zero,
          Nat.mod_eq_of_lt hppn]
      · rw [if_neg huv, if_neg (by omega)]

/-- Extending a map by one page and then by those behind it. -/
theorem extend_succ (f : Nat → Option (Nat × Nat)) (v m ppn flags u : Nat) :
    extend (extend f v 1 ppn flags) (v + 1) m ((ppn + 1) % 2 ^ 20) flags u =
      extend f v (m + 1) ppn flags u := by
  unfold extend
  by_cases hin : v + 1 ≤ u ∧ u < v + 1 + m
  · rw [if_pos hin, if_pos (by omega), show ((ppn + 1) % 2 ^ 20 + (u - (v + 1))) % 2 ^ 20 =
      (ppn + (u - v)) % 2 ^ 20 by omega]
  · rw [if_neg hin]
    by_cases huv : u = v
    · rw [if_pos (by omega), if_pos (by omega)]
    · rw [if_neg (by omega), if_neg (by omega)]

/-- The pages from `v` to `v + n`, which are not mapped, are mapped one after the other, until the
last or until there is no page for a table. -/
theorem mappagesLoop_maps (perm fuel : Nat) (k : Kmem) (hfuel : n < fuel) (hv : v + n < 2 ^ 20)
    (hppn : ppn < 2 ^ 20) (hfree : ∀ u, v ≤ u → u ≤ v + n → d.toMap u = none) :
    ∃ d' mapped k' m, mappagesLoop perm ((v + n) * PGSIZE) fuel d (v * PGSIZE) ppn k =
        .ok ((d', mapped), k') ∧ m ≤ n + 1 ∧ (mapped = true ↔ m = n + 1) ∧
      ∀ u, u < 2 ^ 20 → d'.toMap u = extend d.toMap v m ppn (perm ||| PTE_P) u := by
  -- by induction on the number of pages still to be mapped after this one
  induction n generalizing fuel v ppn d k with
  | zero =>
    obtain ⟨fuel, rfl⟩ := Nat.exists_eq_add_of_lt hfuel
    rcases mappagesLoop_round perm ((v + 0) * PGSIZE) (0 + fuel) k hv hppn
      (hfree v (Nat.le_refl v) (Nat.le_refl v)) with ⟨d1, k1, hrun, hmap⟩ | ⟨d1, k1, hrun, hmap⟩
    · refine ⟨d1, false, k1, 0, hrun, Nat.zero_le _, by simp, fun u _ => ?_⟩
      rw [hmap, extend, if_neg (by omega)]
    · rw [if_pos rfl] at hrun
      exact ⟨d1, true, k1, 1, hrun, Nat.le_refl 1, by simp, hmap⟩
  | succ n ih =>
    obtain ⟨fuel, rfl⟩ : ∃ f, fuel = f + 1 := ⟨fuel - 1, by omega⟩
    rcases mappagesLoop_round perm ((v + (n + 1)) * PGSIZE) fuel k (by omega) hppn
      (hfree v (Nat.le_refl v) (by omega)) with ⟨d1, k1, hrun, hmap⟩ | ⟨d1, k1, hrun, hmap⟩
    · refine ⟨d1, false, k1, 0, hrun, Nat.zero_le _, by simp, fun u _ => ?_⟩
      rw [hmap, extend, if_neg (by omega)]
    · have hne : v * PGSIZE ≠ (v + (n + 1)) * PGSIZE := page_ne (by omega)
      rw [if_neg hne, next_page (by omega), show v + (n + 1) = v + 1 + n by omega] at hrun
      have hrest : ∀ u, v + 1 ≤ u → u ≤ v + 1 + n → d1.toMap u = none := by
        intro u hle hlt
        rw [hmap u (by omega), extend, if_neg (by omega)]
        exact hfree u (by omega) (by omega)
      obtain ⟨d', mapped, k', m, hloop, hm, hall, hmap'⟩ :=
        ih fuel k1 (by omega) (by omega) (Nat.mod_lt _ (by decide)) hrest
      rw [show v + 1 + n = v + (n + 1) by omega] at hloop hrun
      refine ⟨d', mapped, k', m + 1, hrun.trans hloop, by omega, ?_, fun u hu => ?_⟩
      · rw [hall]
        omega
      · rw [hmap' u hu, ← extend_succ]
        unfold extend
        rw [hmap u hu]
        rfl

end maps

/-! ## The code -/

/-- The free pages, and the 32-bit words of every page. -/
structure Words where
  freelist : List Nat
  word : Nat → Nat → Nat

namespace Words

abbrev WordM : Type → Type := Exec Stop Words

def load (page j : Nat) : WordM Nat := do
  let s ← Exec.get
  return s.word page j

/-- The word `j` of a page becomes `w`. -/
def put (s : Words) (page j w : Nat) : Words :=
  { s with word := update s.word page (update (s.word page) j w) }

def store (page j w : Nat) : WordM Unit := Exec.modify fun s => s.put page j w

def kalloc : WordM (Option Nat) := fun s =>
  match s.freelist with
  | [] => .ok (none, s)
  | page :: rest => .ok (some page, { s with freelist := rest })

/-- `memset(pgtab, 0, PGSIZE)` -/
def clear (page : Nat) : WordM Unit :=
  Exec.modify fun s => { s with word := update s.word page fun _ => 0 }

/-- `PTE_ADDR`, as a page number. -/
def PTE_ADDR (pte : Nat) : Nat := pte / PGSIZE

/-- `walkpgdir`: the page and the index of the entry for `va`. -/
def walkpgdir (pgdir va : Nat) (alloc : Bool) : WordM (Option (Nat × Nat)) := do
  let pde ← load pgdir (PDX va)
  if pde &&& PTE_P ≠ 0 then
    return some (PTE_ADDR pde, PTX va)
  else if alloc then do
    match ← kalloc with
    | none => return none
    | some pgtab => do
      clear pgtab
      store pgdir (PDX va) (pgtab * PGSIZE ||| PTE_P ||| PTE_W ||| PTE_U)
      return some (pgtab, PTX va)
  else
    return none

/-- The loop of `mappages`. -/
def mappagesLoop (perm last : Nat) (pgdir : Nat) : Nat → Nat → Nat → WordM Bool
  | 0, _, _ => pure true
  | fuel + 1, a, pa => do
    match ← walkpgdir pgdir a true with
    | none => return false
    | some (page, j) => do
      let pte ← load page j
      if pte &&& PTE_P ≠ 0 then
        Exec.stop (.panic .remap)
      else do
        store page j (pa ||| perm ||| PTE_P)
        if a = last then
          return true
        else
          mappagesLoop perm last pgdir fuel ((a + PGSIZE) % 2 ^ 32) ((pa + PGSIZE) % 2 ^ 32)

/-- `mappages`; `false` for -1. -/
def mappages (pgdir va size pa perm : Nat) : WordM Bool :=
  mappagesLoop perm (PGROUNDDOWN (toUint ((va : Int) + size - 1))) pgdir (2 ^ 20) (PGROUNDDOWN va) pa

/-- The map that `walkpgdir` without allocation gives: the frame and the flags of a page, if the
entry for it is there and present. -/
def map (s : Words) (pgdir v : Nat) : Option (Nat × Nat) :=
  match walkpgdir pgdir (v * PGSIZE) false s with
  | .ok (some (page, j), s') =>
    if s'.word page j &&& PTE_P ≠ 0 then some (s'.word page j / PGSIZE, s'.word page j % PGSIZE)
    else none
  | _ => none

/-! ## The directory in memory -/

/-- An entry of a page table. -/
def decode (w : Nat) : Pte := ⟨w / PGSIZE, w % PGSIZE⟩

/-- Directory entry `i` names a table. -/
def Present (s : Words) (pgdir i : Nat) : Prop := i < NPDENTRIES ∧ s.word pgdir i &&& PTE_P ≠ 0

instance (s : Words) (pgdir i : Nat) : Decidable (s.Present pgdir i) :=
  inferInstanceAs (Decidable (_ ∧ _))

/-- The page of the table that directory entry `i` names. -/
def table (s : Words) (pgdir i : Nat) : Nat := s.word pgdir i / PGSIZE

/-- The page directory in a page of memory. -/
def dirOf (s : Words) (pgdir : Nat) : PageDir where
  page := pgdir
  pde i := if s.Present pgdir i then
    some ⟨s.table pgdir i, fun j => decode (s.word (s.table pgdir i) j)⟩ else none

/-- A page that is used as a page directory. -/
structure Wf (s : Words) (pgdir : Nat) : Prop where
  nodup : s.freelist.Nodup
  dir : pgdir ∉ s.freelist
  other : ∀ i, s.Present pgdir i → s.table pgdir i ≠ pgdir
  used : ∀ i, s.Present pgdir i → s.table pgdir i ∉ s.freelist
  distinct : ∀ i j, s.Present pgdir i → s.Present pgdir j → s.table pgdir i = s.table pgdir j → i = j

section refine

variable {s : Words} {pgdir va page i j w : Nat}

theorem decode_present (w : Nat) : (decode w).present = (w &&& PTE_P != 0) := by
  have hmod : w % PGSIZE % 2 = w % 2 := by
    simp only [PGSIZE]
    omega
  simp only [Pte.present, decode, PTE_P, Nat.and_one_is_mod, hmod]

/-- What is stored for a frame and some flags is read back. -/
theorem decode_or {flags : Nat} (ppn : Nat) (h : flags < PGSIZE) :
    decode (ppn * PGSIZE ||| flags) = ⟨ppn, flags⟩ := by
  have hor : ppn * PGSIZE ||| flags = ppn * PGSIZE + flags := by
    have := Nat.shiftLeft_add_eq_or_of_lt (i := 12) (b := flags) h ppn
    rw [Nat.shiftLeft_eq] at this
    exact this.symm
  rw [hor, decode]
  simp only [PGSIZE] at h ⊢
  congr 1 <;> omega

theorem word_put (s : Words) (page j w p i : Nat) :
    (s.put page j w).word p i = if p = page ∧ i = j then w else s.word p i := by
  show update s.word page _ p i = _
  by_cases hp : p = page
  · rw [hp, update_self, update_apply]
    simp
  · rw [update_of_ne hp, if_neg (fun h => hp h.1)]

/-- Only the words of the directory say which tables there are. -/
theorem present_congr {s' : Words} (h : s'.word pgdir i = s.word pgdir i) :
    (s'.Present pgdir i ↔ s.Present pgdir i) ∧ s'.table pgdir i = s.table pgdir i := by
  unfold Present table
  rw [h]
  exact ⟨Iff.rfl, rfl⟩

theorem pde_of_present (h : s.Present pgdir i) : (s.dirOf pgdir).pde i =
    some ⟨s.table pgdir i, fun j => decode (s.word (s.table pgdir i) j)⟩ := if_pos h

theorem pde_of_not_present (h : ¬s.Present pgdir i) : (s.dirOf pgdir).pde i = none := if_neg h

/-- A directory entry and its table that stay as they are. -/
theorem pde_congr {s' : Words} (hdir : s'.word pgdir i = s.word pgdir i)
    (htable : s.Present pgdir i → s'.word (s.table pgdir i) = s.word (s.table pgdir i)) :
    (s'.dirOf pgdir).pde i = (s.dirOf pgdir).pde i := by
  obtain ⟨hpresent, htab⟩ := present_congr hdir
  by_cases hp : s.Present pgdir i
  · rw [pde_of_present hp, pde_of_present (hpresent.mpr hp), htab, htable hp]
  · rw [pde_of_not_present hp, pde_of_not_present (mt hpresent.mp hp)]

/-- Storing an entry in a table of the directory. -/
theorem Wf.setPte (h : s.Wf pgdir) (hp : s.Present pgdir (PDX va)) (w : Nat) :
    (s.put (s.table pgdir (PDX va)) (PTX va) w).Wf pgdir ∧
      (s.put (s.table pgdir (PDX va)) (PTX va) w).dirOf pgdir =
        (s.dirOf pgdir).setPte va (decode w) := by
  have hdir : ∀ i, (s.put (s.table pgdir (PDX va)) (PTX va) w).word pgdir i = s.word pgdir i := by
    intro i
    rw [word_put, if_neg fun heq => h.other _ hp heq.1.symm]
  have hpresent := fun i => (present_congr (hdir i)).1
  have htable := fun i => (present_congr (hdir i)).2
  refine ⟨⟨h.nodup, h.dir, ?_, ?_, ?_⟩, ?_⟩
  · intro i hi
    rw [htable]
    exact h.other i ((hpresent i).mp hi)
  · intro i hi
    rw [htable]
    exact h.used i ((hpresent i).mp hi)
  · intro i j hi hj
    rw [htable, htable]
    exact h.distinct i j ((hpresent i).mp hi) ((hpresent j).mp hj)
  · rw [PageDir.setPte, pde_of_present hp]
    show PageDir.mk pgdir _ = PageDir.mk pgdir _
    congr 1
    funext i
    by_cases hi : i = PDX va
    · rw [hi, update_self]
      refine (pde_of_present ((hpresent _).mpr hp)).trans ?_
      rw [htable]
      congr 2
      funext j
      rw [word_put, update_apply]
      by_cases hj : j = PTX va
      · rw [if_pos ⟨rfl, hj⟩, if_pos hj]
      · rw [if_neg fun heq => hj heq.2, if_neg hj]
    · rw [update_of_ne hi]
      refine pde_congr (hdir i) fun hpi => ?_
      funext j
      rw [word_put, if_neg fun heq => hi (h.distinct _ _ hpi hp heq.1)]

/-- The memory after a new table for `va` was taken from the free list. -/
def withTable (s : Words) (pgdir va pgtab : Nat) (rest : List Nat) : Words :=
  put { freelist := rest, word := update s.word pgtab fun _ => 0 } pgdir (PDX va)
    (pgtab * PGSIZE ||| PTE_P ||| PTE_W ||| PTE_U)

/-- Taking a new table. -/
theorem Wf.addTable (h : s.Wf pgdir) (va : Nat) {pgtab : Nat} {rest : List Nat}
    (hfree : s.freelist = pgtab :: rest) :
    (s.withTable pgdir va pgtab rest).Wf pgdir ∧
      (s.withTable pgdir va pgtab rest).Present pgdir (PDX va) ∧
      (s.withTable pgdir va pgtab rest).table pgdir (PDX va) = pgtab ∧
      (s.withTable pgdir va pgtab rest).dirOf pgdir = (s.dirOf pgdir).addTable va pgtab := by
  have hmem : pgtab ∈ s.freelist := hfree ▸ List.mem_cons_self
  have hnodup : pgtab ∉ rest ∧ rest.Nodup := List.nodup_cons.mp (hfree ▸ h.nodup)
  have hsub : ∀ p, p ∈ rest → p ∈ s.freelist := by
    intro p hp
    rw [hfree]
    exact List.mem_cons_of_mem _ hp
  have hdirtab : pgdir ≠ pgtab := fun heq => h.dir (heq ▸ hmem)
  have hentry := decode_or pgtab (show PTE_P ||| PTE_W ||| PTE_U < PGSIZE by decide)
  rw [← Nat.or_assoc, ← Nat.or_assoc] at hentry
  obtain ⟨t, ht⟩ : ∃ t, t = s.withTable pgdir va pgtab rest := ⟨_, rfl⟩
  have hfl : t.freelist = rest := by rw [ht]; rfl
  have hword : ∀ p i, t.word p i = if p = pgdir ∧ i = PDX va then
      (pgtab * PGSIZE ||| PTE_P ||| PTE_W ||| PTE_U) else if p = pgtab then 0 else s.word p i := by
    intro p i
    rw [ht, withTable, word_put]
    congr 1
    show update s.word pgtab (fun _ => 0) p i = _
    rw [update_apply]
    split_ifs <;> rfl
  rw [← ht]
  have hnew : t.Present pgdir (PDX va) ∧ t.table pgdir (PDX va) = pgtab := by
    unfold Present table
    rw [hword, if_pos ⟨rfl, rfl⟩]
    refine ⟨⟨PDX_lt va, ?_⟩, congrArg Pte.ppn hentry⟩
    have hbit := decode_present (pgtab * PGSIZE ||| PTE_P ||| PTE_W ||| PTE_U)
    rw [hentry] at hbit
    exact bne_iff_ne.mp (hbit.symm.trans (show (PTE_P ||| PTE_W ||| PTE_U) &&& PTE_P != 0 by decide))
  have hold : ∀ i, i ≠ PDX va → t.word pgdir i = s.word pgdir i := by
    intro i hi
    rw [hword, if_neg fun heq => hi heq.2, if_neg hdirtab]
  -- what is named besides was named before
  have hcases : ∀ i, t.Present pgdir i → (i = PDX va ∧ t.table pgdir i = pgtab) ∨
      (s.Present pgdir i ∧ t.table pgdir i = s.table pgdir i) := by
    intro i hi
    by_cases hva : i = PDX va
    · exact .inl ⟨hva, hva ▸ hnew.2⟩
    · obtain ⟨hpresent, htab⟩ := present_congr (hold i hva)
      exact .inr ⟨hpresent.mp hi, htab⟩
  refine ⟨⟨hfl ▸ hnodup.2, ?_, ?_, ?_, ?_⟩, hnew.1, hnew.2, ?_⟩
  · rw [hfl]
    exact fun hp => h.dir (hsub _ hp)
  · intro i hi
    rcases hcases i hi with ⟨-, htab⟩ | ⟨hi, htab⟩
    · rw [htab]
      exact hdirtab.symm
    · rw [htab]
      exact h.other i hi
  · intro i hi
    rw [hfl]
    rcases hcases i hi with ⟨-, htab⟩ | ⟨hi, htab⟩
    · rw [htab]
      exact hnodup.1
    · rw [htab]
      exact fun hp => h.used i hi (hsub _ hp)
  · intro i j hi hj heq
    rcases hcases i hi with ⟨hi, htab⟩ | ⟨hi, htab⟩ <;>
      rcases hcases j hj with ⟨hj, htab'⟩ | ⟨hj, htab'⟩
    · rw [hi, hj]
    · exact absurd hmem ((htab.symm.trans (heq.trans htab')) ▸ h.used j hj)
    · exact absurd hmem ((htab'.symm.trans (heq.symm.trans htab)) ▸ h.used i hi)
    · exact h.distinct i j hi hj (htab.symm.trans (heq.trans htab'))
  · show PageDir.mk pgdir _ = PageDir.mk pgdir _
    congr 1
    funext i
    by_cases hi : i = PDX va
    · rw [hi, update_self]
      refine (pde_of_present hnew.1).trans ?_
      rw [hnew.2]
      congr 2
      funext j
      rw [hword, if_neg fun heq => hdirtab heq.1.symm, if_pos rfl]
      rfl
    · rw [update_of_ne hi]
      refine pde_congr (hold i hi) fun hpi => ?_
      funext j
      rw [hword, if_neg fun heq => h.other i hpi heq.1,
        if_neg fun heq => h.used i hpi (by rw [heq]; exact hmem)]

theorem present_iff (s : Words) (pgdir va : Nat) :
    s.Present pgdir (PDX va) ↔ s.word pgdir (PDX va) &&& PTE_P ≠ 0 :=
  and_iff_right (PDX_lt va)

/-- `walkpgdir` does to the directory in memory what it does to a `PageDir`, and returns the place of
the entry. -/
theorem walkpgdir_refines (h : s.Wf pgdir) {k : Kmem} (hk : k.freelist = s.freelist) (va : Nat)
    (alloc : Bool) :
    ∃ r s' k', walkpgdir pgdir va alloc s = .ok (r, s') ∧
      Vm.walkpgdir (s.dirOf pgdir) va alloc k = .ok ((s'.dirOf pgdir, r.isSome), k') ∧
      s'.Wf pgdir ∧ k'.freelist = s'.freelist ∧
      (r = none ∨ r = some (s'.table pgdir (PDX va), PTX va) ∧ s'.Present pgdir (PDX va)) := by
  unfold walkpgdir Vm.walkpgdir
  rw [bind_of_ok (show load pgdir (PDX va) s = .ok (s.word pgdir (PDX va), s) from rfl)]
  by_cases hp : s.Present pgdir (PDX va)
  · rw [if_pos ((present_iff s pgdir va).mp hp), pde_of_present hp]
    exact ⟨_, s, k, rfl, rfl, h, hk, .inr ⟨rfl, hp⟩⟩
  · rw [if_neg (mt (present_iff s pgdir va).mpr hp), pde_of_not_present hp]
    cases alloc with
    | false => exact ⟨none, s, k, rfl, rfl, h, hk, .inl rfl⟩
    | true =>
      rw [if_pos rfl]
      rcases kalloc_cases k with ⟨hnil, hrun⟩ | ⟨pgtab, rest, hcons, hrun⟩
      · have hc : kalloc s = .ok (none, s) := by rw [kalloc, ← hk, hnil]
        exact ⟨none, s, k, bind_of_ok hc, bind_of_ok hrun, h, hk, .inl rfl⟩
      · have hc : kalloc s = .ok (some pgtab, { s with freelist := rest }) := by
          rw [kalloc, ← hk, hcons]
        obtain ⟨hwf, hnew, htab, hdir⟩ := h.addTable va (hk.symm.trans hcons)
        refine ⟨some (pgtab, PTX va), s.withTable pgdir va pgtab rest,
          ⟨rest, update k.mem pgtab fun _ => 0⟩, bind_of_ok hc, ?_, hwf, rfl,
          .inr ⟨by rw [htab], hnew⟩⟩
        rw [hdir]
        exact bind_of_ok hrun

/-- What the code and the model on `PageDir` give is the same. -/
def Same (pgdir : Nat) (c : Except Stop (Bool × Words))
    (m : Except Stop ((PageDir × Bool) × Kmem)) : Prop :=
  (∃ e, c = .error e ∧ m = .error e) ∨
    ∃ r s' k', c = .ok (r, s') ∧ m = .ok ((s'.dirOf pgdir, r), k') ∧ s'.Wf pgdir ∧
      k'.freelist = s'.freelist

theorem mappagesLoop_refines {perm : Nat} (last fuel a ppn : Nat) (k : Kmem)
    (hperm : perm < PGSIZE) (h : s.Wf pgdir) (hk : k.freelist = s.freelist) :
    Same pgdir (mappagesLoop perm last pgdir fuel a (ppn * PGSIZE) s)
      (Vm.mappagesLoop perm last fuel (s.dirOf pgdir) a ppn k) := by
  induction fuel generalizing s k a ppn with
  | zero => exact .inr ⟨true, s, k, rfl, rfl, h, hk⟩
  | succ fuel ih =>
    obtain ⟨r, s1, k1, hwalk, hmodel, h1, hk1, hr⟩ := walkpgdir_refines h hk a true
    rw [mappagesLoop, Vm.mappagesLoop, bind_of_ok hwalk, bind_of_ok hmodel]
    rcases hr with rfl | ⟨rfl, hp⟩
    · exact .inr ⟨false, s1, k1, rfl, rfl, h1, hk1⟩
    · have hpte : (s1.dirOf pgdir).pte a = decode (s1.word (s1.table pgdir (PDX a)) (PTX a)) := by
        rw [PageDir.pte, pde_of_present hp]
      have hentry := decode_or ppn (Nat.or_lt_two_pow (n := 12) hperm
        (show PTE_P < 2 ^ 12 by decide))
      rw [← Nat.or_assoc] at hentry
      obtain ⟨hwf, hset⟩ := h1.setPte hp (ppn * PGSIZE ||| perm ||| PTE_P)
      rw [hentry] at hset
      dsimp only
      rw [bind_of_ok (show load (s1.table pgdir (PDX a)) (PTX a) s1 =
        .ok (s1.word (s1.table pgdir (PDX a)) (PTX a), s1) from rfl), hpte, Option.isSome_some,
        if_pos rfl]
      by_cases hbit : s1.word (s1.table pgdir (PDX a)) (PTX a) &&& PTE_P = 0
      · have hpres : ¬(decode (s1.word (s1.table pgdir (PDX a)) (PTX a))).present = true := by
          rw [decode_present, hbit]
          decide
        rw [if_neg (fun hne => hne hbit), if_neg hpres, bind_of_ok rfl, ← hset]
        by_cases hlast : a = last
        · rw [if_pos hlast, if_pos hlast]
          exact .inr ⟨true, _, k1, rfl, rfl, hwf, hk1⟩
        · rw [if_neg hlast, if_neg hlast, show (ppn * PGSIZE + PGSIZE) % 2 ^ 32 =
            (ppn + 1) % 2 ^ 20 * PGSIZE by simp only [PGSIZE]; omega]
          exact ih _ _ _ hwf hk1
      · have hpres : (decode (s1.word (s1.table pgdir (PDX a)) (PTX a))).present = true := by
          rw [decode_present]
          exact bne_iff_ne.mpr hbit
        rw [if_pos hbit, if_pos hpres]
        exact .inl ⟨_, rfl, rfl⟩

/-- The map is that of the directory in memory. -/
theorem map_eq (s : Words) (pgdir : Nat) {v : Nat} (hv : v < 2 ^ 20) :
    s.map pgdir v = (s.dirOf pgdir).toMap v := by
  have hent : (s.dirOf pgdir).ent v = (s.dirOf pgdir).pte (v * PGSIZE) := by
    rw [PageDir.pte_eq_ent, vpn_mul_PGSIZE hv]
  rw [PageDir.toMap, hent, PageDir.pte, map, walkpgdir,
    bind_of_ok (show load pgdir (PDX (v * PGSIZE)) s =
      .ok (s.word pgdir (PDX (v * PGSIZE)), s) from rfl)]
  by_cases hp : s.Present pgdir (PDX (v * PGSIZE))
  · rw [if_pos ((present_iff s pgdir _).mp hp), pde_of_present hp]
    show (if s.word (s.table pgdir (PDX (v * PGSIZE))) (PTX (v * PGSIZE)) &&& PTE_P ≠ 0 then _ else _) = _
    simp only [decode_present, bne_iff_ne]
    rfl
  · rw [if_neg (mt (present_iff s pgdir _).mpr hp), pde_of_not_present hp, if_neg Bool.false_ne_true]
    show none = if Pte.zero.present = true then _ else none
    rw [Pte.zero_present, if_neg Bool.false_ne_true]

/-- `mappages` on pages that are not mapped extends the map by all of them, or, if it returns -1, by
some of the first; nothing else of the map changes.  `walkpgdir` changes nothing of it. -/
theorem mappages_extends {size pa perm : Nat} (h : s.Wf pgdir) (hpa : pa < 2 ^ 32)
    (haligned : PGSIZE ∣ pa) (hperm : perm < 0x1000) (hva : va < 2 ^ 32) (hsize : 0 < size)
    (hwrap : va + size - 1 < 2 ^ 32)
    (hfree : ∀ v, va / PGSIZE ≤ v → v ≤ (va + size - 1) / PGSIZE → s.map pgdir v = none) :
    (∃ r s' m, mappages pgdir va size pa perm s = .ok (r, s') ∧ s'.Wf pgdir ∧
      m ≤ (va + size - 1) / PGSIZE - va / PGSIZE + 1 ∧
      (r = true ↔ m = (va + size - 1) / PGSIZE - va / PGSIZE + 1) ∧
      ∀ v, v < 2 ^ 20 → s'.map pgdir v = if va / PGSIZE ≤ v ∧ v < va / PGSIZE + m then
          some ((pa + (v - va / PGSIZE) * PGSIZE) % 2 ^ 32 / PGSIZE, perm ||| PTE_P)
        else s.map pgdir v) ∧
    ∀ a, ∃ r s', walkpgdir pgdir a true s = .ok (r, s') ∧ s'.Wf pgdir ∧
      ∀ v, v < 2 ^ 20 → s'.map pgdir v = s.map pgdir v := by
  constructor
  · obtain ⟨ppn, rfl⟩ := haligned
    have hle : va / PGSIZE ≤ (va + size - 1) / PGSIZE := Nat.div_le_div_right (by omega)
    have hlt : (va + size - 1) / PGSIZE < 2 ^ 20 := by
      simp only [PGSIZE]
      omega
    have hppn : ppn < 2 ^ 20 := by
      simp only [PGSIZE] at hpa
      omega
    obtain ⟨n, hn⟩ := Nat.exists_eq_add_of_le hle
    have hcount : (va + size - 1) / PGSIZE - va / PGSIZE = n := by omega
    have hend : va / PGSIZE + n < 2 ^ 20 := hn ▸ hlt
    have hlast : PGROUNDDOWN (toUint ((va : Int) + size - 1)) = (va / PGSIZE + n) * PGSIZE := by
      rw [toUint_of_nonneg (by omega) (by omega), PGROUNDDOWN, ← hn]
      congr 2
      omega
    have hunmapped : ∀ u, va / PGSIZE ≤ u → u ≤ va / PGSIZE + n → (s.dirOf pgdir).toMap u = none := by
      intro u hu hun
      rw [← map_eq s pgdir (by omega)]
      exact hfree u hu (by omega)
    obtain ⟨d', r, k', m, hmodel, hm, hall, hmap⟩ := mappagesLoop_maps perm (2 ^ 20)
      ⟨s.freelist, fun _ _ => 0⟩ (Nat.lt_of_le_of_lt (Nat.le_add_left n _) hend) hend hppn hunmapped
    have hsame := mappagesLoop_refines ((va / PGSIZE + n) * PGSIZE) (2 ^ 20)
      (va / PGSIZE * PGSIZE) ppn ⟨s.freelist, fun _ _ => 0⟩ hperm h rfl
    rw [hcount, mappages, hlast, Nat.mul_comm PGSIZE ppn]
    rcases hsame with ⟨e, -, herror⟩ | ⟨r', s', k'', hrun, hok, hwf, -⟩
    · rw [hmodel] at herror
      cases herror
    · rw [hmodel] at hok
      cases hok
      refine ⟨r, s', m, hrun, hwf, hm, hall, fun v hv => ?_⟩
      rw [map_eq s' pgdir hv, hmap v hv, extend, map_eq s pgdir hv]
      congr 3
      simp only [PGSIZE]
      omega
  · intro a
    obtain ⟨r, s', k', hrun, hmodel, hwf, -, -⟩ :=
      walkpgdir_refines (k := ⟨s.freelist, fun _ _ => 0⟩) h rfl a true
    refine ⟨r, s', hrun, hwf, fun v hv => ?_⟩
    rw [map_eq s' pgdir hv, map_eq s pgdir hv, toMap_congr (walkpgdir_ok hmodel).ent]

end refine

/-- An empty page directory in page 4, and two free pages. -/
def emptyWords : Words := ⟨[5, 6], fun _ _ => 0⟩

theorem emptyWords_wf : emptyWords.Wf 4 := by
  have hnone : ∀ i, ¬emptyWords.Present 4 i := fun i h => h.2 (Nat.zero_and _)
  exact ⟨by decide, by decide, fun i hi => absurd hi (hnone i), fun i hi => absurd hi (hnone i),
    fun i j hi => absurd hi (hnone i)⟩

/-- The last two pages of the address space. -/
theorem mappages_extends_top :
    emptyWords.Wf 4 ∧ ∃ s', mappages 4 0xFFFFE800 0x1800 0x7000 PTE_W emptyWords = .ok (true, s') ∧
      s'.map 4 0xFFFFE = some (7, 3) ∧ s'.map 4 0xFFFFF = some (8, 3) ∧ s'.map 4 0 = none := by
  have hmap : ∀ v, emptyWords.map 4 v = none := by
    intro v
    simp [map, walkpgdir, load, Exec.bind_apply, emptyWords]
  obtain ⟨⟨r, s', m, hrun, -, hm, hall, hext⟩, -⟩ := mappages_extends emptyWords_wf
    (show 0x7000 < 2 ^ 32 by decide) (by decide) (show PTE_W < 0x1000 by decide)
    (show 0xFFFFE800 < 2 ^ 32 by decide) (show 0 < 0x1800 by decide) (by decide) fun v _ _ => hmap v
  have hr : r = true := by
    have hflag : (mappages 4 0xFFFFE800 0x1800 0x7000 PTE_W emptyWords).toOption.map Prod.fst =
        some true := by decide +kernel
    rw [hrun] at hflag
    exact Option.some.inj hflag
  subst hr
  obtain rfl := hall.mp rfl
  refine ⟨emptyWords_wf, s', hrun, ?_, ?_, ?_⟩
  · rw [hext _ (by decide), if_pos (by decide)]
    decide
  · rw [hext _ (by decide), if_pos (by decide)]
    decide
  · rw [hext _ (by decide), if_neg (by decide)]
    exact hmap 0

end Words

end Vm
end Xv6
