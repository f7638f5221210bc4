import Xv6.Vm.Total

/-!
# When an address space cannot be copied (`vm.c`)

`copyuvm` takes one page for each page of the parent, and one for each page table of the child.
If there is no page for the copy, it gives everything back.  If there is a page for the copy but
none for the table, the page of the copy is lost: `mappages` has not mapped it, and nobody frees
it.  `Starved` says for which number of free pages this happens, and `copyuvm_fails` that nothing
is lost otherwise.
-/

namespace Xv6
namespace Vm

open Lib Lib.Exec

/-- No present page before page `u` has its entry in the same page table. -/
def FirstUnder (d : PageDir) (u : Nat) : Prop :=
  ∀ w, w < u → w / 1024 = u / 1024 → (d.ent w).present = false

instance (d : PageDir) (u : Nat) : Decidable (FirstUnder d u) :=
  inferInstanceAs (Decidable (∀ w, w < u → _))

/-- The pages it takes to copy the present pages before page `u`, with their page tables. -/
def copyCost (d : PageDir) : Nat → Nat
  | 0 => 0
  | u + 1 =>
    copyCost d u + if (d.ent u).present then (if FirstUnder d u then 2 else 1) else 0

/-- From page `v` on, `free` pages last for the copy of some page but not for its table. -/
def Starved (d : PageDir) (v free : Nat) : Prop :=
  ∃ u, v ≤ u ∧ u < userPages ∧ (d.ent u).present = true ∧ FirstUnder d u ∧
    free + copyCost d v = copyCost d u + 1

variable {M : Machine} {s s' : Kmem} {d d' parent : PageDir} {u v n : Nat}

theorem copyCost_mono (d : PageDir) {u v : Nat} (h : u ≤ v) : copyCost d u ≤ copyCost d v := by
  induction h with
  | refl => exact Nat.le_refl _
  | step _ ih => exact Nat.le_trans ih (Nat.le_add_right _ _)

/-! ### Tables -/

/-- Every page table has an entry in use. -/
def Populated (d : PageDir) : Prop :=
  ∀ i, (d.pde i).isSome = true → ∃ u, u < 2 ^ 20 ∧ u / 1024 = i ∧ (d.ent u).present = true

theorem walkpgdir_spends {va : Nat} {found : Bool}
    (h : walkpgdir d va true s = .ok ((d', found), s')) :
    (found = false ∧ missing d (PDX va) = 1 ∧ s.freelist = [] ∧ d' = d) ∨
      (found = true ∧ s.freelist.length = s'.freelist.length + missing d (PDX va) ∧
        ∀ i, (d'.pde i).isSome = if i = PDX va then true else (d.pde i).isSome) := by
  unfold walkpgdir at h
  cases hpde : d.pde (PDX va) with
  | some t =>
    rw [hpde] at h
    cases h
    refine .inr ⟨rfl, ?_, ?_⟩
    · simp [missing, hpde]
    · intro i
      by_cases hi : i = PDX va
      · simp [hi, hpde]
      · rw [if_neg hi]
  | none =>
    rw [hpde] at h
    dsimp only at h
    rw [if_pos rfl] at h
    have hone : missing d (PDX va) = 1 := by simp [missing, hpde]
    rcases kalloc_cases s with ⟨hnil, hrun⟩ | ⟨page, rest, hcons, hrun⟩
    · rw [bind_of_ok hrun] at h
      cases h
      exact .inl ⟨rfl, hone, hnil, rfl⟩
    · rw [bind_of_ok hrun] at h
      cases h
      refine .inr ⟨rfl, ?_, ?_⟩
      · rw [hone, hcons]
        rfl
      · intro i
        by_cases hi : i = PDX va
        · simp [hi, PageDir.addTable]
        · simp [hi, PageDir.addTable]

theorem isSome_setPte (d : PageDir) (va : Nat) (e : Pte) (i : Nat) :
    ((d.setPte va e).pde i).isSome = (d.pde i).isSome := by
  have hmissing := missing_setPte d va e i
  unfold missing at hmissing
  cases h1 : ((d.setPte va e).pde i).isSome <;> cases h2 : (d.pde i).isSome <;> simp_all

/-- One step of `mappages` keeps every table in use. -/
theorem populated_step {perm ppn : Nat} {d1 : PageDir} (hd : Populated d) (hv : v < 2 ^ 20)
    (hwalk : walkpgdir d (v * PGSIZE) true s = .ok ((d1, true), s')) :
    Populated (d1.setPte (v * PGSIZE) ⟨ppn, perm ||| PTE_P⟩) := by
  have hw := walkpgdir_ok hwalk
  have hvpn : vpn (v * PGSIZE) = v := vpn_mul_PGSIZE hv
  have hpdx : PDX (v * PGSIZE) = v / 1024 := by rw [PDX_eq_vpn, hvpn]
  intro i hi
  rw [isSome_setPte] at hi
  by_cases hiv : i = v / 1024
  · refine ⟨v, hv, hiv.symm, ?_⟩
    rw [PageDir.ent_setPte d1 _ hv (hw.found rfl), hvpn, if_pos rfl]
    exact Pte.present_or_P _ _
  · rcases walkpgdir_spends hwalk with ⟨hfalse, -⟩ | ⟨-, -, hsome⟩
    · cases hfalse
    · rw [hsome i, hpdx, if_neg hiv] at hi
      obtain ⟨w, hw20, hwi, hp⟩ := hd i hi
      refine ⟨w, hw20, hwi, ?_⟩
      have hne : w ≠ v := by
        rintro rfl
        exact hiv hwi.symm
      rw [PageDir.ent_setPte d1 _ hw20 (hw.found rfl), hvpn, if_neg hne, hw.ent]
      exact hp

theorem populated_mappagesLoop {perm last fuel a ppn : Nat} {mapped : Bool}
    (hd : Populated d) (h : mappagesLoop perm last fuel d a ppn s = .ok ((d', mapped), s'))
    (ha : a % PGSIZE = 0 ∧ a < 2 ^ 32) : Populated d' := by
  -- by induction on the fuel, one page in each turn
  induction fuel generalizing d a ppn s with
  | zero =>
    cases h
    exact hd
  | succ fuel ih =>
    obtain ⟨v, rfl⟩ : ∃ v, a = v * PGSIZE := ⟨a / PGSIZE, by
      unfold PGSIZE at *
      omega⟩
    have hv : v < 2 ^ 20 := by
      unfold PGSIZE at ha
      omega
    rcases mappagesLoop_turn hv h with ⟨-, hwalk⟩ | ⟨d1, d2, t, hwalk, rfl, -, h1⟩
    · rcases walkpgdir_spends hwalk with ⟨-, -, -, rfl⟩ | ⟨htrue, -⟩
      · exact hd
      · cases htrue
    · have hnext : Populated (d1.setPte _ ⟨ppn, perm ||| PTE_P⟩) := populated_step hd hv hwalk
      split_ifs at h1
      · cases h1
        exact hnext
      · refine ih hnext h1 ?_
        unfold PGSIZE
        omega

theorem populated_mapKernel {ks : List Kmap} {rs : List Row}
    (hfits : List.Forall₂ (fun k r => r.Fits k) ks rs) (hd : Populated d)
    (h : mapKernel M ks d s = .ok (some d', s')) : Populated d' := by
  induction hfits generalizing d s with
  | nil =>
    cases h
    exact hd
  | cons hrow _ ih =>
    unfold mapKernel at h
    obtain ⟨⟨d1, mapped⟩, t, hmap, hrest⟩ := bind_eq_ok.mp h
    cases mapped with
    | false =>
      simp only [Bool.false_eq_true, if_false] at hrest
      obtain ⟨_, t', -, hret⟩ := bind_eq_ok.mp hrest
      cases hret
    | true =>
      refine ih (populated_mappagesLoop hd hmap ?_) hrest
      have hlt := hrow.virt_lt
      rw [hrow.virt]
      unfold PGROUNDDOWN PGSIZE
      omega

/-- A directory from `setupkvm` has no page tables for user pages. -/
theorem setupkvm_missing (h : setupkvm M s = .ok (some d, s')) (hu : u < userPages) :
    missing d (u / 1024) = 1 := by
  have hpopulated : Populated d := by
    unfold setupkvm at h
    have htop : ¬ P2V PHYSTOP > DEVSPACE := by decide
    simp only [bind_eq_ok, if_neg htop] at h
    obtain ⟨q, t, -, h1⟩ := h
    cases q with
    | none => cases h1
    | some page =>
      obtain ⟨_, t', -, h2⟩ := bind_eq_ok.mp h1
      exact populated_mapKernel (rows_fit M) (fun i hi => by cases hi) h2
  rcases setupkvm_ok h with ⟨d0, hd0, -, hent⟩ | ⟨hnone, -⟩
  · cases hd0
    unfold missing
    rw [if_neg]
    intro hsome
    obtain ⟨w, hw, hwu, hp⟩ := hpopulated _ hsome
    have hlow : w < userPages := by
      unfold userPages at *
      omega
    rw [hent w hw, kernelEnt_user M hlow] at hp
    cases hp
  · cases hnone

/-! ### Mapping the copy of a page -/

/-- Mapping a page fails only for want of a page for its table. -/
theorem mappages_spends {ppn perm : Nat} {mapped : Bool} (hv : v < userPages)
    (h : mappages d (v * PGSIZE) PGSIZE ppn perm s = .ok ((d', mapped), s')) :
    (mapped = false ∧ missing d (v / 1024) = 1 ∧ s.freelist = []) ∨
      (mapped = true ∧ s.freelist.length = s'.freelist.length + missing d (v / 1024) ∧
        ∀ i, (d'.pde i).isSome = if i = v / 1024 then true else (d.pde i).isSome) := by
  have hv' : v < 2 ^ 20 := by
    unfold userPages at hv
    omega
  have hpdx : PDX (v * PGSIZE) = v / 1024 := by rw [PDX_eq_vpn, vpn_mul_PGSIZE hv']
  rw [mappages_page d hv', mappagesLoop] at h
  obtain ⟨⟨d1, found⟩, t, hwalk, h1⟩ := bind_eq_ok.mp h
  rcases walkpgdir_spends hwalk with ⟨rfl, hone, hnil, -⟩ | ⟨rfl, hlen, hsome⟩
  · cases h1
    rw [hpdx] at hone
    exact .inl ⟨rfl, hone, hnil⟩
  · rw [hpdx] at hlen hsome
    dsimp only at h1
    rw [if_pos rfl] at h1
    by_cases hpresent : (d1.pte (v * PGSIZE)).present = true
    · rw [if_pos hpresent] at h1
      cases h1
    · rw [if_neg hpresent, if_pos rfl] at h1
      cases h1
      refine .inr ⟨rfl, hlen, ?_⟩
      intro i
      rw [isSome_setPte]
      exact hsome i

/-- It does fail for want of a page for the table. -/
theorem mappages_starved {ppn perm : Nat} (hv : v < 2 ^ 20) (hmissing : 0 < missing d (v / 1024))
    (hnil : s.freelist = []) : mappages d (v * PGSIZE) PGSIZE ppn perm s = .ok ((d, false), s) := by
  have hpdx : PDX (v * PGSIZE) = v / 1024 := by rw [PDX_eq_vpn, vpn_mul_PGSIZE hv]
  have hpde : d.pde (v / 1024) = none := by
    unfold missing at hmissing
    split_ifs at hmissing with hsome
    · omega
    · simpa using hsome
  have hwalk : walkpgdir d (v * PGSIZE) true s = .ok ((d, false), s) := by
    unfold walkpgdir
    rw [hpdx, hpde]
    dsimp only
    rw [if_pos rfl]
    rcases kalloc_cases s with ⟨-, hk⟩ | ⟨page, rest, hcons, -⟩
    · rw [bind_of_ok hk]
      rfl
    · rw [hnil] at hcons
      cases hcons
  rw [mappages_page d hv, mappagesLoop, bind_of_ok hwalk]
  rfl

/-! ### The loop -/

/-- Nothing to copy. -/
theorem starved_skip {free : Nat} (habs : (d.ent v).present = false) :
    Starved d v free ↔ Starved d (v + 1) free := by
  have hcost : copyCost d (v + 1) = copyCost d v := by simp [copyCost, habs]
  unfold Starved
  rw [hcost]
  constructor
  · rintro ⟨u, hvu, hu, hp, hfirst, hfree⟩
    refine ⟨u, ?_, hu, hp, hfirst, hfree⟩
    rcases Nat.lt_or_eq_of_le hvu with hlt | rfl
    · exact hlt
    · rw [habs] at hp
      cases hp
  · rintro ⟨u, hvu, hrest⟩
    exact ⟨u, Nat.le_of_succ_le hvu, hrest⟩

/-- Without free pages there is none for the copy. -/
theorem not_starved_zero : ¬Starved d v 0 := by
  rintro ⟨u, hvu, -, -, -, hfree⟩
  have hle := copyCost_mono d hvu
  omega

/-- A page has been copied. -/
theorem starved_copy {free : Nat}
    (hcost : copyCost d (v + 1) = copyCost d v + 1 + n) (hn : FirstUnder d v → n = 1) :
    Starved d v (free + 1 + n) ↔ Starved d (v + 1) free := by
  unfold Starved
  rw [hcost]
  constructor
  · rintro ⟨u, hvu, hu, hp, hfirst, hfree⟩
    refine ⟨u, ?_, hu, hp, hfirst, by omega⟩
    rcases Nat.lt_or_eq_of_le hvu with hlt | rfl
    · exact hlt
    · have := hn hfirst
      omega
  · rintro ⟨u, hvu, hu, hp, hfirst, hfree⟩
    exact ⟨u, Nat.le_of_succ_le hvu, hu, hp, hfirst, by omega⟩

/-- The directory has tables for the present pages before page `v`, and no others in the user
part. -/
def TablesFor (parent d : PageDir) (v : Nat) : Prop :=
  ∀ u, u < userPages → ((d.pde (u / 1024)).isSome = true ↔
    ∃ w, w < v ∧ w / 1024 = u / 1024 ∧ (parent.ent w).present = true)

theorem TablesFor.missing_eq (h : TablesFor parent d v) (hv : v < userPages) :
    missing d (v / 1024) = if FirstUnder parent v then 1 else 0 := by
  unfold missing
  by_cases hfirst : FirstUnder parent v
  · rw [if_pos hfirst, if_neg]
    intro hsome
    obtain ⟨w, hw, hwv, hp⟩ := (h v hv).mp hsome
    rw [hfirst w hw hwv] at hp
    cases hp
  · rw [if_neg hfirst, if_pos]
    unfold FirstUnder at hfirst
    simp only [not_forall, Bool.not_eq_false] at hfirst
    obtain ⟨w, hw, hwv, hp⟩ := hfirst
    exact (h v hv).mpr ⟨w, hw, hwv, hp⟩

theorem TablesFor.skip (h : TablesFor parent d v) (habs : (parent.ent v).present = false) :
    TablesFor parent d (v + 1) := by
  intro u hu
  rw [h u hu]
  constructor
  · rintro ⟨w, hw, hrest⟩
    exact ⟨w, Nat.lt_succ_of_lt hw, hrest⟩
  · rintro ⟨w, hw, hwu, hp⟩
    refine ⟨w, ?_, hwu, hp⟩
    rcases Nat.lt_or_eq_of_le (Nat.le_of_lt_succ hw) with hlt | rfl
    · exact hlt
    · rw [habs] at hp
      cases hp

theorem TablesFor.copy (h : TablesFor parent d v) (hp : (parent.ent v).present = true)
    (hsome : ∀ i, (d'.pde i).isSome = if i = v / 1024 then true else (d.pde i).isSome) :
    TablesFor parent d' (v + 1) := by
  intro u hu
  rw [hsome]
  by_cases huv : u / 1024 = v / 1024
  · rw [if_pos huv]
    exact iff_of_true rfl ⟨v, Nat.lt_succ_self v, huv.symm, hp⟩
  · rw [if_neg huv, h u hu]
    constructor
    · rintro ⟨w, hw, hrest⟩
      exact ⟨w, Nat.lt_succ_of_lt hw, hrest⟩
    · rintro ⟨w, hw, hwu, hpw⟩
      refine ⟨w, ?_, hwu, hpw⟩
      rcases Nat.lt_or_eq_of_le (Nat.le_of_lt_succ hw) with hlt | rfl
      · exact hlt
      · exact absurd hwu.symm huv

/-- What a failed copy has lost. -/
inductive Loses (d : PageDir) (starved : Prop) (s s' : Kmem) : Prop
  | nothing (hnot : ¬starved) (hc : Conserves s s' d.own Vm.nothing)
  /-- The page for the copy of a page. -/
  | page (mem : Nat) (hstarved : starved) (hc : Conserves s s' d.own (single mem))

theorem Loses.after {d1 : PageDir} {t : Kmem} {p q : Prop} (hc : Conserves s t d.own d1.own)
    (h : Loses d1 p t s') (hpq : q ↔ p) : Loses d q s s' := by
  cases h with
  | nothing hnot h => exact .nothing (fun hq => hnot (hpq.mp hq)) (hc.trans h)
  | page mem hstarved h => exact .page mem (hpq.mpr hstarved) (hc.trans h)

theorem copyLoop_fails (hn : n ≤ userPages) (htables : TablesFor parent d (userPages - n))
    (h : copyLoop M parent n d s = .ok (none, s')) :
    Loses d (Starved parent (userPages - n) s.freelist.length) s s' := by
  -- by induction on the number of pages still to be visited
  induction n generalizing d s with
  | zero => cases h
  | succ n ih =>
    obtain ⟨v, hv⟩ : ∃ v, v = userPages - (n + 1) := ⟨_, rfl⟩
    have hnext : userPages - n = v + 1 := by omega
    have hvu : v < userPages := by omega
    rw [hnext] at ih
    rw [← hv] at htables ⊢
    have hmissing := htables.missing_eq hvu
    cases copyLoop_turn hvu hv h with
    | skipped hp hrest =>
      rw [starved_skip hp]
      exact ih (by omega) (htables.skip hp) hrest
    | noPage hp hnil hfree =>
      rw [hnil]
      exact .nothing not_starved_zero (freevm_ok hfree)
    | @noTable _ mem _ _ _ hp htaken hlen hmap hfree =>
      rcases mappages_spends hvu hmap with ⟨-, hone, hnil⟩ | ⟨hmapped, -, -⟩
      · have hfirst : FirstUnder parent v := by
          by_contra hnot
          rw [hmissing, if_neg hnot] at hone
          cases hone
        refine .page mem ?_ ?_
        · refine ⟨v, Nat.le_refl v, hvu, hp, hfirst, ?_⟩
          rw [hlen, hnil]
          exact Nat.add_comm _ _
        · refine (htaken.unmapped hvu hmap).conserves.trans ?_
          exact ((freevm_ok hfree).carry (single mem)).congr (fun _ => rfl)
            fun p => by simp [nothing]
      · cases hmapped
    | @copied _ d1 mem _ t1 _ hp htaken hlen hmap hrest =>
      rcases mappages_spends hvu hmap with ⟨hmapped, -, -⟩ | ⟨-, hlen2, hsome⟩
      · cases hmapped
      · have hcost : copyCost parent (v + 1) = copyCost parent v + 1 + missing d (v / 1024) := by
          rw [copyCost, if_pos hp, hmissing]
          split_ifs <;> omega
        have hfirst : FirstUnder parent v → missing d (v / 1024) = 1 := by
          intro hfirst
          rw [hmissing, if_pos hfirst]
        have hfree : s.freelist.length = t1.freelist.length + 1 + missing d (v / 1024) := by omega
        rw [hfree]
        exact Loses.after (htaken.mapped hvu hmap).1.conserves
          (ih (by omega) (htables.copy hp hsome) hrest) (starved_copy hcost hfirst)

/-- With these free pages, the copy of some page can be made but not its page table. -/
def TableFails (M : Machine) (parent : PageDir) (s : Kmem) : Prop :=
  ∃ d t, setupkvm M s = .ok (some d, t) ∧ Starved parent 0 t.freelist.length

/-- A failed `copyuvm` gives everything back, except for the copy of a page without a table. -/
theorem copyuvm_fails (h : copyuvm M parent s = .ok (none, s')) :
    (¬TableFails M parent s ∧ Conserves s s' nothing nothing) ∨
      (TableFails M parent s ∧ ∃ mem, Conserves s s' nothing (single mem)) := by
  unfold copyuvm at h
  obtain ⟨q, t, hset, h1⟩ := bind_eq_ok.mp h
  have hfails : ∀ d, setupkvm M s = .ok (some d, t) →
      (TableFails M parent s ↔ Starved parent 0 t.freelist.length) := by
    intro d hd
    constructor
    · rintro ⟨d', t', hset', hstarved⟩
      rw [hd] at hset'
      cases hset'
      exact hstarved
    · intro hstarved
      exact ⟨d, t, hd, hstarved⟩
  rcases setupkvm_ok hset with ⟨d, rfl, hc, -⟩ | ⟨rfl, hc⟩
  · have htables : TablesFor parent d (userPages - userPages) := by
      intro u hu
      have hmissing := setupkvm_missing hset hu
      unfold missing at hmissing
      constructor
      · intro hsome
        rw [if_pos hsome] at hmissing
        cases hmissing
      · rintro ⟨w, hw, -⟩
        omega
    have hlost := copyLoop_fails le_rfl htables h1
    rw [Nat.sub_self] at hlost
    cases hlost with
    | nothing hnot hc' => exact .inl ⟨fun h => hnot ((hfails d hset).mp h), hc.trans hc'⟩
    | page mem hstarved hc' => exact .inr ⟨(hfails d hset).mpr hstarved, mem, hc.trans hc'⟩
  · cases h1
    refine .inl ⟨?_, hc⟩
    rintro ⟨d, t', hset', -⟩
    rw [hset] at hset'
    cases hset'

end Vm
end Xv6
