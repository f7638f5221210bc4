import Xv6.Lib.Ledger
import Xv6.Vm.Layout

/-!
# Two-level page tables

A page directory is a page of `1024` entries, each empty or pointing to a page
table; a page table is a page of `1024` page-table entries.  The model keeps the
page number of the directory and of every table, because those pages belong to
the directory as much as the user pages it maps.

`PageDir.pte` is the entry that `walkpgdir` without allocation leads to, the zero
entry when there is no table.  The *ledger* of a directory counts how often a
page occurs in it: as the directory page, as a table page, or as the target of a
present entry below `KERNBASE`.  Entries above `KERNBASE` map the kernel and own
nothing.
-/

namespace Xv6
namespace Vm

open Finset Lib Function

/-- A page-table entry: `PTE_ADDR` as a page number, and `PTE_FLAGS`. -/
structure Pte where
  ppn : Nat
  flags : Nat
deriving DecidableEq

namespace Pte

/-- The all-zero entry. -/
def zero : Pte := ⟨0, 0⟩

/-- `*pte & PTE_P`. -/
def present (e : Pte) : Bool := e.flags &&& PTE_P != 0

/-- `*pte & PTE_U`. -/
def user (e : Pte) : Bool := e.flags &&& PTE_U != 0

/-- How often a present entry maps `page`: once or not at all. -/
def count (e : Pte) (page : Nat) : Nat := if e.present then single e.ppn page else 0

@[simp] theorem zero_present : zero.present = false := rfl

@[simp] theorem zero_count (page : Nat) : zero.count page = 0 := by
  simp [count]

theorem count_of_not_present {e : Pte} (h : e.present = false) (page : Nat) :
    e.count page = 0 := by
  simp [count, h]

theorem count_of_present {e : Pte} (h : e.present = true) (page : Nat) :
    e.count page = single e.ppn page := by
  simp [count, h]

theorem present_or_P (ppn perm : Nat) : (Pte.mk ppn (perm ||| PTE_P)).present = true := by
  have h : (perm ||| PTE_P) &&& PTE_P = 1 := by
    simp only [PTE_P, Nat.and_one_is_mod]
    rw [Nat.or_mod_two_eq_one]
    exact .inr rfl
  simp [present, h]

end Pte

/-- A page table: its page and its entries. -/
structure PageTable where
  page : Nat
  pte : Nat → Pte

/-- A page directory: its page and its tables. -/
structure PageDir where
  page : Nat
  pde : Nat → Option PageTable

/-- The virtual page number of an address. -/
def vpn (va : Nat) : Nat := va / PGSIZE % 2 ^ 20

theorem PDX_eq_vpn (va : Nat) : PDX va = vpn va / 1024 := by
  simp only [PDX, vpn, PGSIZE]
  omega

theorem PTX_eq_vpn (va : Nat) : PTX va = vpn va % 1024 := by
  simp only [PTX, vpn, PGSIZE]
  omega

theorem vpn_mul_PGSIZE {v : Nat} (hv : v < 2 ^ 20) : vpn (v * PGSIZE) = v := by
  simp only [vpn, PGSIZE]
  omega

theorem PDX_lt (va : Nat) : PDX va < 1024 := Nat.mod_lt _ (by decide)

namespace PageDir

/-- A directory page filled with zeros. -/
def empty (page : Nat) : PageDir := ⟨page, fun _ => none⟩

/-- The entry for virtual page `v`; the zero entry where there is no table. -/
def ent (d : PageDir) (v : Nat) : Pte :=
  match d.pde (v / 1024) with
  | some t => t.pte (v % 1024)
  | none => Pte.zero

/-- The entry `walkpgdir` without allocation leads to. -/
def pte (d : PageDir) (va : Nat) : Pte :=
  match d.pde (PDX va) with
  | some t => t.pte (PTX va)
  | none => Pte.zero

/-- Store an entry through the pointer `walkpgdir` returned. -/
def setPte (d : PageDir) (va : Nat) (e : Pte) : PageDir :=
  match d.pde (PDX va) with
  | some t =>
    { d with
      pde := update d.pde (PDX va)
        (some { t with pte := update t.pte (PTX va) e }) }
  | none => d

/-- Install a zeroed page table. -/
def addTable (d : PageDir) (va page : Nat) : PageDir :=
  { d with pde := update d.pde (PDX va) (some ⟨page, fun _ => Pte.zero⟩) }

theorem pte_eq_ent (d : PageDir) (va : Nat) : d.pte va = d.ent (vpn va) := by
  simp only [pte, ent, PDX_eq_vpn, PTX_eq_vpn]

@[simp] theorem empty_page (page : Nat) : (empty page).page = page := rfl

@[simp] theorem ent_empty (page v : Nat) : (empty page).ent v = Pte.zero := rfl

@[simp] theorem setPte_page (d : PageDir) (va : Nat) (e : Pte) :
    (d.setPte va e).page = d.page := by
  unfold setPte
  split <;> rfl

@[simp] theorem addTable_page (d : PageDir) (va page : Nat) :
    (d.addTable va page).page = d.page := rfl

/-- A fresh table changes no entry. -/
theorem ent_addTable (d : PageDir) {va : Nat} (page v : Nat) (h : d.pde (PDX va) = none) :
    (d.addTable va page).ent v = d.ent v := by
  unfold ent addTable
  by_cases hv : v / 1024 = PDX va
  · simp [hv, h]
  · simp [update_of_ne hv]

theorem ent_setPte (d : PageDir) {va : Nat} (e : Pte) {v : Nat} (hv : v < 2 ^ 20)
    (h : (d.pde (PDX va)).isSome) :
    (d.setPte va e).ent v = if v = vpn va then e else d.ent v := by
  obtain ⟨t, ht⟩ := Option.isSome_iff_exists.mp h
  have hvpn : vpn va < 2 ^ 20 := Nat.mod_lt _ (by decide)
  unfold ent setPte
  rw [ht]
  by_cases hd : v / 1024 = PDX va
  · rw [hd]
    simp only [update_self, ht]
    by_cases hx : v % 1024 = PTX va
    · have hvv : v = vpn va := by
        rw [PDX_eq_vpn] at hd
        rw [PTX_eq_vpn] at hx
        omega
      rw [hx, if_pos hvv, update_self]
    · have hvv : v ≠ vpn va := by
        rintro rfl
        exact hx (PTX_eq_vpn va).symm
      rw [if_neg hvv, update_of_ne hx]
  · have hvv : v ≠ vpn va := by
      rintro rfl
      exact hd (PDX_eq_vpn va).symm
    rw [if_neg hvv]
    simp only [update_of_ne hd]

/-! ## The ledger of a directory -/

/-- How often `page` is the page of a directory entry's table. -/
def tablePage : Option PageTable → Nat → Nat
  | some t, page => single t.page page
  | none, _ => 0

@[simp] theorem tablePage_some (t : PageTable) (page : Nat) :
    tablePage (some t) page = single t.page page := rfl

@[simp] theorem tablePage_none (page : Nat) : tablePage none page = 0 := rfl

/-- How often `page` is a page table of the directory, with index below `n`. -/
def tablesBelow (d : PageDir) (n page : Nat) : Nat :=
  ∑ i ∈ range n, tablePage (d.pde i) page

/-- How often `page` is a page table of the directory. -/
def tableCount (d : PageDir) (page : Nat) : Nat := d.tablesBelow NPDENTRIES page

/-- How often `page` is mapped below `KERNBASE`. -/
def userCount (d : PageDir) (page : Nat) : Nat :=
  ∑ v ∈ range userPages, (d.ent v).count page

/-- How often `page` belongs to the directory. -/
def own (d : PageDir) (page : Nat) : Nat :=
  single d.page page + d.tableCount page + d.userCount page

theorem own_empty (p page : Nat) : (empty p).own page = single p page := by
  simp [own, tableCount, tablesBelow, userCount, empty, ent]

theorem own_addTable (d : PageDir) {va : Nat} (p page : Nat) (h : d.pde (PDX va) = none) :
    (d.addTable va p).own page = d.own page + single p page := by
  have htable : (d.addTable va p).tableCount page =
      d.tableCount page + single p page := by
    have hchange := sum_change (s := range NPDENTRIES)
      (f := fun i => tablePage (d.pde i) page)
      (g := fun i => tablePage ((d.addTable va p).pde i) page)
      (mem_range.mpr (PDX_lt va)) fun j _ hj => by
        simp only [addTable, update_of_ne hj]
    simp only [h, addTable, update_self] at hchange
    simpa [tableCount, tablesBelow, addTable] using hchange
  have huser : (d.addTable va p).userCount page = d.userCount page := by
    unfold userCount
    exact sum_congr rfl fun v _ => by rw [ent_addTable d p v h]
  simp only [own, addTable_page, htable, huser]
  omega

theorem tableCount_setPte (d : PageDir) (va : Nat) (e : Pte) (page : Nat) :
    (d.setPte va e).tableCount page = d.tableCount page := by
  unfold tableCount tablesBelow
  refine sum_congr rfl fun i _ => ?_
  unfold setPte
  cases ht : d.pde (PDX va) with
  | none => rfl
  | some t =>
    by_cases hi : i = PDX va
    · subst hi
      simp [ht]
    · simp [update_of_ne hi]

/-- Storing an entry below `KERNBASE` exchanges what the old entry mapped for
what the new one maps. -/
theorem own_setPte_user (d : PageDir) {va : Nat} (e : Pte) (page : Nat)
    (h : (d.pde (PDX va)).isSome) (hva : vpn va < userPages) :
    (d.setPte va e).own page + (d.ent (vpn va)).count page = d.own page + e.count page := by
  have huser := sum_change (s := range userPages) (f := fun v => (d.ent v).count page)
    (g := fun v => ((d.setPte va e).ent v).count page) (mem_range.mpr hva)
    fun j hj hne => by
      have hj' : j < 2 ^ 20 := by
        have := mem_range.mp hj
        simp only [userPages] at this
        omega
      simp only [ent_setPte d e hj' h, if_neg hne]
  simp only [ent_setPte d e (show vpn va < 2 ^ 20 from Nat.mod_lt _ (by decide)) h,
    if_true] at huser
  have htable := tableCount_setPte d va e page
  simp only [own, setPte_page]
  simp only [userCount] at *
  omega

/-- Storing an entry above `KERNBASE` owns nothing. -/
theorem own_setPte_kernel (d : PageDir) {va : Nat} (e : Pte) (page : Nat)
    (h : (d.pde (PDX va)).isSome) (hva : userPages ≤ vpn va) :
    (d.setPte va e).own page = d.own page := by
  have huser : (d.setPte va e).userCount page = d.userCount page := by
    unfold userCount
    refine sum_congr rfl fun v hv => ?_
    have hv' := mem_range.mp hv
    rw [ent_setPte d e (by simp only [userPages] at hv'; omega) h, if_neg (by omega)]
  simp only [own, setPte_page, tableCount_setPte, huser]

end PageDir
end Vm
end Xv6
