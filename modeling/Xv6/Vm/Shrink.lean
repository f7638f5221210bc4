import Xv6.Vm.User

/-!
# Shrinking an address space (`vm.c`)

`deallocuvm` starts at `PGROUNDDOWN(newsz)`, so the page with the bytes just below `newsz`
goes too when `newsz` is not a multiple of the page size.  `deallocuvm_shrinks` and
`deallocuvm_panics` say what the loop does, `exactDealloc_iff` where this is what shrinking should
do, and `rollback_iff` when the failure of `allocuvm` leaves the mappings as they were.
-/

namespace Xv6
namespace Vm

open Lib Lib.Exec Function

/-- What virtual page `u` is mapped to. -/
def PageDir.mapping (d : PageDir) (u : Nat) : Option Pte :=
  if (d.ent u).present then some (d.ent u) else none

/-- The frames of the present pages among the `n` pages from `v` on, lowest page first. -/
def PageDir.frames (d : PageDir) (v n : Nat) : List Nat :=
  (List.range' v n).filterMap fun u => (d.mapping u).map Pte.ppn

/-- The `n` pages from `v` on are gone, and their frames are on the free list. -/
structure Shrunk (d d' : PageDir) (v n : Nat) (s s' : Kmem) : Prop where
  ent : ∀ u, u < 2 ^ 20 → d'.ent u =
    if v ≤ u ∧ u < v + n ∧ (d.ent u).present = true then Pte.zero else d.ent u
  freelist : s'.freelist = (d.frames v n).reverse ++ s.freelist
  mem : ∀ p, s'.mem p = if p ∈ d.frames v n then fun _ => 1 else s.mem p

/-- The number of pages that start below `sz`. -/
def pagesTo (sz : Nat) : Nat := (sz + PGSIZE - 1) / PGSIZE

variable {M : Machine} {d d' : PageDir} {s s' : Kmem} {u v n oldsz newsz : Nat}

theorem lt_pagesTo : u < pagesTo oldsz ↔ u * PGSIZE < oldsz := by
  unfold pagesTo PGSIZE
  omega

theorem pagesTo_le (hold : oldsz ≤ KERNBASE) : pagesTo oldsz ≤ 2 ^ 19 := by
  unfold pagesTo PGSIZE
  unfold KERNBASE at hold
  omega

theorem mapping_of_present (h : (d.ent u).present = true) : d.mapping u = some (d.ent u) :=
  if_pos h

theorem mapping_of_absent (h : (d.ent u).present = false) : d.mapping u = none := by
  rw [PageDir.mapping, h]
  rfl

theorem mapping_congr (h : d'.ent u = d.ent u) : d'.mapping u = d.mapping u := by
  rw [PageDir.mapping, PageDir.mapping, h]

theorem frames_zero : d.frames v 0 = [] := rfl

theorem frames_succ_present (h : (d.ent v).present = true) :
    d.frames v (n + 1) = (d.ent v).ppn :: d.frames (v + 1) n := by
  rw [PageDir.frames, List.range'_succ, List.filterMap_cons, mapping_of_present h]
  rfl

theorem frames_succ_absent (h : (d.ent v).present = false) :
    d.frames v (n + 1) = d.frames (v + 1) n := by
  rw [PageDir.frames, List.range'_succ, List.filterMap_cons, mapping_of_absent h]
  rfl

theorem mem_frames {p : Nat} : p ∈ d.frames v n ↔
    ∃ u, v ≤ u ∧ u < v + n ∧ (d.ent u).present = true ∧ (d.ent u).ppn = p := by
  unfold PageDir.frames PageDir.mapping
  simp only [List.mem_filterMap, List.mem_range'_1, Option.map_eq_some_iff]
  constructor
  · rintro ⟨u, ⟨hv, hn⟩, e, he, hp⟩
    split_ifs at he with hpres
    cases he
    exact ⟨u, hv, hn, hpres, hp⟩
  · rintro ⟨u, hv, hn, hpres, hp⟩
    exact ⟨u, ⟨hv, hn⟩, _, if_pos hpres, hp⟩

theorem frames_congr (h : ∀ u, v ≤ u → u < v + n → d'.ent u = d.ent u) :
    d'.frames v n = d.frames v n := by
  unfold PageDir.frames PageDir.mapping
  apply List.filterMap_congr
  intro u hu
  rw [List.mem_range'_1] at hu
  rw [h u hu.1 hu.2]

/-! ### The loop -/

theorem deallocPage_absent (hv : v < 2 ^ 20) (h : (d.ent v).present = false) (s : Kmem) :
    deallocPage M d (v * PGSIZE) s = .ok (d, s) := by
  have hpte : d.pte (v * PGSIZE) = d.ent v := by rw [PageDir.pte_eq_ent, vpn_mul_PGSIZE hv]
  unfold deallocPage
  rw [bind_of_ok (walkpgdir_noalloc d (v * PGSIZE) s)]
  dsimp only
  rw [hpte, h]
  cases (d.pde (PDX (v * PGSIZE))).isSome with
  | false => rfl
  | true => rfl

theorem deallocPage_present (hv : v < 2 ^ 20) (h : (d.ent v).present = true) (s : Kmem) :
    deallocPage M d (v * PGSIZE) s = if M.InRange (d.ent v).ppn then
        .ok (d.setPte (v * PGSIZE) Pte.zero,
          ⟨(d.ent v).ppn :: s.freelist, update s.mem (d.ent v).ppn fun _ => 1⟩)
      else .error (.panic .kfree) := by
  have hpte : d.pte (v * PGSIZE) = d.ent v := by rw [PageDir.pte_eq_ent, vpn_mul_PGSIZE hv]
  have hfound : (d.pde (PDX (v * PGSIZE))).isSome = true := by
    rw [PDX_eq_vpn, vpn_mul_PGSIZE hv]
    exact table_of_present h
  unfold deallocPage
  rw [bind_of_ok (walkpgdir_noalloc d (v * PGSIZE) s)]
  dsimp only
  rw [hpte, h, hfound, if_pos rfl, if_pos rfl]
  by_cases hr : M.InRange (d.ent v).ppn
  · have hne : (d.ent v).ppn ≠ 0 := by
      intro h0
      have hend := hr.1
      have hpos := M.data_lt_end
      omega
    rw [if_neg hne, if_pos hr, bind_of_ok (kfree_of_inRange hr s)]
    rfl
  · rw [if_neg hr]
    by_cases h0 : (d.ent v).ppn = 0
    · rw [if_pos h0]
      rfl
    · rw [if_neg h0]
      apply bind_of_error
      unfold kfree
      rw [if_neg hr]
      rfl

/-- The entries once a present page is cleared. -/
theorem ent_clear (hv : v < 2 ^ 20) (h : (d.ent v).present = true) (hu : u < 2 ^ 20) :
    (d.setPte (v * PGSIZE) Pte.zero).ent u = if u = v then Pte.zero else d.ent u := by
  have hfound : (d.pde (PDX (v * PGSIZE))).isSome = true := by
    rw [PDX_eq_vpn, vpn_mul_PGSIZE hv]
    exact table_of_present h
  rw [PageDir.ent_setPte d _ hu hfound, vpn_mul_PGSIZE hv]

theorem frames_clear (hv : v < 2 ^ 20) (hn : v + 1 + n ≤ 2 ^ 20) (hp : (d.ent v).present = true) :
    (d.setPte (v * PGSIZE) Pte.zero).frames (v + 1) n = d.frames (v + 1) n := by
  apply frames_congr
  intro u hlo hhi
  rw [ent_clear hv hp (by omega), if_neg (by omega)]

variable {fuel x : Nat}

/-- A turn of the loop. -/
theorem deallocLoop_turn (hold : oldsz ≤ KERNBASE) (hlt : v * PGSIZE < oldsz) :
    deallocLoop M oldsz (fuel + 1) d (v * PGSIZE) =
      deallocPage M d (v * PGSIZE) >>= fun d => deallocLoop M oldsz fuel d ((v + 1) * PGSIZE) := by
  rw [deallocLoop, if_pos hlt, next_page (by unfold PGSIZE KERNBASE at *; omega)]

/-- The last turn. -/
theorem deallocLoop_end (hge : ¬v * PGSIZE < oldsz) :
    deallocLoop M oldsz (fuel + 1) d (v * PGSIZE) s = .ok (d, s) := by
  rw [deallocLoop, if_neg hge]
  rfl

theorem Shrunk.nothing : Shrunk d d v 0 s s := by
  refine ⟨fun u _ => ?_, rfl, fun p => ?_⟩
  · rw [if_neg]
    omega
  · rw [frames_zero, if_neg List.not_mem_nil]

/-- The first page is absent. -/
theorem shrunk_skip (habs : (d.ent v).present = false) :
    Shrunk d d' (v + 1) n s s' ↔ Shrunk d d' v (n + 1) s s' := by
  have hframes := frames_succ_absent (n := n) habs
  have hrange : ∀ u, (v + 1 ≤ u ∧ u < v + 1 + n ∧ (d.ent u).present = true) ↔
      (v ≤ u ∧ u < v + (n + 1) ∧ (d.ent u).present = true) := by
    intro u
    constructor
    · rintro ⟨hlo, hhi, hp⟩
      exact ⟨by omega, by omega, hp⟩
    · rintro ⟨hlo, hhi, hp⟩
      have hne : u ≠ v := by
        rintro rfl
        rw [habs] at hp
        cases hp
      exact ⟨by omega, by omega, hp⟩
  constructor
  · intro h
    refine ⟨fun u hu => ?_, by rw [hframes]; exact h.freelist, fun p => by rw [hframes]; exact h.mem p⟩
    rw [h.ent u hu]
    simp only [hrange]
  · intro h
    refine ⟨fun u hu => ?_, by rw [← hframes]; exact h.freelist, fun p => by rw [← hframes]; exact h.mem p⟩
    rw [h.ent u hu]
    simp only [hrange]

/-- The first page goes. -/
theorem Shrunk.clear (hv : v < 2 ^ 20) (hn : v + 1 + n ≤ 2 ^ 20) (hp : (d.ent v).present = true)
    (h : Shrunk (d.setPte (v * PGSIZE) Pte.zero) d' (v + 1) n
      ⟨(d.ent v).ppn :: s.freelist, update s.mem (d.ent v).ppn fun _ => 1⟩ s') :
    Shrunk d d' v (n + 1) s s' := by
  have hframes := frames_clear hv hn hp
  refine ⟨fun u hu => ?_, ?_, fun p => ?_⟩
  · rw [h.ent u hu, ent_clear hv hp hu]
    by_cases huv : u = v
    · have hin : v ≤ u ∧ u < v + (n + 1) ∧ (d.ent u).present = true := by
        rw [huv]
        exact ⟨Nat.le_refl _, by omega, hp⟩
      rw [if_pos huv, if_pos hin]
      exact ite_self _
    · have hlo : v + 1 ≤ u ↔ v ≤ u := by omega
      have hhi : u < v + 1 + n ↔ u < v + (n + 1) := by omega
      rw [if_neg huv]
      simp only [hlo, hhi]
  · rw [h.freelist, hframes, frames_succ_present hp, List.reverse_cons, List.append_assoc]
    rfl
  · rw [h.mem p, hframes, frames_succ_present hp]
    by_cases hmem : p ∈ d.frames (v + 1) n
    · rw [if_pos hmem, if_pos (List.mem_cons_of_mem _ hmem)]
    · rw [if_neg hmem]
      by_cases hpv : p = (d.ent v).ppn
      · subst hpv
        rw [if_pos List.mem_cons_self]
        exact update_self ..
      · rw [if_neg fun h => (List.mem_cons.mp h).elim hpv hmem]
        exact update_of_ne hpv ..

/-- The loop frees the pages if `kfree` accepts all of their frames. -/
theorem deallocLoop_shrinks (hold : oldsz ≤ KERNBASE) (hn : v + n = pagesTo oldsz)
    (hfuel : n < fuel) (hframes : ∀ p ∈ d.frames v n, M.InRange p) :
    ∃ d' s', deallocLoop M oldsz fuel d (v * PGSIZE) s = .ok (d', s') ∧ Shrunk d d' v n s s' := by
  -- by induction on the number of pages left
  induction n generalizing fuel v d s with
  | zero =>
    obtain ⟨fuel, rfl⟩ := Nat.exists_eq_add_of_lt hfuel
    have hge : ¬v * PGSIZE < oldsz := by
      rw [← lt_pagesTo]
      omega
    exact ⟨d, s, by rw [Nat.zero_add]; exact deallocLoop_end hge, Shrunk.nothing⟩
  | succ n ih =>
    obtain ⟨fuel, rfl⟩ : ∃ m, fuel = m + 1 := ⟨fuel - 1, by omega⟩
    have hlt : v * PGSIZE < oldsz := by
      rw [← lt_pagesTo]
      omega
    have htop := pagesTo_le hold
    rw [deallocLoop_turn hold hlt]
    by_cases hp : (d.ent v).present = true
    · rw [frames_succ_present hp] at hframes
      have hr : M.InRange (d.ent v).ppn := hframes _ List.mem_cons_self
      have hpage := deallocPage_present (M := M) (by omega) hp s
      rw [if_pos hr] at hpage
      rw [bind_of_ok hpage]
      have hrest : ∀ p ∈ (d.setPte (v * PGSIZE) Pte.zero).frames (v + 1) n, M.InRange p := by
        rw [frames_clear (by omega) (by omega) hp]
        exact fun p hmem => hframes p (List.mem_cons_of_mem _ hmem)
      obtain ⟨d', s', hrun, hshrunk⟩ := ih (by omega) (Nat.lt_of_succ_lt_succ hfuel) hrest
      exact ⟨d', s', hrun, hshrunk.clear (by omega) (by omega) hp⟩
    · have habs : (d.ent v).present = false := Bool.eq_false_iff.mpr hp
      rw [frames_succ_absent habs] at hframes
      rw [bind_of_ok (deallocPage_absent (by omega) habs s)]
      obtain ⟨d', s', hrun, hshrunk⟩ := ih (by omega) (Nat.lt_of_succ_lt_succ hfuel) hframes
      exact ⟨d', s', hrun, (shrunk_skip habs).mp hshrunk⟩

/-- Otherwise it ends in the panic of `kfree`. -/
theorem deallocLoop_panics (hold : oldsz ≤ KERNBASE) (hn : v + n = pagesTo oldsz)
    (hfuel : n < fuel) (hframes : ¬∀ p ∈ d.frames v n, M.InRange p) :
    deallocLoop M oldsz fuel d (v * PGSIZE) s = .error (.panic .kfree) := by
  induction n generalizing fuel v d s with
  | zero =>
    apply absurd _ hframes
    intro p hp
    cases hp
  | succ n ih =>
    obtain ⟨fuel, rfl⟩ : ∃ m, fuel = m + 1 := ⟨fuel - 1, by omega⟩
    have hlt : v * PGSIZE < oldsz := by
      rw [← lt_pagesTo]
      omega
    have htop := pagesTo_le hold
    rw [deallocLoop_turn hold hlt]
    by_cases hp : (d.ent v).present = true
    · rw [frames_succ_present hp] at hframes
      have hpage := deallocPage_present (M := M) (by omega) hp s
      by_cases hr : M.InRange (d.ent v).ppn
      · rw [if_pos hr] at hpage
        rw [bind_of_ok hpage]
        apply ih (by omega) (Nat.lt_of_succ_lt_succ hfuel)
        intro hrest
        apply hframes
        rw [frames_clear (by omega) (by omega) hp] at hrest
        exact List.forall_mem_cons.mpr ⟨hr, hrest⟩
      · rw [if_neg hr] at hpage
        exact bind_of_error hpage
    · have habs : (d.ent v).present = false := Bool.eq_false_iff.mpr hp
      rw [frames_succ_absent habs] at hframes
      rw [bind_of_ok (deallocPage_absent (by omega) habs s)]
      exact ih (by omega) (Nat.lt_of_succ_lt_succ hfuel) hframes

/-- How many pages `deallocuvm` goes over. -/
def span (oldsz newsz : Nat) : Nat := pagesTo oldsz - newsz / PGSIZE

theorem add_span (hlt : newsz < oldsz) : newsz / PGSIZE + span oldsz newsz = pagesTo oldsz := by
  unfold span pagesTo PGSIZE
  omega

theorem span_lt (newsz : Nat) (hold : oldsz ≤ KERNBASE) : span oldsz newsz < 2 ^ 20 + 1 :=
  calc span oldsz newsz ≤ pagesTo oldsz := Nat.sub_le _ _
    _ ≤ 2 ^ 19 := pagesTo_le hold
    _ < 2 ^ 20 + 1 := by decide

/-- `deallocuvm` frees the pages from the one of `newsz` on. -/
theorem deallocuvm_shrinks (hlt : newsz < oldsz) (hold : oldsz ≤ KERNBASE)
    (hframes : ∀ p ∈ d.frames (newsz / PGSIZE) (span oldsz newsz), M.InRange p) :
    ∃ d' s', deallocuvm M d oldsz newsz s = .ok ((d', newsz), s') ∧
      Shrunk d d' (newsz / PGSIZE) (span oldsz newsz) s s' := by
  have hfuel := span_lt newsz hold
  obtain ⟨d', s', hrun, hshrunk⟩ := deallocLoop_shrinks hold (add_span hlt) hfuel hframes
  refine ⟨d', s', ?_, hshrunk⟩
  unfold deallocuvm
  rw [if_neg (Nat.not_le.mpr hlt)]
  exact bind_of_ok hrun

theorem deallocuvm_panics (hlt : newsz < oldsz) (hold : oldsz ≤ KERNBASE)
    (hframes : ¬∀ p ∈ d.frames (newsz / PGSIZE) (span oldsz newsz), M.InRange p) :
    deallocuvm M d oldsz newsz s = .error (.panic .kfree) := by
  have hfuel := span_lt newsz hold
  have hrun := deallocLoop_panics (s := s) hold (add_span hlt) hfuel hframes
  unfold deallocuvm
  rw [if_neg (Nat.not_le.mpr hlt)]
  exact bind_of_error hrun

/-- Nothing above the user part goes. -/
theorem Shrunk.mapping_high (h : Shrunk d d' (newsz / PGSIZE) (span oldsz newsz) s s')
    (hold : oldsz ≤ KERNBASE) (hlt : newsz < oldsz) (hlo : userPages ≤ u) (hhi : u < 2 ^ 20) :
    d'.mapping u = d.mapping u := by
  apply mapping_congr
  rw [h.ent u hhi, if_neg]
  rintro ⟨-, hin, -⟩
  have htop := pagesTo_le hold
  rw [add_span hlt] at hin
  unfold userPages at hlo
  omega

/-! ### The bytes that remain -/

/-- The value of a byte as user code reads it: a page that is not there is filled with
zeros at the first access. -/
def PageDir.byte (d : PageDir) (s : Kmem) (x : Nat) : UInt8 :=
  match d.mapping (x / PGSIZE) with
  | some e => s.mem e.ppn (x % PGSIZE)
  | none => 0

/-- No frame is mapped at two user pages. -/
def Unshared (d : PageDir) : Prop :=
  ∀ u v, u < userPages → v < userPages → (d.ent u).present = true → (d.ent v).present = true →
    (d.ent u).ppn = (d.ent v).ppn → u = v

theorem byte_of_absent (h : (d.ent (x / PGSIZE)).present = false) : d.byte s x = 0 := by
  rw [PageDir.byte, mapping_of_absent h]

/-- A byte below the pages that go. -/
theorem Shrunk.byte_below (h : Shrunk d d' v n s s') (hun : Unshared d)
    (hn : v + n ≤ userPages) (hx : x / PGSIZE < v) : d'.byte s' x = d.byte s x := by
  have hbound : x / PGSIZE < 2 ^ 20 := by
    unfold userPages at hn
    omega
  have hent := h.ent _ hbound
  rw [if_neg fun hc => Nat.not_lt.mpr hc.1 hx] at hent
  by_cases hp : (d.ent (x / PGSIZE)).present = true
  · -- its frame is not one of those that were filled with junk
    have hkept : (d.ent (x / PGSIZE)).ppn ∉ d.frames v n := by
      intro hmem
      obtain ⟨u, hlo, hhi, hpu, heq⟩ := mem_frames.mp hmem
      have := hun u (x / PGSIZE) (by omega) (by omega) hpu hp heq
      omega
    rw [PageDir.byte, PageDir.byte, mapping_congr hent, mapping_of_present hp]
    dsimp only
    rw [h.mem, if_neg hkept]
  · rw [Bool.not_eq_true] at hp
    rw [byte_of_absent hp, byte_of_absent (by rw [hent]; exact hp)]

/-- A byte of a page that has gone. -/
theorem Shrunk.byte_gone (h : Shrunk d d' v n s s') (hn : v + n ≤ userPages)
    (hlo : v ≤ x / PGSIZE) (hhi : x / PGSIZE < v + n) : d'.byte s' x = 0 := by
  have hbound : x / PGSIZE < 2 ^ 20 := by
    unfold userPages at hn
    omega
  have hent := h.ent _ hbound
  apply byte_of_absent
  by_cases hp : (d.ent (x / PGSIZE)).present = true
  · rw [hent, if_pos ⟨hlo, hhi, hp⟩]
    rfl
  · rw [hent, if_neg fun hc => hp hc.2.2]
    exact Bool.eq_false_iff.mpr hp

/-! ### What shrinking should do -/

/-- The present pages that lie in `[PGROUNDUP(newsz), oldsz)` are unmapped and freed, and
nothing else. -/
def ExactDealloc (M : Machine) (d : PageDir) (oldsz newsz : Nat) (s : Kmem) : Prop :=
  ∃ d' s', deallocuvm M d oldsz newsz s = .ok ((d', newsz), s') ∧
    Shrunk d d' (PGROUNDUP newsz / PGSIZE) (pagesTo oldsz - PGROUNDUP newsz / PGSIZE) s s'

/-- No page has bytes below and above `newsz`. -/
def Whole (d : PageDir) (newsz : Nat) : Prop :=
  newsz % PGSIZE = 0 ∨ (d.ent (newsz / PGSIZE)).present = false

/-- The frames of the pages to go can be freed. -/
def Freeable (M : Machine) (d : PageDir) (oldsz newsz : Nat) : Prop :=
  ∀ u, PGROUNDUP newsz ≤ u * PGSIZE → u * PGSIZE < oldsz → (d.ent u).present = true →
    M.InRange (d.ent u).ppn

theorem PGROUNDUP_eq (hlt : newsz < KERNBASE) : PGROUNDUP newsz / PGSIZE =
    if newsz % PGSIZE = 0 then newsz / PGSIZE else newsz / PGSIZE + 1 := by
  unfold KERNBASE at hlt
  unfold PGROUNDUP PGSIZE
  split_ifs with h <;> omega

/-- Where no page is cut, the range of `deallocuvm` may as well be rounded up. -/
theorem Whole.shrunk (hlt : newsz < oldsz) (hold : oldsz ≤ KERNBASE) (h : Whole d newsz)
    (hs : Shrunk d d' (newsz / PGSIZE) (span oldsz newsz) s s') :
    Shrunk d d' (PGROUNDUP newsz / PGSIZE) (pagesTo oldsz - PGROUNDUP newsz / PGSIZE) s s' := by
  rw [PGROUNDUP_eq (hlt.trans_le hold)]
  by_cases hal : newsz % PGSIZE = 0
  · rw [if_pos hal]
    exact hs
  · rw [if_neg hal]
    apply (shrunk_skip (h.resolve_left hal)).mpr
    have hspan : pagesTo oldsz - (newsz / PGSIZE + 1) + 1 = span oldsz newsz := by
      have hsum := add_span hlt
      have hpos : newsz / PGSIZE < pagesTo oldsz := by
        rw [lt_pagesTo]
        exact Nat.lt_of_le_of_lt (Nat.div_mul_le_self ..) hlt
      omega
    rw [hspan]
    exact hs

/-- Shrinking is exact where no page is cut and all frames can be freed. -/
theorem exactDealloc_iff (hlt : newsz < oldsz) (hold : oldsz ≤ KERNBASE) :
    ExactDealloc M d oldsz newsz s ↔ Whole d newsz ∧ Freeable M d oldsz newsz := by
  have hsum := add_span hlt
  have hceil := PGROUNDUP_eq (hlt.trans_le hold)
  have htop := pagesTo_le hold
  constructor
  · rintro ⟨d', s', hrun, hexact⟩
    by_cases hframes : ∀ p ∈ d.frames (newsz / PGSIZE) (span oldsz newsz), M.InRange p
    · obtain ⟨d1, s1, hrun1, hshrunk⟩ := deallocuvm_shrinks hlt hold hframes
      rw [hrun] at hrun1
      cases hrun1
      constructor
      · -- the page that is cut would be both gone and there
        by_contra hcut
        unfold Whole at hcut
        rw [not_or, Bool.not_eq_false] at hcut
        obtain ⟨hal, hp⟩ := hcut
        have hpos : newsz / PGSIZE < pagesTo oldsz := by
          rw [lt_pagesTo]
          exact Nat.lt_of_le_of_lt (Nat.div_mul_le_self ..) hlt
        have hgone := hshrunk.ent (newsz / PGSIZE) (by omega)
        rw [if_pos ⟨Nat.le_refl _, by omega, hp⟩] at hgone
        have hkept := hexact.ent (newsz / PGSIZE) (by omega)
        rw [hceil, if_neg hal, if_neg fun h => Nat.not_succ_le_self _ h.1] at hkept
        rw [← hkept, hgone] at hp
        cases hp
      · intro u hlo hhi hp
        apply hframes
        rw [mem_frames, hsum]
        refine ⟨u, ?_, lt_pagesTo.mpr hhi, hp, rfl⟩
        unfold PGROUNDUP PGSIZE at *
        unfold KERNBASE at hold
        omega
    · rw [deallocuvm_panics hlt hold hframes] at hrun
      cases hrun
  · rintro ⟨hwhole, hfree⟩
    have hframes : ∀ p ∈ d.frames (newsz / PGSIZE) (span oldsz newsz), M.InRange p := by
      intro p hmem
      obtain ⟨u, hlo, hhi, hp, rfl⟩ := mem_frames.mp hmem
      refine hfree u ?_ (lt_pagesTo.mp (by omega)) hp
      have hmul : PGROUNDUP newsz = PGROUNDUP newsz / PGSIZE * PGSIZE :=
        (Nat.div_mul_cancel (Nat.dvd_mul_left ..)).symm
      rw [hmul, hceil]
      apply Nat.mul_le_mul_right
      split_ifs with hal
      · exact hlo
      · have hne : newsz / PGSIZE ≠ u := by
          rintro rfl
          rw [hwhole.resolve_left hal] at hp
          cases hp
        omega
    obtain ⟨d', s', hrun, hshrunk⟩ := deallocuvm_shrinks hlt hold hframes
    exact ⟨d', s', hrun, hwhole.shrunk hlt hold hshrunk⟩

/-! ### Rolling back -/

/-- The mappings once `deallocuvm` has released a range. -/
theorem mapping_released {r : Nat} (hlt : newsz < oldsz) (hold : oldsz < KERNBASE)
    (h : deallocuvm M d oldsz newsz s = .ok ((d', r), s')) : ∀ u, u < 2 ^ 20 → d'.mapping u =
      if newsz / PGSIZE ≤ u ∧ u * PGSIZE < oldsz then none else d.mapping u := by
  have hbound : oldsz < 2 ^ 32 := Nat.lt_trans hold (by decide)
  rcases deallocuvm_ok hbound (fun _ => .inl hold.le) h with ⟨hge, -⟩ | ⟨-, -, hrel⟩
  · omega
  · intro u hu
    have hent := hrel.ent u hu
    by_cases hp : (d.ent u).present = true
    · by_cases hin : newsz / PGSIZE ≤ u ∧ u * PGSIZE < oldsz
      · rw [if_pos ⟨hin.1, hin.2, hp⟩] at hent
        rw [if_pos hin, mapping_of_absent]
        rw [hent]
        rfl
      · rw [if_neg fun hc => hin ⟨hc.1, hc.2.1⟩] at hent
        rw [if_neg hin, mapping_congr hent]
    · rw [if_neg fun hc => hp hc.2.2] at hent
      rw [mapping_congr hent, mapping_of_absent (Bool.eq_false_iff.mpr hp), ite_self]

/-- A failed `allocuvm` leaves no page from that of `oldsz` up to `newsz`, and all others. -/
theorem allocLoop_failed (hnew : newsz < KERNBASE) (hv : oldsz ≤ v * PGSIZE)
    (h : allocLoop M oldsz newsz fuel d (v * PGSIZE) s = .ok ((d', 0), s')) :
    ∀ u, u < 2 ^ 20 → d'.mapping u =
      if oldsz / PGSIZE ≤ u ∧ u * PGSIZE < newsz then none else d.mapping u := by
  -- by induction on the fuel: a page mapped on the way is in the range that is released
  induction fuel generalizing v d s with
  | zero => cases h
  | succ fuel ih =>
    cases allocLoop_turn h with
    | done hge =>
      intro u hu
      rw [if_neg]
      rintro ⟨-, hc⟩
      exact Nat.not_lt_zero _ hc
    | noPage hlt hdealloc => exact mapping_released (hv.trans_lt hlt) hnew hdealloc
    | @noTable d1 _ _ _ _ _ _ _ hlt htaken hmap hdealloc hfree =>
      intro u hu
      rw [mapping_released (hv.trans_lt hlt) hnew hdealloc u hu]
      have hent : d1.ent u = d.ent u := by
        rw [(mappages_user_ok (page_lt_userPages hnew hlt) hmap).1.ent u hu, if_neg]
        rintro ⟨-, hc⟩
        cases hc
      rw [mapping_congr hent]
    | mapped hlt htaken hmap hrest =>
      have hm := (mappages_user_ok (page_lt_userPages hnew hlt) hmap).1
      have hpage : oldsz / PGSIZE ≤ v := by
        unfold PGSIZE at *
        omega
      intro u hu
      rw [ih (hv.trans (Nat.mul_le_mul_right _ (Nat.le_succ v))) hrest u hu]
      by_cases hin : oldsz / PGSIZE ≤ u ∧ u * PGSIZE < newsz
      · rw [if_pos hin, if_pos hin]
      · have hne : u ≠ v := by
          rintro rfl
          exact hin ⟨hpage, hlt⟩
        have hent := hm.ent u hu
        rw [if_neg fun hc => hne hc.1] at hent
        rw [if_neg hin, if_neg hin, mapping_congr hent]

/-- A failed `allocuvm` leaves the mappings as they were exactly if there were none in the
range it releases. -/
theorem rollback_iff (hnew : newsz < KERNBASE)
    (h : allocuvm M d oldsz newsz s = .ok ((d', 0), s')) :
    (∀ u, u < 2 ^ 20 → d'.mapping u = d.mapping u) ↔
      ∀ u, oldsz / PGSIZE ≤ u → u * PGSIZE < newsz → (d.ent u).present = false := by
  unfold allocuvm at h
  rw [if_neg (Nat.not_le.mpr hnew)] at h
  by_cases hlt : newsz < oldsz
  · rw [if_pos hlt] at h
    cases h
    exact absurd hlt (Nat.not_lt_zero _)
  · rw [if_neg hlt, PGROUNDUP] at h
    have hv : oldsz ≤ (oldsz + PGSIZE - 1) % 2 ^ 32 / PGSIZE * PGSIZE := by
      unfold PGSIZE KERNBASE at *
      omega
    have hmapping := allocLoop_failed hnew hv h
    constructor
    · intro hsame u hlo hhi
      have hu : u < 2 ^ 20 := by
        unfold PGSIZE KERNBASE at *
        omega
      have hnone := hmapping u hu
      rw [if_pos ⟨hlo, hhi⟩, hsame u hu] at hnone
      by_contra hp
      rw [mapping_of_present ((Bool.not_eq_false _).mp hp)] at hnone
      cases hnone
    · intro habs u hu
      rw [hmapping u hu]
      split_ifs with hin
      · exact (mapping_of_absent (habs u hin.1 hin.2)).symm
      · rfl

end Vm
end Xv6
