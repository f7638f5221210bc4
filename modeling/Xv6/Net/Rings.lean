import Xv6.Net.Packet

/-!
# The buffers of the descriptors (`i8254.c`)

`i8254_init_recv` and `i8254_init_send` clear the descriptors of a ring and then give out
buffers, two for each page that `kalloc` returns.  The loop advances by one descriptor for two
buffers, so the second buffer of a page is overwritten by the next round, and the loop ends
in the middle of the ring.

`bufAddr_eq` says which buffer each descriptor of the first half has.  The others keep what the
page of the ring held before, so `own_buffers_iff` names the descriptors that have a buffer of
their own.
-/

namespace Xv6
namespace Net

open Lib Transmit

def I8254_RECV_DESC_NUM : Nat := 256

/-- The loop of `i8254_init_recv` over the fields of the descriptors. -/
def clearRecvDesc (rdbal : Nat) (mem : Mem) (i : Nat) : Mem :=
  let d := rdbal + descSize * i
  let mem := store32 mem (d + 4) 0
  let mem := store16 mem (d + 8) 0
  let mem := store16 mem (d + 10) 0
  let mem := store8 mem (d + 12) 0
  let mem := store8 mem (d + 13) 0
  store16 mem (d + 14) 0

/-- The stores of `i8254_init_recv` to the descriptors; the loop over the buffers is that of
`i8254_init_send`. -/
def initRecv (rdbal : Nat) (pages : List (Option Nat)) (mem : Mem) : Mem :=
  allocBuffers rdbal 0 (pages.take (I8254_RECV_DESC_NUM / 2))
    ((List.range I8254_RECV_DESC_NUM).foldl (clearRecvDesc rdbal) mem)

/-- The two rings. -/
inductive Ring where
  | recv
  | send
deriving DecidableEq

/-- The call of `kalloc` for the ring; those for its buffers follow. -/
def Ring.call : Ring → Nat
  | .recv => 0
  | .send => 129

/-- The number of descriptors of a ring. -/
def Ring.num : Ring → Nat
  | .recv => I8254_RECV_DESC_NUM
  | .send => I8254_SEND_DESC_NUM

/-- The pages for the buffers of a ring, when `kalloc` returns page `kalloc k` in its `k`-th
call. -/
def Ring.pages (kalloc : Nat → Nat) (r : Ring) : List (Option Nat) :=
  (List.range (I8254_SEND_DESC_NUM / 2)).map fun i => some (kalloc (r.call + 1 + i))

/-- Both rings are set up, that for receiving first. -/
def initRings (kalloc : Nat → Nat) (mem : Mem) : Mem :=
  initSend (kalloc Ring.send.call) (Ring.send.pages kalloc)
    (initRecv (kalloc Ring.recv.call) (Ring.recv.pages kalloc) mem)

/-- A descriptor. -/
structure Desc where
  ring : Ring
  index : Nat
deriving DecidableEq

/-- `buf_addr` of a descriptor. -/
def Desc.bufAddr (kalloc : Nat → Nat) (mem : Mem) (d : Desc) : Nat :=
  load32 mem (kalloc d.ring.call + descSize * d.index)

/-- The pages that `kalloc` returns in both functions are pages of the memory, and no page is
returned twice. -/
structure Pages (kalloc : Nat → Nat) : Prop where
  aligned : ∀ k, k < 258 → kalloc k % Vm.PGSIZE = 0
  inRam : ∀ k, k < 258 → kalloc k + Vm.PGSIZE ≤ Vm.PHYSTOP
  distinct : ∀ j k, j < 258 → k < 258 → kalloc j = kalloc k → j = k

/-! ## The loops -/

section loops

variable {kalloc : Nat → Nat} {mem : Mem} {base i j : Nat}

theorem load32_of_bytes {m : Mem} {a w : Nat} (hw : w < 2 ^ 32)
    (h : bytes m a 4 = [UInt8.ofNat w, UInt8.ofNat (w / 256), UInt8.ofNat (w / 65536),
      UInt8.ofNat (w / 16777216)]) : load32 m a = w := by
  have hlist : [m (a + 0), m (a + 1), m (a + 2), m (a + 3)] = _ := h
  injection hlist with h0 htail
  injection htail with h1 htail
  injection htail with h2 htail
  injection htail with h3
  rw [Nat.add_zero] at h0
  rw [load32, load16, load16, h0, h1, h2, h3]
  simp only [UInt8.toNat_ofNat']
  omega

theorem load32_store32 {w : Nat} (hw : w < 2 ^ 32) (m : Mem) (a : Nat) :
    load32 (store32 m a w) a = w := load32_of_bytes hw (bytes_store32 m a w)

variable {x : Nat}

/-- The descriptors before the first of the loop are not touched. -/
theorem allocBuffers_before (pages : List (Option Nat)) (mem : Mem)
    (hx : x < base + descSize * i) : allocBuffers base i pages mem x = mem x := by
  induction pages generalizing i mem with
  | nil => rfl
  | cons page pages ih =>
    cases page with
    | none => rfl
    | some page =>
      unfold descSize at hx ih
      rw [allocBuffers, ih _ (by omega)]
      unfold descSize
      rw [store32_outside (by omega), store32_outside (by omega)]

/-- Each descriptor that the loop counts has the start of its page. -/
theorem load32_allocBuffers_counted {pages : List Nat} (hlt : ∀ p ∈ pages, p < 2 ^ 32) (mem : Mem)
    (hj : j < pages.length) :
    load32 (allocBuffers base i (pages.map some) mem) (base + descSize * (i + j)) =
      pages.getD j 0 := by
  induction pages generalizing i j mem with
  | nil => exact absurd hj (Nat.not_lt_zero j)
  | cons page pages ih =>
    rw [List.map_cons, allocBuffers]
    cases j with
    | zero =>
      -- the next rounds start behind this descriptor
      have hpage : page < 2 ^ 32 := hlt page List.mem_cons_self
      have hkeep : ∀ x, base + descSize * (i + 0) ≤ x → x < base + descSize * (i + 0) + 4 →
          allocBuffers base (i + 1) (pages.map some)
            (store32 (store32 mem (base + descSize * i) page)
              (base + descSize * (i + 1)) (page + 0x800)) x =
            store32 mem (base + descSize * i) page x := by
        intro x hlo hhi
        unfold descSize at hlo hhi ⊢
        rw [allocBuffers_before _ _ (by unfold descSize; omega), store32_outside (by omega)]
      rw [load32_congr hkeep]
      exact load32_store32 hpage _ _
    | succ j =>
      have hplace : i + (j + 1) = i + 1 + j := by omega
      rw [hplace, ih (fun p hp => hlt p (List.mem_cons_of_mem _ hp)) _
        (by rw [List.length_cons] at hj; omega)]
      rfl

/-- The descriptor behind the last one has the second half of the last page. -/
theorem load32_allocBuffers_last {pages : List Nat} {page : Nat} (hlt : page + 0x800 < 2 ^ 32)
    (mem : Mem) :
    load32 (allocBuffers base i ((pages ++ [page]).map some) mem)
      (base + descSize * (i + pages.length + 1)) = page + 0x800 := by
  induction pages generalizing i mem with
  | nil => exact load32_store32 hlt _ _
  | cons p pages ih =>
    have hplace : i + (p :: pages).length + 1 = i + 1 + pages.length + 1 := by
      rw [List.length_cons]
      omega
    rw [List.cons_append, List.map_cons, allocBuffers, hplace]
    exact ih _

/-- The loop ends with the descriptor behind the last one that it counts. -/
theorem allocBuffers_behind (pages : List (Option Nat)) (mem : Mem)
    (hx : base + descSize * (i + pages.length + 1) ≤ x) : allocBuffers base i pages mem x = mem x := by
  induction pages generalizing i mem with
  | nil => rfl
  | cons page pages ih =>
    rw [List.length_cons] at hx
    cases page with
    | none => rfl
    | some page =>
      unfold descSize at hx ih
      rw [allocBuffers, ih _ (by omega)]
      unfold descSize
      rw [store32_outside (by omega), store32_outside (by omega)]

/-- What every round keeps, the loop keeps. -/
theorem foldl_keeps {β : Type} {f : Mem → Nat → Mem} (view : Mem → β) (is : List Nat) (mem : Mem)
    (h : ∀ i ∈ is, ∀ m, view (f m i) = view m) : view (is.foldl f mem) = view mem := by
  induction is generalizing mem with
  | nil => rfl
  | cons i is ih =>
    rw [List.foldl_cons, ih _ fun k hk => h k (List.mem_cons_of_mem _ hk), h i List.mem_cons_self]

theorem clearRecvDesc_outside (hi : i < 256) (hx : x < base ∨ base + 4096 ≤ x) :
    clearRecvDesc base mem i x = mem x := by
  unfold clearRecvDesc descSize
  simp (disch := omega) only [store8_outside, store16_outside, store32_outside]

theorem clearDesc_outside (hi : i < 256) (hx : x < base ∨ base + 4096 ≤ x) :
    clearDesc base mem i x = mem x := by
  unfold clearDesc descSize
  simp (disch := omega) only [store8_outside, store16_outside, store32_outside]

theorem load32_clearRecvDesc (mem : Mem) (i j : Nat) :
    load32 (clearRecvDesc base mem i) (base + descSize * j) = load32 mem (base + descSize * j) := by
  apply load32_congr
  intro x hlo hhi
  unfold clearRecvDesc
  unfold descSize at hlo hhi ⊢
  simp (disch := omega) only [store8_outside, store16_outside, store32_outside]

variable {pages : List (Option Nat)}

theorem allocBuffers_outside (hlen : pages.length ≤ 128)
    (hx : x < base ∨ base + 4096 ≤ x) : allocBuffers base 0 pages mem x = mem x := by
  cases hx with
  | inl hlt => exact allocBuffers_before _ _ (by unfold descSize; omega)
  | inr hle => exact allocBuffers_behind _ _ (by unfold descSize; omega)

theorem length_take_half (pages : List (Option Nat)) : (pages.take 128).length ≤ 128 := by
  rw [List.length_take]
  exact Nat.min_le_left 128 _

theorem initRecv_outside
    (hx : x < base ∨ base + 4096 ≤ x) : initRecv base pages mem x = mem x := by
  have hclear := foldl_keeps (fun m : Mem => m x) (List.range I8254_RECV_DESC_NUM) mem
    fun i hi m => clearRecvDesc_outside (List.mem_range.mp hi) hx
  exact (allocBuffers_outside (length_take_half pages) hx).trans hclear

theorem initSend_outside
    (hx : x < base ∨ base + 4096 ≤ x) : initSend base pages mem x = mem x := by
  have hclear := foldl_keeps (fun m : Mem => m x) (List.range I8254_SEND_DESC_NUM) mem
    fun i hi m => clearDesc_outside (List.mem_range.mp hi) hx
  exact (allocBuffers_outside (length_take_half pages) hx).trans hclear

end loops

/-! ## Which buffers -/

section rings

variable {kalloc : Nat → Nat} {mem : Mem}

/-- Two pages have no byte in common. -/
theorem Pages.apart (h : Pages kalloc) {j k x : Nat} (hj : j < 258) (hk : k < 258) (hne : j ≠ k)
    (hlo : kalloc j ≤ x) (hhi : x < kalloc j + 4096) : x < kalloc k ∨ kalloc k + 4096 ≤ x := by
  have haj : kalloc j % 4096 = 0 := h.aligned j hj
  have hak : kalloc k % 4096 = 0 := h.aligned k hk
  have hdiff : kalloc j ≠ kalloc k := fun heq => hne (h.distinct j k hj hk heq)
  omega

theorem Ring.length_pages (r : Ring) : (r.pages kalloc).length = 128 := by
  rw [Ring.pages, List.length_map, List.length_range]
  rfl

/-- An address of a descriptor is not in the page of the other ring. -/
theorem Pages.other (h : Pages kalloc) {r r' : Ring} (hne : r.call ≠ r'.call) {j x : Nat}
    (hj : j < 256) (hlo : kalloc r.call + descSize * j ≤ x)
    (hhi : x < kalloc r.call + descSize * j + 4) :
    x < kalloc r'.call ∨ kalloc r'.call + 4096 ≤ x := by
  have hcall : ∀ r : Ring, r.call < 258 := by
    intro r
    cases r <;> decide
  unfold descSize at hlo hhi
  exact h.apart (hcall r) (hcall r') hne (by omega) (by omega)

/-- A ring is set up by the loop over its own pages, from a memory in which its addresses are as
at the start. -/
theorem bufAddr_initRings (h : Pages kalloc) (r : Ring) : ∃ m : Mem, ∀ j, j < 256 →
    load32 m (kalloc r.call + descSize * j) = load32 mem (kalloc r.call + descSize * j) ∧
    (Desc.mk r j).bufAddr kalloc (initRings kalloc mem) =
      load32 (allocBuffers (kalloc r.call) 0 (r.pages kalloc) m)
        (kalloc r.call + descSize * j) := by
  have htake : ∀ r : Ring, (r.pages kalloc).take (I8254_SEND_DESC_NUM / 2) = r.pages kalloc :=
    fun r => List.take_of_length_le (Nat.le_of_eq r.length_pages)
  have hrecv : ∀ m, initRecv (kalloc Ring.recv.call) (Ring.recv.pages kalloc) m =
      allocBuffers (kalloc Ring.recv.call) 0 (Ring.recv.pages kalloc)
        ((List.range I8254_RECV_DESC_NUM).foldl (clearRecvDesc (kalloc Ring.recv.call)) m) :=
    fun m => congrArg (fun ps => allocBuffers _ 0 ps _) (htake .recv)
  have hsend : ∀ m, initSend (kalloc Ring.send.call) (Ring.send.pages kalloc) m =
      allocBuffers (kalloc Ring.send.call) 0 (Ring.send.pages kalloc)
        ((List.range I8254_SEND_DESC_NUM).foldl (clearDesc (kalloc Ring.send.call)) m) :=
    fun m => congrArg (fun ps => allocBuffers _ 0 ps _) (htake .send)
  cases r with
  | recv =>
    refine ⟨(List.range I8254_RECV_DESC_NUM).foldl (clearRecvDesc (kalloc Ring.recv.call)) mem,
      fun j hj => ⟨?_, ?_⟩⟩
    · exact foldl_keeps (fun m => load32 m (kalloc Ring.recv.call + descSize * j)) _ _
        fun i _ m => load32_clearRecvDesc m i j
    · -- the other ring is in another page
      rw [← hrecv]
      apply load32_congr
      intro x hlo hhi
      exact initSend_outside (h.other (r := .recv) (by decide) hj hlo hhi)
  | send =>
    refine ⟨(List.range I8254_SEND_DESC_NUM).foldl (clearDesc (kalloc Ring.send.call))
      (initRecv (kalloc Ring.recv.call) (Ring.recv.pages kalloc) mem), fun j hj => ⟨?_, ?_⟩⟩
    · rw [load32_foldl_clearDesc]
      apply load32_congr
      intro x hlo hhi
      exact initRecv_outside (h.other (r := .send) (by decide) hj hlo hhi)
    · rw [Desc.bufAddr, initRings, hsend]

/-- The pages of a ring as addresses. -/
theorem Ring.pages_eq (r : Ring) : r.pages kalloc =
    ((List.range 127).map (fun i => kalloc (r.call + 1 + i)) ++ [kalloc (r.call + 128)]).map some := by
  show (List.range (127 + 1)).map _ = _
  rw [List.range_succ, List.map_append, List.map_append, List.map_map]
  rfl

theorem Ring.call_lt (r : Ring) {i : Nat} (hi : i ≤ 128) : r.call + i < 258 := by
  cases r with
  | recv => show 0 + i < 258; omega
  | send => show 129 + i < 258; omega

/-- The descriptors in the first half, and the next one. -/
theorem bufAddr_eq (h : Pages kalloc) (r : Ring) {j : Nat} (hj : j ≤ 128) :
    (Desc.mk r j).bufAddr kalloc (initRings kalloc mem) =
      if j < 128 then kalloc (r.call + 1 + j) else kalloc (r.call + 128) + 0x800 := by
  have hram : ∀ i, i ≤ 128 → kalloc (r.call + i) + 4096 ≤ 0x20000000 :=
    fun i hi => h.inRam _ (r.call_lt hi)
  obtain ⟨m, hm⟩ := @bufAddr_initRings kalloc mem h r
  rw [(hm j (by omega)).2]
  split
  · -- one of the descriptors that the loop counts
    rename_i hlt
    have hget := @load32_allocBuffers_counted (kalloc r.call) 0 j
      ((List.range 128).map fun i => kalloc (r.call + 1 + i)) (by
        intro p hp
        obtain ⟨i, hi, rfl⟩ := List.mem_map.mp hp
        have hpage := hram (1 + i) (by have := List.mem_range.mp hi; omega)
        rw [← Nat.add_assoc] at hpage
        omega) m (by simpa using hlt)
    rw [List.map_map, Nat.zero_add] at hget
    refine Eq.trans hget ?_
    simp [List.getD_eq_getElem?_getD, hlt]
  · have hlast : j = 128 := by omega
    subst hlast
    have hpage := hram 128 (by omega)
    have hget := @load32_allocBuffers_last (kalloc r.call) 0
      ((List.range 127).map fun i => kalloc (r.call + 1 + i)) (kalloc (r.call + 128)) (by omega) m
    rw [List.length_map, List.length_range] at hget
    rw [r.pages_eq]
    exact hget

/-- The others are as the page of the ring was. -/
theorem bufAddr_kept (h : Pages kalloc) (r : Ring) {j : Nat} (hlo : 128 < j) (hhi : j < 256) :
    (Desc.mk r j).bufAddr kalloc (initRings kalloc mem) =
      load32 mem (kalloc r.call + descSize * j) := by
  obtain ⟨m, hm⟩ := @bufAddr_initRings kalloc mem h r
  rw [(hm j hhi).2, load32_allocBuffers _ _ (by rw [r.length_pages]; omega), (hm j hhi).1]

/-! ## The descriptors with a buffer of their own -/

/-- The buffer of a descriptor is in a page that was allocated. -/
def Desc.Inside (kalloc : Nat → Nat) (mem : Mem) (d : Desc) : Prop :=
  ∃ k, k < 258 ∧ kalloc k ≤ d.bufAddr kalloc mem ∧ d.bufAddr kalloc mem < kalloc k + Vm.PGSIZE

/-- Two descriptors have buffers in allocated pages, and no byte of them in common. -/
def Desc.Own (kalloc : Nat → Nat) (mem : Mem) (d e : Desc) : Prop :=
  d.Inside kalloc mem ∧ e.Inside kalloc mem ∧
    Apart (d.bufAddr kalloc mem) 0x800 (e.bufAddr kalloc mem) 0x800

/-- No page is for both rings. -/
theorem Ring.call_inj {r r' : Ring} {i i' : Nat} (hi : i ≤ 127) (hi' : i' ≤ 127)
    (h : r.call + 1 + i = r'.call + 1 + i') : r = r' ∧ i = i' := by
  cases r <;> cases r' <;> simp only [Ring.call] at h
  · exact ⟨rfl, by omega⟩
  · omega
  · omega
  · exact ⟨rfl, by omega⟩

theorem load32_const (b : UInt8) (a : Nat) : load32 (fun _ => b) a = b.toNat * 0x1010101 := by
  show b.toNat + 256 * b.toNat + 65536 * (b.toNat + 256 * b.toNat) = _
  omega

/-- Where the buffer of a descriptor in the first half is. -/
theorem exists_place (h : Pages kalloc) (mem : Mem) {d : Desc} (hd : d.index ≤ 128) :
    ∃ i off, i ≤ 127 ∧ d.bufAddr kalloc (initRings kalloc mem) = kalloc (d.ring.call + 1 + i) + off ∧
      (d.index = i ∧ off = 0 ∨ d.index = i + 1 ∧ i = 127 ∧ off = 0x800) := by
  have heq := @bufAddr_eq kalloc mem h d.ring d.index hd
  by_cases hlt : d.index < 128
  · rw [if_pos hlt] at heq
    exact ⟨d.index, 0, by omega, heq, .inl ⟨rfl, rfl⟩⟩
  · rw [if_neg hlt] at heq
    exact ⟨127, 0x800, Nat.le_refl _, heq, .inr ⟨by omega, rfl, rfl⟩⟩

/-- A buffer in the first half is in an allocated page. -/
theorem inside_of_le (h : Pages kalloc) (mem : Mem) {d : Desc} (hd : d.index ≤ 128) :
    d.Inside kalloc (initRings kalloc mem) := by
  obtain ⟨i, off, hi, heq, hoff⟩ := exists_place h mem hd
  have hpage : Vm.PGSIZE = 4096 := rfl
  refine ⟨d.ring.call + 1 + i, ?_, by omega, by omega⟩
  rw [Nat.add_assoc]
  exact d.ring.call_lt (by omega)

/-- Different descriptors of the first halves have different buffers. -/
theorem apart_of_le (h : Pages kalloc) (mem : Mem) {d e : Desc} (hd : d.index ≤ 128)
    (he : e.index ≤ 128) (hne : d ≠ e) :
    Apart (d.bufAddr kalloc (initRings kalloc mem)) 0x800
      (e.bufAddr kalloc (initRings kalloc mem)) 0x800 := by
  obtain ⟨i, off, hi, heq, hoff⟩ := exists_place h mem hd
  obtain ⟨i', off', hi', heq', hoff'⟩ := exists_place h mem he
  have hcall : d.ring.call + 1 + i < 258 := by
    rw [Nat.add_assoc]
    exact d.ring.call_lt (by omega)
  have hcall' : e.ring.call + 1 + i' < 258 := by
    rw [Nat.add_assoc]
    exact e.ring.call_lt (by omega)
  intro x hlo hhi hlo' hhi'
  by_cases hsame : d.ring.call + 1 + i = e.ring.call + 1 + i'
  · -- one page: then it is the last one of a ring, and the halves differ
    have hring : d.ring = e.ring ∧ i = i' := Ring.call_inj hi hi' hsame
    have hindex : d.index ≠ e.index := by
      intro hindex
      exact hne (by cases d; cases e; simp_all)
    rw [heq, hsame] at hlo hhi
    rw [heq'] at hlo' hhi'
    omega
  · have hother := h.apart (x := x) hcall hcall' hsame (by omega) (by omega)
    omega

/-- Descriptor `j` of a ring has, whatever its page held before, a buffer of its own exactly if it
is one of the first 129. -/
theorem own_buffers_iff (h : Pages kalloc) {d e : Desc} (hd : d.index < d.ring.num)
    (he : e.index < e.ring.num) (hne : d ≠ e) :
    (∀ mem, Desc.Own kalloc (initRings kalloc mem) d e) ↔ d.index ≤ 128 ∧ e.index ≤ 128 := by
  have hnum : ∀ r : Ring, r.num = 256 := by
    intro r
    cases r <;> rfl
  constructor
  · intro hown
    -- a page that is all ones gives addresses outside the memory
    have hout : ∀ d : Desc, d.index < 256 → d.Inside kalloc (initRings kalloc fun _ => 255) →
        d.index ≤ 128 := by
      rintro d hlt ⟨k, hk, _, hhi⟩
      by_contra hgt
      have hkept := @bufAddr_kept kalloc (fun _ => 255) h d.ring d.index (by omega) hlt
      have hram := h.inRam k hk
      change d.bufAddr kalloc _ = _ at hkept
      rw [hkept, load32_const] at hhi
      change 255 * 0x1010101 < _ at hhi
      unfold Vm.PGSIZE Vm.PHYSTOP at *
      omega
    obtain ⟨hd', he', _⟩ := hown fun _ => 255
    exact ⟨hout d (hnum d.ring ▸ hd) hd', hout e (hnum e.ring ▸ he) he'⟩
  · rintro ⟨hd', he'⟩ mem
    exact ⟨inside_of_le h mem hd', inside_of_le h mem he', apart_of_le h mem hd' he' hne⟩

/-- The pages from the second megabyte on. -/
def freshPages (k : Nat) : Nat := 0x100000 + 4096 * k

theorem freshPages_pages : Pages freshPages where
  aligned k _ := by unfold freshPages Vm.PGSIZE; omega
  inRam k hk := by unfold freshPages Vm.PGSIZE Vm.PHYSTOP; omega
  distinct j k _ _ heq := by unfold freshPages at heq; omega

/-- The first and the last of the descriptors that have a buffer. -/
theorem own_buffers_first : Pages freshPages ∧
    ∀ mem, Desc.Own freshPages (initRings freshPages mem) ⟨.recv, 0⟩ ⟨.send, 128⟩ :=
  ⟨freshPages_pages,
    (own_buffers_iff freshPages_pages (by decide) (by decide) (by decide)).mpr (by decide)⟩

/-- `kfree` fills pages with ones: descriptor 129 for sending then has a buffer at 0x1010101,
which is in none of the pages. -/
theorem send_buffer_outside : Pages freshPages ∧
    ¬Desc.Inside freshPages (initRings freshPages fun _ => 1) ⟨.send, 129⟩ := by
  refine ⟨freshPages_pages, ?_⟩
  rintro ⟨k, hk, _, hhi⟩
  rw [bufAddr_kept freshPages_pages .send (by decide) (by decide), load32_const] at hhi
  change 1 * 0x1010101 < _ at hhi
  unfold freshPages Vm.PGSIZE at hhi
  omega

end rings

end Net
end Xv6
