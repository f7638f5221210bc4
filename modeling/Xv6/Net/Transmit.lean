import Mathlib.Tactic.Common
import Xv6.Lib.Patch
import Xv6.Lib.Run
import Xv6.Vm.Layout

/-!
# The transmit ring of the network card (`i8254.c`)

`i8254_send` copies a packet to the buffer of the descriptor at TDT and advances TDT; the
card sends the packets from TDH up to TDT and advances TDH.  The two sides share memory and
the registers, and nothing else, so the model lets the card go on between any two accesses
of the driver.

The driver takes all 256 descriptors for usable, although the card takes TDH = TDT for an
empty ring.  `send_accepts` says that a call is never refused, and `ring_overrun` what this
leads to.  `seen_eq` says what holds as long as a descriptor is left over and the buffers
are the driver's own.
-/

namespace Xv6
namespace Net
namespace Transmit

open Lib

def I8254_SEND_DESC_NUM : Nat := 256

/-- `sizeof(struct i8254_send_desc)`. -/
def descSize : Nat := 16

/-! ## Memory -/

/-- Physical memory.  The kernel sees it at the addresses that `P2V` gives. -/
abbrev Mem := Nat → UInt8

/-- The `n` bytes from `a` on. -/
def bytes (mem : Mem) (a n : Nat) : List UInt8 := firsts (fun i => mem (a + i)) n

def memmove (mem : Mem) (dst src n : Nat) : Mem := patch mem dst (bytes mem src n)

def store8 (mem : Mem) (a : Nat) (v : UInt8) : Mem := patch mem a [v]

def store16 (mem : Mem) (a v : Nat) : Mem :=
  patch mem a [UInt8.ofNat v, UInt8.ofNat (v / 256)]

def store32 (mem : Mem) (a v : Nat) : Mem :=
  patch mem a [UInt8.ofNat v, UInt8.ofNat (v / 256), UInt8.ofNat (v / 65536),
    UInt8.ofNat (v / 16777216)]

def load16 (mem : Mem) (a : Nat) : Nat := (mem a).toNat + 256 * (mem (a + 1)).toNat

def load32 (mem : Mem) (a : Nat) : Nat := load16 mem a + 65536 * load16 mem (a + 2)

/-- Two regions have no byte in common. -/
def Apart (a n b m : Nat) : Prop := ∀ x, a ≤ x → x < a + n → b ≤ x → x < b + m → False

/-! ## The driver -/

/-- The local variables of a call of `i8254_send`, and the packet that it was given. -/
structure Call where
  pktAddr : Nat
  len : Nat
  index : Nat
  pkt : List UInt8

/-- Where the driver is. -/
inductive Pc where
  /-- Not in `i8254_send`. -/
  | idle
  /-- At `memmove`. -/
  | copy (c : Call)
  /-- At `txdesc[index].len = len`. -/
  | fill (c : Call)
  /-- At the assignment to `*tdt`. -/
  | advance (c : Call)
  /-- At the return, with the result. -/
  | ret (r : Int)

/-- Driver and card. -/
structure Nic where
  mem : Mem
  tdbal : Nat
  tdh : Nat
  tdt : Nat
  pc : Pc
  /-- The packets of the calls that were accepted. -/
  accepted : List (List UInt8)
  /-- The packets that the card has taken. -/
  taken : List (List UInt8)

namespace Nic

/-- The address of a descriptor. -/
def desc (s : Nic) (i : Nat) : Nat := s.tdbal + descSize * i

/-- `txdesc[i].buf_addr`. -/
def bufAddr (s : Nic) (i : Nat) : Nat := load32 s.mem (s.desc i)

/-- `txdesc[i].len`. -/
def len (s : Nic) (i : Nat) : Nat := load16 s.mem (s.desc i + 8)

/-- The packet of a descriptor, as the card reads it. -/
def packetAt (s : Nic) (i : Nat) : List UInt8 := bytes s.mem (s.bufAddr i) (s.len i)

/-- The distance of the registers, in the `uint` arithmetic of `i8254_send`. -/
def backlog (s : Nic) : Nat :=
  (I8254_SEND_DESC_NUM + 2 ^ 32 - s.tdh + s.tdt) % 2 ^ 32 % I8254_SEND_DESC_NUM

def txAvailable (s : Nic) : Int := I8254_SEND_DESC_NUM - s.backlog

/-- The packets between TDH and TDT, as the card sees them. -/
def seen (s : Nic) : List (List UInt8) :=
  (List.range s.backlog).map fun k => s.packetAt ((s.tdh + k) % I8254_SEND_DESC_NUM)

/-- Descriptor `j` is between TDH and TDT. -/
def Waiting (s : Nic) (j : Nat) : Prop :=
  ∃ k, k < s.backlog ∧ j = (s.tdh + k) % I8254_SEND_DESC_NUM

end Nic

/-- A `uint` returned as an `int`. -/
def asInt (n : Nat) : Int := if n < 2 ^ 31 then n else n - 2 ^ 32

/-- The assignments to the fields of a descriptor. -/
def fillDesc (mem : Mem) (d len : Nat) : Mem :=
  let mem := store16 mem (d + 8) len
  let mem := store8 mem (d + 12) 0
  let mem := store8 mem (d + 13) 0
  let mem := store8 mem (d + 11) 0xb
  let mem := store16 mem (d + 14) 0
  store8 mem (d + 10) 0

/-- What happens next: a call, a step of the driver in it, or the card takes a packet. -/
inductive Label where
  | send (pktAddr len : Nat)
  | driver
  | nic

/-- One step of the driver in a call. -/
def driverStep (s : Nic) : Option Nic :=
  match s.pc with
  | .idle => none
  | .copy c => some { s with
      mem := memmove s.mem (s.bufAddr c.index) c.pktAddr c.len
      pc := .fill c }
  | .fill c => some { s with
      mem := fillDesc s.mem (s.desc c.index) c.len
      pc := .advance c }
  | .advance c => some { s with
      tdt := (s.tdt + 1) % I8254_SEND_DESC_NUM
      pc := .ret (asInt c.len)
      accepted := s.accepted ++ [c.pkt] }
  | .ret _ => some { s with pc := .idle }

/-- The call reads the registers and decides. -/
def sendStep (s : Nic) (pktAddr len : Nat) : Option Nic :=
  match s.pc with
  | .idle =>
    let index := s.tdt % I8254_SEND_DESC_NUM
    if 0 < s.txAvailable then
      some { s with pc := .copy ⟨pktAddr, len, index, bytes s.mem pktAddr len⟩ }
    else
      some { s with pc := .ret (-1) }
  | _ => none

/-- The card takes the packet at TDH. -/
def nicStep (s : Nic) : Option Nic :=
  if s.tdh = s.tdt then none
  else some { s with
    tdh := (s.tdh + 1) % I8254_SEND_DESC_NUM
    taken := s.taken ++ [s.packetAt s.tdh] }

def step (l : Label) (s : Nic) : Option Nic :=
  match l with
  | .send pktAddr len => sendStep s pktAddr len
  | .driver => driverStep s
  | .nic => nicStep s

def Steps (s : Nic) (l : Label) (s' : Nic) : Prop := step l s = some s'

/-- After `i8254_init_send`. -/
def start (mem : Mem) (tdbal : Nat) : Nic := ⟨mem, tdbal, 0, 0, .idle, [], []⟩

/-! ## The condition -/

/-- The buffer of descriptor TDT is the driver's own for `len` bytes. -/
structure OwnBuffer (s : Nic) (len : Nat) : Prop where
  ram : s.bufAddr s.tdt + len ≤ Vm.PHYSTOP
  table : Apart (s.bufAddr s.tdt) len s.tdbal (descSize * I8254_SEND_DESC_NUM)
  buffers : ∀ j, s.Waiting j → Apart (s.bufAddr s.tdt) len (s.bufAddr j) (s.len j)

/-- A call finds a descriptor besides the one that stays unused, the packet has a length
that fits in its field, and the buffer is the driver's own. -/
def Safe (s : Nic) (l : Label) : Prop :=
  match l with
  | .send _ len => s.backlog + 1 < I8254_SEND_DESC_NUM ∧ len < 2 ^ 16 ∧ OwnBuffer s len
  | _ => True

/-- No byte of a descriptor or of a buffer that the card has still to read is changed. -/
def Keeps (s s' : Nic) : Prop :=
  ∀ j, s.Waiting j → ∀ a,
    (s.desc j ≤ a ∧ a < s.desc j + descSize) ∨ (s.bufAddr j ≤ a ∧ a < s.bufAddr j + s.len j) →
    s'.mem a = s.mem a

/-! ## Memory lemmas -/

theorem length_bytes (mem : Mem) (a n : Nat) : (bytes mem a n).length = n := length_firsts

variable {mem mem' : Mem} {a d len n x : Nat}

theorem getElem_bytes {i : Nat} {h : i < (bytes mem a n).length} :
    (bytes mem a n)[i] = mem (a + i) := getElem_firsts

theorem bytes_congr
    (h : ∀ x, a ≤ x → x < a + n → mem' x = mem x) : bytes mem' a n = bytes mem a n := by
  apply firsts_congr
  intro i hi
  exact h (a + i) (Nat.le_add_right a i) (by omega)

theorem load16_congr
    (h : ∀ x, a ≤ x → x < a + 2 → mem' x = mem x) : load16 mem' a = load16 mem a := by
  rw [load16, load16, h a (by omega) (by omega), h (a + 1) (by omega) (by omega)]

theorem load32_congr
    (h : ∀ x, a ≤ x → x < a + 4 → mem' x = mem x) : load32 mem' a = load32 mem a := by
  rw [load32, load32, load16_congr fun x hlo hhi => h x (by omega) (by omega),
    load16_congr fun x hlo hhi => h x (by omega) (by omega)]

/-- A patch changes nothing outside it. -/
theorem patch_outside {src : List UInt8}
    (h : ¬(d ≤ x ∧ x < d + src.length)) : patch mem d src x = mem x := by
  by_cases hlo : x < d
  · exact patch_of_lt hlo
  · exact patch_of_le (by omega)

theorem memmove_outside {dst src : Nat} (h : ¬(dst ≤ x ∧ x < dst + n)) :
    memmove mem dst src n x = mem x := by
  apply patch_outside
  rwa [length_bytes]

theorem bytes_memmove (mem : Mem) (dst src n : Nat) :
    bytes (memmove mem dst src n) dst n = bytes mem src n := by
  apply firsts_congr
  intro i hi
  have hlen : dst + i - dst < (bytes mem src n).length := by
    rw [length_bytes]
    omega
  show patch mem dst (bytes mem src n) (dst + i) = _
  rw [patch_inside (Nat.le_add_right dst i) hlen, getElem_bytes, Nat.add_sub_cancel_left]

/-- `buf_addr` and `padding` are not assigned. -/
theorem fillDesc_outside (h : ¬(d + 8 ≤ x ∧ x < d + 16)) :
    fillDesc mem d len x = mem x := by
  unfold fillDesc store8 store16
  iterate 6 rw [patch_outside (by simp only [List.length_cons, List.length_nil]; omega)]

theorem load16_fillDesc (h : len < 2 ^ 16) :
    load16 (fillDesc mem d len) (d + 8) = len := by
  have hlo : fillDesc mem d len (d + 8) = UInt8.ofNat len := by
    simp [fillDesc, store8, store16, patch]
  have hhi : fillDesc mem d len (d + 8 + 1) = UInt8.ofNat (len / 256) := by
    simp [fillDesc, store8, store16, patch, Nat.add_sub_add_left, Nat.add_assoc]
  rw [load16, hlo, hhi, UInt8.toNat_ofNat', UInt8.toNat_ofNat']
  omega

/-! ## The ring -/

section ring

variable {s s' : Nic} {c : Call} {l : Label} {j : Nat}

theorem Nic.Waiting.lt (h : s.Waiting j) : j < I8254_SEND_DESC_NUM := by
  obtain ⟨k, _, rfl⟩ := h
  exact Nat.mod_lt _ (by decide)

/-- Descriptor TDT is not waiting. -/
theorem Nic.Waiting.ne_tdt (h : s.Waiting j) (hh : s.tdh < I8254_SEND_DESC_NUM) :
    j ≠ s.tdt := by
  obtain ⟨k, hk, rfl⟩ := h
  unfold Nic.backlog at hk
  unfold I8254_SEND_DESC_NUM at hk hh ⊢
  omega

/-- What a step keeps, the card reads. -/
theorem Keeps.read (h : Keeps s s') (hbal : s'.tdbal = s.tdbal) (hj : s.Waiting j) :
    s'.bufAddr j = s.bufAddr j ∧ s'.len j = s.len j ∧ s'.packetAt j = s.packetAt j := by
  have hdesc : s'.desc j = s.desc j := by rw [Nic.desc, Nic.desc, hbal]
  have hsize : descSize = 16 := rfl
  have hbuf : s'.bufAddr j = s.bufAddr j := by
    rw [Nic.bufAddr, Nic.bufAddr, hdesc]
    exact load32_congr fun x hlo hhi => h j hj x (.inl ⟨hlo, by omega⟩)
  have hlen : s'.len j = s.len j := by
    rw [Nic.len, Nic.len, hdesc]
    exact load16_congr fun x hlo hhi => h j hj x (.inl ⟨by omega, by omega⟩)
  refine ⟨hbuf, hlen, ?_⟩
  rw [Nic.packetAt, Nic.packetAt, hbuf, hlen]
  exact bytes_congr fun x hlo hhi => h j hj x (.inr ⟨hlo, hhi⟩)

theorem Keeps.of_mem_eq (h : s'.mem = s.mem) : Keeps s s' := by
  intro j _ a _
  rw [h]

/-- The same registers and what the card reads kept: it sees the same. -/
theorem Keeps.seen (h : Keeps s s') (hbal : s'.tdbal = s.tdbal) (hh : s'.tdh = s.tdh)
    (ht : s'.tdt = s.tdt) : s'.seen = s.seen := by
  have hback : s'.backlog = s.backlog := by rw [Nic.backlog, Nic.backlog, hh, ht]
  rw [Nic.seen, Nic.seen, hback, hh]
  apply List.map_congr_left
  intro k hk
  exact (h.read hbal ⟨k, List.mem_range.mp hk, rfl⟩).2.2

/-- What the call found when it read the registers, and what is still so. -/
structure Reserved (s : Nic) (c : Call) : Prop where
  index : c.index = s.tdt
  room : s.backlog + 1 < I8254_SEND_DESC_NUM
  short : c.len < 2 ^ 16
  own : OwnBuffer s c.len

/-- What holds at each place of the driver. -/
def AtPlace (s : Nic) : Prop :=
  match s.pc with
  | .copy c => Reserved s c ∧ bytes s.mem c.pktAddr c.len = c.pkt
  | .fill c => Reserved s c ∧ bytes s.mem (s.bufAddr c.index) c.len = c.pkt
  | .advance c => Reserved s c ∧ s.len c.index = c.len ∧ s.packetAt c.index = c.pkt
  | .idle | .ret _ => True

/-- What holds of driver and card. -/
structure Inv (s : Nic) : Prop where
  tdh : s.tdh < I8254_SEND_DESC_NUM
  tdt : s.tdt < I8254_SEND_DESC_NUM
  queue : s.accepted = s.taken ++ s.seen
  table : ∀ j, s.Waiting j → Apart (s.bufAddr j) (s.len j) s.tdbal (descSize * I8254_SEND_DESC_NUM)
  place : AtPlace s

theorem inv_start (mem : Mem) (tdbal : Nat) : Inv (start mem tdbal) := by
  have hempty : (start mem tdbal).backlog = 0 := by
    simp [Nic.backlog, start, I8254_SEND_DESC_NUM]
  have hpos : 0 < I8254_SEND_DESC_NUM := by decide
  refine ⟨hpos, hpos, ?_, ?_, trivial⟩
  · rw [Nic.seen, hempty]
    rfl
  · rintro j ⟨k, hk, _⟩
    rw [hempty] at hk
    exact absurd hk (Nat.not_lt_zero k)

/-- A step that leaves the registers and keeps what the card reads. -/
theorem Inv.keep (h : Inv s) (hkeep : Keeps s s') (hbal : s'.tdbal = s.tdbal)
    (hh : s'.tdh = s.tdh) (ht : s'.tdt = s.tdt) (hacc : s'.accepted = s.accepted)
    (htaken : s'.taken = s.taken) (hplace : AtPlace s') : Inv s' := by
  have hback : s'.backlog = s.backlog := by rw [Nic.backlog, Nic.backlog, hh, ht]
  constructor
  · rw [hh]
    exact h.tdh
  · rw [ht]
    exact h.tdt
  · rw [hacc, htaken, hkeep.seen hbal hh ht]
    exact h.queue
  · intro j hj
    have hw : s.Waiting j := by
      obtain ⟨k, hk, hjk⟩ := hj
      exact ⟨k, hback ▸ hk, hh ▸ hjk⟩
    obtain ⟨hbuf, hlen, _⟩ := hkeep.read hbal hw
    rw [hbuf, hlen, hbal]
    exact h.table j hw
  · exact hplace

/-- The reservation survives such a step, if the descriptor keeps its buffer. -/
theorem Reserved.keep (h : Reserved s c) (hkeep : Keeps s s') (hbal : s'.tdbal = s.tdbal)
    (hh : s'.tdh = s.tdh) (ht : s'.tdt = s.tdt) (hbuf : s'.bufAddr s.tdt = s.bufAddr s.tdt) :
    Reserved s' c := by
  have hback : s'.backlog = s.backlog := by rw [Nic.backlog, Nic.backlog, hh, ht]
  refine ⟨h.index.trans ht.symm, hback ▸ h.room, h.short, ?_⟩
  constructor
  · rw [ht, hbuf]
    exact h.own.ram
  · rw [ht, hbuf, hbal]
    exact h.own.table
  · intro j hj
    have hw : s.Waiting j := by
      obtain ⟨k, hk, hjk⟩ := hj
      exact ⟨k, hback ▸ hk, hh ▸ hjk⟩
    obtain ⟨hbufj, hlenj, _⟩ := hkeep.read hbal hw
    rw [ht, hbuf, hbufj, hlenj]
    exact h.own.buffers j hw

/-- A descriptor lies in the table. -/
theorem desc_in_table {x : Nat} (hj : j < I8254_SEND_DESC_NUM) (hlo : s.desc j ≤ x)
    (hhi : x < s.desc j + descSize) :
    s.tdbal ≤ x ∧ x < s.tdbal + descSize * I8254_SEND_DESC_NUM := by
  unfold Nic.desc at hlo hhi
  unfold descSize at hlo hhi ⊢
  unfold I8254_SEND_DESC_NUM at hj ⊢
  omega

/-- The copy changes the buffer of the descriptor only. -/
theorem Inv.copy (h : Inv s) (hres : Reserved s c) (hpkt : bytes s.mem c.pktAddr c.len = c.pkt)
    (hs : s' = { s with
      mem := memmove s.mem (s.bufAddr c.index) c.pktAddr c.len, pc := .fill c }) :
    Inv s' ∧ Keeps s s' := by
  have hmem : s'.mem = memmove s.mem (s.bufAddr s.tdt) c.pktAddr c.len := by
    rw [hs, ← hres.index]
  have hdesc : ∀ j, j < I8254_SEND_DESC_NUM → ∀ x, s.desc j ≤ x → x < s.desc j + descSize →
      s'.mem x = s.mem x := by
    intro j hj x hlo hhi
    rw [hmem]
    apply memmove_outside
    intro hin
    obtain ⟨htlo, hthi⟩ := desc_in_table hj hlo hhi
    exact hres.own.table x hin.1 hin.2 htlo hthi
  have hkeep : Keeps s s' := by
    intro j hj x hx
    rcases hx with hx | hx
    · exact hdesc j hj.lt x hx.1 hx.2
    · rw [hmem]
      apply memmove_outside
      intro hin
      exact hres.own.buffers j hj x hin.1 hin.2 hx.1 hx.2
  have hbal : s'.tdbal = s.tdbal := by rw [hs]
  have hbuf : s'.bufAddr s.tdt = s.bufAddr s.tdt := by
    have hsize : descSize = 16 := rfl
    rw [Nic.bufAddr, Nic.bufAddr, show s'.desc s.tdt = s.desc s.tdt by rw [Nic.desc, Nic.desc, hbal]]
    exact load32_congr fun x hlo hhi => hdesc s.tdt h.tdt x hlo (by omega)
  have hres' : Reserved s' c :=
    hres.keep hkeep hbal (by rw [hs]) (by rw [hs]) hbuf
  have hbytes : bytes s'.mem (s'.bufAddr c.index) c.len = c.pkt := by
    rw [hres.index, hbuf, hmem, bytes_memmove, hpkt]
  refine ⟨h.keep hkeep hbal (by rw [hs]) (by rw [hs]) (by rw [hs]) (by rw [hs]) ?_, hkeep⟩
  rw [AtPlace, show s'.pc = .fill c by rw [hs]]
  exact ⟨hres', hbytes⟩

/-- The assignments change one descriptor only. -/
theorem Inv.fill (h : Inv s) (hres : Reserved s c)
    (hpkt : bytes s.mem (s.bufAddr c.index) c.len = c.pkt)
    (hs : s' = { s with mem := fillDesc s.mem (s.desc c.index) c.len, pc := .advance c }) :
    Inv s' ∧ Keeps s s' := by
  have hsize : descSize = 16 := rfl
  have hmem : s'.mem = fillDesc s.mem (s.desc s.tdt) c.len := by
    rw [hs, ← hres.index]
  have hbal : s'.tdbal = s.tdbal := by rw [hs]
  have hd : s'.desc s.tdt = s.desc s.tdt := by rw [Nic.desc, Nic.desc, hbal]
  -- a region that is apart from the table is not changed
  have hoff : ∀ {b n x}, Apart b n s.tdbal (descSize * I8254_SEND_DESC_NUM) → b ≤ x → x < b + n →
      s'.mem x = s.mem x := by
    intro b n x hap hlo hhi
    rw [hmem]
    apply fillDesc_outside
    intro hin
    obtain ⟨htlo, hthi⟩ := desc_in_table (s := s) (x := x) h.tdt (by omega) (by omega)
    exact hap x hlo hhi htlo hthi
  have hkeep : Keeps s s' := by
    intro j hj x hx
    rcases hx with hx | hx
    · have hne := hj.ne_tdt h.tdh
      rw [hmem]
      apply fillDesc_outside
      unfold Nic.desc at hx ⊢
      unfold descSize at hx ⊢
      omega
    · exact hoff (h.table j hj) hx.1 hx.2
  have hbuf : s'.bufAddr s.tdt = s.bufAddr s.tdt := by
    rw [Nic.bufAddr, Nic.bufAddr, hd, hmem]
    exact load32_congr fun x hlo hhi => fillDesc_outside (by omega)
  have hres' : Reserved s' c := hres.keep hkeep hbal (by rw [hs]) (by rw [hs]) hbuf
  have hlen : s'.len c.index = c.len := by
    rw [hres.index, Nic.len, hd, hmem]
    exact load16_fillDesc hres.short
  have hpacket : s'.packetAt c.index = c.pkt := by
    rw [Nic.packetAt, hlen, hres.index, hbuf, ← hpkt, hres.index]
    exact bytes_congr fun x hlo hhi => hoff hres.own.table hlo hhi
  refine ⟨h.keep hkeep hbal (by rw [hs]) (by rw [hs]) (by rw [hs]) (by rw [hs]) ?_, hkeep⟩
  rw [AtPlace, show s'.pc = .advance c by rw [hs]]
  exact ⟨hres', hlen, hpacket⟩

/-- The accepted packet is the last one that the card sees. -/
theorem Inv.advance (h : Inv s) (hres : Reserved s c) (hlen : s.len c.index = c.len)
    (hpkt : s.packetAt c.index = c.pkt)
    (hs : s' = { s with
      tdt := (s.tdt + 1) % I8254_SEND_DESC_NUM
      pc := .ret (asInt c.len)
      accepted := s.accepted ++ [c.pkt] }) : Inv s' := by
  have hread : ∀ j, s'.bufAddr j = s.bufAddr j ∧ s'.len j = s.len j ∧
      s'.packetAt j = s.packetAt j := by
    intro j
    rw [hs]
    exact ⟨rfl, rfl, rfl⟩
  have hh : s'.tdh = s.tdh := by rw [hs]
  have ht : s'.tdt = (s.tdt + 1) % I8254_SEND_DESC_NUM := by rw [hs]
  have hback : s'.backlog = s.backlog + 1 := by
    have hroom := hres.room
    have hlt := h.tdh
    unfold Nic.backlog at hroom ⊢
    rw [hh, ht]
    unfold I8254_SEND_DESC_NUM at hroom hlt ⊢
    omega
  have hlast : (s.tdh + s.backlog) % I8254_SEND_DESC_NUM = s.tdt := by
    have hlt := h.tdh
    have hlt' := h.tdt
    unfold Nic.backlog
    unfold I8254_SEND_DESC_NUM at hlt hlt' ⊢
    omega
  constructor
  · rw [hh]
    exact h.tdh
  · rw [ht]
    exact Nat.mod_lt _ (by decide)
  · have hseen : s'.seen = s.seen ++ [s.packetAt s.tdt] := by
      rw [Nic.seen, hback, List.range_succ, List.map_append, List.map_singleton, hh, hlast,
        (hread _).2.2]
      rw [Nic.seen]
      congr 1
      exact List.map_congr_left fun k _ => (hread _).2.2
    rw [hseen, show s'.accepted = s.accepted ++ [c.pkt] by rw [hs],
      show s'.taken = s.taken by rw [hs], h.queue, ← hpkt, hres.index, List.append_assoc]
  · intro j hj
    obtain ⟨hbufj, hlenj, _⟩ := hread j
    rw [hbufj, hlenj, show s'.tdbal = s.tdbal by rw [hs]]
    obtain ⟨k, hk, hjk⟩ := hj
    rw [hback] at hk
    rw [hh] at hjk
    by_cases hold : k < s.backlog
    · exact h.table j ⟨k, hold, hjk⟩
    · have hkeq : k = s.backlog := by omega
      have hjt : j = s.tdt := by rw [hjk, hkeq, hlast]
      rw [hjt, ← hres.index, hlen, hres.index]
      exact hres.own.table
  · rw [AtPlace, show s'.pc = .ret (asInt c.len) by rw [hs]]
    trivial

/-- The card takes the first packet that it sees. -/
theorem Inv.nic (h : Inv s) (hne : s.tdh ≠ s.tdt) (hs : s' = { s with
      tdh := (s.tdh + 1) % I8254_SEND_DESC_NUM
      taken := s.taken ++ [s.packetAt s.tdh] }) : Inv s' := by
  have hh : s'.tdh = (s.tdh + 1) % I8254_SEND_DESC_NUM := by rw [hs]
  have ht : s'.tdt = s.tdt := by rw [hs]
  have hread : ∀ j, s'.bufAddr j = s.bufAddr j ∧ s'.len j = s.len j ∧
      s'.packetAt j = s.packetAt j := by
    intro j
    rw [hs]
    exact ⟨rfl, rfl, rfl⟩
  have hback : s.backlog = s'.backlog + 1 := by
    have hlt := h.tdh
    have hlt' := h.tdt
    unfold Nic.backlog
    rw [hh, ht]
    unfold I8254_SEND_DESC_NUM at hlt hlt' ⊢
    omega
  have hnext : ∀ k, (s'.tdh + k) % I8254_SEND_DESC_NUM = (s.tdh + (k + 1)) % I8254_SEND_DESC_NUM := by
    intro k
    rw [hh, Nat.mod_add_mod, Nat.add_assoc, Nat.add_comm 1 k]
  have hwaiting : ∀ j, s'.Waiting j → s.Waiting j := by
    rintro j ⟨k, hk, hjk⟩
    exact ⟨k + 1, by omega, hjk.trans (hnext k)⟩
  constructor
  · rw [hh]
    exact Nat.mod_lt _ (by decide)
  · rw [ht]
    exact h.tdt
  · have hseen : s.seen = s.packetAt s.tdh :: s'.seen := by
      rw [Nic.seen, hback, List.range_succ_eq_map, List.map_cons, List.map_map, Nat.add_zero,
        Nat.mod_eq_of_lt h.tdh, Nic.seen]
      congr 1
      apply List.map_congr_left
      intro k _
      rw [(hread _).2.2, hnext]
      rfl
    rw [show s'.accepted = s.accepted by rw [hs],
      show s'.taken = s.taken ++ [s.packetAt s.tdh] by rw [hs], h.queue, hseen,
      List.append_assoc, List.singleton_append]
  · intro j hj
    obtain ⟨hbufj, hlenj, _⟩ := hread j
    rw [hbufj, hlenj, show s'.tdbal = s.tdbal by rw [hs]]
    exact h.table j (hwaiting j hj)
  · -- the call goes on with fewer packets waiting
    have hkeep : ∀ c, Reserved s c → Reserved s' c := by
      intro c hres
      have hroom := hres.room
      refine ⟨hres.index.trans ht.symm, by omega, hres.short, ?_⟩
      constructor
      · rw [ht, (hread _).1]
        exact hres.own.ram
      · rw [ht, (hread _).1, show s'.tdbal = s.tdbal by rw [hs]]
        exact hres.own.table
      · intro j hj
        rw [ht, (hread _).1, (hread _).1, (hread _).2.1]
        exact hres.own.buffers j (hwaiting j hj)
    have hplace := h.place
    unfold AtPlace at hplace ⊢
    rw [show s'.pc = s.pc by rw [hs], show s'.mem = s.mem by rw [hs]]
    cases hpc : s.pc with
    | idle => trivial
    | ret r => trivial
    | copy c =>
      rw [hpc] at hplace
      exact ⟨hkeep c hplace.1, hplace.2⟩
    | fill c =>
      rw [hpc] at hplace
      refine ⟨hkeep c hplace.1, ?_⟩
      rw [(hread _).1]
      exact hplace.2
    | advance c =>
      rw [hpc] at hplace
      refine ⟨hkeep c hplace.1, ?_⟩
      rw [(hread _).2.1, (hread _).2.2]
      exact hplace.2

/-- The call finds a free descriptor. -/
theorem Nic.txAvailable_pos (s : Nic) : 0 < s.txAvailable := by
  have hlt : s.backlog < I8254_SEND_DESC_NUM := Nat.mod_lt _ (by decide)
  unfold Nic.txAvailable
  omega

theorem Inv.send {pktAddr len : Nat} (h : Inv s) (hsafe : Safe s (.send pktAddr len))
    (hs : s' = { s with
      pc := .copy ⟨pktAddr, len, s.tdt % I8254_SEND_DESC_NUM, bytes s.mem pktAddr len⟩ }) :
    Inv s' := by
  obtain ⟨hroom, hshort, hown⟩ := hsafe
  have hmem : s'.mem = s.mem := by rw [hs]
  refine h.keep (Keeps.of_mem_eq hmem) (by rw [hs]) (by rw [hs]) (by rw [hs]) (by rw [hs])
    (by rw [hs]) ?_
  rw [hs, AtPlace]
  exact ⟨⟨Nat.mod_eq_of_lt h.tdt, hroom, hshort, ⟨hown.ram, hown.table, hown.buffers⟩⟩, rfl⟩

/-- One step. -/
theorem Inv.step (h : Inv s) (hstep : Steps s l s') (hsafe : Safe s l) : Inv s' ∧ Keeps s s' := by
  cases l with
  | send pktAddr len =>
    change sendStep s pktAddr len = some s' at hstep
    unfold sendStep at hstep
    split at hstep
    · rw [if_pos s.txAvailable_pos] at hstep
      cases hstep
      exact ⟨h.send hsafe rfl, Keeps.of_mem_eq rfl⟩
    · cases hstep
  | driver =>
    change driverStep s = some s' at hstep
    have hplace := h.place
    unfold driverStep at hstep
    unfold AtPlace at hplace
    cases hpc : s.pc with
    | idle =>
      rw [hpc] at hstep
      cases hstep
    | copy c =>
      rw [hpc] at hstep hplace
      cases hstep
      exact h.copy hplace.1 hplace.2 rfl
    | fill c =>
      rw [hpc] at hstep hplace
      cases hstep
      exact h.fill hplace.1 hplace.2 rfl
    | advance c =>
      rw [hpc] at hstep hplace
      cases hstep
      exact ⟨h.advance hplace.1 hplace.2.1 hplace.2.2 rfl, Keeps.of_mem_eq rfl⟩
    | ret r =>
      rw [hpc] at hstep
      cases hstep
      exact ⟨h.keep (Keeps.of_mem_eq rfl) rfl rfl rfl rfl rfl trivial, Keeps.of_mem_eq rfl⟩
  | nic =>
    change nicStep s = some s' at hstep
    unfold nicStep at hstep
    split_ifs at hstep with hne
    cases hstep
    exact ⟨h.nic hne rfl, Keeps.of_mem_eq rfl⟩

/-- In every run whose calls are safe, the card sees the accepted packets that it has not
taken, in their order, and no step changes what it has still to read. -/
theorem seen_eq {mem : Mem} {tdbal : Nat} {ls : List Label}
    (h : Run (fun s l s' => Steps s l s' ∧ Safe s l) (start mem tdbal) ls s) :
    s.accepted = s.taken ++ s.seen ∧
      Run (fun s l s' => Steps s l s' ∧ Keeps s s') (start mem tdbal) ls s := by
  have hinv : Inv s ∧ Run (fun s l s' => Steps s l s' ∧ Keeps s s') (start mem tdbal) ls s := by
    induction h with
    | nil => exact ⟨inv_start mem tdbal, Run.nil⟩
    | snoc _ hs ih =>
      obtain ⟨hinv, hrun⟩ := ih
      obtain ⟨hnext, hkeep⟩ := hinv.step hs.1 hs.2
      exact ⟨hnext, hrun.snoc ⟨hs.1, hkeep⟩⟩
  exact ⟨hinv.1.queue, hinv.2⟩

end ring

/-! The steps of a call, one by one. -/

section call

variable {s : Nic} {c : Call}

theorem steps_send (hpc : s.pc = .idle) (pktAddr len : Nat) : Steps s (.send pktAddr len) { s with
    pc := .copy ⟨pktAddr, len, s.tdt % I8254_SEND_DESC_NUM, bytes s.mem pktAddr len⟩ } := by
  show sendStep s pktAddr len = _
  rw [sendStep, hpc]
  exact if_pos s.txAvailable_pos

theorem steps_copy (hpc : s.pc = .copy c) : Steps s .driver { s with
    mem := memmove s.mem (s.bufAddr c.index) c.pktAddr c.len, pc := .fill c } := by
  show driverStep s = _
  rw [driverStep, hpc]

theorem steps_fill (hpc : s.pc = .fill c) : Steps s .driver { s with
    mem := fillDesc s.mem (s.desc c.index) c.len, pc := .advance c } := by
  show driverStep s = _
  rw [driverStep, hpc]

theorem steps_advance (hpc : s.pc = .advance c) : Steps s .driver { s with
    tdt := (s.tdt + 1) % I8254_SEND_DESC_NUM
    pc := .ret (asInt c.len)
    accepted := s.accepted ++ [c.pkt] } := by
  show driverStep s = _
  rw [driverStep, hpc]

theorem steps_ret {r : Int} (hpc : s.pc = .ret r) : Steps s .driver { s with pc := .idle } := by
  show driverStep s = _
  rw [driverStep, hpc]

theorem steps_nic (hne : s.tdh ≠ s.tdt) : Steps s .nic { s with
    tdh := (s.tdh + 1) % I8254_SEND_DESC_NUM
    taken := s.taken ++ [s.packetAt s.tdh] } := if_neg hne

end call

/-- A buffer above the table and above the buffers that wait. -/
theorem OwnBuffer.of_above {s : Nic} (hram : s.bufAddr s.tdt + len ≤ Vm.PHYSTOP)
    (htable : s.tdbal + descSize * I8254_SEND_DESC_NUM ≤ s.bufAddr s.tdt)
    (hbuffers : ∀ k, k < s.backlog → s.bufAddr ((s.tdh + k) % I8254_SEND_DESC_NUM) +
      s.len ((s.tdh + k) % I8254_SEND_DESC_NUM) ≤ s.bufAddr s.tdt) : OwnBuffer s len where
  ram := hram
  table x hlo _ _ hx := by omega
  buffers := by
    rintro j ⟨k, hk, rfl⟩ x hlo _ _ hx
    have hbelow := hbuffers k hk
    omega

/-- The first two descriptors have buffers. -/
def twoBuffers : Mem :=
  patch (patch (patch (fun _ => 0) 0x1001 [0x30]) 0x1011 [0x40]) 0x6000 [104, 105]

/-- Two packets are sent, and one is taken. -/
theorem seen_eq_sample : ∃ ls s,
    Run (fun s l s' => Steps s l s' ∧ Safe s l) (start twoBuffers 0x1000) ls s ∧
    s.taken = [[104, 105]] ∧ s.seen = [[105]] ∧ s.accepted = s.taken ++ s.seen ∧
    Run (fun s l s' => Steps s l s' ∧ Keeps s s') (start twoBuffers 0x1000) ls s := by
  have hsend := Run.single (R := fun s l s' => Steps s l s' ∧ Safe s l)
    ⟨steps_send (s := start twoBuffers 0x1000) rfl 0x6000 2, by decide, by decide,
      .of_above (by decide +kernel) (by decide +kernel) (by decide +kernel)⟩
  have hcopy := hsend.snoc ⟨steps_copy rfl, trivial⟩
  have hfill := hcopy.snoc ⟨steps_fill rfl, trivial⟩
  have hadvance := hfill.snoc ⟨steps_advance rfl, trivial⟩
  have hret := hadvance.snoc ⟨steps_ret rfl, trivial⟩
  have hsend' := hret.snoc ⟨steps_send rfl 0x6001 1, by decide +kernel, by decide,
    .of_above (by decide +kernel) (by decide +kernel) (by decide +kernel)⟩
  have hcopy' := hsend'.snoc ⟨steps_copy rfl, trivial⟩
  have hfill' := hcopy'.snoc ⟨steps_fill rfl, trivial⟩
  have hadvance' := hfill'.snoc ⟨steps_advance rfl, trivial⟩
  have hrun := hadvance'.snoc ⟨steps_nic (by decide +kernel), trivial⟩
  exact ⟨_, _, hrun, by decide +kernel, by decide +kernel, seen_eq hrun⟩

/-! ## Every call is accepted -/

/-- The labels of a call from beginning to end. -/
def callLabels (pktAddr len : Nat) : List Label :=
  [.send pktAddr len, .driver, .driver, .driver, .driver]

/-- A call is never refused: it returns the length, whatever the card has still to send. -/
theorem send_accepts (s : Nic) (hidle : s.pc = .idle) (pktAddr len : Nat) :
    ∃ s1 s', Run Steps s [.send pktAddr len, .driver, .driver, .driver] s1 ∧
      s1.pc = .ret (asInt len) ∧ Steps s1 .driver s' ∧ s'.pc = .idle ∧
      s'.tdh = s.tdh ∧ s'.tdt = (s.tdt + 1) % I8254_SEND_DESC_NUM ∧
      s'.accepted = s.accepted ++ [bytes s.mem pktAddr len] ∧ s'.taken = s.taken := by
  have hsend := Run.single (steps_send hidle pktAddr len)
  have hrun := ((hsend.snoc (steps_copy rfl)).snoc (steps_fill rfl)).snoc (steps_advance rfl)
  exact ⟨_, _, hrun, rfl, steps_ret rfl, rfl, rfl, rfl, rfl, rfl⟩

theorem run_call (s : Nic) (hidle : s.pc = .idle) (pktAddr len : Nat) :
    ∃ s', Run Steps s (callLabels pktAddr len) s' ∧ s'.pc = .idle ∧
      s'.tdh = s.tdh ∧ s'.tdt = (s.tdt + 1) % I8254_SEND_DESC_NUM ∧
      s'.accepted = s.accepted ++ [bytes s.mem pktAddr len] ∧ s'.taken = s.taken := by
  obtain ⟨s1, s', hrun, _, hret, hrest⟩ := send_accepts s hidle pktAddr len
  exact ⟨s', hrun.snoc hret, hrest⟩

/-- `n` calls, while the card takes nothing. -/
theorem run_calls (mem : Mem) (tdbal : Nat) (n : Nat) :
    ∃ ls s, Run Steps (start mem tdbal) ls s ∧ s.pc = .idle ∧ s.tdh = 0 ∧
      s.tdt = n % I8254_SEND_DESC_NUM ∧ s.accepted.length = n ∧ s.taken = [] := by
  induction n with
  | zero => exact ⟨[], start mem tdbal, Run.nil, rfl, rfl, rfl, rfl, rfl⟩
  | succ n ih =>
    obtain ⟨ls, s, hrun, hidle, hh, ht, hacc, htaken⟩ := ih
    obtain ⟨s', hcall, hidle', hh', ht', hacc', htaken'⟩ := run_call s hidle 0 0
    refine ⟨_, s', hrun.append hcall, hidle', hh'.trans hh, ?_, ?_, htaken'.trans htaken⟩
    · rw [ht', ht, Nat.mod_add_mod]
    · rw [hacc', List.length_append, hacc]
      rfl

/-- 256 calls while the card takes nothing, as in `arp_scan`: all are accepted, and the card
sees no packet. -/
theorem ring_overrun : ∃ ls s s1 s', Run Steps (start (fun _ => 0) 0x1000) ls s ∧
    s.accepted.length = 255 ∧ s.taken = [] ∧ s.seen.length = 255 ∧
    Run Steps s [.send 0x2000 42, .driver, .driver, .driver] s1 ∧ s1.pc = .ret 42 ∧
    Steps s1 .driver s' ∧ s'.accepted.length = 256 ∧ s'.taken = [] ∧ s'.seen = [] := by
  obtain ⟨ls, s, hrun, hidle, hh, ht, hacc, htaken⟩ := run_calls (fun _ => 0) 0x1000 255
  obtain ⟨s1, s', hcall, hret, hlast, _, hh', ht', hacc', htaken'⟩ :=
    send_accepts s hidle 0x2000 42
  refine ⟨ls, s, s1, s', hrun, hacc, htaken, ?_, hcall, hret, hlast, ?_, htaken'.trans htaken, ?_⟩
  · rw [Nic.seen, List.length_map, List.length_range, Nic.backlog, hh, ht]
    rfl
  · rw [hacc', List.length_append, hacc]
    rfl
  · have hempty : s'.backlog = 0 := by
      rw [Nic.backlog, hh', ht', hh, ht]
      rfl
    rw [Nic.seen, hempty]
    rfl

/-! ## The buffers -/

/-- The loop of `i8254_init_send` over the fields of the descriptors. -/
def clearDesc (tdbal : Nat) (mem : Mem) (i : Nat) : Mem :=
  let d := tdbal + descSize * i
  let mem := store32 mem (d + 4) 0
  let mem := store16 mem (d + 8) 0
  let mem := store8 mem (d + 10) 0
  let mem := store8 mem (d + 11) 0
  let mem := store8 mem (d + 12) 0
  let mem := store8 mem (d + 13) 0
  store16 mem (d + 14) 0

/-- The loop over `i < I8254_SEND_DESC_NUM / 2` that allocates the buffers.  `pages` are the
results of `kalloc`, as physical addresses. -/
def allocBuffers (tdbal : Nat) : Nat → List (Option Nat) → Mem → Mem
  | _, [], mem => mem
  | _, none :: _, mem => mem
  | i, some page :: pages, mem =>
    let mem := store32 mem (tdbal + descSize * i) page
    let mem := store32 mem (tdbal + descSize * (i + 1)) (page + 0x800)
    allocBuffers tdbal (i + 1) pages mem

/-- The stores of `i8254_init_send` to the descriptors. -/
def initSend (tdbal : Nat) (pages : List (Option Nat)) (mem : Mem) : Mem :=
  allocBuffers tdbal 0 (pages.take (I8254_SEND_DESC_NUM / 2))
    ((List.range I8254_SEND_DESC_NUM).foldl (clearDesc tdbal) mem)

theorem load32_clearDesc (tdbal : Nat) (mem : Mem) (i j : Nat) :
    load32 (clearDesc tdbal mem i) (tdbal + descSize * j) = load32 mem (tdbal + descSize * j) := by
  apply load32_congr
  intro x hlo hhi
  unfold clearDesc store8 store16 store32
  unfold descSize at hlo hhi ⊢
  iterate 7 rw [patch_outside (by simp only [List.length_cons, List.length_nil]; omega)]

theorem load32_foldl_clearDesc (tdbal : Nat) (mem : Mem) (is : List Nat) (j : Nat) :
    load32 (is.foldl (clearDesc tdbal) mem) (tdbal + descSize * j) =
      load32 mem (tdbal + descSize * j) := by
  induction is generalizing mem with
  | nil => rfl
  | cons i is ih => rw [List.foldl_cons, ih, load32_clearDesc]

/-- The loop sets the address up to the descriptor after the last one that it counts. -/
theorem load32_allocBuffers {tdbal i j : Nat} (pages : List (Option Nat)) (mem : Mem)
    (hj : i + pages.length < j) :
    load32 (allocBuffers tdbal i pages mem) (tdbal + descSize * j) =
      load32 mem (tdbal + descSize * j) := by
  induction pages generalizing i mem with
  | nil => rfl
  | cons page pages ih =>
    rw [List.length_cons] at hj
    cases page with
    | none => rfl
    | some page =>
      rw [allocBuffers, ih _ (by omega)]
      apply load32_congr
      intro x hlo hhi
      unfold store32
      unfold descSize at hlo hhi ⊢
      iterate 2 rw [patch_outside (by simp only [List.length_cons, List.length_nil]; omega)]

end Transmit
end Net
end Xv6
