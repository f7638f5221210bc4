import Mathlib.Data.Fin.VecNotation
import Mathlib.Data.Fintype.Basic
import Mathlib.Logic.Function.Basic
import Mathlib.Tactic.Common
import Xv6.Lib.Run

/-!
# The ARP table (`arp.c`)

`arp_proc` answers requests and enters the senders of replies in a table of 64 entries.
`arp_table_search` gives the index of an address, or `-i - 1` when the address is not there and
`i` is the first unused entry.  It does not ask whether an entry is used, so the address 0.0.0.0
is found in every unused one, and when no entry is unused it gives 0, which says that the address
is in entry 0.

`table_is_map` says that the table is a map from addresses to the latest replies as long as these
two cases are not met (`Safe`); `full_table_wrong` is a run in which the reply of the 65th host
is entered for the first.
-/

namespace Xv6
namespace Net

open Lib Function

/-- An IP address. -/
abbrev Ip : Type := Fin 4 → UInt8

/-- A hardware address. -/
abbrev Mac : Type := Fin 6 → UInt8

def ARP_TABLE_MAX : Nat := 64
def ARP_HARDWARE_TYPE : UInt16 := 0x0100
def ARP_PROTOCOL_TYPE : UInt16 := 0x0008
def ARP_OPS_REQUEST : UInt16 := 0x0100
def ARP_OPS_REPLY : UInt16 := 0x0200

/-- `struct arp_pkt`.  The last address has room for six bytes, of which four are compared. -/
structure ArpPkt where
  hrdType : UInt16
  proType : UInt16
  hrdLen : UInt8
  proLen : UInt8
  op : UInt16
  srcMac : Mac
  srcIp : Ip
  dstMac : Mac
  dstIp : Fin 6 → UInt8

/-- `memcmp(my_ip,arp_p->dst_ip,4) == 0`, for the address `ip`. -/
def ArpPkt.isFor (p : ArpPkt) (ip : Ip) : Bool :=
  decide (∀ k : Fin 4, p.dstIp (k.castLE (by decide)) = ip k)

/-- `struct arp_entry`. -/
structure ArpEntry where
  ip : Ip
  mac : Mac
  use : UInt8

/-- An entry of the table at the start. -/
def ArpEntry.zero : ArpEntry := ⟨fun _ => 0, fun _ => 0, 0⟩

/-- `arp_table`. -/
abbrev ArpTable : Type := Nat → ArpEntry

def myIp : Ip := ![10, 0, 1, 10]

/-! ## The functions -/

/-- The loop of `arp_table_search`, with `k` entries from `i` on to go. -/
def searchFrom (table : ArpTable) (ip : Ip) : Nat → Nat → Int → Int
  | 0, _, empty => empty - 1
  | k + 1, i, empty =>
    if (table i).ip = ip then
      i
    else
      searchFrom table ip k (i + 1) (if (table i).use = 0 ∧ empty = 1 then -i else empty)

def arpTableSearch (table : ArpTable) (ip : Ip) : Int := searchFrom table ip ARP_TABLE_MAX 0 1

def arpTableUpdate (table : ArpTable) (p : ArpPkt) : ArpTable :=
  let index := arpTableSearch table p.srcIp
  if index > -1 then
    update table index.toNat { table index.toNat with mac := p.srcMac }
  else
    let index := -(index + 1)
    update table index.toNat ⟨p.srcIp, p.srcMac, 1⟩

/-- The answer to a request, in a page with `old` for `dst_ip`, of which four bytes are written. -/
def arpReplyPktCreate (macAddr : Mac) (p : ArpPkt) (old : Fin 6 → UInt8) : ArpPkt where
  hrdType := ARP_HARDWARE_TYPE
  proType := ARP_PROTOCOL_TYPE
  hrdLen := 6
  proLen := 4
  op := ARP_OPS_REPLY
  srcMac := macAddr
  srcIp := myIp
  dstMac := p.srcMac
  dstIp := fun k => if h : k.val < 4 then p.srcIp ⟨k.val, h⟩ else old k

/-- What `arp_proc` does with a packet. -/
inductive ArpResult where
  /-- -1 -/
  | rejected
  /-- `ARP_CREATED_REPLY`, with the packet that is sent, as the page from `kalloc` makes it. -/
  | createdReply (reply : (Fin 6 → UInt8) → ArpPkt)
  /-- `ARP_UPDATED_TABLE` -/
  | updatedTable

def arpProc (macAddr : Mac) (p : ArpPkt) (table : ArpTable) : ArpResult × ArpTable :=
  if p.hrdType ≠ ARP_HARDWARE_TYPE then (.rejected, table)
  else if p.proType ≠ ARP_PROTOCOL_TYPE then (.rejected, table)
  else if p.hrdLen ≠ 6 then (.rejected, table)
  else if p.proLen ≠ 4 then (.rejected, table)
  else if ¬p.isFor myIp ∧ p.srcIp ≠ myIp then (.rejected, table)
  else if p.op = ARP_OPS_REQUEST ∧ p.isFor myIp then
    (.createdReply (arpReplyPktCreate macAddr p), table)
  else if p.op = ARP_OPS_REPLY ∧ p.isFor myIp then
    (.updatedTable, arpTableUpdate table p)
  else
    (.rejected, table)

/-- A packet that `arp_proc` enters in the table. -/
structure ArpPkt.Accepted (p : ArpPkt) : Prop where
  hrdType : p.hrdType = ARP_HARDWARE_TYPE
  proType : p.proType = ARP_PROTOCOL_TYPE
  hrdLen : p.hrdLen = 6
  proLen : p.proLen = 4
  op : p.op = ARP_OPS_REPLY
  isFor : p.isFor myIp = true

theorem arpProc_updatedTable_iff {macAddr : Mac} {p : ArpPkt} {table table' : ArpTable} :
    arpProc macAddr p table = (.updatedTable, table') ↔
      p.Accepted ∧ table' = arpTableUpdate table p := by
  constructor
  · intro h
    unfold arpProc at h
    split_ifs at h with h1 h2 h3 h4 h5 h6 h7
    · cases h
    · cases h
    · cases h
    · cases h
    · cases h
    · cases h
    · cases h
      exact ⟨⟨not_not.mp h1, not_not.mp h2, not_not.mp h3, not_not.mp h4, h7.1, h7.2⟩, rfl⟩
    · cases h
  · rintro ⟨h, rfl⟩
    have hop : ¬(p.op = ARP_OPS_REQUEST ∧ p.isFor myIp = true) := by
      rw [h.op]
      exact fun hboth => absurd hboth.1 (by decide)
    rw [arpProc, if_neg (not_not.mpr h.hrdType), if_neg (not_not.mpr h.proType),
      if_neg (not_not.mpr h.hrdLen), if_neg (not_not.mpr h.proLen),
      if_neg (fun hboth => hboth.1 h.isFor), if_neg hop, if_pos ⟨h.op, h.isFor⟩]

/-! ## What the search gives -/

section search

variable {table : ArpTable} {ip : Ip} {i : Nat}

/-- An address that is there is found where it is first. -/
theorem searchFrom_found {k j : Nat} {empty : Int} (hlo : j ≤ i) (hhi : i < j + k)
    (hfirst : ∀ m, j ≤ m → m < i → (table m).ip ≠ ip) (hi : (table i).ip = ip) :
    searchFrom table ip k j empty = i := by
  induction k generalizing j empty with
  | zero => omega
  | succ k ih =>
    rw [searchFrom]
    rcases Nat.lt_or_eq_of_le hlo with hlt | rfl
    · rw [if_neg (hfirst j (Nat.le_refl j) hlt)]
      exact ih hlt (by omega) fun m hm => hfirst m (by omega)
    · rw [if_pos hi]

/-- Once `empty` is set it stays. -/
theorem searchFrom_empty {k j : Nat} {empty : Int} (hempty : empty ≠ 1)
    (hnot : ∀ m, j ≤ m → m < j + k → (table m).ip ≠ ip) :
    searchFrom table ip k j empty = empty - 1 := by
  induction k generalizing j with
  | zero => rfl
  | succ k ih =>
    rw [searchFrom, if_neg (hnot j (Nat.le_refl j) (by omega)),
      if_neg (fun hboth => hempty hboth.2)]
    exact ih fun m hm hlt => hnot m (by omega) (by omega)

theorem searchFrom_free {k j : Nat} (hlo : j ≤ i) (hhi : i < j + k)
    (hnot : ∀ m, j ≤ m → m < j + k → (table m).ip ≠ ip)
    (hused : ∀ m, j ≤ m → m < i → (table m).use ≠ 0) (hi : (table i).use = 0) :
    searchFrom table ip k j 1 = -i - 1 := by
  induction k generalizing j with
  | zero => omega
  | succ k ih =>
    rw [searchFrom, if_neg (hnot j (Nat.le_refl j) (by omega))]
    rcases Nat.lt_or_eq_of_le hlo with hlt | rfl
    · rw [if_neg (fun hboth => hused j (Nat.le_refl j) hlt hboth.1)]
      exact ih hlt (by omega) (fun m hm hlt => hnot m (by omega) (by omega))
        fun m hm => hused m (by omega)
    · rw [if_pos ⟨hi, rfl⟩]
      exact searchFrom_empty (by omega) fun m hm hlt => hnot m (by omega) (by omega)

theorem searchFrom_full {k j : Nat} (hnot : ∀ m, j ≤ m → m < j + k → (table m).ip ≠ ip)
    (hused : ∀ m, j ≤ m → m < j + k → (table m).use ≠ 0) : searchFrom table ip k j 1 = 0 := by
  induction k generalizing j with
  | zero => rfl
  | succ k ih =>
    rw [searchFrom, if_neg (hnot j (Nat.le_refl j) (by omega)),
      if_neg (fun hboth => hused j (Nat.le_refl j) (by omega) hboth.1)]
    exact ih (fun m hm hlt => hnot m (by omega) (by omega))
      fun m hm hlt => hused m (by omega) (by omega)

theorem arpTableSearch_found (hlt : i < ARP_TABLE_MAX) (hfirst : ∀ m, m < i → (table m).ip ≠ ip)
    (hi : (table i).ip = ip) : arpTableSearch table ip = i :=
  searchFrom_found (Nat.zero_le i) (by omega) (fun m _ => hfirst m) hi

theorem arpTableSearch_free (hlt : i < ARP_TABLE_MAX)
    (hnot : ∀ m, m < ARP_TABLE_MAX → (table m).ip ≠ ip)
    (hused : ∀ m, m < i → (table m).use ≠ 0) (hi : (table i).use = 0) :
    arpTableSearch table ip = -i - 1 :=
  searchFrom_free (Nat.zero_le i) (by omega) (fun m _ hm => hnot m (by omega))
    (fun m _ => hused m) hi

theorem arpTableSearch_full (hnot : ∀ m, m < ARP_TABLE_MAX → (table m).ip ≠ ip)
    (hused : ∀ m, m < ARP_TABLE_MAX → (table m).use ≠ 0) : arpTableSearch table ip = 0 :=
  searchFrom_full (fun m _ hm => hnot m (by omega)) fun m _ hm => hused m (by omega)

end search

/-! ## The three ways a reply is entered -/

section update

variable {table : ArpTable} {p : ArpPkt} {i : Nat}

/-- The address is there. -/
theorem arpTableUpdate_found (hi : arpTableSearch table p.srcIp = i) :
    arpTableUpdate table p =
      update table i ⟨(table i).ip, p.srcMac, (table i).use⟩ := by
  have hpos : (i : Int) > -1 := by omega
  rw [arpTableUpdate, hi, if_pos hpos, Int.toNat_natCast]

/-- The address is new. -/
theorem arpTableUpdate_free (hi : arpTableSearch table p.srcIp = -i - 1) :
    arpTableUpdate table p = update table i ⟨p.srcIp, p.srcMac, 1⟩ := by
  have hneg : ¬(-i - 1 : Int) > -1 := by omega
  have hindex : (-((-i - 1 : Int) + 1)).toNat = i := by omega
  rw [arpTableUpdate, hi, if_neg hneg]
  show update table (-((-i - 1 : Int) + 1)).toNat _ = _
  rw [hindex]

end update

/-! ## Runs of replies -/

/-- `arp_proc` enters a reply. -/
def Steps (macAddr : Mac) (table : ArpTable) (p : ArpPkt) (table' : ArpTable) : Prop :=
  arpProc macAddr p table = (.updatedTable, table')

/-- The table at the start. -/
def emptyTable : ArpTable := fun _ => ArpEntry.zero

/-- The hardware address in the most recent reply of an address. -/
def latest (ps : List ArpPkt) (ip : Ip) : Option Mac :=
  (ps.reverse.find? fun p => p.srcIp = ip).map ArpPkt.srcMac

/-- Entry `i` is used, for this address. -/
structure Holds (table : ArpTable) (i : Nat) (ip : Ip) : Prop where
  lt : i < ARP_TABLE_MAX
  use : (table i).use ≠ 0
  ip : (table i).ip = ip

/-- The table is a map to the most recent replies. -/
structure IsMap (ps : List ArpPkt) (table : ArpTable) : Prop where
  unique : ∀ i j ip, Holds table i ip → Holds table j ip → i = j
  latest : ∀ ip mac, latest ps ip = some mac →
    ∃ i : Nat, arpTableSearch table ip = i ∧ Holds table i ip ∧ (table i).mac = mac

/-- The reply changes no entry of another address. -/
def Preserves (table : ArpTable) (p : ArpPkt) (table' : ArpTable) : Prop :=
  ∀ i ip, Holds table i ip → ip ≠ p.srcIp → table' i = table i

/-- The address 0.0.0.0, which unused entries have. -/
def Ip.any : Ip := fun _ => 0

/-- The reply is not from 0.0.0.0, and its address is in the table or there is room for it. -/
structure Safe (table : ArpTable) (p : ArpPkt) : Prop where
  ne_any : p.srcIp ≠ Ip.any
  room : (∃ i, Holds table i p.srcIp) ∨ ∃ i, i < ARP_TABLE_MAX ∧ (table i).use = 0

/-- What holds of the table in such runs. -/
structure Inv (ps : List ArpPkt) (table : ArpTable) : Prop where
  unused : ∀ i, i < ARP_TABLE_MAX → ((table i).use = 0 ↔ (table i).ip = Ip.any)
  unique : ∀ i j ip, Holds table i ip → Holds table j ip → i = j
  stored : ∀ ip mac, Net.latest ps ip = some mac → ∃ i, Holds table i ip ∧ (table i).mac = mac

section runs

variable {macAddr : Mac} {table table' : ArpTable} {p : ArpPkt} {ps : List ArpPkt} {i : Nat}
  {ip : Ip}

theorem latest_snoc : latest (ps ++ [p]) ip =
    if p.srcIp = ip then some p.srcMac else latest ps ip := by
  unfold latest
  rw [List.reverse_append, List.reverse_singleton, List.singleton_append, List.find?_cons]
  by_cases h : p.srcIp = ip
  · simp [h]
  · simp [h]

/-- An address in the table is found. -/
theorem Inv.search_eq (h : Inv ps table) (hi : Holds table i ip) :
    arpTableSearch table ip = i := by
  have hne : ip ≠ Ip.any := by
    intro hany
    exact hi.use ((h.unused i hi.lt).mpr (hi.ip.trans hany))
  apply arpTableSearch_found hi.lt _ hi.ip
  intro m hm heq
  have hlt : m < ARP_TABLE_MAX := Nat.lt_trans hm hi.lt
  have huse : (table m).use ≠ 0 := fun hzero => hne (heq.symm.trans ((h.unused m hlt).mp hzero))
  exact absurd (h.unique m i ip ⟨hlt, huse, heq⟩ hi) (Nat.ne_of_lt hm)

theorem Inv.isMap (h : Inv ps table) : IsMap ps table := by
  refine ⟨h.unique, ?_⟩
  intro ip mac hmac
  obtain ⟨i, hi, hentry⟩ := h.stored ip mac hmac
  exact ⟨i, h.search_eq hi, hi, hentry⟩

theorem inv_empty : Inv [] emptyTable := by
  refine ⟨fun _ _ => ⟨fun _ => rfl, fun _ => rfl⟩, ?_, nofun⟩
  intro i j ip hi
  exact absurd rfl hi.use

/-- An entry that a reply writes. -/
theorem Inv.set {e : ArpEntry} (h : Inv ps table) (hlt : i < ARP_TABLE_MAX)
    (hip : e.ip = p.srcIp) (hmac : e.mac = p.srcMac) (huse : e.use ≠ 0)
    (hany : p.srcIp ≠ Ip.any) (honly : ∀ j, Holds table j p.srcIp → j = i)
    (hold : ∀ ip, Holds table i ip → ip = p.srcIp) :
    Inv (ps ++ [p]) (update table i e) ∧
      Preserves table p (update table i e) := by
  have hother : ∀ {j}, j ≠ i → update table i e j = table j :=
    fun hj => update_of_ne hj ..
  have hself : update table i e i = e := update_self ..
  -- entries of the new table
  have hnew : ∀ {j ip}, Holds (update table i e) j ip ↔
      (j = i ∧ ip = p.srcIp) ∨ (j ≠ i ∧ Holds table j ip) := by
    intro j ip
    by_cases hj : j = i
    · subst hj
      constructor
      · intro hh
        refine .inl ⟨rfl, ?_⟩
        rw [← hh.ip, hself, hip]
      · rintro (⟨_, rfl⟩ | ⟨hne, _⟩)
        · exact ⟨hlt, by rw [hself]; exact huse, by rw [hself]; exact hip⟩
        · exact absurd rfl hne
    · constructor
      · intro hh
        refine .inr ⟨hj, hh.lt, ?_, ?_⟩
        · rw [← hother hj]
          exact hh.use
        · rw [← hother hj]
          exact hh.ip
      · rintro (⟨heq, _⟩ | ⟨_, hh⟩)
        · exact absurd heq hj
        · exact ⟨hh.lt, by rw [hother hj]; exact hh.use, by rw [hother hj]; exact hh.ip⟩
  refine ⟨⟨?_, ?_, ?_⟩, ?_⟩
  · intro j hj
    by_cases hji : j = i
    · rw [hji, hself, hip]
      exact ⟨fun hzero => absurd hzero huse, fun heq => absurd heq hany⟩
    · rw [hother hji]
      exact h.unused j hj
  · intro j k ip hj hk
    rcases hnew.mp hj with ⟨rfl, rfl⟩ | ⟨hne, hj'⟩
    · rcases hnew.mp hk with ⟨rfl, _⟩ | ⟨hne', hk'⟩
      · rfl
      · exact absurd (honly k hk') hne'
    · rcases hnew.mp hk with ⟨rfl, rfl⟩ | ⟨_, hk'⟩
      · exact absurd (honly j hj') hne
      · exact h.unique j k ip hj' hk'
  · intro ip mac hlatest
    rw [latest_snoc] at hlatest
    by_cases hsrc : p.srcIp = ip
    · rw [if_pos hsrc] at hlatest
      cases hlatest
      refine ⟨i, hnew.mpr (.inl ⟨rfl, hsrc.symm⟩), ?_⟩
      rw [hself, hmac]
    · rw [if_neg hsrc] at hlatest
      obtain ⟨j, hj, hentry⟩ := h.stored ip mac hlatest
      have hji : j ≠ i := by
        rintro rfl
        exact hsrc (hold ip hj).symm
      refine ⟨j, hnew.mpr (.inr ⟨hji, hj⟩), ?_⟩
      rw [hother hji, hentry]
  · intro j ip hj hne
    apply hother
    rintro rfl
    exact hne (hold ip hj)

/-- A step of such a run. -/
theorem Inv.step (h : Inv ps table) (hstep : Steps macAddr table p table')
    (hsafe : Safe table p) : Inv (ps ++ [p]) table' ∧ Preserves table p table' := by
  obtain ⟨_, rfl⟩ := arpProc_updatedTable_iff.mp hstep
  by_cases hfound : ∃ i, Holds table i p.srcIp
  · obtain ⟨i, hi⟩ := hfound
    rw [arpTableUpdate_found (h.search_eq hi)]
    apply h.set (e := ⟨(table i).ip, p.srcMac, (table i).use⟩) hi.lt hi.ip rfl hi.use hsafe.ne_any
    · exact fun j hj => h.unique j i _ hj hi
    · exact fun ip hip => hip.ip.symm.trans hi.ip
  · -- a new address, for the first unused entry
    have hfree := hsafe.room.resolve_left hfound
    have hnot : ∀ m, m < ARP_TABLE_MAX → (table m).ip ≠ p.srcIp := by
      intro m hm heq
      by_cases huse : (table m).use = 0
      · exact hsafe.ne_any (heq.symm.trans ((h.unused m hm).mp huse))
      · exact hfound ⟨m, hm, huse, heq⟩
    obtain ⟨hlt, huse⟩ := Nat.find_spec hfree
    have hbefore : ∀ m, m < Nat.find hfree → (table m).use ≠ 0 := by
      intro m hm hzero
      exact Nat.find_min hfree hm ⟨Nat.lt_trans hm hlt, hzero⟩
    rw [arpTableUpdate_free (arpTableSearch_free hlt hnot hbefore huse)]
    apply h.set (e := ⟨p.srcIp, p.srcMac, 1⟩) hlt rfl rfl
      (show (1 : UInt8) ≠ 0 by decide) hsafe.ne_any
    · exact fun j hj => absurd ⟨j, hj⟩ hfound
    · exact fun ip hip => absurd huse hip.use

/-- While no reply is from 0.0.0.0 and none finds the table full, the table is a map to the most
recent replies, and no reply changes the entry of another address. -/
theorem table_is_map (h : Run (fun t p t' => Steps macAddr t p t' ∧ Safe t p) emptyTable ps table) :
    IsMap ps table ∧
      Run (fun t p t' => Steps macAddr t p t' ∧ Preserves t p t') emptyTable ps table := by
  have hinv : Inv ps table ∧
      Run (fun t p t' => Steps macAddr t p t' ∧ Preserves t p t') emptyTable ps table := by
    induction h with
    | nil => exact ⟨inv_empty, Run.nil⟩
    | snoc _ hs ih =>
      obtain ⟨hinv, hrun⟩ := ih
      obtain ⟨hnext, hpres⟩ := hinv.step hs.1 hs.2
      exact ⟨hnext, hrun.snoc ⟨hs.1, hpres⟩⟩
  exact ⟨hinv.1.isMap, hinv.2⟩

end runs

/-! ## A full table -/

/-- The `k`-th host. -/
def hostIp (k : Nat) : Ip := ![10, 0, 2, UInt8.ofNat k]

def hostMac (k : Nat) : Mac := fun _ => UInt8.ofNat k

/-- A reply with this sender. -/
def reply (ip : Ip) (mac : Mac) : ArpPkt where
  hrdType := ARP_HARDWARE_TYPE
  proType := ARP_PROTOCOL_TYPE
  hrdLen := 6
  proLen := 4
  op := ARP_OPS_REPLY
  srcMac := mac
  srcIp := ip
  dstMac := fun _ => 0
  dstIp := ![10, 0, 1, 10, 0, 0]

theorem accepted_reply (ip : Ip) (mac : Mac) : (reply ip mac).Accepted :=
  ⟨rfl, rfl, rfl, rfl, rfl, rfl⟩

theorem steps_reply (macAddr : Mac) (table : ArpTable) (ip : Ip) (mac : Mac) :
    Steps macAddr table (reply ip mac) (arpTableUpdate table (reply ip mac)) :=
  arpProc_updatedTable_iff.mpr ⟨accepted_reply ip mac, rfl⟩

/-- Two hosts, and the first once more with another hardware address. -/
def threeReplies : List ArpPkt :=
  [reply (hostIp 1) (hostMac 1), reply (hostIp 2) (hostMac 2), reply (hostIp 1) (hostMac 3)]

theorem table_is_map_reply : ∃ table, IsMap threeReplies table ∧
    Run (fun t p t' => Steps (hostMac 0) t p t' ∧ Preserves t p t') emptyTable threeReplies table ∧
    (table 0).mac = hostMac 3 ∧ (table 1).mac = hostMac 2 := by
  have hnew := Run.single (R := fun t p t' => Steps (hostMac 0) t p t' ∧ Safe t p)
    ⟨steps_reply _ emptyTable (hostIp 1) (hostMac 1), by decide, .inr ⟨0, by decide, rfl⟩⟩
  have hother := hnew.snoc
    ⟨steps_reply _ _ (hostIp 2) (hostMac 2), by decide, .inr ⟨1, by decide, by decide +kernel⟩⟩
  have hagain := hother.snoc ⟨steps_reply _ _ (hostIp 1) (hostMac 3), by decide,
    .inl ⟨0, by decide, by decide +kernel, by decide +kernel⟩⟩
  obtain ⟨hmap, hkeeps⟩ := table_is_map hagain
  exact ⟨_, hmap, hkeeps, by decide +kernel, by decide +kernel⟩

/-- The table with the first `n` hosts. -/
def filled (n : Nat) : ArpTable := fun i =>
  if i < n then ⟨hostIp i, hostMac i, 1⟩ else ArpEntry.zero

theorem hostIp_inj {j k : Nat} (hj : j < 256) (hk : k < 256) (h : hostIp j = hostIp k) : j = k := by
  have hlast : UInt8.ofNat j = UInt8.ofNat k := congrFun h 3
  have hnat := congrArg UInt8.toNat hlast
  rw [UInt8.toNat_ofNat', UInt8.toNat_ofNat'] at hnat
  omega

theorem hostIp_ne_any (k : Nat) : hostIp k ≠ Ip.any := by
  intro h
  have hfirst : (10 : UInt8) = 0 := congrFun h 0
  exact absurd hfirst (by decide)

theorem filled_use {n m : Nat} (hm : m < n) : (filled n m).use ≠ 0 := by
  rw [filled, if_pos hm]
  exact (show (1 : UInt8) ≠ 0 by decide)

/-- A host that is not in the table. -/
theorem filled_ne {n m : Nat} (hn : n ≤ ARP_TABLE_MAX) : (filled n m).ip ≠ hostIp n := by
  have hmax : ARP_TABLE_MAX = 64 := rfl
  unfold filled
  by_cases hm : m < n
  · rw [if_pos hm]
    intro h
    have heq := hostIp_inj (by omega) (by omega) h
    omega
  · rw [if_neg hm]
    exact fun h => hostIp_ne_any n h.symm

/-- The next host goes to the next entry. -/
theorem arpTableUpdate_filled {n : Nat} (hn : n < ARP_TABLE_MAX) :
    arpTableUpdate (filled n) (reply (hostIp n) (hostMac n)) = filled (n + 1) := by
  have hfree : (filled n n).use = 0 := by
    rw [filled, if_neg (Nat.lt_irrefl n)]
    rfl
  have hsearch : arpTableSearch (filled n) (hostIp n) = -n - 1 :=
    arpTableSearch_free hn (fun m _ => filled_ne (Nat.le_of_lt hn)) (fun m hm => filled_use hm) hfree
  rw [arpTableUpdate_free (p := reply (hostIp n) (hostMac n)) hsearch]
  funext i
  by_cases hi : i = n
  · rw [hi, update_self, filled, if_pos (Nat.lt_succ_self n)]
    rfl
  · have hiff : i < n + 1 ↔ i < n := by omega
    rw [update_of_ne hi, filled, filled]
    simp only [hiff]

theorem run_filled (macAddr : Mac) {n : Nat} (hn : n ≤ ARP_TABLE_MAX) :
    Run (Steps macAddr) emptyTable ((List.range n).map fun k => reply (hostIp k) (hostMac k))
      (filled n) := by
  induction n with
  | zero => exact Run.nil
  | succ n ih =>
    rw [List.range_succ, List.map_append, ← arpTableUpdate_filled hn]
    exact (ih (Nat.le_of_lt hn)).snoc (steps_reply ..)

/-- With 64 hosts in the table, the reply of another one overwrites the hardware address of the
first. -/
theorem full_table_wrong : ∃ ps table table', Run (Steps (hostMac 0)) emptyTable ps table ∧
    Steps (hostMac 0) table (reply (hostIp 64) (hostMac 64)) table' ∧
    Holds table 0 (hostIp 0) ∧ hostIp 0 ≠ hostIp 64 ∧
    (table 0).mac = hostMac 0 ∧ (table' 0).mac = hostMac 64 ∧ hostMac 0 ≠ hostMac 64 := by
  have hsearch : arpTableSearch (filled ARP_TABLE_MAX) (hostIp 64) = (0 : Nat) :=
    arpTableSearch_full (fun m _ => filled_ne le_rfl) fun m hm => filled_use hm
  refine ⟨_, _, _, run_filled (hostMac 0) le_rfl, steps_reply .., ?_, ?_, rfl, ?_, ?_⟩
  · exact ⟨by decide, filled_use (by decide), rfl⟩
  · decide
  · rw [arpTableUpdate_found (p := reply (hostIp 64) (hostMac 64)) hsearch, update_self]
    rfl
  · decide

end Net
end Xv6
