import Xv6.Net.Icmp

/-!
# TCP segments

`tcp_pkt_create` writes a header of twenty bytes in front of the payload that is in the send
buffer.  `bytes_tcpFields` says which bytes these are, in terms of the received segment, the
counters and the arguments.

The checksum is taken over a pseudo header with the own address twice, over the whole words of
the segment only, with one carry at the end, and is then corrected by 8 without a carry.
`tcp_checksum_iff` says for which inputs the result verifies nevertheless.  The numbers are
converted by masks of four bits, and the acknowledgement number is one more than the received
sequence number in its last byte only: `tcp_numbers_iff`.
-/

namespace Xv6
namespace Net

open Lib Transmit

/-! ## What is built -/

section built

variable {g : Globals} {mem : Mem} {recv send : Nat} {pktType payloadSize : UInt32}

/-- The received packet, with the longest IPv4 header, and the headers to send are in different
places. -/
def Separate (recv send : Nat) : Prop :=
  Apart recv (ethSize + 60 + tcpSize) send (ethSize + ipv4Size + tcpSize)

theorem Separate.lt_or_le (h : Separate recv send) {x : Nat} (hlo : recv ≤ x) (hhi : x < recv + 94) :
    x < send ∨ send + 54 ≤ x := by
  by_contra hin
  exact h x hlo hhi (by omega) (by unfold ethSize ipv4Size tcpSize; omega)

theorem afterIpv4_le (mem : Mem) (recv : Nat) :
    recv ≤ afterIpv4 mem recv ∧ afterIpv4 mem recv + 20 ≤ recv + 94 := by
  have hmod : (mem (recv + ethSize)).toNat % 16 < 16 := Nat.mod_lt _ (by decide)
  unfold afterIpv4 ethSize
  omega

section headers

variable {totalLen fragment : UInt16} {protocol : UInt8}

theorem headersCreate_outside {x : Nat} (hx : x < send ∨ send + 34 ≤ x) :
    headersCreate g mem recv send totalLen fragment protocol x = mem x := by
  have hip : (List.ofFn myIp).length = 4 := List.length_ofFn
  have hmac : (List.ofFn g.macAddr).length = 6 := List.length_ofFn
  have heth : ethSize = 14 := rfl
  unfold headersCreate headerFields
  simp (disch := omega) only [store8_outside, store16_outside, patch_outside, memmove_outside]

theorem headersCreate_totalLen :
    bytes (headersCreate g mem recv send totalLen fragment protocol) (send + ethSize + 2) 2 =
      [UInt8.ofNat (H2N_ushort totalLen).toNat, UInt8.ofNat ((H2N_ushort totalLen).toNat / 256)] := by
  have hip : (List.ofFn myIp).length = 4 := List.length_ofFn
  unfold headersCreate headerFields
  simp (disch := omega) only [bytes_store8_outside, bytes_store16_outside, bytes_memmove_outside,
    bytes_patch_outside, bytes_store16]

theorem headersCreate_srcIp :
    bytes (headersCreate g mem recv send totalLen fragment protocol) (send + ethSize + 12) 4 =
      List.ofFn myIp := by
  unfold headersCreate headerFields
  rw [bytes_store16_outside (by omega), bytes_store16_outside (by omega),
    bytes_memmove_outside (by omega), bytes_patch_self List.length_ofFn]

/-- The answer goes to the sender. -/
theorem headersCreate_dstIp (h : Separate recv send) :
    bytes (headersCreate g mem recv send totalLen fragment protocol) (send + ethSize + 16) 4 =
      bytes mem (recv + ethSize + 12) 4 := by
  have hip : (List.ofFn myIp).length = 4 := List.length_ofFn
  have hmac : (List.ofFn g.macAddr).length = 6 := List.length_ofFn
  have heth : ethSize = 14 := rfl
  unfold headersCreate headerFields
  rw [bytes_store16_outside (by omega), bytes_store16_outside (by omega), bytes_memmove]
  apply bytes_congr
  intro x hlo hhi
  have hx : x < send ∨ send + 54 ≤ x := h.lt_or_le (by omega) (by omega)
  simp (disch := omega) only [store8_outside, store16_outside, patch_outside, memmove_outside]

end headers

/-- The acknowledgement number is computed on the received field as it stands. -/
def ackField (mem : Mem) (recv : Nat) : Nat :=
  (load32 mem (afterIpv4 mem recv + 4) + 2 ^ 24) % 2 ^ 32

/-- The twenty bytes of the header when the checksum is taken. -/
def tcpHeader (g : Globals) (mem : Mem) (recv : Nat) (pktType : UInt32) : List UInt8 :=
  let tcpRecv := afterIpv4 mem recv
  let seq := (H2N_uint g.seqNum).toNat
  let ack := ackField mem recv
  [mem (tcpRecv + 2), mem (tcpRecv + 3), mem tcpRecv, mem (tcpRecv + 1),
    UInt8.ofNat seq, UInt8.ofNat (seq / 256), UInt8.ofNat (seq / 65536),
    UInt8.ofNat (seq / 16777216),
    UInt8.ofNat ack, UInt8.ofNat (ack / 256), UInt8.ofNat (ack / 65536),
    UInt8.ofNat (ack / 16777216),
    0x50, UInt8.ofNat pktType.toNat, 0x38, 0x90, 0, 0, 0, 0]

theorem tcpFields_outside {x : Nat} (hx : x < send + ethSize + ipv4Size ∨ send + 54 ≤ x) :
    tcpFields g mem recv send pktType payloadSize x =
      headersCreate g mem recv send (UInt16.ofNat (ipv4Size + tcpSize + payloadSize.toNat)) 0x0000
        IPV4_TYPE_TCP x := by
  have heth : ethSize = 14 := rfl
  have hip : ipv4Size = 20 := rfl
  unfold tcpFields
  simp (disch := omega) only [store8_outside, store16_outside, store32_outside]

/-- The bytes of a half-word are copied as they are. -/
theorem ofNat_load16 (mem : Mem) (a : Nat) :
    [UInt8.ofNat (load16 mem a), UInt8.ofNat (load16 mem a / 256)] = [mem a, mem (a + 1)] := by
  have hlo : (mem a).toNat < 256 := UInt8.toNat_lt _
  have hhi : (mem (a + 1)).toNat < 256 := UInt8.toNat_lt _
  have hfst : UInt8.ofNat (load16 mem a) = mem a := by
    apply UInt8.toNat_inj.mp
    rw [UInt8.toNat_ofNat', load16]
    omega
  have hsnd : UInt8.ofNat (load16 mem a / 256) = mem (a + 1) := by
    apply UInt8.toNat_inj.mp
    rw [UInt8.toNat_ofNat', load16]
    omega
  rw [hfst, hsnd]

theorem bytes_add (mem : Mem) (a m n : Nat) :
    bytes mem a (m + n) = bytes mem a m ++ bytes mem (a + m) n := by
  rw [bytes, firsts_add]
  simp only [bytes, Nat.add_assoc]

/-- The ports are exchanged. -/
theorem tcpFields_ports (h : Separate recv send) :
    bytes (tcpFields g mem recv send pktType payloadSize) (send + ethSize + ipv4Size) 4 =
      [mem (afterIpv4 mem recv + 2), mem (afterIpv4 mem recv + 3), mem (afterIpv4 mem recv),
        mem (afterIpv4 mem recv + 1)] := by
  have heth : ethSize = 14 := rfl
  have hip : ipv4Size = 20 := rfl
  obtain ⟨hlo, hhi⟩ := afterIpv4_le mem recv
  have hrecv : ∀ k, k < 20 → afterIpv4 mem recv + k < send ∨ send + 54 ≤ afterIpv4 mem recv + k :=
    fun k hk => h.lt_or_le (by omega) (by omega)
  have h0 := hrecv 0 (by decide)
  have h1 := hrecv 1 (by decide)
  have h2 := hrecv 2 (by decide)
  have h3 := hrecv 3 (by decide)
  unfold tcpFields
  simp (disch := omega) only [bytes_store8_outside, bytes_store16_outside, bytes_store32_outside]
  rw [bytes_add _ _ 2 2, bytes_store16_outside (by omega), bytes_store16, bytes_store16]
  simp (disch := omega) only [ofNat_load16, store16_outside, headersCreate_outside]
  rfl

theorem tcpFields_seqNum :
    bytes (tcpFields g mem recv send pktType payloadSize) (send + ethSize + ipv4Size + 4) 4 =
      [UInt8.ofNat (H2N_uint g.seqNum).toNat, UInt8.ofNat ((H2N_uint g.seqNum).toNat / 256),
        UInt8.ofNat ((H2N_uint g.seqNum).toNat / 65536),
        UInt8.ofNat ((H2N_uint g.seqNum).toNat / 16777216)] := by
  unfold tcpFields
  simp (disch := omega) only [bytes_store8_outside, bytes_store16_outside, bytes_store32_outside,
    bytes_store32]

theorem tcpFields_ackNum (h : Separate recv send) :
    bytes (tcpFields g mem recv send pktType payloadSize) (send + ethSize + ipv4Size + 8) 4 =
      [UInt8.ofNat (ackField mem recv), UInt8.ofNat (ackField mem recv / 256),
        UInt8.ofNat (ackField mem recv / 65536), UInt8.ofNat (ackField mem recv / 16777216)] := by
  have heth : ethSize = 14 := rfl
  have hip : ipv4Size = 20 := rfl
  obtain ⟨hlo, hhi⟩ := afterIpv4_le mem recv
  have hload : ∀ m : Mem, (∀ x, x < send ∨ send + 54 ≤ x → m x = mem x) →
      load32 m (afterIpv4 mem recv + 4) = load32 mem (afterIpv4 mem recv + 4) :=
    fun m hm => load32_congr fun x hxlo hxhi => hm x (h.lt_or_le (by omega) (by omega))
  unfold tcpFields
  simp (disch := omega) only [bytes_store8_outside, bytes_store16_outside]
  rw [bytes_store32, hload]
  · rfl
  · intro x hx
    simp (disch := omega) only [store16_outside, store32_outside, headersCreate_outside]

/-- The rest of the header, with `chk_sum` zero. -/
theorem tcpFields_rest :
    bytes (tcpFields g mem recv send pktType payloadSize) (send + ethSize + ipv4Size + 12) 8 =
      [0x50, UInt8.ofNat pktType.toNat, 0x38, 0x90, 0, 0, 0, 0] := by
  have hwindow : (H2N_ushort 14480).toNat = 0x9038 := by decide
  unfold tcpFields
  rw [bytes_add _ _ 6 2, bytes_add _ _ 4 2, bytes_add _ _ 2 2, bytes_add _ _ 1 1]
  simp (disch := omega) only [bytes_store8_outside, bytes_store16_outside, bytes_store8,
    bytes_store16, hwindow]
  rfl

/-- The header of the segment when the checksum is taken. -/
theorem bytes_tcpFields (h : Separate recv send) :
    bytes (tcpFields g mem recv send pktType payloadSize) (send + ethSize + ipv4Size) tcpSize =
      tcpHeader g mem recv pktType := by
  show bytes _ _ (4 + (4 + (4 + 8))) = _
  rw [bytes_add, bytes_add, bytes_add, tcpFields_ports h, tcpFields_seqNum, tcpFields_ackNum h,
    tcpFields_rest]
  rfl

/-- The segment when the checksum is taken. -/
def tcpSegment (g : Globals) (mem : Mem) (recv send : Nat) (pktType : UInt32) (n : Nat) :
    List UInt8 :=
  tcpHeader g mem recv pktType ++ bytes mem (send + (ethSize + ipv4Size + tcpSize)) n

theorem bytes_tcpSegment (h : Separate recv send) (n : Nat) :
    bytes (tcpFields g mem recv send pktType payloadSize) (send + ethSize + ipv4Size)
      (tcpSize + n) = tcpSegment g mem recv send pktType n := by
  have heth : ethSize = 14 := rfl
  have hip : ipv4Size = 20 := rfl
  have htcp : tcpSize = 20 := rfl
  rw [bytes_add, bytes_tcpFields h, tcpSegment]
  congr 1
  have hplace : send + ethSize + ipv4Size + tcpSize = send + (ethSize + ipv4Size + tcpSize) := by
    omega
  rw [hplace]
  apply bytes_congr
  intro x hlo hhi
  rw [tcpFields_outside (by omega), headersCreate_outside (by omega)]

end built

/-! ## The checksum -/

section checksum

variable {g : Globals} {mem : Mem} {recv send : Nat} {pktType payloadSize : UInt32}

theorem foldl_addWord {ι : Type} (word : ι → Nat) (is : List ι) {s : Nat} :
    is.foldl (fun chkSum i => addWord chkSum (word i)) (s % 2 ^ 32) =
      (s + (is.map word).sum) % 2 ^ 32 := by
  induction is generalizing s with
  | nil => rfl
  | cons i is ih =>
    rw [List.foldl_cons, List.map_cons, List.sum_cons, addWord, Nat.mod_add_mod, ih, Nat.add_assoc]

theorem load16_of_bytes {m : Mem} {a w : Nat} (hw : w < 65536)
    (h : bytes m a 2 = [UInt8.ofNat w, UInt8.ofNat (w / 256)]) : load16 m a = w := by
  have hlist : [m (a + 0), m (a + 1)] = [UInt8.ofNat w, UInt8.ofNat (w / 256)] := h
  injection hlist with hx htail
  injection htail with hy
  rw [Nat.add_zero] at hx
  rw [load16, hx, hy, UInt8.toNat_ofNat', UInt8.toNat_ofNat']
  omega

/-- A value in network order, byte by byte, is the word that it holds. -/
theorem pairs_H2N_ushort (v : UInt16) :
    pairs [UInt8.ofNat (H2N_ushort v).toNat, UInt8.ofNat ((H2N_ushort v).toNat / 256)] =
      [v.toNat] := by
  have hv : v.toNat < 65536 := v.toNat_lt
  have hswap : (H2N_ushort v).toNat % 256 = v.toNat / 256 ∧
      (H2N_ushort v).toNat / 256 = v.toNat % 256 := by
    rw [toNat_H2N_ushort]
    omega
  rw [pairs, pairs, UInt8.toNat_ofNat', UInt8.toNat_ofNat', hswap.1, hswap.2]
  congr 1
  omega

/-- The pseudo header has the length of the segment, as long as that fits in its field. -/
theorem tcpLen_tcpFields :
    tcpLen (tcpFields g mem recv send pktType payloadSize) (send + ethSize) =
      H2N_ushort (UInt16.ofNat (tcpSize + payloadSize.toNat)) := by
  have hip : ipv4Size = 20 := rfl
  have htotal : bytes (tcpFields g mem recv send pktType payloadSize) (send + ethSize + 2) 2 =
      bytes (headersCreate g mem recv send
        (UInt16.ofNat (ipv4Size + tcpSize + payloadSize.toNat)) 0x0000 IPV4_TYPE_TCP)
        (send + ethSize + 2) 2 :=
    bytes_congr fun x _ hx => tcpFields_outside (.inl (by omega))
  rw [headersCreate_totalLen] at htotal
  rw [tcpLen, load16_of_bytes (UInt16.toNat_lt _) htotal, UInt16.ofNat_toNat, N2H_H2N_ushort,
    Nat.add_assoc, UInt16.ofNat_add, UInt16.add_comm, UInt16.add_sub_cancel]

/-- The own address as two words. -/
theorem sum_pairs_myIp : (pairs (List.ofFn myIp)).sum = 0x0B0A := by decide

/-- The pseudo header has the own address twice. -/
theorem sum_tcpDummy (hlen : tcpSize + payloadSize.toNat < 65536) :
    (pairs (tcpDummy (tcpFields g mem recv send pktType payloadSize) (send + ethSize))).sum =
      0x0B0A + 0x0B0A + 6 + (tcpSize + payloadSize.toNat) := by
  have hip : ipv4Size = 20 := rfl
  have hsrc : bytes (tcpFields g mem recv send pktType payloadSize) (send + ethSize + 12) 4 =
      List.ofFn myIp := by
    rw [← @headersCreate_srcIp g mem recv send
      (UInt16.ofNat (ipv4Size + tcpSize + payloadSize.toNat)) 0x0000 IPV4_TYPE_TCP]
    exact bytes_congr fun x _ hx => tcpFields_outside (.inl (by omega))
  have hfour : (List.ofFn myIp).length = 4 := List.length_ofFn
  unfold tcpDummy
  dsimp only
  rw [hsrc, tcpLen_tcpFields, sum_pairs_append _ _ (by rw [List.length_append, hfour]),
    sum_pairs_append _ _ (by rw [hfour]), sum_pairs_myIp]
  show _ + (0 * 256 + 6 + (pairs _).sum) = _
  rw [pairs_H2N_ushort, List.sum_singleton, UInt16.toNat_ofNat', Nat.mod_eq_of_lt hlen]
  omega

/-- The sum over whole words that `tcp_chksum` comes to, from the inputs: the own address twice,
the protocol, the length, and the words of the segment without a last odd byte. -/
def tcpTotal (g : Globals) (mem : Mem) (recv send : Nat) (pktType : UInt32) (n : Nat) : Nat :=
  0x0B0A + 0x0B0A + 6 + (tcpSize + n) +
    (pairs ((tcpSegment g mem recv send pktType n).take (2 * ((tcpSize + n) / 2)))).sum

theorem bytes_take (m : Mem) (a : Nat) {k n : Nat} (h : k ≤ n) :
    (bytes m a n).take k = bytes m a k := by
  obtain ⟨r, rfl⟩ := Nat.exists_eq_add_of_le h
  rw [bytes_add, List.take_left' (length_bytes m a k)]

theorem wordSum_tcpFields (h : Separate recv send) (n : Nat) :
    wordSum (tcpFields g mem recv send pktType payloadSize) (send + ethSize + ipv4Size)
      ((tcpSize + n) / 2) =
      (pairs ((tcpSegment g mem recv send pktType n).take (2 * ((tcpSize + n) / 2)))).sum := by
  rw [wordSum_eq_pairs, ← @bytes_tcpSegment g mem recv send pktType payloadSize h n, bytes_take]
  omega

/-- The sum does not overflow. -/
theorem tcpTotal_lt {n : Nat} (hlen : tcpSize + n < 65536) :
    tcpTotal g mem recv send pktType n < 2 ^ 32 := by
  have hle := sum_pairs_le
    ((tcpSegment g mem recv send pktType n).take (2 * ((tcpSize + n) / 2)))
  have hshort : ((tcpSegment g mem recv send pktType n).take (2 * ((tcpSize + n) / 2))).length ≤
      65535 := by
    rw [List.length_take]
    omega
  unfold tcpTotal
  omega

theorem tcpSum_tcpFields (h : Separate recv send) (hlen : tcpSize + payloadSize.toNat < 65536) :
    tcpSum (tcpFields g mem recv send pktType payloadSize) (send + ethSize) =
      tcpTotal g mem recv send pktType payloadSize.toNat := by
  have hdummy : ∀ ws : List Nat, ws.foldl addWord 0 = ws.sum % 2 ^ 32 := by
    intro ws
    have hfold := @foldl_addWord Nat (fun w => w) ws 0
    rwa [List.map_id', Nat.zero_add] at hfold
  unfold tcpSum
  dsimp only
  rw [hdummy, foldl_addWord, tcpLen_tcpFields, N2H_H2N_ushort, UInt16.toNat_ofNat',
    Nat.mod_eq_of_lt hlen, sum_tcpDummy hlen]
  show (_ + wordSum _ _ _) % 2 ^ 32 = _
  rw [wordSum_tcpFields h]
  exact Nat.mod_eq_of_lt (tcpTotal_lt hlen)

/-- The bytes that the receiver checks: the pseudo header and the segment of `len` bytes. -/
def checked (m : Mem) (ip len : Nat) : List UInt8 :=
  List.ofFn myIp ++ bytes m (ip + 16) 4 ++
    [0, IPV4_TYPE_TCP, UInt8.ofNat (len / 256), UInt8.ofNat len] ++ bytes m (ip + ipv4Size) len

/-- The words of the peer's address, added. -/
def peerSum (mem : Mem) (recv : Nat) : Nat := (pairs (bytes mem (recv + ethSize + 12) 4)).sum

/-- What a last odd byte of the payload adds. -/
def oddByte (mem : Mem) (send n : Nat) : Nat :=
  if n % 2 = 1 then (mem (send + (ethSize + ipv4Size + tcpSize) + (n - 1))).toNat * 256 else 0

theorem bytes_one (m : Mem) (a : Nat) : bytes m a 1 = [m a] := by simp [bytes, firsts]

/-- The words of a region, with an odd byte behind them. -/
theorem sum_pairs_bytes (m : Mem) (a len : Nat) :
    (pairs (bytes m a len)).sum =
      wordSum m a (len / 2) + if len % 2 = 1 then (m (a + (len - 1))).toNat * 256 else 0 := by
  split
  · have hodd : len = 2 * (len / 2) + 1 := by omega
    have hlast : len - 1 = 2 * (len / 2) := by omega
    rw [hlast]
    conv_lhs => rw [hodd]
    rw [bytes_add, sum_pairs_append _ _ (by rw [length_bytes]; omega), wordSum_eq_pairs, bytes_one,
      pairs, List.sum_singleton]
  · have heven : len = 2 * (len / 2) := by omega
    conv_lhs => rw [heven]
    rw [wordSum_eq_pairs, Nat.add_zero]

/-- The carry at the end is brought in once: `s / 2 ^ 16` is added, and what this carries again
is lost, as is the carry of the correction by 8. -/
theorem toNat_chksum (s : Nat) :
    (complement ((s + s / 2 ^ 16) % 2 ^ 32) + 8).toNat =
      (65535 - (s % 2 ^ 16 + s / 2 ^ 16) % 2 ^ 16 + 8) % 2 ^ 16 := by
  rw [UInt16.toNat_add, complement, UInt16.toNat_ofNat']
  show (_ + 8) % _ = _
  omega

/-- `total` is what was added up, `others` what the receiver adds besides, and `received` what it
comes to. -/
theorem received_iff {total others received folded : Nat} (hlt : total < 2 ^ 32)
    (hpos : 0x0B0A + 0x0B0A ≤ total) (hfolded : folded = total % 2 ^ 16 + total / 2 ^ 16)
    (hall : received + 0x0B0A = total + others + (65535 - folded % 2 ^ 16 + 8) % 2 ^ 16) :
    (received ≠ 0 ∧ received % 65535 = 0) ↔ (others + if 2 ^ 16 ≤ folded then 1 else 0) % 65535 =
        (0x0B02 + if folded % 2 ^ 16 < 8 then 1 else 0) % 65535 := by
  have htotal : total = 65535 * (total / 2 ^ 16) + folded := by omega
  have hlow : folded % 2 ^ 16 < 65536 := Nat.mod_lt _ (by decide)
  have hcarry : folded = folded % 2 ^ 16 + if 2 ^ 16 ≤ folded then 65536 else 0 := by
    split <;> omega
  have hwrap : (65535 - folded % 2 ^ 16 + 8) % 2 ^ 16 =
      if folded % 2 ^ 16 < 8 then 7 - folded % 2 ^ 16 else 65543 - folded % 2 ^ 16 := by
    split <;> omega
  rw [hwrap] at hall
  clear hfolded hwrap hlt
  generalize total / 2 ^ 16 = q at htotal
  generalize folded % 2 ^ 16 = low at *
  split_ifs at hall hcarry ⊢ <;> omega

/-- What was there when the checksum was taken is sent. -/
theorem tcpPktCreate_outside {x : Nat} (hx : x < send + ethSize + ipv4Size ∨ send + 54 ≤ x) :
    tcpPktCreate g mem recv send pktType payloadSize x =
      tcpFields g mem recv send pktType payloadSize x := by
  have heth : ethSize = 14 := rfl
  have hip : ipv4Size = 20 := rfl
  rw [tcpPktCreate, store16_outside (by omega)]

theorem word_tcpFields :
    word (tcpFields g mem recv send pktType payloadSize) (send + ethSize + ipv4Size) 8 = 0 := by
  unfold tcpFields
  exact @word_store16_zero _ (send + ethSize + ipv4Size) 8

/-- All that the receiver adds up. -/
theorem sum_checked (g : Globals) (mem : Mem) (pktType : UInt32) (h : Separate recv send)
    (hlen : tcpSize + payloadSize.toNat < 65536) :
    (pairs (checked (tcpPktCreate g mem recv send pktType payloadSize) (send + ethSize)
      (tcpSize + payloadSize.toNat))).sum + 0x0B0A =
    tcpTotal g mem recv send pktType payloadSize.toNat + peerSum mem recv +
      oddByte mem send payloadSize.toNat +
      (tcpChksum (tcpFields g mem recv send pktType payloadSize) (send + ethSize) + 8).toNat := by
  have heth : ethSize = 14 := rfl
  have hip : ipv4Size = 20 := rfl
  have htcp : tcpSize = 20 := rfl
  have hfour : (List.ofFn myIp).length = 4 := List.length_ofFn
  have hdst : bytes (tcpPktCreate g mem recv send pktType payloadSize) (send + ethSize + 16) 4 =
      bytes mem (recv + ethSize + 12) 4 := by
    rw [← @headersCreate_dstIp g mem recv send
      (UInt16.ofNat (ipv4Size + tcpSize + payloadSize.toNat)) 0x0000 IPV4_TYPE_TCP h]
    apply bytes_congr
    intro x hlo hhi
    rw [tcpPktCreate_outside (.inl (by omega)), tcpFields_outside (.inl (by omega))]
  have hwords : wordSum (tcpPktCreate g mem recv send pktType payloadSize)
      (send + ethSize + ipv4Size) ((tcpSize + payloadSize.toNat) / 2) =
      wordSum (tcpFields g mem recv send pktType payloadSize)
        (send + ethSize + ipv4Size) ((tcpSize + payloadSize.toNat) / 2) +
      (tcpChksum (tcpFields g mem recv send pktType payloadSize) (send + ethSize) + 8).toNat :=
    wordSum_store16 (j := 8) (by omega) word_tcpFields
  have hodd : (if (tcpSize + payloadSize.toNat) % 2 = 1 then
      (tcpPktCreate g mem recv send pktType payloadSize
        (send + ethSize + ipv4Size + (tcpSize + payloadSize.toNat - 1))).toNat * 256 else 0) =
      oddByte mem send payloadSize.toNat := by
    unfold oddByte
    by_cases hn : payloadSize.toNat % 2 = 1
    · have hplace : send + ethSize + ipv4Size + (tcpSize + payloadSize.toNat - 1) =
          send + (ethSize + ipv4Size + tcpSize) + (payloadSize.toNat - 1) := by omega
      rw [if_pos (by omega), if_pos hn, hplace, tcpPktCreate_outside (by omega),
        tcpFields_outside (by omega), headersCreate_outside (by omega)]
    · rw [if_neg (by omega), if_neg hn]
  have hfield : (pairs [0, IPV4_TYPE_TCP, UInt8.ofNat ((tcpSize + payloadSize.toNat) / 256),
      UInt8.ofNat (tcpSize + payloadSize.toNat)]).sum = 6 + (tcpSize + payloadSize.toNat) := by
    rw [pairs, pairs, pairs, List.sum_cons, List.sum_singleton, UInt8.toNat_ofNat',
      UInt8.toNat_ofNat']
    show 0 * 256 + 6 + _ = _
    omega
  rw [checked, sum_pairs_append _ _ (by simp [length_bytes]),
    sum_pairs_append _ _ (by simp [length_bytes]), sum_pairs_append _ _ (by rw [hfour]),
    hdst, ← peerSum, hfield, sum_pairs_myIp, sum_pairs_bytes, hwords, hodd, wordSum_tcpFields h,
    tcpTotal]
  omega

/-- The segment verifies exactly if the words of the peer's address, with a last odd byte of the
payload, add up to 0x0B02, as those of 10.0.1.2 do: one less where the carry at the end carries
again, and one more where the correction by 8 wraps. -/
theorem tcp_checksum_iff (h : Separate recv send) (hlen : tcpSize + payloadSize.toNat < 65536) :
    let n := payloadSize.toNat
    let sum := tcpTotal g mem recv send pktType n
    let folded := sum % 2 ^ 16 + sum / 2 ^ 16
    ones 65535 (pairs (checked (tcpPktCreate g mem recv send pktType payloadSize)
        (send + ethSize) (tcpSize + n))).sum = 0xFFFF ↔
      (peerSum mem recv + oddByte mem send n + if 2 ^ 16 ≤ folded then 1 else 0) % 65535 =
        (0x0B02 + if folded % 2 ^ 16 < 8 then 1 else 0) % 65535 := by
  intro n sum folded
  have hall := sum_checked g mem pktType h hlen
  have hlt : sum < 2 ^ 32 := tcpTotal_lt hlen
  have hpos : 0x0B0A + 0x0B0A ≤ sum := by
    show _ ≤ tcpTotal g mem recv send pktType n
    unfold tcpTotal
    omega
  rw [tcpChksum, tcpSum_tcpFields h hlen, toNat_chksum] at hall
  rw [ones_eq_modulus_iff (by decide)]
  apply received_iff hlt hpos rfl
  rw [hall, ← Nat.add_assoc]

/-- A packet from 10.0.1.`last` at address 0. -/
def packetFrom (last : UInt8) : Mem := patch (fun _ => 0) (ethSize + 12) [10, 0, 1, last]

/-- The variables after the start. -/
def startGlobals : Globals := ⟨fun _ => 0, 0, 0⟩

theorem separate_page : Separate 0 4096 := by
  intro x _ hhi hlo _
  have hend : 0 + (ethSize + 60 + tcpSize) = 94 := rfl
  omega

/-- For the neighbour 10.0.1.2 the answer to a segment without payload verifies. -/
theorem tcp_checksum_neighbour : Separate 0 4096 ∧
    ones 65535 (pairs (checked (tcpPktCreate startGlobals (packetFrom 2) 0 4096 0x12 0)
      (4096 + ethSize) (tcpSize + (0 : UInt32).toNat))).sum = 0xFFFF :=
  ⟨separate_page, (@tcp_checksum_iff startGlobals (packetFrom 2) 0 4096 0x12 0 separate_page
    (by decide)).mpr (by decide +kernel)⟩

/-- For 10.0.1.1 it does not. -/
theorem tcp_checksum_fails : Separate 0 4096 ∧
    ones 65535 (pairs (checked (tcpPktCreate startGlobals (packetFrom 1) 0 4096 0x12 0)
      (4096 + ethSize) (tcpSize + (0 : UInt32).toNat))).sum ≠ 0xFFFF :=
  ⟨separate_page, by decide +kernel⟩

end checksum

/-! ## Sequence numbers -/

section numbers

variable {g : Globals} {mem : Mem} {recv send : Nat} {pktType payloadSize : UInt32}

/-- A mask of `j` bits from bit `k` on. -/
theorem and_mask (n k j : Nat) : n &&& (2 ^ j - 1) * 2 ^ k = n / 2 ^ k % 2 ^ j * 2 ^ k := by
  apply Nat.eq_of_testBit_eq
  intro i
  rw [Nat.testBit_and, ← Nat.shiftLeft_eq, ← Nat.shiftLeft_eq, Nat.testBit_shiftLeft,
    Nat.testBit_shiftLeft, Nat.testBit_two_pow_sub_one, Nat.testBit_mod_two_pow, Nat.testBit_div_two_pow]
  by_cases hi : i ≥ k
  · simp [hi, Bool.and_comm]
  · simp [hi]

theorem toNat_N2H_uint (v : UInt32) : (N2H_uint v).toNat =
    v.toNat % 256 * 16777216 + v.toNat / 256 % 256 * 65536 + v.toNat / 65536 % 256 * 256 +
      v.toNat / 16777216 % 256 := by
  have h0 : v.toNat &&& 255 = v.toNat % 256 := Nat.and_two_pow_sub_one_eq_mod v.toNat 8
  have h1 : v.toNat &&& 65280 = v.toNat / 256 % 256 * 256 := and_mask v.toNat 8 8
  have h2 : v.toNat &&& 16711680 = v.toNat / 65536 % 256 * 65536 := and_mask v.toNat 16 8
  have h3 : v.toNat &&& 4278190080 = v.toNat / 16777216 % 256 * 16777216 := and_mask v.toNat 24 8
  have hlt : ∀ n : Nat, n % 256 < 256 := fun n => Nat.mod_lt n (by decide)
  simp only [N2H_uint, UInt32.toNat_add, UInt32.toNat_shiftLeft, UInt32.toNat_and,
    UInt32.toNat_shiftRight, UInt32.reduceToNat, Nat.reduceMod, Nat.shiftLeft_eq,
    Nat.shiftRight_eq_div_pow, h0, h1, h2, h3]
  have hb0 := hlt v.toNat
  have hb1 := hlt (v.toNat / 256)
  have hb2 := hlt (v.toNat / 65536)
  have hb3 := hlt (v.toNat / 16777216)
  generalize v.toNat % 256 = b0, v.toNat / 256 % 256 = b1, v.toNat / 65536 % 256 = b2,
    v.toNat / 16777216 % 256 = b3 at *
  omega

theorem toNat_H2N_uint (v : UInt32) : (H2N_uint v).toNat =
    v.toNat % 16 * 16777216 + v.toNat / 16 % 16 * 4096 + v.toNat / 256 % 16 := by
  have h0 : v.toNat &&& 15 = v.toNat % 16 := Nat.and_two_pow_sub_one_eq_mod v.toNat 4
  have h1 : v.toNat &&& 240 = v.toNat / 16 % 16 * 16 := and_mask v.toNat 4 4
  have h2 : v.toNat &&& 3840 = v.toNat / 256 % 16 * 256 := and_mask v.toNat 8 4
  have h3 : v.toNat &&& 61440 = v.toNat / 4096 % 16 * 4096 := and_mask v.toNat 12 4
  have hlt : ∀ n : Nat, n % 16 < 16 := fun n => Nat.mod_lt n (by decide)
  simp only [H2N_uint, UInt32.toNat_add, UInt32.toNat_shiftLeft, UInt32.toNat_and,
    UInt32.toNat_shiftRight, UInt32.reduceToNat, Nat.reduceMod, Nat.shiftLeft_eq,
    Nat.shiftRight_eq_div_pow, h0, h1, h2, h3]
  have hb0 := hlt v.toNat
  have hb1 := hlt (v.toNat / 16)
  have hb2 := hlt (v.toNat / 256)
  have hb3 := hlt (v.toNat / 4096)
  generalize v.toNat % 16 = b0, v.toNat / 16 % 16 = b1, v.toNat / 256 % 16 = b2,
    v.toNat / 4096 % 16 = b3 at *
  omega

/-- What becomes of the three nibbles that the masks keep. -/
theorem toNat_N2H_H2N_uint (v : UInt32) : (N2H_uint (H2N_uint v)).toNat =
    v.toNat / 256 % 16 * 16777216 + v.toNat / 16 % 16 * 1048576 + v.toNat % 16 := by
  have hlt : ∀ n : Nat, n % 16 < 16 := fun n => Nat.mod_lt n (by decide)
  have hb0 := hlt v.toNat
  have hb1 := hlt (v.toNat / 16)
  have hb2 := hlt (v.toNat / 256)
  rw [toNat_N2H_uint, toNat_H2N_uint]
  generalize v.toNat % 16 = b0, v.toNat / 16 % 16 = b1, v.toNat / 256 % 16 = b2 at *
  have h0 : (b0 * 16777216 + b1 * 4096 + b2) % 256 = b2 := by omega
  have h1 : (b0 * 16777216 + b1 * 4096 + b2) / 256 % 256 = b1 * 16 := by omega
  have h2 : (b0 * 16777216 + b1 * 4096 + b2) / 65536 % 256 = 0 := by omega
  have h3 : (b0 * 16777216 + b1 * 4096 + b2) / 16777216 % 256 = b0 := by omega
  rw [h0, h1, h2, h3]
  omega

/-- Only numbers of four bits survive the conversion to network order. -/
theorem N2H_H2N_uint_iff (v : UInt32) : N2H_uint (H2N_uint v) = v ↔ v.toNat < 16 := by
  rw [← UInt32.toNat_inj, toNat_N2H_H2N_uint]
  omega

theorem toNat_H2N_N2H_uint (v : UInt32) : (H2N_uint (N2H_uint v)).toNat =
    v.toNat / 16777216 % 16 * 16777216 + v.toNat / 268435456 % 16 * 4096 +
      v.toNat / 65536 % 16 := by
  have hlt : ∀ n : Nat, n % 256 < 256 := fun n => Nat.mod_lt n (by decide)
  have hb2 := hlt (v.toNat / 65536)
  have hb3 := hlt (v.toNat / 16777216)
  have h2 : v.toNat / 65536 % 16 = v.toNat / 65536 % 256 % 16 := by omega
  have h3 : v.toNat / 16777216 % 16 = v.toNat / 16777216 % 256 % 16 := by omega
  have h4 : v.toNat / 268435456 % 16 = v.toNat / 16777216 % 256 / 16 := by omega
  rw [toNat_H2N_uint, toNat_N2H_uint, h2, h3, h4]
  generalize v.toNat % 256 = b0, v.toNat / 256 % 256 = b1, v.toNat / 65536 % 256 = b2,
    v.toNat / 16777216 % 256 = b3 at *
  have hsum : ∀ r, r = b0 * 16777216 + b1 * 65536 + b2 * 256 + b3 →
      r % 16 = b3 % 16 ∧ r / 16 % 16 = b3 / 16 ∧ r / 256 % 16 = b2 % 16 := by
    intro r hr
    have hr16 : r / 16 = (b0 * 65536 + b1 * 256 + b2) * 16 + b3 / 16 := by omega
    have hr256 : r / 256 = b0 * 65536 + b1 * 256 + b2 := by omega
    rw [hr16, hr256]
    omega
  obtain ⟨hr0, hr1, hr2⟩ := hsum _ rfl
  rw [hr0, hr1, hr2]

theorem H2N_N2H_uint_iff (v : UInt32) :
    H2N_uint (N2H_uint v) = v ↔ v.toNat % 16777216 = 0 ∧ v.toNat / 16777216 < 16 := by
  have hv : v.toNat < 4294967296 := v.toNat_lt
  rw [← UInt32.toNat_inj, toNat_H2N_N2H_uint]
  have hq : v.toNat / 268435456 = v.toNat / 16777216 / 16 := by omega
  have hl : v.toNat / 65536 % 16 = v.toNat % 16777216 / 65536 % 16 := by omega
  have hmain : ∀ q low : Nat, q < 256 → low < 16777216 →
      (q % 16 * 16777216 + q / 16 % 16 * 4096 + low / 65536 % 16 = q * 16777216 + low ↔
        low = 0 ∧ q < 16) := by
    clear hq hl hv
    intro q low hq hlow
    constructor
    · intro heq
      have hmid : q / 16 % 16 * 4096 + low / 65536 % 16 < 16777216 := by omega
      have hsmall : q < 16 := by omega
      have hnone : q / 16 = 0 := by omega
      rw [hnone] at heq
      have hzero : low = low / 65536 % 16 := by omega
      omega
    · rintro ⟨rfl, hsmall⟩
      omega
  have hiff := hmain (v.toNat / 16777216) (v.toNat % 16777216) (by omega)
    (Nat.mod_lt _ (by decide))
  rw [Nat.div_add_mod'] at hiff
  rwa [hq, hl]

/-- The number that four bytes in network order stand for. -/
def decode (m : Mem) (a : Nat) : Nat :=
  (m a).toNat * 16777216 + (m (a + 1)).toNat * 65536 + (m (a + 2)).toNat * 256 + (m (a + 3)).toNat

theorem decode_lt (m : Mem) (a : Nat) : decode m a < 2 ^ 32 := by
  have hlt : ∀ x : Nat, (m x).toNat < 256 := fun x => (m x).toNat_lt
  have h0 := hlt a
  have h1 := hlt (a + 1)
  have h2 := hlt (a + 2)
  have h3 := hlt (a + 3)
  unfold decode
  omega

theorem decode_mod (m : Mem) (a : Nat) : decode m a % 256 = (m (a + 3)).toNat := by
  have hlast : (m (a + 3)).toNat < 256 := (m (a + 3)).toNat_lt
  unfold decode
  omega

/-- The sequence numbers that a received segment consumes: one for SYN, the length of the
payload otherwise. -/
def consumed (mem : Mem) (recv : Nat) : Nat :=
  if mem (afterIpv4 mem recv + 13) &&& TCP_CODEBITS_SYN ≠ 0 then
    1
  else
    word mem (recv + ethSize) 1 - (mem (recv + ethSize)).toNat % 16 * 4 -
      (mem (afterIpv4 mem recv + 12)).toNat / 16 * 4

theorem consumed_lt (mem : Mem) (recv : Nat) : consumed mem recv < 65536 := by
  have hword := word_le mem (recv + ethSize) 1
  unfold consumed
  split <;> omega

/-- Four bytes with the low one first, decoded. -/
theorem decode_of_bytes {m : Mem} {a w : Nat} (h : bytes m a 4 = [UInt8.ofNat w,
    UInt8.ofNat (w / 256), UInt8.ofNat (w / 65536), UInt8.ofNat (w / 16777216)]) :
    decode m a = w % 256 * 16777216 + w / 256 % 256 * 65536 + w / 65536 % 256 * 256 +
      w / 16777216 % 256 := by
  have hlist : [m (a + 0), m (a + 1), m (a + 2), m (a + 3)] = _ := h
  injection hlist with h0 htail
  injection htail with h1 htail
  injection htail with h2 htail
  injection htail with h3
  rw [Nat.add_zero] at h0
  rw [decode, h0, h1, h2, h3]
  simp only [UInt8.toNat_ofNat']

/-- The sequence number of the answer is what is left of the local one. -/
theorem decode_seqNum :
    decode (tcpPktCreate g mem recv send pktType payloadSize) (send + ethSize + ipv4Size + 4) =
      (N2H_uint (H2N_uint g.seqNum)).toNat := by
  have hsame : bytes (tcpPktCreate g mem recv send pktType payloadSize)
      (send + ethSize + ipv4Size + 4) 4 =
      bytes (tcpFields g mem recv send pktType payloadSize) (send + ethSize + ipv4Size + 4) 4 := by
    rw [tcpPktCreate, bytes_store16_outside (by omega)]
  rw [decode_of_bytes (hsame.trans tcpFields_seqNum), toNat_N2H_uint]

/-- The acknowledgement number is the received number with one more in its last byte. -/
theorem decode_ackNum (h : Separate recv send) :
    decode (tcpPktCreate g mem recv send pktType payloadSize) (send + ethSize + ipv4Size + 8) +
        (mem (afterIpv4 mem recv + 7)).toNat =
      decode mem (afterIpv4 mem recv + 4) + ((mem (afterIpv4 mem recv + 7)).toNat + 1) % 256 := by
  have hsame : bytes (tcpPktCreate g mem recv send pktType payloadSize)
      (send + ethSize + ipv4Size + 8) 4 =
      bytes (tcpFields g mem recv send pktType payloadSize) (send + ethSize + ipv4Size + 8) 4 := by
    rw [tcpPktCreate, bytes_store16_outside (by omega)]
  have hlt : ∀ x : Nat, (mem x).toNat < 256 := fun x => (mem x).toNat_lt
  have h0 := hlt (afterIpv4 mem recv + 4)
  have h1 := hlt (afterIpv4 mem recv + 5)
  have h2 := hlt (afterIpv4 mem recv + 6)
  have h3 := hlt (afterIpv4 mem recv + 7)
  rw [decode_of_bytes (hsame.trans (tcpFields_ackNum h)), decode, ackField, load32, load16, load16]
  simp only [Nat.add_assoc, Nat.reduceAdd]
  generalize (mem (afterIpv4 mem recv + 4)).toNat = b0, (mem (afterIpv4 mem recv + 5)).toNat = b1,
    (mem (afterIpv4 mem recv + 6)).toNat = b2, (mem (afterIpv4 mem recv + 7)).toNat = b3 at *
  have hsum : ∀ w, w = (b0 + (256 * b1 + (65536 * (b2 + 256 * b3) + 2 ^ 24))) % 2 ^ 32 →
      w % 256 = b0 ∧ w / 256 % 256 = b1 ∧ w / 65536 % 256 = b2 ∧
        w / 16777216 % 256 = (b3 + 1) % 256 := by omega
  obtain ⟨hw0, hw1, hw2, hw3⟩ := hsum _ rfl
  rw [hw0, hw1, hw2, hw3]
  omega

/-- The two conversions are inverse to each other on few numbers only; and the numbers of the
answer are right exactly if the local number is below 16, and the segment consumes one number
without a carry out of the last byte. -/
theorem tcp_numbers_iff (v : UInt32) (g : Globals) (mem : Mem) (recv send : Nat)
    (pktType payloadSize : UInt32) :
    (N2H_uint (H2N_uint v) = v ↔ v.toNat < 16) ∧
    (H2N_uint (N2H_uint v) = v ↔ v.toNat % 16777216 = 0 ∧ v.toNat / 16777216 < 16) ∧
    (Separate recv send → let seg := tcpPktCreate g mem recv send pktType payloadSize
      let tcp := send + ethSize + ipv4Size
      (decode seg (tcp + 4) = g.seqNum.toNat ∧ decode seg (tcp + 8) =
          (decode mem (afterIpv4 mem recv + 4) + consumed mem recv) % 2 ^ 32) ↔
      g.seqNum.toNat < 16 ∧ consumed mem recv = 1 ∧ mem (afterIpv4 mem recv + 7) ≠ 255) := by
  refine ⟨N2H_H2N_uint_iff v, H2N_N2H_uint_iff v, ?_⟩
  intro h seg tcp
  have hseq : decode seg (tcp + 4) = g.seqNum.toNat ↔ g.seqNum.toNat < 16 := by
    rw [decode_seqNum, UInt32.toNat_inj, N2H_H2N_uint_iff]
  have hack := @decode_ackNum g mem recv send pktType payloadSize h
  have hlast : mem (afterIpv4 mem recv + 7) ≠ 255 ↔ (mem (afterIpv4 mem recv + 7)).toNat ≠ 255 :=
    not_congr UInt8.toNat_inj.symm
  have hconsumed : consumed mem recv < 65536 := consumed_lt mem recv
  have hle : (mem (afterIpv4 mem recv + 7)).toNat ≤ decode mem (afterIpv4 mem recv + 4) :=
    Nat.le_add_left _ _
  have hlt : decode mem (afterIpv4 mem recv + 4) < 2 ^ 32 := decode_lt _ _
  have hmod : decode mem (afterIpv4 mem recv + 4) % 256 = (mem (afterIpv4 mem recv + 7)).toNat :=
    decode_mod _ _
  have hbyte : (mem (afterIpv4 mem recv + 7)).toNat < 256 := UInt8.toNat_lt _
  rw [hseq, hlast]
  change decode seg (tcp + 8) + _ = _ at hack
  generalize decode seg (tcp + 8) = ack at hack ⊢
  generalize decode mem (afterIpv4 mem recv + 4) = seqRecv at *
  generalize (mem (afterIpv4 mem recv + 7)).toNat = b at *
  generalize consumed mem recv = l at *
  have hmain : ack = (seqRecv + l) % 2 ^ 32 ↔ l = 1 ∧ b ≠ 255 := by omega
  rw [hmain]

/-- A SYN segment with a sequence number below 256, at address 0. -/
def synPacket (seqRecv : UInt8) : Mem :=
  patch (patch (patch (fun _ => 0) ethSize [0x45]) (ethSize + ipv4Size + 7) [seqRecv])
    (ethSize + ipv4Size + 13) [TCP_CODEBITS_SYN]

/-- The first SYN is answered with the right numbers. -/
theorem tcp_numbers_syn : Separate 0 4096 ∧
    (let seg := tcpPktCreate startGlobals (synPacket 7) 0 4096 0x12 0
     let tcp := 4096 + ethSize + ipv4Size
     decode seg (tcp + 4) = startGlobals.seqNum.toNat ∧
      decode seg (tcp + 8) = (decode (synPacket 7) (afterIpv4 (synPacket 7) 0 + 4) +
        consumed (synPacket 7) 0) % 2 ^ 32) :=
  ⟨separate_page, ((tcp_numbers_iff 0 startGlobals (synPacket 7) 0 4096 0x12 0).2.2
    separate_page).mpr (by decide +kernel)⟩

/-- The number 16 is not sent as 16, and a SYN with number 255 is acknowledged with 0. -/
theorem tcp_numbers_fail :
    N2H_uint (H2N_uint 16) ≠ 16 ∧
    (let seg := tcpPktCreate ⟨fun _ => 0, 0, 16⟩ (synPacket 255) 0 4096 0x12 0
     let tcp := 4096 + ethSize + ipv4Size
     decode seg (tcp + 4) = 0x100000 ∧ decode seg (tcp + 8) = 0 ∧
      decode (synPacket 255) (afterIpv4 (synPacket 255) 0 + 4) = 255 ∧
      consumed (synPacket 255) 0 = 1) := by
  decide +kernel

end numbers

end Net
end Xv6
