import Xv6.Net.Arp
import Xv6.Net.Transmit
import Xv6.Lib.OnesSum

/-!
# IPv4, ICMP and TCP packets (`eth.c`, `ipv4.c`, `icmp.c`, `tcp.c`, `http.c`)

The packets are bytes in memory: a received packet is read, and the packet to send is built at
another address, field by field in the order of the source.  Fields of two and four bytes are
stored with the low byte first, so a field in network order holds the value that `H2N_ushort` or
`H2N_uint` gives.
-/

namespace Xv6
namespace Net

open Lib Transmit

/-! ## Byte order -/

def N2H_ushort (value : UInt16) : UInt16 := ((value &&& 0xFF) <<< 8) + (value >>> 8)

def H2N_ushort (value : UInt16) : UInt16 := ((value &&& 0xFF) <<< 8) + (value >>> 8)

def H2N_uint (value : UInt32) : UInt32 :=
  ((value &&& 0xF) <<< 24) + ((value &&& 0xF0) <<< 8) + ((value &&& 0xF00) >>> 8) +
    ((value &&& 0xF000) >>> 24)

def N2H_uint (value : UInt32) : UInt32 :=
  ((value &&& 0xFF) <<< 24) + ((value &&& 0xFF00) <<< 8) + ((value &&& 0xFF0000) >>> 8) +
    ((value &&& 0xFF000000) >>> 24)

/-! ## Headers -/

/-- `sizeof(struct eth_pkt)` -/
def ethSize : Nat := 14

/-- `sizeof(struct ipv4_pkt)` -/
def ipv4Size : Nat := 20

/-- `sizeof(struct icmp_echo_pkt)` -/
def icmpSize : Nat := 64

/-- `sizeof(struct tcp_pkt)` -/
def tcpSize : Nat := 20

def IPV4_TYPE_ICMP : UInt8 := 0x1
def IPV4_TYPE_TCP : UInt8 := 0x6
def ICMP_TYPE_ECHO_REPLY : UInt8 := 0x0
def TCP_CODEBITS_SYN : UInt8 := 0x2

/-- The variables `mac_addr`, `send_id` and `seq_num`. -/
structure Globals where
  macAddr : Mac
  sendId : UInt16
  seqNum : UInt32

/-- `(bin[i*2]<<8)+bin[i*2+1]` -/
def word (mem : Mem) (bin i : Nat) : Nat :=
  (mem (bin + 2 * i)).toNat * 256 + (mem (bin + (2 * i + 1))).toNat

/-- One round of the loops that carry at once. -/
def addCarry (mem : Mem) (bin chkSum i : Nat) : Nat :=
  let chkSum := (chkSum + word mem bin i) % 2 ^ 32
  if chkSum > 0xFFFF then chkSum % 2 ^ 16 + 1 else chkSum

/-- `return ~(chk_sum);` -/
def complement (chkSum : Nat) : UInt16 := UInt16.ofNat (2 ^ 32 - 1 - chkSum)

/-- The running sum of a loop that carries, after `k` rounds. -/
def carrySum (mem : Mem) (bin k : Nat) : Nat := (List.range k).foldl (addCarry mem bin) 0

/-- The number of words of an IPv4 header. -/
def ipv4Words (mem : Mem) (addr : Nat) : Nat := (mem addr).toNat % 16 * 2

def ipv4Chksum (mem : Mem) (addr : Nat) : UInt16 :=
  complement (carrySum mem addr (ipv4Words mem addr))

def icmpChksum (mem : Mem) (addr : Nat) : UInt16 := complement (carrySum mem addr 32)

/-- The fields of the Ethernet and IPv4 headers of an answer to the packet at `recv`, which
`icmp_reply_pkt_create` and `tcp_pkt_create` write alike, with `chk_sum` zero. -/
def headerFields (g : Globals) (mem : Mem) (recv send : Nat) (totalLen fragment : UInt16)
    (protocol : UInt8) : Mem :=
  let ip := send + ethSize
  let mem := memmove mem send (recv + 6) 6
  let mem := patch mem (send + 6) (List.ofFn g.macAddr)
  let mem := store8 mem (send + 12) 0x08
  let mem := store8 mem (send + 13) 0x00
  let mem := store8 mem ip 0x45
  let mem := store8 mem (ip + 1) 0
  let mem := store16 mem (ip + 2) (H2N_ushort totalLen).toNat
  let mem := store16 mem (ip + 4) g.sendId.toNat
  let mem := store16 mem (ip + 6) (H2N_ushort fragment).toNat
  let mem := store8 mem (ip + 8) 255
  let mem := store8 mem (ip + 9) protocol
  let mem := patch mem (ip + 12) (List.ofFn myIp)
  let mem := memmove mem (ip + 16) (recv + ethSize + 12) 4
  store16 mem (ip + 10) 0

/-- The headers with the checksum of the IPv4 header. -/
def headersCreate (g : Globals) (mem : Mem) (recv send : Nat) (totalLen fragment : UInt16)
    (protocol : UInt8) : Mem :=
  let ip := send + ethSize
  let mem := headerFields g mem recv send totalLen fragment protocol
  store16 mem (ip + 10) (H2N_ushort (ipv4Chksum mem ip)).toNat

/-- The header behind the IPv4 header of a received packet. -/
def afterIpv4 (mem : Mem) (recv : Nat) : Nat :=
  recv + ethSize + (mem (recv + ethSize)).toNat % 16 * 4

/-! ## ICMP -/

/-- The fields of the reply to the echo request at `recv`, with `chk_sum` zero. -/
def icmpFields (g : Globals) (mem : Mem) (recv send : Nat) : Mem :=
  let icmpRecv := afterIpv4 mem recv
  let icmp := send + ethSize + ipv4Size
  let mem := headersCreate g mem recv send (UInt16.ofNat (ipv4Size + icmpSize)) 0x4000
    IPV4_TYPE_ICMP
  let mem := store8 mem icmp ICMP_TYPE_ECHO_REPLY
  let mem := store8 mem (icmp + 1) 0
  let mem := store16 mem (icmp + 4) (load16 mem (icmpRecv + 4))
  let mem := store16 mem (icmp + 6) (load16 mem (icmpRecv + 6))
  let mem := memmove mem (icmp + 8) (icmpRecv + 8) 8
  let mem := memmove mem (icmp + 16) (icmpRecv + 16) 48
  store16 mem (icmp + 2) 0

/-- Build the reply to the echo request at `recv` at `send`. -/
def icmpReplyPktCreate (g : Globals) (mem : Mem) (recv send : Nat) : Mem :=
  let icmp := send + ethSize + ipv4Size
  let mem := icmpFields g mem recv send
  store16 mem (icmp + 2) (H2N_ushort (icmpChksum mem icmp)).toNat

/-! ## TCP -/

/-- One round of the loops that do not carry. -/
def addWord (chkSum w : Nat) : Nat := (chkSum + w) % 2 ^ 32

/-- `tcp_dummy.tcp_len`, for the IPv4 header at `ip`. -/
def tcpLen (mem : Mem) (ip : Nat) : UInt16 :=
  H2N_ushort (N2H_ushort (UInt16.ofNat (load16 mem (ip + 2))) - UInt16.ofNat ipv4Size)

/-- The bytes of `tcp_dummy`, for the IPv4 header at `ip`. -/
def tcpDummy (mem : Mem) (ip : Nat) : List UInt8 :=
  let len := (tcpLen mem ip).toNat
  List.ofFn myIp ++ bytes mem (ip + 12) 4 ++
    [0, IPV4_TYPE_TCP, UInt8.ofNat len, UInt8.ofNat (len / 256)]

/-- The sum that `tcp_chksum` accumulates. -/
def tcpSum (mem : Mem) (ip : Nat) : Nat :=
  let dummy := (pairs (tcpDummy mem ip)).foldl addWord 0
  (List.range ((N2H_ushort (tcpLen mem ip)).toNat / 2)).foldl
    (fun chkSum i => addWord chkSum (word mem (ip + ipv4Size) i)) dummy

def tcpChksum (mem : Mem) (ip : Nat) : UInt16 :=
  let chkSum := tcpSum mem ip
  complement ((chkSum + chkSum / 2 ^ 16) % 2 ^ 32)

/-- The fields of the answer to the segment at `recv`, with `chk_sum` zero. -/
def tcpFields (g : Globals) (mem : Mem) (recv send : Nat) (pktType payloadSize : UInt32) : Mem :=
  let tcpRecv := afterIpv4 mem recv
  let ip := send + ethSize
  let tcp := ip + ipv4Size
  let mem := headersCreate g mem recv send
    (UInt16.ofNat (ipv4Size + tcpSize + payloadSize.toNat)) 0x0000 IPV4_TYPE_TCP
  let mem := store16 mem tcp (load16 mem (tcpRecv + 2))
  let mem := store16 mem (tcp + 2) (load16 mem tcpRecv)
  let mem := store32 mem (tcp + 4) (H2N_uint g.seqNum).toNat
  let mem := store32 mem (tcp + 8) ((load32 mem (tcpRecv + 4) + 2 ^ 24) % 2 ^ 32)
  let mem := store8 mem (tcp + 12) 0
  let mem := store8 mem (tcp + 13) 0
  let mem := store8 mem (tcp + 12) 0x50
  let mem := store8 mem (tcp + 13) (UInt8.ofNat pktType.toNat)
  let mem := store16 mem (tcp + 14) (H2N_ushort 14480).toNat
  let mem := store16 mem (tcp + 18) 0
  store16 mem (tcp + 16) 0

/-- Build the answer to the segment at `recv` at `send`, where the payload is already. -/
def tcpPktCreate (g : Globals) (mem : Mem) (recv send : Nat) (pktType payloadSize : UInt32) : Mem :=
  let ip := send + ethSize
  let mem := tcpFields g mem recv send pktType payloadSize
  store16 mem (ip + ipv4Size + 16) (H2N_ushort (tcpChksum mem ip + 8)).toNat

/-! ## Reading what was stored -/

section stores

variable {mem : Mem} {a x : Nat}

theorem store8_outside {v : UInt8} (h : x ≠ a) : store8 mem a v x = mem x := by
  apply patch_outside
  rw [List.length_singleton]
  omega

theorem store16_outside {v : Nat} (h : x < a ∨ a + 2 ≤ x) : store16 mem a v x = mem x := by
  apply patch_outside
  simp only [List.length_cons, List.length_nil]
  omega

theorem store32_outside {v : Nat} (h : x < a ∨ a + 4 ≤ x) : store32 mem a v x = mem x := by
  apply patch_outside
  simp only [List.length_cons, List.length_nil]
  omega

@[simp] theorem store8_self (mem : Mem) (a : Nat) (v : UInt8) : store8 mem a v a = v := by
  simp [store8, patch]

section regions

variable {b n : Nat}

/-- A region that the patch does not meet. -/
theorem bytes_patch_outside {src : List UInt8} (h : b + n ≤ a ∨ a + src.length ≤ b) :
    bytes (patch mem a src) b n = bytes mem b n :=
  bytes_congr fun x hlo hhi => patch_outside (by omega)

theorem bytes_memmove_outside {src k : Nat} (h : b + n ≤ a ∨ a + k ≤ b) :
    bytes (memmove mem a src k) b n = bytes mem b n :=
  bytes_congr fun x hlo hhi => memmove_outside (by omega)

theorem bytes_store8_outside {v : UInt8} (h : b + n ≤ a ∨ a + 1 ≤ b) :
    bytes (store8 mem a v) b n = bytes mem b n := bytes_patch_outside h

theorem bytes_store16_outside {v : Nat} (h : b + n ≤ a ∨ a + 2 ≤ b) :
    bytes (store16 mem a v) b n = bytes mem b n := bytes_patch_outside h

theorem bytes_store32_outside {v : Nat} (h : b + n ≤ a ∨ a + 4 ≤ b) :
    bytes (store32 mem a v) b n = bytes mem b n := bytes_patch_outside h

end regions

theorem bytes_patch_self {src : List UInt8} {n : Nat} (h : src.length = n) :
    bytes (patch mem a src) a n = src := firsts_patch_self h

@[simp] theorem bytes_store8 (mem : Mem) (a : Nat) (v : UInt8) : bytes (store8 mem a v) a 1 = [v] :=
  firsts_patch_self rfl

@[simp] theorem bytes_store16 (mem : Mem) (a v : Nat) :
    bytes (store16 mem a v) a 2 = [UInt8.ofNat v, UInt8.ofNat (v / 256)] := firsts_patch_self rfl

@[simp] theorem bytes_store32 (mem : Mem) (a v : Nat) :
    bytes (store32 mem a v) a 4 = [UInt8.ofNat v, UInt8.ofNat (v / 256), UInt8.ofNat (v / 65536),
      UInt8.ofNat (v / 16777216)] := firsts_patch_self rfl

end stores

end Net
end Xv6
