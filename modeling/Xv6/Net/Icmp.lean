import Xv6.Net.Packet

/-!
# Checksums of IPv4 and ICMP

`ipv4_chksum` and `icmp_chksum` carry after every addition, which makes their running sum the
one's-complement sum of the words read so far (`carrySum_eq`).  A checksum field that is zero
while the sum is taken and then holds the complement completes the message (`verifies_store`),
wherever the field is and whatever else was written; later stores elsewhere change nothing.
-/

namespace Xv6
namespace Net

open Lib Transmit

section words

variable {mem mem' : Mem} {a i j k : Nat} {v : UInt16}

theorem toNat_H2N_ushort (v : UInt16) :
    (H2N_ushort v).toNat = v.toNat % 256 * 256 + v.toNat / 256 := by
  have hv : v.toNat < 65536 := v.toNat_lt
  have hand : v.toNat &&& 255 = v.toNat % 256 := Nat.and_two_pow_sub_one_eq_mod v.toNat 8
  simp only [H2N_ushort, UInt16.toNat_add, UInt16.toNat_shiftLeft, UInt16.toNat_and,
    UInt16.toNat_shiftRight, UInt16.reduceToNat, Nat.reduceMod, Nat.shiftLeft_eq,
    Nat.shiftRight_eq_div_pow, hand]
  omega

@[simp] theorem N2H_H2N_ushort (v : UInt16) : N2H_ushort (H2N_ushort v) = v := by
  apply UInt16.toNat_inj.mp
  have hv : v.toNat < 65536 := v.toNat_lt
  show (H2N_ushort (H2N_ushort v)).toNat = _
  rw [toNat_H2N_ushort, toNat_H2N_ushort]
  omega

theorem word_congr (h : ∀ x, a + 2 * i ≤ x → x < a + 2 * i + 2 → mem' x = mem x) :
    word mem' a i = word mem a i := by
  rw [word, word, h _ (by omega) (by omega), h _ (by omega) (by omega)]

theorem word_le (mem : Mem) (a i : Nat) : word mem a i ≤ 65535 := by
  have hhi : (mem (a + 2 * i)).toNat < 256 := UInt8.toNat_lt _
  have hlo : (mem (a + (2 * i + 1))).toNat < 256 := UInt8.toNat_lt _
  unfold word
  omega

/-- A field in network order is the word that it holds. -/
theorem word_store16 : word (store16 mem (a + 2 * j) (H2N_ushort v).toNat) a j = v.toNat := by
  have hv : v.toNat < 65536 := v.toNat_lt
  have hhi : store16 mem (a + 2 * j) (H2N_ushort v).toNat (a + 2 * j) =
      UInt8.ofNat (H2N_ushort v).toNat := by
    simp [store16, patch]
  have hlo : store16 mem (a + 2 * j) (H2N_ushort v).toNat (a + (2 * j + 1)) =
      UInt8.ofNat ((H2N_ushort v).toNat / 256) := by
    simp [store16, patch, ← Nat.add_assoc]
  have hswap : (H2N_ushort v).toNat % 256 = v.toNat / 256 ∧ (H2N_ushort v).toNat / 256 = v.toNat % 256 := by
    rw [toNat_H2N_ushort]
    omega
  rw [word, hhi, hlo, UInt8.toNat_ofNat', UInt8.toNat_ofNat', hswap.1, hswap.2]
  omega

theorem word_store16_zero : word (store16 mem (a + 2 * j) 0) a j = 0 := by
  have hzero : (H2N_ushort 0).toNat = 0 := by decide
  have h := @word_store16 mem a j 0
  rwa [hzero] at h

theorem word_store16_of_ne {w : Nat} (h : i ≠ j) :
    word (store16 mem (a + 2 * j) w) a i = word mem a i := by
  apply word_congr
  intro x hlo hhi
  apply patch_outside
  simp only [List.length_cons, List.length_nil]
  omega

/-- The sum of the first `k` words. -/
def wordSum (mem : Mem) (a k : Nat) : Nat := ((List.range k).map (word mem a)).sum

theorem wordSum_succ (mem : Mem) (a k : Nat) :
    wordSum mem a (k + 1) = wordSum mem a k + word mem a k := by
  rw [wordSum, List.range_succ, List.map_append, List.sum_append, List.map_singleton,
    List.sum_singleton, wordSum]

theorem wordSum_congr (h : ∀ x, a ≤ x → x < a + 2 * k → mem' x = mem x) :
    wordSum mem' a k = wordSum mem a k := by
  induction k with
  | zero => rw [wordSum, wordSum, List.range_zero, List.map_nil, List.map_nil]
  | succ k ih =>
    rw [wordSum_succ, wordSum_succ, ih fun x hlo hhi => h x hlo (by omega),
      word_congr fun x hlo hhi => h x (by omega) (by omega)]

/-- Words are read as bytes two by two. -/
theorem wordSum_eq_pairs (mem : Mem) (a k : Nat) :
    wordSum mem a k = (pairs (bytes mem a (2 * k))).sum := by
  induction k with
  | zero => rfl
  | succ k ih =>
    have hsplit : bytes mem a (2 * (k + 1)) =
        bytes mem a (2 * k) ++ [mem (a + 2 * k), mem (a + (2 * k + 1))] :=
      firsts_add (fun i => mem (a + i)) (2 * k) 2
    have heven : (bytes mem a (2 * k)).length % 2 = 0 := by
      rw [length_bytes]
      omega
    rw [wordSum_succ, hsplit, sum_pairs_append _ _ heven, ih, pairs, pairs, List.sum_singleton,
      word]

/-- Storing a value into a word that is zero adds the value to the sum. -/
theorem wordSum_store16 (hj : j < k) (hzero : word mem a j = 0) :
    wordSum (store16 mem (a + 2 * j) (H2N_ushort v).toNat) a k = wordSum mem a k + v.toNat := by
  induction k with
  | zero => omega
  | succ k ih =>
    rw [wordSum_succ, wordSum_succ]
    by_cases hjk : j = k
    · -- the words before the field are not touched
      subst hjk
      have hbefore : wordSum (store16 mem (a + 2 * j) (H2N_ushort v).toNat) a j =
          wordSum mem a j := by
        apply wordSum_congr
        intro x hlo hhi
        apply patch_outside
        simp only [List.length_cons, List.length_nil]
        omega
      rw [hbefore, word_store16, hzero, Nat.add_zero]
    · rw [ih (by omega), word_store16_of_ne (fun h => hjk h.symm)]
      omega

end words

/-! ## The loops that carry -/

section carry

variable {mem mem' : Mem} {a j k : Nat}

theorem addCarry_eq (mem : Mem) (a s i : Nat) (hs : s ≤ 65535) :
    addCarry mem a s i = ones 65535 (s + word mem a i) := by
  have hw : word mem a i ≤ 65535 := word_le mem a i
  rw [ones_carry hs hw]
  unfold addCarry
  dsimp only
  split_ifs <;> omega

/-- The running sum is the one's-complement sum of the words read so far. -/
theorem carrySum_eq (mem : Mem) (a k : Nat) : carrySum mem a k = ones 65535 (wordSum mem a k) := by
  have h := foldl_ones (fun s i hs => addCarry_eq mem a s i hs) (by decide)
    (List.range k) (s := 0)
  rwa [ones_zero, Nat.zero_add] at h

theorem toNat_complement {s : Nat} (hs : s ≤ 65535) : (complement s).toNat = 65535 - s := by
  rw [complement, UInt16.toNat_ofNat']
  omega

/-- The words from `a` on add up to 0xFFFF. -/
def Verifies (mem : Mem) (a k : Nat) : Prop := ones 65535 (wordSum mem a k) = 65535

/-- The complement of the sum, stored into a word that was zero, completes it. -/
theorem verifies_store (hj : j < k) (hzero : word mem a j = 0) :
    Verifies (store16 mem (a + 2 * j) (H2N_ushort (complement (carrySum mem a k))).toNat) a k := by
  have hle : carrySum mem a k ≤ 65535 := by
    rw [carrySum_eq]
    exact ones_le (by decide)
  rw [Verifies, wordSum_store16 hj hzero, toNat_complement hle, carrySum_eq]
  exact ones_add_complement (by decide)

theorem Verifies.congr (h : Verifies mem a k) (hmem : ∀ x, a ≤ x → x < a + 2 * k → mem' x = mem x) :
    Verifies mem' a k := by
  rwa [Verifies, wordSum_congr hmem]

end carry

/-! ## The headers -/

section headers

variable {g : Globals} {mem : Mem} {recv send : Nat} {totalLen fragment : UInt16} {protocol : UInt8}

/-- IHL is five words. -/
theorem headerFields_ver :
    headerFields g mem recv send totalLen fragment protocol (send + ethSize) = 0x45 := by
  have hip : (List.ofFn myIp).length = 4 := List.length_ofFn
  unfold headerFields
  simp (disch := omega) only [store8_outside, store16_outside, patch_outside, memmove_outside,
    store8_self]

theorem word_headerFields :
    word (headerFields g mem recv send totalLen fragment protocol) (send + ethSize) 5 = 0 := by
  unfold headerFields
  exact @word_store16_zero _ (send + ethSize) 5

/-- The IPv4 header that `headersCreate` writes verifies. -/
theorem verifies_headersCreate :
    Verifies (headersCreate g mem recv send totalLen fragment protocol) (send + ethSize) 10 := by
  have hwords : ipv4Words (headerFields g mem recv send totalLen fragment protocol)
      (send + ethSize) = 10 := by
    rw [ipv4Words, headerFields_ver]
    rfl
  rw [headersCreate, ipv4Chksum, hwords]
  exact verifies_store (j := 5) (by decide) word_headerFields

theorem headersCreate_ver :
    headersCreate g mem recv send totalLen fragment protocol (send + ethSize) = 0x45 := by
  rw [headersCreate, store16_outside (by omega), headerFields_ver]

end headers

/-! ## The echo reply -/

section reply

variable (g : Globals) (mem : Mem) (recv send : Nat)

theorem word_icmpFields : word (icmpFields g mem recv send) (send + ethSize + ipv4Size) 1 = 0 := by
  unfold icmpFields
  exact @word_store16_zero _ (send + ethSize + ipv4Size) 1

/-- The message of the reply verifies. -/
theorem verifies_icmp :
    Verifies (icmpReplyPktCreate g mem recv send) (send + ethSize + ipv4Size) 32 :=
  verifies_store (j := 1) (by decide) (word_icmpFields g mem recv send)

/-- Behind the headers, only the message is written. -/
theorem icmpReplyPktCreate_outside {x : Nat} (hx : x < send + ethSize + ipv4Size) :
    icmpReplyPktCreate g mem recv send x =
      headersCreate g mem recv send (UInt16.ofNat (ipv4Size + icmpSize)) 0x4000 IPV4_TYPE_ICMP x := by
  unfold icmpReplyPktCreate icmpFields
  simp (disch := omega) only [store8_outside, store16_outside, memmove_outside]

/-- Both checksums of the reply to an echo request verify, over the IHL * 4 bytes of the IPv4
header and the 64 bytes of the ICMP message; and for every buffer the two functions return the
complement of the one's-complement sum of the words, with every running sum in 16 bits. -/
theorem icmp_reply_verifies :
    (let reply := icmpReplyPktCreate g mem recv send
     ones 65535 (pairs (bytes reply (send + ethSize)
        ((reply (send + ethSize)).toNat % 16 * 4))).sum = 0xFFFF ∧
      ones 65535 (pairs (bytes reply (send + ethSize + ipv4Size) icmpSize)).sum = 0xFFFF) ∧
    ∀ (buf : Mem) (addr : Nat), (ipv4Chksum buf addr).toNat =
        0xFFFF - ones 65535 (pairs (bytes buf addr ((buf addr).toNat % 16 * 4))).sum ∧
      (icmpChksum buf addr).toNat = 0xFFFF - ones 65535 (pairs (bytes buf addr icmpSize)).sum ∧
      ∀ k, carrySum buf addr k ≤ 0xFFFF := by
  constructor
  · have hsize : ipv4Size = 20 := rfl
    have hheader : Verifies (icmpReplyPktCreate g mem recv send) (send + ethSize) 10 :=
      verifies_headersCreate.congr fun x _ hx => icmpReplyPktCreate_outside g mem recv send (by omega)
    constructor
    · rw [icmpReplyPktCreate_outside g mem recv send (by omega), headersCreate_ver]
      show ones 65535 (pairs (bytes _ _ (2 * 10))).sum = _
      rw [← wordSum_eq_pairs]
      exact hheader
    · show ones 65535 (pairs (bytes _ _ (2 * 32))).sum = _
      rw [← wordSum_eq_pairs]
      exact verifies_icmp g mem recv send
  · intro buf addr
    have hcarry : ∀ k, carrySum buf addr k ≤ 65535 := by
      intro k
      rw [carrySum_eq]
      exact ones_le (by decide)
    have hvalue : ∀ k, (complement (carrySum buf addr k)).toNat =
        65535 - ones 65535 (pairs (bytes buf addr (2 * k))).sum := by
      intro k
      rw [toNat_complement (hcarry k), carrySum_eq, wordSum_eq_pairs]
    refine ⟨?_, hvalue 32, hcarry⟩
    have hlen : (buf addr).toNat % 16 * 4 = 2 * ipv4Words buf addr := by
      unfold ipv4Words
      omega
    rw [hlen]
    exact hvalue _

end reply

end Net
end Xv6
