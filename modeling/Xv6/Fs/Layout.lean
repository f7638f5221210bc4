import Mathlib.Data.Fin.Basic
import Xv6.Disk.Block
import Xv6.Lib.Patch

/-!
# The on-disk format of the file system (`fs.h`)

How the super block, the free bit map and the inodes lie in disk blocks.  Each part has a
way to read it from the bytes of a block and a way to store it there, as the C code has it
by casting the data of a buffer, and the laws between the two.
-/

namespace Xv6
namespace Fs

/-- Root i-number. -/
def ROOTINO : Nat := 1

/-- Device number of the disk with the root. -/
def ROOTDEV : Nat := 1

/-- Direct blocks of an inode. -/
def NDIRECT : Nat := 12

/-- Block numbers in an indirect block. -/
def NINDIRECT : Nat := 128

/-- Blocks of the largest file. -/
def MAXFILE : Nat := NDIRECT + NINDIRECT

/-- Inodes per block. -/
def IPB : Nat := 8

/-- Bytes of a name in a directory. -/
def DIRSIZ : Nat := 14

/-- Bitmap bits per block. -/
def BPB : Nat := BSIZE * 8

/-! ## The super block -/

/-- `struct superblock`. -/
structure Superblock where
  size : Nat
  nblocks : Nat
  ninodes : Nat
  nlog : Nat
  logstart : Nat
  inodestart : Nat
  bmapstart : Nat
deriving DecidableEq

namespace Superblock

/-- The super block in the data of block 1. -/
def read (b : Block) : Superblock where
  size := b.word 0
  nblocks := b.word 1
  ninodes := b.word 2
  nlog := b.word 3
  logstart := b.word 4
  inodestart := b.word 5
  bmapstart := b.word 6

/-- Block containing inode `i`. -/
def IBLOCK (sb : Superblock) (i : Nat) : Nat := i / IPB + sb.inodestart

/-- Block of free map containing bit for block `b`. -/
def BBLOCK (sb : Superblock) (b : Nat) : Nat := b / BPB + sb.bmapstart

/-- The first data block: the blocks of the free map end here. -/
def datastart (sb : Superblock) : Nat := sb.bmapstart + sb.size / BPB + 1

end Superblock

/-! ## The free bit map -/

/-- `1 << (bi % 8)` -/
def mask (bi : Nat) : UInt8 := 1 <<< UInt8.ofNat (bi % 8)

/-- Store one byte. -/
def setByte (b : Block) (i : Nat) (x : UInt8) : Block :=
  Block.ofFn fun k => if k = i then x else b.byte k

/-- `(bp->data[bi/8] & m) != 0`: is the bit set? -/
def bit (b : Block) (bi : Nat) : Bool := b.byte (bi / 8) &&& mask bi != 0

/-- `bp->data[bi/8] |= m` -/
def setBit (b : Block) (bi : Nat) : Block := setByte b (bi / 8) (b.byte (bi / 8) ||| mask bi)

/-- `bp->data[bi/8] &= ~m` -/
def clearBit (b : Block) (bi : Nat) : Block :=
  setByte b (bi / 8) (b.byte (bi / 8) &&& ~~~mask bi)

theorem byte_setByte {b : Block} {i k : Nat} {x : UInt8} (hk : k < BSIZE) :
    (setByte b i x).byte k = if k = i then x else b.byte k := by
  rw [setByte, Block.byte_ofFn _ hk]

theorem mask_ne_zero (bi : Nat) : mask bi ≠ 0 := by
  have h : ∀ i : Fin 8, (1 : UInt8) <<< UInt8.ofNat i.val ≠ 0 := by decide
  exact h ⟨bi % 8, Nat.mod_lt _ (by omega)⟩

/-- Different bits of one byte have disjoint masks. -/
theorem mask_and_mask {i j : Nat} (h : i % 8 ≠ j % 8) : mask i &&& mask j = 0 := by
  have hall : ∀ i j : Fin 8, i.val ≠ j.val →
      (1 : UInt8) <<< UInt8.ofNat i.val &&& 1 <<< UInt8.ofNat j.val = 0 := by decide
  exact hall ⟨i % 8, Nat.mod_lt _ (by omega)⟩ ⟨j % 8, Nat.mod_lt _ (by omega)⟩ h

theorem or_and_right (x y z : UInt8) : (x ||| y) &&& z = (x &&& z) ||| (y &&& z) :=
  UInt8.toBitVec_inj.mp BitVec.and_or_distrib_right

theorem or_ne_zero {x y : UInt8} (h : y ≠ 0) : x ||| y ≠ 0 := by
  intro h0
  exact h (by simpa using h0 : x = 0 ∧ y = 0).2

/-- Setting a bit sets it and no other bit. -/
theorem bit_setBit {b : Block} {i j : Nat} (hj : j < BPB) :
    bit (setBit b i) j = (decide (j = i) || bit b j) := by
  have hlt : j / 8 < BSIZE := by
    simp only [BPB, BSIZE] at hj ⊢
    omega
  unfold bit setBit
  rw [byte_setByte hlt]
  by_cases hbyte : j / 8 = i / 8
  · rw [if_pos hbyte, or_and_right, hbyte]
    by_cases hji : j = i
    · subst hji
      have hself : mask j &&& mask j ≠ 0 := by
        rw [UInt8.and_self]
        exact mask_ne_zero j
      simpa using or_ne_zero hself
    · rw [mask_and_mask (show i % 8 ≠ j % 8 by omega), UInt8.or_zero]
      simp [hji]
  · have hji : j ≠ i := fun h => hbyte (by rw [h])
    rw [if_neg hbyte]
    simp [hji]

/-! ## Inodes -/

/-- `struct dinode`.  The last of the block addresses is that of the indirect block. -/
@[ext]
structure Dinode where
  type : Int16
  major : Int16
  minor : Int16
  nlink : Int16
  size : Nat
  addrs : Fin (NDIRECT + 1) → Nat

namespace Dinode

/-- Two shorts in one word. -/
def pair (lo hi : Int16) : Nat := lo.toUInt16.toNat + 65536 * hi.toUInt16.toNat

/-- The structure as an array of sixteen words. -/
def words (d : Dinode) (i : Nat) : Nat :=
  if i = 0 then pair d.type d.major
  else if i = 1 then pair d.minor d.nlink
  else if i = 2 then d.size
  else d.addrs (Fin.ofNat (NDIRECT + 1) (i - 3))

/-- The place of direct block `k` among the addresses of an inode. -/
def direct (k : Nat) : Fin (NDIRECT + 1) := Fin.ofNat (NDIRECT + 1) k

/-- The `k`-th inode of a block. -/
def read (b : Block) (k : Nat) : Dinode where
  type := (UInt16.ofNat (b.word (16 * k))).toInt16
  major := (UInt16.ofNat (b.word (16 * k) / 65536)).toInt16
  minor := (UInt16.ofNat (b.word (16 * k + 1))).toInt16
  nlink := (UInt16.ofNat (b.word (16 * k + 1) / 65536)).toInt16
  size := b.word (16 * k + 2)
  addrs := fun j => b.word (16 * k + 3 + j.val)

/-- Store an inode as the `k`-th of a block. -/
def write (b : Block) (k : Nat) (d : Dinode) : Block := Block.ofFn fun o =>
  if o / 64 = k then UInt8.ofNat (d.words (o % 64 / 4) / 256 ^ (o % 4)) else b.byte o

/-- The numbers fit in their fields. -/
structure Fits (d : Dinode) : Prop where
  size : d.size < 2 ^ 32
  addrs : ∀ j, d.addrs j < 2 ^ 32

theorem word_write_self (b : Block) {k i : Nat} (d : Dinode) (hk : k < IPB) (hi : i < 16) :
    (write b k d).word (16 * k + i) = d.words i % 2 ^ 32 := by
  have hbyte : ∀ m, m < 4 → (write b k d).byte (4 * (16 * k + i) + m) =
      UInt8.ofNat (d.words i / 256 ^ m) := by
    intro m hm
    have hlt : 4 * (16 * k + i) + m < BSIZE := by
      simp only [BSIZE, IPB] at hk ⊢
      omega
    rw [write, Block.byte_ofFn _ hlt, if_pos (by omega),
      show (4 * (16 * k + i) + m) % 64 / 4 = i by omega,
      show (4 * (16 * k + i) + m) % 4 = m by omega]
  have h0 := hbyte 0 (by omega)
  have h1 := hbyte 1 (by omega)
  have h2 := hbyte 2 (by omega)
  have h3 := hbyte 3 (by omega)
  simp only [Nat.add_zero, Nat.reducePow, Nat.div_one] at h0 h1 h2 h3
  simp only [Block.word, h0, h1, h2, h3, UInt8.toNat_ofNat']
  omega

theorem word_write_of_ne (b : Block) {k k' i : Nat} (d : Dinode) (hk : k ≠ k') (hi : i < 16) :
    (write b k d).word (16 * k' + i) = b.word (16 * k' + i) := by
  have hbyte : ∀ m, m < 4 → (write b k d).byte (4 * (16 * k' + i) + m) =
      b.byte (4 * (16 * k' + i) + m) := by
    intro m hm
    by_cases hlt : 4 * (16 * k' + i) + m < BSIZE
    · rw [write, Block.byte_ofFn _ hlt, if_neg (by omega)]
    · simp [Block.byte, hlt]
  have h0 := hbyte 0 (by omega)
  have h1 := hbyte 1 (by omega)
  have h2 := hbyte 2 (by omega)
  have h3 := hbyte 3 (by omega)
  simp only [Nat.add_zero] at h0
  simp only [Block.word, h0, h1, h2, h3]

theorem pair_lt (lo hi : Int16) : pair lo hi < 2 ^ 32 := by
  have hlo := lo.toUInt16.toNat_lt
  have hhi := hi.toUInt16.toNat_lt
  unfold pair
  omega

theorem low_pair (lo hi : Int16) : (UInt16.ofNat (pair lo hi)).toInt16 = lo := by
  have h : UInt16.ofNat (pair lo hi) = lo.toUInt16 := by
    apply UInt16.toNat_inj.mp
    have hlo := lo.toUInt16.toNat_lt
    rw [UInt16.toNat_ofNat']
    unfold pair
    omega
  rw [h, Int16.toInt16_toUInt16]

theorem high_pair (lo hi : Int16) : (UInt16.ofNat (pair lo hi / 65536)).toInt16 = hi := by
  have h : pair lo hi / 65536 = hi.toUInt16.toNat := by
    have hlo := lo.toUInt16.toNat_lt
    unfold pair
    omega
  rw [h, UInt16.ofNat_toNat, Int16.toInt16_toUInt16]

theorem words_addr (d : Dinode) (j : Fin (NDIRECT + 1)) : d.words (3 + j.val) = d.addrs j := by
  unfold words
  rw [if_neg (by omega), if_neg (by omega), if_neg (by omega), Nat.add_sub_cancel_left]
  congr 1
  exact Fin.ext (Nat.mod_eq_of_lt j.isLt)

/-- A stored inode is read back. -/
theorem read_write (b : Block) {k : Nat} {d : Dinode} (hk : k < IPB) (hd : d.Fits) :
    read (write b k d) k = d := by
  have hword : ∀ i, i < 16 → d.words i < 2 ^ 32 →
      (write b k d).word (16 * k + i) = d.words i := by
    intro i hi hlt
    rw [word_write_self b d hk hi, Nat.mod_eq_of_lt hlt]
  have h0 : (write b k d).word (16 * k) = pair d.type d.major :=
    hword 0 (by omega) (pair_lt _ _)
  have h1 : (write b k d).word (16 * k + 1) = pair d.minor d.nlink :=
    hword 1 (by omega) (pair_lt _ _)
  ext j
  · show (UInt16.ofNat ((write b k d).word (16 * k))).toInt16 = d.type
    rw [h0, low_pair]
  · show (UInt16.ofNat ((write b k d).word (16 * k) / 65536)).toInt16 = d.major
    rw [h0, high_pair]
  · show (UInt16.ofNat ((write b k d).word (16 * k + 1))).toInt16 = d.minor
    rw [h1, low_pair]
  · show (UInt16.ofNat ((write b k d).word (16 * k + 1) / 65536)).toInt16 = d.nlink
    rw [h1, high_pair]
  · exact hword 2 (by omega) hd.size
  · show (write b k d).word (16 * k + 3 + j.val) = d.addrs j
    have hj : j.val < 13 := j.isLt
    rw [Nat.add_assoc, hword (3 + j.val) (by omega), words_addr]
    rw [words_addr]
    exact hd.addrs j

/-- The other inodes of the block keep their values. -/
theorem read_write_of_ne (b : Block) {k k' : Nat} (d : Dinode) (hk : k ≠ k') :
    read (write b k d) k' = read b k' := by
  have hword : ∀ i, i < 16 → (write b k d).word (16 * k' + i) = b.word (16 * k' + i) :=
    fun i hi => word_write_of_ne b d hk hi
  have h0 : (write b k d).word (16 * k') = b.word (16 * k') := hword 0 (by omega)
  have h1 := hword 1 (by omega)
  ext j
  · show (UInt16.ofNat ((write b k d).word (16 * k'))).toInt16 = _
    rw [h0]
    rfl
  · show (UInt16.ofNat ((write b k d).word (16 * k') / 65536)).toInt16 = _
    rw [h0]
    rfl
  · show (UInt16.ofNat ((write b k d).word (16 * k' + 1))).toInt16 = _
    rw [h1]
    rfl
  · show (UInt16.ofNat ((write b k d).word (16 * k' + 1) / 65536)).toInt16 = _
    rw [h1]
    rfl
  · exact hword 2 (by omega)
  · show (write b k d).word (16 * k' + 3 + j.val) = _
    have hj : j.val < 13 := j.isLt
    rw [Nat.add_assoc, hword (3 + j.val) (by omega), ← Nat.add_assoc]
    rfl

end Dinode

/-! ## File data -/

/-- `memmove(bp->data + o, src, m)` -/
def fill (b : Block) (o : Nat) (src : List UInt8) : Block := Block.ofFn (Lib.patch b.byte o src)

theorem byte_fill {b : Block} {o i : Nat} {src : List UInt8} (hi : i < BSIZE) :
    (fill b o src).byte i = Lib.patch b.byte o src i := by
  rw [fill, Block.byte_ofFn _ hi]

/-- `memmove(dst, bp->data + o, m)` -/
def extract (b : Block) (o m : Nat) : List UInt8 := Lib.firsts (fun i => b.byte (o + i)) m

@[simp] theorem length_extract (b : Block) (o m : Nat) : (extract b o m).length = m := by
  simp [extract]

end Fs
end Xv6
