import Nynn.Library.LittleEndian

/-!
# Vertices and blocks

The fixed-size records of a subgraph. A block is a string of `BLOCKSZ` bytes that is read in two
ways: as a block of a vertex, with a packed header (source vertex, links to the previous and the
next block, two timestamps) and a content that starts with its 16-bit size; and, while it is free,
as an index block, an array of 32-bit words whose word `0` counts the words in use after it.

Source: `nynn_mm_types.h`.

## Main definitions

* `Nynn.Vertex`, `Nynn.Block`.
* `Nynn.Block.getPrev`, `Nynn.Block.setPrev` and the other header fields.
* `Nynn.Block.SameBody`: two blocks differ in their links only.
* `Nynn.Block.pushIndex`, `Nynn.Block.popIndex`: the index block operations.

## Main results

* The fields of a block do not overlap: a field that is set is read back and the others stay.
-/

namespace Nynn

open LittleEndian

/-- `INVALID_BLOCKNO`, the block number that names no block. -/
def invalidBlkno : UInt32 := 0xFFFFFFFF

/-- `INVALID_VERTEXNO`, the vertex number that names no vertex. -/
def invalidVertexno : UInt32 := 0xFFFFFFFF

/-! ### Vertices -/

/-- A vertex: the ends of its list of blocks and the number of content bytes in it. -/
structure Vertex where
  source : UInt32
  data : UInt32
  size : UInt32
  headBlkno : UInt32
  tailBlkno : UInt32
  deriving DecidableEq, Repr

namespace Vertex

/-- The constructor `Vertex(source)`: no blocks. -/
def new (source : UInt32) : Vertex where
  source := source
  data := 0
  size := 0
  headBlkno := invalidVertexno
  tailBlkno := invalidVertexno

def resize (v : Vertex) (sz : UInt32) : Vertex := { v with size := sz }

def setHeadBlkno (v : Vertex) (blkno : UInt32) : Vertex := { v with headBlkno := blkno }

def setTailBlkno (v : Vertex) (blkno : UInt32) : Vertex := { v with tailBlkno := blkno }

end Vertex

/-! ### Blocks -/

/-- The size of a block, by its logarithm `LOG2_BLOCKSZ`. The header (28 bytes) and the size of the
content (2 bytes) fit into a block. -/
structure BlockSz where
  log2 : ℕ
  header_fits : 5 ≤ log2
  log2_lt : log2 < 32

namespace BlockSz

/-- `BLOCKSZ`. -/
def bytes (z : BlockSz) : ℕ := 2 ^ z.log2

theorem le_bytes (z : BlockSz) : 32 ≤ z.bytes :=
  le_trans (by norm_num) (Nat.pow_le_pow_right (n := 2) (by norm_num) z.header_fits)

theorem bytes_lt (z : BlockSz) : z.bytes < 2 ^ 32 :=
  Nat.pow_lt_pow_right (by norm_num) z.log2_lt

theorem four_dvd_bytes (z : BlockSz) : 4 ∣ z.bytes :=
  pow_dvd_pow 2 (show 2 ≤ z.log2 from le_trans (by norm_num) z.header_fits)

end BlockSz

/-- `BlockType<BLOCKSZ>`: the bytes of a block. -/
abbrev Block (z : BlockSz) := Bytes z.bytes

namespace Block

variable {z : BlockSz}

/-- The 32-bit word at a byte offset. -/
def getWord (b : Block z) (off : ℕ) : UInt32 := UInt32.ofNat (b.getLE off 4)

/-- Write the 32-bit word at a byte offset. -/
def setWord (b : Block z) (off : ℕ) (x : UInt32) : Block z := b.putLE off 4 x.toNat

/-! #### The header and the size of the content -/

def getSource (b : Block z) : UInt32 := b.getWord 0

def getPrev (b : Block z) : UInt32 := b.getWord 4

def getNext (b : Block z) : UInt32 := b.getWord 8

def getInfTimestamp (b : Block z) : Int64 := (UInt64.ofNat (b.getLE 12 8)).toInt64

def getSupTimestamp (b : Block z) : Int64 := (UInt64.ofNat (b.getLE 20 8)).toInt64

def setSource (b : Block z) (vtxno : UInt32) : Block z := b.setWord 0 vtxno

def setPrev (b : Block z) (blkno : UInt32) : Block z := b.setWord 4 blkno

def setNext (b : Block z) (blkno : UInt32) : Block z := b.setWord 8 blkno

/-- `TContent::size`, the 16-bit number of content bytes, just behind the header. -/
def contentSize (b : Block z) : UInt32 := UInt32.ofNat (b.getLE 28 2)

/-! #### Index blocks -/

/-- Word `i` of the array `m_indexes`. -/
def index (b : Block z) (i : UInt32) : UInt32 := b.getWord (4 * i.toNat)

/-- `getMaxNumberOfIndexes`, the number of words after the counter. -/
def getMaxNumberOfIndexes (z : BlockSz) : UInt32 := UInt32.ofNat (z.bytes / 4 - 1)

def initIndexBlock (b : Block z) : Block z := b.setWord 0 0

def isAtBottom (b : Block z) : Bool := b.index 0 == 1

def isAtTop (b : Block z) : Bool := b.index 0 == getMaxNumberOfIndexes z

/-- `m_indexes[++m_indexes[0]]=blkno`, or nothing when that word is behind the block. -/
def pushIndex (b : Block z) (blkno : UInt32) : Option (Block z) :=
  let top := b.index 0 + 1
  if 4 * top.toNat + 4 ≤ z.bytes then
    some ((b.setWord 0 top).setWord (4 * top.toNat) blkno)
  else none

/-- `m_indexes[m_indexes[0]--]`, or nothing when that word is the counter or behind the block. -/
def popIndex (b : Block z) : Option (UInt32 × Block z) :=
  let top := b.index 0
  if top ≠ 0 ∧ 4 * top.toNat + 4 ≤ z.bytes then
    some (b.index top, b.setWord 0 (top - 1))
  else none

/-! #### The fields do not overlap -/

theorem getWord_setWord (b : Block z) {off : ℕ} (x : UInt32) (h : off + 4 ≤ z.bytes) :
    (b.setWord off x).getWord off = x := by
  have hx : x.toNat < 256 ^ 4 := x.toNat_lt
  rw [getWord, setWord, Bytes.getLE_putLE b _ h, Nat.mod_eq_of_lt hx, UInt32.ofNat_toNat]

theorem getWord_setWord_of_disjoint (b : Block z) {off off' : ℕ} (x : UInt32)
    (h : off + 4 ≤ off' ∨ off' + 4 ≤ off) : (b.setWord off x).getWord off' = b.getWord off' := by
  rw [getWord, setWord, Bytes.getLE_putLE_of_disjoint b _ h, getWord]

theorem setWord_apply_of_notMem (b : Block z) {off : ℕ} (x : UInt32) {i : Fin z.bytes}
    (h : i.val < off ∨ off + 4 ≤ i.val) : b.setWord off x i = b i :=
  Bytes.putLE_apply_of_notMem b _ h

private theorem word_fits (off : ℕ) (h : off ≤ 28) : off + 4 ≤ z.bytes :=
  le_trans (by omega) z.le_bytes

@[simp] theorem getSource_setSource (b : Block z) (x : UInt32) : (b.setSource x).getSource = x :=
  b.getWord_setWord x (word_fits 0 (by norm_num))

@[simp] theorem getPrev_setPrev (b : Block z) (x : UInt32) : (b.setPrev x).getPrev = x :=
  b.getWord_setWord x (word_fits 4 (by norm_num))

@[simp] theorem getNext_setNext (b : Block z) (x : UInt32) : (b.setNext x).getNext = x :=
  b.getWord_setWord x (word_fits 8 (by norm_num))

@[simp] theorem getSource_setPrev (b : Block z) (x : UInt32) :
    (b.setPrev x).getSource = b.getSource :=
  b.getWord_setWord_of_disjoint x (by omega)

@[simp] theorem getSource_setNext (b : Block z) (x : UInt32) :
    (b.setNext x).getSource = b.getSource :=
  b.getWord_setWord_of_disjoint x (by omega)

@[simp] theorem getPrev_setSource (b : Block z) (x : UInt32) :
    (b.setSource x).getPrev = b.getPrev :=
  b.getWord_setWord_of_disjoint x (by omega)

@[simp] theorem getPrev_setNext (b : Block z) (x : UInt32) : (b.setNext x).getPrev = b.getPrev :=
  b.getWord_setWord_of_disjoint x (by omega)

@[simp] theorem getNext_setSource (b : Block z) (x : UInt32) :
    (b.setSource x).getNext = b.getNext :=
  b.getWord_setWord_of_disjoint x (by omega)

@[simp] theorem getNext_setPrev (b : Block z) (x : UInt32) : (b.setPrev x).getNext = b.getNext :=
  b.getWord_setWord_of_disjoint x (by omega)

theorem contentSize_setWord (b : Block z) {off : ℕ} (x : UInt32) (h : off + 4 ≤ 28) :
    (b.setWord off x).contentSize = b.contentSize := by
  rw [contentSize, setWord, Bytes.getLE_putLE_of_disjoint b _ (by omega), contentSize]

@[simp] theorem contentSize_setSource (b : Block z) (x : UInt32) :
    (b.setSource x).contentSize = b.contentSize := b.contentSize_setWord x (by omega)

@[simp] theorem contentSize_setPrev (b : Block z) (x : UInt32) :
    (b.setPrev x).contentSize = b.contentSize := b.contentSize_setWord x (by omega)

@[simp] theorem contentSize_setNext (b : Block z) (x : UInt32) :
    (b.setNext x).contentSize = b.contentSize := b.contentSize_setWord x (by omega)

/-- The links are the bytes `4` to `11`. -/
theorem setPrev_apply_of_notMem (b : Block z) (x : UInt32) {i : Fin z.bytes}
    (h : i.val < 4 ∨ 12 ≤ i.val) : b.setPrev x i = b i :=
  b.setWord_apply_of_notMem x (by omega)

theorem setNext_apply_of_notMem (b : Block z) (x : UInt32) {i : Fin z.bytes}
    (h : i.val < 4 ∨ 12 ≤ i.val) : b.setNext x i = b i :=
  b.setWord_apply_of_notMem x (by omega)

theorem setSource_apply_of_notMem (b : Block z) (x : UInt32) {i : Fin z.bytes}
    (h : 4 ≤ i.val) : b.setSource x i = b i :=
  b.setWord_apply_of_notMem x (by omega)

theorem setNext_setPrev (b : Block z) (x y : UInt32) :
    (b.setPrev x).setNext y = (b.setNext y).setPrev x :=
  b.putLE_comm _ _ (by omega)

/-- The blocks agree on everything but the links: on the source, the timestamps and the content. -/
def SameBody (b b' : Block z) : Prop :=
  ∀ i : Fin z.bytes, i.val < 4 ∨ 12 ≤ i.val → b' i = b i

namespace SameBody

variable {b b' b'' : Block z}

theorem refl (b : Block z) : SameBody b b := fun _ _ => rfl

theorem trans (h : SameBody b b') (h' : SameBody b' b'') : SameBody b b'' :=
  fun i hi => (h' i hi).trans (h i hi)

theorem setPrev (b : Block z) (x : UInt32) : SameBody b (b.setPrev x) :=
  fun _ hi => b.setPrev_apply_of_notMem x hi

theorem setNext (b : Block z) (x : UInt32) : SameBody b (b.setNext x) :=
  fun _ hi => b.setNext_apply_of_notMem x hi

theorem getSource (h : SameBody b b') : b'.getSource = b.getSource :=
  congrArg UInt32.ofNat (Bytes.getLE_congr fun i _ _ => h i (by omega))

theorem contentSize (h : SameBody b b') : b'.contentSize = b.contentSize :=
  congrArg UInt32.ofNat (Bytes.getLE_congr fun i _ _ => h i (by omega))

end SameBody

/-- The link that comes first in the header leaves the index counter alone. -/
@[simp] theorem index_zero_setPrev (b : Block z) (x : UInt32) :
    (b.setPrev x).index 0 = b.index 0 := b.getWord_setWord_of_disjoint x (by simp)

@[simp] theorem index_zero_setNext (b : Block z) (x : UInt32) :
    (b.setNext x).index 0 = b.index 0 := b.getWord_setWord_of_disjoint x (by simp)

/-! #### The words of an index block -/

theorem toNat_getMaxNumberOfIndexes (z : BlockSz) :
    (getMaxNumberOfIndexes z).toNat = z.bytes / 4 - 1 := by
  have := z.bytes_lt
  rw [getMaxNumberOfIndexes, UInt32.toNat_ofNat_of_lt']
  change z.bytes / 4 - 1 < 2 ^ 32
  omega

/-- The words up to the greatest index are inside the block. -/
theorem index_fits {i : UInt32} (h : i ≤ getMaxNumberOfIndexes z) :
    4 * i.toNat + 4 ≤ z.bytes := by
  have h' : i.toNat ≤ z.bytes / 4 - 1 := toNat_getMaxNumberOfIndexes z ▸ h
  have := z.le_bytes
  have := z.four_dvd_bytes
  omega

theorem one_lt_getMaxNumberOfIndexes (z : BlockSz) : 1 < getMaxNumberOfIndexes z := by
  have h := toNat_getMaxNumberOfIndexes z
  have := z.le_bytes
  rw [UInt32.lt_iff_toNat_lt, h, show (1 : UInt32).toNat = 1 from rfl]
  omega

theorem index_setWord (b : Block z) {i : UInt32} (x : UInt32)
    (h : i ≤ getMaxNumberOfIndexes z) : (b.setWord (4 * i.toNat) x).index i = x :=
  b.getWord_setWord x (index_fits h)

theorem index_setWord_of_ne (b : Block z) {i j : UInt32} (x : UInt32) (h : i ≠ j) :
    (b.setWord (4 * i.toNat) x).index j = b.index j := by
  have h' : i.toNat ≠ j.toNat := fun e => h (UInt32.toNat_inj.mp e)
  exact b.getWord_setWord_of_disjoint x (by omega)

end Block

end Nynn
