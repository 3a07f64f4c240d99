import Nynn.Library.Program
import Nynn.Storage.Types
import Mathlib.Data.UInt

/-!
# The storage of a subgraph

A subgraph is kept in mapped files: a superblock with the vertices and the head of the free list,
a volume with the blocks below `OVERFLOW_BLOCKNO_MIN`, and overflow files, each with a group of
`G = OVERFLOW_BLOCKNO_MASK + 1` blocks above it. The free blocks form a stack that is stored in
the free blocks themselves.

The functions of the source are programs on the state of one storage object. They read and write
blocks through the pointers that `getBlock` returns; which mapped group a pointer belongs to and
whether it may still be used is decided by the table of mapped groups, a parameter of the model
(`Nynn.OverflowTable`). Its two instances are `Nynn.AllMapped`, where every group stays mapped, and
the direct-mapped table of the source. Locks are left out: a program is one call that runs alone.

Source: `nynn_mm_subgraph_storage.h`, `MmapFile` in `nynn_mm_common.h`.

## Main definitions

* `Nynn.Config`: the template parameters.
* `Nynn.Storage`: the state, with its `Nynn.SuperBlock`.
* `Nynn.Fault`: the exceptions of the source and the uses of memory it leaves undefined.
* `Nynn.getBlock`, `Nynn.readBlock`, `Nynn.writeBlock`, `Nynn.require`, `Nynn.release`.
* `Nynn.format`: the storage of a new subgraph.
-/

namespace Nynn

open Program

/-! ### Template parameters -/

/-- The template parameters of `SubgraphStorageType`, less the number of monitors. -/
structure Config where
  /-- `LOG2_BLOCKSZ`. -/
  blockSz : BlockSz
  /-- `LOG2_OVERFLOW_BLOCKSZ`. -/
  log2OverflowBlockSz : ℕ
  /-- `OVERFLOW_BLOCKNO_MIN`. -/
  overflowBlknoMin : UInt32
  /-- `BLOCKNO_MAX`. -/
  blknoMax : UInt32
  /-- `LOG2_VERTEX_INTERVAL_WIDTH`. -/
  log2VertexIntervalWidth : ℕ
  /-- `OVERFLOW_NUM`. -/
  overflowNum : ℕ
  log2_le : blockSz.log2 ≤ log2OverflowBlockSz
  log2Overflow_lt : log2OverflowBlockSz < 32
  log2Width_lt : log2VertexIntervalWidth < 32
  overflowNum_pos : 0 < overflowNum
  overflowNum_lt : overflowNum < 2 ^ 32

namespace Config

variable (c : Config)

/-- The number of blocks of a group, `OVERFLOW_BLOCKNO_MASK + 1`. -/
def groupSize : ℕ := 2 ^ (c.log2OverflowBlockSz - c.blockSz.log2)

/-- `OVERFLOW_BLOCKNO_MASK`. -/
def overflowBlknoMask : UInt32 := UInt32.ofNat (c.groupSize - 1)

/-- `VERTEX_INTERVAL_WIDTH`. -/
def vertexIntervalWidth : ℕ := 2 ^ c.log2VertexIntervalWidth

/-- `VOLUME_SIZE`, in 32 bits. -/
def volumeSize : UInt32 := UInt32.ofNat (c.overflowBlknoMin.toNat * c.blockSz.bytes)

theorem groupSize_pos : 0 < c.groupSize := Nat.pos_of_ne_zero (by simp [groupSize])

theorem vertexIntervalWidth_pos : 0 < c.vertexIntervalWidth :=
  Nat.pos_of_ne_zero (by simp [vertexIntervalWidth])

theorem groupSize_lt : c.groupSize < 2 ^ 32 :=
  Nat.pow_lt_pow_right (by norm_num) (lt_of_le_of_lt (Nat.sub_le _ _) c.log2Overflow_lt)

theorem vertexIntervalWidth_lt : c.vertexIntervalWidth < 2 ^ 32 :=
  Nat.pow_lt_pow_right (by norm_num) c.log2Width_lt

theorem toNat_overflowBlknoMask : c.overflowBlknoMask.toNat = c.groupSize - 1 := by
  have := c.groupSize_lt
  rw [overflowBlknoMask, UInt32.toNat_ofNat_of_lt']
  change c.groupSize - 1 < 2 ^ 32
  omega

/-- A small configuration for closed examples: index blocks with seven words, two blocks in the
volume, groups of two blocks and subgraphs of two vertices. -/
def small : Config where
  blockSz := ⟨5, by decide, by decide⟩
  log2OverflowBlockSz := 6
  overflowBlknoMin := 2
  blknoMax := 0xFFFFFFFE
  log2VertexIntervalWidth := 1
  overflowNum := 1
  log2_le := by decide
  log2Overflow_lt := by decide
  log2Width_lt := by decide
  overflowNum_pos := by decide
  overflowNum_lt := by decide

end Config

/-! ### The state -/

/-- `SuperBlock::Data`. -/
structure SuperBlock (c : Config) where
  numOfFreeBlks : UInt32
  headBlkno : UInt32
  supBlkno : UInt32
  vertices : Fin c.vertexIntervalWidth → Vertex

/-- `SuperBlock::SIZE`: three words and the vertices, of five words each, in 32 bits. -/
def SuperBlock.size (c : Config) : UInt32 := UInt32.ofNat (12 + 20 * c.vertexIntervalWidth)

/-- `getMinVtxno`, the source of the first vertex. -/
def SuperBlock.getMinVtxno {c : Config} (sb : SuperBlock c) : UInt32 :=
  (sb.vertices ⟨0, c.vertexIntervalWidth_pos⟩).source

/-- A mapping of an overflow file: its address and the first block number of the group. -/
structure Mapping where
  addr : ℕ
  group : UInt32
  deriving DecidableEq, Repr

/-- A pointer to a block: in the volume, or an offset into a mapping. -/
inductive Ptr
  | volume (blkno : UInt32)
  | overflow (base : Mapping) (offset : UInt32)
  deriving DecidableEq, Repr

/-- The number of the block a pointer points to. -/
def Ptr.blkno : Ptr → UInt32
  | volume blkno => blkno
  | overflow base offset => base.group + offset

/-- How the mapped groups of overflow blocks are remembered. -/
class OverflowTable (M : Type) where
  /-- The mapping remembered for a group, if any. -/
  get : UInt32 → M → Option Mapping × M
  /-- Remember the mapping of a group. -/
  set : UInt32 → Mapping → M → M
  /-- The mapping has not been replaced. -/
  isMapped : M → Mapping → Bool

/-- The table of a store in which every block stays mapped. -/
inductive AllMapped
  | allMapped
  deriving DecidableEq, Repr

instance : OverflowTable AllMapped where
  get group t := (some ⟨0, group⟩, t)
  set _ _ t := t
  isMapped _ _ := true

/-- The state of a storage object and of its files. The bytes of the volume and of the overflow
files are kept by block number; `files` tells which groups have an overflow file, `emptyFiles` which
of these files are without bytes, and `mmaps` counts the mappings tried so far, so that each has an
address of its own. The operating system answers as `reopens` says when an overflow file is opened
and mapped again: the attempt with a number succeeds, or fails with a text. -/
structure Storage (c : Config) (M : Type) where
  superblk : SuperBlock c
  blocks : UInt32 → Block c.blockSz
  files : UInt32 → Bool
  emptyFiles : UInt32 → Bool
  mmaps : ℕ
  overflow : M
  reopens : ℕ → Option String

/-- What ends a call early: an exception with its text, or a use of memory without meaning. -/
inductive Fault
  | exception (what : String)
  | nullPointer
  | stalePointer
  | outOfRange
  deriving DecidableEq, Repr

/-- Programs on a storage object. -/
abbrev StorageM (c : Config) (M : Type) : Type → Type := Prog (Storage c M) Fault

/-- `throwNynnException`. -/
def throwNynnException {c : Config} {M α : Type} (what : String) : StorageM c M α :=
  Prog.fail (.exception what)

/-- What the operating system does when a new overflow file is created and mapped. A failure after
`open` leaves the file behind: without bytes when `lseek` or `write` fails, and with bytes when
`mmap` or `close` fails. -/
inductive CreateOutcome
  | ok
  | openFails (errno : String)
  | writeFails (errno : String)
  | laterCallFails (errno : String)
  deriving DecidableEq, Repr

section Programs

variable {c : Config} {M : Type}

/-! ### Superblock and vertices -/

def modifySuperBlock (f : SuperBlock c → SuperBlock c) : StorageM c M Unit :=
  Prog.modify fun s => { s with superblk := f s.superblk }

def setSupBlkno (blkno : UInt32) : StorageM c M Unit :=
  modifySuperBlock fun sb => { sb with supBlkno := blkno }

def setHeadBlkno (blkno : UInt32) : StorageM c M Unit :=
  modifySuperBlock fun sb => { sb with headBlkno := blkno }

def incNumberOfFreeBlks : StorageM c M Unit :=
  modifySuperBlock fun sb => { sb with numOfFreeBlks := sb.numOfFreeBlks + 1 }

def decNumberOfFreeBlks : StorageM c M Unit :=
  modifySuperBlock fun sb => { sb with numOfFreeBlks := sb.numOfFreeBlks - 1 }

/-- The index of a vertex in `m_vertices`. -/
def vertexSlot (minVtxno vtxno : UInt32) : ℕ := (vtxno - minVtxno).toNat

/-- `getVertex`: a pointer into the array of vertices. -/
def getVertex (vtxno : UInt32) : StorageM c M (Fin c.vertexIntervalWidth) := do
  let s ← Prog.get
  let slot := vertexSlot s.superblk.getMinVtxno vtxno
  if h : slot < c.vertexIntervalWidth then pure ⟨slot, h⟩ else Prog.fail .outOfRange

/-- Read a vertex through its pointer. -/
def readVertex (vtx : Fin c.vertexIntervalWidth) : StorageM c M Vertex := do
  let s ← Prog.get
  pure (s.superblk.vertices vtx)

/-- Change a vertex through its pointer. -/
def modifyVertex (vtx : Fin c.vertexIntervalWidth) (f : Vertex → Vertex) : StorageM c M Unit :=
  modifySuperBlock fun sb =>
    { sb with vertices := Function.update sb.vertices vtx (f (sb.vertices vtx)) }

/-! ### Overflow files -/

/-- `0<=blkno && blkno<OVERFLOW_BLOCKNO_MIN`. -/
def isFlat (c : Config) (blkno : UInt32) : Bool := blkno < c.overflowBlknoMin

def isOverflow (c : Config) (blkno : UInt32) : Bool :=
  c.overflowBlknoMin ≤ blkno && blkno < c.blknoMax

/-- The first block number of the group of a block, `blkno&~OVERFLOW_BLOCKNO_MASK`. -/
def overflowGroup (c : Config) (blkno : UInt32) : UInt32 := blkno &&& ~~~c.overflowBlknoMask

/-- `makeOverflowPath`: the path `overflow/block0x????????.dat` of the group of a block. The
overflow files of one subgraph are told apart by the number of the group in the path, which stands
for the path here. -/
def makeOverflowPath (blkno : UInt32) : StorageM c M UInt32 :=
  if isOverflow c blkno then pure (overflowGroup c blkno)
  else throwNynnException "blkno is invalid or not overflow"

/-- A new address for a mapping. -/
def mmap (group : UInt32) : StorageM c M Mapping := do
  let s ← Prog.get
  Prog.modify fun s => { s with mmaps := s.mmaps + 1 }
  pure ⟨s.mmaps, group⟩

/-- `MmapFile(path)`: open and map an existing overflow file. `mmap` refuses the length of a file
without bytes, and any of the calls may fail. -/
def mmapFile (path : UInt32) : StorageM c M Mapping := do
  let s ← Prog.get
  if s.files path then
    if s.emptyFiles path then throwNynnException "Invalid argument"
    else
      match s.reopens s.mmaps with
      | none => mmap path
      | some errno => do
        Prog.modify fun s => { s with mmaps := s.mmaps + 1 }
        throwNynnException errno
  else throwNynnException "No such file or directory"

/-- `MmapFile(path,OVERFLOW_BLOCKSZ)`: create an overflow file and map it. Its bytes are zeros, as
they are from the start in `Storage.zeros`: no block is written before its file exists. -/
def createMmapFile (disk : CreateOutcome) (path : UInt32) : StorageM c M Mapping := do
  let s ← Prog.get
  if s.files path then throwNynnException "File exists"
  else
    match disk with
    | .openFails errno => throwNynnException errno
    | .writeFails errno => do
      Prog.modify fun s =>
        { s with
          files := Function.update s.files path true
          emptyFiles := Function.update s.emptyFiles path true }
      throwNynnException errno
    | .laterCallFails errno => do
      Prog.modify fun s => { s with files := Function.update s.files path true }
      throwNynnException errno
    | .ok => do
      Prog.modify fun s => { s with files := Function.update s.files path true }
      mmap path

variable [OverflowTable M]

def getOverflowBlock (blkno : UInt32) : StorageM c M (Option Mapping) := do
  let s ← Prog.get
  let r := OverflowTable.get (overflowGroup c blkno) s.overflow
  Prog.modify fun s => { s with overflow := r.2 }
  pure r.1

def setOverflowBlock (blkno : UInt32) (overflowBlk : Mapping) : StorageM c M Unit :=
  Prog.modify fun s =>
    { s with overflow := OverflowTable.set (overflowGroup c blkno) overflowBlk s.overflow }

/-! ### Blocks -/

/-- The mapping of the group of an overflow block, made when it is not in the table. -/
def getMapping (blkno : UInt32) : StorageM c M Mapping := do
  match ← getOverflowBlock blkno with
  | some overflowBlk => pure overflowBlk
  | none =>
    let path ← makeOverflowPath blkno
    let overflowBlk ← mmapFile path
    setOverflowBlock blkno overflowBlk
    pure overflowBlk

/-- `getBlock`: a pointer to a block, or the null pointer. -/
def getBlock (blkno : UInt32) : StorageM c M (Option Ptr) := do
  if isFlat c blkno then pure (some (.volume blkno))
  else
    let s ← Prog.get
    if isOverflow c blkno && blkno < s.superblk.supBlkno then
      let overflowBlk ← getMapping blkno
      pure (some (.overflow overflowBlk (blkno &&& c.overflowBlknoMask)))
    else pure none

/-- Whether a pointer may still be used. -/
def Storage.isUsable (s : Storage c M) : Ptr → Bool
  | .volume _ => true
  | .overflow base _ => OverflowTable.isMapped s.overflow base

/-- Read the block a pointer points to. -/
def deref : Option Ptr → StorageM c M (Block c.blockSz)
  | none => Prog.fail .nullPointer
  | some p => do
    let s ← Prog.get
    if s.isUsable p then pure (s.blocks p.blkno) else Prog.fail .stalePointer

/-- Write the block a pointer points to. -/
def assign (p : Option Ptr) (blk : Block c.blockSz) : StorageM c M Unit :=
  match p with
  | none => Prog.fail .nullPointer
  | some p => do
    let s ← Prog.get
    if s.isUsable p then
      Prog.modify fun s => { s with blocks := Function.update s.blocks p.blkno blk }
    else Prog.fail .stalePointer

/-- Change the block a pointer points to. -/
def modifyBlock (p : Option Ptr) (f : Block c.blockSz → Block c.blockSz) :
    StorageM c M Unit := do
  let blk ← deref p
  assign p (f blk)

/-- `pushIndex` through a pointer. -/
def pushIndex (p : Option Ptr) (blkno : UInt32) : StorageM c M Unit := do
  let blk ← deref p
  match blk.pushIndex blkno with
  | some blk' => assign p blk'
  | none => Prog.fail .outOfRange

/-- `popIndex` through a pointer. -/
def popIndex (p : Option Ptr) : StorageM c M UInt32 := do
  let blk ← deref p
  match blk.popIndex with
  | some (blkno, blk') => do
    assign p blk'
    pure blkno
  | none => Prog.fail .outOfRange

/-- `readBlock`: copy a block out; `readBlockHeader` copies the header of the same block. -/
def readBlock (blkno : UInt32) : StorageM c M (Block c.blockSz) := do
  match ← getBlock blkno with
  | none => throwNynnException "Fail to get specified block(getBlock)!"
  | some srcBlk => deref (some srcBlk)

/-- `writeBlock`: copy a block in. -/
def writeBlock (blkno : UInt32) (blk : Block c.blockSz) : StorageM c M Unit := do
  match ← getBlock blkno with
  | none => throwNynnException "Fail to get specified block(getBlock)!"
  | some destBlk => assign (some destBlk) blk

/-! ### The free list -/

/-- `releaseRaw`: put a block on the free list, as a new index block when the list is empty or its
head block is full. -/
def releaseRaw (blkno : UInt32) : StorageM c M Unit := do
  let s ← Prog.get
  let headBlkno := s.superblk.headBlkno
  match ← getBlock blkno with
  | none => throwNynnException "The released block is NULL!"
  | some blk => do
    let newHead ←
      if headBlkno = invalidBlkno then pure true
      else do
        let headBlk ← getBlock headBlkno
        let b ← deref headBlk
        pure b.isAtTop
    if newHead then do
      modifyBlock (some blk) Block.initIndexBlock
      pushIndex (some blk) headBlkno
      setHeadBlkno blkno
    else do
      let headBlk ← getBlock headBlkno
      pushIndex headBlk blkno
    incNumberOfFreeBlks

def release (blkno : UInt32) : StorageM c M Unit := releaseRaw blkno

/-- `requireAllocated`: take a block off the free list; the head block itself goes last. -/
def requireAllocated : StorageM c M UInt32 := do
  let s ← Prog.get
  let headBlkno := s.superblk.headBlkno
  if headBlkno = invalidBlkno then pure invalidBlkno
  else do
    decNumberOfFreeBlks
    let headBlk ← getBlock headBlkno
    let b ← deref headBlk
    if b.isAtBottom then do
      let headBlk ← getBlock headBlkno
      let next ← popIndex headBlk
      setHeadBlkno next
      pure headBlkno
    else popIndex headBlk

/-- The loop of `requireUnallocated`: put the first `n` blocks of the new group on the free list,
the greatest block number first. -/
def releaseGroup (supBlkno : UInt32) : ℕ → StorageM c M Unit
  | 0 => pure ()
  | n + 1 => do
    releaseRaw (supBlkno + UInt32.ofNat n)
    releaseGroup supBlkno n

/-- `requireUnallocated`: create the next group of overflow blocks and take a block of it. -/
def requireUnallocated (disk : CreateOutcome) : StorageM c M UInt32 := do
  let s ← Prog.get
  let supBlkno := s.superblk.supBlkno
  let path ← makeOverflowPath supBlkno
  let overflowBlk ← createMmapFile disk path
  setOverflowBlock supBlkno overflowBlk
  setSupBlkno (supBlkno + c.overflowBlknoMask + 1)
  releaseGroup supBlkno c.groupSize
  requireAllocated

/-- `require`. -/
def require (disk : CreateOutcome) : StorageM c M UInt32 := do
  let blkno ← requireAllocated
  if blkno = invalidBlkno then requireUnallocated disk else pure blkno

/-! ### Formatting -/

/-- The slot of a vertex is inside the bytes that are mapped of a new superblock. -/
def slotMapped (c : Config) (slot : ℕ) : Prop := 12 + 20 * (slot + 1) ≤ (SuperBlock.size c).toNat

instance (slot : ℕ) : Decidable (slotMapped c slot) := inferInstanceAs (Decidable (_ ≤ _))

/-- The loop of `setMinVtxno`, `for (vtxno=minVtxno;vtxno<minVtxno+VERTEX_INTERVAL_WIDTH;vtxno++)`,
in 32-bit arithmetic; it ends after at most `VERTEX_INTERVAL_WIDTH` rounds, or at a slot that is not
mapped. -/
def initVertices (minVtxno : UInt32) : ℕ → UInt32 → (Fin c.vertexIntervalWidth → Vertex) →
    Option (Fin c.vertexIntervalWidth → Vertex)
  | 0, _, vertices => some vertices
  | fuel + 1, vtxno, vertices =>
    if vtxno < minVtxno + UInt32.ofNat c.vertexIntervalWidth then
      if slotMapped c (vertexSlot minVtxno vtxno) then
        initVertices minVtxno fuel (vtxno + 1) fun i =>
          if i.val = vertexSlot minVtxno vtxno then Vertex.new vtxno else vertices i
      else none
    else some vertices

/-- `setMinVtxno`. -/
def setMinVtxno (minVtxno : UInt32) : StorageM c M Unit := do
  if minVtxno.toNat % c.vertexIntervalWidth ≠ 0 then
    throwNynnException "Minimal vertex no must be multiple of VERTEX_INTERVAL_WIDTH!"
  else do
    let s ← Prog.get
    match initVertices minVtxno c.vertexIntervalWidth minVtxno s.superblk.vertices with
    | some vertices => modifySuperBlock fun sb => { sb with vertices := vertices }
    | none => Prog.fail .outOfRange

/-- The loop of the formatting constructor: put the first `n` blocks of the volume on the free
list, the greatest block number first. A block behind the bytes of the volume is not mapped. -/
def releaseVolume : ℕ → StorageM c M Unit
  | 0 => pure ()
  | n + 1 => do
    if (n + 1) * c.blockSz.bytes ≤ c.volumeSize.toNat then release (UInt32.ofNat n)
    else Prog.fail .outOfRange
    releaseVolume n

/-- The formatting constructor. -/
def formatStorage (minVtxno : UInt32) : StorageM c M Unit := do
  modifySuperBlock fun sb => { sb with numOfFreeBlks := 0 }
  setHeadBlkno invalidBlkno
  setSupBlkno c.overflowBlknoMin
  releaseVolume c.overflowBlknoMin.toNat
  setMinVtxno minVtxno

/-- New superblock and volume files, all zeros, and no overflow file. -/
def Storage.zeros (t : M) : Storage c M where
  superblk :=
    { numOfFreeBlks := 0
      headBlkno := 0
      supBlkno := 0
      vertices := fun _ => ⟨0, 0, 0, 0, 0⟩ }
  blocks := 0
  files := fun _ => false
  emptyFiles := fun _ => false
  mmaps := 0
  overflow := t
  reopens := fun _ => none

/-- `format`, for a directory whose name ends in the number of the subgraph's first vertex; `t` is
the table of an object with no mapped group. A volume without bytes is not created: `lseek` refuses
the place of its last word. -/
def format (t : M) (minVtxno : UInt32) : Except Fault Unit × Storage c M :=
  if c.volumeSize < 4 then (.error (.exception "Invalid argument"), Storage.zeros t)
  else
    match (formatStorage minVtxno).run (Storage.zeros t) with
    | (.error (.exception _), s) =>
      (.error (.exception "Fail to initialize new SubgraphStorage object!"), s)
    | r => r

end Programs

end Nynn
