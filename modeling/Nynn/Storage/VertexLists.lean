import Nynn.Storage.SubgraphStorage

/-!
# The lists of blocks of the vertices

Every vertex of a subgraph has a doubly linked list of blocks, linked through the headers of the
blocks. These are the operations of `SubgraphSetType` on the list of a vertex, on the storage that
`getSubgraph` returns for the vertex.

Source: `nynn_mm_subgraph_set.h`.

## Main definitions

* `Nynn.readAllBlknos`, `Nynn.read`: the list of a vertex and one of its blocks.
* `Nynn.push`, `Nynn.pop`, `Nynn.unshift`, `Nynn.shift`, `Nynn.insertPrev`, `Nynn.insertNext`,
  `Nynn.remove`.
* `Nynn.ListOp`, `Nynn.ListOp.run`: the seven operations as one type.
-/

namespace Nynn

open Program

variable {c : Config} {M : Type}

/-- `VTXNO2SUBGRAPH`, the key of the subgraph of a vertex. -/
def subgraphKey (c : Config) (vtxno : UInt32) : UInt32 :=
  vtxno &&& ~~~(UInt32.ofNat c.vertexIntervalWidth - 1)

section Reading

def getHeadBlkno (vtxno : UInt32) : StorageM c M UInt32 := do
  let vtx ← getVertex vtxno
  let v ← readVertex vtx
  pure v.headBlkno

def getTailBlkno (vtxno : UInt32) : StorageM c M UInt32 := do
  let vtx ← getVertex vtxno
  let v ← readVertex vtx
  pure v.tailBlkno

def getSize (vtxno : UInt32) : StorageM c M UInt32 := do
  let vtx ← getVertex vtxno
  let v ← readVertex vtx
  pure v.size

variable [OverflowTable M]

/-- The loop of `readAllBlknos` from block `no`, for at most `fuel` rounds; nothing when the list
does not end within them. -/
def readBlknosFrom : ℕ → UInt32 → StorageM c M (Option (List UInt32))
  | 0, _ => pure none
  | fuel + 1, no =>
    if no = invalidBlkno then pure (some [])
    else do
      let blk ← readBlock no
      let rest ← readBlknosFrom fuel blk.getNext
      pure (rest.map (no :: ·))

/-- `readAllBlknos`. -/
def readAllBlknos (fuel : ℕ) (vtxno : UInt32) : StorageM c M (Option (List UInt32)) := do
  let headBlkno ← getHeadBlkno vtxno
  readBlknosFrom fuel headBlkno

/-- `read`: the bytes of a block. -/
def read (_vtxno blkno : UInt32) : StorageM c M (Block c.blockSz) := readBlock blkno

end Reading

section Updating

variable [OverflowTable M]

/-- `push`: append a block to the list of a vertex. -/
def push (disk : CreateOutcome) (vtxno : UInt32) (newTailBlk : Block c.blockSz) :
    StorageM c M UInt32 := do
  let vtx ← getVertex vtxno
  modifyVertex vtx fun v => v.resize (v.size + newTailBlk.contentSize)
  let newTailBlkno ← require disk
  if newTailBlkno = invalidBlkno then pure invalidBlkno
  else do
    let newTailBlk := newTailBlk.setSource vtxno
    let v ← readVertex vtx
    let oldTailBlkno := v.tailBlkno
    if oldTailBlkno ≠ invalidBlkno then do
      let oldTailBlk ← getBlock oldTailBlkno
      modifyVertex vtx (Vertex.setTailBlkno · newTailBlkno)
      let newTailBlk := (newTailBlk.setPrev oldTailBlkno).setNext invalidBlkno
      modifyBlock oldTailBlk (Block.setNext · newTailBlkno)
      writeBlock newTailBlkno newTailBlk
    else do
      modifyVertex vtx (Vertex.setHeadBlkno · newTailBlkno)
      modifyVertex vtx (Vertex.setTailBlkno · newTailBlkno)
      let newTailBlk := (newTailBlk.setPrev invalidBlkno).setNext invalidBlkno
      writeBlock newTailBlkno newTailBlk
    pure newTailBlkno

/-- `unshift`: prepend a block to the list of a vertex. -/
def unshift (disk : CreateOutcome) (vtxno : UInt32) (newHeadBlk : Block c.blockSz) :
    StorageM c M UInt32 := do
  let vtx ← getVertex vtxno
  modifyVertex vtx fun v => v.resize (v.size + newHeadBlk.contentSize)
  let newHeadBlkno ← require disk
  if newHeadBlkno = invalidBlkno then pure invalidBlkno
  else do
    let newHeadBlk := newHeadBlk.setSource vtxno
    let v ← readVertex vtx
    let oldHeadBlkno := v.headBlkno
    if oldHeadBlkno ≠ invalidBlkno then do
      let oldHeadBlk ← getBlock oldHeadBlkno
      modifyVertex vtx (Vertex.setHeadBlkno · newHeadBlkno)
      let newHeadBlk := (newHeadBlk.setNext oldHeadBlkno).setPrev invalidBlkno
      modifyBlock oldHeadBlk (Block.setPrev · newHeadBlkno)
      writeBlock newHeadBlkno newHeadBlk
    else do
      modifyVertex vtx (Vertex.setHeadBlkno · newHeadBlkno)
      modifyVertex vtx (Vertex.setTailBlkno · newHeadBlkno)
      let newHeadBlk := (newHeadBlk.setNext invalidBlkno).setPrev invalidBlkno
      writeBlock newHeadBlkno newHeadBlk
    pure newHeadBlkno

/-- `pop`: drop the last block of a vertex. The branch for the only block sets the tail twice and
leaves the head. -/
def pop (vtxno : UInt32) : StorageM c M Unit := do
  let vtx ← getVertex vtxno
  let v ← readVertex vtx
  let oldTailBlkno := v.tailBlkno
  if oldTailBlkno = invalidBlkno then pure ()
  else do
    let oldTailBlk ← getBlock oldTailBlkno
    let blk ← deref oldTailBlk
    let newTailBlkno := blk.getPrev
    modifyVertex vtx fun v => v.resize (v.size - blk.contentSize)
    if newTailBlkno ≠ invalidBlkno then do
      let newTailBlk ← getBlock newTailBlkno
      modifyVertex vtx (Vertex.setTailBlkno · newTailBlkno)
      modifyBlock newTailBlk (Block.setNext · invalidBlkno)
    else do
      modifyVertex vtx (Vertex.setTailBlkno · invalidBlkno)
      modifyVertex vtx (Vertex.setTailBlkno · invalidBlkno)
    release oldTailBlkno

/-- `shift`: drop the first block of a vertex. -/
def shift (vtxno : UInt32) : StorageM c M Unit := do
  let vtx ← getVertex vtxno
  let v ← readVertex vtx
  let oldHeadBlkno := v.headBlkno
  if oldHeadBlkno = invalidBlkno then pure ()
  else do
    let oldHeadBlk ← getBlock oldHeadBlkno
    let blk ← deref oldHeadBlk
    let newHeadBlkno := blk.getNext
    modifyVertex vtx fun v => v.resize (v.size - blk.contentSize)
    if newHeadBlkno ≠ invalidBlkno then do
      let newHeadBlk ← getBlock newHeadBlkno
      modifyVertex vtx (Vertex.setHeadBlkno · newHeadBlkno)
      modifyBlock newHeadBlk (Block.setPrev · invalidBlkno)
    else do
      modifyVertex vtx (Vertex.setHeadBlkno · invalidBlkno)
      modifyVertex vtx (Vertex.setTailBlkno · invalidBlkno)
    release oldHeadBlkno

/-- `insertPrev`: insert a block before block `nextBlkno`. -/
def insertPrev (disk : CreateOutcome) (vtxno nextBlkno : UInt32) (blk : Block c.blockSz) :
    StorageM c M UInt32 := do
  let vtx ← getVertex vtxno
  let v ← readVertex vtx
  let headBlkno := v.headBlkno
  if nextBlkno = headBlkno then unshift disk vtxno blk
  else if nextBlkno = invalidBlkno then push disk vtxno blk
  else do
    let blkno ← require disk
    if blkno = invalidBlkno then pure invalidBlkno
    else do
      modifyVertex vtx fun v => v.resize (v.size + blk.contentSize)
      let blk := blk.setSource vtxno
      let nextBlk ← getBlock nextBlkno
      let b ← deref nextBlk
      let prevBlkno := b.getPrev
      modifyBlock nextBlk (Block.setPrev · blkno)
      let prevBlk ← getBlock prevBlkno
      modifyBlock prevBlk (Block.setNext · blkno)
      let blk := (blk.setNext nextBlkno).setPrev prevBlkno
      writeBlock blkno blk
      pure blkno

/-- `insertNext`: insert a block after block `prevBlkno`. -/
def insertNext (disk : CreateOutcome) (vtxno prevBlkno : UInt32) (blk : Block c.blockSz) :
    StorageM c M UInt32 := do
  let vtx ← getVertex vtxno
  let v ← readVertex vtx
  let tailBlkno := v.tailBlkno
  if prevBlkno = tailBlkno then push disk vtxno blk
  else if prevBlkno = invalidBlkno then unshift disk vtxno blk
  else do
    let blkno ← require disk
    if blkno = invalidBlkno then pure invalidBlkno
    else do
      modifyVertex vtx fun v => v.resize (v.size + blk.contentSize)
      let blk := blk.setSource vtxno
      let prevBlk ← getBlock prevBlkno
      let b ← deref prevBlk
      let nextBlkno := b.getNext
      modifyBlock prevBlk (Block.setNext · blkno)
      let nextBlk ← getBlock nextBlkno
      modifyBlock nextBlk (Block.setPrev · blkno)
      let blk := (blk.setNext nextBlkno).setPrev prevBlkno
      writeBlock blkno blk
      pure blkno

/-- `remove`: take a block out of the list of a vertex. -/
def remove (vtxno blkno : UInt32) : StorageM c M Unit := do
  let vtx ← getVertex vtxno
  let v ← readVertex vtx
  let headBlkno := v.headBlkno
  let tailBlkno := v.tailBlkno
  if headBlkno = invalidBlkno then pure ()
  else if headBlkno = blkno then shift vtxno
  else if tailBlkno = blkno then pop vtxno
  else do
    let blk ← getBlock blkno
    let b ← deref blk
    modifyVertex vtx fun v => v.resize (v.size - b.contentSize)
    let prevBlkno := b.getPrev
    let nextBlkno := b.getNext
    let prevBlk ← getBlock prevBlkno
    modifyBlock prevBlk (Block.setNext · nextBlkno)
    let nextBlk ← getBlock nextBlkno
    modifyBlock nextBlk (Block.setPrev · prevBlkno)
    release blkno

end Updating

/-! ### The operations as one type -/

/-- An update of the list of a vertex. -/
inductive ListOp (z : BlockSz)
  | push (vtxno : UInt32) (blk : Block z)
  | unshift (vtxno : UInt32) (blk : Block z)
  | insertPrev (vtxno nextBlkno : UInt32) (blk : Block z)
  | insertNext (vtxno prevBlkno : UInt32) (blk : Block z)
  | pop (vtxno : UInt32)
  | shift (vtxno : UInt32)
  | remove (vtxno blkno : UInt32)

namespace ListOp

variable {z : BlockSz}

/-- The vertex of an update. -/
def vtxno : ListOp z → UInt32
  | push v _ | unshift v _ | insertPrev v _ _ | insertNext v _ _ | pop v | shift v | remove v _ => v

/-- The block handed to an update that inserts one. -/
def newBlk : ListOp z → Option (Block z)
  | push _ blk | unshift _ blk | insertPrev _ _ blk | insertNext _ _ blk => some blk
  | pop _ | shift _ | remove _ _ => none

/-- Run an update; the result is the block number that an insertion returns. -/
def run [OverflowTable M] (disk : CreateOutcome) :
    ListOp c.blockSz → StorageM c M (Option UInt32)
  | push v blk => do let no ← Nynn.push disk v blk; pure (some no)
  | unshift v blk => do let no ← Nynn.unshift disk v blk; pure (some no)
  | insertPrev v pivot blk => do let no ← Nynn.insertPrev disk v pivot blk; pure (some no)
  | insertNext v pivot blk => do let no ← Nynn.insertNext disk v pivot blk; pure (some no)
  | pop v => do Nynn.pop v; pure none
  | shift v => do Nynn.shift v; pure none
  | remove v no => do Nynn.remove v no; pure none

end ListOp

end Nynn
