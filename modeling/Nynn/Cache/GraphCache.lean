import Nynn.Library.LinkedRing
import Nynn.Library.Program
import Nynn.Storage.Types

/-!
# The block cache of an agent

The cache holds copies of blocks under pairs of a vertex number and a block number. The pairs are
distributed over buckets by a hash function; every bucket is a doubly linked list of entries, the
most recently used entry first, and the entries that no bucket uses are in a free list. Keys, links
and blocks are in parallel arrays.

An assertion that fails, an access behind the end of an array and a search that runs in a circle
are faults.

Source: `nynn_mm_graph_cache.h`.

## Main definitions

* `Nynn.CacheConfig`: the template arguments, with any hash function into the buckets.
* `Nynn.GraphCache`: the state of the cache; `Nynn.GraphCache.new`: the constructor.
* `Nynn.GraphCache.find`, `Nynn.GraphCache.popFreeEntry`, `Nynn.GraphCache.moveFront`,
  `Nynn.GraphCache.pushFront`: the steps of a call.
* `Nynn.GraphCache.read`, `Nynn.GraphCache.write`: the calls.
-/

namespace Nynn

open Program

/-- The template arguments of `GraphCacheType` and its hash function. -/
structure CacheConfig where
  cacheBlockNum : UInt32
  cacheHeadNum : UInt32
  monitorNum : UInt32
  /-- The bucket of a vertex number and a block number. -/
  hash : UInt32 → UInt32 → Fin cacheHeadNum.toNat
  one_le_window : 1 ≤ cacheBlockNum / cacheHeadNum
  monitorNum_pos : 0 < monitorNum

namespace CacheConfig

variable (c : CacheConfig)

/-- The indexes of the array `m_LRUTable`. -/
abbrev Head := Fin c.cacheHeadNum.toNat

/-- `LRU_WINDOW_SIZE`. -/
def lruWindowSize : UInt32 := c.cacheBlockNum / c.cacheHeadNum

/-- The monitor of a bucket, `h%MONITOR_NUM`. -/
def monitor (h : c.Head) : Fin c.monitorNum.toNat :=
  ⟨h.val % c.monitorNum.toNat, Nat.mod_lt _ (UInt32.lt_iff_toNat_lt.mp c.monitorNum_pos)⟩

/-- A small configuration for closed examples: one entry, one bucket and one monitor. -/
def small : CacheConfig where
  cacheBlockNum := 1
  cacheHeadNum := 1
  monitorNum := 1
  hash _ _ := ⟨0, by decide⟩
  one_le_window := by decide
  monitorNum_pos := by decide

end CacheConfig

/-- `LRUListEntry`: the key of a cached block and the links in its bucket. -/
structure LRUListEntry where
  source : UInt32
  blkno : UInt32
  next : UInt32
  prev : UInt32

/-- `LRUList`: the two ends of a list and its length. -/
structure LRUList where
  next : UInt32
  prev : UInt32
  num : UInt32

/-- The state of `GraphCacheType`. -/
structure GraphCache (c : CacheConfig) (z : BlockSz) where
  lruTable : c.Head → LRUList
  freeList : LRUList
  entries : UInt32 → LRUListEntry
  data : UInt32 → Block z

/-- The ways in which a call of the cache goes wrong. -/
inductive CacheFault
  /-- An `assert` fails. -/
  | assertion
  /-- An access to `m_entries` or `m_data` at an index that is not below `CACHE_BLOCK_NUM`. -/
  | outOfRange
  /-- The search of a bucket does not end. -/
  | unending

namespace GraphCache

variable {c : CacheConfig} {z : BlockSz}

/-- Memory filled with zeros. -/
def zero (c : CacheConfig) (z : BlockSz) : GraphCache c z where
  lruTable _ := ⟨0, 0, 0⟩
  freeList := ⟨0, 0, 0⟩
  entries _ := ⟨0, 0, 0, 0⟩
  data _ _ := 0

/-! ### Updates of the state -/

/-- Assign to the entry of an index. -/
def setEntry (s : GraphCache c z) (i : UInt32) (e : LRUListEntry) : GraphCache c z :=
  { s with entries := Function.update s.entries i e }

/-- Assign to the head of a bucket. -/
def setHead (s : GraphCache c z) (h : c.Head) (l : LRUList) : GraphCache c z :=
  { s with lruTable := Function.update s.lruTable h l }

def setNext (s : GraphCache c z) (i x : UInt32) : GraphCache c z :=
  s.setEntry i { s.entries i with next := x }

def setPrev (s : GraphCache c z) (i x : UInt32) : GraphCache c z :=
  s.setEntry i { s.entries i with prev := x }

def setKey (s : GraphCache c z) (i vtxno blkno : UInt32) : GraphCache c z :=
  s.setEntry i { s.entries i with source := vtxno, blkno := blkno }

def setHeadNext (s : GraphCache c z) (h : c.Head) (x : UInt32) : GraphCache c z :=
  s.setHead h { s.lruTable h with next := x }

def setHeadPrev (s : GraphCache c z) (h : c.Head) (x : UInt32) : GraphCache c z :=
  s.setHead h { s.lruTable h with prev := x }

def setHeadNum (s : GraphCache c z) (h : c.Head) (n : UInt32) : GraphCache c z :=
  s.setHead h { s.lruTable h with num := n }

def setData (s : GraphCache c z) (i : UInt32) (blk : Block z) : GraphCache c z :=
  { s with data := Function.update s.data i blk }

/-! ### The constructor -/

/-- One round of the loop that chains the entries: entry `k` becomes the first free entry. -/
def initEntry (s : GraphCache c z) (k : UInt32) : GraphCache c z where
  lruTable := s.lruTable
  freeList := { s.freeList with next := k, num := s.freeList.num + 1 }
  entries := Function.update s.entries k
    { source := invalidVertexno, blkno := invalidBlkno, next := s.freeList.next,
      prev := invalidBlkno }
  data := s.data

/-- The first `n` rounds of the loop, over the entries from the last one down. -/
def initEntries (s : GraphCache c z) : ℕ → GraphCache c z
  | 0 => s
  | i + 1 => (initEntries s i).initEntry (c.cacheBlockNum - 1 - UInt32.ofNat i)

/-- The constructor `GraphCacheType()`, in memory with any contents. -/
def new (memory : GraphCache c z) : GraphCache c z :=
  let s : GraphCache c z :=
    { memory with
      data := fun _ _ => 0
      freeList := { next := invalidBlkno, prev := invalidBlkno, num := 0 } }
  { s.initEntries c.cacheBlockNum.toNat with
    lruTable := fun _ => { next := invalidBlkno, prev := invalidBlkno, num := 0 } }

/-! ### Accesses that are checked -/

/-- `assert`. -/
def check (p : Prop) [Decidable p] : Prog (GraphCache c z) CacheFault Unit :=
  if p then pure () else Prog.fail .assertion

/-- `m_entries[i]`. -/
def entry (i : UInt32) : Prog (GraphCache c z) CacheFault LRUListEntry := do
  let s ← Prog.get
  if i < c.cacheBlockNum then pure (s.entries i) else Prog.fail .outOfRange

/-- `m_LRUTable[h]`. -/
def head (h : c.Head) : Prog (GraphCache c z) CacheFault LRUList := do
  let s ← Prog.get
  pure (s.lruTable h)

/-- A change at the index `i` of `m_entries` or `m_data`. -/
def assign (i : UInt32) (f : GraphCache c z → GraphCache c z) :
    Prog (GraphCache c z) CacheFault Unit :=
  if i < c.cacheBlockNum then Prog.modify f else Prog.fail .outOfRange

/-! ### The steps of a call -/

/-- The loop of `find`, with at most `n` rounds left. -/
def findFrom (vtxno blkno : UInt32) : ℕ → UInt32 → Prog (GraphCache c z) CacheFault UInt32
  | 0, _ => Prog.fail .unending
  | n + 1, curr =>
    if curr = invalidBlkno then pure curr
    else do
      let e ← entry curr
      if e.source = vtxno ∧ e.blkno = blkno then pure curr else findFrom vtxno blkno n e.next

/-- `find`: the entry of a key in a bucket, or `INVALID_BLOCKNO`. -/
def find (h : c.Head) (vtxno blkno : UInt32) : Prog (GraphCache c z) CacheFault UInt32 := do
  let l ← head h
  findFrom vtxno blkno (c.cacheBlockNum.toNat + 1) l.next

/-- `popFreeEntry`. -/
def popFreeEntry : Prog (GraphCache c z) CacheFault UInt32 := do
  let s ← Prog.get
  let curr := s.freeList.next
  let e ← entry curr
  Prog.modify fun s =>
    { s with freeList := { s.freeList with next := e.next, num := s.freeList.num - 1 } }
  pure curr

/-- `checkLRUList`, as compiled with `DEBUG`. -/
def checkLRUList (h : c.Head) : Prog (GraphCache c z) CacheFault Unit := do
  let l ← head h
  if l.next ≠ invalidBlkno then do
    let first ← entry l.next
    if first.prev = invalidBlkno then pure ()
    else do
      check (l.prev ≠ invalidBlkno)
      let last ← entry l.prev
      check (last.next = invalidBlkno)
  else do
    check (l.prev ≠ invalidBlkno)
    let last ← entry l.prev
    check (last.next = invalidBlkno)

/-- `move_front`: make the entry `e` of a bucket its first one. -/
def moveFront (h : c.Head) (e : UInt32) : Prog (GraphCache c z) CacheFault Unit := do
  check (e ≠ invalidBlkno)
  let l ← head h
  (if l.next ≠ e then do
    -- take the entry out of its place
    let old ← entry e
    assign old.prev (·.setNext old.prev old.next)
    let old ← entry e
    (if old.next ≠ invalidBlkno then do
      check (l.prev ≠ e)
      assign old.next (·.setPrev old.next old.prev)
    else do
      check (l.prev = e)
      Prog.modify (·.setHeadPrev h old.prev)
      assign old.prev (·.setNext old.prev invalidBlkno))
    -- insert it in front of the first entry
    assign e (·.setPrev e invalidBlkno)
    assign e (·.setNext e l.next)
    assign l.next (·.setPrev l.next e)
    Prog.modify (·.setHeadNext h e)
  else pure ())
  checkLRUList h

/-- `push_front`: insert an entry in front of a bucket. -/
def pushFront (h : c.Head) (e : UInt32) : Prog (GraphCache c z) CacheFault Unit := do
  let l ← head h
  check (l.num < c.lruWindowSize)
  check (e ≠ invalidBlkno)
  assign e (·.setNext e l.next)
  Prog.modify (·.setHeadNext h e)
  let new ← entry e
  (if new.next ≠ invalidBlkno then do
    check (l.prev ≠ invalidBlkno)
    assign new.next (·.setPrev new.next e)
  else do
    check (l.prev = invalidBlkno)
    Prog.modify (·.setHeadPrev h e))
  assign e (·.setPrev e invalidBlkno)
  Prog.modify (·.setHeadNum h (l.num + 1))
  checkLRUList h

/-! ### The calls -/

/-- The two assertions at the start of a call. -/
def checkKey (vtxno blkno : UInt32) : Prog (GraphCache c z) CacheFault Unit := do
  check (vtxno ≠ invalidVertexno)
  check (blkno ≠ invalidBlkno)

/-- The key and the block of an entry are overwritten. -/
def fill (curr vtxno blkno : UInt32) (blk : Block z) : Prog (GraphCache c z) CacheFault Unit := do
  assign curr (·.setKey curr vtxno blkno)
  assign curr (·.setData curr blk)

/-- `memcpy(blk,m_data+curr,sizeof(Block))`. -/
def copy (curr : UInt32) : Prog (GraphCache c z) CacheFault (Block z) := do
  let s ← Prog.get
  if curr < c.cacheBlockNum then pure (s.data curr) else Prog.fail .outOfRange

/-- `read`: the block of a key when it is cached. -/
def read (vtxno blkno : UInt32) : Prog (GraphCache c z) CacheFault (Option (Block z)) := do
  checkKey vtxno blkno
  let h := c.hash vtxno blkno
  let curr ← find h vtxno blkno
  if curr = invalidBlkno then pure none
  else do
    moveFront h curr
    let blk ← copy curr
    pure (some blk)

/-- `write`: cache a block. -/
def write (vtxno blkno : UInt32) (blk : Block z) : Prog (GraphCache c z) CacheFault Unit := do
  checkKey vtxno blkno
  let h := c.hash vtxno blkno
  let curr ← find h vtxno blkno
  if curr = invalidBlkno then do
    let l ← head h
    if l.num < c.lruWindowSize then do
      let curr ← popFreeEntry
      check (curr ≠ invalidBlkno)
      pushFront h curr
      fill curr vtxno blkno blk
    else do
      let curr := l.prev
      moveFront h curr
      fill curr vtxno blkno blk
  else do
    moveFront h curr
    fill curr vtxno blkno blk

end GraphCache

end Nynn
