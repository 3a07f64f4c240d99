import Nynn.Storage.FlatStore

/-!
# The free list is a stack

The free blocks form a chain of index blocks. An index block holds at least one word behind its
counter: word `1` is the number of the next index block, and the words from `2` up are numbers of
free blocks. Read from the top of the head block down, then the head block itself, then the next
index block in the same way, the chain is a stack of block numbers, and the operations on it push
and pop.

## Main definitions

* `Nynn.Block.entries`: the free block numbers in an index block, from the top down.
* `Nynn.FreeStack`: the chain from a block number stores a stack.
* `Nynn.FreeListOf`: the free list of a storage is a stack of distinct blocks.
* `Nynn.SameOutside`: two states differ in the free list only.

## Main results

* `Nynn.releaseRaw_spec`: a release pushes.
* `Nynn.requireAllocated_cons`, `Nynn.require_nil`: a require pops, or makes a group.
-/

namespace Nynn

open Program

variable {c : Config}

/-! ### Index blocks -/

namespace Block

variable {z : BlockSz}

/-- The words `n + 1` down to `2` of an index block. -/
def entriesBelow (b : Block z) : ℕ → List UInt32
  | 0 => []
  | n + 1 => b.index (UInt32.ofNat (n + 2)) :: b.entriesBelow n

/-- The free block numbers in an index block, from the top down to word `2`. -/
def entries (b : Block z) : List UInt32 := b.entriesBelow ((b.index 0).toNat - 1)

theorem entriesBelow_congr {b b' : Block z} {n : ℕ} (hn : n + 1 < 2 ^ 32)
    (h : ∀ i : UInt32, 2 ≤ i.toNat → i.toNat ≤ n + 1 → b'.index i = b.index i) :
    b'.entriesBelow n = b.entriesBelow n := by
  induction n with
  | zero => rfl
  | succ n ih =>
    have htop : (UInt32.ofNat (n + 2)).toNat = n + 2 :=
      UInt32.toNat_ofNat_of_lt' (show n + 2 < 2 ^ 32 by omega)
    rw [entriesBelow, entriesBelow, h _ (by omega) (by omega),
      ih (by omega) fun i h₁ h₂ => h i h₁ (by omega)]

/-- The counter of an index block lies between one and the number of words behind it. -/
structure IsIndexBlock (b : Block z) : Prop where
  one_le : 1 ≤ (b.index 0).toNat
  le_max : b.index 0 ≤ getMaxNumberOfIndexes z

theorem le_max_toNat {b : Block z} (h : b.IsIndexBlock) :
    (b.index 0).toNat ≤ z.bytes / 4 - 1 := toNat_getMaxNumberOfIndexes z ▸ h.le_max

/-- A new index block: its only word is the number of the next index block. -/
theorem initIndexBlock_pushIndex (b : Block z) (next : UInt32) :
    ∃ b', b.initIndexBlock.pushIndex next = some b' ∧ b'.IsIndexBlock ∧ b'.entries = [] ∧
      b'.index 1 = next := by
  have hmax := one_lt_getMaxNumberOfIndexes z
  have hfit : 4 * (1 : UInt32).toNat + 4 ≤ z.bytes := index_fits (UInt32.le_of_lt hmax)
  have hzero : b.initIndexBlock.index 0 = 0 :=
    b.getWord_setWord 0 (le_trans (by norm_num) z.le_bytes)
  have hcount : ((b.initIndexBlock.setWord 0 1).setWord (4 * (1 : UInt32).toNat) next).index 0 =
      1 := by
    rw [index_setWord_of_ne _ _ (by decide)]
    exact getWord_setWord _ 1 (le_trans (by norm_num) z.le_bytes)
  refine ⟨(b.initIndexBlock.setWord 0 1).setWord (4 * (1 : UInt32).toNat) next, ?_, ?_, ?_, ?_⟩
  · rw [pushIndex]
    simp only [hzero]
    exact if_pos hfit
  · exact ⟨by rw [hcount]; decide, by rw [hcount]; exact UInt32.le_of_lt hmax⟩
  · rw [entries, hcount]
    rfl
  · exact index_setWord _ _ (UInt32.le_of_lt hmax)

/-- One more word on an index block that is not full. -/
theorem pushIndex_of_not_isAtTop {b : Block z} (h : b.IsIndexBlock) (htop : b.isAtTop = false)
    (blkno : UInt32) :
    ∃ b', b.pushIndex blkno = some b' ∧ b'.IsIndexBlock ∧ b'.entries = blkno :: b.entries ∧
      b'.index 1 = b.index 1 := by
  have hne : b.index 0 ≠ getMaxNumberOfIndexes z := by simpa [isAtTop] using htop
  have hmaxNat := toNat_getMaxNumberOfIndexes z
  have hbytes := z.bytes_lt
  have hlt : (b.index 0).toNat < (getMaxNumberOfIndexes z).toNat :=
    lt_of_le_of_ne h.le_max fun e => hne (UInt32.toNat_inj.mp e)
  have hone := h.one_le
  obtain ⟨top, htopdef⟩ : ∃ top, top = b.index 0 + 1 := ⟨_, rfl⟩
  have htop : top.toNat = (b.index 0).toNat + 1 := by
    rw [htopdef, UInt32.toNat_add, show (1 : UInt32).toNat = 1 from rfl, Nat.mod_eq_of_lt]
    omega
  have hle : top ≤ getMaxNumberOfIndexes z := by
    rw [UInt32.le_iff_toNat_le]
    omega
  have hfit := index_fits hle
  have hnezero : top ≠ 0 := fun e => by simp [e] at htop
  obtain ⟨b', hb'⟩ : ∃ b', b' = (b.setWord 0 top).setWord (4 * top.toNat) blkno := ⟨_, rfl⟩
  have hword : ∀ i : UInt32, i ≠ 0 → i ≠ top → b'.index i = b.index i := fun i h₀ hi => by
    rw [hb', index_setWord_of_ne _ _ (Ne.symm hi)]
    exact index_setWord_of_ne b (i := 0) top (Ne.symm h₀)
  have hcount : b'.index 0 = top := by
    rw [hb', index_setWord_of_ne _ _ hnezero]
    exact getWord_setWord b top (le_trans (by norm_num) z.le_bytes)
  have hnew : b'.index top = blkno := by
    rw [hb']
    exact index_setWord _ _ hle
  refine ⟨b', ?_, ⟨?_, ?_⟩, ?_, ?_⟩
  · rw [pushIndex, hb']
    simp only [← htopdef, if_pos hfit]
  · rw [hcount, htop]
    omega
  · rw [hcount]
    exact hle
  · obtain ⟨n, hn⟩ : ∃ n, (b.index 0).toNat = n + 1 := ⟨(b.index 0).toNat - 1, by omega⟩
    have hidx : UInt32.ofNat (n + 2) = top := by
      rw [show n + 2 = top.toNat by omega, UInt32.ofNat_toNat]
    rw [entries, entries, hcount, htop, hn, Nat.add_sub_cancel, Nat.add_sub_cancel, entriesBelow,
      hidx, hnew]
    congr 1
    refine entriesBelow_congr (by omega) fun i h₁ h₂ => hword i ?_ ?_
    · rintro rfl
      simp at h₁
    · rintro rfl
      omega
  · refine hword 1 (by decide) fun e => ?_
    rw [← e, show (1 : UInt32).toNat = 1 from rfl] at htop
    omega

/-- The last word of an index block: the number of the next index block. -/
theorem popIndex_of_isAtBottom {b : Block z} (h : b.isAtBottom = true) :
    ∃ b', b.popIndex = some (b.index 1, b') := by
  have hone : b.index 0 = 1 := by simpa [isAtBottom] using h
  have hfit : 4 * (1 : UInt32).toNat + 4 ≤ z.bytes :=
    index_fits (UInt32.le_of_lt (one_lt_getMaxNumberOfIndexes z))
  refine ⟨b.setWord 0 (1 - 1), ?_⟩
  rw [popIndex]
  simp only [hone]
  rw [if_pos ⟨by decide, hfit⟩]

theorem entries_of_isAtBottom {b : Block z} (h : b.isAtBottom = true) : b.entries = [] := by
  have hone : b.index 0 = 1 := by simpa [isAtBottom] using h
  rw [entries, hone]
  rfl

/-- A word above the last one: the free block number on top. -/
theorem popIndex_of_not_isAtBottom {b : Block z} (h : b.IsIndexBlock)
    (hbot : b.isAtBottom = false) :
    ∃ blkno b', b.popIndex = some (blkno, b') ∧ b'.IsIndexBlock ∧
      b.entries = blkno :: b'.entries ∧ b'.index 1 = b.index 1 := by
  have hne : b.index 0 ≠ 1 := by simpa [isAtBottom] using hbot
  have hone := h.one_le
  have htwo : 2 ≤ (b.index 0).toNat := by
    have : (b.index 0).toNat ≠ 1 := fun e => hne (UInt32.toNat_inj.mp e)
    omega
  have hfit := index_fits h.le_max
  have hbytes := z.bytes_lt
  have hpred : (b.index 0 - 1).toNat = (b.index 0).toNat - 1 := by
    rw [UInt32.toNat_sub_of_le]
    · rfl
    · rw [UInt32.le_iff_toNat_le]
      exact hone
  have hcount : (b.setWord 0 (b.index 0 - 1)).index 0 = b.index 0 - 1 :=
    getWord_setWord b _ (le_trans (by norm_num) z.le_bytes)
  have hword : ∀ i : UInt32, i ≠ 0 → (b.setWord 0 (b.index 0 - 1)).index i = b.index i :=
    fun i h₀ => index_setWord_of_ne b (i := 0) _ (Ne.symm h₀)
  refine ⟨b.index (b.index 0), b.setWord 0 (b.index 0 - 1), ?_, ?_, ?_, hword 1 (by decide)⟩
  · rw [popIndex]
    refine if_pos ⟨fun e => ?_, hfit⟩
    rw [e] at htwo
    simp at htwo
  · refine ⟨by rw [hcount]; omega, ?_⟩
    rw [hcount, UInt32.le_iff_toNat_le, hpred]
    have := h.le_max
    rw [UInt32.le_iff_toNat_le] at this
    omega
  · obtain ⟨n, hn⟩ : ∃ n, (b.index 0).toNat = n + 2 := ⟨(b.index 0).toNat - 2, by omega⟩
    have hidx : UInt32.ofNat (n + 2) = b.index 0 := by
      rw [← hn, UInt32.ofNat_toNat]
    have hlt := (b.index 0).toNat_lt
    rw [entries, entries, hcount, hpred, hn, show n + 2 - 1 = n + 1 from rfl,
      show n + 1 - 1 = n from rfl, entriesBelow, hidx]
    congr 1
    refine (entriesBelow_congr (by omega) fun i h₁ _ => hword i ?_).symm
    rintro rfl
    simp at h₁

end Block

/-! ### The chain of index blocks -/

/-- From the block `headBlkno` on, the chain of index blocks stores the stack in the last
argument. -/
inductive FreeStack {z : BlockSz} (blocks : UInt32 → Block z) : UInt32 → List UInt32 → Prop
  | empty : FreeStack blocks invalidBlkno []
  | index {headBlkno : UInt32} {rest : List UInt32} (hne : headBlkno ≠ invalidBlkno)
      (hindex : (blocks headBlkno).IsIndexBlock)
      (hrest : FreeStack blocks ((blocks headBlkno).index 1) rest) :
      FreeStack blocks headBlkno ((blocks headBlkno).entries ++ headBlkno :: rest)

namespace FreeStack

variable {z : BlockSz} {blocks blocks' : UInt32 → Block z} {headBlkno : UInt32}
  {stack : List UInt32}

/-- The chain only depends on the blocks of the stack. -/
theorem congr (h : FreeStack blocks headBlkno stack)
    (hb : ∀ b ∈ stack, blocks' b = blocks b) : FreeStack blocks' headBlkno stack := by
  induction h with
  | empty => exact .empty
  | @index headBlkno rest hne hindex hrest ih =>
    have hhead : blocks' headBlkno = blocks headBlkno := hb headBlkno (by simp)
    have ih := ih fun b hmem => hb b (by simp [hmem])
    rw [← hhead] at hindex ih ⊢
    exact .index hne hindex ih

theorem eq_nil_iff (h : FreeStack blocks headBlkno stack) :
    stack = [] ↔ headBlkno = invalidBlkno := by
  cases h with
  | empty => simp
  | index hne => simpa using hne

theorem head_mem (h : FreeStack blocks headBlkno stack) (hne : headBlkno ≠ invalidBlkno) :
    headBlkno ∈ stack := by
  cases h with
  | empty => exact absurd rfl hne
  | index => simp

/-- The first index block of a chain. -/
theorem exists_rest (h : FreeStack blocks headBlkno stack) (hne : headBlkno ≠ invalidBlkno) :
    ∃ rest, stack = (blocks headBlkno).entries ++ headBlkno :: rest ∧
      (blocks headBlkno).IsIndexBlock ∧ FreeStack blocks ((blocks headBlkno).index 1) rest := by
  cases h with
  | empty => exact absurd rfl hne
  | index _ hindex hrest => exact ⟨_, rfl, hindex, hrest⟩

/-- A chain stores one stack only. -/
theorem unique {stack' : List UInt32} (h : FreeStack blocks headBlkno stack)
    (h' : FreeStack blocks headBlkno stack') : stack = stack' := by
  induction h generalizing stack' with
  | empty =>
    cases h' with
    | empty => rfl
    | index hne => exact absurd rfl hne
  | index hne _ _ ih =>
    cases h' with
    | empty => exact absurd rfl hne
    | index _ _ hrest => rw [ih hrest]

end FreeStack

/-! ### The free list of a storage -/

/-- The free list of a storage is the stack `stack` of distinct blocks, and is counted. -/
structure FreeListOf (s : FlatStorage c) (stack : List UInt32) : Prop where
  chain : FreeStack s.blocks s.superblk.headBlkno stack
  nodup : stack.Nodup
  isBlock : ∀ b ∈ stack, s.isBlock b = true
  count : s.superblk.numOfFreeBlks = UInt32.ofNat stack.length

/-- The states agree on everything but the free list and the bytes of the blocks in `stack`. -/
structure SameOutside (s s' : FlatStorage c) (stack : List UInt32) : Prop where
  vertices : s'.superblk.vertices = s.superblk.vertices
  supBlkno : s'.superblk.supBlkno = s.superblk.supBlkno
  files : s'.files = s.files
  blocks : ∀ b, b ∉ stack → s'.blocks b = s.blocks b

namespace SameOutside

variable {s s' s'' : FlatStorage c} {stack stack' : List UInt32}

theorem refl (s : FlatStorage c) (stack : List UInt32) : SameOutside s s stack :=
  ⟨rfl, rfl, rfl, fun _ _ => rfl⟩

theorem trans (h : SameOutside s s' stack) (h' : SameOutside s' s'' stack) :
    SameOutside s s'' stack :=
  ⟨h'.vertices.trans h.vertices, h'.supBlkno.trans h.supBlkno, h'.files.trans h.files,
    fun b hb => (h'.blocks b hb).trans (h.blocks b hb)⟩

theorem mono (h : SameOutside s s' stack) (hsub : ∀ b ∈ stack, b ∈ stack') :
    SameOutside s s' stack' :=
  ⟨h.vertices, h.supBlkno, h.files, fun b hb => h.blocks b fun hmem => hb (hsub b hmem)⟩

theorem isBlock_eq (h : SameOutside s s' stack) : s'.isBlock = s.isBlock := by
  funext b
  rw [Storage.isBlock, Storage.isBlock, h.supBlkno]

end SameOutside

namespace FreeListOf

variable {s s' : FlatStorage c} {stack : List UInt32}

theorem nil_iff (h : FreeListOf s stack) :
    stack = [] ↔ s.superblk.headBlkno = invalidBlkno := h.chain.eq_nil_iff

theorem isBlock_head (h : FreeListOf s stack) (hne : s.superblk.headBlkno ≠ invalidBlkno) :
    s.isBlock s.superblk.headBlkno = true := h.isBlock _ (h.chain.head_mem hne)

theorem unique {stack' : List UInt32} (h : FreeListOf s stack) (h' : FreeListOf s stack') :
    stack = stack' := h.chain.unique h'.chain

/-- The free list survives a change that leaves its blocks and its superblock fields alone. -/
theorem congr (h : FreeListOf s stack)
    (hhead : s'.superblk.headBlkno = s.superblk.headBlkno)
    (hcount : s'.superblk.numOfFreeBlks = s.superblk.numOfFreeBlks)
    (hsup : s'.superblk.supBlkno = s.superblk.supBlkno)
    (hblocks : ∀ b ∈ stack, s'.blocks b = s.blocks b) : FreeListOf s' stack where
  chain := hhead ▸ h.chain.congr hblocks
  nodup := h.nodup
  isBlock b hb := by
    rw [Storage.isBlock, hsup]
    exact h.isBlock b hb
  count := hcount.trans h.count

theorem setVertex (h : FreeListOf s stack) (vtx : Fin c.vertexIntervalWidth) (v : Vertex) :
    FreeListOf (s.setVertex vtx v) stack :=
  h.congr rfl rfl rfl fun _ _ => rfl

theorem setBlock (h : FreeListOf s stack) {blkno : UInt32} (hb : blkno ∉ stack)
    (blk : Block c.blockSz) : FreeListOf (s.setBlock blkno blk) stack :=
  h.congr rfl rfl rfl fun b hmem =>
    Function.update_of_ne (fun e : b = blkno => hb (e ▸ hmem)) _ _

end FreeListOf

/-! ### The state after one operation on the free list -/

/-- The state after a write of the head and of the length of the free list. -/
def Storage.setFreeList {M : Type} (s : Storage c M) (headBlkno numOfFreeBlks : UInt32) :
    Storage c M :=
  { s with
    superblk := { s.superblk with headBlkno := headBlkno, numOfFreeBlks := numOfFreeBlks } }

@[simp] theorem blocks_setFreeList {M : Type} (s : Storage c M)
    (headBlkno numOfFreeBlks : UInt32) :
    (s.setFreeList headBlkno numOfFreeBlks).blocks = s.blocks := rfl

@[simp] theorem isBlock_setFreeList {M : Type} (s : Storage c M)
    (headBlkno numOfFreeBlks : UInt32) :
    (s.setFreeList headBlkno numOfFreeBlks).isBlock = s.isBlock := rfl

private theorem run_decNumber {M : Type} (s : Storage c M) :
    (decNumberOfFreeBlks : StorageM c M Unit).run s =
      (.ok (), s.setFreeList s.superblk.headBlkno (s.superblk.numOfFreeBlks - 1)) := rfl

theorem setBlock_setBlock {M : Type} (s : Storage c M) (blkno : UInt32)
    (blk blk' : Block c.blockSz) :
    (s.setBlock blkno blk).setBlock blkno blk' = s.setBlock blkno blk' := by
  simp [Storage.setBlock]

theorem sameOutside_setFreeList (s : FlatStorage c) {blkno : UInt32} {stack : List UInt32}
    (hmem : blkno ∈ stack) (blk : Block c.blockSz) (headBlkno numOfFreeBlks : UInt32) :
    SameOutside s ((s.setBlock blkno blk).setFreeList headBlkno numOfFreeBlks) stack :=
  ⟨rfl, rfl, rfl, fun b hb => Function.update_of_ne (fun e : b = blkno => hb (e ▸ hmem)) _ _⟩

/-- A write to an index block in front of a chain. -/
theorem FreeStack.setBlock {z : BlockSz} {blocks : UInt32 → Block z} {headBlkno : UInt32}
    {rest : List UInt32} {blk : Block z} (hne : headBlkno ≠ invalidBlkno)
    (hblk : blk.IsIndexBlock) (hrest : FreeStack blocks (blk.index 1) rest)
    (hnot : headBlkno ∉ rest) :
    FreeStack (Function.update blocks headBlkno blk) headBlkno
      (blk.entries ++ headBlkno :: rest) := by
  have hself : Function.update blocks headBlkno blk headBlkno = blk := Function.update_self ..
  have hrest' : FreeStack (Function.update blocks headBlkno blk) (blk.index 1) rest :=
    hrest.congr fun b hb => Function.update_of_ne (fun e : b = headBlkno => hnot (e ▸ hb)) _ _
  have hindex : (Function.update blocks headBlkno blk headBlkno).IsIndexBlock := by rwa [hself]
  have hstack := FreeStack.index hne hindex (by rwa [hself])
  rwa [hself] at hstack

/-! ### Releasing a block -/

section Release

variable {s : FlatStorage c} {stack : List UInt32} {blkno : UInt32}

private theorem releaseRaw_newHead (hblk : s.isBlock blkno = true)
    (hhead : s.superblk.headBlkno = invalidBlkno ∨ (s.isBlock s.superblk.headBlkno = true ∧
      (s.blocks s.superblk.headBlkno).isAtTop = true)) {blk : Block c.blockSz}
    (hpush : (s.blocks blkno).initIndexBlock.pushIndex s.superblk.headBlkno = some blk) :
    (releaseRaw blkno).run s = (.ok (), (s.setBlock blkno blk).setFreeList blkno
      (s.superblk.numOfFreeBlks + 1)) := by
  have hwrite : (do
      modifyBlock (some (blockPtr c blkno)) Block.initIndexBlock
      pushIndex (some (blockPtr c blkno)) s.superblk.headBlkno
      setHeadBlkno blkno
      incNumberOfFreeBlks : StorageM c AllMapped Unit).run s =
        (.ok (), (s.setBlock blkno blk).setFreeList blkno (s.superblk.numOfFreeBlks + 1)) := by
    have hpush' : ((s.setBlock blkno (s.blocks blkno).initIndexBlock).blocks blkno).pushIndex
        s.superblk.headBlkno = some blk := by simpa using hpush
    rw [Prog.run_bind_of_ok (modifyBlock_blockPtr s blkno _),
      Prog.run_bind_of_ok (pushIndex_blockPtr hpush'), setBlock_setBlock]
    rfl
  rw [releaseRaw, Prog.run_get_bind, Prog.run_bind_of_ok (getBlock_of_isBlock hblk)]
  by_cases hinv : s.superblk.headBlkno = invalidBlkno
  · simpa only [hinv, if_true, Prog.pure_bind, Prog.bind_assoc] using hwrite
  · obtain ⟨hheadblk, htop⟩ := hhead.resolve_left hinv
    simp only [if_neg hinv, Prog.pure_bind]
    rw [Prog.run_bind_of_ok (getBlock_of_isBlock hheadblk), Prog.run_bind_of_ok (deref_blockPtr s _)]
    simpa only [htop, if_true, Prog.bind_assoc] using hwrite

private theorem releaseRaw_push (hblk : s.isBlock blkno = true)
    (hheadblk : s.isBlock s.superblk.headBlkno = true)
    (htop : (s.blocks s.superblk.headBlkno).isAtTop = false) {blk : Block c.blockSz}
    (hpush : (s.blocks s.superblk.headBlkno).pushIndex blkno = some blk) :
    (releaseRaw blkno).run s = (.ok (), (s.setBlock s.superblk.headBlkno blk).setFreeList
      s.superblk.headBlkno (s.superblk.numOfFreeBlks + 1)) := by
  rw [releaseRaw, Prog.run_get_bind, Prog.run_bind_of_ok (getBlock_of_isBlock hblk)]
  simp only [if_neg (ne_invalidBlkno_of_isBlock hheadblk), Prog.pure_bind]
  rw [Prog.run_bind_of_ok (getBlock_of_isBlock hheadblk), Prog.run_bind_of_ok (deref_blockPtr s _)]
  simp only [htop, Bool.false_eq_true, if_false]
  rw [Prog.run_bind_of_ok (getBlock_of_isBlock hheadblk), Prog.run_bind_of_ok (pushIndex_blockPtr hpush)]
  rfl

/-- **A release pushes.** The released block goes on top of the stack. -/
theorem releaseRaw_spec (h : FreeListOf s stack) (hblk : s.isBlock blkno = true)
    (hnot : blkno ∉ stack) :
    ∃ s', (releaseRaw blkno).run s = (.ok (), s') ∧ FreeListOf s' (blkno :: stack) ∧
      SameOutside s s' (blkno :: stack) := by
  have hne := ne_invalidBlkno_of_isBlock hblk
  have hcount : s.superblk.numOfFreeBlks + 1 = UInt32.ofNat (blkno :: stack).length := by
    rw [h.count, List.length_cons, UInt32.ofNat_add]
    rfl
  have hnodup : (blkno :: stack).Nodup := List.nodup_cons.mpr ⟨hnot, h.nodup⟩
  have hblks : ∀ b ∈ blkno :: stack, s.isBlock b = true := by
    intro b hb
    rcases List.mem_cons.mp hb with rfl | hb
    · exact hblk
    · exact h.isBlock b hb
  by_cases hhead : s.superblk.headBlkno = invalidBlkno ∨
      (s.blocks s.superblk.headBlkno).isAtTop = true
  · -- `blkno` becomes an index block in front of the chain.
    obtain ⟨blk, hpush, hindex, hentries, hnext⟩ :=
      (s.blocks blkno).initIndexBlock_pushIndex s.superblk.headBlkno
    have hhead' : s.superblk.headBlkno = invalidBlkno ∨ (s.isBlock s.superblk.headBlkno = true ∧
        (s.blocks s.superblk.headBlkno).isAtTop = true) := by
      by_cases hinv : s.superblk.headBlkno = invalidBlkno
      · exact Or.inl hinv
      · exact Or.inr ⟨h.isBlock_head hinv, hhead.resolve_left hinv⟩
    refine ⟨_, releaseRaw_newHead hblk hhead' hpush, ⟨?_, hnodup, hblks, hcount⟩,
      sameOutside_setFreeList s List.mem_cons_self _ _ _⟩
    have hstack := FreeStack.setBlock hne hindex (hnext.symm ▸ h.chain) hnot
    rwa [hentries] at hstack
  · -- `blkno` becomes the top word of the head block.
    rw [not_or, Bool.not_eq_true] at hhead
    obtain ⟨hinv, htop⟩ := hhead
    have hheadblk := h.isBlock_head hinv
    obtain ⟨rest, rfl, hindex, hrest⟩ := h.chain.exists_rest hinv
    obtain ⟨blk, hpush, hindex', hentries, hnext⟩ :=
      Block.pushIndex_of_not_isAtTop hindex htop blkno
    have hnd := List.nodup_cons.mp (List.nodup_append.mp h.nodup).2.1
    refine ⟨_, releaseRaw_push hblk hheadblk htop hpush, ⟨?_, hnodup, hblks, hcount⟩,
      sameOutside_setFreeList s (by simp) _ _ _⟩
    have hstack := FreeStack.setBlock hinv hindex' (hnext.symm ▸ hrest) hnd.1
    rwa [hentries, List.cons_append] at hstack

end Release

/-! ### Requiring a block -/

section Require

variable {s : FlatStorage c} {stack : List UInt32}

/-- Without a free block a require makes a group. -/
theorem require_of_invalid {M : Type} [OverflowTable M] {s : Storage c M} (disk : CreateOutcome)
    (hhead : s.superblk.headBlkno = invalidBlkno) :
    (require disk).run s = (requireUnallocated disk).run s := by
  have hallocated : (requireAllocated : StorageM c M UInt32).run s = (.ok invalidBlkno, s) := by
    rw [requireAllocated, Prog.run_get_bind]
    simp only [hhead, if_true, Prog.run_pure]
  rw [require, Prog.run_bind_of_ok hallocated, if_pos rfl]

theorem require_nil (disk : CreateOutcome) (h : FreeListOf s []) :
    (require disk).run s = (requireUnallocated disk).run s :=
  require_of_invalid disk (h.nil_iff.mp rfl)

/-- **A require pops.** The block on top of the stack is taken. -/
theorem requireAllocated_cons {blkno : UInt32} (h : FreeListOf s (blkno :: stack)) :
    ∃ s', requireAllocated.run s = (.ok blkno, s') ∧ FreeListOf s' stack ∧
      SameOutside s s' (blkno :: stack) := by
  have hinv : s.superblk.headBlkno ≠ invalidBlkno := fun e => by
    have := h.nil_iff.mpr e
    simp at this
  have hheadblk := h.isBlock_head hinv
  have hcount : s.superblk.numOfFreeBlks - 1 = UInt32.ofNat stack.length := by
    rw [h.count, List.length_cons, UInt32.ofNat_add]
    exact UInt32.add_sub_cancel _ _
  have hnodup : stack.Nodup := (List.nodup_cons.mp h.nodup).2
  have hblks : ∀ b ∈ stack, s.isBlock b = true := fun b hb =>
    h.isBlock b (List.mem_cons_of_mem _ hb)
  obtain ⟨rest, hstack, hindex, hrest⟩ := h.chain.exists_rest hinv
  have hnd := h.nodup
  have hheadmem := h.chain.head_mem hinv
  rw [requireAllocated, Prog.run_get_bind, if_neg hinv, Prog.run_bind_of_ok (run_decNumber s),
    Prog.run_bind_of_ok (getBlock_of_isBlock (by simpa using hheadblk)),
    Prog.run_bind_of_ok (deref_blockPtr _ _)]
  by_cases hbot : (s.blocks s.superblk.headBlkno).isAtBottom = true
  · -- The head block has no free block number left: it is the top of the stack.
    obtain ⟨blk, hpop⟩ := Block.popIndex_of_isAtBottom hbot
    rw [Block.entries_of_isAtBottom hbot, List.nil_append, List.cons.injEq] at hstack
    obtain ⟨rfl, rfl⟩ := hstack
    refine ⟨(s.setBlock s.superblk.headBlkno blk).setFreeList
      ((s.blocks s.superblk.headBlkno).index 1) (s.superblk.numOfFreeBlks - 1), ?_,
      ⟨?_, hnodup, hblks, hcount⟩, sameOutside_setFreeList s List.mem_cons_self _ _ _⟩
    · rw [if_pos (by simpa using hbot),
        Prog.run_bind_of_ok (getBlock_of_isBlock (by simpa using hheadblk)),
        Prog.run_bind_of_ok (popIndex_blockPtr (by simpa using hpop))]
      rfl
    · exact hrest.congr fun b hb => Function.update_of_ne
        (fun e : b = s.superblk.headBlkno => (List.nodup_cons.mp hnd).1 (e ▸ hb)) _ _
  · rw [Bool.not_eq_true] at hbot
    obtain ⟨top, blk, hpop, hindex', hentries, hnext⟩ :=
      Block.popIndex_of_not_isAtBottom hindex hbot
    rw [hentries, List.cons_append, List.cons.injEq] at hstack
    obtain ⟨rfl, rfl⟩ := hstack
    refine ⟨(s.setBlock s.superblk.headBlkno blk).setFreeList s.superblk.headBlkno
      (s.superblk.numOfFreeBlks - 1), ?_, ⟨?_, hnodup, hblks, hcount⟩,
      sameOutside_setFreeList s hheadmem _ _ _⟩
    · rw [if_neg (by simp [hbot])]
      exact popIndex_blockPtr (by simpa using hpop)
    · refine FreeStack.setBlock hinv hindex' (hnext.symm ▸ hrest) ?_
      exact (List.nodup_cons.mp (List.nodup_append.mp hnodup).2.1).1

end Require

end Nynn
