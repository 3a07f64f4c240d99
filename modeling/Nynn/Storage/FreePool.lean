import Nynn.Storage.NewBlocks
import Mathlib.Data.Finset.Basic

/-!
# The free list refines a stack of block numbers

What the free list is for: a plain stack of block numbers that is refilled with the next group of
numbers when it runs empty. A storage represents such a pool, and `require` and `release` are the
operations of the pool, along every run that releases only blocks that are out.

Source: `nynn_mm_subgraph_storage.h`.

## Main definitions

* `Nynn.FreePool`: the abstract stack, with the least block number that was not made yet.
* `Nynn.Refines`: a storage represents a pool.
* `Nynn.Required`: what a require did.
* `Nynn.FreeListRun`: the runs of require and release.

## Main results

* `Nynn.Refines.require`, `Nynn.Refines.release`: the operations refine those of the pool.
* `Nynn.freeListRun_refines_pool`: along every run a storage represents a pool.
-/

namespace Nynn

open Program

variable {c : Config}

/-! ### The pool -/

/-- The free blocks as a plain stack, with the least block number that was not made yet. -/
structure FreePool where
  stack : List UInt32
  supBlkno : UInt32

namespace FreePool

/-- Push a block. -/
def release (p : FreePool) (blkno : UInt32) : FreePool := { p with stack := blkno :: p.stack }

/-- Pop a block; from the empty stack, make the next `groupSize` blocks and take the first. -/
def require (groupSize : ℕ) (p : FreePool) : UInt32 × FreePool :=
  match p.stack with
  | blkno :: stack => (blkno, { p with stack := stack })
  | [] =>
    (p.supBlkno,
      { stack := blknoRange (p.supBlkno + 1) (groupSize - 1)
        supBlkno := p.supBlkno + UInt32.ofNat groupSize })

end FreePool

/-- A storage represents a pool. -/
structure Refines (s : FlatStorage c) (p : FreePool) : Prop where
  free : FreeListOf s p.stack
  supBlkno : s.superblk.supBlkno = p.supBlkno
  groups : GroupsMade s

/-- A require took the block `blkno`: the blocks on the stack stay blocks of the pool, the others
stay as they are. -/
structure Required (s s' : FlatStorage c) (p p' : FreePool) (blkno : UInt32) : Prop where
  refines : Refines s' p'
  nodup : (blkno :: p'.stack).Nodup
  vertices : s'.superblk.vertices = s.superblk.vertices
  blocks : ∀ b, b ∉ blkno :: p'.stack → s'.blocks b = s.blocks b
  isBlock_iff : ∀ b, s'.isBlock b = true ↔ s.isBlock b = true ∨ b ∈ blkno :: p'.stack
  stack_subset : ∀ b ∈ p.stack, b ∈ blkno :: p'.stack
  fresh : ∀ b, s.isBlock b = true → b ∉ p.stack → b ∉ blkno :: p'.stack

namespace Refines

variable {s s' : FlatStorage c} {p : FreePool}

/-- The stack is determined by the storage. -/
theorem unique {p' : FreePool} (h : Refines s p) (h' : Refines s p') : p = p' := by
  cases p
  cases p'
  rw [FreePool.mk.injEq]
  exact ⟨h.free.unique h'.free, h.supBlkno.symm.trans h'.supBlkno⟩

/-- A change that leaves the free list, its blocks and the files alone. -/
theorem congr (h : Refines s p) (hhead : s'.superblk.headBlkno = s.superblk.headBlkno)
    (hcount : s'.superblk.numOfFreeBlks = s.superblk.numOfFreeBlks)
    (hsup : s'.superblk.supBlkno = s.superblk.supBlkno) (hfiles : s'.files = s.files)
    (hblocks : ∀ b ∈ p.stack, s'.blocks b = s.blocks b) : Refines s' p where
  free := h.free.congr hhead hcount hsup hblocks
  supBlkno := hsup.trans h.supBlkno
  groups := h.groups.congr hsup hfiles

theorem setVertex (h : Refines s p) (vtx : Fin c.vertexIntervalWidth) (v : Vertex) :
    Refines (s.setVertex vtx v) p :=
  h.congr rfl rfl rfl rfl fun _ _ => rfl

theorem setBlock (h : Refines s p) {blkno : UInt32} (hb : blkno ∉ p.stack)
    (blk : Block c.blockSz) : Refines (s.setBlock blkno blk) p :=
  h.congr rfl rfl rfl rfl fun b hmem =>
    Function.update_of_ne (fun e : b = blkno => hb (e ▸ hmem)) _ _

/-- The counter of the free list is the length of the stack. -/
theorem numOfFreeBlks (h : Refines s p) :
    s.superblk.numOfFreeBlks.toNat = p.stack.length := by
  have hnodup : (p.stack.map UInt32.toNat).Nodup :=
    h.free.nodup.map_on fun a _ b _ hab => UInt32.toNat_inj.mp hab
  have hsub : p.stack.map UInt32.toNat ⊆ List.range (2 ^ 32 - 1) := by
    intro n hn
    obtain ⟨b, hb, rfl⟩ := List.mem_map.mp hn
    have hne := ne_invalidBlkno_of_isBlock (h.free.isBlock b hb)
    have hlt := b.toNat_lt
    have : b.toNat ≠ 2 ^ 32 - 1 := fun e => hne (UInt32.toNat_inj.mp e)
    exact List.mem_range.mpr (by omega)
  have hle := (hnodup.subperm hsub).length_le
  rw [List.length_map, List.length_range] at hle
  rw [h.free.count, UInt32.toNat_ofNat_of_lt' (show p.stack.length < 2 ^ 32 by omega)]

/-- **A release is a push.** -/
theorem release (h : Refines s p) {blkno : UInt32} (hblk : s.isBlock blkno = true)
    (hnot : blkno ∉ p.stack) :
    ∃ s', (Nynn.release blkno).run s = (.ok (), s') ∧ Refines s' (p.release blkno) ∧
      SameOutside s s' (blkno :: p.stack) := by
  obtain ⟨s', hrun, hfree, hsame⟩ := releaseRaw_spec h.free hblk hnot
  exact ⟨s', hrun, ⟨hfree, hsame.supBlkno.trans h.supBlkno,
    h.groups.congr hsame.supBlkno hsame.files⟩, hsame⟩

private theorem require_of_cons {blkno : UInt32} {stack : List UInt32} (disk : CreateOutcome)
    (h : Refines s p) (hstack : p.stack = blkno :: stack) :
    ∃ s', (Nynn.require disk).run s = (.ok blkno, s') ∧
      Required s s' p { p with stack := stack } blkno := by
  have hfree := h.free
  rw [hstack] at hfree
  obtain ⟨s', hrun, hfree', hsame⟩ := require_cons disk hfree
  refine ⟨s', hrun, ⟨⟨hfree', hsame.supBlkno.trans h.supBlkno,
    h.groups.congr hsame.supBlkno hsame.files⟩, hfree.nodup, hsame.vertices, hsame.blocks,
    fun b => ?_, fun b hb => hstack ▸ hb, fun b _ hb => hstack ▸ hb⟩⟩
  rw [hsame.isBlock_eq]
  exact ⟨Or.inl, fun hb => hb.elim id (hfree.isBlock b)⟩

private theorem require_of_nil {disk : CreateOutcome} (h : Refines s p) (hstack : p.stack = [])
    (hgrow : CanGrow s disk) :
    ∃ s', (Nynn.require disk).run s = (.ok p.supBlkno, s') ∧
      Required s s' p { stack := blknoRange (p.supBlkno + 1) (c.groupSize - 1),
                        supBlkno := p.supBlkno + UInt32.ofNat c.groupSize } p.supBlkno := by
  have hpos := c.groupSize_pos
  have hfree := h.free
  rw [hstack] at hfree
  obtain ⟨s', hrun, hfree', hsup, hvertices, hfiles, hblocks⟩ := require_grow hfree hgrow
  have hrange : blknoRange s.superblk.supBlkno c.groupSize =
      s.superblk.supBlkno :: blknoRange (s.superblk.supBlkno + 1) (c.groupSize - 1) := by
    rw [← blknoRange_cons, Nat.sub_add_cancel hpos]
  have hnodup := nodup_blknoRange s.superblk.supBlkno (Nat.le_of_lt c.groupSize_lt)
  have hmask : c.overflowBlknoMask + 1 = UInt32.ofNat c.groupSize := by
    rw [Config.overflowBlknoMask, ← UInt32.ofNat_one, ← UInt32.ofNat_add,
      Nat.sub_add_cancel hpos]
  have hsup' : s'.superblk.supBlkno = s.newGroup.superblk.supBlkno := hsup
  have hisBlock (b : UInt32) : s'.isBlock b = true ↔
      s.isBlock b = true ∨ b ∈ blknoRange s.superblk.supBlkno c.groupSize := by
    rw [← isBlock_newGroup hgrow, Storage.isBlock, Storage.isBlock, hsup']
  rw [hrange] at hblocks hisBlock hnodup
  rw [← h.supBlkno]
  refine ⟨s', hrun, ⟨⟨hfree', ?_, h.groups.grow hgrow hsup hfiles⟩, hnodup, hvertices, hblocks,
    hisBlock, by simp [hstack], fun b hb _ hmem => ?_⟩⟩
  · rw [hsup, UInt32.add_assoc, hmask]
  · rw [← hrange] at hmem
    have hle := (toNat_mem_newGroup hgrow hmem).1
    have hlt := (h.groups.isBlock_iff b).mp hb
    rw [UInt32.lt_iff_toNat_lt] at hlt
    omega

/-- A require is a pop, or makes a group when the stack is empty and a group can be made. -/
theorem require_of_canGrow (disk : CreateOutcome) (h : Refines s p)
    (hgrow : p.stack = [] → CanGrow s disk) :
    ∃ s', (Nynn.require disk).run s = (.ok (p.require c.groupSize).1, s') ∧
      Required s s' p (p.require c.groupSize).2 (p.require c.groupSize).1 := by
  cases hstack : p.stack with
  | nil =>
    rw [FreePool.require, hstack]
    exact h.require_of_nil hstack (hgrow hstack)
  | cons blkno stack =>
    rw [FreePool.require, hstack]
    exact h.require_of_cons disk hstack

/-- A require that succeeds on the empty stack makes a group. -/
theorem canGrow {disk : CreateOutcome} {r : UInt32} (h : Refines s p)
    (hrun : (Nynn.require disk).run s = (.ok r, s')) (hstack : p.stack = []) :
    CanGrow s disk := by
  have hfree := h.free
  rw [hstack] at hfree
  exact canGrow_of_require hfree h.groups.min_le hrun

/-- **A require is the require of the pool.** -/
theorem require {disk : CreateOutcome} {r : UInt32} (h : Refines s p)
    (hrun : (Nynn.require disk).run s = (.ok r, s')) :
    r = (p.require c.groupSize).1 ∧ Required s s' p (p.require c.groupSize).2 r := by
  obtain ⟨s'', hrun', hreq⟩ := h.require_of_canGrow disk (h.canGrow hrun)
  rw [hrun', Prod.mk.injEq, Except.ok.injEq] at hrun
  obtain ⟨rfl, rfl⟩ := hrun
  exact ⟨rfl, hreq⟩

end Refines

/-! ### Runs -/

/-- The runs of require and release from a formatted storage; the set in the last argument holds
the blocks that a require returned and that have not been released since. A group can only be made
while its block numbers do not exceed `BLOCKNO_MAX`. -/
inductive FreeListRun (minVtxno : UInt32) : FlatStorage c → Finset UInt32 → Prop
  | format {s : FlatStorage c} (h : Nynn.format .allMapped minVtxno = (.ok (), s)) :
      FreeListRun minVtxno s ∅
  | require {s s' : FlatStorage c} {out : Finset UInt32} {blkno : UInt32}
      (h : FreeListRun minVtxno s out)
      (hrun : (Nynn.require .ok).run s = (.ok blkno, s')) :
      FreeListRun minVtxno s' (insert blkno out)
  | release {s s' : FlatStorage c} {out : Finset UInt32} {blkno : UInt32} {r : Except Fault Unit}
      (h : FreeListRun minVtxno s out) (hout : blkno ∈ out)
      (hrun : (Nynn.release blkno).run s = (r, s')) :
      FreeListRun minVtxno s' (out.erase blkno)

/-- A formatted storage represents the pool of the blocks of its volume. -/
theorem refines_format {minVtxno : UInt32} {s : FlatStorage c}
    (h : Nynn.format .allMapped minVtxno = (.ok (), s)) :
    Refines s ⟨blknoRange 0 c.overflowBlknoMin.toNat, c.overflowBlknoMin⟩ := by
  obtain ⟨hmod, hvolume, hinit⟩ := of_format_eq_ok h
  obtain ⟨s', hs', hfree, hsup, hfiles, -⟩ := format_spec hmod hvolume hinit
  rw [h, Prod.mk.injEq] at hs'
  obtain ⟨-, rfl⟩ := hs'
  refine ⟨hfree, hsup, ⟨?_, Or.inl hsup, fun g hg => ?_⟩⟩
  · rw [hsup]
    exact UInt32.le_refl _
  · rw [hfiles g] at hg
    cases hg

/-- Along a run a storage represents a pool, and the blocks that are out are not in it. -/
theorem FreeListRun.exists_pool {minVtxno : UInt32} {s : FlatStorage c} {out : Finset UInt32}
    (h : FreeListRun minVtxno s out) :
    ∃ p : FreePool, Refines s p ∧ ∀ b ∈ out, s.isBlock b = true ∧ b ∉ p.stack := by
  induction h with
  | format h => exact ⟨_, refines_format h, by simp⟩
  | @require s s' out blkno _ hrun ih =>
    obtain ⟨p, hp, hout⟩ := ih
    obtain ⟨-, hreq⟩ := hp.require hrun
    refine ⟨_, hreq.refines, fun b hb => ?_⟩
    rcases Finset.mem_insert.mp hb with rfl | hb
    · exact ⟨(hreq.isBlock_iff b).mpr (Or.inr List.mem_cons_self),
        (List.nodup_cons.mp hreq.nodup).1⟩
    · obtain ⟨hblk, hnot⟩ := hout b hb
      exact ⟨(hreq.isBlock_iff b).mpr (Or.inl hblk), fun hmem =>
        hreq.fresh b hblk hnot (List.mem_cons_of_mem _ hmem)⟩
  | @release s s' out blkno r _ hmem hrun ih =>
    obtain ⟨p, hp, hout⟩ := ih
    obtain ⟨s'', hrun', hp', hsame⟩ := hp.release (hout blkno hmem).1 (hout blkno hmem).2
    rw [hrun', Prod.mk.injEq] at hrun
    obtain ⟨rfl, rfl⟩ := hrun
    refine ⟨_, hp', fun b hb => ?_⟩
    obtain ⟨hne, hb⟩ := Finset.mem_erase.mp hb
    rw [hsame.isBlock_eq]
    exact ⟨(hout b hb).1, fun hin => (List.mem_cons.mp hin).elim hne (hout b hb).2⟩

/-- **The free list refines a stack.** In every state of a run the storage represents a pool: the
chain of index blocks stores a stack of distinct blocks and `m_numOfFreeBlks` is its length. A
release pushes the block, a require pops the top, and a require on the empty stack makes the next
group, as long as its block numbers do not exceed `BLOCKNO_MAX`. -/
theorem freeListRun_refines_pool {minVtxno : UInt32} {s : FlatStorage c} {out : Finset UInt32}
    (h : FreeListRun minVtxno s out) :
    ∃ p : FreePool, Refines s p ∧ s.superblk.numOfFreeBlks.toNat = p.stack.length ∧
      (∀ b ∈ out, ∃ s', (Nynn.release b).run s = (.ok (), s') ∧
        Refines s' ⟨b :: p.stack, p.supBlkno⟩) ∧
      (∀ b stack, p.stack = b :: stack → ∃ s', (Nynn.require .ok).run s = (.ok b, s') ∧
        Refines s' ⟨stack, p.supBlkno⟩) ∧
      (p.stack = [] → s.superblk.supBlkno.toNat + c.groupSize ≤ c.blknoMax.toNat →
        ∃ s', (Nynn.require .ok).run s = (.ok s.superblk.supBlkno, s') ∧
          s'.superblk.supBlkno.toNat = s.superblk.supBlkno.toNat + c.groupSize ∧
          Refines s' ⟨blknoRange (s.superblk.supBlkno + 1) (c.groupSize - 1),
            s'.superblk.supBlkno⟩) := by
  obtain ⟨p, hp, hout⟩ := h.exists_pool
  refine ⟨p, hp, hp.numOfFreeBlks, fun b hb => ?_, fun b stack hstack => ?_,
    fun hstack hmax => ?_⟩
  · obtain ⟨s', hrun, hp', -⟩ := hp.release (hout b hb).1 (hout b hb).2
    exact ⟨s', hrun, hp'⟩
  · obtain ⟨s', hrun, hreq⟩ := hp.require_of_canGrow .ok fun hnil => by
      rw [hnil] at hstack
      cases hstack
    rw [FreePool.require, hstack] at hrun hreq
    exact ⟨s', hrun, hreq.refines⟩
  · obtain ⟨s', hrun, hreq⟩ := hp.require_of_canGrow .ok fun _ => hp.groups.canGrow hmax
    rw [FreePool.require, hstack, ← hp.supBlkno] at hrun hreq
    have hsup : s'.superblk.supBlkno = s.superblk.supBlkno + UInt32.ofNat c.groupSize :=
      hreq.refines.supBlkno
    refine ⟨s', hrun, ?_, ?_⟩
    · have hlt := c.blknoMax.toNat_lt
      rw [hsup, UInt32.toNat_add, UInt32.toNat_ofNat_of_lt' c.groupSize_lt, Nat.mod_eq_of_lt]
      omega
    · rw [hsup]
      exact hreq.refines

/-- The formatted storage of the small configuration. -/
def smallStorage : FlatStorage Config.small := (format AllMapped.allMapped 0).2

/-- In a small storage: blocks `0` and `1` are required, then block `0` is released. -/
theorem freeListRun_refines_pool_small :
    ∃ (s : FlatStorage Config.small) (p : FreePool), FreeListRun 0 s {1} ∧ Refines s p ∧
      s.superblk.numOfFreeBlks.toNat = p.stack.length := by
  have h₀ : format AllMapped.allMapped 0 = (.ok (), smallStorage) :=
    Prod.ext (by decide +kernel) rfl
  have h₁ : (Nynn.require .ok).run smallStorage =
      (.ok 0, ((Nynn.require .ok).run smallStorage).2) :=
    Prod.ext (by decide +kernel) rfl
  have h₂ : (Nynn.require .ok).run ((Nynn.require .ok).run smallStorage).2 =
      (.ok 1, ((Nynn.require .ok).run ((Nynn.require .ok).run smallStorage).2).2) :=
    Prod.ext (by decide +kernel) rfl
  have hout : (insert 1 (insert 0 ∅) : Finset UInt32).erase 0 = {1} := by decide
  have hrun := FreeListRun.release (((FreeListRun.format h₀).require h₁).require h₂)
    (Finset.mem_insert_of_mem (Finset.mem_insert_self 0 ∅)) rfl
  rw [hout] at hrun
  obtain ⟨p, hp, hcount, -⟩ := freeListRun_refines_pool hrun
  exact ⟨_, p, hrun, hp, hcount⟩

end Nynn
