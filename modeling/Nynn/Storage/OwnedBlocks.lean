import Nynn.Library.Transition
import Nynn.Storage.FreeBlocks

/-!
# The allocator leaves the blocks of its users alone

Threads require blocks, write and read them, and release them, in any order of calls. The free list
keeps its index words in the blocks themselves, so that a user's bytes survive only because the
allocator writes to no block but a free one. Calls may fail, when the operating system does not give
a new overflow file; `supBlkno` stays a number up to `BLOCKNO_MAX`.

Source: `nynn_mm_subgraph_storage.h`.

## Main definitions

* `Nynn.BlockUsers`: a storage, the blocks that are out, and what was written to them.
* `Nynn.BlockStep`: the calls of the threads.

## Main results

* `Nynn.blockUsers_keep_blocks`: outstanding blocks are distinct and hold what their users wrote.
-/

namespace Nynn

open Program Transition

variable {c : Config}

/-! ### Threads that use blocks -/

/-- A storage, the blocks that a require returned to a thread and that the thread has not released
since, and the bytes that were last written to a block while it was out. -/
structure BlockUsers (c : Config) (τ : Type) where
  storage : FlatStorage c
  out : List (τ × UInt32)
  written : UInt32 → Option (Block c.blockSz)

/-- A call of a thread. -/
inductive BlockAction (c : Config) (τ : Type)
  | require (t : τ) (disk : CreateOutcome)
  | release (t : τ) (blkno : UInt32)
  | readBlock (t : τ) (blkno : UInt32)
  | writeBlock (t : τ) (blkno : UInt32) (blk : Block c.blockSz)

/-- `supBlkno` goes on to a number that is not greater than `BLOCKNO_MAX`. -/
def SupBounded (s s' : FlatStorage c) : Prop :=
  s.superblk.supBlkno ≤ s'.superblk.supBlkno ∧ s'.superblk.supBlkno ≤ c.blknoMax

/-- The calls of the threads. A thread only releases, reads and writes blocks that it has. -/
inductive BlockStep {τ : Type} [DecidableEq τ] :
    BlockUsers c τ → BlockAction c τ → BlockUsers c τ → Prop
  | require {x : BlockUsers c τ} {t : τ} {disk : CreateOutcome} {blkno : UInt32}
      {s : FlatStorage c} (hrun : (Nynn.require disk).run x.storage = (.ok blkno, s))
      (hsup : SupBounded x.storage s) :
      BlockStep x (.require t disk)
        ⟨s, (t, blkno) :: x.out, Function.update x.written blkno none⟩
  | requireFails {x : BlockUsers c τ} {t : τ} {disk : CreateOutcome} {e : Fault}
      {s : FlatStorage c} (hrun : (Nynn.require disk).run x.storage = (.error e, s))
      (hsup : SupBounded x.storage s) : BlockStep x (.require t disk) ⟨s, x.out, x.written⟩
  | release {x : BlockUsers c τ} {t : τ} {blkno : UInt32} {r : Except Fault Unit}
      {s : FlatStorage c} (hout : (t, blkno) ∈ x.out)
      (hrun : (Nynn.release blkno).run x.storage = (r, s)) :
      BlockStep x (.release t blkno) ⟨s, x.out.erase (t, blkno), x.written⟩
  | readBlock {x : BlockUsers c τ} {t : τ} {blkno : UInt32} {r : Except Fault (Block c.blockSz)}
      {s : FlatStorage c} (hout : (t, blkno) ∈ x.out)
      (hrun : (Nynn.readBlock blkno).run x.storage = (r, s)) :
      BlockStep x (.readBlock t blkno) ⟨s, x.out, x.written⟩
  | writeBlock {x : BlockUsers c τ} {t : τ} {blkno : UInt32} {blk : Block c.blockSz}
      {r : Except Fault Unit} {s : FlatStorage c} (hout : (t, blkno) ∈ x.out)
      (hrun : (Nynn.writeBlock blkno blk).run x.storage = (r, s)) :
      BlockStep x (.writeBlock t blkno blk)
        ⟨s, x.out, Function.update x.written blkno (some blk)⟩

namespace BlockUsers

variable {τ : Type} [DecidableEq τ]

/-- The storage has a free list, and the blocks that are out are distinct, not free, and hold what
was written to them. -/
structure Invariant (x : BlockUsers c τ) (stack : List UInt32) : Prop where
  free : FreeBlocks x.storage stack
  nodup : (x.out.map Prod.snd).Nodup
  out : ∀ p ∈ x.out, x.storage.isBlock p.2 = true ∧ p.2 ∉ stack
  written : ∀ p ∈ x.out, ∀ blk, x.written p.2 = some blk → x.storage.blocks p.2 = blk

/-- Every call keeps the invariant. -/
theorem Invariant.step {x x' : BlockUsers c τ} {a : BlockAction c τ} {stack : List UInt32}
    (h : x.Invariant stack) (ha : BlockStep x a x') : ∃ stack', x'.Invariant stack' := by
  cases ha with
  | @require t disk blkno s hrun hsup =>
    obtain ⟨stack', hfree, hblk, hnot, hothers⟩ := h.free.require hrun
    have hkeep := fun p hp => hothers p.2 (h.out p hp).1 (h.out p hp).2
    have hne : ∀ p ∈ x.out, p.2 ≠ blkno := fun p hp e =>
      (hkeep p hp).2.1 (e ▸ List.mem_cons_self)
    refine ⟨stack', hfree, ?_, ?_, ?_⟩
    · refine List.nodup_cons.mpr ⟨fun hmem => ?_, h.nodup⟩
      obtain ⟨p, hp, hpb⟩ := List.mem_map.mp hmem
      exact hne p hp hpb
    · intro p hp
      rcases List.mem_cons.mp hp with rfl | hp
      · exact ⟨hblk, hnot⟩
      · exact ⟨(hkeep p hp).1, fun hm => (hkeep p hp).2.1 (List.mem_cons_of_mem _ hm)⟩
    · intro p hp blk hw
      dsimp only at hw
      rcases List.mem_cons.mp hp with rfl | hp
      · rw [Function.update_self] at hw
        cases hw
      · rw [Function.update_of_ne (hne p hp)] at hw
        exact (hkeep p hp).2.2.trans (h.written p hp blk hw)
  | @requireFails t disk e s hrun hsup =>
    obtain ⟨hsuper, hblocks⟩ := h.free.require_error hrun hsup.1 hsup.2
    have hisBlock : s.isBlock = x.storage.isBlock := by
      funext b
      rw [Storage.isBlock, Storage.isBlock, hsuper]
    refine ⟨stack, ⟨h.free.free.congr ?_ ?_ ?_ ?_, ?_, ?_⟩, h.nodup, ?_, ?_⟩
    · rw [hsuper]
    · rw [hsuper]
    · rw [hsuper]
    · exact fun b _ => congrFun hblocks b
    · rw [hsuper]
      exact h.free.min_le
    · rw [hsuper]
      exact h.free.le_max
    · intro p hp
      rw [hisBlock]
      exact h.out p hp
    · intro p hp blk hw
      rw [hblocks]
      exact h.written p hp blk hw
  | @release t blkno r s hout hrun =>
    obtain ⟨hblk, hnot⟩ := h.out _ hout
    obtain ⟨s₁, hrun₁, hfree, hsame⟩ := h.free.release hblk hnot
    rw [hrun, Prod.mk.injEq] at hrun₁
    obtain ⟨-, rfl⟩ := hrun₁
    have hmem : ∀ p ∈ x.out.erase (t, blkno), p ∈ x.out ∧ p.2 ≠ blkno := by
      intro p hp
      obtain ⟨hne, hp⟩ := (List.Nodup.of_map _ h.nodup).mem_erase_iff.mp hp
      exact ⟨hp, fun e => hne (List.inj_on_of_nodup_map h.nodup hp hout e)⟩
    refine ⟨blkno :: stack, hfree, h.nodup.sublist (List.erase_sublist.map _), ?_, ?_⟩
    · intro p hp
      obtain ⟨hp, hne⟩ := hmem p hp
      rw [hsame.isBlock_eq]
      exact ⟨(h.out p hp).1, fun hm => (List.mem_cons.mp hm).elim hne (h.out p hp).2⟩
    · intro p hp blk hw
      obtain ⟨hp, hne⟩ := hmem p hp
      have hb := hsame.blocks p.2 fun hm => (List.mem_cons.mp hm).elim hne (h.out p hp).2
      exact hb.trans (h.written p hp blk hw)
  | @readBlock t blkno r s hout hrun =>
    rw [readBlock_of_isBlock (h.out _ hout).1, Prod.mk.injEq] at hrun
    obtain ⟨-, rfl⟩ := hrun
    exact ⟨stack, h.free, h.nodup, h.out, h.written⟩
  | @writeBlock t blkno blk r s hout hrun =>
    obtain ⟨hblk, hnot⟩ := h.out _ hout
    rw [writeBlock_of_isBlock blk hblk, Prod.mk.injEq] at hrun
    obtain ⟨-, rfl⟩ := hrun
    refine ⟨stack, ⟨h.free.free.setBlock hnot blk, h.free.min_le, h.free.le_max⟩, h.nodup, ?_, ?_⟩
    · intro p hp
      rw [isBlock_setBlock]
      exact h.out p hp
    · intro p hp blk' hw
      dsimp only at hw ⊢
      rw [blocks_setBlock]
      by_cases hpb : p.2 = blkno
      · rw [hpb, Function.update_self] at hw ⊢
        exact Option.some.inj hw
      · rw [Function.update_of_ne hpb] at hw ⊢
        exact h.written p hp blk' hw

end BlockUsers

/-- **Allocated data is never touched by the allocator.** In every run of threads from a formatted
storage the blocks that are out are distinct, and reading one returns what was last written to it
since it was required. -/
theorem blockUsers_keep_blocks {τ : Type} [DecidableEq τ] {minVtxno : UInt32} {s : FlatStorage c}
    (hs : Nynn.format .allMapped minVtxno = (.ok (), s)) {as : List (BlockAction c τ)}
    {x : BlockUsers c τ} (h : Steps BlockStep ⟨s, [], fun _ => none⟩ as x) :
    (x.out.map Prod.snd).Nodup ∧
      ∀ t blkno, (t, blkno) ∈ x.out →
        (∃ blk, (readBlock blkno).run x.storage = (.ok blk, x.storage)) ∧
        ∀ blk, x.written blkno = some blk →
          (readBlock blkno).run x.storage = (.ok blk, x.storage) := by
  obtain ⟨stack, hx⟩ := h.invariant (I := fun x => ∃ stack, x.Invariant stack)
    (fun _ _ _ ⟨_, hx⟩ ha => hx.step ha)
    ⟨_, .of_format hs, List.nodup_nil, by simp, by simp⟩
  refine ⟨hx.nodup, fun t blkno hout => ?_⟩
  have hread := readBlock_of_isBlock (hx.out _ hout).1
  exact ⟨⟨_, hread⟩, fun blk hw => hx.written _ hout blk hw ▸ hread⟩

/-- In a small storage: one thread requires and writes block `0`, another requires and releases
block `1`. -/
theorem blockUsers_keep_blocks_small :
    ∃ x : BlockUsers Config.small Bool, x.out = [(true, 0)] ∧
      (readBlock 0).run x.storage = (.ok (fun _ => 7), x.storage) := by
  have h₀ : Nynn.format AllMapped.allMapped 0 = (.ok (), smallStorage) :=
    Prod.ext (by decide +kernel) rfl
  obtain ⟨s₁, s₂, s₃, s₄, h₁, hsup₁, h₂, h₃, hsup₃, h₄⟩ :
      ∃ s₁ s₂ s₃ s₄ : FlatStorage Config.small,
        (Nynn.require .ok).run smallStorage = (.ok 0, s₁) ∧ SupBounded smallStorage s₁ ∧
        (Nynn.writeBlock 0 fun _ => 7).run s₁ = (.ok (), s₂) ∧
        (Nynn.require .ok).run s₂ = (.ok 1, s₃) ∧ SupBounded s₂ s₃ ∧
        (Nynn.release 1).run s₃ = (.ok (), s₄) :=
    ⟨_, _, _, _, Prod.ext (by decide +kernel) rfl, ⟨by decide +kernel, by decide +kernel⟩,
      Prod.ext (by decide +kernel) rfl, Prod.ext (by decide +kernel) rfl,
      ⟨by decide +kernel, by decide +kernel⟩, Prod.ext (by decide +kernel) rfl⟩
  have hrun₁ := Steps.single
    (BlockStep.require (x := ⟨smallStorage, [], fun _ => none⟩) (t := true) h₁ hsup₁)
  have hrun₂ := hrun₁.snoc (.writeBlock List.mem_cons_self h₂)
  have hrun₃ := hrun₂.snoc (.require (t := false) h₃ hsup₃)
  have hrun₄ := hrun₃.snoc (.release List.mem_cons_self h₄)
  have hout : [(false, 1), (true, 0)].erase (false, (1 : UInt32)) = [(true, 0)] := by decide
  have hkeep := (blockUsers_keep_blocks h₀ hrun₄).2 true 0
  dsimp only at hkeep
  rw [hout] at hkeep
  have hread := (hkeep List.mem_cons_self).2 (fun _ => 7)
    (by rw [Function.update_of_ne (by decide), Function.update_self])
  exact ⟨⟨s₄, _, fun _ => none⟩, hout, hread⟩

end Nynn
