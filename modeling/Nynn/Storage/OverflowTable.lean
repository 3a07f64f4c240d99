import Nynn.Storage.FlatStore

/-!
# The direct-mapped table of overflow groups

The source keeps the mappings of at most `OVERFLOW_NUM` groups of overflow blocks, each group in
the slot that its number selects. To remember a mapping in an occupied slot unmaps the old one, so
a pointer into the old group must not be used any more. This file gives the table and relates the
primitives of a storage with the table to those of the store in which every block stays mapped.

Source: `Overflow` in `nynn_mm_subgraph_storage.h`.

## Main definitions

* `Nynn.Overflow`: the table, an instance of `Nynn.OverflowTable`.
* `Nynn.Sim`: a storage with the table is like a storage with every block mapped.
* `Nynn.Points`: a pointer to a block that may be used.
* `Nynn.Compatible`: getting one block does not unmap the group of another.

## Main results

* `Nynn.getBlock_sim`: `getBlock` returns a usable pointer and unmaps incompatible groups only.
* `Nynn.deref_sim`, `Nynn.assign_sim`: reading and writing through a usable pointer.
-/

namespace Nynn

open Program

variable {c : Config}

/-! ### The table -/

/-- `OverflowEntry`. -/
structure OverflowEntry where
  overflowBlkno : UInt32
  hit : UInt32
  overflowBlk : Option Mapping
  deriving DecidableEq, Repr

/-- `Overflow`: the slots of the table. -/
structure Overflow (c : Config) where
  table : Fin c.overflowNum → OverflowEntry

namespace Overflow

/-- `mapping`, the slot of a group. -/
def mapping (c : Config) (x : UInt32) : Fin c.overflowNum :=
  ⟨((x - c.overflowBlknoMin) >>>
      UInt32.ofNat (c.log2OverflowBlockSz - c.blockSz.log2)).toNat % c.overflowNum,
    Nat.mod_lt _ c.overflowNum_pos⟩

/-- The table of a new object. -/
def empty (c : Config) : Overflow c := ⟨fun _ => ⟨invalidBlkno, 0, none⟩⟩

/-- `get`. -/
def get (blkno : UInt32) (t : Overflow c) : Option Mapping × Overflow c :=
  let idx := mapping c blkno
  let entry := t.table idx
  if entry.overflowBlkno = blkno then
    (entry.overflowBlk, ⟨Function.update t.table idx { entry with hit := entry.hit + 1 }⟩)
  else (none, t)

/-- `set`; the mapping that was in the slot is unmapped. -/
def set (blkno : UInt32) (newOverflowBlk : Mapping) (t : Overflow c) : Overflow c :=
  ⟨Function.update t.table (mapping c blkno) ⟨blkno, 0, some newOverflowBlk⟩⟩

theorem set_self (blkno : UInt32) (m : Mapping) (t : Overflow c) :
    (set blkno m t).table (mapping c blkno) = ⟨blkno, 0, some m⟩ := Function.update_self ..

theorem set_of_ne {blkno : UInt32} {i : Fin c.overflowNum} (h : i ≠ mapping c blkno)
    (m : Mapping) (t : Overflow c) : (set blkno m t).table i = t.table i :=
  Function.update_of_ne h ..

instance : OverflowTable (Overflow c) where
  get := get
  set := set
  isMapped t base := decide ((t.table (mapping c base.group)).overflowBlk = some base)

/-- The mappings in the table are in their slots, under their numbers, at old addresses. -/
structure WellFormed (t : Overflow c) (mmaps : ℕ) : Prop where
  group : ∀ i m, (t.table i).overflowBlk = some m → m.group = (t.table i).overflowBlkno
  slot : ∀ i m, (t.table i).overflowBlk = some m → mapping c m.group = i
  addr : ∀ i m, (t.table i).overflowBlk = some m → m.addr < mmaps
  free : ∀ i, (t.table i).overflowBlk = none → (t.table i).overflowBlkno = invalidBlkno

theorem wellFormed_empty (mmaps : ℕ) : (empty c).WellFormed mmaps where
  group _ _ h := by cases h
  slot _ _ h := by cases h
  addr _ _ h := by cases h
  free _ _ := rfl

namespace WellFormed

variable {t : Overflow c} {n : ℕ}

theorem mono {m : ℕ} (h : t.WellFormed n) (hnm : n ≤ m) : t.WellFormed m :=
  ⟨h.group, h.slot, fun i base hbase => (h.addr i base hbase).trans_le hnm, h.free⟩

/-- A hit returns the mapping of the group, and only counts. -/
theorem get_of_hit (h : t.WellFormed n) {blkno : UInt32} (hne : blkno ≠ invalidBlkno)
    (hhit : (t.table (mapping c blkno)).overflowBlkno = blkno) :
    ∃ m t', get blkno t = (some m, t') ∧ m.group = blkno ∧ t'.WellFormed n ∧
      (∀ i, (t'.table i).overflowBlk = (t.table i).overflowBlk) ∧
      (t.table (mapping c blkno)).overflowBlk = some m := by
  obtain ⟨idx, hidx⟩ : ∃ idx, idx = mapping c blkno := ⟨_, rfl⟩
  rw [← hidx] at hhit ⊢
  cases hblk : (t.table idx).overflowBlk with
  | none => exact absurd ((hhit.symm.trans (h.free idx hblk))) hne
  | some m =>
    refine ⟨m, ⟨Function.update t.table idx
      { t.table idx with hit := (t.table idx).hit + 1 }⟩, ?_, ?_, ?_, ?_, rfl⟩
    · simp only [get, ← hidx, if_pos hhit, hblk]
    · exact (h.group idx m hblk).trans hhit
    · have hentry : ∀ i, (Function.update t.table idx
          { t.table idx with hit := (t.table idx).hit + 1 } i).overflowBlk =
            (t.table i).overflowBlk ∧ (Function.update t.table idx
          { t.table idx with hit := (t.table idx).hit + 1 } i).overflowBlkno =
            (t.table i).overflowBlkno := fun i => by
        by_cases hi : i = idx
        · simp [hi]
        · simp [hi]
      refine ⟨fun i m hm => ?_, fun i m hm => ?_, fun i m hm => ?_, fun i hm => ?_⟩
      · rw [(hentry i).2]
        exact h.group i m ((hentry i).1 ▸ hm)
      · exact h.slot i m ((hentry i).1 ▸ hm)
      · exact h.addr i m ((hentry i).1 ▸ hm)
      · rw [(hentry i).2]
        exact h.free i ((hentry i).1 ▸ hm)
    · intro i
      by_cases hi : i = idx
      · simp [hi]
      · simp [hi]

theorem get_of_miss {blkno : UInt32}
    (hmiss : (t.table (mapping c blkno)).overflowBlkno ≠ blkno) : get blkno t = (none, t) := by
  simp only [get, if_neg hmiss]

/-- A mapping put into the table. -/
theorem set (h : t.WellFormed n) {m : Mapping} (haddr : m.addr < n) :
    (Overflow.set m.group m t).WellFormed n := by
  have hself : ∀ i, i = mapping c m.group →
      (Overflow.set m.group m t).table i = ⟨m.group, 0, some m⟩ := by
    rintro i rfl
    exact set_self ..
  have hother : ∀ i, i ≠ mapping c m.group →
      (Overflow.set m.group m t).table i = t.table i := fun i hi =>
    set_of_ne hi _ _
  refine ⟨fun i m' hm => ?_, fun i m' hm => ?_, fun i m' hm => ?_, fun i hm => ?_⟩
  · by_cases hi : i = mapping c m.group
    · rw [hself i hi] at hm ⊢
      exact congrArg Mapping.group (Option.some.inj hm).symm
    · rw [hother i hi] at hm ⊢
      exact h.group i m' hm
  · by_cases hi : i = mapping c m.group
    · rw [hself i hi] at hm
      rw [hi, Option.some.inj hm]
    · rw [hother i hi] at hm
      exact h.slot i m' hm
  · by_cases hi : i = mapping c m.group
    · rw [hself i hi] at hm
      exact (Option.some.inj hm) ▸ haddr
    · rw [hother i hi] at hm
      exact h.addr i m' hm
  · by_cases hi : i = mapping c m.group
    · rw [hself i hi] at hm
      cases hm
    · rw [hother i hi] at hm ⊢
      exact h.free i hm

end WellFormed

end Overflow

/-! ### Simulation -/

/-- A storage with the table and one in which every block stays mapped have the same superblock,
the same bytes and the same files; the table is well formed, every group has a file with bytes, and
a file is opened and mapped again whenever it is asked for. -/
structure Sim (s : Storage c (Overflow c)) (t : FlatStorage c) : Prop where
  superblk : s.superblk = t.superblk
  blocks : s.blocks = t.blocks
  files : s.files = t.files
  table : s.overflow.WellFormed s.mmaps
  aligned : t.superblk.supBlkno.toNat % c.groupSize = 0
  hasFile : ∀ b, isOverflow c b = true → b < t.superblk.supBlkno →
    t.files (overflowGroup c b) = true
  hasBytes : ∀ b, isOverflow c b = true → b < t.superblk.supBlkno →
    s.emptyFiles (overflowGroup c b) = false
  isFile : ∀ g, s.emptyFiles g = true → s.files g = true
  reopens : ∀ n, s.reopens n = none

/-- `p` is a pointer to the block `b`, and it may be used. -/
def Points (s : Storage c (Overflow c)) (p : Ptr) (b : UInt32) : Prop :=
  (isFlat c b = true ∧ p = .volume b) ∨
  (isFlat c b = false ∧ ∃ m : Mapping, p = .overflow m (b &&& c.overflowBlknoMask) ∧
    m.group = overflowGroup c b ∧ OverflowTable.isMapped s.overflow m = true)

/-- To get the block `b` does not unmap the group of the block `a`. -/
def Compatible (c : Config) (a b : UInt32) : Prop :=
  isFlat c a = true ∨ isFlat c b = true ∨ overflowGroup c a = overflowGroup c b ∨
    Overflow.mapping c (overflowGroup c a) ≠ Overflow.mapping c (overflowGroup c b)

instance (a b : UInt32) : Decidable (Compatible c a b) := by
  unfold Compatible
  infer_instance

namespace Points

variable {s s' : Storage c (Overflow c)} {p : Ptr} {b : UInt32}

theorem blkno (h : Points s p b) : p.blkno = b := by
  rcases h with ⟨-, rfl⟩ | ⟨-, m, rfl, hm, -⟩
  · rfl
  · rw [Ptr.blkno, hm, overflowGroup_add]

theorem isUsable (h : Points s p b) : s.isUsable p = true := by
  rcases h with ⟨-, rfl⟩ | ⟨-, m, rfl, -, hmapped⟩
  · rfl
  · exact hmapped

theorem congr (h : Points s p b) (hmapped : ∀ m : Mapping, m.group = overflowGroup c b →
    OverflowTable.isMapped s.overflow m = true → OverflowTable.isMapped s'.overflow m = true) :
    Points s' p b := by
  rcases h with hflat | ⟨hflat, m, hp, hm, hmap⟩
  · exact Or.inl hflat
  · exact Or.inr ⟨hflat, m, hp, hm, hmapped m hm hmap⟩

end Points

theorem isMapped_iff {t : Overflow c} {m : Mapping} : OverflowTable.isMapped t m = true ↔
    (t.table (Overflow.mapping c m.group)).overflowBlk = some m := decide_eq_true_iff

theorem overflowGroup_ne_invalidBlkno {b : UInt32} (hb : isOverflow c b = true) :
    overflowGroup c b ≠ invalidBlkno := by
  intro he
  have hgroup := toNat_overflowGroup (c := c) b
  have hmax := c.blknoMax.toNat_lt
  rw [isOverflow, Bool.and_eq_true, decide_eq_true_iff, decide_eq_true_iff,
    UInt32.lt_iff_toNat_lt] at hb
  have : invalidBlkno.toNat = 2 ^ 32 - 1 := rfl
  rw [he] at hgroup
  omega

section Primitives

variable {s : Storage c (Overflow c)} {t : FlatStorage c} {b : UInt32} {p : Ptr}

theorem Sim.isBlock_eq (h : Sim s t) : s.isBlock b = t.isBlock b := by
  rw [Storage.isBlock, Storage.isBlock, h.superblk]

/-- The mapping of the group of an overflow block. -/
private theorem getMapping_sim (h : Sim s t) (hover : isOverflow c b = true)
    (hlt : b < t.superblk.supBlkno) :
    ∃ m s', (getMapping b).run s = (.ok m, s') ∧ Sim s' t ∧ m.group = overflowGroup c b ∧
      OverflowTable.isMapped s'.overflow m = true ∧
      ∀ m' : Mapping, OverflowTable.isMapped s.overflow m' = true →
        (m'.group = overflowGroup c b ∨ Overflow.mapping c m'.group ≠
          Overflow.mapping c (overflowGroup c b)) →
        OverflowTable.isMapped s'.overflow m' = true := by
  have hne := overflowGroup_ne_invalidBlkno hover
  have hgetOverflow : ∀ r t', Overflow.get (overflowGroup c b) s.overflow = (r, t') →
      (getOverflowBlock b : StorageM c (Overflow c) (Option Mapping)).run s =
        (.ok r, { s with overflow := t' }) := by
    intro r t' hget
    rw [getOverflowBlock, Prog.run_get_bind]
    simp only [OverflowTable.get, hget, Prog.run_modify_bind, Prog.run_pure]
  by_cases hhit : (s.overflow.table (Overflow.mapping c (overflowGroup c b))).overflowBlkno =
      overflowGroup c b
  · obtain ⟨m, t', hget, hgroup, hwell, hentries, hblk⟩ := h.table.get_of_hit hne hhit
    refine ⟨m, { s with overflow := t' }, ?_, ⟨h.superblk, h.blocks, h.files, hwell, h.aligned,
      h.hasFile, h.hasBytes, h.isFile, h.reopens⟩, hgroup, ?_, fun m' hm' _ => ?_⟩
    · rw [getMapping, Prog.run_bind_of_ok (hgetOverflow _ _ hget)]
      rfl
    · rw [isMapped_iff, hentries, hgroup, hblk]
    · rw [isMapped_iff] at hm' ⊢
      rw [hentries, hm']
  · have hget := Overflow.WellFormed.get_of_miss hhit
    obtain ⟨m, hm⟩ : ∃ m : Mapping, m = ⟨s.mmaps, overflowGroup c b⟩ := ⟨_, rfl⟩
    have hfile : s.files (overflowGroup c b) = true := by
      rw [h.files]
      exact h.hasFile b hover hlt
    have hbytes : ¬s.emptyFiles (overflowGroup c b) = true := by
      rw [h.hasBytes b hover hlt]
      exact Bool.false_ne_true
    have hmap : (mmapFile (overflowGroup c b) : StorageM c (Overflow c) Mapping).run s =
        (.ok m, { s with mmaps := s.mmaps + 1 }) := by
      rw [mmapFile, Prog.run_get_bind, if_pos hfile, if_neg hbytes, hm]
      simp only [h.reopens]
      rfl
    have hpath : (makeOverflowPath b : StorageM c (Overflow c) UInt32).run s =
        (.ok (overflowGroup c b), s) := by
      rw [makeOverflowPath, if_pos hover, Prog.run_pure]
    have hmgroup : m.group = overflowGroup c b := by rw [hm]
    have hwell := (h.table.mono (Nat.le_succ s.mmaps)).set (m := m) (by
      rw [hm]
      exact Nat.lt_succ_self _)
    rw [hmgroup] at hwell
    refine ⟨m, { s with mmaps := s.mmaps + 1,
                        overflow := Overflow.set (overflowGroup c b) m s.overflow }, ?_,
      ⟨h.superblk, h.blocks, h.files, hwell, h.aligned, h.hasFile, h.hasBytes, h.isFile,
        h.reopens⟩, hmgroup, ?_,
      fun m' hm' hcomp => ?_⟩
    · rw [getMapping, Prog.run_bind_of_ok (hgetOverflow _ _ hget)]
      change (makeOverflowPath b >>= _).run s = _
      rw [Prog.run_bind_of_ok hpath, Prog.run_bind_of_ok hmap]
      rfl
    · rw [isMapped_iff, hmgroup, Overflow.set_self]
    · rw [isMapped_iff] at hm' ⊢
      rcases hcomp with hsame | hdiff
      · rw [hsame] at hm'
        exact absurd ((h.table.group _ _ hm').symm.trans hsame) hhit
      · rwa [Overflow.set_of_ne hdiff]

/-- `getBlock` returns null in both storages, or pointers to the block, and the pointers to blocks
that are compatible with it stay usable. -/
theorem getBlock_sim (h : Sim s t) (b : UInt32) :
    (t.isBlock b = false ∧ (getBlock b).run s = (.ok none, s)) ∨
    (t.isBlock b = true ∧ ∃ p s', (getBlock b).run s = (.ok (some p), s') ∧ Sim s' t ∧
      Points s' p b ∧ ∀ p' a, Points s p' a → Compatible c a b → Points s' p' a) := by
  by_cases hflat : isFlat c b = true
  · refine Or.inr ⟨by rw [Storage.isBlock, hflat, Bool.true_or], .volume b, s, ?_, h,
      Or.inl ⟨hflat, rfl⟩, fun _ _ hp _ => hp⟩
    rw [getBlock, if_pos hflat, Prog.run_pure]
  · have hflat' : isFlat c b = false := by simpa using hflat
    by_cases hover : (isOverflow c b && decide (b < t.superblk.supBlkno)) = true
    · obtain ⟨hov, hlt⟩ := Bool.and_eq_true_iff.mp hover
      obtain ⟨m, s', hrun, hsim, hgroup, hmapped, hkept⟩ :=
        getMapping_sim h hov (of_decide_eq_true hlt)
      refine Or.inr ⟨by rw [Storage.isBlock, hover, Bool.or_true],
        .overflow m (b &&& c.overflowBlknoMask), s', ?_, hsim,
        Or.inr ⟨hflat', m, rfl, hgroup, hmapped⟩, fun p' a hp' hcomp => ?_⟩
      · rw [getBlock, if_neg hflat, Prog.run_get_bind, h.superblk, if_pos hover,
          Prog.run_bind_of_ok hrun, Prog.run_pure]
      · by_cases ha : isFlat c a = true
        · rcases hp' with hp' | ⟨hnot, -⟩
          · exact Or.inl hp'
          · rw [hnot] at ha
            cases ha
        · refine hp'.congr fun m' hm' hmap' => hkept m' hmap' ?_
          rcases hcomp with hcomp | hcomp | hcomp | hcomp
          · exact absurd hcomp ha
          · exact absurd hcomp hflat
          · exact Or.inl (hm'.trans hcomp)
          · exact Or.inr (by rwa [hm'])
    · refine Or.inl ⟨?_, ?_⟩
      · rw [Storage.isBlock, hflat', Bool.false_or]
        simpa using hover
      · rw [getBlock, if_neg hflat, Prog.run_get_bind, h.superblk, if_neg hover, Prog.run_pure]

/-- Reading through a usable pointer. -/
theorem deref_sim (h : Sim s t) (hp : Points s p b) :
    (deref (some p)).run s = (.ok (t.blocks b), s) := by
  rw [deref, Prog.run_get_bind, if_pos hp.isUsable, Prog.run_pure, hp.blkno, h.blocks]

theorem Sim.setBlock (h : Sim s t) (b : UInt32) (blk : Block c.blockSz) :
    Sim (s.setBlock b blk) (t.setBlock b blk) :=
  ⟨h.superblk, by rw [blocks_setBlock, blocks_setBlock, h.blocks], h.files, h.table, h.aligned,
    h.hasFile, h.hasBytes, h.isFile, h.reopens⟩

/-- Writing through a usable pointer. -/
theorem assign_sim (hp : Points s p b) (blk : Block c.blockSz) :
    (assign (some p) blk).run s = (.ok (), s.setBlock b blk) := by
  rw [assign, Prog.run_get_bind, if_pos hp.isUsable, Prog.run_modify, hp.blkno]
  rfl

theorem Points.setBlock (hp : Points s p b) (a : UInt32) (blk : Block c.blockSz) :
    Points (s.setBlock a blk) p b := hp

end Primitives

end Nynn
