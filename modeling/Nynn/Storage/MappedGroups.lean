import Nynn.Storage.Environment
import Nynn.Storage.Following
import Nynn.Storage.Transparency

/-!
# Requires on the table, whatever the operating system refuses

A require that makes a group holds the mapping of this group, and asks for no other. It does what
it does on the store in which every block stays mapped, also where it fails. A require that finds a
free block needs the head of the free list. When the group of the head has left the table and the
system refuses to map its file again, the require fails after it has counted the block as taken.

Source: `nynn_mm_subgraph_storage.h`.

## Main definitions

* `Nynn.Storage.Sound`: the table is well formed, and every group that was made has its file.
* `Nynn.Storage.Maps`: a block is got, unless its number is the number of no block.

## Main results

* `Nynn.require_of_nil`: a require without a free block.
* `Nynn.Storage.Sound.require_of_maps`: a require whose free block is got.
* `Nynn.Storage.Sound.require_of_not_maps`: a require whose free block is not got.
-/

namespace Nynn

open Program

variable {c : Config}

/-! ### A group that is mapped -/

namespace Overflow

/-- The mapping of the group `g` is in its slot. -/
def Has (g : UInt32) (t : Overflow c) : Prop :=
  (t.table (mapping c g)).overflowBlkno = g ∧
    ∃ base, (t.table (mapping c g)).overflowBlk = some base ∧ base.group = g

theorem has_set (g : UInt32) {base : Mapping} (h : base.group = g) (t : Overflow c) :
    Has g (set g base t) := by
  rw [Has, set_self]
  exact ⟨rfl, base, rfl, h⟩

/-- To get a mapped group counts a hit. -/
theorem held (g : UInt32) :
    Held c (fun b => isFlat c b = true ∨ overflowGroup c b = g) (Has (c := c) g) where
  get b t hb hnot h := by
    obtain ⟨hno, base, hbase, hgroup⟩ := h
    have hg : overflowGroup c b = g :=
      hb.resolve_left (ne_of_eq_of_ne hnot Bool.false_ne_true)
    obtain ⟨t', ht'⟩ : ∃ t' : Overflow c, t' = ⟨Function.update t.table (mapping c g)
      { t.table (mapping c g) with hit := (t.table (mapping c g)).hit + 1 }⟩ := ⟨_, rfl⟩
    have hentries : ∀ i, (t'.table i).overflowBlk = (t.table i).overflowBlk := fun i => by
      by_cases hi : i = mapping c g
      · simp [ht', hi]
      · simp [ht', hi]
    refine ⟨base, t', ?_, hgroup.trans hg.symm, ?_, ⟨?_, base, ?_, hgroup⟩,
      fun base' hbase' => ?_⟩
    · rw [hg, ht']
      simp only [OverflowTable.get, get, if_pos hno, hbase]
    · rw [isMapped_iff, hgroup, hentries, hbase]
    · rw [ht']
      simp only [Function.update_self, hno]
    · rw [hentries, hbase]
    · rw [isMapped_iff] at hbase' ⊢
      rw [hentries, hbase']

end Overflow

/-! ### A require without a free block -/

section Nil

variable {M : Type}

/-- To create a file does not look at the table. -/
private theorem createMmapFile_flat (disk : CreateOutcome) (path : UInt32) (s : Storage c M) :
    (createMmapFile disk path).run s.flat =
      (((createMmapFile disk path).run s).1, ((createMmapFile disk path).run s).2.flat) := by
  rw [createMmapFile.eq_def, createMmapFile.eq_def, Prog.run_get_bind, Prog.run_get_bind]
  by_cases hfile : s.files path = true
  · rw [if_pos hfile, files_flat, if_pos hfile]
    rfl
  · rw [if_neg hfile, files_flat, if_neg hfile]
    cases disk <;> rfl

/-- The mapping of a new file is the one of its group. -/
private theorem group_of_createMmapFile {disk : CreateOutcome} {path : UInt32} {s s' : Storage c M}
    {m : Mapping} (h : (createMmapFile disk path).run s = (.ok m, s')) :
    m.group = path ∧ s'.superblk = s.superblk := by
  rw [createMmapFile.eq_def, Prog.run_get_bind] at h
  by_cases hfile : s.files path = true
  · rw [if_pos hfile] at h
    cases h
  · rw [if_neg hfile] at h
    cases disk with
    | ok =>
      cases h
      exact ⟨rfl, rfl⟩
    | openFails errno => cases h
    | writeFails errno => cases h
    | laterCallFails errno => cases h

end Nil

/-- **A require without a free block** asks for one mapping only, the one of the new group, and does
what it does on the store in which every block stays mapped. -/
theorem require_of_nil {s : Storage c (Overflow c)} (disk : CreateOutcome)
    (hhead : s.superblk.headBlkno = invalidBlkno)
    (haligned : s.superblk.supBlkno.toNat % c.groupSize = 0) :
    (require disk).run s.flat = (((require disk).run s).1, ((require disk).run s).2.flat) := by
  rw [require_of_invalid disk hhead, require_of_invalid (s := s.flat) disk hhead,
    requireUnallocated, requireUnallocated, Prog.run_get_bind, Prog.run_get_bind]
  dsimp only
  rw [superblk_flat]
  obtain ⟨sup, hsup⟩ : ∃ sup, sup = s.superblk.supBlkno := ⟨_, rfl⟩
  rw [← hsup] at haligned ⊢
  by_cases hover : isOverflow c sup = true
  · have hpath {M : Type} : (makeOverflowPath sup : StorageM c M UInt32) =
        pure (overflowGroup c sup) := if_pos hover
    rw [hpath, hpath, Prog.pure_bind, Prog.pure_bind]
    have hflat := createMmapFile_flat disk (overflowGroup c sup) s
    rcases hcreate : (createMmapFile disk (overflowGroup c sup)).run s with ⟨e | m, s₁⟩
    · rw [hcreate] at hflat
      rw [Prog.run_bind_of_error hcreate, Prog.run_bind_of_error hflat]
    rw [hcreate] at hflat
    rw [Prog.run_bind_of_ok hcreate, Prog.run_bind_of_ok hflat]
    obtain ⟨hgroup, hsuper⟩ := group_of_createMmapFile hcreate
    -- The group is in the table, and all its blocks are in it.
    obtain ⟨s₂, hs₂⟩ : ∃ s₂, s₂ = { s₁ with
      overflow := Overflow.set (overflowGroup c sup) m s₁.overflow
      superblk := { s₁.superblk with supBlkno := sup + c.overflowBlknoMask + 1 } } := ⟨_, rfl⟩
    have hstart : Follows (fun b => isFlat c b = true ∨ overflowGroup c b = overflowGroup c sup)
        (Overflow.Has (overflowGroup c sup)) [] s₂ s₂.flat :=
      ⟨rfl, hs₂ ▸ Overflow.has_set _ hgroup _, Or.inl (by rw [hs₂, hsuper, hhead]),
        List.forall_mem_nil _⟩
    have hrel := Rel.bind (releaseGroup_follows (Overflow.held _) fun i hi =>
      Or.inr (overflowGroup_add_ofNat haligned hi)) fun _ _ =>
        requireAllocated_follows (Overflow.held (c := c) (overflowGroup c sup))
    have hfst := hrel.run_fst (fun _ _ _ _ h => h.1) hstart
    have hsnd := hrel.run_snd (R := fun s t => t = s.flat) (fun _ _ _ _ h => h.2)
      (fun _ _ _ h => h) hstart
    have hrun : ((setOverflowBlock sup m >>= fun _ => setSupBlkno (sup + c.overflowBlknoMask + 1) >>=
        fun _ => releaseGroup sup c.groupSize >>= fun _ => requireAllocated :
          StorageM c (Overflow c) UInt32)).run s₁ =
        ((releaseGroup sup c.groupSize >>= fun _ => requireAllocated :
          StorageM c (Overflow c) UInt32)).run s₂ := by
      rw [hs₂]
      rfl
    have hrun' : ((setOverflowBlock sup m >>= fun _ => setSupBlkno (sup + c.overflowBlknoMask + 1) >>=
        fun _ => releaseGroup sup c.groupSize >>= fun _ => requireAllocated :
          StorageM c AllMapped UInt32)).run s₁.flat =
        ((releaseGroup sup c.groupSize >>= fun _ => requireAllocated :
          StorageM c AllMapped UInt32)).run s₂.flat := by
      rw [hs₂]
      rfl
    exact hrun'.trans (Prod.ext (hfst.symm.trans (congrArg Prod.fst hrun.symm))
      (hsnd.trans (congrArg (fun r => Storage.flat r.2) hrun.symm)))
  · have hpath {M : Type} : (makeOverflowPath sup : StorageM c M UInt32) =
        throwNynnException "blkno is invalid or not overflow" := if_neg hover
    rw [hpath, hpath]
    rfl

/-! ### Getting a block -/

/-- The table is well formed, the groups are aligned, and every group that was made has its file. -/
def Storage.Sound (s : Storage c (Overflow c)) : Prop := Sim s.healed s.flat

/-- A block of the volume, or of a group that is in the table, or whose file is mapped again. -/
def Storage.Maps (s : Storage c (Overflow c)) (b : UInt32) : Prop :=
  isFlat c b = true ∨
    (s.overflow.table (Overflow.mapping c (overflowGroup c b))).overflowBlkno = overflowGroup c b ∨
    s.reopens s.mmaps = none

instance (s : Storage c (Overflow c)) (b : UInt32) : Decidable (s.Maps b) := by
  unfold Storage.Maps
  infer_instance

section Getting

variable {s s' : Storage c (Overflow c)} {t t' : FlatStorage c} {b : UInt32}

theorem Sim.congr_right (h : Sim s t) (hsuper : t'.superblk = t.superblk)
    (hblocks : t'.blocks = t.blocks) (hfiles : t'.files = t.files) : Sim s t' :=
  ⟨h.superblk.trans hsuper.symm, h.blocks.trans hblocks.symm, h.files.trans hfiles.symm, h.table,
    hsuper ▸ h.aligned, fun b hb hlt => hfiles ▸ h.hasFile b hb (hsuper ▸ hlt),
    fun b hb hlt => h.hasBytes b hb (hsuper ▸ hlt), h.isFile, h.reopens⟩

theorem Sim.sound (h : Sim s.healed t) : s.Sound := h.congr_right h.superblk h.blocks h.files

theorem Sim.healed (h : Sim s t) : Sim s.healed t :=
  ⟨h.superblk, h.blocks, h.files, h.table, h.aligned, h.hasFile, h.hasBytes, h.isFile, fun _ => rfl⟩

/-- The file of a group that is not in the table is opened and mapped again. -/
private theorem getBlock_of_miss (h : s.Sound) (hblk : s.isBlock b = true)
    (hflat : ¬isFlat c b = true)
    (hmiss : (s.overflow.table (Overflow.mapping c (overflowGroup c b))).overflowBlkno ≠
      overflowGroup c b) :
    (∀ errno, s.reopens s.mmaps = some errno →
      (getBlock b).run s = (.error (.exception errno), { s with mmaps := s.mmaps + 1 })) ∧
    (s.reopens s.mmaps = none → ∃ p s', (getBlock b).run s = (.ok p, s')) := by
  have hover : (isOverflow c b && decide (b < s.superblk.supBlkno)) = true := by
    simpa [Storage.isBlock, hflat] using hblk
  obtain ⟨hov, hlt⟩ := Bool.and_eq_true_iff.mp hover
  have hfile : s.files (overflowGroup c b) = true := Sim.hasFile h b hov (of_decide_eq_true hlt)
  have hbytes : ¬s.emptyFiles (overflowGroup c b) = true := by
    have hfalse : s.emptyFiles (overflowGroup c b) = false :=
      Sim.hasBytes h b hov (of_decide_eq_true hlt)
    rw [hfalse]
    exact Bool.false_ne_true
  have hget : (getOverflowBlock b : StorageM c (Overflow c) (Option Mapping)).run s =
      (.ok none, s) := by
    rw [getOverflowBlock, Prog.run_get_bind]
    simp only [OverflowTable.get, Overflow.WellFormed.get_of_miss hmiss, Prog.run_modify_bind,
      Prog.run_pure]
  have hpath : (makeOverflowPath b : StorageM c (Overflow c) UInt32).run s =
      (.ok (overflowGroup c b), s) := by
    rw [makeOverflowPath, if_pos hov, Prog.run_pure]
  refine ⟨fun errno herr => ?_, fun hnone => ?_⟩
  · have hmap : (mmapFile (overflowGroup c b) : StorageM c (Overflow c) Mapping).run s =
        (.error (.exception errno), { s with mmaps := s.mmaps + 1 }) := by
      rw [mmapFile, Prog.run_get_bind, if_pos hfile, if_neg hbytes]
      simp only [herr]
      rfl
    rw [getBlock, if_neg hflat, Prog.run_get_bind, if_pos hover]
    refine Prog.run_bind_of_error ?_
    rw [getMapping, Prog.run_bind_of_ok hget]
    exact (Prog.run_bind_of_ok hpath).trans (Prog.run_bind_of_error hmap)
  · have hmap : (mmapFile (overflowGroup c b) : StorageM c (Overflow c) Mapping).run s =
        (.ok ⟨s.mmaps, overflowGroup c b⟩, { s with mmaps := s.mmaps + 1 }) := by
      rw [mmapFile, Prog.run_get_bind, if_pos hfile, if_neg hbytes]
      simp only [hnone]
      rfl
    rw [getBlock, if_neg hflat, Prog.run_get_bind, if_pos hover]
    have hmapping : (getMapping b : StorageM c (Overflow c) Mapping).run s =
        (.ok ⟨s.mmaps, overflowGroup c b⟩, { s with
          mmaps := s.mmaps + 1
          overflow := Overflow.set (overflowGroup c b) ⟨s.mmaps, overflowGroup c b⟩ s.overflow }) := by
      rw [getMapping, Prog.run_bind_of_ok hget]
      exact (Prog.run_bind_of_ok hpath).trans (Prog.run_bind_of_ok hmap)
    exact ⟨_, _, Prog.run_bind_of_ok hmapping⟩

end Getting

/-! ### Calls that succeed -/

section Succeeding

variable {s s' : Storage c (Overflow c)} {t : FlatStorage c} {b : UInt32} {stack : List UInt32}
  {disk : CreateOutcome}

/-- A call that succeeds does what it does on the store in which every block stays mapped. -/
theorem Sim.require_of_ok (h : Sim s t) (hfree : FreeListOf t stack)
    (hrun : (require disk).run s = (.ok b, s')) :
    ∃ t', (require disk).run t = (.ok b, t') ∧ Sim s' t' :=
  (require_rel disk).of_ok_left ⟨h, hfree.requireSafe⟩ hrun

/-- A release that succeeds has used no stale pointer. -/
theorem Sim.release_of_ok (h : Sim s t) (hfree : FreeListOf t stack)
    (hrun : (release b).run s = (.ok (), s')) :
    ∃ t', (release b).run t = (.ok (), t') ∧ Sim s' t' := by
  by_cases hsafe : ReleaseSafe t b
  · exact ((release_rel b).mono (fun _ _ h => h) fun _ _ _ _ h => ⟨rfl, h⟩).of_ok_left
      ⟨h, hsafe⟩ hrun
  · have hne : t.superblk.headBlkno ≠ invalidBlkno := by
      rw [ReleaseSafe] at hsafe
      push Not at hsafe
      exact hsafe.2.1
    obtain ⟨s₁, hstale⟩ := releaseRaw_stale h hsafe (hfree.isBlock_head hne)
    rw [release, hstale] at hrun
    cases hrun

end Succeeding

namespace Storage.Sound

variable {s s' : Storage c (Overflow c)} {b top : UInt32} {stack : List UInt32}
  {disk : CreateOutcome}

/-- A block that needs no mapping, or whose file is mapped again, is got. -/
theorem getBlock_of_maps (h : s.Sound) (hblk : s.isBlock b = true) (hmaps : s.Maps b) :
    ∃ p s', (Nynn.getBlock b).run s = (.ok (some p), s') ∧ Sim s'.healed s.flat ∧ Points s' p b := by
  have hruns : ∃ p s', (Nynn.getBlock b).run s = (.ok p, s') := by
    by_cases hflat : isFlat c b = true
    · refine ⟨some (.volume b), s, ?_⟩
      rw [Nynn.getBlock, if_pos hflat, Prog.run_pure]
    by_cases hhit : (s.overflow.table (Overflow.mapping c (overflowGroup c b))).overflowBlkno =
        overflowGroup c b
    · have hover : (isOverflow c b && decide (b < s.superblk.supBlkno)) = true := by
        simpa [Storage.isBlock, hflat] using hblk
      have hov := (Bool.and_eq_true_iff.mp hover).1
      obtain ⟨m, t', hget, -⟩ := Overflow.WellFormed.get_of_hit (Sim.table h)
        (overflowGroup_ne_invalidBlkno hov) hhit
      have hgot : (getOverflowBlock b : StorageM c (Overflow c) (Option Mapping)).run s =
          (.ok (some m), { s with overflow := t' }) := by
        have hget' : Overflow.get (overflowGroup c b) s.overflow = (some m, t') := hget
        rw [getOverflowBlock, Prog.run_get_bind]
        simp only [OverflowTable.get, hget', Prog.run_modify_bind, Prog.run_pure]
      refine ⟨some (.overflow m (b &&& c.overflowBlknoMask)), { s with overflow := t' }, ?_⟩
      rw [Nynn.getBlock, if_neg hflat, Prog.run_get_bind, if_pos hover, getMapping,
        Prog.run_bind_of_ok (Prog.run_bind_of_ok hgot)]
      rfl
    · exact (getBlock_of_miss h hblk hflat hhit).2
        ((hmaps.resolve_left hflat).resolve_left hhit)
  obtain ⟨p, s', hrun⟩ := hruns
  have hrun' := (failsOr_getBlock (g := fun _ => none) rfl b).of_ok hrun
  rcases getBlock_sim h b with ⟨hnot, -⟩ | ⟨-, p', s'', hrun'', hsim, hp, -⟩
  · exact absurd (hblk.symm.trans hnot) Bool.true_eq_false.mp
  · rw [hrun', Prod.mk.injEq, Except.ok.injEq] at hrun''
    obtain ⟨rfl, rfl⟩ := hrun''
    exact ⟨p', s', hrun, hsim, hp⟩

/-- To get any other block of a group fails. -/
theorem getBlock_of_not_maps (h : s.Sound) (hblk : s.isBlock b = true) (hnot : ¬s.Maps b) :
    ∃ what, (Nynn.getBlock b).run s =
      (.error (.exception what), { s with mmaps := s.mmaps + 1 }) := by
  rw [Storage.Maps, not_or, not_or] at hnot
  obtain ⟨errno, herrno⟩ := Option.ne_none_iff_exists'.mp hnot.2.2
  exact ⟨errno, (getBlock_of_miss h hblk hnot.1 hnot.2.1).1 errno herrno⟩

/-- To get a block changes nothing but the mappings. -/
theorem getBlock {r : Except Fault (Option Ptr)} (h : s.Sound)
    (hrun : (Nynn.getBlock b).run s = (r, s')) : Sim s'.healed s.flat := by
  by_cases hblk : s.isBlock b = true
  · by_cases hmaps : s.Maps b
    · obtain ⟨p, s'', hrun', hsim, -⟩ := h.getBlock_of_maps hblk hmaps
      rw [hrun, Prod.mk.injEq] at hrun'
      obtain ⟨-, rfl⟩ := hrun'
      exact hsim
    · obtain ⟨what, hrun'⟩ := h.getBlock_of_not_maps hblk hmaps
      rw [hrun, Prod.mk.injEq] at hrun'
      obtain ⟨-, rfl⟩ := hrun'
      have hs : Sim s.healed s.flat := h
      exact ⟨rfl, rfl, rfl, hs.table.mono (Nat.le_succ s.mmaps), hs.aligned, hs.hasFile,
        hs.hasBytes, hs.isFile, fun _ => rfl⟩
  · rw [Bool.not_eq_true] at hblk
    rw [getBlock_of_not_isBlock hblk, Prod.mk.injEq] at hrun
    obtain ⟨-, rfl⟩ := hrun
    exact h

/-- A require that succeeds. -/
theorem require (h : s.Sound) (hfree : FreeListOf s.flat stack)
    (hrun : (Nynn.require disk).run s = (.ok b, s')) :
    ∃ t', (Nynn.require disk).run s.flat = (.ok b, t') ∧ Sim s'.healed t' :=
  Sim.require_of_ok h hfree ((failsOr_require rfl (Or.inl rfl)).of_ok hrun)

/-- A release that succeeds; it has used no stale pointer. -/
theorem release (h : s.Sound) (hfree : FreeListOf s.flat stack)
    (hrun : (Nynn.release b).run s = (.ok (), s')) :
    ∃ t', (Nynn.release b).run s.flat = (.ok (), t') ∧ Sim s'.healed t' :=
  Sim.release_of_ok h hfree ((failsOr_release rfl b).of_ok hrun)

/-! ### A require with a free block -/

/-- The state in which `getBlock` finds the head of the free list. -/
private def counted (s : Storage c (Overflow c)) : Storage c (Overflow c) :=
  { s with superblk := { s.superblk with numOfFreeBlks := s.superblk.numOfFreeBlks - 1 } }

private theorem counted_sound (h : s.Sound) : (counted s).Sound :=
  Sim.setSuperBlock (f := fun sb => { sb with numOfFreeBlks := sb.numOfFreeBlks - 1 }) h
    fun _ => rfl

/-- A pointer to a block of the volume or of a group in the table is held. -/
private theorem exists_held {s : Storage c (Overflow c)} {t : FlatStorage c} {p : Ptr}
    (h : Sim s.healed t) (hp : Points s p b) : ∃ B I, Held c B I ∧ B b ∧ I s.overflow := by
  rcases hp with ⟨hflat, -⟩ | ⟨-, m, -, hgroup, hmapped⟩
  · exact ⟨_, _, held_isFlat, hflat, trivial⟩
  · have hslot := isMapped_iff.mp hmapped
    have hno := h.table.group _ _ hslot
    rw [hgroup] at hslot hno
    exact ⟨_, _, Overflow.held (overflowGroup c b), Or.inr rfl, hno.symm, m, hslot, hgroup⟩

/-- The head of the free list is mapped: a require takes the block on top. -/
theorem require_of_maps (h : s.Sound) (hfree : FreeListOf s.flat (top :: stack))
    (hmaps : s.Maps s.superblk.headBlkno) (disk : CreateOutcome) :
    ∃ s', (Nynn.require disk).run s = (.ok top, s') := by
  have hne : s.superblk.headBlkno ≠ invalidBlkno := fun e => by cases hfree.nil_iff.mpr e
  have hblk : (counted s).isBlock s.superblk.headBlkno = true := hfree.isBlock_head hne
  obtain ⟨p, s₁, hget, hsim, hp⟩ := (counted_sound h).getBlock_of_maps hblk hmaps
  obtain ⟨B, I, hheld, hB, hI⟩ := exists_held hsim hp
  have hsuper : s₁.superblk = (counted s).superblk := hsim.superblk
  have hblk₁ : s₁.flat.isBlock s.superblk.headBlkno = true := by
    rw [Storage.isBlock, superblk_flat, hsuper]
    exact hblk
  -- The store with the mappings of `s₁`, before the block is counted.
  obtain ⟨u, hu⟩ : ∃ u : FlatStorage c, u = { s₁.flat with superblk := s.superblk } := ⟨_, rfl⟩
  have hcounted : s₁.flat = { u with
      superblk := { u.superblk with numOfFreeBlks := u.superblk.numOfFreeBlks - 1 } } := by
    rw [hu, Storage.flat, hsuper]
    rfl
  have hfree' : FreeListOf u (top :: stack) := by
    rw [hu]
    exact hfree.congr rfl rfl rfl fun b _ => congrFun hsim.blocks b
  have hhead : u.superblk.headBlkno = s.superblk.headBlkno := by rw [hu]
  have hgetFlat : (decNumberOfFreeBlks >>= fun _ => Nynn.getBlock s.superblk.headBlkno).run u =
      (.ok (some (blockPtr c s.superblk.headBlkno)), s₁.flat) := by
    change (Nynn.getBlock s.superblk.headBlkno).run { u with
      superblk := { u.superblk with numOfFreeBlks := u.superblk.numOfFreeBlks - 1 } } = _
    rw [← hcounted]
    exact getBlock_of_isBlock hblk₁
  have hfollows : Follows B I [(some p, some (blockPtr c s.superblk.headBlkno))] s₁ s₁.flat := by
    refine ⟨rfl, hI, Or.inr (by rw [hsuper]; exact hB), List.forall_mem_singleton.mpr (Or.inr
      ⟨_, _, rfl, rfl, ?_, hp.isUsable⟩)⟩
    rw [hp.blkno, blkno_blockPtr]
  have hfst := requireAllocated_of_got hheld hB hne hhead hget hgetFlat hfollows
  obtain ⟨u', hrun, -⟩ := requireAllocated_cons hfree'
  rw [hrun] at hfst
  have htop : top ≠ invalidBlkno :=
    ne_invalidBlkno_of_isBlock (hfree.isBlock top List.mem_cons_self)
  have hallocated : requireAllocated.run s = (.ok top, (requireAllocated.run s).2) :=
    Prod.ext hfst rfl
  refine ⟨(requireAllocated.run s).2, ?_⟩
  rw [Nynn.require, Prog.run_bind_of_ok hallocated, if_neg htop, Prog.run_pure]

/-- The head of the free list is not mapped again: a require fails, after it has counted a block as
taken. -/
theorem require_of_not_maps (h : s.Sound) (hfree : FreeListOf s.flat stack)
    (hne : s.superblk.headBlkno ≠ invalidBlkno) (hnot : ¬s.Maps s.superblk.headBlkno)
    (disk : CreateOutcome) : ∃ e s', (Nynn.require disk).run s = (.error e, s') ∧
      s'.superblk = { s.superblk with numOfFreeBlks := s.superblk.numOfFreeBlks - 1 } := by
  have hblk : (counted s).isBlock s.superblk.headBlkno = true := hfree.isBlock_head hne
  obtain ⟨what, hget⟩ := (counted_sound h).getBlock_of_not_maps hblk hnot
  have hallocated : (requireAllocated : StorageM c (Overflow c) UInt32).run s =
      (.error (.exception what), { counted s with mmaps := s.mmaps + 1 }) := by
    rw [requireAllocated, Prog.run_get_bind]
    simp only [if_neg hne]
    change (Nynn.getBlock _ >>= _).run (counted s) = _
    exact Prog.run_bind_of_error hget
  exact ⟨_, _, by rw [Nynn.require, Prog.run_bind_of_error hallocated], rfl⟩

end Storage.Sound

end Nynn
