import Nynn.Storage.Transparency

/-!
# Two storage objects on the same files

Two storage objects with the same superblock and the same files may differ in the mappings that
their tables hold, and in the addresses of these mappings. This file shows that no call tells them
apart. A call that gets a block makes both objects lose the same held pointers, those into another
group of the slot, so that even the use of a stale pointer happens in both.

Source: `nynn_mm_subgraph_storage.h`, `nynn_mm_subgraph_set.h`.

## Main definitions

* `Nynn.Storage.Backed`: the mappings in the table are mappings of files with bytes.
* `Nynn.Twins`: two storages that may differ in their tables.
* `Nynn.SamePtr`: pointers of the two storages to the same block, usable in both or in none.
* `Nynn.SameRun`: from twins two programs return the same, and their states are twins again.

## Main results

* `Nynn.getMapping_of_hasBytes`: which mappings `getBlock` replaces.
* `Nynn.SameRun.getBlock_bind`: the rule for a pointer.
* `Nynn.Twins.runOps`: every run returns the same on twins.
-/

namespace Nynn

open Program

variable {c : Config}

/-! ### One storage -/

/-- The mappings in the table are mappings of files with bytes, the files are files of groups, and a
file is opened and mapped again whenever it is asked for. -/
structure Storage.Backed (s : Storage c (Overflow c)) : Prop where
  table : s.overflow.WellFormed s.mmaps
  hasFile : ∀ i m, (s.overflow.table i).overflowBlk = some m → s.files m.group = true
  hasBytes : ∀ i m, (s.overflow.table i).overflowBlk = some m → s.emptyFiles m.group = false
  isFile : ∀ g, s.emptyFiles g = true → s.files g = true
  isGroup : ∀ g, s.files g = true → overflowGroup c g = g
  reopens : ∀ n, s.reopens n = none

@[simp] theorem overflowGroup_overflowGroup (b : UInt32) :
    overflowGroup c (overflowGroup c b) = overflowGroup c b := by
  rw [overflowGroup, overflowGroup, UInt32.and_assoc, UInt32.and_self]

namespace Storage.Backed

variable {s : Storage c (Overflow c)}

/-- The superblock and the bytes do not matter. -/
theorem congr (h : s.Backed) (superblk : SuperBlock c) (blocks : UInt32 → Block c.blockSz) :
    Backed { s with superblk := superblk, blocks := blocks } :=
  ⟨h.table, h.hasFile, h.hasBytes, h.isFile, h.isGroup, h.reopens⟩

/-- The table of a new object. -/
theorem newTable (h : s.Backed) : Backed { s with overflow := Overflow.empty c } :=
  ⟨Overflow.wellFormed_empty _, nofun, nofun, h.isFile, h.isGroup, h.reopens⟩

theorem mmap (h : s.Backed) : Backed { s with mmaps := s.mmaps + 1 } :=
  ⟨h.table.mono (Nat.le_succ _), h.hasFile, h.hasBytes, h.isFile, h.isGroup, h.reopens⟩

/-- A mapping of a file with bytes is put into the table. -/
theorem setMapping (h : s.Backed) {m : Mapping} (haddr : m.addr < s.mmaps)
    (hfile : s.files m.group = true) (hbytes : s.emptyFiles m.group = false) :
    Backed { s with overflow := Overflow.set m.group m s.overflow } := by
  have hentry {P : Mapping → Prop} (hP : P m)
      (hold : ∀ i m', (s.overflow.table i).overflowBlk = some m' → P m') (i : Fin c.overflowNum)
      (m' : Mapping) (hm' : ((Overflow.set m.group m s.overflow).table i).overflowBlk = some m') :
      P m' := by
    by_cases hi : i = Overflow.mapping c m.group
    · rw [hi, Overflow.set_self] at hm'
      exact Option.some.inj hm' ▸ hP
    · rw [Overflow.set_of_ne hi] at hm'
      exact hold i m' hm'
  exact ⟨h.table.set haddr, hentry (P := fun m' => s.files m'.group = true) hfile h.hasFile,
    hentry (P := fun m' => s.emptyFiles m'.group = false) hbytes h.hasBytes, h.isFile,
    h.isGroup, h.reopens⟩

/-- The file of a group is made. -/
theorem addFile (h : s.Backed) (b : UInt32) :
    Backed { s with files := Function.update s.files (overflowGroup c b) true } := by
  have hfile : ∀ g, s.files g = true →
      Function.update s.files (overflowGroup c b) true g = true := by
    intro g hg
    by_cases hpath : g = overflowGroup c b
    · rw [hpath]
      exact Function.update_self ..
    · rwa [Function.update_of_ne hpath]
  refine ⟨h.table, fun i m hm => hfile _ (h.hasFile i m hm), h.hasBytes,
    fun g hg => hfile g (h.isFile g hg), fun g hg => ?_, h.reopens⟩
  by_cases hpath : g = overflowGroup c b
  · rw [hpath, overflowGroup_overflowGroup]
  · exact h.isGroup g ((Function.update_of_ne hpath ..).symm.trans hg)

/-- A new file without bytes is the file of no mapping. -/
theorem addEmptyFile (h : s.Backed) {b : UInt32} (hno : s.files (overflowGroup c b) = false) :
    Backed
      { s with
        files := Function.update s.files (overflowGroup c b) true
        emptyFiles := Function.update s.emptyFiles (overflowGroup c b) true } := by
  have hadd := h.addFile b
  refine ⟨h.table, hadd.hasFile, fun i m hm => ?_, fun g hg => ?_, hadd.isGroup, h.reopens⟩
  · have hne : m.group ≠ overflowGroup c b := by
      intro hpath
      have hyes := h.hasFile i m hm
      rw [hpath, hno] at hyes
      cases hyes
    exact (Function.update_of_ne hne ..).trans (h.hasBytes i m hm)
  · by_cases hpath : g = overflowGroup c b
    · rw [hpath]
      exact Function.update_self ..
    · exact hadd.isFile g ((Function.update_of_ne hpath ..).symm.trans hg)

/-- A path without a file is not the path of a file without bytes. -/
theorem emptyFiles_eq_false (h : s.Backed) {path : UInt32} (hno : s.files path = false) :
    s.emptyFiles path = false := by
  refine Bool.eq_false_iff.mpr fun hempty => ?_
  rw [h.isFile path hempty] at hno
  cases hno

end Storage.Backed

/-- To get the group `g` replaces the mapping of the group `g'`. -/
def Overflow.evicts (c : Config) (g g' : UInt32) : Bool :=
  Overflow.mapping c g' = Overflow.mapping c g && g' ≠ g

theorem Overflow.evicts_eq_false_iff {g g' : UInt32} : Overflow.evicts c g g' = false ↔
    (Overflow.mapping c g' = Overflow.mapping c g → g' = g) := by
  rw [Overflow.evicts, Bool.and_eq_false_iff, decide_eq_false_iff_not, decide_eq_false_iff_not,
    not_not, imp_iff_not_or]

section GetMapping

variable {s : Storage c (Overflow c)} {b : UInt32}

/-- The table after a hit. -/
private theorem getMapping_of_hit (h : s.Backed) (hover : isOverflow c b = true)
    (hhit : (s.overflow.table (Overflow.mapping c (overflowGroup c b))).overflowBlkno =
      overflowGroup c b) :
    ∃ m t', (getMapping b).run s = (.ok m, { s with overflow := t' }) ∧
      m.group = overflowGroup c b ∧ t'.WellFormed s.mmaps ∧
      (∀ i, (t'.table i).overflowBlk = (s.overflow.table i).overflowBlk) ∧
      (s.overflow.table (Overflow.mapping c (overflowGroup c b))).overflowBlk = some m := by
  obtain ⟨m, t', hget, hgroup, hwell, hentries, hblk⟩ :=
    h.table.get_of_hit (overflowGroup_ne_invalidBlkno hover) hhit
  refine ⟨m, t', ?_, hgroup, hwell, hentries, hblk⟩
  have hrun : (getOverflowBlock b : StorageM c (Overflow c) (Option Mapping)).run s =
      (.ok (some m), { s with overflow := t' }) := by
    rw [getOverflowBlock, Prog.run_get_bind]
    simp only [OverflowTable.get, hget, Prog.run_modify_bind, Prog.run_pure]
  rw [getMapping, Prog.run_bind_of_ok hrun]
  rfl

/-- A miss maps the file of the group. -/
private theorem getMapping_of_miss (hover : isOverflow c b = true)
    (hmiss : (s.overflow.table (Overflow.mapping c (overflowGroup c b))).overflowBlkno ≠
      overflowGroup c b) :
    (getMapping b).run s = (do
      let overflowBlk ← mmapFile (overflowGroup c b)
      setOverflowBlock b overflowBlk
      pure overflowBlk : StorageM c (Overflow c) Mapping).run s := by
  have hrun : (getOverflowBlock b : StorageM c (Overflow c) (Option Mapping)).run s =
      (.ok none, s) := by
    rw [getOverflowBlock, Prog.run_get_bind]
    simp only [OverflowTable.get, Overflow.WellFormed.get_of_miss hmiss, Prog.run_modify_bind,
      Prog.run_pure]
  rw [getMapping, Prog.run_bind_of_ok hrun]
  change (makeOverflowPath b >>= _).run s = _
  rw [makeOverflowPath, if_pos hover, Prog.pure_bind]

theorem getMapping_of_noFile (h : s.Backed) (hover : isOverflow c b = true)
    (hfile : s.files (overflowGroup c b) = false) :
    (getMapping b).run s = (.error (.exception "No such file or directory"), s) := by
  by_cases hhit : (s.overflow.table (Overflow.mapping c (overflowGroup c b))).overflowBlkno =
      overflowGroup c b
  · obtain ⟨m, t', -, hgroup, -, -, hblk⟩ := getMapping_of_hit h hover hhit
    have hyes := h.hasFile _ m hblk
    rw [hgroup, hfile] at hyes
    cases hyes
  · rw [getMapping_of_miss hover hhit, mmapFile, Prog.run_bind, Prog.run_get_bind, hfile]
    rfl

theorem getMapping_of_empty (h : s.Backed) (hover : isOverflow c b = true)
    (hempty : s.emptyFiles (overflowGroup c b) = true) :
    (getMapping b).run s = (.error (.exception "Invalid argument"), s) := by
  by_cases hhit : (s.overflow.table (Overflow.mapping c (overflowGroup c b))).overflowBlkno =
      overflowGroup c b
  · obtain ⟨m, t', -, hgroup, -, -, hblk⟩ := getMapping_of_hit h hover hhit
    have hno := h.hasBytes _ m hblk
    rw [hgroup, hempty] at hno
    cases hno
  · rw [getMapping_of_miss hover hhit, mmapFile, Prog.run_bind, Prog.run_get_bind,
      if_pos (h.isFile _ hempty), if_pos hempty]
    rfl

/-- To get a group with a file maps the group, and the only mapping that is lost is the one that
was in the slot. -/
theorem getMapping_of_hasBytes (h : s.Backed) (hover : isOverflow c b = true)
    (hfile : s.files (overflowGroup c b) = true)
    (hbytes : s.emptyFiles (overflowGroup c b) = false) :
    ∃ m t' k, (getMapping b).run s = (.ok m, { s with mmaps := k, overflow := t' }) ∧
      Storage.Backed { s with mmaps := k, overflow := t' } ∧ m.group = overflowGroup c b ∧
      m.addr < k ∧ s.mmaps ≤ k ∧ OverflowTable.isMapped t' m = true ∧
      ∀ m₀ : Mapping, m₀.addr < s.mmaps → (OverflowTable.isMapped t' m₀ = true ↔
        OverflowTable.isMapped s.overflow m₀ = true ∧
          Overflow.evicts c (overflowGroup c b) m₀.group = false) := by
  by_cases hhit : (s.overflow.table (Overflow.mapping c (overflowGroup c b))).overflowBlkno =
      overflowGroup c b
  · obtain ⟨m, t', hrun, hgroup, hwell, hentries, hblk⟩ := getMapping_of_hit h hover hhit
    refine ⟨m, t', s.mmaps, hrun, ⟨hwell, fun i m' hm' => h.hasFile i m' (hentries i ▸ hm'),
      fun i m' hm' => h.hasBytes i m' (hentries i ▸ hm'), h.isFile, h.isGroup, h.reopens⟩, hgroup,
      h.table.addr _ m hblk, le_rfl, ?_, fun m₀ _ => ?_⟩
    · rw [isMapped_iff, hentries, hgroup, hblk]
    · rw [isMapped_iff, isMapped_iff, hentries, Overflow.evicts_eq_false_iff]
      refine ⟨fun hm₀ => ⟨hm₀, fun hslot => ?_⟩, And.left⟩
      rw [hslot, hblk] at hm₀
      rw [← Option.some.inj hm₀, hgroup]
  · obtain ⟨m, hm⟩ : ∃ m : Mapping, m = ⟨s.mmaps, overflowGroup c b⟩ := ⟨_, rfl⟩
    have hmgroup : m.group = overflowGroup c b := by rw [hm]
    have hmaddr : m.addr = s.mmaps := by rw [hm]
    have hback := h.mmap.setMapping (m := m) (hmaddr ▸ Nat.lt_succ_self _) (hmgroup ▸ hfile)
      (hmgroup ▸ hbytes)
    rw [hmgroup] at hback
    have hrun : (mmapFile (overflowGroup c b) : StorageM c (Overflow c) Mapping).run s =
        (.ok m, { s with mmaps := s.mmaps + 1 }) := by
      rw [mmapFile, Prog.run_get_bind, if_pos hfile, hbytes, hm]
      simp only [h.reopens]
      rfl
    refine ⟨m, Overflow.set (overflowGroup c b) m s.overflow, s.mmaps + 1, ?_, hback, hmgroup,
      hmaddr ▸ Nat.lt_succ_self _, Nat.le_succ _, ?_, fun m₀ hm₀ => ?_⟩
    · rw [getMapping_of_miss hover hhit, Prog.run_bind_of_ok hrun]
      rfl
    · rw [isMapped_iff, hmgroup, Overflow.set_self]
    · rw [isMapped_iff, isMapped_iff, Overflow.evicts_eq_false_iff]
      by_cases hslot : Overflow.mapping c m₀.group = Overflow.mapping c (overflowGroup c b)
      · have hnew : m ≠ m₀ := fun he => absurd (he ▸ hm₀ : m.addr < s.mmaps) (hmaddr ▸ lt_irrefl _)
        rw [hslot, Overflow.set_self]
        refine iff_of_false (fun he => hnew (Option.some.inj he)) fun he => hhit ?_
        exact (h.table.group _ m₀ he.1).symm.trans (he.2 rfl)
      · rw [Overflow.set_of_ne hslot]
        exact ⟨fun hm => ⟨hm, fun he => absurd he hslot⟩, And.left⟩

end GetMapping

/-! ### Twins and their pointers -/

/-- Two storages that have the same superblock, bytes and files, and may differ in their tables. -/
structure Twins (s t : Storage c (Overflow c)) : Prop where
  superblk : s.superblk = t.superblk
  blocks : s.blocks = t.blocks
  files : s.files = t.files
  emptyFiles : s.emptyFiles = t.emptyFiles
  left : s.Backed
  right : t.Backed

/-- Pointers of two storages to the same block, both usable or both stale. -/
inductive SamePtr (s t : Storage c (Overflow c)) : Option Ptr → Option Ptr → Prop
  | null : SamePtr s t none none
  | volume (b : UInt32) : SamePtr s t (some (.volume b)) (some (.volume b))
  | overflow {m m' : Mapping} (offset : UInt32) (group : m.group = m'.group)
      (addr : m.addr < s.mmaps) (addr' : m'.addr < t.mmaps)
      (mapped : OverflowTable.isMapped s.overflow m = true ↔
        OverflowTable.isMapped t.overflow m' = true) :
      SamePtr s t (some (.overflow m offset)) (some (.overflow m' offset))

namespace SamePtr

variable {s t s' t' : Storage c (Overflow c)} {p q : Option Ptr}

/-- A pointer stays where its mapping is lost in both storages or in none. -/
theorem congr (h : SamePtr s t p q) (hs : s.mmaps ≤ s'.mmaps) (ht : t.mmaps ≤ t'.mmaps)
    (hmapped : ∀ m m' : Mapping, m.group = m'.group → m.addr < s.mmaps → m'.addr < t.mmaps →
      (OverflowTable.isMapped s.overflow m = true ↔ OverflowTable.isMapped t.overflow m' = true) →
      (OverflowTable.isMapped s'.overflow m = true ↔
        OverflowTable.isMapped t'.overflow m' = true)) : SamePtr s' t' p q := by
  cases h with
  | null => exact .null
  | volume b => exact .volume b
  | overflow offset group addr addr' mapped =>
    exact .overflow offset group (addr.trans_le hs) (addr'.trans_le ht)
      (hmapped _ _ group addr addr' mapped)

/-- Both pointers are null or none is. -/
theorem cases_some (h : SamePtr s t p q) :
    (p = none ∧ q = none) ∨ ∃ p' q', p = some p' ∧ q = some q' ∧ p'.blkno = q'.blkno ∧
      s.isUsable p' = t.isUsable q' := by
  cases h with
  | null => exact Or.inl ⟨rfl, rfl⟩
  | volume b => exact Or.inr ⟨_, _, rfl, rfl, rfl, rfl⟩
  | overflow offset group _ _ mapped =>
    exact Or.inr ⟨_, _, rfl, rfl, congrArg (· + offset) group, Bool.eq_iff_iff.mpr mapped⟩

end SamePtr

/-- Twins, and pairs of pointers of the one and of the other. -/
def Holding (l : List (Option Ptr × Option Ptr)) (s t : Storage c (Overflow c)) : Prop :=
  Twins s t ∧ ∀ r ∈ l, SamePtr s t r.1 r.2

/-- From twins that hold the pointers `l`, two programs end in the same way, as twins that hold
these pointers, or they fail in the same way. -/
def SameRun {α : Type} (l : List (Option Ptr × Option Ptr)) (x y : StorageM c (Overflow c) α) :
    Prop :=
  Rel (Holding l) x y (fun a b s t => a = b ∧ Holding l s t) fun _ => Twins

theorem Twins.getBlock {s t : Storage c (Overflow c)} (h : Twins s t) (b : UInt32) :
    (∃ p q s' t', (getBlock b).run s = (.ok p, s') ∧ (getBlock b).run t = (.ok q, t') ∧
      Twins s' t' ∧ SamePtr s' t' p q ∧ ∀ p' q', SamePtr s t p' q' → SamePtr s' t' p' q') ∨
    ∃ e, (getBlock b).run s = (.error e, s) ∧ (getBlock b).run t = (.error e, t) := by
  have hover : (isOverflow c b && decide (b < s.superblk.supBlkno)) =
      (isOverflow c b && decide (b < t.superblk.supBlkno)) := by rw [h.superblk]
  by_cases hflat : isFlat c b = true
  · refine Or.inl ⟨some (.volume b), some (.volume b), s, t, ?_, ?_, h, .volume b,
      fun _ _ hp => hp⟩
    · rw [Nynn.getBlock, if_pos hflat, Prog.run_pure]
    · rw [Nynn.getBlock, if_pos hflat, Prog.run_pure]
  rw [Nynn.getBlock, if_neg hflat, Prog.run_get_bind, Prog.run_get_bind, ← hover]
  by_cases hblk : (isOverflow c b && decide (b < s.superblk.supBlkno)) = true
  · rw [if_pos hblk]
    have hov := (Bool.and_eq_true_iff.mp hblk).1
    by_cases hempty : s.emptyFiles (overflowGroup c b) = true
    · refine Or.inr ⟨_, Prog.run_bind_of_error (getMapping_of_empty h.left hov hempty),
        Prog.run_bind_of_error (getMapping_of_empty h.right hov (h.emptyFiles ▸ hempty))⟩
    have hbytes := Bool.eq_false_iff.mpr hempty
    by_cases hfile : s.files (overflowGroup c b) = true
    · obtain ⟨m, u, k, hrun, hback, hgroup, haddr, hk, hmapped, hkept⟩ :=
        getMapping_of_hasBytes h.left hov hfile hbytes
      obtain ⟨m', u', k', hrun', hback', hgroup', haddr', hk', hmapped', hkept'⟩ :=
        getMapping_of_hasBytes h.right hov (h.files ▸ hfile) (h.emptyFiles ▸ hbytes)
      refine Or.inl ⟨_, _, _, _, Prog.run_bind_of_ok hrun, Prog.run_bind_of_ok hrun',
        ⟨h.superblk, h.blocks, h.files, h.emptyFiles, hback, hback'⟩,
        .overflow _ (hgroup.trans hgroup'.symm) haddr haddr' (iff_of_true hmapped hmapped'),
        fun p q hpq => hpq.congr hk hk' fun m₀ m₀' hm₀ ha ha' hiff => ?_⟩
      rw [hkept m₀ ha, hkept' m₀' ha', hiff, hm₀]
    · have hnone := Bool.eq_false_iff.mpr hfile
      exact Or.inr ⟨_, Prog.run_bind_of_error (getMapping_of_noFile h.left hov hnone),
        Prog.run_bind_of_error (getMapping_of_noFile h.right hov (h.files ▸ hnone))⟩
  · rw [if_neg hblk]
    exact Or.inl ⟨none, none, s, t, rfl, rfl, h, .null, fun _ _ hp => hp⟩

/-! ### The rules -/

namespace SameRun

variable {α β : Type} {l : List (Option Ptr × Option Ptr)} {p q : Option Ptr}
  {x y : StorageM c (Overflow c) α} {f g : α → StorageM c (Overflow c) β}

theorem pure (a : α) : SameRun l (pure a : StorageM c (Overflow c) α) (pure a) :=
  Rel.pure fun _ _ h => ⟨rfl, h⟩

theorem fail (e : Fault) : SameRun l (Prog.fail e : StorageM c (Overflow c) α) (Prog.fail e) :=
  Rel.fail fun _ _ h => h.1

theorem bind (hxy : SameRun l x y) (hfg : ∀ a, SameRun l (f a) (g a)) :
    SameRun l (x >>= f) (y >>= g) := Rel.bind_eq hxy hfg

theorem ite {k : Prop} [Decidable k] {x' y' : StorageM c (Overflow c) α}
    (h : k → SameRun l x y) (h' : ¬k → SameRun l x' y') :
    SameRun l (if k then x else x') (if k then y else y') := Rel.ite h h'

/-- The programs read the superblock. -/
theorem get_bind {f g : Storage c (Overflow c) → StorageM c (Overflow c) β}
    (h : ∀ s t : Storage c (Overflow c), s.superblk = t.superblk → SameRun l (f s) (g t)) :
    SameRun l (Prog.get >>= f) (Prog.get >>= g) := by
  refine Rel.get_bind fun s t hst => (h s t hst.1.superblk).mono ?_ fun _ _ _ _ h => h
  rintro s' t' ⟨rfl, rfl⟩
  exact hst

/-- The programs get a pointer to the same block, and hold it. -/
theorem getBlock_bind {f g : Option Ptr → StorageM c (Overflow c) β} (b : UInt32)
    (h : ∀ p q, SameRun ((p, q) :: l) (f p) (g q)) :
    SameRun l (getBlock b >>= f) (getBlock b >>= g) := by
  refine Rel.bind (Q := fun p q => Holding ((p, q) :: l)) (fun s t hst => ?_) fun p q =>
    (h p q).mono (fun _ _ h => h) fun _ _ _ _ hab =>
      ⟨hab.1, hab.2.1, fun r hr => hab.2.2 r (List.mem_cons_of_mem _ hr)⟩
  rcases hst.1.getBlock b with ⟨p, q, s', t', hs, ht, htwins, hpq, hkept⟩ | ⟨e, hs, ht⟩
  · refine Or.inl ⟨p, q, s', t', hs, ht, htwins, fun r hr => ?_⟩
    rcases List.mem_cons.mp hr with rfl | hr
    · exact hpq
    · exact hkept _ _ (hst.2 r hr)
  · exact Or.inr ⟨e, s, t, hs, ht, hst.1⟩

/-- Two pointers that are held are both null, or none is. -/
theorem cases_some (hmem : (p, q) ∈ l) (hnone : p = none → q = none → SameRun l x y)
    (hsome : ∀ p' q', p = some p' → q = some q' → SameRun l x y) : SameRun l x y := by
  intro s t hst
  rcases (hst.2 _ hmem).cases_some with ⟨hp, hq⟩ | ⟨p', q', hp, hq, -⟩
  · exact hnone hp hq s t hst
  · exact hsome p' q' hp hq s t hst

theorem deref (hmem : (p, q) ∈ l) : SameRun l (Nynn.deref p : StorageM c (Overflow c) _)
    (Nynn.deref q) := by
  intro s t hst
  rcases (hst.2 _ hmem).cases_some with ⟨hp, hq⟩ | ⟨p', q', hp, hq, hblkno, husable⟩
  · obtain rfl : p = none := hp
    obtain rfl : q = none := hq
    exact Or.inr ⟨_, s, t, rfl, rfl, hst.1⟩
  · obtain rfl : p = some p' := hp
    obtain rfl : q = some q' := hq
    rw [Nynn.deref, Nynn.deref, Prog.run_get_bind, Prog.run_get_bind, husable, hblkno,
      hst.1.blocks]
    by_cases hq : t.isUsable q' = true
    · rw [if_pos hq]
      exact Or.inl ⟨_, _, s, t, rfl, rfl, rfl, hst⟩
    · rw [if_neg hq]
      exact Or.inr ⟨_, s, t, rfl, rfl, hst.1⟩

theorem assign (hmem : (p, q) ∈ l) (blk : Block c.blockSz) :
    SameRun l (Nynn.assign p blk) (Nynn.assign q blk) := by
  intro s t hst
  rcases (hst.2 _ hmem).cases_some with ⟨hp, hq⟩ | ⟨p', q', hp, hq, hblkno, husable⟩
  · obtain rfl : p = none := hp
    obtain rfl : q = none := hq
    exact Or.inr ⟨_, s, t, rfl, rfl, hst.1⟩
  · obtain rfl : p = some p' := hp
    obtain rfl : q = some q' := hq
    rw [Nynn.assign, Nynn.assign, Prog.run_get_bind, Prog.run_get_bind, husable, hblkno]
    by_cases hq : t.isUsable q' = true
    · rw [if_pos hq]
      exact Or.inl ⟨_, _, _, _, rfl, rfl, rfl, ⟨hst.1.superblk,
        congrArg (Function.update · q'.blkno blk) hst.1.blocks, hst.1.files, hst.1.emptyFiles,
        hst.1.left.congr _ _, hst.1.right.congr _ _⟩,
        fun r hr => (hst.2 r hr).congr le_rfl le_rfl fun _ _ _ _ _ h => h⟩
    · rw [if_neg hq]
      exact Or.inr ⟨_, s, t, rfl, rfl, hst.1⟩

theorem modifyBlock (hmem : (p, q) ∈ l) (k : Block c.blockSz → Block c.blockSz) :
    SameRun l (Nynn.modifyBlock p k) (Nynn.modifyBlock q k) :=
  (deref hmem).bind fun _ => assign hmem _

theorem pushIndex (hmem : (p, q) ∈ l) (blkno : UInt32) :
    SameRun l (Nynn.pushIndex p blkno : StorageM c (Overflow c) _) (Nynn.pushIndex q blkno) := by
  refine (deref hmem).bind fun blk => ?_
  cases blk.pushIndex blkno with
  | none => exact fail _
  | some blk' => exact assign hmem blk'

theorem popIndex (hmem : (p, q) ∈ l) :
    SameRun l (Nynn.popIndex p : StorageM c (Overflow c) _) (Nynn.popIndex q) := by
  refine (deref hmem).bind fun blk => ?_
  cases blk.popIndex with
  | none => exact fail _
  | some r => exact (assign hmem r.2).bind fun _ => pure r.1

theorem modifySuperBlock (k : SuperBlock c → SuperBlock c) :
    SameRun l (Nynn.modifySuperBlock k : StorageM c (Overflow c) Unit)
      (Nynn.modifySuperBlock k) :=
  Rel.modify fun _ _ hst => ⟨rfl, ⟨congrArg k hst.1.superblk, hst.1.blocks, hst.1.files,
    hst.1.emptyFiles, hst.1.left.congr _ _, hst.1.right.congr _ _⟩,
    fun r hr => (hst.2 r hr).congr le_rfl le_rfl fun _ _ _ _ _ h => h⟩

theorem getVertex (v : UInt32) :
    SameRun l (Nynn.getVertex v : StorageM c (Overflow c) _) (Nynn.getVertex v) := by
  refine get_bind fun s t hst => ?_
  rw [hst]
  by_cases hslot : vertexSlot t.superblk.getMinVtxno v < c.vertexIntervalWidth
  · simp only [dif_pos hslot]
    exact pure _
  · simp only [dif_neg hslot]
    exact fail _

theorem readVertex (i : Fin c.vertexIntervalWidth) :
    SameRun l (Nynn.readVertex i : StorageM c (Overflow c) _) (Nynn.readVertex i) := by
  refine get_bind fun s t hst => ?_
  rw [hst]
  exact pure _

theorem modifyVertex (i : Fin c.vertexIntervalWidth) (k : Vertex → Vertex) :
    SameRun l (Nynn.modifyVertex i k : StorageM c (Overflow c) Unit) (Nynn.modifyVertex i k) :=
  modifySuperBlock _

/-! ### The free list -/

theorem readBlock (b : UInt32) :
    SameRun l (Nynn.readBlock b : StorageM c (Overflow c) _) (Nynn.readBlock b) := by
  refine getBlock_bind b fun p q => cases_some List.mem_cons_self ?_ ?_
  · rintro rfl rfl
    exact fail _
  · rintro p q rfl rfl
    exact deref List.mem_cons_self

theorem writeBlock (b : UInt32) (blk : Block c.blockSz) :
    SameRun l (Nynn.writeBlock b blk : StorageM c (Overflow c) _) (Nynn.writeBlock b blk) := by
  refine getBlock_bind b fun p q => cases_some List.mem_cons_self ?_ ?_
  · rintro rfl rfl
    exact fail _
  · rintro p q rfl rfl
    exact assign List.mem_cons_self blk

/-- The last steps of a release, with the pointer to the released block. -/
private theorem pushBlkno {p q : Ptr} (hmem : (some p, some q) ∈ l) (headBlkno blkno : UInt32)
    (newHead : Bool) :
    SameRun l
      (if newHead = true then do
        Nynn.modifyBlock (some p) Block.initIndexBlock
        Nynn.pushIndex (some p) headBlkno
        setHeadBlkno blkno
        incNumberOfFreeBlks
      else do
        let headBlk ← getBlock headBlkno
        Nynn.pushIndex headBlk blkno
        incNumberOfFreeBlks : StorageM c (Overflow c) Unit)
      (if newHead = true then do
        Nynn.modifyBlock (some q) Block.initIndexBlock
        Nynn.pushIndex (some q) headBlkno
        setHeadBlkno blkno
        incNumberOfFreeBlks
      else do
        let headBlk ← getBlock headBlkno
        Nynn.pushIndex headBlk blkno
        incNumberOfFreeBlks) := by
  refine ite (fun _ => ?_) fun _ => getBlock_bind _ fun _ _ =>
    (pushIndex List.mem_cons_self _).bind fun _ => modifySuperBlock _
  exact (modifyBlock hmem _).bind fun _ => (pushIndex hmem _).bind fun _ =>
    (modifySuperBlock _).bind fun _ => modifySuperBlock _

theorem releaseRaw (b : UInt32) :
    SameRun l (Nynn.releaseRaw b : StorageM c (Overflow c) _) (Nynn.releaseRaw b) := by
  refine get_bind fun s t hst => ?_
  rw [hst]
  refine getBlock_bind b fun p q => cases_some List.mem_cons_self ?_ ?_
  · rintro rfl rfl
    exact fail _
  · rintro p q rfl rfl
    refine ite (fun _ => pushBlkno List.mem_cons_self _ b true) fun _ => getBlock_bind _
      fun _ _ => (deref List.mem_cons_self).bind fun blk => ?_
    exact pushBlkno (List.mem_cons_of_mem _ List.mem_cons_self) _ b blk.isAtTop

theorem requireAllocated :
    SameRun l (Nynn.requireAllocated : StorageM c (Overflow c) _) Nynn.requireAllocated := by
  refine get_bind fun s t hst => ?_
  rw [hst]
  refine ite (fun _ => pure _) fun _ => (modifySuperBlock _).bind fun _ =>
    getBlock_bind _ fun _ _ => (deref List.mem_cons_self).bind fun _ => ite (fun _ => ?_)
      fun _ => popIndex List.mem_cons_self
  exact getBlock_bind _ fun _ _ => (popIndex List.mem_cons_self).bind fun _ =>
    (modifySuperBlock _).bind fun _ => pure _

theorem releaseGroup (sup : UInt32) (n : ℕ) :
    SameRun l (Nynn.releaseGroup sup n : StorageM c (Overflow c) _) (Nynn.releaseGroup sup n) := by
  induction n with
  | zero => exact pure ()
  | succ n ih => exact (releaseRaw _).bind fun _ => ih

/-- The mapping of a new file goes into the table. -/
private theorem createGroup (disk : CreateOutcome) (b : UInt32) :
    SameRun [] (createMmapFile disk (overflowGroup c b) >>= setOverflowBlock b :
      StorageM c (Overflow c) Unit)
      (createMmapFile disk (overflowGroup c b) >>= setOverflowBlock b) := by
  rintro s t ⟨h, -⟩
  have hnil : ∀ {s' t' : Storage c (Overflow c)}, Twins s' t' → Holding [] s' t' :=
    fun htwins => ⟨htwins, fun r hr => absurd hr List.not_mem_nil⟩
  rw [createMmapFile.eq_def, Prog.bind_assoc, Prog.run_get_bind, Prog.run_get_bind, ← h.files]
  by_cases hfile : s.files (overflowGroup c b) = true
  · rw [if_pos hfile]
    exact Or.inr ⟨_, s, t, rfl, rfl, h⟩
  rw [if_neg hfile]
  have hno : s.files (overflowGroup c b) = false := Bool.eq_false_iff.mpr hfile
  have hno' : t.files (overflowGroup c b) = false := h.files ▸ hno
  have hfiles := congrArg (Function.update · (overflowGroup c b) true) h.files
  cases disk with
  | openFails errno => exact Or.inr ⟨_, s, t, rfl, rfl, h⟩
  | writeFails errno =>
    exact Or.inr ⟨_, _, _, rfl, rfl, h.superblk, h.blocks, hfiles,
      congrArg (Function.update · (overflowGroup c b) true) h.emptyFiles,
      h.left.addEmptyFile hno, h.right.addEmptyFile hno'⟩
  | laterCallFails errno =>
    exact Or.inr ⟨_, _, _, rfl, rfl, h.superblk, h.blocks, hfiles, h.emptyFiles,
      h.left.addFile _, h.right.addFile _⟩
  | ok =>
    have hback {s : Storage c (Overflow c)} (h : s.Backed)
        (hno : s.files (overflowGroup c b) = false) :=
      (h.addFile b).mmap.setMapping (m := ⟨s.mmaps, overflowGroup c b⟩)
        (Nat.lt_succ_self _) (Function.update_self ..) (h.emptyFiles_eq_false hno)
    exact Or.inl ⟨(), (), _, _, rfl, rfl, rfl, hnil ⟨h.superblk, h.blocks, hfiles, h.emptyFiles,
      hback h.left hno, hback h.right hno'⟩⟩

theorem requireUnallocated (disk : CreateOutcome) :
    SameRun [] (Nynn.requireUnallocated disk : StorageM c (Overflow c) _)
      (Nynn.requireUnallocated disk) := by
  refine get_bind fun s t hst => ?_
  rw [hst]
  dsimp only
  by_cases hover : isOverflow c t.superblk.supBlkno = true
  · have hpath : (makeOverflowPath t.superblk.supBlkno : StorageM c (Overflow c) UInt32) =
        Pure.pure (overflowGroup c t.superblk.supBlkno) := if_pos hover
    rw [hpath, Prog.pure_bind, ← Prog.bind_assoc]
    exact (createGroup disk _).bind fun _ => (modifySuperBlock _).bind fun _ =>
      (releaseGroup _ _).bind fun _ => requireAllocated
  · have hpath : (makeOverflowPath t.superblk.supBlkno : StorageM c (Overflow c) UInt32) =
        throwNynnException "blkno is invalid or not overflow" := if_neg hover
    rw [hpath]
    exact fun s t h => Or.inr ⟨_, s, t, rfl, rfl, h.1⟩

theorem require (disk : CreateOutcome) :
    SameRun [] (Nynn.require disk : StorageM c (Overflow c) _) (Nynn.require disk) :=
  requireAllocated.bind fun _ => ite (fun _ => requireUnallocated disk) fun _ => pure _

/-! ### The lists of blocks -/

theorem push (disk : CreateOutcome) (v : UInt32) (blk : Block c.blockSz) :
    SameRun [] (Nynn.push disk v blk : StorageM c (Overflow c) _) (Nynn.push disk v blk) := by
  refine (getVertex v).bind fun i => (modifyVertex i _).bind fun _ => (require disk).bind fun b =>
    ite (fun _ => pure _) fun _ => (readVertex i).bind fun w => ite (fun _ => ?_) fun _ => ?_
  · exact getBlock_bind _ fun _ _ => (modifyVertex i _).bind fun _ =>
      (modifyBlock List.mem_cons_self _).bind fun _ => (writeBlock _ _).bind fun _ => pure _
  · exact (modifyVertex i _).bind fun _ => (modifyVertex i _).bind fun _ =>
      (writeBlock _ _).bind fun _ => pure _

theorem unshift (disk : CreateOutcome) (v : UInt32) (blk : Block c.blockSz) :
    SameRun [] (Nynn.unshift disk v blk : StorageM c (Overflow c) _)
      (Nynn.unshift disk v blk) := by
  refine (getVertex v).bind fun i => (modifyVertex i _).bind fun _ => (require disk).bind fun b =>
    ite (fun _ => pure _) fun _ => (readVertex i).bind fun w => ite (fun _ => ?_) fun _ => ?_
  · exact getBlock_bind _ fun _ _ => (modifyVertex i _).bind fun _ =>
      (modifyBlock List.mem_cons_self _).bind fun _ => (writeBlock _ _).bind fun _ => pure _
  · exact (modifyVertex i _).bind fun _ => (modifyVertex i _).bind fun _ =>
      (writeBlock _ _).bind fun _ => pure _

theorem pop (v : UInt32) :
    SameRun [] (Nynn.pop v : StorageM c (Overflow c) _) (Nynn.pop v) := by
  refine (getVertex v).bind fun i => (readVertex i).bind fun w => ite (fun _ => pure _) fun _ =>
    getBlock_bind _ fun _ _ => (deref List.mem_cons_self).bind fun blk =>
      (modifyVertex i _).bind fun _ => ite (fun _ => ?_) fun _ => ?_
  · exact getBlock_bind _ fun _ _ => (modifyVertex i _).bind fun _ =>
      (modifyBlock List.mem_cons_self _).bind fun _ => releaseRaw _
  · exact (modifyVertex i _).bind fun _ => (modifyVertex i _).bind fun _ => releaseRaw _

theorem shift (v : UInt32) :
    SameRun [] (Nynn.shift v : StorageM c (Overflow c) _) (Nynn.shift v) := by
  refine (getVertex v).bind fun i => (readVertex i).bind fun w => ite (fun _ => pure _) fun _ =>
    getBlock_bind _ fun _ _ => (deref List.mem_cons_self).bind fun blk =>
      (modifyVertex i _).bind fun _ => ite (fun _ => ?_) fun _ => ?_
  · exact getBlock_bind _ fun _ _ => (modifyVertex i _).bind fun _ =>
      (modifyBlock List.mem_cons_self _).bind fun _ => releaseRaw _
  · exact (modifyVertex i _).bind fun _ => (modifyVertex i _).bind fun _ => releaseRaw _

theorem insertPrev (disk : CreateOutcome) (v next : UInt32) (blk : Block c.blockSz) :
    SameRun [] (Nynn.insertPrev disk v next blk : StorageM c (Overflow c) _)
      (Nynn.insertPrev disk v next blk) := by
  refine (getVertex v).bind fun i => (readVertex i).bind fun w =>
    ite (fun _ => unshift disk v blk) fun _ => ite (fun _ => push disk v blk) fun _ =>
      (require disk).bind fun b => ite (fun _ => pure _) fun _ => (modifyVertex i _).bind fun _ => ?_
  exact getBlock_bind _ fun _ _ => (deref List.mem_cons_self).bind fun _ =>
    (modifyBlock List.mem_cons_self _).bind fun _ => getBlock_bind _ fun _ _ =>
      (modifyBlock List.mem_cons_self _).bind fun _ => (writeBlock _ _).bind fun _ => pure _

theorem insertNext (disk : CreateOutcome) (v prev : UInt32) (blk : Block c.blockSz) :
    SameRun [] (Nynn.insertNext disk v prev blk : StorageM c (Overflow c) _)
      (Nynn.insertNext disk v prev blk) := by
  refine (getVertex v).bind fun i => (readVertex i).bind fun w =>
    ite (fun _ => push disk v blk) fun _ => ite (fun _ => unshift disk v blk) fun _ =>
      (require disk).bind fun b => ite (fun _ => pure _) fun _ => (modifyVertex i _).bind fun _ => ?_
  exact getBlock_bind _ fun _ _ => (deref List.mem_cons_self).bind fun _ =>
    (modifyBlock List.mem_cons_self _).bind fun _ => getBlock_bind _ fun _ _ =>
      (modifyBlock List.mem_cons_self _).bind fun _ => (writeBlock _ _).bind fun _ => pure _

theorem remove (v b : UInt32) :
    SameRun [] (Nynn.remove v b : StorageM c (Overflow c) _) (Nynn.remove v b) := by
  refine (getVertex v).bind fun i => (readVertex i).bind fun w => ite (fun _ => pure _) fun _ =>
    ite (fun _ => shift v) fun _ => ite (fun _ => pop v) fun _ => ?_
  exact getBlock_bind _ fun _ _ => (deref List.mem_cons_self).bind fun _ =>
    (modifyVertex i _).bind fun _ => getBlock_bind _ fun _ _ =>
      (modifyBlock List.mem_cons_self _).bind fun _ => getBlock_bind _ fun _ _ =>
        (modifyBlock List.mem_cons_self _).bind fun _ => releaseRaw _

theorem update (disk : CreateOutcome) (op : ListOp c.blockSz) :
    SameRun [] (op.run disk : StorageM c (Overflow c) _) (op.run disk) := by
  cases op with
  | push v blk => exact (push disk v blk).bind fun _ => pure _
  | unshift v blk => exact (unshift disk v blk).bind fun _ => pure _
  | insertPrev v next blk => exact (insertPrev disk v next blk).bind fun _ => pure _
  | insertNext v prev blk => exact (insertNext disk v prev blk).bind fun _ => pure _
  | pop v => exact (pop v).bind fun _ => pure _
  | shift v => exact (shift v).bind fun _ => pure _
  | remove v b => exact (remove v b).bind fun _ => pure _

theorem readBlknosFrom (fuel : ℕ) (b : UInt32) :
    SameRun l (Nynn.readBlknosFrom fuel b : StorageM c (Overflow c) _)
      (Nynn.readBlknosFrom fuel b) := by
  induction fuel generalizing b with
  | zero => exact pure _
  | succ fuel ih =>
    exact ite (fun _ => pure _) fun _ => (readBlock b).bind fun blk => (ih _).bind fun _ => pure _

theorem readAllBlknos (fuel : ℕ) (v : UInt32) :
    SameRun l (Nynn.readAllBlknos fuel v : StorageM c (Overflow c) _)
      (Nynn.readAllBlknos fuel v) :=
  ((getVertex v).bind fun i => (readVertex i).bind fun _ => pure _).bind fun _ =>
    readBlknosFrom fuel _

theorem storeOp (op : StoreOp c.blockSz) :
    SameRun [] (op.run : StorageM c (Overflow c) _) op.run := by
  cases op with
  | require disk => exact (require disk).bind fun _ => pure _
  | release b => exact (releaseRaw b).bind fun _ => pure _
  | readBlock b => exact (readBlock b).bind fun _ => pure _
  | writeBlock b blk => exact (writeBlock b blk).bind fun _ => pure _
  | update disk op => exact (update disk op).bind fun _ => pure _

/-! ### Formatting -/

theorem releaseVolume (n : ℕ) :
    SameRun l (Nynn.releaseVolume n : StorageM c (Overflow c) _) (Nynn.releaseVolume n) := by
  induction n with
  | zero => exact pure ()
  | succ n ih => exact ite (fun _ => (releaseRaw _).bind fun _ => ih) fun _ => fail _

theorem setMinVtxno (minVtxno : UInt32) :
    SameRun l (Nynn.setMinVtxno minVtxno : StorageM c (Overflow c) _)
      (Nynn.setMinVtxno minVtxno) := by
  refine ite (fun _ => fail _) fun _ => Rel.get_bind ?_
  rintro s t ⟨htwins, hheld⟩
  rw [htwins.superblk]
  refine Rel.mono (P := Holding l) ?_ (by rintro s' t' ⟨rfl, rfl⟩; exact ⟨htwins, hheld⟩)
    fun _ _ _ _ h => h
  cases initVertices minVtxno c.vertexIntervalWidth minVtxno t.superblk.vertices with
  | none => exact fail _
  | some vertices => exact modifySuperBlock _

theorem formatStorage (minVtxno : UInt32) :
    SameRun l (Nynn.formatStorage minVtxno : StorageM c (Overflow c) _)
      (Nynn.formatStorage minVtxno) :=
  (modifySuperBlock _).bind fun _ => (modifySuperBlock _).bind fun _ => (modifySuperBlock _).bind
    fun _ => (releaseVolume _).bind fun _ => setMinVtxno _

/-- The results are the same, and the states are twins again. -/
theorem run {x : StorageM c (Overflow c) α} (h : SameRun [] x x) {s t : Storage c (Overflow c)}
    (hst : Twins s t) : (x.run s).1 = (x.run t).1 ∧ Twins (x.run s).2 (x.run t).2 := by
  rcases h s t ⟨hst, fun r hr => absurd hr List.not_mem_nil⟩ with
    ⟨a, b, s', t', hs, ht, rfl, htwins, -⟩ | ⟨e, s', t', hs, ht, htwins⟩
  · rw [hs, ht]
    exact ⟨rfl, htwins⟩
  · rw [hs, ht]
    exact ⟨rfl, htwins⟩

end SameRun

theorem Twins.refl {s : Storage c (Overflow c)} (h : s.Backed) : Twins s s :=
  ⟨rfl, rfl, rfl, rfl, h, h⟩

/-- **A run** on twins. -/
theorem Twins.runOps {s t : Storage c (Overflow c)} (h : Twins s t)
    (ops : List (StoreOp c.blockSz)) :
    (runOps ops s).1 = (runOps ops t).1 ∧ Twins (runOps ops s).2 (runOps ops t).2 := by
  induction ops generalizing s t with
  | nil => exact ⟨rfl, h⟩
  | cons op ops ih =>
    obtain ⟨hres, hnext⟩ := (SameRun.storeOp op).run h
    obtain ⟨hress, hlast⟩ := ih hnext
    exact ⟨congrArg₂ List.cons hres hress, hlast⟩

/-- A new storage has no mappings and no overflow files. -/
theorem backed_formatOverflow (minVtxno : UInt32) :
    (formatOverflow c minVtxno).2.Backed := by
  have hzeros : (Storage.zeros (Overflow.empty c)).Backed :=
    ⟨Overflow.wellFormed_empty 0, nofun, nofun, nofun, nofun, fun _ => rfl⟩
  have hback := ((SameRun.formatStorage minVtxno).run (Twins.refl hzeros)).2.right
  rw [formatOverflow, format]
  by_cases hsize : c.volumeSize < 4
  · rw [if_pos hsize]
    exact hzeros
  rw [if_neg hsize]
  split
  next heq =>
    rw [heq] at hback
    exact hback
  next => exact hback

/-- A run on a new storage keeps the mappings in the table mappings of files with bytes. -/
theorem backed_runOps (minVtxno : UInt32) (ops : List (StoreOp c.blockSz)) :
    (runOps ops (formatOverflow c minVtxno).2).2.Backed :=
  ((Twins.refl (backed_formatOverflow minVtxno)).runOps ops).2.right

end Nynn
