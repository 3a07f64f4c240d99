import Nynn.Storage.FlatStore

/-!
# Calls that need no new mapping

A call that gets blocks of the volume only, or of groups that are in the table and stay there, asks
the operating system for no mapping. Step by step it does what it does on the store in which every
block stays mapped, also where it fails.

Source: `nynn_mm_subgraph_storage.h`.

## Main definitions

* `Nynn.Storage.flat`: the store in which every block stays mapped.
* `Nynn.Held`: blocks that are got without a new mapping.
* `Nynn.Follows`: a storage, the store of the same data, and pointers held into both.

## Main results

* `Nynn.releaseRaw_follows`, `Nynn.releaseGroup_follows`, `Nynn.requireAllocated_follows`: the
  functions on the free list.
-/

namespace Nynn

open Program

variable {c : Config} {M : Type}

/-- The storage of the same data in which every block stays mapped. -/
def Storage.flat (s : Storage c M) : FlatStorage c := { s with overflow := .allMapped }

@[simp] theorem superblk_flat (s : Storage c M) : s.flat.superblk = s.superblk := rfl

@[simp] theorem blocks_flat (s : Storage c M) : s.flat.blocks = s.blocks := rfl

@[simp] theorem files_flat (s : Storage c M) : s.flat.files = s.files := rfl

/-- In the store in which every block stays mapped no pointer is stale. -/
theorem isUsable_flat (t : FlatStorage c) (p : Ptr) : t.isUsable p = true := by
  cases p <;> rfl

variable [OverflowTable M]

/-- In a table with `I` the groups of the blocks with `B` are mapped, and to get one of them leaves
every mapping. -/
structure Held (c : Config) (B : UInt32 → Prop) (I : M → Prop) : Prop where
  get : ∀ b m, B b → isFlat c b = false → I m → ∃ base m',
    OverflowTable.get (overflowGroup c b) m = (some base, m') ∧ base.group = overflowGroup c b ∧
      OverflowTable.isMapped m' base = true ∧ I m' ∧
      ∀ base', OverflowTable.isMapped m base' = true → OverflowTable.isMapped m' base' = true

/-- The blocks of the volume need no table. -/
theorem held_isFlat : Held c (M := M) (fun b => isFlat c b = true) fun _ => True where
  get _ _ hb hnot _ := absurd (hnot.symm.trans hb) Bool.false_ne_true

/-- Two pointers to the same block, the first one usable, or two null pointers. -/
def SameBlock (s : Storage c M) (p q : Option Ptr) : Prop :=
  (p = none ∧ q = none) ∨
    ∃ p' q', p = some p' ∧ q = some q' ∧ p'.blkno = q'.blkno ∧ s.isUsable p' = true

/-- A storage and the store of the same data; the table has `I`, the head of the free list is a
block with `B`, and the pointers of `l` point to the same blocks. -/
structure Follows (B : UInt32 → Prop) (I : M → Prop) (l : List (Option Ptr × Option Ptr))
    (s : Storage c M) (t : FlatStorage c) : Prop where
  flat : t = s.flat
  table : I s.overflow
  head : s.superblk.headBlkno = invalidBlkno ∨ B s.superblk.headBlkno
  held : ∀ r ∈ l, SameBlock s r.1 r.2

/-- What is related after a failure. -/
abbrev SameData {ε : Type} (_ : ε) (s : Storage c M) (t : FlatStorage c) : Prop := t = s.flat

section Rules

variable {B : UInt32 → Prop} {I : M → Prop} {l : List (Option Ptr × Option Ptr)}
  {p q : Option Ptr}

theorem Follows.drop {s : Storage c M} {t : FlatStorage c} (h : Follows B I l s t) :
    Follows B I [] s t := ⟨h.flat, h.table, h.head, List.forall_mem_nil _⟩

theorem Follows.tail {s : Storage c M} {t : FlatStorage c} {r : Option Ptr × Option Ptr}
    (h : Follows B I (r :: l) s t) : Follows B I l s t :=
  ⟨h.flat, h.table, h.head, fun r' hr' => h.held r' (List.mem_cons_of_mem r hr')⟩

/-- A change of the superblock with a head that is held. -/
theorem modifySuperBlock_follows {f : SuperBlock c → SuperBlock c}
    (hf : ∀ sb : SuperBlock c, sb.headBlkno = invalidBlkno ∨ B sb.headBlkno →
      (f sb).headBlkno = invalidBlkno ∨ B (f sb).headBlkno) :
    Rel (Follows B I l) (modifySuperBlock f : StorageM c M Unit) (modifySuperBlock f)
      (fun _ _ => Follows B I l) SameData := by
  refine Rel.modify fun s t h => ⟨?_, h.table, hf _ h.head, h.held⟩
  rw [h.flat]
  rfl

theorem deref_follows (hmem : (p, q) ∈ l) :
    Rel (Follows B I l) (deref p : StorageM c M _) (deref q)
      (fun blk blk' s t => blk = blk' ∧ Follows B I l s t) SameData := by
  intro s t h
  rcases h.held _ hmem with ⟨hp, hq⟩ | ⟨p', q', hp, hq, hblkno, husable⟩
  · dsimp only at hp hq
    rw [hp, hq]
    exact Or.inr ⟨.nullPointer, s, t, rfl, rfl, h.flat⟩
  · dsimp only at hp hq
    have hs : (deref (some p')).run s = (.ok (s.blocks p'.blkno), s) := by
      rw [deref, Prog.run_get_bind, if_pos husable, Prog.run_pure]
    have ht : (deref (some q')).run t = (.ok (s.blocks p'.blkno), t) := by
      rw [deref, Prog.run_get_bind, if_pos (isUsable_flat t q'), Prog.run_pure, h.flat, hblkno]
      rfl
    rw [hp, hq]
    exact Or.inl ⟨_, _, s, t, hs, ht, rfl, h⟩

theorem assign_follows (hmem : (p, q) ∈ l) (blk : Block c.blockSz) :
    Rel (Follows B I l) (assign p blk : StorageM c M Unit) (assign q blk)
      (fun _ _ => Follows B I l) SameData := by
  intro s t h
  rcases h.held _ hmem with ⟨hp, hq⟩ | ⟨p', q', hp, hq, hblkno, husable⟩
  · dsimp only at hp hq
    rw [hp, hq]
    exact Or.inr ⟨.nullPointer, s, t, rfl, rfl, h.flat⟩
  · dsimp only at hp hq
    have hs : (assign (some p') blk).run s = (.ok (), s.setBlock p'.blkno blk) := by
      rw [assign, Prog.run_get_bind, if_pos husable]
      rfl
    have ht : (assign (some q') blk).run t = (.ok (), t.setBlock p'.blkno blk) := by
      rw [assign, Prog.run_get_bind, if_pos (isUsable_flat t q'), hblkno]
      rfl
    rw [hp, hq]
    refine Or.inl ⟨(), (), _, _, hs, ht, ?_, h.table, h.head, h.held⟩
    rw [h.flat]
    rfl

theorem modifyBlock_follows (hmem : (p, q) ∈ l) (f : Block c.blockSz → Block c.blockSz) :
    Rel (Follows B I l) (modifyBlock p f : StorageM c M Unit) (modifyBlock q f)
      (fun _ _ => Follows B I l) SameData :=
  Rel.bind_eq (deref_follows hmem) fun _ => assign_follows hmem _

theorem pushIndex_follows (hmem : (p, q) ∈ l) (b : UInt32) :
    Rel (Follows B I l) (pushIndex p b : StorageM c M Unit) (pushIndex q b)
      (fun _ _ => Follows B I l) SameData := by
  refine Rel.bind_eq (deref_follows hmem) fun blk => ?_
  cases blk.pushIndex b with
  | none => exact Rel.fail fun _ _ h => h.flat
  | some blk' => exact assign_follows hmem blk'

theorem popIndex_follows (hmem : (p, q) ∈ l) :
    Rel (Follows B I l) (popIndex p : StorageM c M UInt32) (popIndex q)
      (fun x y s t => x = y ∧ Follows B I l s t) SameData := by
  refine Rel.bind_eq (deref_follows hmem) fun blk => ?_
  cases blk.popIndex with
  | none => exact Rel.fail fun _ _ h => h.flat
  | some r => exact Rel.bind (assign_follows hmem r.2) fun _ _ => Rel.pure fun _ _ h => ⟨rfl, h⟩

/-- To get a block that is held: the pointers to it are held as well. -/
theorem getBlock_follows (hheld : Held c B I) {b : UInt32} (hb : B b) {s : Storage c M}
    {t : FlatStorage c} (h : Follows B I l s t) :
    ∃ p q s' t', (getBlock b).run s = (.ok p, s') ∧ (getBlock b).run t = (.ok q, t') ∧
      Follows B I ((p, q) :: l) s' t' := by
  have hcons {s' : Storage c M} {t' : FlatStorage c} {p q : Option Ptr} (h' : Follows B I l s' t')
      (hpq : SameBlock s' p q) : Follows B I ((p, q) :: l) s' t' :=
    ⟨h'.flat, h'.table, h'.head, List.forall_mem_cons.mpr ⟨hpq, h'.held⟩⟩
  obtain rfl := h.flat
  by_cases hblk : s.isBlock b = true
  · have ht := getBlock_of_isBlock (s := s.flat) hblk
    by_cases hflat : isFlat c b = true
    · have hs : (getBlock b).run s = (.ok (some (.volume b)), s) := by
        rw [getBlock, if_pos hflat, Prog.run_pure]
      refine ⟨_, _, s, _, hs, ht, hcons h (Or.inr ⟨_, _, rfl, rfl, ?_, rfl⟩)⟩
      rw [blkno_blockPtr]
      rfl
    · have hflat' : isFlat c b = false := Bool.eq_false_iff.mpr hflat
      have hover : (isOverflow c b && decide (b < s.superblk.supBlkno)) = true := by
        rwa [Storage.isBlock, hflat', Bool.false_or] at hblk
      obtain ⟨base, m', hget, hgroup, hmapped, hI, hkept⟩ := hheld.get b _ hb hflat' h.table
      have hgot : (getOverflowBlock b : StorageM c M (Option Mapping)).run s =
          (.ok (some base), { s with overflow := m' }) := by
        rw [getOverflowBlock, Prog.run_get_bind]
        simp only [hget, Prog.run_modify_bind, Prog.run_pure]
      have hs : (getBlock b).run s =
          (.ok (some (.overflow base (b &&& c.overflowBlknoMask))), { s with overflow := m' }) := by
        rw [getBlock, if_neg hflat, Prog.run_get_bind, if_pos hover, getMapping]
        rw [Prog.run_bind_of_ok (Prog.run_bind_of_ok hgot)]
        rfl
      have hkeep : Follows B I l { s with overflow := m' } s.flat := by
        refine ⟨rfl, hI, h.head, fun r hr => (h.held r hr).imp_right ?_⟩
        rintro ⟨p', q', hp, hq, hblkno, husable⟩
        refine ⟨p', q', hp, hq, hblkno, ?_⟩
        cases p' with
        | volume => rfl
        | overflow base' _ => exact hkept base' husable
      refine ⟨_, _, _, _, hs, ht, hcons hkeep (Or.inr ⟨_, _, rfl, rfl, ?_, hmapped⟩)⟩
      rw [blkno_blockPtr, Ptr.blkno, hgroup, overflowGroup_add]
  · rw [Bool.not_eq_true] at hblk
    have ht := getBlock_of_not_isBlock (s := s.flat) hblk
    have hs := getBlock_of_not_isBlock hblk
    exact ⟨_, _, s, _, hs, ht, hcons h (Or.inl ⟨rfl, rfl⟩)⟩

theorem getBlock_bind_follows {α : Type} {f : Option Ptr → StorageM c M α}
    {g : Option Ptr → StorageM c AllMapped α}
    {Q : α → α → Storage c M → FlatStorage c → Prop} (hheld : Held c B I) {b : UInt32} (hb : B b)
    (h : ∀ p q, Rel (Follows B I ((p, q) :: l)) (f p) (g q) Q SameData) :
    Rel (Follows B I l) (getBlock b >>= f) (getBlock b >>= g) Q SameData := by
  intro s t hst
  obtain ⟨p, q, s', t', hs, ht, hst'⟩ := getBlock_follows hheld hb hst
  rw [Prog.run_bind_of_ok hs, Prog.run_bind_of_ok ht]
  exact h p q s' t' hst'

end Rules

/-! ### The free list -/

section FreeList

variable {B : UInt32 → Prop} {I : M → Prop}

/-- The block becomes the head of the free list. -/
private theorem newHead_follows {b : UInt32} (hb : B b) (head : UInt32) {p q : Option Ptr} :
    Rel (Follows B I [(p, q)])
      (do
        modifyBlock p Block.initIndexBlock
        pushIndex p head
        setHeadBlkno b
        incNumberOfFreeBlks : StorageM c M Unit)
      (do
        modifyBlock q Block.initIndexBlock
        pushIndex q head
        setHeadBlkno b
        incNumberOfFreeBlks) (fun _ _ => Follows B I []) SameData :=
  Rel.bind (modifyBlock_follows List.mem_cons_self _) fun _ _ =>
    Rel.bind (pushIndex_follows List.mem_cons_self _) fun _ _ =>
      Rel.bind (modifySuperBlock_follows fun _ _ => Or.inr hb) fun _ _ =>
        Rel.mono (modifySuperBlock_follows (l := [(p, q)]) fun _ h => h) (fun _ _ h => h)
          fun _ _ _ _ h => h.drop

/-- The block goes into the head of the free list. -/
private theorem pushHead_follows (hheld : Held c B I) {head : UInt32} (hhead : B head) (b : UInt32)
    {l : List (Option Ptr × Option Ptr)} :
    Rel (Follows B I l)
      (do
        let headBlk ← getBlock head
        pushIndex headBlk b
        incNumberOfFreeBlks : StorageM c M Unit)
      (do
        let headBlk ← getBlock head
        pushIndex headBlk b
        incNumberOfFreeBlks) (fun _ _ => Follows B I []) SameData :=
  getBlock_bind_follows hheld hhead fun p q =>
    Rel.bind (pushIndex_follows List.mem_cons_self _) fun _ _ =>
      Rel.mono (modifySuperBlock_follows (l := (p, q) :: l) fun _ h => h) (fun _ _ h => h)
        fun _ _ _ _ h => h.drop

/-- The release of a block that is held. -/
theorem releaseRaw_follows (hheld : Held c B I) {b : UInt32} (hb : B b) :
    Rel (Follows B I []) (releaseRaw b : StorageM c M Unit) (releaseRaw b)
      (fun _ _ => Follows B I []) SameData := by
  refine Rel.get_bind ?_
  intro s t hst
  have hstart : ∀ s' t', s' = s ∧ t' = t → Follows B I [] s' t' := by
    rintro s' t' ⟨rfl, rfl⟩
    exact hst
  obtain ⟨head, hs⟩ : ∃ head, head = s.superblk.headBlkno := ⟨_, rfl⟩
  have hhead := hst.head
  rw [← hs] at hhead
  have ht : t.superblk.headBlkno = head := by rw [hst.flat, superblk_flat, hs]
  rw [ht, ← hs]
  refine Rel.mono (getBlock_bind_follows (l := []) hheld hb fun p q => ?_) hstart fun _ _ _ _ h => h
  intro s' t' hst'
  rcases hst'.held _ List.mem_cons_self with ⟨hp, hq⟩ | ⟨p', q', hp, hq, -⟩
  · dsimp only at hp hq
    subst hp hq
    exact Or.inr ⟨_, s', t', rfl, rfl, hst'.flat⟩
  dsimp only at hp hq
  subst hp hq
  refine (?_ : Rel (Follows B I [(some p', some q')]) _ _ _ _) s' t' hst'
  refine Rel.ite (fun _ => newHead_follows hb head) fun hinv => ?_
  have hheadB : B head := hhead.resolve_left hinv
  refine getBlock_bind_follows hheld hheadB fun r r' =>
    Rel.bind_eq (deref_follows List.mem_cons_self) fun blk => ?_
  refine Rel.ite (fun _ => ?_) fun _ => pushHead_follows hheld hheadB b
  exact (newHead_follows hb head).mono (fun _ _ h => h.tail) fun _ _ _ _ h => h

theorem releaseGroup_follows (hheld : Held c B I) {sup : UInt32} {n : ℕ}
    (hB : ∀ i < n, B (sup + UInt32.ofNat i)) :
    Rel (Follows B I []) (releaseGroup sup n : StorageM c M Unit) (releaseGroup sup n)
      (fun _ _ => Follows B I []) SameData := by
  induction n with
  | zero => exact Rel.pure fun _ _ h => h
  | succ n ih =>
    exact Rel.bind (releaseRaw_follows hheld (hB n (Nat.lt_succ_self n))) fun _ _ =>
      ih fun i hi => hB i (hi.trans (Nat.lt_succ_self n))

/-- What `requireAllocated` does with the head block. -/
private theorem takeBlock_follows (hheld : Held c B I) {head : UInt32} (hhead : B head)
    {p q : Option Ptr} :
    Rel (Follows B I [(p, q)])
      (do
        let b ← deref p
        if b.isAtBottom then do
          let headBlk ← getBlock head
          let next ← popIndex headBlk
          setHeadBlkno next
          pure head
        else popIndex p : StorageM c M UInt32)
      (do
        let b ← deref q
        if b.isAtBottom then do
          let headBlk ← getBlock head
          let next ← popIndex headBlk
          setHeadBlkno next
          pure head
        else popIndex q)
      (fun x y s t => x = y ∧ t = s.flat) SameData := by
  refine Rel.bind_eq (deref_follows List.mem_cons_self) fun blk => Rel.ite (fun _ => ?_) fun _ => ?_
  · refine getBlock_bind_follows hheld hhead fun r r' =>
      Rel.bind_eq (popIndex_follows List.mem_cons_self) fun next => ?_
    refine Rel.bind (Q := fun _ _ s t => t = s.flat) ?_ fun _ _ => Rel.pure fun _ _ h => ⟨rfl, h⟩
    exact Rel.modify fun s t h => by
      rw [h.flat]
      rfl
  · exact (popIndex_follows List.mem_cons_self).mono (fun _ _ h => h) fun _ _ _ _ h =>
      ⟨h.1, h.2.flat⟩

/-- A require with a head block that was got. -/
theorem requireAllocated_of_got (hheld : Held c B I) {s s' : Storage c M} {t t' : FlatStorage c}
    {p q : Option Ptr} (hhead : B s.superblk.headBlkno)
    (hne : s.superblk.headBlkno ≠ invalidBlkno)
    (hsame : t.superblk.headBlkno = s.superblk.headBlkno)
    (hs : (decNumberOfFreeBlks >>= fun _ => getBlock s.superblk.headBlkno).run s = (.ok p, s'))
    (ht : (decNumberOfFreeBlks >>= fun _ => getBlock s.superblk.headBlkno).run t = (.ok q, t'))
    (h : Follows B I [(p, q)] s' t') :
    (requireAllocated.run s).1 = (requireAllocated.run t).1 := by
  rw [requireAllocated, requireAllocated, Prog.run_get_bind, Prog.run_get_bind]
  simp only [hsame, if_neg hne]
  rw [Prog.run_bind_bind_of_ok hs, Prog.run_bind_bind_of_ok ht]
  exact (takeBlock_follows hheld hhead).run_fst (fun _ _ _ _ h => h.1) h

/-- A require without a new group. -/
theorem requireAllocated_follows (hheld : Held c B I) :
    Rel (Follows B I []) (requireAllocated : StorageM c M UInt32) requireAllocated
      (fun x y s t => x = y ∧ t = s.flat) SameData := by
  refine Rel.get_bind ?_
  intro s t hst
  have hstart : ∀ s' t', s' = s ∧ t' = t → Follows B I [] s' t' := by
    rintro s' t' ⟨rfl, rfl⟩
    exact hst
  obtain ⟨head, hs⟩ : ∃ head, head = s.superblk.headBlkno := ⟨_, rfl⟩
  have hhead := hst.head
  rw [← hs] at hhead
  have ht : t.superblk.headBlkno = head := by rw [hst.flat, superblk_flat, hs]
  rw [ht, ← hs]
  refine Rel.mono (P := Follows B I []) ?_ hstart fun _ _ _ _ h => h
  refine Rel.ite (fun _ => Rel.pure fun _ _ h => ⟨rfl, h.flat⟩) fun hinv => ?_
  have hheadB : B head := hhead.resolve_left hinv
  exact Rel.bind (modifySuperBlock_follows fun _ h => h) fun _ _ =>
    getBlock_bind_follows hheld hheadB fun p q => takeBlock_follows hheld hheadB

end FreeList

end Nynn
