import Nynn.Storage.OverflowTable
import Nynn.Storage.NewBlocks

/-!
# Pointers that stay usable

A call on a storage with the table of overflow groups is compared with the same call on the store
in which every block stays mapped. Every pointer that a call holds is related to the pointer to the
same block of that store; it is lost when another block is got whose group takes the slot. This
file gives the rules for the steps of a call, and then the functions on the free list, which keep
two pointers at a time.

Source: `nynn_mm_subgraph_storage.h`.

## Main definitions

* `Nynn.SimWith`: related states, with a fact about the store in which every block stays mapped.
* `Nynn.HoldsPtr`: related states, with a pointer held in each.
* `Nynn.NotStale`: related states after a failure that is not the use of a stale pointer.
* `Nynn.ReleaseSafe`, `Nynn.RequireSafe`: when the functions on the free list use no stale pointer.

## Main results

* `Nynn.releaseRaw_rel`, `Nynn.require_rel`.
* `Nynn.releaseRaw_stale`: a release that is not safe uses a stale pointer.
-/

namespace Nynn

open Program

variable {c : Config}

/-- Related states, and a fact about the store in which every block stays mapped. -/
def SimWith (F : FlatStorage c → Prop) (s : Storage c (Overflow c)) (t : FlatStorage c) : Prop :=
  Sim s t ∧ F t

/-- Both storages hold the null pointer, or a usable pointer to the block `b`. -/
def HoldsPtr (p q : Option Ptr) (b : UInt32) (F : FlatStorage c → Prop)
    (s : Storage c (Overflow c)) (t : FlatStorage c) : Prop :=
  SimWith F s t ∧ ((p = none ∧ q = none) ∨
    ∃ p', p = some p' ∧ q = some (blockPtr c b) ∧ t.isBlock b = true ∧ Points s p' b)

/-- The call did not fail at a stale pointer. -/
def NotStale (e : Fault) (s : Storage c (Overflow c)) (t : FlatStorage c) : Prop :=
  e ≠ .stalePointer ∧ Sim s t

/-! ### The rules -/

section Rules

variable {F G : FlatStorage c → Prop} {p q : Option Ptr} {b : UInt32}

theorem SimWith.mono {s : Storage c (Overflow c)} {t : FlatStorage c} (h : SimWith F s t)
    (hFG : F t → G t) : SimWith G s t := ⟨h.1, hFG h.2⟩

theorem HoldsPtr.mono {s : Storage c (Overflow c)} {t : FlatStorage c} (h : HoldsPtr p q b F s t)
    (hFG : F t → G t) : HoldsPtr p q b G s t := ⟨h.1.mono hFG, h.2⟩

theorem fail_rel {α β : Type} {P : Storage c (Overflow c) → FlatStorage c → Prop}
    {Q : α → β → Storage c (Overflow c) → FlatStorage c → Prop} {e : Fault}
    (he : e ≠ .stalePointer) (hP : ∀ s t, P s t → Sim s t) :
    Rel P (Prog.fail e : StorageM c (Overflow c) α) (Prog.fail e : StorageM c AllMapped β) Q
      NotStale :=
  Rel.fail fun s t hst => ⟨he, hP s t hst⟩

theorem getBlock_rel (b : UInt32) :
    Rel (SimWith F) (getBlock b) (getBlock b) (fun p q => HoldsPtr p q b F) NotStale := by
  rintro s t ⟨hsim, hF⟩
  rcases getBlock_sim hsim b with ⟨hnot, hrun⟩ | ⟨hblk, p, s', hrun, hsim', hp, -⟩
  · exact Or.inl ⟨none, none, s, t, hrun, getBlock_of_not_isBlock hnot, ⟨hsim, hF⟩,
      Or.inl ⟨rfl, rfl⟩⟩
  · exact Or.inl ⟨some p, some (blockPtr c b), s', t, hrun, getBlock_of_isBlock hblk,
      ⟨hsim', hF⟩, Or.inr ⟨p, rfl, rfl, hblk, hp⟩⟩

/-- To get a block that is compatible with the block of a held pointer keeps that pointer. -/
theorem getBlock_rel_of_compatible {p : Ptr} {a : UInt32}
    (hcomp : ∀ t : FlatStorage c, F t → Compatible c a b) :
    Rel (fun s t => SimWith F s t ∧ Points s p a) (getBlock b) (getBlock b)
      (fun p' q' s t => HoldsPtr p' q' b F s t ∧ Points s p a) NotStale := by
  rintro s t ⟨⟨hsim, hF⟩, hpa⟩
  rcases getBlock_sim hsim b with ⟨hnot, hrun⟩ | ⟨hblk, p', s', hrun, hsim', hp', hkept⟩
  · exact Or.inl ⟨none, none, s, t, hrun, getBlock_of_not_isBlock hnot, ⟨⟨hsim, hF⟩,
      Or.inl ⟨rfl, rfl⟩⟩, hpa⟩
  · exact Or.inl ⟨some p', some (blockPtr c b), s', t, hrun, getBlock_of_isBlock hblk,
      ⟨⟨hsim', hF⟩, Or.inr ⟨p', rfl, rfl, hblk, hp'⟩⟩, hkept p a hpa (hcomp t hF)⟩

/-- Reading through a held pointer changes no state, so a further fact `K` stays true. -/
theorem deref_rel_and (K : Storage c (Overflow c) → Prop) :
    Rel (fun s t => HoldsPtr p q b F s t ∧ K s) (deref p) (deref q) (fun blk blk' s t =>
      blk = blk' ∧ HoldsPtr p q b (fun t => F t ∧ t.isBlock b = true ∧ t.blocks b = blk) s t ∧
        K s) NotStale := by
  rintro s t ⟨⟨⟨hsim, hF⟩, ⟨rfl, rfl⟩ | ⟨p, rfl, rfl, hblk, hp⟩⟩, hK⟩
  · exact Or.inr ⟨.nullPointer, s, t, rfl, rfl, by decide, hsim⟩
  · exact Or.inl ⟨_, _, s, t, deref_sim hsim hp, deref_blockPtr t b, rfl,
      ⟨⟨hsim, hF, hblk, rfl⟩, Or.inr ⟨p, rfl, rfl, hblk, hp⟩⟩, hK⟩

theorem deref_rel :
    Rel (HoldsPtr p q b F) (deref p) (deref q) (fun blk blk' s t => blk = blk' ∧
      HoldsPtr p q b (fun t => F t ∧ t.isBlock b = true ∧ t.blocks b = blk) s t) NotStale :=
  (deref_rel_and fun _ => True).mono (fun _ _ h => ⟨h, trivial⟩) fun _ _ _ _ h => ⟨h.1, h.2.1⟩

/-- Writing through a held pointer; the pointer stays usable. -/
theorem assign_rel {blk : Block c.blockSz}
    (hG : ∀ t, F t → t.isBlock b = true → G (t.setBlock b blk)) :
    Rel (HoldsPtr p q b F) (assign p blk) (assign q blk) (fun _ _ => HoldsPtr p q b G)
      NotStale := by
  rintro s t ⟨⟨hsim, hF⟩, ⟨rfl, rfl⟩ | ⟨p, rfl, rfl, hblk, hp⟩⟩
  · exact Or.inr ⟨.nullPointer, s, t, rfl, rfl, by decide, hsim⟩
  · exact Or.inl ⟨(), (), _, _, assign_sim hp blk, assign_blockPtr t b blk,
      ⟨hsim.setBlock b blk, hG t hF hblk⟩, Or.inr ⟨p, rfl, rfl, hblk, hp.setBlock b blk⟩⟩

theorem modifyBlock_rel {f : Block c.blockSz → Block c.blockSz}
    (hG : ∀ t, F t → G (t.setBlock b (f (t.blocks b)))) :
    Rel (HoldsPtr p q b F) (modifyBlock p f) (modifyBlock q f) (fun _ _ => HoldsPtr p q b G)
      NotStale := by
  refine Rel.bind_eq deref_rel fun blk => assign_rel ?_
  rintro t ⟨hF, -, rfl⟩ -
  exact hG t hF

theorem pushIndex_rel {blkno : UInt32} (hG : ∀ t blk, F t →
      (t.blocks b).pushIndex blkno = some blk → G (t.setBlock b blk)) :
    Rel (HoldsPtr p q b F) (pushIndex p blkno) (pushIndex q blkno)
      (fun _ _ => HoldsPtr p q b G) NotStale := by
  refine Rel.bind_eq deref_rel fun blk => ?_
  cases hpush : blk.pushIndex blkno with
  | none =>
    dsimp only
    exact fail_rel (by decide) fun s t hst => hst.1.1
  | some blk' =>
    dsimp only
    refine assign_rel ?_
    rintro t ⟨hF, -, rfl⟩ -
    exact hG t blk' hF hpush

theorem popIndex_rel {G : UInt32 → FlatStorage c → Prop} (hG : ∀ t x blk, F t →
      t.isBlock b = true → (t.blocks b).popIndex = some (x, blk) → G x (t.setBlock b blk)) :
    Rel (HoldsPtr p q b F) (popIndex p) (popIndex q)
      (fun x y s t => x = y ∧ SimWith (G x) s t) NotStale := by
  refine Rel.bind_eq deref_rel fun blk => ?_
  cases hpop : blk.popIndex with
  | none =>
    dsimp only
    exact fail_rel (by decide) fun s t hst => hst.1.1
  | some r =>
    obtain ⟨x, blk'⟩ := r
    dsimp only
    refine Rel.bind (assign_rel (G := G x) ?_) fun _ _ => Rel.pure fun s t hst => ⟨rfl, hst.1⟩
    rintro t ⟨hF, hblk, rfl⟩ -
    exact hG t x blk' hF hblk hpop

/-- A change of the superblock that leaves `supBlkno` alone. -/
theorem Sim.setSuperBlock {s : Storage c (Overflow c)} {t : FlatStorage c} (h : Sim s t)
    {f : SuperBlock c → SuperBlock c} (hsup : ∀ sb, (f sb).supBlkno = sb.supBlkno) :
    Sim { s with superblk := f s.superblk } { t with superblk := f t.superblk } where
  superblk := congrArg f h.superblk
  blocks := h.blocks
  files := h.files
  table := h.table
  aligned := (congrArg (·.toNat % c.groupSize = 0) (hsup t.superblk)).mpr h.aligned
  hasFile b hb hlt := h.hasFile b hb (hsup t.superblk ▸ hlt)
  hasBytes b hb hlt := h.hasBytes b hb (hsup t.superblk ▸ hlt)
  isFile := h.isFile
  reopens := h.reopens

theorem modifySuperBlock_rel {f : SuperBlock c → SuperBlock c}
    (hsup : ∀ sb, (f sb).supBlkno = sb.supBlkno)
    (hG : ∀ t, F t → G { t with superblk := f t.superblk }) :
    Rel (SimWith F) (modifySuperBlock f) (modifySuperBlock f) (fun _ _ => SimWith G) NotStale :=
  Rel.modify fun _ t hst => ⟨hst.1.setSuperBlock hsup, hG t hst.2⟩

/-- A change of the superblock while a pointer is held. -/
theorem modifySuperBlock_rel_held {f : SuperBlock c → SuperBlock c}
    (hsup : ∀ sb, (f sb).supBlkno = sb.supBlkno)
    (hG : ∀ t, F t → G { t with superblk := f t.superblk }) :
    Rel (HoldsPtr p q b F) (modifySuperBlock f) (modifySuperBlock f)
      (fun _ _ => HoldsPtr p q b G) NotStale := by
  refine Rel.modify fun s t hst => ⟨⟨hst.1.1.setSuperBlock hsup, hG t hst.1.2⟩,
    hst.2.imp_right ?_⟩
  rintro ⟨p', hp, hq, hblk, hpoints⟩
  refine ⟨p', hp, hq, ?_, hpoints⟩
  rwa [Storage.isBlock, hsup]

end Rules

/-! ### Releasing a block -/

/-- To release the block `b` uses no stale pointer: when `b` becomes the head of the free list in
the place of a full index block, to look at that index block does not unmap the group of `b`. -/
def ReleaseSafe {M : Type} (s : Storage c M) (b : UInt32) : Prop :=
  s.isBlock b = true → s.superblk.headBlkno ≠ invalidBlkno →
    (s.blocks s.superblk.headBlkno).isAtTop = true → Compatible c b s.superblk.headBlkno

instance {M : Type} (s : Storage c M) (b : UInt32) : Decidable (ReleaseSafe s b) := by
  unfold ReleaseSafe
  infer_instance

/-- What a release does to the head of the free list. -/
structure Released (t : FlatStorage c) (b : UInt32) (t' : FlatStorage c) : Prop where
  supBlkno : t'.superblk.supBlkno = t.superblk.supBlkno
  head : t'.superblk.headBlkno = b ∨
    (t'.superblk.headBlkno = t.superblk.headBlkno ∧
      (t.blocks t.superblk.headBlkno).isAtTop = false ∧
      (t.blocks t.superblk.headBlkno).pushIndex b = some (t'.blocks t.superblk.headBlkno))

section Release

variable {t₀ : FlatStorage c} {b : UInt32}

/-- The released block becomes the head. -/
private theorem newHead_rel {p : Ptr} (hblk : t₀.isBlock b = true) :
    Rel (fun s t => SimWith (· = t₀) s t ∧ Points s p b)
      (do
        modifyBlock (some p) Block.initIndexBlock
        pushIndex (some p) t₀.superblk.headBlkno
        setHeadBlkno b
        incNumberOfFreeBlks : StorageM c (Overflow c) Unit)
      (do
        modifyBlock (some (blockPtr c b)) Block.initIndexBlock
        pushIndex (some (blockPtr c b)) t₀.superblk.headBlkno
        setHeadBlkno b
        incNumberOfFreeBlks : StorageM c AllMapped Unit)
      (fun _ _ => SimWith (Released t₀ b)) NotStale := by
  refine Rel.bind (Q := fun _ _ => HoldsPtr (some p) (some (blockPtr c b)) b
    fun t => t.superblk.supBlkno = t₀.superblk.supBlkno) ?_ fun _ _ => Rel.bind (Q := fun _ _ =>
      HoldsPtr (some p) (some (blockPtr c b)) b
        fun t => t.superblk.supBlkno = t₀.superblk.supBlkno) ?_ fun _ _ => Rel.bind
          (Q := fun _ _ => SimWith (Released t₀ b)) ?_ fun _ _ => ?_
  · refine Rel.mono (modifyBlock_rel (F := (· = t₀)) fun t ht => ?_) ?_ fun _ _ _ _ h => h
    · rw [ht, superblk_setBlock]
    · rintro s t ⟨⟨hsim, rfl⟩, hp⟩
      exact ⟨⟨hsim, rfl⟩, Or.inr ⟨p, rfl, rfl, hblk, hp⟩⟩
  · exact pushIndex_rel fun t blk ht _ => ht
  · refine Rel.mono (modifySuperBlock_rel (F := fun t => t.superblk.supBlkno =
      t₀.superblk.supBlkno) (fun _ => rfl) fun t ht => ⟨ht, Or.inl rfl⟩) (fun _ _ h => h.1)
      fun _ _ _ _ h => h
  · exact modifySuperBlock_rel (fun _ => rfl) fun t ht => ⟨ht.supBlkno, ht.head⟩

/-- The number of the released block goes into the head. -/
private theorem pushHead_rel (htop : (t₀.blocks t₀.superblk.headBlkno).isAtTop = false) :
    Rel (SimWith (· = t₀))
      (do
        let headBlk ← getBlock t₀.superblk.headBlkno
        pushIndex headBlk b
        incNumberOfFreeBlks : StorageM c (Overflow c) Unit)
      (do
        let headBlk ← getBlock t₀.superblk.headBlkno
        pushIndex headBlk b
        incNumberOfFreeBlks : StorageM c AllMapped Unit)
      (fun _ _ => SimWith (Released t₀ b)) NotStale := by
  refine Rel.bind (getBlock_rel _) fun p q => Rel.bind (pushIndex_rel (G := Released t₀ b) ?_)
    fun _ _ => Rel.mono (modifySuperBlock_rel (F := Released t₀ b) (fun _ => rfl) fun t ht =>
      ⟨ht.supBlkno, ht.head⟩) (fun _ _ h => h.1) fun _ _ _ _ h => h
  rintro t blk rfl hpush
  exact ⟨rfl, Or.inr ⟨rfl, htop, by simpa using hpush⟩⟩

/-- **A release.** When it is safe, the two storages do the same. -/
theorem releaseRaw_rel (hsafe : ReleaseSafe t₀ b) :
    Rel (SimWith (· = t₀)) (releaseRaw b) (releaseRaw b) (fun _ _ => SimWith (Released t₀ b))
      NotStale := by
  refine Rel.get_bind ?_
  rintro s t ⟨hsim, rfl⟩
  rw [hsim.superblk]
  refine Rel.bind (Rel.mono (getBlock_rel (F := (· = t)) b) ?_ fun _ _ _ _ h => h) fun p q => ?_
  · rintro s' t' ⟨rfl, rfl⟩
    exact ⟨hsim, rfl⟩
  refine fun s' t' hst => ?_
  obtain ⟨⟨hsim', rfl⟩, ⟨rfl, rfl⟩ | ⟨p, rfl, rfl, hblk, hp⟩⟩ := hst
  · exact Or.inr ⟨_, s', t', rfl, rfl, by decide, hsim'⟩
  refine (?_ : Rel (fun s t => SimWith (· = t') s t ∧ Points s p b) _ _ _ _) s' t'
    ⟨⟨hsim', rfl⟩, hp⟩
  refine Rel.ite (fun hinv => newHead_rel hblk) fun hinv => ?_
  by_cases htop : (t'.blocks t'.superblk.headBlkno).isAtTop = true
  · -- The pointer to `b` is held while the full head block is looked at.
    refine Rel.bind (getBlock_rel_of_compatible (fun _ _ => hsafe hblk hinv htop))
      fun p' q' => Rel.bind_eq (deref_rel_and _) fun blk => ?_
    refine Rel.of_forall (p := blk = t'.blocks t'.superblk.headBlkno) ?_ ?_
    · rintro s t ⟨⟨⟨-, rfl, -, rfl⟩, -⟩, -⟩
      rfl
    · rintro rfl
      rw [htop]
      exact (newHead_rel hblk).mono (fun s t h => ⟨h.1.1.mono And.left, h.2⟩) fun _ _ _ _ h => h
  · rw [Bool.not_eq_true] at htop
    refine Rel.mono (Rel.bind (getBlock_rel (F := (· = t')) t'.superblk.headBlkno)
      fun p' q' => Rel.bind_eq deref_rel fun blk => ?_) (fun _ _ h => h.1) fun _ _ _ _ h => h
    refine Rel.of_forall (p := blk = t'.blocks t'.superblk.headBlkno) ?_ ?_
    · rintro s t ⟨⟨-, rfl, -, rfl⟩, -⟩
      rfl
    · rintro rfl
      rw [htop]
      exact (pushHead_rel htop).mono (fun s t h => h.1.mono And.left) fun _ _ _ _ h => h

/-- Pointers to incompatible blocks are not both usable. -/
theorem Points.compatible {s : Storage c (Overflow c)} {p q : Ptr} {a b : UInt32}
    (hp : Points s p a) (hq : Points s q b) : Compatible c a b := by
  rcases hp with ⟨hflat, -⟩ | ⟨-, m, -, hm, hmapped⟩
  · exact Or.inl hflat
  rcases hq with ⟨hflat, -⟩ | ⟨-, m', -, hm', hmapped'⟩
  · exact Or.inr (Or.inl hflat)
  by_cases hslot : Overflow.mapping c (overflowGroup c a) = Overflow.mapping c (overflowGroup c b)
  · rw [isMapped_iff, hm, hslot, ← hm', isMapped_iff.mp hmapped'] at hmapped
    exact Or.inr (Or.inr (Or.inl (by rw [← hm, ← hm', Option.some.inj hmapped])))
  · exact Or.inr (Or.inr (Or.inr hslot))

/-- A release that is not safe uses a stale pointer. -/
theorem releaseRaw_stale {s : Storage c (Overflow c)} {t : FlatStorage c} (hsim : Sim s t)
    (hrelease : ¬ReleaseSafe t b) (hhead : t.isBlock t.superblk.headBlkno = true) :
    ∃ s', (releaseRaw b).run s = (.error .stalePointer, s') := by
  rw [ReleaseSafe] at hrelease
  push Not at hrelease
  obtain ⟨hblk, hne, htop, hcomp⟩ := hrelease
  rcases getBlock_sim hsim b with ⟨hnot, -⟩ | ⟨-, p, s₁, hrun, hsim₁, hp, -⟩
  · rw [hblk] at hnot
    cases hnot
  rcases getBlock_sim hsim₁ t.superblk.headBlkno with ⟨hnot, -⟩ | ⟨-, q, s₂, hrun₂, hsim₂, hq, -⟩
  · rw [hhead] at hnot
    cases hnot
  have hstale : s₂.isUsable p = false := by
    rcases hp with ⟨hflat, -⟩ | ⟨hflat, m, rfl, hm, -⟩
    · exact absurd (Or.inl hflat) hcomp
    · by_contra hmapped
      rw [Bool.not_eq_false] at hmapped
      exact hcomp (Points.compatible (Or.inr ⟨hflat, m, rfl, hm, hmapped⟩) hq)
  refine ⟨s₂, ?_⟩
  rw [releaseRaw, Prog.run_get_bind, Prog.run_bind_of_ok hrun, hsim.superblk]
  simp only [if_neg hne]
  rw [Prog.run_bind_of_ok hrun₂, Prog.run_bind_of_ok (deref_sim hsim₂ hq)]
  rw [htop, Prog.pure_bind, if_pos rfl]
  refine Prog.run_bind_of_error (Prog.run_bind_of_error ?_)
  simp only [deref, Prog.run_get_bind, hstale, Bool.false_eq_true, if_false, Prog.run_fail]

end Release

/-! ### Requiring a block -/

/-- To release `n` blocks of the group that starts at `b` uses no stale pointer: looking at the
head block does not unmap the group, or there is room for all of them in the head block. -/
def GroupSafe {M : Type} (s : Storage c M) (b : UInt32) (n : ℕ) : Prop :=
  s.superblk.headBlkno = invalidBlkno ∨ Compatible c b s.superblk.headBlkno ∨
    ((s.blocks s.superblk.headBlkno).index 0).toNat + n ≤
      (Block.getMaxNumberOfIndexes c.blockSz).toNat

/-- What the pop of a word from the head block must meet: when it is `INVALID_BLOCKNO`, a new group
is made while the head block stays the head. -/
def PopSafe {M : Type} (s : Storage c M) (r : UInt32 × Block c.blockSz) : Prop :=
  r.1 = invalidBlkno → Compatible c s.superblk.supBlkno s.superblk.headBlkno ∨
    (r.2.index 0).toNat + c.groupSize ≤ (Block.getMaxNumberOfIndexes c.blockSz).toNat

instance {M : Type} (s : Storage c M) (r : UInt32 × Block c.blockSz) :
    Decidable (PopSafe s r) := by
  unfold PopSafe
  infer_instance

/-- To require a block uses no stale pointer. -/
def RequireSafe {M : Type} (s : Storage c M) : Prop :=
  s.superblk.headBlkno ≠ invalidBlkno → (s.blocks s.superblk.headBlkno).isAtBottom = false →
    ∀ r ∈ (s.blocks s.superblk.headBlkno).popIndex, PopSafe s r

instance {M : Type} (s : Storage c M) : Decidable (RequireSafe s) := by
  have hpop : Decidable (∀ r ∈ (s.blocks s.superblk.headBlkno).popIndex, PopSafe s r) :=
    Option.decidableForallMem _
  unfold RequireSafe
  infer_instance

/-- In a free list every word above the last one is the number of a block, so that to require a
block is safe. -/
theorem FreeListOf.requireSafe {t : FlatStorage c} {stack : List UInt32} (h : FreeListOf t stack) :
    RequireSafe t := by
  intro hne hbot r hr hinv
  obtain ⟨rest, hstack, hindex, -⟩ := h.chain.exists_rest hne
  obtain ⟨blkno, b', hpop, -, hentries, -⟩ := Block.popIndex_of_not_isAtBottom hindex hbot
  rw [hpop, Option.mem_some_iff] at hr
  subst hr
  have hmem : blkno ∈ stack := by simp [hstack, hentries]
  exact absurd hinv (ne_invalidBlkno_of_isBlock (h.isBlock blkno hmem))

/-- What a require without a new group leaves when it finds no block. -/
structure Exhausted (t t' : FlatStorage c) : Prop where
  headBlkno : t'.superblk.headBlkno = t.superblk.headBlkno
  supBlkno : t'.superblk.supBlkno = t.superblk.supBlkno
  popped : t.superblk.headBlkno ≠ invalidBlkno →
    (t.blocks t.superblk.headBlkno).isAtBottom = false ∧
      (t.blocks t.superblk.headBlkno).popIndex =
        some (invalidBlkno, t'.blocks t.superblk.headBlkno)

theorem RequireSafe.groupSafe {t t' : FlatStorage c} (h : RequireSafe t) (he : Exhausted t t') :
    GroupSafe t' t'.superblk.supBlkno c.groupSize := by
  rw [GroupSafe, he.headBlkno, he.supBlkno]
  by_cases hinv : t.superblk.headBlkno = invalidBlkno
  · exact Or.inl hinv
  · obtain ⟨hbot, hpop⟩ := he.popped hinv
    exact Or.inr (h hinv hbot (invalidBlkno, t'.blocks t.superblk.headBlkno)
      (Option.mem_def.mpr hpop) rfl)

section Require

theorem requireAllocated_rel (F : FlatStorage c → Prop) :
    Rel (SimWith F) (requireAllocated : StorageM c (Overflow c) UInt32)
      (requireAllocated : StorageM c AllMapped UInt32) (fun x y s t => x = y ∧
        SimWith (fun t' => x = invalidBlkno → ∃ t, F t ∧ Exhausted t t') s t) NotStale := by
  refine Rel.get_bind ?_
  rintro s t ⟨hsim, hf⟩
  rw [hsim.superblk]
  refine Rel.ite (fun hinv => Rel.pure ?_) fun hinv => ?_
  · rintro s' t' ⟨rfl, rfl⟩
    exact ⟨rfl, hsim, fun _ => ⟨t', hf, rfl, rfl, fun hne => absurd hinv hne⟩⟩
  obtain ⟨Same, hSame⟩ : ∃ Same : FlatStorage c → Prop, Same = fun t' =>
    t'.superblk.headBlkno = t.superblk.headBlkno ∧
      t'.superblk.supBlkno = t.superblk.supBlkno ∧ t'.blocks = t.blocks := ⟨_, rfl⟩
  have hdec : Rel (fun s' t' => s' = s ∧ t' = t)
      (decNumberOfFreeBlks : StorageM c (Overflow c) Unit) decNumberOfFreeBlks
      (fun _ _ => SimWith Same) NotStale := by
    refine Rel.mono (modifySuperBlock_rel (F := (· = t)) (G := Same) (fun _ => rfl) ?_) ?_
      fun _ _ _ _ h => h
    · rintro t' rfl
      rw [hSame]
      exact ⟨rfl, rfl, rfl⟩
    · rintro s' t' ⟨rfl, rfl⟩
      exact ⟨hsim, rfl⟩
  refine Rel.bind hdec fun _ _ => Rel.bind (getBlock_rel _) fun p q => Rel.bind_eq deref_rel
    fun blk => Rel.of_forall (p := blk = t.blocks t.superblk.headBlkno) ?_ ?_
  · rintro s' t' ⟨⟨-, hsame, -, rfl⟩, -⟩
    rw [hSame] at hsame
    rw [hsame.2.2]
  rintro rfl
  refine Rel.ite (fun hbot => ?_) fun hbot => ?_
  · -- The head block itself is taken.
    refine Rel.bind ((getBlock_rel (F := Same) _).mono (fun _ _ h => h.1.mono And.left)
      fun _ _ _ _ h => h) fun p' q' => Rel.bind_eq (popIndex_rel (G := fun _ _ => True)
        fun _ _ _ _ _ _ => trivial) fun next => Rel.bind (modifySuperBlock_rel
          (G := fun _ => True) (fun _ => rfl) fun _ _ => trivial) fun _ _ => Rel.pure ?_
    exact fun s' t' h => ⟨rfl, h.1, fun e => absurd e hinv⟩
  · rw [Bool.not_eq_true] at hbot
    refine popIndex_rel ?_
    rintro t' x blk' ⟨hsame, -, -⟩ - hpop rfl
    rw [hSame] at hsame
    rw [hsame.2.2] at hpop
    exact ⟨t, hf, hsame.1, hsame.2.1, fun _ => ⟨hbot, by simpa using hpop⟩⟩

/-- The blocks of a new group are in one group. -/
theorem overflowGroup_add_ofNat {sup : UInt32} (hsup : sup.toNat % c.groupSize = 0) {i : ℕ}
    (hi : i < c.groupSize) : overflowGroup c (sup + UInt32.ofNat i) = overflowGroup c sup := by
  have hlt := c.groupSize_lt
  have hsize : sup.toNat + c.groupSize ≤ 2 ^ 32 := by
    obtain ⟨k, hk⟩ := Nat.dvd_of_mod_eq_zero hsup
    obtain ⟨m, hm⟩ : c.groupSize ∣ 2 ^ 32 := by
      refine pow_dvd_pow 2 ?_
      have := c.log2Overflow_lt
      omega
    have hkm : k < m := by
      have := sup.toNat_lt
      rw [hk, hm] at this
      exact Nat.lt_of_mul_lt_mul_left this
    rw [hk, hm, ← Nat.mul_succ]
    exact Nat.mul_le_mul_left _ hkm
  have hadd : (sup + UInt32.ofNat i).toNat = sup.toNat + i := by
    rw [UInt32.toNat_add, UInt32.toNat_ofNat_of_lt' (show i < 2 ^ 32 by omega)]
    omega
  apply UInt32.toNat_inj.mp
  rw [toNat_overflowGroup, toNat_overflowGroup, hadd, Nat.add_mod, hsup, Nat.zero_add,
    Nat.mod_mod, Nat.mod_eq_of_lt hi]
  omega

theorem Compatible.of_group {a a' b : UInt32} (h : Compatible c a b)
    (ha : isFlat c a = false) (hgroup : overflowGroup c a' = overflowGroup c a) :
    Compatible c a' b := by
  rcases h with h | h | h | h
  · rw [ha] at h
    cases h
  · exact Or.inr (Or.inl h)
  · exact Or.inr (Or.inr (Or.inl (hgroup.trans h)))
  · exact Or.inr (Or.inr (Or.inr (hgroup ▸ h)))

/-- The counter of an index block after a push. -/
private theorem index_zero_of_pushIndex {z : BlockSz} {blk blk' : Block z} {blkno : UInt32}
    (h : blk.pushIndex blkno = some blk')
    (hlt : (blk.index 0).toNat < (Block.getMaxNumberOfIndexes z).toNat) :
    (blk'.index 0).toNat = (blk.index 0).toNat + 1 := by
  have hmax := (Block.getMaxNumberOfIndexes z).toNat_lt
  have htop : (blk.index 0 + 1).toNat = (blk.index 0).toNat + 1 := by
    rw [UInt32.toNat_add, show (1 : UInt32).toNat = 1 from rfl]
    omega
  have hne : blk.index 0 + 1 ≠ 0 := fun e => by
    rw [e] at htop
    simp at htop
  rw [Block.pushIndex] at h
  split at h
  · rw [← Option.some.inj h, Block.index_setWord_of_ne _ _ hne, ← htop]
    exact congrArg UInt32.toNat (Block.getWord_setWord blk _ (le_trans (by norm_num) z.le_bytes))
  · cases h

/-- Releasing the blocks of a new group. -/
theorem releaseGroup_rel {sup : UInt32} (hsup : sup.toNat % c.groupSize = 0)
    (hover : isFlat c sup = false) {n : ℕ} (hn : n ≤ c.groupSize) :
    Rel (SimWith (c := c) (GroupSafe · sup n)) (releaseGroup sup n) (releaseGroup sup n)
      (fun _ _ => SimWith fun _ => True) NotStale := by
  induction n with
  | zero => exact Rel.pure fun s t h => h.mono fun _ => trivial
  | succ n ih =>
    have hgroup := overflowGroup_add_ofNat hsup (show n < c.groupSize by omega)
    rintro s t ⟨hsim, hsafe⟩
    have hrelease : ReleaseSafe t (sup + UInt32.ofNat n) := by
      intro _ hinv htop
      rcases hsafe with hnil | hcomp | hroom
      · exact absurd hnil hinv
      · exact hcomp.of_group hover hgroup
      · rw [beq_iff_eq.mp htop] at hroom
        omega
    refine Rel.bind (releaseRaw_rel hrelease) (fun _ _ => (ih (by omega)).mono
      (fun s' t' h => h.mono fun hrel => ?_) fun _ _ _ _ h => h) s t ⟨hsim, rfl⟩
    rcases hrel.head with hnew | ⟨hsame, htop, hpush⟩
    · exact Or.inr (Or.inl (Or.inr (Or.inr (Or.inl (by rw [hnew, hgroup])))))
    · rw [GroupSafe, hsame]
      refine hsafe.imp_right (Or.imp_right fun hroom => ?_)
      rw [index_zero_of_pushIndex hpush (by omega)]
      omega

/-- The file of a new group. -/
private theorem createMmapFile_rel (F : FlatStorage c → Prop) (disk : CreateOutcome)
    (path : UInt32) (hF : ∀ t files mmaps, F t → F { t with files := files, mmaps := mmaps }) :
    Rel (SimWith F) (createMmapFile disk path) (createMmapFile disk path)
      (fun m _ s t => SimWith (fun t => F t ∧ t.files path = true) s t ∧
        s.emptyFiles path = false ∧ m.group = path ∧ m.addr < s.mmaps) NotStale := by
  refine Rel.get_bind ?_
  rintro s t ⟨hsim, hf⟩
  rw [hsim.files]
  by_cases hfile : t.files path = true
  · rw [if_pos hfile, if_pos hfile]
    refine fail_rel (by decide) ?_
    rintro s' t' ⟨rfl, rfl⟩
    exact hsim
  rw [if_neg hfile, if_neg hfile]
  rintro s' t' ⟨rfl, rfl⟩
  have hne : ∀ b, isOverflow c b = true → b < t'.superblk.supBlkno → overflowGroup c b ≠ path :=
    fun b hb hlt hpath => hfile (hpath ▸ hsim.hasFile b hb hlt)
  have hbytes : s'.emptyFiles path = false := by
    refine Bool.eq_false_iff.mpr fun hempty => hfile ?_
    rw [← hsim.files]
    exact hsim.isFile path hempty
  have hfiles (k k' : ℕ) (hk : s'.mmaps ≤ k) :
      Sim { s' with files := Function.update s'.files path true, mmaps := k }
        { t' with files := Function.update t'.files path true, mmaps := k' } := by
    refine ⟨hsim.superblk, hsim.blocks, congrArg (Function.update · path true) hsim.files,
      hsim.table.mono hk, hsim.aligned, fun b hb hlt => ?_, hsim.hasBytes, fun g hg => ?_,
      hsim.reopens⟩
    · exact (Function.update_of_ne (hne b hb hlt) ..).trans (hsim.hasFile b hb hlt)
    · by_cases hpath : g = path
      · rw [hpath]
        exact Function.update_self ..
      · exact (Function.update_of_ne hpath ..).trans (hsim.isFile g hg)
  have hempty : Sim
      { s' with
        files := Function.update s'.files path true
        emptyFiles := Function.update s'.emptyFiles path true }
      { t' with
        files := Function.update t'.files path true
        emptyFiles := Function.update t'.emptyFiles path true } := by
    refine ⟨hsim.superblk, hsim.blocks, congrArg (Function.update · path true) hsim.files,
      hsim.table, hsim.aligned, fun b hb hlt => ?_, fun b hb hlt => ?_, fun g hg => ?_,
      hsim.reopens⟩
    · exact (Function.update_of_ne (hne b hb hlt) ..).trans (hsim.hasFile b hb hlt)
    · exact (Function.update_of_ne (hne b hb hlt) ..).trans (hsim.hasBytes b hb hlt)
    · by_cases hpath : g = path
      · rw [hpath]
        exact Function.update_self ..
      · refine (Function.update_of_ne hpath ..).trans (hsim.isFile g ?_)
        exact (Function.update_of_ne hpath ..).symm.trans hg
  cases disk with
  | openFails errno => exact Or.inr ⟨_, s', t', rfl, rfl, nofun, hsim⟩
  | writeFails errno => exact Or.inr ⟨_, _, _, rfl, rfl, nofun, hempty⟩
  | laterCallFails errno => exact Or.inr ⟨_, _, _, rfl, rfl, nofun, hfiles _ _ le_rfl⟩
  | ok =>
    exact Or.inl ⟨_, _, _, _, rfl, rfl, ⟨hfiles _ _ (Nat.le_succ _),
      hF t' (Function.update t'.files path true) (t'.mmaps + 1) hf, Function.update_self ..⟩,
      hbytes, rfl, Nat.lt_succ_self _⟩

/-- Making a group: its mapping goes into the table, and its numbers become block numbers. -/
private theorem newGroup_rel {sup : UInt32} {m m' : Mapping} :
    Rel (fun s t => SimWith (fun t => (GroupSafe t sup c.groupSize ∧ t.superblk.supBlkno = sup) ∧
        t.files (overflowGroup c sup) = true) s t ∧ s.emptyFiles (overflowGroup c sup) = false ∧
        m.group = overflowGroup c sup ∧ m.addr < s.mmaps)
      (do
        setOverflowBlock sup m
        setSupBlkno (sup + c.overflowBlknoMask + 1) : StorageM c (Overflow c) Unit)
      (do
        setOverflowBlock sup m'
        setSupBlkno (sup + c.overflowBlknoMask + 1) : StorageM c AllMapped Unit)
      (fun _ _ => SimWith (GroupSafe · sup c.groupSize)) NotStale := by
  rintro s t ⟨⟨hsim, ⟨hsafe, rfl⟩, hfile⟩, hbytes, hgroup, haddr⟩
  have hsup : (t.superblk.supBlkno + c.overflowBlknoMask + 1).toNat =
      (t.superblk.supBlkno.toNat + c.groupSize) % 2 ^ 32 := by
    have hpos := c.groupSize_pos
    rw [UInt32.toNat_add, UInt32.toNat_add, c.toNat_overflowBlknoMask,
      show (1 : UInt32).toNat = 1 from rfl]
    omega
  have hdvd : c.groupSize ∣ 2 ^ 32 := by
    refine pow_dvd_pow 2 ?_
    have := c.log2Overflow_lt
    omega
  have haligned := hsim.aligned
  -- The block numbers that become valid are those of the new group.
  have hnew : ∀ b, b < t.superblk.supBlkno + c.overflowBlknoMask + 1 →
      ¬b < t.superblk.supBlkno → overflowGroup c b = overflowGroup c t.superblk.supBlkno := by
    intro b hlt hold
    rw [UInt32.lt_iff_toNat_lt] at hlt hold
    rw [hsup] at hlt
    obtain ⟨i, hi⟩ : ∃ i, b.toNat = t.superblk.supBlkno.toNat + i := Nat.exists_eq_add_of_le
      (Nat.le_of_not_lt hold)
    have hmod := Nat.mod_le (t.superblk.supBlkno.toNat + c.groupSize) (2 ^ 32)
    have hilt : i < c.groupSize := by omega
    have hlt32 := b.toNat_lt
    have hsum : b = t.superblk.supBlkno + UInt32.ofNat i := by
      rw [← UInt32.toNat_inj, UInt32.toNat_add,
        UInt32.toNat_ofNat_of_lt' (show i < 2 ^ 32 by omega), hi]
      omega
    rw [hsum, overflowGroup_add_ofNat haligned hilt]
  have htable := hsim.table.set haddr
  rw [hgroup] at htable
  refine Or.inl ⟨(), (), _, _, rfl, rfl, ⟨congrArg (fun sb : SuperBlock c =>
    { sb with supBlkno := t.superblk.supBlkno + c.overflowBlknoMask + 1 }) hsim.superblk,
    hsim.blocks, hsim.files, htable, ?_, fun b hb hlt => ?_, fun b hb hlt => ?_, hsim.isFile,
    hsim.reopens⟩, hsafe⟩
  · change (t.superblk.supBlkno + c.overflowBlknoMask + 1).toNat % c.groupSize = 0
    rw [hsup, Nat.mod_mod_of_dvd _ hdvd, Nat.add_mod_right, haligned]
  · by_cases hold : b < t.superblk.supBlkno
    · exact hsim.hasFile b hb hold
    · rw [hnew b hlt hold]
      exact hfile
  · by_cases hold : b < t.superblk.supBlkno
    · exact hsim.hasBytes b hb hold
    · rw [hnew b hlt hold]
      exact hbytes

/-- A require that makes a group. -/
private theorem requireUnallocated_rel (disk : CreateOutcome) :
    Rel (SimWith fun t => GroupSafe t t.superblk.supBlkno c.groupSize)
      (requireUnallocated disk : StorageM c (Overflow c) UInt32)
      (requireUnallocated disk : StorageM c AllMapped UInt32)
      (fun x y s t => x = y ∧ Sim s t) NotStale := by
  refine Rel.get_bind ?_
  rintro s t ⟨hsim, hsafe⟩
  rw [hsim.superblk]
  obtain ⟨sup, hsup⟩ : ∃ sup, sup = t.superblk.supBlkno := ⟨_, rfl⟩
  rw [← hsup] at hsafe ⊢
  dsimp only
  by_cases hover : isOverflow c sup = true
  · have hpath {M : Type} : (makeOverflowPath sup : StorageM c M UInt32) =
        pure (overflowGroup c sup) := if_pos hover
    have hflat : isFlat c sup = false := by
      rw [isOverflow, Bool.and_eq_true, decide_eq_true_iff] at hover
      exact decide_eq_false (UInt32.not_lt.mpr hover.1)
    have haligned := hsim.aligned
    rw [← hsup] at haligned
    rw [hpath, hpath, Prog.pure_bind, Prog.pure_bind]
    refine Rel.bind ((createMmapFile_rel (fun t => GroupSafe t sup c.groupSize ∧
      t.superblk.supBlkno = sup) disk _ fun t _ _ h => h).mono ?_ fun _ _ _ _ h => h)
      fun m m' => ?_
    · rintro s' t' ⟨rfl, rfl⟩
      exact ⟨hsim, hsafe, hsup.symm⟩
    have hseq {M : Type} [OverflowTable M] (m : Mapping) :
        (setOverflowBlock sup m >>= fun _ => setSupBlkno (sup + c.overflowBlknoMask + 1) >>=
          fun _ => releaseGroup sup c.groupSize >>= fun _ => requireAllocated :
            StorageM c M UInt32) =
          (setOverflowBlock sup m >>= fun _ => setSupBlkno (sup + c.overflowBlknoMask + 1)) >>=
            fun _ => releaseGroup sup c.groupSize >>= fun _ => requireAllocated :=
      (Prog.bind_assoc _ _ _).symm
    rw [hseq, hseq]
    refine Rel.bind newGroup_rel fun _ _ => Rel.bind (releaseGroup_rel haligned hflat le_rfl)
      fun _ _ => Rel.mono (requireAllocated_rel fun _ => True) (fun _ _ h => h)
        fun _ _ _ _ h => ⟨h.1, h.2.1⟩
  · have hpath {M : Type} : (makeOverflowPath sup : StorageM c M UInt32) =
        throwNynnException "blkno is invalid or not overflow" := if_neg hover
    rw [hpath, hpath]
    rintro s' t' ⟨rfl, rfl⟩
    exact Or.inr ⟨_, s', t', rfl, rfl, by simp, hsim⟩

/-- **A require.** When it is safe, the two storages do the same. -/
theorem require_rel (disk : CreateOutcome) :
    Rel (SimWith RequireSafe) (require disk : StorageM c (Overflow c) UInt32)
      (require disk : StorageM c AllMapped UInt32) (fun x y s t => x = y ∧ Sim s t) NotStale := by
  refine Rel.bind_eq (requireAllocated_rel RequireSafe) fun x => Rel.ite (fun hinv => ?_)
    fun _ => Rel.pure fun s t h => ⟨rfl, h.1⟩
  refine (requireUnallocated_rel disk).mono (fun s t h => h.mono fun hex => ?_)
    fun _ _ _ _ h => h
  obtain ⟨t₀, hsafe, he⟩ := hex hinv
  exact hsafe.groupSafe he

end Require

end Nynn
