import Nynn.Storage.UsablePointers

/-!
# The table of overflow groups is transparent

A call of the storage or of the lists of blocks uses no stale pointer when the releases and the
requires in it are safe. Then it returns the same as on the store in which every block stays
mapped, and it leaves the same bytes. A run of calls that are all safe is transparent.

A release is not always safe: `releaseRaw` gets the released block first, then looks at the head of
the free list, and then writes through the first pointer when the head is full.

Source: `nynn_mm_subgraph_storage.h`, `nynn_mm_subgraph_set.h`.

## Main definitions

* `Nynn.StoreOp`, `Nynn.StoreOp.run`, `Nynn.runOps`: calls and runs of calls.
* `Nynn.ListOp.Safe`, `Nynn.StoreOp.Safe`: calls that use no stale pointer.

## Main results

* `Nynn.overflowTable_transparent`: a run of safe calls is transparent.
-/

namespace Nynn

open Program

variable {c : Config}

/-! ### Vertices -/

section Vertices

variable {F G : FlatStorage c → Prop} {p q : Option Ptr} {b : UInt32}

/-- The vertex that `getVertex` points to. -/
def Storage.vertexOf {M : Type} (s : Storage c M) (v : UInt32) : Option Vertex :=
  if h : vertexSlot s.superblk.getMinVtxno v < c.vertexIntervalWidth then
    some (s.superblk.vertices ⟨vertexSlot s.superblk.getMinVtxno v, h⟩)
  else none

theorem getVertex_rel (v : UInt32) :
    Rel (SimWith F) (getVertex v) (getVertex v) (fun i j s t => i = j ∧
      SimWith (fun t => F t ∧ t.vertexOf v = some (t.superblk.vertices i)) s t) NotStale := by
  refine Rel.get_bind ?_
  rintro s t ⟨hsim, hF⟩
  rw [hsim.superblk]
  rintro s' t' ⟨rfl, rfl⟩
  by_cases hslot : vertexSlot t'.superblk.getMinVtxno v < c.vertexIntervalWidth
  · simp only [dif_pos hslot]
    exact Or.inl ⟨_, _, s', t', rfl, rfl, rfl, hsim, hF, dif_pos hslot⟩
  · simp only [dif_neg hslot]
    exact Or.inr ⟨_, s', t', rfl, rfl, nofun, hsim⟩

theorem readVertex_rel (i : Fin c.vertexIntervalWidth) :
    Rel (SimWith F) (readVertex i) (readVertex i) (fun v w s t => v = w ∧
      SimWith (fun t => F t ∧ t.superblk.vertices i = v) s t) NotStale := by
  refine Rel.get_bind fun s t hst => Rel.pure ?_
  rintro s' t' ⟨rfl, rfl⟩
  have hsup := hst.1.superblk
  exact ⟨by rw [hsup], hst.1, hst.2, by rw [hsup]⟩

/-- A change of a vertex leaves the table alone. -/
theorem modifyVertex_rel {i : Fin c.vertexIntervalWidth} {f : Vertex → Vertex}
    (hG : ∀ t, F t → G (t.setVertex i (f (t.superblk.vertices i)))) :
    Rel (SimWith F) (modifyVertex i f) (modifyVertex i f) (fun _ _ => SimWith G) NotStale :=
  modifySuperBlock_rel (fun _ => rfl) hG

theorem modifyVertex_rel_held {i : Fin c.vertexIntervalWidth} {f : Vertex → Vertex}
    (hG : ∀ t, F t → G (t.setVertex i (f (t.superblk.vertices i)))) :
    Rel (HoldsPtr p q b F) (modifyVertex i f) (modifyVertex i f) (fun _ _ => HoldsPtr p q b G)
      NotStale :=
  modifySuperBlock_rel_held (fun _ => rfl) hG

end Vertices

/-! ### Blocks -/

section Blocks

variable {F : FlatStorage c → Prop}

theorem readBlock_rel (b : UInt32) :
    Rel (SimWith F) (readBlock b) (readBlock b) (fun blk blk' s t => blk = blk' ∧ Sim s t)
      NotStale := by
  refine Rel.bind (getBlock_rel b) fun p q => ?_
  rintro s t ⟨⟨hsim, hF⟩, ⟨rfl, rfl⟩ | ⟨p, rfl, rfl, hblk, hp⟩⟩
  · exact Or.inr ⟨_, s, t, rfl, rfl, nofun, hsim⟩
  · exact (Rel.mono (deref_rel (F := F)) (fun _ _ h => h) fun _ _ _ _ h => ⟨h.1, h.2.1.1⟩) s t
      ⟨⟨hsim, hF⟩, Or.inr ⟨p, rfl, rfl, hblk, hp⟩⟩

theorem writeBlock_rel (b : UInt32) (blk : Block c.blockSz) :
    Rel (SimWith F) (writeBlock b blk) (writeBlock b blk) (fun _ _ => SimWith fun _ => True)
      NotStale := by
  refine Rel.bind (getBlock_rel b) fun p q => ?_
  rintro s t ⟨⟨hsim, hF⟩, ⟨rfl, rfl⟩ | ⟨p, rfl, rfl, hblk, hp⟩⟩
  · exact Or.inr ⟨_, s, t, rfl, rfl, nofun, hsim⟩
  · exact (Rel.mono (assign_rel (F := F) (G := fun _ => True) fun _ _ _ => trivial)
      (fun _ _ h => h) fun _ _ _ _ h => h.1) s t ⟨⟨hsim, hF⟩, Or.inr ⟨p, rfl, rfl, hblk, hp⟩⟩

/-- A safe release. -/
theorem release_rel (b : UInt32) :
    Rel (SimWith (ReleaseSafe · b)) (release b) (release b) (fun _ _ => Sim (c := c)) NotStale := by
  rintro s t ⟨hsim, hsafe⟩
  exact (releaseRaw_rel hsafe).mono (fun _ _ h => h) (fun _ _ _ _ h => h.1) s t ⟨hsim, rfl⟩

theorem ReleaseSafe.setBlock {t : FlatStorage c} {a b : UInt32} {blk : Block c.blockSz}
    (h : ReleaseSafe t b) (hindex : blk.index 0 = (t.blocks a).index 0) :
    ReleaseSafe (t.setBlock a blk) b := by
  intro hblk hne htop
  refine h hblk hne ?_
  rw [superblk_setBlock, blocks_setBlock] at htop
  by_cases ha : t.superblk.headBlkno = a
  · rwa [ha, Function.update_self, Block.isAtTop, hindex, ← ha] at htop
  · rwa [Function.update_of_ne ha] at htop

theorem ReleaseSafe.setNext {t : FlatStorage c} {b : UInt32} (h : ReleaseSafe t b)
    (a x : UInt32) : ReleaseSafe (t.setBlock a ((t.blocks a).setNext x)) b :=
  h.setBlock (Block.index_zero_setNext _ x)

theorem ReleaseSafe.setPrev {t : FlatStorage c} {b : UInt32} (h : ReleaseSafe t b)
    (a x : UInt32) : ReleaseSafe (t.setBlock a ((t.blocks a).setPrev x)) b :=
  h.setBlock (Block.index_zero_setPrev _ x)

end Blocks

/-! ### The lists of blocks -/

/-- The block that an update releases. -/
def ListOp.released {M : Type} (s : Storage c M) : ListOp c.blockSz → Option UInt32
  | .push .. | .unshift .. | .insertPrev .. | .insertNext .. => none
  | .pop v => (s.vertexOf v).map Vertex.tailBlkno
  | .shift v => (s.vertexOf v).map Vertex.headBlkno
  | .remove v b => (s.vertexOf v).bind fun vtx =>
    if vtx.headBlkno = invalidBlkno then none else some b

/-- The update uses no stale pointer. -/
def ListOp.Safe {M : Type} (s : Storage c M) (op : ListOp c.blockSz) : Prop :=
  (op.newBlk.isSome = true → RequireSafe s) ∧ ∀ b ∈ op.released s, ReleaseSafe s b

instance {M : Type} (s : Storage c M) (op : ListOp c.blockSz) : Decidable (op.Safe s) := by
  have hreleased : Decidable (∀ b ∈ op.released s, ReleaseSafe s b) :=
    Option.decidableForallMem _
  unfold ListOp.Safe
  infer_instance

section Lists

/-- A change of a vertex and of a block, with the pointer got before. -/
private theorem update_bind_rel {α : Type} {F : FlatStorage c → Prop} {b : UInt32}
    {i : Fin c.vertexIntervalWidth} {g : Vertex → Vertex} {f : Block c.blockSz → Block c.blockSz}
    {x : StorageM c (Overflow c) α} {y : StorageM c AllMapped α}
    {Q : α → α → Storage c (Overflow c) → FlatStorage c → Prop}
    (hv : ∀ t, F t → F (t.setVertex i (g (t.superblk.vertices i))))
    (hb : ∀ t, F t → F (t.setBlock b (f (t.blocks b)))) (h : Rel (SimWith F) x y Q NotStale) :
    Rel (SimWith F)
      (do
        let p ← getBlock b
        modifyVertex i g
        modifyBlock p f
        x)
      (do
        let p ← getBlock b
        modifyVertex i g
        modifyBlock p f
        y) Q NotStale :=
  Rel.bind (getBlock_rel b) fun _ _ => Rel.bind (modifyVertex_rel_held hv) fun _ _ =>
    Rel.bind (modifyBlock_rel hb) fun _ _ => h.mono (fun _ _ h => h.1) fun _ _ _ _ h => h

/-- Changes of a vertex alone. -/
private theorem vertex_bind_rel {α : Type} {F : FlatStorage c → Prop}
    {i : Fin c.vertexIntervalWidth} {g : Vertex → Vertex}
    {x : StorageM c (Overflow c) α} {y : StorageM c AllMapped α}
    {Q : α → α → Storage c (Overflow c) → FlatStorage c → Prop}
    (hv : ∀ t, F t → F (t.setVertex i (g (t.superblk.vertices i))))
    (h : Rel (SimWith F) x y Q NotStale) :
    Rel (SimWith F) (modifyVertex i g >>= fun _ => x) (modifyVertex i g >>= fun _ => y) Q
      NotStale :=
  Rel.bind (modifyVertex_rel hv) fun _ _ => h

theorem pop_rel (v : UInt32) :
    Rel (SimWith fun t => ∀ w, t.vertexOf v = some w → ReleaseSafe t w.tailBlkno)
      (pop v : StorageM c (Overflow c) Unit) (pop v : StorageM c AllMapped Unit)
      (fun _ _ => Sim) NotStale := by
  refine Rel.bind_eq (getVertex_rel v) fun i => Rel.bind_eq (readVertex_rel i) fun w =>
    Rel.ite (fun _ => Rel.pure fun _ _ h => h.1) fun hne => ?_
  refine Rel.mono (Rel.bind (getBlock_rel (F := (ReleaseSafe · w.tailBlkno)) w.tailBlkno)
    fun p q => Rel.bind_eq deref_rel fun blk => Rel.mono (P := SimWith (ReleaseSafe · w.tailBlkno))
      ?_ (fun _ _ h => h.1.mono And.left) fun _ _ _ _ h => h) ?_ fun _ _ _ _ h => h
  · refine vertex_bind_rel (fun _ h => h) (Rel.ite (fun _ => ?_) fun _ => ?_)
    · exact update_bind_rel (fun _ h => h) (fun t h => h.setNext _ _) (release_rel _)
    · exact vertex_bind_rel (fun _ h => h) (vertex_bind_rel (fun _ h => h) (release_rel _))
  · rintro s t ⟨hsim, ⟨hsafe, hvtx⟩, rfl⟩
    exact ⟨hsim, hsafe _ hvtx⟩

theorem shift_rel (v : UInt32) :
    Rel (SimWith fun t => ∀ w, t.vertexOf v = some w → ReleaseSafe t w.headBlkno)
      (shift v : StorageM c (Overflow c) Unit) (shift v : StorageM c AllMapped Unit)
      (fun _ _ => Sim) NotStale := by
  refine Rel.bind_eq (getVertex_rel v) fun i => Rel.bind_eq (readVertex_rel i) fun w =>
    Rel.ite (fun _ => Rel.pure fun _ _ h => h.1) fun hne => ?_
  refine Rel.mono (Rel.bind (getBlock_rel (F := (ReleaseSafe · w.headBlkno)) w.headBlkno)
    fun p q => Rel.bind_eq deref_rel fun blk => Rel.mono (P := SimWith (ReleaseSafe · w.headBlkno))
      ?_ (fun _ _ h => h.1.mono And.left) fun _ _ _ _ h => h) ?_ fun _ _ _ _ h => h
  · refine vertex_bind_rel (fun _ h => h) (Rel.ite (fun _ => ?_) fun _ => ?_)
    · exact update_bind_rel (fun _ h => h) (fun t h => h.setPrev _ _) (release_rel _)
    · exact vertex_bind_rel (fun _ h => h) (vertex_bind_rel (fun _ h => h) (release_rel _))
  · rintro s t ⟨hsim, ⟨hsafe, hvtx⟩, rfl⟩
    exact ⟨hsim, hsafe _ hvtx⟩

/-- The last steps of an insertion: the new block is written, and its number returned. -/
private theorem finish_rel (b : UInt32) (blk : Block c.blockSz) :
    Rel (SimWith fun _ => True)
      (do
        writeBlock b blk
        pure b : StorageM c (Overflow c) UInt32)
      (do
        writeBlock b blk
        pure b : StorageM c AllMapped UInt32)
      (fun x y s t => x = y ∧ Sim s t) NotStale :=
  Rel.bind (writeBlock_rel b blk) fun _ _ => Rel.pure fun _ _ h => ⟨rfl, h.1⟩

/-- The vertex is read again after the new block was required. -/
private theorem readNewVertex_rel (i : Fin c.vertexIntervalWidth) :
    Rel (Sim (c := c)) (readVertex i) (readVertex i) (fun v w s t => v = w ∧
      SimWith (fun _ => True) s t) NotStale :=
  (readVertex_rel (F := fun _ => True) i).mono (fun _ _ h => ⟨h, trivial⟩)
    fun _ _ _ _ h => ⟨h.1, h.2.mono fun _ => trivial⟩

theorem push_rel (disk : CreateOutcome) (v : UInt32) (blk : Block c.blockSz) :
    Rel (SimWith RequireSafe) (push disk v blk : StorageM c (Overflow c) UInt32)
      (push disk v blk : StorageM c AllMapped UInt32) (fun x y s t => x = y ∧ Sim s t)
      NotStale := by
  refine Rel.bind_eq (getVertex_rel v) fun i => Rel.bind (modifyVertex_rel (G := RequireSafe)
    fun _ h => h.1) fun _ _ => Rel.bind_eq (require_rel disk) fun b =>
      Rel.ite (fun _ => Rel.pure fun _ _ h => ⟨rfl, h⟩) fun _ => Rel.bind_eq
        (readNewVertex_rel i) fun w => Rel.ite (fun _ => ?_) fun _ => ?_
  · exact update_bind_rel (fun _ h => h) (fun _ h => h) (finish_rel b _)
  · exact vertex_bind_rel (fun _ h => h) (vertex_bind_rel (fun _ h => h) (finish_rel b _))

theorem unshift_rel (disk : CreateOutcome) (v : UInt32) (blk : Block c.blockSz) :
    Rel (SimWith RequireSafe) (unshift disk v blk : StorageM c (Overflow c) UInt32)
      (unshift disk v blk : StorageM c AllMapped UInt32) (fun x y s t => x = y ∧ Sim s t)
      NotStale := by
  refine Rel.bind_eq (getVertex_rel v) fun i => Rel.bind (modifyVertex_rel (G := RequireSafe)
    fun _ h => h.1) fun _ _ => Rel.bind_eq (require_rel disk) fun b =>
      Rel.ite (fun _ => Rel.pure fun _ _ h => ⟨rfl, h⟩) fun _ => Rel.bind_eq
        (readNewVertex_rel i) fun w => Rel.ite (fun _ => ?_) fun _ => ?_
  · exact update_bind_rel (fun _ h => h) (fun _ h => h) (finish_rel b _)
  · exact vertex_bind_rel (fun _ h => h) (vertex_bind_rel (fun _ h => h) (finish_rel b _))

/-- A change of a block through a pointer that was read through before. -/
private theorem deref_bind_rel {α : Type} {F : FlatStorage c → Prop} {b : UInt32}
    {f : Block c.blockSz → Block c.blockSz → Block c.blockSz}
    {x : Block c.blockSz → StorageM c (Overflow c) α} {y : Block c.blockSz → StorageM c AllMapped α}
    {Q : α → α → Storage c (Overflow c) → FlatStorage c → Prop}
    (hb : ∀ t blk, F t → F (t.setBlock b (f blk (t.blocks b))))
    (h : ∀ blk, Rel (SimWith F) (x blk) (y blk) Q NotStale) :
    Rel (SimWith F)
      (do
        let p ← getBlock b
        let blk ← deref p
        modifyBlock p (f blk)
        x blk)
      (do
        let p ← getBlock b
        let blk ← deref p
        modifyBlock p (f blk)
        y blk) Q NotStale :=
  Rel.bind (getBlock_rel b) fun _ _ => Rel.bind_eq deref_rel fun blk => Rel.bind
    (Rel.mono (modifyBlock_rel fun t h => hb t blk h) (fun _ _ h => h.mono And.left)
      fun _ _ _ _ h => h) fun _ _ => (h blk).mono (fun _ _ h => h.1) fun _ _ _ _ h => h

/-- A change of a block. -/
private theorem modify_bind_rel {α : Type} {F : FlatStorage c → Prop} {b : UInt32}
    {f : Block c.blockSz → Block c.blockSz}
    {x : StorageM c (Overflow c) α} {y : StorageM c AllMapped α}
    {Q : α → α → Storage c (Overflow c) → FlatStorage c → Prop}
    (hb : ∀ t, F t → F (t.setBlock b (f (t.blocks b)))) (h : Rel (SimWith F) x y Q NotStale) :
    Rel (SimWith F)
      (do
        let p ← getBlock b
        modifyBlock p f
        x)
      (do
        let p ← getBlock b
        modifyBlock p f
        y) Q NotStale :=
  Rel.bind (getBlock_rel b) fun _ _ => Rel.bind (modifyBlock_rel hb) fun _ _ =>
    h.mono (fun _ _ h => h.1) fun _ _ _ _ h => h

theorem insertPrev_rel (disk : CreateOutcome) (v next : UInt32) (blk : Block c.blockSz) :
    Rel (SimWith RequireSafe) (insertPrev disk v next blk : StorageM c (Overflow c) UInt32)
      (insertPrev disk v next blk : StorageM c AllMapped UInt32) (fun x y s t => x = y ∧ Sim s t)
      NotStale := by
  refine Rel.bind_eq (getVertex_rel v) fun i => Rel.bind_eq (readVertex_rel i) fun w =>
    Rel.mono (P := SimWith RequireSafe) ?_ (fun _ _ h => h.mono fun hs => hs.1.1)
      fun _ _ _ _ h => h
  refine Rel.ite (fun _ => unshift_rel disk v blk) fun _ => Rel.ite (fun _ => push_rel disk v blk)
    fun _ => Rel.bind_eq (require_rel disk) fun b => Rel.ite
      (fun _ => Rel.pure fun _ _ h => ⟨rfl, h⟩) fun _ => Rel.mono (P := SimWith fun _ => True) ?_
        (fun _ _ h => ⟨h, trivial⟩) fun _ _ _ _ h => h
  exact vertex_bind_rel (fun _ h => h) (deref_bind_rel (fun _ _ h => h) fun _ =>
    modify_bind_rel (fun _ h => h) (finish_rel b _))

theorem insertNext_rel (disk : CreateOutcome) (v prev : UInt32) (blk : Block c.blockSz) :
    Rel (SimWith RequireSafe) (insertNext disk v prev blk : StorageM c (Overflow c) UInt32)
      (insertNext disk v prev blk : StorageM c AllMapped UInt32) (fun x y s t => x = y ∧ Sim s t)
      NotStale := by
  refine Rel.bind_eq (getVertex_rel v) fun i => Rel.bind_eq (readVertex_rel i) fun w =>
    Rel.mono (P := SimWith RequireSafe) ?_ (fun _ _ h => h.mono fun hs => hs.1.1)
      fun _ _ _ _ h => h
  refine Rel.ite (fun _ => push_rel disk v blk) fun _ => Rel.ite
    (fun _ => unshift_rel disk v blk) fun _ => Rel.bind_eq (require_rel disk) fun b => Rel.ite
      (fun _ => Rel.pure fun _ _ h => ⟨rfl, h⟩) fun _ => Rel.mono (P := SimWith fun _ => True) ?_
        (fun _ _ h => ⟨h, trivial⟩) fun _ _ _ _ h => h
  exact vertex_bind_rel (fun _ h => h) (deref_bind_rel (fun _ _ h => h) fun _ =>
    modify_bind_rel (fun _ h => h) (finish_rel b _))

theorem remove_rel (v b : UInt32) :
    Rel (SimWith fun t => ∀ w, t.vertexOf v = some w → w.headBlkno ≠ invalidBlkno →
        ReleaseSafe t b)
      (remove v b : StorageM c (Overflow c) Unit) (remove v b : StorageM c AllMapped Unit)
      (fun _ _ => Sim) NotStale := by
  refine Rel.bind_eq (getVertex_rel v) fun i => Rel.bind_eq (readVertex_rel i) fun w =>
    Rel.ite (fun _ => Rel.pure fun _ _ h => h.1) fun hne => Rel.ite (fun hhead => ?_)
      fun _ => Rel.ite (fun htail => ?_) fun _ => ?_
  · refine (shift_rel v).mono (fun s t h => h.mono ?_) fun _ _ _ _ h => h
    rintro ⟨⟨hsafe, hvtx⟩, rfl⟩ w' hw'
    rw [hvtx] at hw'
    obtain rfl := Option.some.inj hw'
    exact hhead ▸ hsafe _ hvtx hne
  · refine (pop_rel v).mono (fun s t h => h.mono ?_) fun _ _ _ _ h => h
    rintro ⟨⟨hsafe, hvtx⟩, rfl⟩ w' hw'
    rw [hvtx] at hw'
    obtain rfl := Option.some.inj hw'
    exact htail ▸ hsafe _ hvtx hne
  · refine Rel.mono (P := SimWith (ReleaseSafe · b)) ?_ ?_ fun _ _ _ _ h => h
    · refine Rel.bind (getBlock_rel b) fun _ _ => Rel.bind_eq deref_rel fun blk =>
        Rel.mono (P := SimWith (ReleaseSafe · b)) ?_ (fun _ _ h => h.1.mono And.left)
          fun _ _ _ _ h => h
      exact vertex_bind_rel (fun _ h => h) (modify_bind_rel (fun t h => h.setNext _ _)
        (modify_bind_rel (fun t h => h.setPrev _ _) (release_rel b)))
    · rintro s t ⟨hsim, ⟨hsafe, hvtx⟩, rfl⟩
      exact ⟨hsim, hsafe _ hvtx hne⟩

/-- **An update of a list.** When it is safe, the two storages do the same. -/
theorem ListOp.run_rel (disk : CreateOutcome) (op : ListOp c.blockSz) :
    Rel (SimWith fun t => op.Safe t) (op.run disk : StorageM c (Overflow c) (Option UInt32))
      (op.run disk : StorageM c AllMapped (Option UInt32)) (fun x y s t => x = y ∧ Sim s t)
      NotStale := by
  have hinsert {x : StorageM c (Overflow c) UInt32} {y : StorageM c AllMapped UInt32}
      (h : Rel (SimWith RequireSafe) x y (fun x y s t => x = y ∧ Sim s t) NotStale)
      (hop : op.newBlk.isSome = true) : Rel (SimWith fun t => op.Safe t)
        (x >>= fun no => pure (some no)) (y >>= fun no => pure (some no))
        (fun x y s t => x = y ∧ Sim s t) NotStale :=
    Rel.bind_eq (h.mono (fun _ _ hs => hs.mono fun hsafe => hsafe.1 hop) fun _ _ _ _ h => h)
      fun no => Rel.pure fun _ _ h => ⟨rfl, h⟩
  have hremove {F : FlatStorage c → Prop} {x : StorageM c (Overflow c) Unit}
      {y : StorageM c AllMapped Unit}
      (h : Rel (SimWith F) x y (fun _ _ => Sim) NotStale)
      (hop : ∀ t : FlatStorage c, op.Safe t → F t) : Rel (SimWith fun t => op.Safe t)
        (x >>= fun _ => pure none) (y >>= fun _ => pure none)
        (fun x y s t => (x : Option UInt32) = y ∧ Sim s t) NotStale :=
    Rel.bind (h.mono (fun _ t hs => hs.mono (hop t)) fun _ _ _ _ h => h)
      fun _ _ => Rel.pure fun _ _ h => ⟨rfl, h⟩
  cases op with
  | push v blk => exact hinsert (push_rel disk v blk) rfl
  | unshift v blk => exact hinsert (unshift_rel disk v blk) rfl
  | insertPrev v next blk => exact hinsert (insertPrev_rel disk v next blk) rfl
  | insertNext v prev blk => exact hinsert (insertNext_rel disk v prev blk) rfl
  | pop v => exact hremove (pop_rel v) fun t ht w hw => ht.2 _ (by simp [released, hw])
  | shift v => exact hremove (shift_rel v) fun t ht w hw => ht.2 _ (by simp [released, hw])
  | remove v b =>
    exact hremove (remove_rel v b) fun t ht w hw hne => ht.2 b (by simp [released, hw, hne])

end Lists

/-! ### Runs -/

/-- A call of the storage, or an update of a list of blocks. -/
inductive StoreOp (z : BlockSz)
  | require (disk : CreateOutcome)
  | release (blkno : UInt32)
  | readBlock (blkno : UInt32)
  | writeBlock (blkno : UInt32) (blk : Block z)
  | update (disk : CreateOutcome) (op : ListOp z)

/-- What a call returns. -/
inductive StoreResult (z : BlockSz)
  | none
  | blkno (blkno : UInt32)
  | block (blk : Block z)

namespace StoreOp

variable {M : Type}

/-- Run a call. -/
def run [OverflowTable M] : StoreOp c.blockSz → StorageM c M (StoreResult c.blockSz)
  | require disk => do let no ← Nynn.require disk; pure (.blkno no)
  | release no => do Nynn.release no; pure .none
  | readBlock no => do let blk ← Nynn.readBlock no; pure (.block blk)
  | writeBlock no blk => do Nynn.writeBlock no blk; pure .none
  | update disk op => do let no ← op.run disk; pure (no.elim .none .blkno)

/-- The call uses no stale pointer. -/
def Safe (s : Storage c M) : StoreOp c.blockSz → Prop
  | require _ => RequireSafe s
  | release no => ReleaseSafe s no
  | readBlock _ | writeBlock _ _ => True
  | update _ op => op.Safe s

instance (s : Storage c M) : (op : StoreOp c.blockSz) → Decidable (op.Safe s)
  | require _ => inferInstanceAs (Decidable (RequireSafe s))
  | release no => inferInstanceAs (Decidable (ReleaseSafe s no))
  | readBlock _ | writeBlock _ _ => isTrue trivial
  | update _ op => inferInstanceAs (Decidable (op.Safe s))

/-- Safety depends on the superblock and on the bytes only. -/
theorem Safe.congr {M' : Type} {s : Storage c M} {s' : Storage c M'} {op : StoreOp c.blockSz}
    (h : op.Safe s) (hsup : s.superblk = s'.superblk) (hblocks : s.blocks = s'.blocks) :
    op.Safe s' := by
  have hrelease (b : UInt32) : ReleaseSafe s b → ReleaseSafe s' b := by
    simp only [ReleaseSafe, Storage.isBlock, hsup, hblocks, imp_self]
  have hrequire : RequireSafe s → RequireSafe s' := by
    simp only [RequireSafe, PopSafe, hsup, hblocks, imp_self]
  cases op with
  | require _ => exact hrequire h
  | release no => exact hrelease no h
  | readBlock _ => trivial
  | writeBlock _ _ => trivial
  | update _ op =>
    have hreleased : op.released s' = op.released s := by
      cases op <;> simp only [ListOp.released, Storage.vertexOf, hsup]
    exact ⟨fun hop => hrequire (h.1 hop), fun b hb => hrelease b (h.2 b (hreleased ▸ hb))⟩

/-- **A call.** When it is safe, the two storages do the same. -/
theorem run_rel (op : StoreOp c.blockSz) :
    Rel (SimWith fun t => op.Safe t) (op.run : StorageM c (Overflow c) (StoreResult c.blockSz))
      (op.run : StorageM c AllMapped (StoreResult c.blockSz)) (fun x y s t => x = y ∧ Sim s t)
      NotStale := by
  cases op with
  | require disk => exact Rel.bind_eq (require_rel disk) fun _ => Rel.pure fun _ _ h => ⟨rfl, h⟩
  | release no => exact Rel.bind (release_rel no) fun _ _ => Rel.pure fun _ _ h => ⟨rfl, h⟩
  | readBlock no => exact Rel.bind_eq (readBlock_rel no) fun _ => Rel.pure fun _ _ h => ⟨rfl, h⟩
  | writeBlock no blk =>
    exact Rel.bind (writeBlock_rel no blk) fun _ _ => Rel.pure fun _ _ h => ⟨rfl, h.1⟩
  | update disk op =>
    exact Rel.bind_eq (ListOp.run_rel disk op) fun _ => Rel.pure fun _ _ h => ⟨rfl, h⟩

end StoreOp

section Runs

variable {M : Type} [OverflowTable M]

/-- Run calls one after the other, also after one that failed; the results and the last state. -/
def runOps : List (StoreOp c.blockSz) → Storage c M →
    List (Except Fault (StoreResult c.blockSz)) × Storage c M
  | [], s => ([], s)
  | op :: ops, s =>
    ((op.run.run s).1 :: (runOps ops (op.run.run s).2).1, (runOps ops (op.run.run s).2).2)

/-- Every call of the run is safe in the state in which it starts. -/
def SafeRun : List (StoreOp c.blockSz) → Storage c M → Prop
  | [], _ => True
  | op :: ops, s => op.Safe s ∧ SafeRun ops (op.run.run s).2

instance decidableSafeRun : (ops : List (StoreOp c.blockSz)) → (s : Storage c M) →
    Decidable (SafeRun ops s)
  | [], _ => isTrue trivial
  | op :: ops, s =>
    have := decidableSafeRun ops (op.run.run s).2
    inferInstanceAs (Decidable (op.Safe s ∧ SafeRun ops (op.run.run s).2))

end Runs

/-- A run of safe calls from related states. -/
theorem runOps_sim {s : Storage c (Overflow c)} {t : FlatStorage c}
    {ops : List (StoreOp c.blockSz)} (hsim : Sim s t) (hsafe : SafeRun ops s) :
    (runOps ops s).1 = (runOps ops t).1 ∧ Sim (runOps ops s).2 (runOps ops t).2 ∧
      ∀ r ∈ (runOps ops s).1, r ≠ .error .stalePointer := by
  induction ops generalizing s t with
  | nil => exact ⟨rfl, hsim, by simp [runOps]⟩
  | cons op ops ih =>
    obtain ⟨hop, hops⟩ := hsafe
    have hstep : (op.run.run s).1 = (op.run.run t).1 ∧ Sim (op.run.run s).2 (op.run.run t).2 ∧
        (op.run.run s).1 ≠ .error .stalePointer := by
      rcases op.run_rel s t ⟨hsim, hop.congr hsim.superblk hsim.blocks⟩ with
        ⟨x, y, s', t', hx, hy, rfl, hsim'⟩ | ⟨e, s', t', hx, hy, hne, hsim'⟩
      · rw [hx, hy]
        exact ⟨rfl, hsim', nofun⟩
      · rw [hx, hy]
        exact ⟨rfl, hsim', fun he => hne (Except.error.inj he)⟩
    obtain ⟨hres, hsim', hnot⟩ := ih hstep.2.1 hops
    refine ⟨?_, hsim', fun r hr => ?_⟩
    · rw [runOps, runOps, hstep.1, hres]
    · rcases List.mem_cons.mp hr with rfl | hr
      · exact hstep.2.2
      · exact hnot r hr

/-! ### New storages -/

/-- The blocks of the volume never need the table. -/
private theorem releaseVolume_rel {n : ℕ} (hn : n ≤ c.overflowBlknoMin.toNat) :
    Rel (Sim (c := c)) (releaseVolume n) (releaseVolume n) (fun _ _ => Sim) NotStale := by
  induction n with
  | zero => exact Rel.pure fun _ _ h => h
  | succ n ih =>
    have hlt := c.overflowBlknoMin.toNat_lt
    have hflat : isFlat c (UInt32.ofNat n) = true := by
      refine decide_eq_true ?_
      rw [UInt32.lt_iff_toNat_lt, UInt32.toNat_ofNat_of_lt' (show n < 2 ^ 32 by omega)]
      omega
    have hrelease := (release_rel (UInt32.ofNat n)).mono
      (fun s t (h : Sim s t) => ⟨h, fun _ _ _ => Or.inl hflat⟩) fun _ _ _ _ h => h
    exact Rel.ite (fun _ => Rel.bind hrelease fun _ _ => ih (by omega))
      fun _ => fail_rel nofun fun _ _ h => h

/-- Formatting does the same on both storages when the groups of overflow blocks are aligned. -/
theorem formatStorage_rel (halign : c.overflowBlknoMin.toNat % c.groupSize = 0)
    (minVtxno : UInt32) :
    Rel (Sim (c := c)) (formatStorage minVtxno) (formatStorage minVtxno) (fun _ _ => Sim)
      NotStale := by
  have hmodify {f : SuperBlock c → SuperBlock c} (hsup : ∀ sb, (f sb).supBlkno = sb.supBlkno) :
      Rel Sim (modifySuperBlock f : StorageM c (Overflow c) Unit) (modifySuperBlock f)
        (fun _ _ => Sim) NotStale :=
    Rel.modify fun _ _ h => h.setSuperBlock hsup
  have hnone : ∀ b, isOverflow c b = true → ¬b < c.overflowBlknoMin := by
    intro b hb
    rw [isOverflow, Bool.and_eq_true, decide_eq_true_iff] at hb
    exact UInt32.not_lt.mpr hb.1
  have hsetSup : Rel Sim (setSupBlkno c.overflowBlknoMin : StorageM c (Overflow c) Unit)
      (setSupBlkno c.overflowBlknoMin) (fun _ _ => Sim) NotStale := by
    refine Rel.modify fun s t h => ⟨congrArg (fun sb : SuperBlock c =>
      { sb with supBlkno := c.overflowBlknoMin }) h.superblk, h.blocks, h.files, h.table, halign,
      fun b hb hlt => absurd hlt (hnone b hb), fun b hb hlt => absurd hlt (hnone b hb), h.isFile,
      h.reopens⟩
  refine Rel.bind (hmodify fun _ => rfl) fun _ _ => Rel.bind (hmodify fun _ => rfl) fun _ _ =>
    Rel.bind hsetSup fun _ _ => Rel.bind (releaseVolume_rel le_rfl) fun _ _ =>
      Rel.ite (fun _ => fail_rel (by decide) fun _ _ h => h) fun _ => Rel.get_bind ?_
  intro s t h
  rw [h.superblk]
  refine Rel.mono (P := Sim) ?_ (by rintro s' t' ⟨rfl, rfl⟩; exact h) fun _ _ _ _ h => h
  cases initVertices minVtxno c.vertexIntervalWidth minVtxno t.superblk.vertices with
  | none => exact fail_rel (by decide) fun _ _ h => h
  | some vertices => exact hmodify fun _ => rfl

/-- A new storage with the table. -/
def formatOverflow (c : Config) (minVtxno : UInt32) :
    Except Fault Unit × Storage c (Overflow c) := format (Overflow.empty c) minVtxno

/-- A new storage in which every block stays mapped. -/
def formatFlat (c : Config) (minVtxno : UInt32) : Except Fault Unit × FlatStorage c :=
  format .allMapped minVtxno

/-- New storages are related. -/
theorem format_sim (halign : c.overflowBlknoMin.toNat % c.groupSize = 0) (minVtxno : UInt32) :
    (formatOverflow c minVtxno).1 = (formatFlat c minVtxno).1 ∧
      Sim (formatOverflow c minVtxno).2 (formatFlat c minVtxno).2 := by
  have hzeros : Sim (Storage.zeros (Overflow.empty c)) (Storage.zeros .allMapped) :=
    ⟨rfl, rfl, rfl, Overflow.wellFormed_empty 0, Nat.zero_mod _,
      fun b _ hlt => absurd hlt (UInt32.not_lt.mpr UInt32.zero_le),
      fun _ _ _ => rfl, fun _ hg => absurd hg Bool.false_ne_true, fun _ => rfl⟩
  rw [formatOverflow, formatFlat, format, format]
  by_cases hsize : c.volumeSize < 4
  · rw [if_pos hsize, if_pos hsize]
    exact ⟨rfl, hzeros⟩
  rw [if_neg hsize, if_neg hsize]
  rcases formatStorage_rel halign minVtxno _ _ hzeros with
    ⟨_, _, s', t', hx, hy, hsim⟩ | ⟨e, s', t', hx, hy, -, hsim⟩
  · rw [hx, hy]
    exact ⟨rfl, hsim⟩
  · rw [hx, hy]
    cases e <;> exact ⟨rfl, hsim⟩

/-! ### Transparency -/

/-- A run of calls on a new storage uses no stale pointer, and it cannot be told from the run on a
new storage in which every block stays mapped: the calls return the same and leave the same
superblock, bytes and files. -/
structure Transparent (minVtxno : UInt32) (ops : List (StoreOp c.blockSz)) : Prop where
  new : (formatOverflow c minVtxno).1 = (formatFlat c minVtxno).1
  usable : ∀ r ∈ (runOps ops (formatOverflow c minVtxno).2).1, r ≠ .error .stalePointer
  results : (runOps ops (formatOverflow c minVtxno).2).1 =
    (runOps ops (formatFlat c minVtxno).2).1
  superblk : (runOps ops (formatOverflow c minVtxno).2).2.superblk =
    (runOps ops (formatFlat c minVtxno).2).2.superblk
  blocks : (runOps ops (formatOverflow c minVtxno).2).2.blocks =
    (runOps ops (formatFlat c minVtxno).2).2.blocks
  files : (runOps ops (formatOverflow c minVtxno).2).2.files =
    (runOps ops (formatFlat c minVtxno).2).2.files

/-- **The table is transparent** in every run of safe calls. -/
theorem overflowTable_transparent (minVtxno : UInt32) (ops : List (StoreOp c.blockSz))
    (halign : c.overflowBlknoMin.toNat % c.groupSize = 0)
    (hsafe : SafeRun ops (formatOverflow c minVtxno).2) : Transparent minVtxno ops := by
  obtain ⟨hnew, hsim⟩ := format_sim halign minVtxno
  obtain ⟨hres, hsim', husable⟩ := runOps_sim hsim hsafe
  exact ⟨hnew, husable, hres, hsim'.superblk, hsim'.blocks, hsim'.files⟩

/-- Eight blocks are required, so that there are three groups of overflow blocks, and then blocks
are released. -/
def requireRelease (blknos : List UInt32) : List (StoreOp Config.small.blockSz) :=
  List.replicate 8 (.require .ok) ++ blknos.map .release

theorem overflowTable_transparent_small : Transparent 0 (requireRelease [2, 7]) :=
  overflowTable_transparent (c := Config.small) 0 _ (by decide) (by decide +kernel)

/-- The result is the use of a stale pointer. -/
def isStale {α : Type} : Except Fault α → Bool
  | .error .stalePointer => true
  | _ => false

theorem eq_of_isStale {α : Type} {r : Except Fault α} (h : isStale r = true) :
    r = .error .stalePointer := by
  unfold isStale at h
  split at h
  · rfl
  · cases h

/-- The block `7` is released when the head of the free list is the block `2` of another group and
is full: the pointer to the block `7` is stale when it is written through. -/
theorem overflowTable_transparent_false_of_release :
    ¬Transparent 0 (requireRelease [2, 0, 1, 3, 4, 5, 6, 7]) := by
  have hstale : ((runOps (requireRelease [2, 0, 1, 3, 4, 5, 6, 7])
      (formatOverflow Config.small 0).2).1.any isStale) = true := by
    decide +kernel
  rintro ⟨-, husable, -⟩
  obtain ⟨r, hr, he⟩ := List.any_eq_true.mp hstale
  exact husable r hr (eq_of_isStale he)

end Nynn
