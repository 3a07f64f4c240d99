import Nynn.Storage.ReadMany

/-!
# A subgraph as a store of lists

What a client knows of a store: every vertex has a list of block numbers, and every block of the
list of a vertex has the bytes that it was given, with the vertex and its neighbours in the list in
the header. A subgraph holds such a store on the vertices of its interval: everything that can be
read of it is a function of the lists, and an update changes the list of its vertex as its name says.

Source: `nynn_mm_subgraph_set.h`.

## Main definitions

* `Nynn.ListStore`: the lists, and the bytes that the blocks were given.
* `Nynn.ListStore.update`: what an update does.
* `Nynn.Storage.Holds`: a subgraph holds the lists of its vertices.

## Main results

* `Nynn.Storage.Holds.read`, `Nynn.Storage.Holds.readn` and the other reads.
* `Nynn.Storage.Holds.run`: an update does what it does to the lists.
-/

namespace Nynn

open Program LinkedRing

/-! ### The store -/

/-- A list of block numbers for every vertex, and the bytes that its blocks were given. -/
structure ListStore (z : BlockSz) where
  list : UInt32 → List UInt32
  given : UInt32 → UInt32 → Block z

/-- The block in front of a block of a list. -/
def prevIn (l : List UInt32) (b : UInt32) : UInt32 :=
  before invalidBlkno (l.takeWhile (· != b))

/-- The block behind a block of a list. -/
def nextIn (l : List UInt32) (b : UInt32) : UInt32 :=
  after invalidBlkno (l.dropWhile (· != b)).tail

theorem prevIn_nextIn_of_notMem {l₁ : List UInt32} {b : UInt32} (h : b ∉ l₁) (l₂ : List UInt32) :
    prevIn (l₁ ++ b :: l₂) b = before invalidBlkno l₁ ∧
      nextIn (l₁ ++ b :: l₂) b = after invalidBlkno l₂ := by
  have hne : ∀ a ∈ l₁, (a != b) = true := fun a ha => bne_iff_ne.mpr fun e => h (e ▸ ha)
  rw [prevIn, nextIn, List.takeWhile_append_of_pos hne, List.dropWhile_append_of_pos hne,
    List.takeWhile_cons_of_neg (by simp), List.dropWhile_cons_of_neg (by simp), List.append_nil,
    List.tail_cons]
  exact ⟨rfl, rfl⟩

namespace ListStore

variable {z : BlockSz}

def empty : ListStore z := ⟨fun _ => [], fun _ _ => 0⟩

variable (L : ListStore z) (v : UInt32)

def headBlkno : UInt32 := after invalidBlkno (L.list v)

def tailBlkno : UInt32 := before invalidBlkno (L.list v)

/-- The number of content bytes, in 32 bits. -/
def size : UInt32 := UInt32.ofNat (contentSum (L.given v) (L.list v))

/-- The bytes of a block of the list of the vertex. -/
def block (b : UInt32) : Block z :=
  (((L.given v b).setSource v).setPrev (prevIn (L.list v) b)).setNext (nextIn (L.list v) b)

/-- The store after an update; `x` is the number of a new block. -/
def update (op : ListOp z) (x : UInt32) : ListStore z where
  list := Function.update L.list op.vtxno (op.listAfter x (L.list op.vtxno))
  given :=
    match op.newBlk with
    | some blk => Function.update L.given op.vtxno (Function.update (L.given op.vtxno) x blk)
    | none => L.given

variable {L v} {op : ListOp z} {x : UInt32}

@[simp] theorem list_update_self :
    (L.update op x).list op.vtxno = op.listAfter x (L.list op.vtxno) := Function.update_self ..

theorem list_update_of_ne (h : v ≠ op.vtxno) : (L.update op x).list v = L.list v :=
  Function.update_of_ne h ..

theorem given_update_of_ne (h : v ≠ op.vtxno) : (L.update op x).given v = L.given v := by
  rw [update]
  cases op.newBlk with
  | none => rfl
  | some blk => exact Function.update_of_ne h ..

theorem given_update_of_ne_blkno {b : UInt32} (h : op.newBlk.isSome = true → b ≠ x) :
    (L.update op x).given v b = L.given v b := by
  rw [update]
  cases hblk : op.newBlk with
  | none => rfl
  | some blk =>
    have hb : b ≠ x := h (by rw [hblk, Option.isSome_some])
    dsimp only
    by_cases hv : v = op.vtxno
    · rw [hv, Function.update_self, Function.update_of_ne hb]
    · rw [Function.update_of_ne hv]

/-- A removal does not look at the number of a new block. -/
theorem update_eq_of_newBlk_none (h : op.newBlk = none) (x y : UInt32) :
    L.update op x = L.update op y := by
  have hlist : op.listAfter x (L.list op.vtxno) = op.listAfter y (L.list op.vtxno) := by
    cases op <;> first | rfl | cases h
  rw [update, update, hlist, h]

theorem given_update_self {blk : Block z} (h : op.newBlk = some blk) :
    (L.update op x).given op.vtxno x = blk := by
  simp only [update, h, Function.update_self]

end ListStore

/-! ### The bytes of a block -/

namespace Block

variable {z : BlockSz} {b b' : Block z}

/-- The fields of the header and the bytes behind the links determine a block. -/
theorem ext_header (hsource : b.getSource = b'.getSource) (hprev : b.getPrev = b'.getPrev)
    (hnext : b.getNext = b'.getNext) (hbody : KeepsGiven b b') : b = b' := by
  have hword : ∀ off, b.getWord off = b'.getWord off → b.getLE off 4 = b'.getLE off 4 := by
    intro off hoff
    have hlt := b.getLE_lt off 4
    have hlt' := b'.getLE_lt off 4
    have heq := congrArg UInt32.toNat hoff
    rwa [getWord, getWord, UInt32.toNat_ofNat_of_lt' hlt, UInt32.toNat_ofNat_of_lt' hlt'] at heq
  funext i
  by_cases hi : 12 ≤ i.val
  · exact hbody i hi
  by_cases hi₀ : i.val < 4
  · exact LittleEndian.Bytes.apply_eq_of_getLE_eq (hword 0 hsource) (Nat.zero_le _) hi₀
  by_cases hi₁ : i.val < 8
  · exact LittleEndian.Bytes.apply_eq_of_getLE_eq (hword 4 hprev) (by omega) hi₁
  · exact LittleEndian.Bytes.apply_eq_of_getLE_eq (hword 8 hnext) (by omega) (by omega)

theorem contentSize_of_keepsGiven (h : KeepsGiven b b') : b.contentSize = b'.contentSize :=
  congrArg UInt32.ofNat (LittleEndian.Bytes.getLE_congr fun i hi _ => h i (by omega))

theorem keepsGiven_links (b : Block z) (v p n : UInt32) :
    KeepsGiven (((b.setSource v).setPrev p).setNext n) b := fun i hi => by
  rw [setNext_apply_of_notMem _ _ (Or.inr hi), setPrev_apply_of_notMem _ _ (Or.inr hi),
    setSource_apply_of_notMem _ _ (by omega)]

end Block

/-! ### Subgraphs that hold a store -/

variable {c : Config}

/-- A subgraph, which is not the last one, holds the lists of the vertices of its interval. -/
structure Storage.Holds (s : FlatStorage c) (k : UInt32) (L : ListStore c.blockSz) : Prop where
  multiple : k.toNat % c.vertexIntervalWidth = 0
  notLast : k.toNat + c.vertexIntervalWidth < 2 ^ 32
  represents : ∃ d : Deques c, Represents s k d ∧
    ∀ vtx : Fin c.vertexIntervalWidth, L.list (k + UInt32.ofNat vtx.val) = d.lists vtx ∧
      ∀ b ∈ d.lists vtx, KeepsGiven (s.blocks b) (L.given (k + UInt32.ofNat vtx.val) b)

section Represents

variable {s : FlatStorage c} {k : UInt32} {d : Deques c} {disk : CreateOutcome}

/-- The block that a require takes is a block, and in no list. -/
theorem Represents.require_fresh (h : Represents s k d)
    (hreq : ∃ b s₁, (require disk).run s = (.ok b, s₁)) :
    (d.pool.require c.groupSize).1 ≠ invalidBlkno ∧
      ∀ vtx, (d.pool.require c.groupSize).1 ∉ d.lists vtx := by
  obtain ⟨b, s₁, hrun⟩ := hreq
  obtain ⟨rfl, hreq⟩ := h.refines.require hrun
  have hblk := (hreq.isBlock_iff _).mpr (Or.inr List.mem_cons_self)
  exact ⟨ne_invalidBlkno_of_isBlock hblk, fun vtx hmem =>
    hreq.fresh _ (h.isBlock hmem) (h.notMem_stack vtx _ hmem) List.mem_cons_self⟩

/-- The number that an operation gives to its new block. -/
def ListOp.newBlkno (op : ListOp c.blockSz) (d : Deques c) : UInt32 :=
  if op.newBlk.isSome then (d.pool.require c.groupSize).1 else invalidBlkno

theorem ListOp.apply_fst (op : ListOp c.blockSz) (vtx : Fin c.vertexIntervalWidth) :
    (op.apply vtx d).1 = op.newBlk.map fun _ => op.newBlkno d := by
  rw [apply, newBlkno]
  cases op.newBlk with
  | some blk => rfl
  | none => cases op.dropped (d.lists vtx) <;> rfl

theorem ListOp.lists_apply_self (op : ListOp c.blockSz) (vtx : Fin c.vertexIntervalWidth) :
    (op.apply vtx d).2.lists vtx = op.listAfter (op.newBlkno d) (d.lists vtx) := by
  rw [apply, newBlkno]
  cases hblk : op.newBlk with
  | some blk => exact Deques.lists_update_self ..
  | none =>
    cases hdrop : op.dropped (d.lists vtx) with
    | some b => exact Deques.lists_update_self ..
    | none => exact (op.listAfter_of_dropped_none hblk hdrop).symm

end Represents

namespace Storage.Holds

variable {s : FlatStorage c} {k v b : UInt32} {L L' : ListStore c.blockSz}

/-- A formatted subgraph holds empty lists. -/
theorem of_format (hformat : format .allMapped k = (.ok (), s))
    (hk : k.toNat + c.vertexIntervalWidth < 2 ^ 32)
    (hL : ∀ v, subgraphKey c v = k → L.list v = []) : s.Holds k L where
  multiple := format_eq_ok hformat
  notLast := hk
  represents := by
    refine ⟨_, represents_format hformat hk, fun vtx => ⟨hL _ ?_, by simp⟩⟩
    exact (subgraphKey_eq_iff (format_eq_ok hformat) hk _).mpr ⟨vtx, rfl⟩

theorem congr (h : s.Holds k L) (hlist : ∀ v, subgraphKey c v = k → L'.list v = L.list v)
    (hgiven : ∀ v, subgraphKey c v = k → L'.given v = L.given v) : s.Holds k L' where
  multiple := h.multiple
  notLast := h.notLast
  represents := by
    obtain ⟨d, hd, hlists⟩ := h.represents
    refine ⟨d, hd, fun vtx => ?_⟩
    have hkey := (subgraphKey_eq_iff h.multiple h.notLast _).mpr ⟨vtx, rfl⟩
    rw [hlist _ hkey, hgiven _ hkey]
    exact hlists vtx

/-- The place of a vertex in the interval. -/
theorem exists_vtx (h : s.Holds k L) (hv : subgraphKey c v = k) :
    ∃ (d : Deques c) (vtx : Fin c.vertexIntervalWidth), v = k + UInt32.ofNat vtx.val ∧
      Represents s k d ∧ d.lists vtx = L.list v ∧
      ∀ b ∈ L.list v, KeepsGiven (s.blocks b) (L.given v b) := by
  obtain ⟨d, hd, hlists⟩ := h.represents
  obtain ⟨vtx, rfl⟩ := (subgraphKey_eq_iff h.multiple h.notLast v).mp hv
  obtain ⟨hlist, hgiven⟩ := hlists vtx
  exact ⟨d, vtx, rfl, hd, hlist.symm, hlist ▸ hgiven⟩

/-! #### Reading -/

theorem isVertexList (h : s.Holds k L) (hv : subgraphKey c v = k) :
    IsVertexList s v (L.list v) := by
  obtain ⟨d, vtx, rfl, hd, hlist, -⟩ := h.exists_vtx hv
  exact hlist ▸ hd.isVertexList vtx

theorem getHeadBlkno (h : s.Holds k L) (hv : subgraphKey c v = k) :
    (Nynn.getHeadBlkno v).run s = (.ok (L.headBlkno v), s) := by
  obtain ⟨d, vtx, rfl, hd, hlist, -⟩ := h.exists_vtx hv
  rw [getHeadBlkno_run (hd.vertexSlot vtx), hd.headBlkno, hlist, ListStore.headBlkno]

theorem getTailBlkno (h : s.Holds k L) (hv : subgraphKey c v = k) :
    (Nynn.getTailBlkno v).run s = (.ok (L.tailBlkno v), s) := by
  obtain ⟨d, vtx, rfl, hd, hlist, -⟩ := h.exists_vtx hv
  rw [getTailBlkno_run (hd.vertexSlot vtx), hd.tailBlkno, hlist, ListStore.tailBlkno]

theorem getSize (h : s.Holds k L) (hv : subgraphKey c v = k) :
    (Nynn.getSize v).run s = (.ok (L.size v), s) := by
  obtain ⟨d, vtx, rfl, hd, hlist, hgiven⟩ := h.exists_vtx hv
  have hsum : contentSum s.blocks (L.list (k + UInt32.ofNat vtx.val)) =
      contentSum (L.given (k + UInt32.ofNat vtx.val)) (L.list (k + UInt32.ofNat vtx.val)) :=
    contentSum_congr fun b hb => Block.contentSize_of_keepsGiven (hgiven b hb)
  have hsize : (s.superblk.vertices vtx).size = L.size (k + UInt32.ofNat vtx.val) := by
    rw [← UInt32.toNat_inj, hd.size, hlist, hsum, ListStore.size, UInt32.toNat_ofNat']
  rw [getSize_run (hd.vertexSlot vtx), hsize]

theorem readAllBlknos (h : s.Holds k L) (hv : subgraphKey c v = k) {fuel : ℕ}
    (hfuel : (L.list v).length < fuel) :
    (Nynn.readAllBlknos fuel v).run s = (.ok (some (L.list v)), s) := by
  obtain ⟨vtx, hvtx, hwalk, hblk⟩ := (h.isVertexList hv).reads.exists_walk
  rw [Nynn.readAllBlknos, Prog.run_bind_of_ok (getHeadBlkno_run hvtx),
    readBlknosFrom_of_walk hwalk hblk hfuel]

/-- The bytes of a block of a list. -/
theorem blocks_eq (h : s.Holds k L) (hv : subgraphKey c v = k) (hb : b ∈ L.list v) :
    s.isBlock b = true ∧ s.blocks b = L.block v b := by
  obtain ⟨d, vtx, rfl, hd, hlist, hgiven⟩ := h.exists_vtx hv
  have hmem : b ∈ d.lists vtx := hlist ▸ hb
  refine ⟨hd.isBlock hmem, ?_⟩
  obtain ⟨l₁, l₂, hsplit, hnot⟩ := List.eq_append_cons_of_mem hmem
  obtain ⟨hprev, hnext⟩ := hd.getPrev_getNext hsplit
  obtain ⟨hprevIn, hnextIn⟩ := prevIn_nextIn_of_notMem hnot l₂
  rw [ListStore.block, ← hlist, hsplit, hprevIn, hnextIn]
  refine Block.ext_header ?_ ?_ ?_ fun i hi => ?_
  · rw [hd.blockSource vtx b hmem, Block.getSource_setNext, Block.getSource_setPrev,
      Block.getSource_setSource]
  · rw [hprev, Block.getPrev_setNext, Block.getPrev_setPrev]
  · rw [hnext, Block.getNext_setNext]
  · exact (hgiven b hb i hi).trans (Block.keepsGiven_links _ _ _ _ i hi).symm

theorem read (h : s.Holds k L) (hv : subgraphKey c v = k) (hb : b ∈ L.list v) :
    (Nynn.read v b).run s = (.ok (L.block v b), s) := by
  obtain ⟨hblk, heq⟩ := h.blocks_eq hv hb
  rw [Nynn.read, readBlock_of_isBlock hblk, heq]

/-- `readn` returns the last block of the list, whatever number of blocks is asked for. -/
theorem readn (h : s.Holds k L) (hv : subgraphKey c v = k) (hb : b ∈ L.list v) {n : Int32}
    (hn : 0 < n.toInt) {fuel : ℕ} (hfuel : (L.list v).length < fuel) :
    (Nynn.readn fuel v b n).run s = (.ok (some [L.block v (L.tailBlkno v)]), s) := by
  obtain ⟨l₁, l₂, hl⟩ := List.append_of_mem hb
  have hreads := (h.isVertexList hv).reads
  rw [hl] at hreads
  obtain ⟨hwalk, hblk⟩ := hreads.walk
  obtain ⟨bs, w, hw⟩ : ∃ bs w, b :: l₂ = bs ++ [w] :=
    ⟨_, _, (List.dropLast_append_getLast (List.cons_ne_nil b l₂)).symm⟩
  have htail : L.tailBlkno v = w := by
    rw [ListStore.tailBlkno, hl, hw, ← List.append_assoc, before, List.getLastD_concat]
  have hlen : bs.length + 1 < fuel := by
    have hsplit := congrArg List.length hw
    rw [hl, List.length_append, hsplit, List.length_append, List.length_singleton] at hfuel
    omega
  have hmem : w ∈ L.list v := by
    rw [hl, hw]
    simp
  rw [hw] at hwalk hblk
  rw [readn_run_of_pos hwalk hblk hn, if_pos hlen, htail, (h.blocks_eq hv hmem).2]

/-! #### Updates -/

/-- **An update** of a vertex does to the lists what its name says, and a new block gets a number
that is in no list of the subgraph. -/
theorem run (h : s.Holds k L) {op : ListOp c.blockSz} {disk : CreateOutcome}
    (hkey : subgraphKey c op.vtxno = k) (hallowed : op.Allowed (L.list op.vtxno))
    (hpop : op.NotPopLast (L.list op.vtxno))
    (hreq : op.newBlk.isSome = true → ∃ b s₁, (require disk).run s = (.ok b, s₁)) :
    ∃ x s', (op.run disk).run s = (.ok (op.newBlk.map fun _ => x), s') ∧
      s'.Holds k (L.update op x) ∧
      (op.newBlk.isSome = true → x ≠ invalidBlkno ∧ ∀ v, subgraphKey c v = k → x ∉ L.list v) := by
  obtain ⟨d, hd, hlists⟩ := h.represents
  obtain ⟨vtx, hvtx⟩ := (subgraphKey_eq_iff h.multiple h.notLast op.vtxno).mp hkey
  rw [hvtx, (hlists vtx).1] at hallowed hpop
  obtain ⟨s', hrun, hrep, hframe, hnew⟩ := hd.run hvtx hallowed hpop hreq
  rw [ListOp.apply_fst] at hrun
  have hblkno : op.newBlk.isSome = true → op.newBlkno d = (d.pool.require c.groupSize).1 :=
    fun hsome => by rw [ListOp.newBlkno, if_pos hsome]
  have hfresh : op.newBlk.isSome = true →
      op.newBlkno d ≠ invalidBlkno ∧ ∀ w, op.newBlkno d ∉ d.lists w := fun hsome => by
    rw [hblkno hsome]
    exact hd.require_fresh (hreq hsome)
  refine ⟨op.newBlkno d, s', hrun, ⟨h.multiple, h.notLast, _, hrep, fun w => ?_⟩,
    fun hsome => ⟨(hfresh hsome).1, fun v hv => ?_⟩⟩
  · by_cases hw : w = vtx
    · obtain rfl := hw
      have hlist : (L.update op (op.newBlkno d)).list (k + UInt32.ofNat w.val) =
          (op.apply w d).2.lists w := by
        rw [← hvtx, ListStore.list_update_self, hvtx, (hlists w).1, ListOp.lists_apply_self]
      refine ⟨hlist, fun b hb => ?_⟩
      have hold := hb
      rw [ListOp.lists_apply_self] at hold
      -- A block of the list was there before, or it is the new one.
      rcases op.mem_listAfter hold with hmem | ⟨hsome, rfl⟩
      · have hne : op.newBlk.isSome = true → b ≠ op.newBlkno d := by
          rintro hsome rfl
          exact (hfresh hsome).2 w hmem
        rw [ListStore.given_update_of_ne_blkno hne]
        exact ((hlists w).2 b hmem).of_sameBody (hframe.body b hmem hb)
      · obtain ⟨blk, hblk⟩ := Option.isSome_iff_exists.mp hsome
        rw [← hvtx, ListStore.given_update_self hblk, hblkno hsome]
        refine KeepsGiven.of_sameBody (fun i hi => ?_) (hnew blk hblk)
        exact blk.setSource_apply_of_notMem _ (by omega)
    · have hne : k + UInt32.ofNat w.val ≠ op.vtxno := fun e =>
        hw (add_ofNat_injective (e.trans hvtx))
      rw [ListStore.list_update_of_ne hne, ListStore.given_update_of_ne hne, hframe.lists w hw]
      refine ⟨(hlists w).1, fun b hb => ?_⟩
      rw [hframe.blocks w hw b hb]
      exact (hlists w).2 b hb
  · obtain ⟨w, rfl⟩ := (subgraphKey_eq_iff h.multiple h.notLast v).mp hv
    rw [(hlists w).1]
    exact (hfresh hsome).2 w

end Storage.Holds

end Nynn
