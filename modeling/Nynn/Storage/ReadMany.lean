import Nynn.Storage.SubgraphRuns

/-!
# Reading several blocks of a list

`readn` reads blocks of a list from one block on, forwards or backwards, into a vector of bytes. Its
counter stays at zero, so every block is written over the one before it, and the loop only stops at
the end of the list: the vector holds the last block alone. When `n` is negative, the size that is
reserved for the vector is a negative number in 64 bits, and nothing is read at all.

Source: `nynn_mm_subgraph_set.h`.

## Main definitions

* `Nynn.readn`.
* `Nynn.ReadsMany`: the vector holds as many blocks of the list as were asked for.

## Main results

* `Nynn.readn_run_of_pos`, `Nynn.readn_run_of_neg`: what `readn` returns.
* `Nynn.readsMany_iff`: it is what was asked for at the last block of a list.
-/

namespace Nynn

open Program LinkedRing

variable {c : Config}

section Definitions

variable {M : Type} [OverflowTable M]

/-- `(blk->getHeader()->*next)()`, by the sign of `n`. -/
def Block.toward {z : BlockSz} (n : Int32) : Block z → UInt32 :=
  if 0 < n.toInt then getNext else getPrev

/-- The blocks of the vector after it has got the size of `i + 1` blocks and the last of them is
read. -/
def putBlock {z : BlockSz} (xblk : List (Block z)) (i : ℕ) (blk : Block z) : List (Block z) :=
  ((xblk ++ List.replicate (i + 1 - xblk.length) fun _ => 0).take i) ++ [blk]

/-- The loop of `readn`, for at most `fuel` rounds; nothing when it does not end within them. The
counter `i` is not changed by it. -/
def readnFrom (n : Int32) (i : ℕ) :
    ℕ → UInt32 → List (Block c.blockSz) → StorageM c M (Option (List (Block c.blockSz)))
  | 0, _, _ => pure none
  | fuel + 1, blkno, xblk =>
    if i < n.toInt.natAbs ∧ blkno ≠ invalidBlkno then do
      let blk ← readBlock blkno
      readnFrom n i fuel (blk.toward n) (putBlock xblk i blk)
    else pure (some xblk)

/-- The argument of `xblk.reserve(n*sizeof(Block))`, a product in 64 bits without sign. -/
def reserveSize (z : BlockSz) (n : Int32) : ℕ := (n.toInt * z.bytes % 2 ^ 64).toNat

/-- `vector<int8_t>::max_size()`. -/
def vectorMaxSize : ℕ := 2 ^ 63 - 1

/-- `readn`, into an empty vector. -/
def readn (fuel : ℕ) (_vtxno blkno : UInt32) (n : Int32) :
    StorageM c M (Option (List (Block c.blockSz))) :=
  if vectorMaxSize < reserveSize c.blockSz n then throwNynnException "vector::reserve"
  else readnFrom n 0 fuel blkno []

end Definitions

/-- The vector holds the first `|n|` blocks from `b` on in the direction of `n`, or all of them when
there are fewer, as `read` returns them. -/
def ReadsMany (s : FlatStorage c) (v b : UInt32) (n : Int32) : Prop :=
  ∃ fuel xblk bs, (readn fuel v b n).run s = (.ok (some xblk), s) ∧
    Walk (fun b' => (s.blocks b').toward n) invalidBlkno b bs ∧
    List.Forall₂ (fun b' blk => (read v b').run s = (.ok blk, s))
      (bs.take n.toInt.natAbs) xblk

/-! ### What `readn` returns -/

section Runs

variable {s : FlatStorage c} {v b w : UInt32} {n : Int32} {bs l : List UInt32}

/-- The size of `|n|` blocks is less than `2 ^ 63` bytes. -/
private theorem natAbs_mul_bytes (z : BlockSz) (n : Int32) :
    n.toInt.natAbs * z.bytes ≤ 2 ^ 62 := by
  have hlt := n.toInt_lt
  have hle := n.le_toInt
  have habs : n.toInt.natAbs ≤ 2 ^ 31 := by omega
  have hbytes : z.bytes ≤ 2 ^ 31 :=
    Nat.pow_le_pow_right (by norm_num) (Nat.le_of_lt_succ z.log2_lt)
  calc n.toInt.natAbs * z.bytes ≤ 2 ^ 31 * 2 ^ 31 := Nat.mul_le_mul habs hbytes
    _ = 2 ^ 62 := by norm_num

theorem reserveSize_of_pos (z : BlockSz) (hn : 0 < n.toInt) :
    reserveSize z n ≤ vectorMaxSize := by
  have hle := natAbs_mul_bytes z n
  have hsize : n.toInt * z.bytes = (n.toInt.natAbs * z.bytes : ℕ) := by
    rw [Nat.cast_mul, Int.natAbs_of_nonneg hn.le]
  rw [reserveSize, hsize, vectorMaxSize]
  omega

theorem reserveSize_of_neg (z : BlockSz) (hn : n.toInt < 0) :
    vectorMaxSize < reserveSize z n := by
  have hle := natAbs_mul_bytes z n
  have hpos : 0 < n.toInt.natAbs * z.bytes :=
    Nat.mul_pos (Int.natAbs_pos.mpr hn.ne) ((Nat.zero_lt_succ 31).trans_le z.le_bytes)
  have hsize : n.toInt * z.bytes = -(n.toInt.natAbs * z.bytes : ℕ) := by
    rw [Nat.cast_mul, Int.ofNat_natAbs_of_nonpos hn.le, Int.neg_mul, Int.neg_neg]
  rw [reserveSize, hsize, vectorMaxSize]
  omega

/-- A negative number of blocks is refused. -/
theorem readn_run_of_neg (hn : n.toInt < 0) (fuel : ℕ) :
    (readn fuel v b n).run s = (.error (.exception "vector::reserve"), s) := by
  rw [readn, if_pos (reserveSize_of_neg _ hn)]
  rfl

/-- Nothing is read when nothing is asked for. -/
theorem readn_run_of_zero (hn : n.toInt = 0) {fuel : ℕ} (hfuel : 0 < fuel) :
    (readn fuel v b n).run s = (.ok (some []), s) := by
  obtain ⟨fuel, rfl⟩ := Nat.exists_eq_succ_of_ne_zero hfuel.ne'
  have hsize : ¬vectorMaxSize < reserveSize c.blockSz n := by
    simp [reserveSize, hn]
  rw [readn, if_neg hsize, readnFrom, if_neg (by simp [hn]), Prog.run_pure]

/-- The loop ends at the end of the list, and leaves the last block. -/
theorem readnFrom_run (h : Walk (fun b' => (s.blocks b').toward n) invalidBlkno b bs)
    (hblk : ∀ b' ∈ bs, s.isBlock b' = true) (hn : n.toInt ≠ 0) (fuel : ℕ)
    (xblk : List (Block c.blockSz)) :
    (readnFrom n 0 fuel b xblk).run s =
      (.ok (if bs.length < fuel then some ((bs.map s.blocks).getLast?.elim xblk fun blk => [blk])
        else none), s) := by
  have habs : 0 < n.toInt.natAbs := Int.natAbs_pos.mpr hn
  induction h generalizing fuel xblk with
  | done =>
    cases fuel with
    | zero => rfl
    | succ fuel =>
      rw [readnFrom, if_neg fun h => h.2 rfl, List.length_nil, if_pos (Nat.zero_lt_succ fuel)]
      rfl
  | @step a l ha h ih =>
    cases fuel with
    | zero => rfl
    | succ fuel =>
      have hput : putBlock xblk 0 (s.blocks a) = [s.blocks a] := rfl
      rw [readnFrom, if_pos ⟨habs, ha⟩,
        Prog.run_bind_of_ok (readBlock_of_isBlock (hblk a List.mem_cons_self)), hput,
        ih (fun b' hb' => hblk b' (List.mem_cons_of_mem _ hb'))]
      have hlast : (l.map s.blocks).getLast?.elim [s.blocks a] (fun blk => [blk]) =
          ((a :: l).map s.blocks).getLast?.elim xblk fun blk => [blk] := by
        rw [List.map_cons, List.getLast?_cons]
        cases (l.map s.blocks).getLast? <;> rfl
      simp only [hlast, List.length_cons, Nat.add_lt_add_iff_right]

/-- **What `readn` returns** for a positive number of blocks: the last block of the list. -/
theorem readn_run_of_pos (h : Walk (fun b => (s.blocks b).getNext) invalidBlkno b (bs ++ [w]))
    (hblk : ∀ b' ∈ bs ++ [w], s.isBlock b' = true) (hn : 0 < n.toInt) (fuel : ℕ) :
    (readn fuel v b n).run s =
      (.ok (if bs.length + 1 < fuel then some [s.blocks w] else none), s) := by
  have hwalk : Walk (fun b' => (s.blocks b').toward n) invalidBlkno b (bs ++ [w]) :=
    h.congr fun b' _ => by rw [Block.toward, if_pos hn]
  rw [readn, if_neg (Nat.not_lt.mpr (reserveSize_of_pos _ hn)),
    readnFrom_run hwalk hblk hn.ne' fuel [], List.map_append, List.map_singleton,
    List.getLast?_concat, List.length_append, List.length_singleton]
  rfl

/-- The walk from a block of a list on. -/
theorem ReadsList.walk {l₁ l₂ : List UInt32} (hl : ReadsList s v (l₁ ++ b :: l₂)) :
    Walk (fun b => (s.blocks b).getNext) invalidBlkno b (b :: l₂) ∧
      ∀ b' ∈ b :: l₂, s.isBlock b' = true := by
  obtain ⟨vtx, -, hwalk, hblk⟩ := hl.exists_walk
  exact ⟨hwalk.of_append, fun b' hb' => hblk b' (List.mem_append_right _ hb')⟩

/-- A vertex has one list. -/
theorem ReadsList.unique {l' : List UInt32} (hl : ReadsList s v l) (hl' : ReadsList s v l') :
    l = l' := by
  obtain ⟨vtx, hvtx, hwalk, -⟩ := hl.exists_walk
  obtain ⟨vtx', hvtx', hwalk', -⟩ := hl'.exists_walk
  obtain rfl : vtx = vtx' := Fin.ext (hvtx.symm.trans hvtx')
  exact hwalk.unique hwalk'

/-- A block that has the bytes of the last block of a list is that block. -/
private theorem eq_nil_of_blocks_eq {l₂ : List UInt32}
    (h : Walk (fun b => (s.blocks b).getNext) invalidBlkno b (b :: l₂))
    (hw : (b :: l₂).getLast? = some w) (heq : s.blocks b = s.blocks w) : l₂ = [] := by
  obtain ⟨bs, hbs⟩ := List.getLast?_eq_some_iff.mp hw
  cases h with
  | step hb hrest =>
    have hlast : Walk (fun b => (s.blocks b).getNext) invalidBlkno w [w] :=
      Walk.of_append (hbs ▸ Walk.step hb hrest)
    cases hlast with
    | step _ hend =>
      refine hrest.eq_nil_iff.mpr ?_
      rw [heq]
      exact hend.eq_nil_iff.mp rfl

/-- **Reading several blocks.** The vector holds what was asked for if and only if blocks are asked
for forwards, from the last block of the list on. -/
theorem readsMany_iff (hl : IsVertexList s v l) (hb : b ∈ l) (hn : n ≠ 0) :
    ReadsMany s v b n ↔ 0 < n.toInt ∧ l.getLast? = some b := by
  have hzero : n.toInt ≠ 0 := fun e => hn (Int32.toInt_inj.mp (e.trans Int32.toInt_zero.symm))
  constructor
  · rintro ⟨fuel, xblk, bs, hrun, hbs, hread⟩
    rcases lt_or_gt_of_ne hzero with hneg | hpos
    · rw [readn_run_of_neg hneg] at hrun
      cases hrun
    refine ⟨hpos, ?_⟩
    obtain ⟨l₁, l₂, rfl⟩ := List.append_of_mem hb
    obtain ⟨hwalk, hblk⟩ := hl.reads.walk
    obtain rfl : bs = b :: l₂ :=
      (hbs.congr fun b' _ => by rw [Block.toward, if_pos hpos]).unique hwalk
    obtain ⟨ds, w, hds⟩ : ∃ ds w, b :: l₂ = ds ++ [w] :=
      ⟨_, _, (List.dropLast_append_getLast (List.cons_ne_nil b l₂)).symm⟩
    -- the vector holds the block `w`, and what was asked for starts with `b`
    have hxblk : xblk = [s.blocks w] := by
      rw [readn_run_of_pos (hds ▸ hwalk) (hds ▸ hblk) hpos, Prod.mk.injEq, Except.ok.injEq] at hrun
      have hsome := hrun.1
      split at hsome
      · exact (Option.some.inj hsome).symm
      · cases hsome
    obtain ⟨i, hi⟩ := Nat.exists_eq_succ_of_ne_zero (Int.natAbs_ne_zero.mpr hzero)
    rw [hi, List.take_succ_cons, hxblk] at hread
    have hfirst := (List.forall₂_cons.mp hread).1
    rw [read, readBlock_of_isBlock (hblk b List.mem_cons_self), Prod.mk.injEq,
      Except.ok.injEq] at hfirst
    have hnil : l₂ = [] := eq_nil_of_blocks_eq hwalk (by rw [hds, List.getLast?_concat]) hfirst.1
    rw [hnil, List.getLast?_concat]
  · rintro ⟨hpos, hlast⟩
    obtain ⟨l₁, rfl⟩ := List.getLast?_eq_some_iff.mp hlast
    obtain ⟨hwalk, hblk⟩ := hl.reads.walk
    refine ⟨2, [s.blocks b], [b], ?_, hwalk.congr fun b' _ => by rw [Block.toward, if_pos hpos], ?_⟩
    · have hread : ([] : List UInt32).length + 1 < 2 := Nat.lt_succ_self 1
      exact (readn_run_of_pos hwalk hblk hpos 2).trans (by rw [if_pos hread])
    · obtain ⟨i, hi⟩ := Nat.exists_eq_succ_of_ne_zero (Int.natAbs_ne_zero.mpr hzero)
      rw [hi, List.take_succ_cons, List.take_nil]
      exact .cons (readBlock_of_isBlock (hblk b List.mem_cons_self)) .nil

end Runs

/-! ### Lists of one and of two blocks -/

theorem smallPushed_list : IsVertexList smallPushed 0 [0] := by
  obtain ⟨given, hrun⟩ := smallPushed_run (P := ListOp.NotPopLast) trivial
  obtain ⟨l, hl, -⟩ := subgraphRun_lists hrun (by decide) 0 (by decide)
  have hread : ReadsList smallPushed 0 [0] := ⟨2, by decide +kernel⟩
  exact hl.reads.unique hread ▸ hl

/-- The small subgraph after two pushes to the vertex `0`. -/
def smallPushedTwice : FlatStorage Config.small :=
  (((ListOp.push 0 0 : ListOp Config.small.blockSz).run .ok).run smallPushed).2

theorem smallPushedTwice_run : ∃ given, SubgraphRun ListOp.NotPopLast 0 smallPushedTwice given := by
  obtain ⟨given, hrun⟩ := smallPushed_run (P := ListOp.NotPopLast) trivial
  have hreq : ∃ b s₁, (require .ok).run smallPushed = (.ok b, s₁) :=
    ⟨1, _, Prod.ext (by decide +kernel) rfl⟩
  rw [smallPushedTwice]
  exact ⟨_, hrun.next (by decide) smallPushed_list.reads trivial trivial fun _ => hreq⟩

theorem smallPushedTwice_list : IsVertexList smallPushedTwice 0 [0, 1] := by
  obtain ⟨given, hrun⟩ := smallPushedTwice_run
  obtain ⟨l, hl, -⟩ := subgraphRun_lists hrun (by decide) 0 (by decide)
  have hread : ReadsList smallPushedTwice 0 [0, 1] := ⟨3, by decide +kernel⟩
  exact hl.reads.unique hread ▸ hl

/-- One block is asked for, from the only block of a list on. -/
theorem readsMany_iff_small : ReadsMany smallPushed 0 0 1 :=
  (readsMany_iff smallPushed_list List.mem_cons_self (by decide)).mpr ⟨by decide, rfl⟩

/-- Two blocks are asked for, from the first of two blocks on, and one block is returned. -/
theorem readsMany_false_of_two : IsVertexList smallPushedTwice 0 [0, 1] ∧
    ¬ReadsMany smallPushedTwice 0 0 2 := by
  refine ⟨smallPushedTwice_list, fun h => ?_⟩
  have hlast := (readsMany_iff smallPushedTwice_list List.mem_cons_self (by decide)).mp h
  exact absurd hlast.2 (by decide)

end Nynn
