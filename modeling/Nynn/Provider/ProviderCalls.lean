import Nynn.Provider.CreatedSubgraphs

/-!
# The calls of a provider

What clients know of a provider is a store of lists: an update changes the list of its vertex as its
name says, and what is read is a function of the lists. A call that creates a subgraph makes empty
lists.

A call to a subgraph that is attached must name blocks of the list of its vertex, a `pop` must not
meet a list with one block, an insertion needs a block, and a removal must not lose the mapping of
the block that it releases to the head of the free list. A call to another subgraph must have an
answer, and does nothing.

Source: `ProviderDaemon.cpp`, `nynn_mm_subgraph_set.h`.

## Main definitions

* `Nynn.Answers`, `Nynn.RemoteStore.Answers`: what the store answers.
* `Nynn.Admissible`: what is asked of a call.

## Main results

* `Nynn.ProviderState.Provides.call`: one call.
-/

namespace Nynn

open Program Transition

variable {c : Config}

/-! ### What a store of lists answers -/

section Answers

variable {z : BlockSz}

/-- The vertex of a call. -/
def vertexOf : (m : ProviderMethod) → TProtocol.Values m.params → Option UInt32
  | .getSize, args | .getHeadBlkno, args | .getTailBlkno, args | .readAllBlknos, args
  | .shift, args | .pop, args => some (args ⟨0, Nat.zero_lt_one⟩).toUInt32
  | .read, args | .remove, args | .unshift, args | .push, args =>
    some (args ⟨0, Nat.zero_lt_two⟩).toUInt32
  | .readn, args | .insertPrev, args | .insertNext, args =>
    some (args ⟨0, first_of_three⟩).toUInt32
  | _, _ => none

/-- The update that a call asks for. -/
def updateOf (z : BlockSz) : (m : ProviderMethod) → TProtocol.Values m.params → Option (ListOp z)
  | .insertPrev, args => (blockAt z (args ⟨2, third_of_three⟩)).map
    (.insertPrev (args ⟨0, first_of_three⟩).toUInt32
      (args ⟨1, second_of_three⟩).toUInt32)
  | .insertNext, args => (blockAt z (args ⟨2, third_of_three⟩)).map
    (.insertNext (args ⟨0, first_of_three⟩).toUInt32
      (args ⟨1, second_of_three⟩).toUInt32)
  | .unshift, args => (blockAt z (args ⟨1, Nat.one_lt_two⟩)).map
    (.unshift (args ⟨0, Nat.zero_lt_two⟩).toUInt32)
  | .push, args => (blockAt z (args ⟨1, Nat.one_lt_two⟩)).map
    (.push (args ⟨0, Nat.zero_lt_two⟩).toUInt32)
  | .remove, args => some (.remove (args ⟨0, Nat.zero_lt_two⟩).toUInt32
    (args ⟨1, Nat.one_lt_two⟩).toUInt32)
  | .shift, args => some (.shift (args ⟨0, Nat.zero_lt_one⟩).toUInt32)
  | .pop, args => some (.pop (args ⟨0, Nat.zero_lt_one⟩).toUInt32)
  | _, _ => none

/-- A call may be made when the list of its vertex is `l`. -/
def Allows (z : BlockSz) (rounds : ℕ) :
    (m : ProviderMethod) → TProtocol.Values m.params → List UInt32 → Prop
  | .getSize, _, _ | .getHeadBlkno, _, _ | .getTailBlkno, _, _ => True
  | .readAllBlknos, _, l => l.length < rounds
  | .read, args, l => (args ⟨1, Nat.one_lt_two⟩).toUInt32 ∈ l
  | .readn, args, l => (args ⟨1, second_of_three⟩).toUInt32 ∈ l ∧ l.length < rounds
  | m, args, l => ∃ op ∈ updateOf z m args, op.Allowed l ∧ op.NotPopLast l

/-- An insertion returns the number of the new block, which is in no list of the subgraph. -/
def Inserts (L : ListStore c.blockSz) (op? : Option (ListOp c.blockSz)) (r : Except String Int32)
    (L' : ListStore c.blockSz) : Prop :=
  ∃ op ∈ op?, ∃ x, r = .ok x.toInt32 ∧ L' = L.update op x ∧ x ≠ invalidBlkno ∧
    ∀ v, subgraphKey c v = subgraphKey c op.vtxno → x ∉ L.list v

/-- A removal returns `true`. -/
def Removes (L : ListStore z) (op? : Option (ListOp z)) (r : Except String Bool)
    (L' : ListStore z) : Prop :=
  ∃ op ∈ op?, r = .ok true ∧ L' = L.update op invalidBlkno

/-- What a store of lists answers to a call, and its lists afterwards. `readn` returns the last
block of the list when it is asked for any, and refuses a negative number. -/
def Answers (L : ListStore c.blockSz) :
    (m : ProviderMethod) → TProtocol.Values m.params → Except String m.ret.Value →
      ListStore c.blockSz → Prop
  | .getSize, args, r, L' =>
    r = .ok (L.size (args ⟨0, Nat.zero_lt_one⟩).toUInt32).toInt32 ∧ L' = L
  | .getHeadBlkno, args, r, L' =>
    r = .ok (L.headBlkno (args ⟨0, Nat.zero_lt_one⟩).toUInt32).toInt32 ∧ L' = L
  | .getTailBlkno, args, r, L' =>
    r = .ok (L.tailBlkno (args ⟨0, Nat.zero_lt_one⟩).toUInt32).toInt32 ∧ L' = L
  | .readAllBlknos, args, r, L' =>
    r = .ok ((L.list (args ⟨0, Nat.zero_lt_one⟩).toUInt32).map UInt32.toInt32) ∧ L' = L
  | .read, args, r, L' =>
    r = .ok (L.block (args ⟨0, Nat.zero_lt_two⟩).toUInt32
      (args ⟨1, Nat.one_lt_two⟩).toUInt32).toVector ∧ L' = L
  | .readn, args, r, L' =>
    L' = L ∧ r = if (args ⟨2, third_of_three⟩ : Int32).toInt < 0 then .error "vector::reserve"
      else if (args ⟨2, third_of_three⟩ : Int32).toInt = 0 then .ok []
      else .ok (L.block (args ⟨0, first_of_three⟩).toUInt32
        (L.tailBlkno (args ⟨0, first_of_three⟩).toUInt32)).toVector
  | .insertPrev, args, r, L' => Inserts L (updateOf c.blockSz .insertPrev args) r L'
  | .insertNext, args, r, L' => Inserts L (updateOf c.blockSz .insertNext args) r L'
  | .unshift, args, r, L' => Inserts L (updateOf c.blockSz .unshift args) r L'
  | .push, args, r, L' => Inserts L (updateOf c.blockSz .push args) r L'
  | .remove, args, r, L' => Removes L (updateOf c.blockSz .remove args) r L'
  | .shift, args, r, L' => Removes L (updateOf c.blockSz .shift args) r L'
  | .pop, args, r, L' => Removes L (updateOf c.blockSz .pop args) r L'
  | _, _, _, L' => L' = L

/-- The result of a call, or the text of its exception, can be written. -/
def AnswerFits {u : FieldType} : Except String u.Value → Prop
  | .ok success => u.Fits success
  | .error what => SizeFits what.utf8ByteSize

/-- A call that creates, removes, attaches or detaches a subgraph. -/
def handlesSubgraph : ProviderMethod → Bool
  | .createSubgraph | .destroySubgraph | .attachSubgraph | .detachSubgraph => true
  | _ => false

/-- What the store answers to a call. A call to a subgraph that is not attached does nothing. -/
def RemoteStore.Answers (S : RemoteStore c) :
    (m : ProviderMethod) → TProtocol.Values m.params → Except String m.ret.Value →
      RemoteStore c → Prop
  | .createSubgraph, args, r, S' =>
    let key := subgraphKey c (args ⟨0, Nat.zero_lt_one⟩).toUInt32
    (r = .ok true ∧ key ∈ S.fresh → S' = S.create key) ∧
      (¬(r = .ok true ∧ key ∈ S.fresh) → S' = S)
  | .destroySubgraph, args, _, S' =>
    S' = S.destroy (subgraphKey c (args ⟨0, Nat.zero_lt_one⟩).toUInt32)
  | .attachSubgraph, args, r, S' =>
    let key := (args ⟨0, Nat.zero_lt_one⟩).toUInt32
    (r = .ok true ∧ key ∈ S.created → S' = S.attach key) ∧
      (¬(r = .ok true ∧ key ∈ S.created) → S' = S.spend key)
  | .detachSubgraph, args, _, S' => S' = S.detach (args ⟨0, Nat.zero_lt_one⟩).toUInt32
  | m, args, r, S' => S' = { S with lists := S'.lists } ∧
    ((∃ v ∈ vertexOf m args, subgraphKey c v ∈ S.attached) →
      Nynn.Answers S.lists m args r S'.lists) ∧
    ((∀ v ∈ vertexOf m args, subgraphKey c v ∉ S.attached) → S'.lists = S.lists)

/-- What is asked of a call to a provider with the subgraphs `K`. -/
structure Admissible (K : Set UInt32) (rounds : ℕ) (env : CallEnv) (s : ProviderState c)
    (m : ProviderMethod) (args : TProtocol.Values m.params) : Prop where
  allows : ∀ v ∈ vertexOf m args, subgraphKey c v ∈ K →
    ∃ l, ReadsList (s.storage v) v l ∧ Allows c.blockSz rounds m args l
  /-- An insertion gets a block. -/
  grows : ∀ op ∈ updateOf c.blockSz m args, subgraphKey c op.vtxno ∈ K → op.newBlk.isSome = true →
    ∃ b t, (require env.disk).run (s.storage op.vtxno) = (.ok b, t)
  /-- A removal keeps the mapping of the block that it releases. -/
  safe : ∀ op ∈ updateOf c.blockSz m args, subgraphKey c op.vtxno ∈ K →
    ∀ b ∈ op.released (s.storage op.vtxno), ReleaseSafe (s.storage op.vtxno) b
  /-- A call to another subgraph returns, or throws an exception. -/
  returns : handlesSubgraph m = false → (∀ v ∈ vertexOf m args, subgraphKey c v ∉ K) →
    ∃ r : Except String m.ret.Value, ((ProviderHandler.call rounds env m args).run s).1 =
      r.mapError (fun what => .fault (.exception what)) ∧ AnswerFits r

end Answers

/-! ### One call -/

namespace ProviderState

variable {s : ProviderState c} {S : RemoteStore c} {v : UInt32}

theorem Provides.holds_storage (h : s.Provides S) (hv : subgraphKey c v ∈ S.attached) :
    (s.storage v).HoldsLists (subgraphKey c v) S.lists := by
  have hholds := h.serves.holds _ hv
  rwa [path_subgraphKey] at hholds

/-- The list that a vertex has in the files is the one of the store. -/
theorem Provides.list_eq (h : s.Provides S) (hv : subgraphKey c v ∈ S.attached) {l : List UInt32}
    (hl : ReadsList (s.storage v) v l) : l = S.lists.list v :=
  (h.holds_storage hv).list_eq rfl hl

/-- The files of an attached subgraph are written. -/
theorem Provides.setStorage (h : s.Provides S) (hv : subgraphKey c v ∈ S.attached)
    {t : Storage c (Overflow c)} {L : ListStore c.blockSz}
    (ht : t.HoldsLists (subgraphKey c v) L) (hother : ∀ w, subgraphKey c w ≠ subgraphKey c v →
      L.list w = S.lists.list w ∧ L.given w = S.lists.given w) :
    (s.setStorage v t).Provides { S with lists := L } := by
  have hmap : s.set.subgraphMap (subgraphKey c v) ≠ none := by
    rw [h.serves.attached _ hv]
    exact Option.some_ne_none _
  exact ⟨h.serves.setStorage ht hother, h.offers.setStorage hmap hother⟩

/-- A call returns a result or throws an exception, and the lists afterwards are as `Q` says. -/
def Performs (s : ProviderState c) (S : RemoteStore c) {u : FieldType} (p : ProviderM c u.Value)
    (Q : Except String u.Value → ListStore c.blockSz → Prop) : Prop :=
  ∃ r s' L', p.run s = (r.mapError fun what => .fault (.exception what), s') ∧ AnswerFits r ∧
    Q r L' ∧ s'.Provides { S with lists := L' }

section Calls

/-- A call that only reads the lists. -/
theorem Provides.onSubgraph_read {α : Type} {p : StorageM c (Overflow c) α}
    {q : StorageM c AllMapped α} {r : Except Fault α} (h : s.Provides S)
    (hv : subgraphKey c v ∈ S.attached)
    (hrel : Rel Sim p q (fun x y s t => x = y ∧ Sim s t) NotStale)
    (hq : ∀ t : FlatStorage c, t.Holds (subgraphKey c v) S.lists → q.run t = (r, t)) :
    ∃ s', (onSubgraph v p).run s = (r.mapError .fault, s') ∧ s'.Provides S := by
  obtain ⟨t, hp, ht⟩ := (h.holds_storage hv).run_of_rel hrel hq
  exact ⟨s.setStorage v t, h.serves.onSubgraph_run hv hp,
    h.setStorage hv ht fun _ _ => ⟨rfl, rfl⟩⟩

theorem Provides.number (h : s.Provides S) {vtxno : Int32}
    (hv : subgraphKey c vtxno.toUInt32 ∈ S.attached)
    {get : UInt32 → StorageM c (Overflow c) UInt32} {n : UInt32} (f : Vertex → UInt32)
    (hget : get vtxno.toUInt32 = do
      let vtx ← getVertex vtxno.toUInt32
      let w ← readVertex vtx
      pure (f w))
    (hf : ∀ t : FlatStorage c, t.Holds (subgraphKey c vtxno.toUInt32) S.lists →
      (getVertex vtxno.toUInt32 >>= fun vtx => readVertex vtx >>= fun w => pure (f w)).run t =
        (.ok n, t)) :
    s.Performs S (u := .i32) (ProviderHandler.number vtxno get) fun r L' =>
      r = .ok n.toInt32 ∧ L' = S.lists := by
  obtain ⟨s', hrun, hs'⟩ := h.onSubgraph_read hv (vertexField_rel f _) hf
  refine ⟨.ok n.toInt32, s', S.lists, ?_, trivial, ⟨rfl, rfl⟩, hs'⟩
  rw [ProviderHandler.number, hget, Prog.run_bind_of_ok hrun, Prog.run_pure]
  rfl

theorem Provides.readn (h : s.Provides S) {vtxno blkno : Int32}
    (hv : subgraphKey c vtxno.toUInt32 ∈ S.attached)
    (hb : blkno.toUInt32 ∈ S.lists.list vtxno.toUInt32)
    {rounds : ℕ} (hrounds : (S.lists.list vtxno.toUInt32).length < rounds)
    (hfits : SizeFits c.blockSz.bytes) (n : Int32) :
    s.Performs S (u := .listByte) (do
        let blks ← ended (onSubgraph vtxno.toUInt32
          (Nynn.readn rounds vtxno.toUInt32 blkno.toUInt32 n))
        pure (blks.flatMap Block.toVector)) fun r L' =>
      L' = S.lists ∧ r = if n.toInt < 0 then .error "vector::reserve"
        else if n.toInt = 0 then .ok []
        else .ok (S.lists.block vtxno.toUInt32 (S.lists.tailBlkno vtxno.toUInt32)).toVector := by
  have hrel := readn_rel (c := c) rounds vtxno.toUInt32 blkno.toUInt32 n
  rcases lt_trichotomy n.toInt 0 with hn | hn | hn
  · obtain ⟨s', hrun, hs'⟩ := h.onSubgraph_read hv hrel fun t _ => readn_run_of_neg hn rounds
    refine ⟨.error "vector::reserve", s', S.lists, ?_, ?_, ⟨rfl, (if_pos hn).symm⟩, hs'⟩
    · rw [ended, Prog.bind_assoc, Prog.run_bind_of_error hrun]
      rfl
    · change SizeFits "vector::reserve".utf8ByteSize
      decide
  · obtain ⟨s', hrun, hs'⟩ := h.onSubgraph_read hv hrel fun t _ =>
      readn_run_of_zero hn (Nat.zero_lt_of_lt hrounds)
    refine ⟨.ok [], s', S.lists, ?_, Nat.two_pow_pos 31, ⟨rfl, ?_⟩, hs'⟩
    · rw [ended, Prog.bind_assoc, Prog.run_bind_of_ok hrun]
      rfl
    · rw [if_neg hn.not_lt, if_pos hn]
  · obtain ⟨s', hrun, hs'⟩ := h.onSubgraph_read hv hrel fun t ht => ht.readn rfl hb hn hrounds
    refine ⟨.ok (S.lists.block vtxno.toUInt32 (S.lists.tailBlkno vtxno.toUInt32)).toVector, s',
      S.lists, ?_, ?_, ⟨rfl, ?_⟩, hs'⟩
    · rw [ended, Prog.bind_assoc, Prog.run_bind_of_ok hrun]
      dsimp only
      rw [Prog.pure_bind, List.flatMap_singleton]
      rfl
    · change SizeFits (Block.toVector _).length
      rwa [Block.length_toVector]
    · rw [if_neg hn.not_gt, if_neg hn.ne']

/-- An update changes the lists of the store as its name says. -/
theorem Provides.update (h : s.Provides S) {op : ListOp c.blockSz} (disk : CreateOutcome)
    (hkey : subgraphKey c op.vtxno ∈ S.attached) (hallowed : op.Allowed (S.lists.list op.vtxno))
    (hpop : op.NotPopLast (S.lists.list op.vtxno))
    (hsafe : ∀ b ∈ op.released (s.storage op.vtxno), ReleaseSafe (s.storage op.vtxno) b)
    (hreq : op.newBlk.isSome = true →
      ∃ b t, (require disk).run (s.storage op.vtxno) = (.ok b, t)) :
    ∃ x t, (op.run disk).run (s.storage op.vtxno) = (.ok (op.newBlk.map fun _ => x), t) ∧
      (s.setStorage op.vtxno t).Provides { S with lists := S.lists.update op x } ∧
      (op.newBlk.isSome = true → x ≠ invalidBlkno ∧
        ∀ v, subgraphKey c v = subgraphKey c op.vtxno → x ∉ S.lists.list v) := by
  obtain ⟨x, t, hrun, hholds, hfresh⟩ :=
    (h.holds_storage hkey).run rfl hallowed hpop hsafe hreq
  have hother : ∀ w, subgraphKey c w ≠ subgraphKey c op.vtxno →
      (S.lists.update op x).list w = S.lists.list w ∧
        (S.lists.update op x).given w = S.lists.given w := fun w hw => by
    have hne : w ≠ op.vtxno := fun he => hw (he ▸ rfl)
    exact ⟨ListStore.list_update_of_ne hne, ListStore.given_update_of_ne hne⟩
  exact ⟨x, t, hrun, h.setStorage hkey hholds hother, hfresh⟩

/-- An insertion of the block at the beginning of a vector. -/
theorem Provides.inserted (h : s.Provides S) (disk : CreateOutcome) (vtxno : Int32)
    (xblk : List Int8) (insert : UInt32 → Block c.blockSz → StorageM c (Overflow c) UInt32)
    (op : Block c.blockSz → ListOp c.blockSz)
    (hvtxno : ∀ blk, (op blk).vtxno = vtxno.toUInt32) (hnew : ∀ blk, (op blk).newBlk = some blk)
    (hinsert : ∀ blk, (op blk).run disk = do
      let no ← insert vtxno.toUInt32 blk
      pure (some no))
    (hkey : subgraphKey c vtxno.toUInt32 ∈ S.attached)
    (hallows : ∃ op' ∈ (blockAt c.blockSz xblk).map op, op'.Allowed (S.lists.list vtxno.toUInt32) ∧
      op'.NotPopLast (S.lists.list vtxno.toUInt32))
    (hgrows : ∀ op' ∈ (blockAt c.blockSz xblk).map op, subgraphKey c op'.vtxno ∈ S.attached →
      op'.newBlk.isSome = true → ∃ b t, (require disk).run (s.storage op'.vtxno) = (.ok b, t))
    (hsafe : ∀ op' ∈ (blockAt c.blockSz xblk).map op, subgraphKey c op'.vtxno ∈ S.attached →
      ∀ b ∈ op'.released (s.storage op'.vtxno), ReleaseSafe (s.storage op'.vtxno) b) :
    s.Performs S (u := .i32) (ProviderHandler.inserted vtxno xblk insert)
      (Inserts S.lists ((blockAt c.blockSz xblk).map op)) := by
  obtain ⟨_, hop, hallowed, hpop⟩ := hallows
  have hmap := hop
  rw [Option.mem_def, Option.map_eq_some_iff] at hmap
  obtain ⟨blk, hblk, rfl⟩ := hmap
  rw [← hvtxno blk] at hkey hallowed hpop
  have hsome : (op blk).newBlk.isSome = true := by rw [hnew, Option.isSome_some]
  obtain ⟨x, t, hrun, hserves, hfresh⟩ :=
    h.update disk hkey hallowed hpop (hsafe _ hop hkey) (hgrows _ hop hkey)
  rw [hnew, hinsert] at hrun
  obtain ⟨no, t', hins, hno⟩ := Prog.of_bind_eq_ok hrun
  obtain ⟨rfl, rfl⟩ : no = x ∧ t' = t := by simpa using hno
  rw [hvtxno] at hkey hins hserves
  refine ⟨.ok no.toInt32, _, _, ?_, trivial, ⟨op blk, hop, no, rfl, rfl, hfresh hsome⟩, hserves⟩
  rw [ProviderHandler.inserted, hblk, Prog.run_bind_of_ok (h.serves.onSubgraph_run hkey hins),
    Prog.run_pure]
  rfl

theorem Provides.removed (h : s.Provides S) (vtxno : Int32)
    (remove : UInt32 → StorageM c (Overflow c) Unit) (op : ListOp c.blockSz)
    (hvtxno : op.vtxno = vtxno.toUInt32) (hnew : op.newBlk = none)
    (hremove : op.run .ok = do
      remove vtxno.toUInt32
      pure none)
    (hkey : subgraphKey c vtxno.toUInt32 ∈ S.attached)
    (hallows : ∃ op' ∈ some op, op'.Allowed (S.lists.list vtxno.toUInt32) ∧
      op'.NotPopLast (S.lists.list vtxno.toUInt32))
    (hsafe : ∀ op' ∈ some op, subgraphKey c op'.vtxno ∈ S.attached →
      ∀ b ∈ op'.released (s.storage op'.vtxno), ReleaseSafe (s.storage op'.vtxno) b) :
    s.Performs S (u := .bool) (ProviderHandler.removed vtxno remove)
      (Removes S.lists (some op)) := by
  obtain ⟨op', hop, hallowed, hpop⟩ := hallows
  obtain rfl : op = op' := Option.some.inj hop
  rw [← hvtxno] at hkey hallowed hpop
  have hnone : op.newBlk.isSome = true → ∃ b t, (require .ok).run (s.storage op.vtxno) =
      (.ok b, t) := fun hsome => by
    rw [hnew, Option.isSome_none] at hsome
    cases hsome
  obtain ⟨x, t, hrun, hserves, -⟩ :=
    h.update .ok hkey hallowed hpop (hsafe _ rfl hkey) hnone
  rw [hnew, hremove] at hrun
  obtain ⟨u, t', hrem, hno⟩ := Prog.of_bind_eq_ok hrun
  obtain rfl : t' = t := by simpa using hno
  rw [hvtxno] at hkey hrem hserves
  refine ⟨.ok true, _, _, ?_, trivial,
    ⟨op, hop, rfl, ListStore.update_eq_of_newBlk_none hnew x invalidBlkno⟩, hserves⟩
  simp only [ProviderHandler.removed, caught, h.serves.onSubgraph_run hkey hrem]
  rfl

end Calls

section Call

variable {m : ProviderMethod} {args : TProtocol.Values m.params} {rounds : ℕ} {env : CallEnv}

/-- Calls to other subgraphs and calls for no vertex do nothing. -/
theorem preserves_call (hm : handlesSubgraph m = false)
    (hv : ∀ v ∈ vertexOf m args, subgraphKey c v ∉ S.attached) :
    Preserves (Provides (c := c) · S) (ProviderHandler.call rounds env m args) := by
  have hread : ∀ {α : Type} {v : UInt32} (p : StorageM c (Overflow c) α), vertexOf m args = some v →
      Preserves (Provides (c := c) · S) (onSubgraph v p) := fun p hmem s hs =>
    ⟨Serves.preserves_onSubgraph (hv _ hmem) s hs.serves,
      hs.offers.preserves_onSubgraph hs.serves.coherent p⟩
  cases m with
  | createSubgraph | destroySubgraph | attachSubgraph | detachSubgraph => cases hm
  | getSubgraphKeys => exact .bind .get fun _ => .pure _
  | getWidthOfVertexInterval => exact .pure _
  | lock => exact .pure _
  | unlock => exact preserves_caught (.ite (.pure _) (.fail _))
  | getSize | getHeadBlkno | getTailBlkno => exact .bind (hread _ rfl) fun _ => .pure _
  | readAllBlknos => exact .bind (preserves_ended (hread _ rfl)) fun _ => .pure _
  | read => exact .bind (hread _ rfl) fun _ => .pure _
  | readn => exact .bind (preserves_ended (hread _ rfl)) fun _ => .pure _
  | insertPrev | insertNext | unshift | push => exact .bind (hread _ rfl) fun _ => .pure _
  | remove | shift | pop => exact preserves_caught (hread _ rfl)

/-- A call to a subgraph that is served is answered by the store. -/
theorem Provides.call_of_mem (h : s.Provides S)
    (hadm : Admissible S.attached rounds env s m args)
    (hrounds : SizeFits rounds) (hblk : SizeFits c.blockSz.bytes) (hv : v ∈ vertexOf m args)
    (hkey : subgraphKey c v ∈ S.attached) :
    s.Performs S (ProviderHandler.call rounds env m args) (Answers S.lists m args) := by
  obtain ⟨l, hl, hallows⟩ := hadm.allows v hv hkey
  obtain rfl := h.list_eq hkey hl
  have hfits : ∀ blk : Block c.blockSz, SizeFits blk.toVector.length := fun blk => by
    rwa [Block.length_toVector]
  cases m with
  | getSize =>
    obtain rfl := Option.some.inj hv
    exact h.number hkey Vertex.size rfl fun t ht => ht.getSize rfl
  | getHeadBlkno =>
    obtain rfl := Option.some.inj hv
    exact h.number hkey Vertex.headBlkno rfl fun t ht => ht.getHeadBlkno rfl
  | getTailBlkno =>
    obtain rfl := Option.some.inj hv
    exact h.number hkey Vertex.tailBlkno rfl fun t ht => ht.getTailBlkno rfl
  | readAllBlknos =>
    obtain rfl := Option.some.inj hv
    obtain ⟨s', hrun, hs'⟩ := h.onSubgraph_read hkey (readAllBlknos_rel rounds _) fun t ht =>
      ht.readAllBlknos rfl hallows
    refine ⟨.ok _, s', S.lists, ?_, ?_, ⟨rfl, rfl⟩, hs'⟩
    · rw [ProviderHandler.call, ended, Prog.bind_assoc, Prog.run_bind_of_ok hrun]
      rfl
    · change SizeFits (List.map _ _).length
      rw [List.length_map]
      exact lt_trans hallows hrounds
  | read =>
    obtain rfl := Option.some.inj hv
    obtain ⟨s', hrun, hs'⟩ := h.onSubgraph_read hkey (read_rel _ _) fun t ht => ht.read rfl hallows
    exact ⟨.ok _, s', S.lists, Prog.run_bind_of_ok hrun, hfits _, ⟨rfl, rfl⟩, hs'⟩
  | readn =>
    obtain rfl := Option.some.inj hv
    exact h.readn hkey hallows.1 hallows.2 hblk _
  | insertPrev =>
    obtain rfl := Option.some.inj hv
    exact h.inserted env.disk (args ⟨0, first_of_three⟩) (args ⟨2, third_of_three⟩)
      (fun vtxno blk =>
        insertPrev env.disk vtxno (args ⟨1, second_of_three⟩).toUInt32 blk)
      (.insertPrev (args ⟨0, first_of_three⟩).toUInt32
        (args ⟨1, second_of_three⟩).toUInt32)
      (fun _ => rfl) (fun _ => rfl) (fun _ => rfl) hkey hallows hadm.grows
      hadm.safe
  | insertNext =>
    obtain rfl := Option.some.inj hv
    exact h.inserted env.disk (args ⟨0, first_of_three⟩) (args ⟨2, third_of_three⟩)
      (fun vtxno blk =>
        insertNext env.disk vtxno (args ⟨1, second_of_three⟩).toUInt32 blk)
      (.insertNext (args ⟨0, first_of_three⟩).toUInt32
        (args ⟨1, second_of_three⟩).toUInt32)
      (fun _ => rfl) (fun _ => rfl) (fun _ => rfl) hkey hallows hadm.grows
      hadm.safe
  | unshift =>
    obtain rfl := Option.some.inj hv
    exact h.inserted env.disk (args ⟨0, Nat.zero_lt_two⟩) (args ⟨1, Nat.one_lt_two⟩)
      (unshift env.disk)
      (.unshift (args ⟨0, Nat.zero_lt_two⟩).toUInt32)
      (fun _ => rfl) (fun _ => rfl) (fun _ => rfl) hkey hallows hadm.grows
      hadm.safe
  | push =>
    obtain rfl := Option.some.inj hv
    exact h.inserted env.disk (args ⟨0, Nat.zero_lt_two⟩) (args ⟨1, Nat.one_lt_two⟩)
      (push env.disk)
      (.push (args ⟨0, Nat.zero_lt_two⟩).toUInt32)
      (fun _ => rfl) (fun _ => rfl) (fun _ => rfl) hkey hallows hadm.grows
      hadm.safe
  | remove =>
    obtain rfl := Option.some.inj hv
    exact h.removed (args ⟨0, Nat.zero_lt_two⟩)
      (fun vtxno => Nynn.remove vtxno (args ⟨1, Nat.one_lt_two⟩).toUInt32)
      (.remove (args ⟨0, Nat.zero_lt_two⟩).toUInt32 (args ⟨1, Nat.one_lt_two⟩).toUInt32)
      rfl rfl rfl hkey hallows hadm.safe
  | shift =>
    obtain rfl := Option.some.inj hv
    exact h.removed (args ⟨0, Nat.zero_lt_one⟩) shift
      (.shift (args ⟨0, Nat.zero_lt_one⟩).toUInt32) rfl rfl rfl hkey hallows hadm.safe
  | pop =>
    obtain rfl := Option.some.inj hv
    exact h.removed (args ⟨0, Nat.zero_lt_one⟩) pop
      (.pop (args ⟨0, Nat.zero_lt_one⟩).toUInt32) rfl rfl rfl hkey hallows hadm.safe
  | _ => cases hv

private theorem caught_returns {p : ProviderM c Unit} {s s' : ProviderState c}
    {r : Except CallFault Unit} (hrun : p.run s = (r, s'))
    (hr : r = .ok () ∨ ∃ what, r = .error (.fault (.exception what))) :
    ∃ r : Except String (FieldType.Value .bool), ((caught p).run s).1 =
      r.mapError (fun what => .fault (.exception what)) ∧ AnswerFits r := by
  rcases hr with rfl | ⟨what, rfl⟩
  · exact ⟨.ok true, by simp only [caught, hrun]; rfl, trivial⟩
  · exact ⟨.ok false, by simp only [caught, hrun]; rfl, trivial⟩

/-- A call that handles a subgraph returns. -/
theorem returns_of_handlesSubgraph (hm : handlesSubgraph m = true) (rounds : ℕ) (env : CallEnv)
    (args : TProtocol.Values m.params) (s : ProviderState c) :
    ∃ r : Except String m.ret.Value, ((ProviderHandler.call rounds env m args).run s).1 =
      r.mapError (fun what => .fault (.exception what)) ∧ AnswerFits r := by
  cases m with
  | createSubgraph =>
    rcases hrun : (ProviderHandler.createSubgraph env.create
      (args ⟨0, Nat.zero_lt_one⟩ : Int32).toUInt32).run s with ⟨r, s'⟩
    refine caught_returns hrun ?_
    obtain ⟨set, -, ⟨hr, -⟩ | ⟨-, -, t, ⟨hr, -⟩ | hr, -⟩⟩ := createSubgraph_cases hrun
    · exact Or.inr hr
    · exact Or.inl hr
    · exact Or.inr hr
  | destroySubgraph =>
    rcases hrun : (ProviderHandler.destroySubgraph env
      (args ⟨0, Nat.zero_lt_one⟩ : Int32).toUInt32).run s with ⟨r, s'⟩
    refine caught_returns hrun ?_
    rcases destroySubgraph_cases hrun with ⟨hr, -⟩ | ⟨hr, -⟩
    · exact Or.inl hr
    · exact Or.inr hr
  | attachSubgraph =>
    rcases hrun : (ProviderHandler.attachSubgraph env.attach
      (args ⟨0, Nat.zero_lt_one⟩ : Int32).toUInt32).run s with ⟨r, s'⟩
    refine caught_returns hrun ?_
    rcases attachSubgraph_cases hrun with ⟨-, hr, -⟩ | ⟨-, hr, -⟩ | ⟨-, hr, -⟩
    · exact Or.inl hr
    · exact Or.inl hr
    · exact Or.inr hr
  | detachSubgraph =>
    rcases hrun : (onSet (c := c) (detachSubgraph
      (args ⟨0, Nat.zero_lt_one⟩ : Int32).toUInt32)).run s with ⟨r, s'⟩
    refine caught_returns hrun ?_
    simp only [onSet, detachSubgraph, Prog.run_get_bind] at hrun
    split_ifs at hrun
    · exact Or.inl (Prod.mk.inj hrun).1.symm
    · exact Or.inr ⟨_, (Prod.mk.inj hrun).1.symm⟩
  | _ => cases hm

/-- A call that handles no subgraph. -/
theorem Provides.call_lists (h : s.Provides S) (hadm : Admissible S.attached rounds env s m args)
    (hrounds : SizeFits rounds) (hblk : SizeFits c.blockSz.bytes) (hm : handlesSubgraph m = false) :
    s.Performs S (ProviderHandler.call rounds env m args) fun r L' =>
      ((∃ v ∈ vertexOf m args, subgraphKey c v ∈ S.attached) → Nynn.Answers S.lists m args r L') ∧
      ((∀ v ∈ vertexOf m args, subgraphKey c v ∉ S.attached) → L' = S.lists) := by
  by_cases hmem : ∃ v ∈ vertexOf m args, subgraphKey c v ∈ S.attached
  · obtain ⟨v, hv, hkey⟩ := hmem
    obtain ⟨r, s', L', hrun, hfits, hanswers, hprovides⟩ := h.call_of_mem hadm hrounds hblk hv hkey
    exact ⟨r, s', L', hrun, hfits, ⟨fun _ => hanswers, fun hnot => absurd hkey (hnot v hv)⟩,
      hprovides⟩
  · have hnot : ∀ v ∈ vertexOf m args, subgraphKey c v ∉ S.attached := fun v hv hkey =>
      hmem ⟨v, hv, hkey⟩
    obtain ⟨r, hr, hfits⟩ := hadm.returns hm hnot
    exact ⟨r, _, S.lists, Prod.ext hr rfl, hfits, ⟨fun h => absurd h hmem, fun _ => rfl⟩,
      preserves_call hm hnot s h⟩

/-- **One call** to a provider. -/
theorem Provides.call (h : s.Provides S) (halign : c.overflowBlknoMin.toNat % c.groupSize = 0)
    (hadm : Admissible S.attached rounds env s m args) (hrounds : SizeFits rounds)
    (hblk : SizeFits c.blockSz.bytes) :
    ∃ (r : Except String m.ret.Value) (s' : ProviderState c) (S' : RemoteStore c),
      (ProviderHandler.call rounds env m args).run s =
        (r.mapError fun what => .fault (.exception what), s') ∧
      AnswerFits r ∧ S.Answers m args r S' ∧ s'.Provides S' := by
  by_cases hm : handlesSubgraph m = false
  · obtain ⟨r, s', L', hrun, hfits, hanswers, hprovides⟩ := h.call_lists hadm hrounds hblk hm
    refine ⟨r, s', _, hrun, hfits, ?_, hprovides⟩
    cases m with
    | createSubgraph | destroySubgraph | attachSubgraph | detachSubgraph => cases hm
    | _ => exact ⟨rfl, hanswers⟩
  rcases hrun : (ProviderHandler.call rounds env m args).run s with ⟨r₀, s'⟩
  obtain ⟨r, hr, hfits⟩ : ∃ r : Except String m.ret.Value,
      r₀ = r.mapError (fun what => .fault (.exception what)) ∧ AnswerFits r := by
    have hreturns := returns_of_handlesSubgraph (Bool.eq_true_of_not_eq_false hm) rounds env args s
    rwa [hrun] at hreturns
  suffices hsuff : ∃ S', S.Answers m args r S' ∧ s'.Provides S' by
    obtain ⟨S', hanswers, hprovides⟩ := hsuff
    exact ⟨r, s', S', by rw [hr], hfits, hanswers, hprovides⟩
  cases m with
  | createSubgraph =>
    obtain ⟨r', hrun', hok⟩ := caught_cases hrun
    obtain ⟨hsame, hcreate⟩ := h.create halign hrun'
    have htrue : r = .ok true → r' = .ok () := fun htrue => hok.mp (by rw [hr, htrue]; rfl)
    by_cases hnew : r = .ok true ∧
        subgraphKey c (args ⟨0, Nat.zero_lt_one⟩).toUInt32 ∈ S.fresh
    · exact ⟨_, ⟨fun _ => rfl, fun hnot => absurd hnew hnot⟩, hcreate ⟨htrue hnew.1, hnew.2⟩⟩
    · exact ⟨S, ⟨fun h => absurd h hnew, fun _ => rfl⟩, hsame⟩
  | destroySubgraph =>
    obtain ⟨r', hrun', -⟩ := caught_cases hrun
    exact ⟨_, rfl, h.destroy hrun'⟩
  | attachSubgraph =>
    obtain ⟨r', hrun', hok⟩ := caught_cases hrun
    obtain ⟨hspend, hattach⟩ := h.attach hrun'
    have htrue : r = .ok true → r' = .ok () := fun htrue => hok.mp (by rw [hr, htrue]; rfl)
    by_cases hnew : r = .ok true ∧ (args ⟨0, Nat.zero_lt_one⟩ : Int32).toUInt32 ∈ S.created
    · exact ⟨_, ⟨fun _ => rfl, fun hnot => absurd hnew hnot⟩, hattach ⟨htrue hnew.1, hnew.2⟩⟩
    · exact ⟨_, ⟨fun h => absurd h hnew, fun _ => rfl⟩, hspend⟩
  | detachSubgraph =>
    obtain ⟨r', hrun', -⟩ := caught_cases hrun
    exact ⟨_, rfl, h.detach hrun'⟩
  | _ => exact absurd rfl hm

end Call

end ProviderState

end Nynn
