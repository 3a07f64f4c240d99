import Nynn.Cache.Ownership
import Nynn.Library.Transition

/-!
# Calls of the cache that interleave

A call enters the monitor of its bucket, searches its key, takes a free entry when it has to cache
a new block in a bucket with room, brings the entry to the front and copies the block. Calls under
one monitor exclude each other; calls under different monitors interleave between these steps, and
the free list, which they share, changes in one step. A sequential call is the run of its steps.

Source: `nynn_mm_graph_cache.h`.

## Main definitions

* `Nynn.InFlight`: where a call is; `Nynn.InFlight.advance`: its next step.
* `Nynn.CacheStep`: the steps of the cache with any calls in flight.

## Main results

* `Nynn.GraphCache.read_eq`, `Nynn.GraphCache.write_eq`: a call is the run of its steps.
* `Nynn.InFlight.advance_run`: a step of a call succeeds and only uses its bucket.
* `Nynn.cacheRun_invariant`: the entries stay partitioned and no assertion fails in any run.
-/

namespace Nynn

open Program LinkedRing Transition

variable {c : CacheConfig} {z : BlockSz}

/-- A call of the cache. -/
inductive CacheCall (z : BlockSz)
  | read (vtxno blkno : UInt32)
  | write (vtxno blkno : UInt32) (blk : Block z)

/-- A call that has entered its monitor and searched its key. -/
inductive InFlight (z : BlockSz)
  /-- A read whose search ended at `curr`. -/
  | reading (vtxno blkno curr : UInt32)
  /-- A read that has moved `curr` to the front. -/
  | copying (vtxno blkno curr : UInt32)
  /-- A write whose search ended at `curr`. -/
  | writing (vtxno blkno : UInt32) (blk : Block z) (curr : UInt32)
  /-- A write that takes a free entry. -/
  | popping (vtxno blkno : UInt32) (blk : Block z)
  /-- A write that has taken the free entry `curr`. -/
  | pushing (vtxno blkno : UInt32) (blk : Block z) (curr : UInt32)
  /-- A write that has brought `curr` to the front. -/
  | filling (vtxno blkno : UInt32) (blk : Block z) (curr : UInt32)

/-- The bucket of a call. -/
def CacheCall.bucket (c : CacheConfig) : CacheCall z → c.Head
  | .read vtxno blkno => c.hash vtxno blkno
  | .write vtxno blkno _ => c.hash vtxno blkno

/-- The key of the call is a vertex number and a block number. -/
def CacheCall.Valid : CacheCall z → Prop
  | .read vtxno blkno => vtxno ≠ invalidVertexno ∧ blkno ≠ invalidBlkno
  | .write vtxno blkno _ => vtxno ≠ invalidVertexno ∧ blkno ≠ invalidBlkno

/-- The call enters: its key is checked and searched. -/
def CacheCall.enter : CacheCall z → Prog (GraphCache c z) CacheFault (InFlight z)
  | .read vtxno blkno => do
    GraphCache.checkKey vtxno blkno
    let curr ← GraphCache.find (c.hash vtxno blkno) vtxno blkno
    pure (.reading vtxno blkno curr)
  | .write vtxno blkno blk => do
    GraphCache.checkKey vtxno blkno
    let curr ← GraphCache.find (c.hash vtxno blkno) vtxno blkno
    pure (.writing vtxno blkno blk curr)

namespace InFlight

/-- The bucket of a call. -/
def bucket (c : CacheConfig) : InFlight z → c.Head
  | .reading vtxno blkno _ => c.hash vtxno blkno
  | .copying vtxno blkno _ => c.hash vtxno blkno
  | .writing vtxno blkno _ _ => c.hash vtxno blkno
  | .popping vtxno blkno _ => c.hash vtxno blkno
  | .pushing vtxno blkno _ _ => c.hash vtxno blkno
  | .filling vtxno blkno _ _ => c.hash vtxno blkno

/-- The next step of a call: it goes on, or it returns what it has read. -/
def advance : InFlight z → Prog (GraphCache c z) CacheFault (InFlight z ⊕ Option (Block z))
  | .reading vtxno blkno curr =>
    if curr = invalidBlkno then pure (.inr none)
    else do
      GraphCache.moveFront (c.hash vtxno blkno) curr
      pure (.inl (.copying vtxno blkno curr))
  | .copying _ _ curr => do
    let blk ← GraphCache.copy curr
    pure (.inr (some blk))
  | .writing vtxno blkno blk curr =>
    if curr = invalidBlkno then do
      let l ← GraphCache.head (c.hash vtxno blkno)
      if l.num < c.lruWindowSize then pure (.inl (.popping vtxno blkno blk))
      else do
        let curr := l.prev
        GraphCache.moveFront (c.hash vtxno blkno) curr
        pure (.inl (.filling vtxno blkno blk curr))
    else do
      GraphCache.moveFront (c.hash vtxno blkno) curr
      pure (.inl (.filling vtxno blkno blk curr))
  | .popping vtxno blkno blk => do
    let curr ← GraphCache.popFreeEntry
    pure (.inl (.pushing vtxno blkno blk curr))
  | .pushing vtxno blkno blk curr => do
    GraphCache.check (curr ≠ invalidBlkno)
    GraphCache.pushFront (c.hash vtxno blkno) curr
    pure (.inl (.filling vtxno blkno blk curr))
  | .filling vtxno blkno blk curr => do
    GraphCache.fill curr vtxno blkno blk
    pure (.inr none)

/-- All steps of a call that are left. -/
def complete : ℕ → InFlight z → Prog (GraphCache c z) CacheFault (Option (Block z))
  | 0, _ => Prog.fail .unending
  | n + 1, f => do
    let next ← f.advance
    match next with
    | .inl f => complete n f
    | .inr r => pure r

end InFlight

/-! ### A call is the run of its steps -/

namespace GraphCache

private theorem bind_ite {α β : Type} {p : Prop} [Decidable p]
    (x y : Prog (GraphCache c z) CacheFault α) (f : α → Prog (GraphCache c z) CacheFault β) :
    (if p then x else y) >>= f = if p then x >>= f else y >>= f := by
  by_cases hp : p
  · rw [if_pos hp, if_pos hp]
  · rw [if_neg hp, if_neg hp]

theorem read_eq (vtxno blkno : UInt32) :
    (read vtxno blkno : Prog (GraphCache c z) CacheFault _) =
      (CacheCall.read vtxno blkno).enter >>= fun f => f.complete 2 := by
  simp only [read, CacheCall.enter, InFlight.complete, InFlight.advance, Prog.bind_assoc,
    Prog.pure_bind, bind_ite]

theorem write_eq (vtxno blkno : UInt32) (blk : Block z) :
    (do write vtxno blkno blk; pure none : Prog (GraphCache c z) CacheFault _) =
      (CacheCall.write vtxno blkno blk).enter >>= fun f => f.complete 4 := by
  simp only [write, CacheCall.enter, InFlight.complete, InFlight.advance, Prog.bind_assoc,
    Prog.pure_bind, bind_ite]

end GraphCache

/-! ### The bucket of a call -/

namespace InFlight

/-- The entry that a call has taken from the free list and not yet put into its bucket. -/
def hand : InFlight z → Option UInt32
  | .pushing _ _ _ curr => some curr
  | _ => none

/-- The entry that still holds an outdated key. -/
def outdated : InFlight z → Option UInt32
  | .filling _ _ _ curr => some curr
  | _ => none

/-- What a call knows about the list of its bucket. -/
def Ready (c : CacheConfig) (l : List UInt32) : InFlight z → Prop
  | .reading _ _ curr => curr = invalidBlkno ∨ curr ∈ l
  | .copying _ _ curr => curr ∈ l
  | .writing _ _ _ curr => curr = invalidBlkno ∨ curr ∈ l
  | .popping _ _ _ => l.length < c.lruWindowSize.toNat
  | .pushing _ _ _ _ => True
  | .filling _ _ _ curr => curr ∈ l

end InFlight

/-- The cache as it is seen from bucket `h` when `o` is the call on it. -/
structure BucketState (s : GraphCache c z) (hand : c.Head → Option UInt32) (free : List UInt32)
    (bucket : c.Head → List UInt32) (owner : UInt32 → Option c.Head) (h : c.Head)
    (o : Option (InFlight z)) : Prop where
  owned : s.Owned hand free bucket owner
  hand_eq : hand h = o.bind InFlight.hand
  /-- Every entry holds a key of the bucket, but for an entry that is about to be overwritten. -/
  hash_key : ∀ i ∈ bucket h, o.bind InFlight.outdated ≠ some i →
    c.hash (s.key i).1 (s.key i).2 = h
  ready : ∀ f ∈ o, f.bucket c = h ∧ f.Ready c (bucket h)

/-- A step leaves the buckets other than `h` alone. -/
structure SameElsewhere (s s' : GraphCache c z) (hand hand' : c.Head → Option UInt32)
    (bucket bucket' : c.Head → List UInt32) (h : c.Head) : Prop where
  hand_eq : ∀ h', h' ≠ h → hand' h' = hand h'
  bucket_eq : ∀ h', h' ≠ h → bucket' h' = bucket h'
  key_eq : ∀ h', h' ≠ h → ∀ i ∈ bucket h', s'.key i = s.key i

section

variable {s s' : GraphCache c z} {hand : c.Head → Option UInt32} {free : List UInt32}
  {bucket : c.Head → List UInt32} {owner : UInt32 → Option c.Head} {h : c.Head}

theorem SameElsewhere.refl (s : GraphCache c z) (hand : c.Head → Option UInt32)
    (bucket : c.Head → List UInt32) (h : c.Head) : SameElsewhere s s hand hand bucket bucket h :=
  ⟨fun _ _ => rfl, fun _ _ => rfl, fun _ _ _ _ => rfl⟩

/-- Moving an entry to the front of the bucket of a call. -/
private theorem BucketState.moveFront {o : Option (InFlight z)} {curr : UInt32}
    (hs : BucketState s hand free bucket owner h o) (hcurr : curr ∈ bucket h)
    (hout : o.bind InFlight.outdated = none) :
    ∃ s' bucket', (GraphCache.moveFront h curr).run s = (.ok (), s') ∧
      s'.Owned hand free bucket' owner ∧ curr ∈ bucket' h ∧ s'.data = s.data ∧
      (∀ i ∈ bucket' h, c.hash (s'.key i).1 (s'.key i).2 = h) ∧
      SameElsewhere s s' hand hand bucket bucket' h := by
  obtain ⟨l₁, l₂, hb⟩ := List.append_of_mem hcurr
  obtain ⟨s', hrun, howned, hdata, hkey⟩ := hs.owned.moveFront hb
  refine ⟨s', _, hrun, howned, ?_, hdata, ?_, fun _ _ => rfl, ?_, fun _ _ i _ => hkey i⟩
  · rw [Function.update_self]
    exact List.mem_cons_self
  · intro i hi
    rw [Function.update_self, ← List.perm_middle.mem_iff, ← hb] at hi
    rw [hkey i]
    exact hs.hash_key i hi (by simp [hout])
  · exact fun h' hh => Function.update_of_ne hh _ _

/-- **One step of a call.** It succeeds, and it only uses the bucket of the call. -/
theorem InFlight.advance_run {f : InFlight z}
    (hs : BucketState s hand free bucket owner h (some f)) :
    ∃ r s' hand' free' bucket' owner', f.advance.run s = (.ok r, s') ∧
      BucketState s' hand' free' bucket' owner' h r.getLeft? ∧
      SameElsewhere s s' hand hand' bucket bucket' h := by
  obtain ⟨hf, hready⟩ := hs.ready f rfl
  cases f with
  | reading vtxno blkno curr =>
    change c.hash vtxno blkno = h at hf
    by_cases hcurr : curr = invalidBlkno
    · refine ⟨.inr none, s, hand, free, bucket, owner, ?_, ⟨hs.owned, hs.hand_eq, ?_, by simp⟩,
        .refl s hand bucket h⟩
      · rw [InFlight.advance, if_pos hcurr]
        rfl
      · exact fun i hi _ => hs.hash_key i hi (by simp [InFlight.outdated])
    · obtain ⟨s', bucket', hrun, howned, hmem, -, hkey, hsame⟩ :=
        hs.moveFront (hready.resolve_left hcurr) rfl
      refine ⟨.inl (.copying vtxno blkno curr), s', hand, free, bucket', owner, ?_,
        ⟨howned, hs.hand_eq, fun i hi _ => hkey i hi, ?_⟩, hsame⟩
      · rw [InFlight.advance, if_neg hcurr, hf, Prog.run_bind_of_ok hrun]
        rfl
      · rintro f ⟨⟩
        exact ⟨hf, hmem⟩
  | copying vtxno blkno curr =>
    refine ⟨.inr (some (s.data curr)), s, hand, free, bucket, owner, ?_,
      ⟨hs.owned, hs.hand_eq, fun i hi _ => hs.hash_key i hi (by simp [InFlight.outdated]), by simp⟩, .refl s hand bucket h⟩
    rw [InFlight.advance,
      Prog.run_bind_of_ok (GraphCache.run_copy (hs.owned.lt_of_mem_bucket hready) s)]
    rfl
  | writing vtxno blkno blk curr =>
    change c.hash vtxno blkno = h at hf
    -- the entry that is brought to the front still has its old key
    have hfront : ∀ curr ∈ bucket h, ∃ s' bucket',
        (GraphCache.moveFront h curr).run s = (.ok (), s') ∧
        BucketState s' hand free bucket' owner h (some (.filling vtxno blkno blk curr)) ∧
        SameElsewhere s s' hand hand bucket bucket' h := by
      intro curr hcurr
      obtain ⟨s', bucket', hrun, howned, hmem, -, hkey, hsame⟩ := hs.moveFront hcurr rfl
      refine ⟨s', bucket', hrun, ⟨howned, hs.hand_eq, fun i hi _ => hkey i hi, ?_⟩, hsame⟩
      rintro f ⟨⟩
      exact ⟨hf, hmem⟩
    by_cases hcurr : curr = invalidBlkno
    · by_cases hroom : (s.lruTable h).num < c.lruWindowSize
      · refine ⟨.inl (.popping vtxno blkno blk), s, hand, free, bucket, owner, ?_,
          ⟨hs.owned, hs.hand_eq, fun i hi _ => hs.hash_key i hi (by simp [InFlight.outdated]), ?_⟩, .refl s hand bucket h⟩
        · rw [InFlight.advance, if_pos hcurr, hf, Prog.run_bind_of_ok (GraphCache.run_head h s),
            if_pos hroom]
          rfl
        · rintro f ⟨⟩
          have hlt := UInt32.lt_iff_toNat_lt.mp hroom
          rw [hs.owned.num h] at hlt
          exact ⟨hf, hlt⟩
      · have hlast : (s.lruTable h).prev ∈ bucket h := by
          obtain ⟨l, hl⟩ := hs.owned.exists_last hroom
          rw [hl]
          exact List.mem_append_right l List.mem_cons_self
        obtain ⟨s', bucket', hrun, hstate, hsame⟩ := hfront _ hlast
        refine ⟨.inl (.filling vtxno blkno blk (s.lruTable h).prev), s', hand, free, bucket', owner,
          ?_, hstate, hsame⟩
        rw [InFlight.advance, if_pos hcurr, hf, Prog.run_bind_of_ok (GraphCache.run_head h s),
          if_neg hroom, Prog.run_bind_of_ok hrun]
        rfl
    · obtain ⟨s', bucket', hrun, hstate, hsame⟩ := hfront curr (hready.resolve_left hcurr)
      refine ⟨.inl (.filling vtxno blkno blk curr), s', hand, free, bucket', owner, ?_, hstate,
        hsame⟩
      rw [InFlight.advance, if_neg hcurr, hf, Prog.run_bind_of_ok hrun]
      rfl
  | popping vtxno blkno blk =>
    obtain ⟨i, s', hrun, hi, howned, -, hentries, -⟩ := hs.owned.popFreeEntry hs.hand_eq hready
    have hkey : ∀ j, s'.key j = s.key j := fun j => by simp [GraphCache.key, hentries]
    refine ⟨.inl (.pushing vtxno blkno blk i), s', _, _, bucket, _, ?_, ⟨howned, ?_, ?_, ?_⟩, ?_⟩
    · rw [InFlight.advance, Prog.run_bind_of_ok hrun]
      rfl
    · rw [Function.update_self]
      rfl
    · exact fun j hj _ => hkey j ▸ hs.hash_key j hj (by simp [InFlight.outdated])
    · rintro f ⟨⟩
      exact ⟨hf, trivial⟩
    · exact ⟨fun h' hh => Function.update_of_ne hh _ _, fun _ _ => rfl, fun _ _ j _ => hkey j⟩
  | pushing vtxno blkno blk curr =>
    change c.hash vtxno blkno = h at hf
    obtain ⟨hlt, howner⟩ := (hs.owned.mem_owned h curr).mp (Or.inr hs.hand_eq)
    obtain ⟨s', hrun, howned, -, hkey⟩ := hs.owned.pushFront hs.hand_eq
    refine ⟨.inl (.filling vtxno blkno blk curr), s', _, free, _, owner, ?_,
      ⟨howned, ?_, ?_, ?_⟩, ?_⟩
    · rw [InFlight.advance,
        Prog.run_bind_of_ok (GraphCache.run_check (GraphCache.ne_invalidBlkno hlt) s), hf,
        Prog.run_bind_of_ok hrun]
      rfl
    · rw [Function.update_self]
      rfl
    · intro i hi hne
      rw [Function.update_self] at hi
      have hold := (List.mem_cons.mp hi).resolve_left fun e => hne (e ▸ rfl)
      exact hkey i ▸ hs.hash_key i hold (by simp [InFlight.outdated])
    · rintro f ⟨⟩
      refine ⟨hf, ?_⟩
      change curr ∈ Function.update bucket h (curr :: bucket h) h
      rw [Function.update_self]
      exact List.mem_cons_self
    · exact ⟨fun h' hh => Function.update_of_ne hh _ _, fun h' hh => Function.update_of_ne hh _ _,
        fun _ _ i _ => hkey i⟩
  | filling vtxno blkno blk curr =>
    change c.hash vtxno blkno = h at hf
    have hmem : curr ∈ bucket h := hready
    obtain ⟨s', hrun, howned, -, hkey⟩ :=
      hs.owned.fill (hs.owned.lt_of_mem_bucket hmem) vtxno blkno blk
    refine ⟨.inr none, s', hand, free, bucket, owner, ?_, ⟨howned, hs.hand_eq, ?_, by simp⟩,
      fun _ _ => rfl, fun _ _ => rfl, ?_⟩
    · rw [InFlight.advance, Prog.run_bind_of_ok hrun]
      rfl
    · intro i hi _
      by_cases hic : i = curr
      · rw [hkey, hic, Function.update_self]
        exact hf
      · rw [hkey, Function.update_of_ne hic]
        exact hs.hash_key i hi fun e => hic (Option.some.inj e).symm
    · intro h' hh i hi
      have hic : i ≠ curr := by
        rintro rfl
        exact hh (Option.some.inj ((hs.owned.owner_of_mem_bucket hi).symm.trans
          (hs.owned.owner_of_mem_bucket hmem)))
      rw [hkey, Function.update_of_ne hic]

/-- The assertions at the start of a call pass for valid keys only. -/
theorem CacheCall.valid_of_enter {call : CacheCall z} {f : InFlight z}
    (hrun : call.enter.run s = (.ok f, s')) : call.Valid := by
  have hcheck : ∀ {vtxno blkno : UInt32} {s₁ : GraphCache c z},
      (GraphCache.checkKey vtxno blkno).run s = (.ok (), s₁) →
        vtxno ≠ invalidVertexno ∧ blkno ≠ invalidBlkno := by
    intro vtxno blkno s₁ h
    by_contra hk
    rw [not_and_or, not_not, not_not] at hk
    rcases hk with rfl | rfl
    · simp [GraphCache.checkKey, GraphCache.check] at h
    · by_cases hv : vtxno = invalidVertexno <;>
        simp [GraphCache.checkKey, GraphCache.check, hv] at h
  cases call with
  | read vtxno blkno =>
    obtain ⟨_, s₁, hk, -⟩ := Prog.of_bind_eq_ok hrun
    exact hcheck hk
  | write vtxno blkno blk =>
    obtain ⟨_, s₁, hk, -⟩ := Prog.of_bind_eq_ok hrun
    exact hcheck hk

/-- **A call enters.** The key of the call is valid, and the search succeeds. -/
theorem CacheCall.enter_run {call : CacheCall z} (hvalid : call.Valid) (hh : call.bucket c = h)
    (hs : BucketState s hand free bucket owner h none) :
    ∃ f, call.enter.run s = (.ok f, s) ∧ BucketState s hand free bucket owner h (some f) := by
  have hlt : ∀ i ∈ bucket h, i < c.cacheBlockNum := fun i => hs.owned.lt_of_mem_bucket
  have hfind := fun vtxno blkno => GraphCache.find_run (hs.owned.linked h) hlt
    (hs.owned.length_bucket_le_cacheBlockNum h) vtxno blkno
  have hready : ∀ k, s.firstMatch (bucket h) k = invalidBlkno ∨
      s.firstMatch (bucket h) k ∈ bucket h := fun k =>
    or_iff_not_imp_left.mpr fun hne => (GraphCache.firstMatch_mem hne).1
  cases call with
  | read vtxno blkno =>
    change c.hash vtxno blkno = h at hh
    refine ⟨.reading vtxno blkno (s.firstMatch (bucket h) (vtxno, blkno)), ?_, hs.owned,
      hs.hand_eq, fun i hi _ => hs.hash_key i hi nofun, ?_⟩
    · rw [CacheCall.enter, Prog.run_bind_of_ok (GraphCache.run_checkKey hvalid s), hh,
        Prog.run_bind_of_ok (hfind vtxno blkno)]
      rfl
    · rintro f ⟨⟩
      exact ⟨hh, hready _⟩
  | write vtxno blkno blk =>
    change c.hash vtxno blkno = h at hh
    refine ⟨.writing vtxno blkno blk (s.firstMatch (bucket h) (vtxno, blkno)), ?_, hs.owned,
      hs.hand_eq, fun i hi _ => hs.hash_key i hi nofun, ?_⟩
    · rw [CacheCall.enter, Prog.run_bind_of_ok (GraphCache.run_checkKey hvalid s), hh,
        Prog.run_bind_of_ok (hfind vtxno blkno)]
      rfl
    · rintro f ⟨⟩
      exact ⟨hh, hready _⟩

end

/-! ### The cache with calls in flight -/

/-- The cache and the call in every monitor. -/
structure CacheSystem (c : CacheConfig) (z : BlockSz) where
  cache : GraphCache c z
  calls : Fin c.monitorNum.toNat → Option (InFlight z)

/-- A call enters, or the call in a monitor makes a step. -/
inductive CacheAction (c : CacheConfig) (z : BlockSz)
  | enter (call : CacheCall z)
  | advance (m : Fin c.monitorNum.toNat)

/-- The steps of the system. A call enters when no call is in its monitor, and it leaves the monitor
when it returns. -/
inductive CacheStep : CacheSystem c z → CacheAction c z → CacheSystem c z → Prop
  | enter {s : CacheSystem c z} {call : CacheCall z} {f : InFlight z} {cache : GraphCache c z}
      (hfree : s.calls (c.monitor (call.bucket c)) = none)
      (hrun : call.enter.run s.cache = (.ok f, cache)) :
      CacheStep s (.enter call)
        ⟨cache, Function.update s.calls (c.monitor (call.bucket c)) (some f)⟩
  | advance {s : CacheSystem c z} {m : Fin c.monitorNum.toNat} {f : InFlight z}
      {r : InFlight z ⊕ Option (Block z)} {cache : GraphCache c z} (hcall : s.calls m = some f)
      (hrun : f.advance.run s.cache = (.ok r, cache)) :
      CacheStep s (.advance m) ⟨cache, Function.update s.calls m r.getLeft?⟩

namespace CacheSystem

/-- The cache just after its construction in memory with any contents. -/
def new (memory : GraphCache c z) : CacheSystem c z := ⟨GraphCache.new memory, fun _ => none⟩

/-- The call on a bucket. -/
def callOn (s : CacheSystem c z) (h : c.Head) : Option (InFlight z) :=
  (s.calls (c.monitor h)).filter fun f => f.bucket c = h

/-- The invariant: every bucket is as the call on it expects. -/
structure Invariant (s : CacheSystem c z) (hand : c.Head → Option UInt32) (free : List UInt32)
    (bucket : c.Head → List UInt32) (owner : UInt32 → Option c.Head) : Prop where
  owned : s.cache.Owned hand free bucket owner
  state : ∀ h, BucketState s.cache hand free bucket owner h (s.callOn h)
  monitor : ∀ m f, s.calls m = some f → c.monitor (f.bucket c) = m

variable {s s' : CacheSystem c z} {hand : c.Head → Option UInt32} {free : List UInt32}
  {bucket : c.Head → List UInt32} {owner : UInt32 → Option c.Head}

theorem callOn_of_bucket_eq {f : InFlight z} {m : Fin c.monitorNum.toNat} {h : c.Head}
    (hcall : s.calls m = some f) (hm : c.monitor h = m) (hf : f.bucket c = h) :
    s.callOn h = some f := by
  rw [callOn, hm, hcall]
  exact Option.filter_some_pos (by simpa using hf)

theorem callOn_eq_none {h : c.Head} (hne : ∀ f, s.calls (c.monitor h) = some f → f.bucket c ≠ h) :
    s.callOn h = none := by
  rw [callOn, Option.filter_eq_none_iff]
  exact fun f hf => by simpa using hne f hf

theorem invariant_new (memory : GraphCache c z) :
    ∃ free, (new memory).Invariant (fun _ => none) free (fun _ => []) fun _ => none := by
  obtain ⟨free, hfree⟩ := GraphCache.owned_new memory
  exact ⟨free, hfree, fun h => ⟨hfree, rfl, nofun, nofun⟩, nofun⟩

/-- A step on one bucket keeps what the calls on the other buckets expect. -/
private theorem Invariant.update (hs : s.Invariant hand free bucket owner) {h : c.Head}
    {cache : GraphCache c z} {o : Option (InFlight z)} {hand' : c.Head → Option UInt32}
    {free' : List UInt32} {bucket' : c.Head → List UInt32} {owner' : UInt32 → Option c.Head}
    (hstate : BucketState cache hand' free' bucket' owner' h o)
    (hsame : SameElsewhere s.cache cache hand hand' bucket bucket' h)
    (hold : ∀ f, s.calls (c.monitor h) = some f → f.bucket c = h) :
    Invariant ⟨cache, Function.update s.calls (c.monitor h) o⟩ hand' free' bucket' owner' := by
  refine ⟨hstate.owned, fun h' => ?_, fun m f hf => ?_⟩
  · by_cases hh : h' = h
    · subst hh
      have hcall : callOn ⟨cache, Function.update s.calls (c.monitor h') o⟩ h' = o := by
        rw [callOn]
        dsimp only
        rw [Function.update_self]
        cases o with
        | none => rfl
        | some f => exact Option.filter_some_pos (by simpa using (hstate.ready f rfl).1)
      rwa [hcall]
    · have hcall : callOn ⟨cache, Function.update s.calls (c.monitor h) o⟩ h' = s.callOn h' := by
        by_cases hm : c.monitor h' = c.monitor h
        · rw [callOn_eq_none, callOn_eq_none]
          · exact fun f hf e => hh (e.symm.trans (hold f (hm ▸ hf)))
          · intro f hf e
            simp only [hm, Function.update_self] at hf
            exact hh (e.symm.trans (hstate.ready f hf).1)
        · rw [callOn, callOn]
          dsimp only
          rw [Function.update_of_ne hm]
      have hs' := hs.state h'
      rw [hcall]
      refine ⟨hstate.owned, (hsame.hand_eq h' hh).trans hs'.hand_eq, ?_, ?_⟩
      · intro i hi hne
        rw [hsame.bucket_eq h' hh] at hi
        rw [hsame.key_eq h' hh i hi]
        exact hs'.hash_key i hi hne
      · rw [hsame.bucket_eq h' hh]
        exact hs'.ready
  · dsimp only at hf
    by_cases hm : m = c.monitor h
    · subst hm
      rw [Function.update_self] at hf
      rw [(hstate.ready f hf).1]
    · rw [Function.update_of_ne hm] at hf
      exact hs.monitor m f hf

/-- Every step keeps the invariant. -/
theorem Invariant.step (hs : s.Invariant hand free bucket owner) {a : CacheAction c z}
    (ha : CacheStep s a s') : ∃ hand' free' bucket' owner', s'.Invariant hand' free' bucket' owner' := by
  cases ha with
  | @enter call f cache hfree hrun =>
    have hnone : s.callOn (call.bucket c) = none := by
      rw [callOn, hfree]
      rfl
    obtain ⟨f', hrun', hstate⟩ :=
      CacheCall.enter_run (CacheCall.valid_of_enter hrun) rfl (hnone ▸ hs.state _)
    rw [hrun] at hrun'
    obtain ⟨⟨⟩, rfl⟩ := Prod.mk.inj hrun'
    refine ⟨hand, free, bucket, owner, hs.update hstate (.refl _ _ _ _) fun g hg => ?_⟩
    rw [hfree] at hg
    cases hg
  | @advance m f r cache hcall hrun =>
    have hm := hs.monitor m f hcall
    obtain ⟨r', cache', hand', free', bucket', owner', hrun', hstate, hsame⟩ :=
      InFlight.advance_run (callOn_of_bucket_eq hcall hm rfl ▸ hs.state (f.bucket c))
    rw [hrun] at hrun'
    obtain ⟨⟨⟩, rfl⟩ := Prod.mk.inj hrun'
    have hinv := hs.update hstate hsame fun g hg => ?_
    · rw [hm] at hinv
      exact ⟨hand', free', bucket', owner', hinv⟩
    · rw [hm, hcall] at hg
      rw [Option.some.inj hg]

/-! ### What holds in every run -/

/-- The places where an entry can be: the free list, the list of a bucket, or the hands of the call
in a monitor that has just popped it. -/
inductive EntryPlace (c : CacheConfig)
  | free
  | bucket (h : c.Head)
  | hand (m : Fin c.monitorNum.toNat)

/-- Entry `i` is in a place. -/
def At (s : CacheSystem c z) (free : List UInt32) (bucket : c.Head → List UInt32) (i : UInt32) :
    EntryPlace c → Prop
  | .free => i ∈ free
  | .bucket h => i ∈ bucket h
  | .hand m => ∃ f, s.calls m = some f ∧ f.hand = some i

/-- The lists `free` and `bucket` are read off the links, every entry is in one place, and the
entries of a bucket hold its keys. -/
structure WellFormed (s : CacheSystem c z) (free : List UInt32) (bucket : c.Head → List UInt32) :
    Prop where
  free_walk : Walk (fun i => (s.cache.entries i).next) invalidBlkno s.cache.freeList.next free
  free_num : s.cache.freeList.num.toNat = free.length
  linked : ∀ h, Linked (s.cache.ring h) invalidBlkno (bucket h)
  num : ∀ h, (s.cache.lruTable h).num.toNat = (bucket h).length
  num_le : ∀ h, (s.cache.lruTable h).num ≤ c.lruWindowSize
  prev : ∀ h, (s.cache.lruTable h).prev = (bucket h).getLastD invalidBlkno
  /-- Every entry is in exactly one place. -/
  place : ∀ i, i < c.cacheBlockNum → ∃! p, s.At free bucket i p
  lt : ∀ i p, s.At free bucket i p → i < c.cacheBlockNum
  /-- The key of an entry hashes to its bucket, unless a call is about to overwrite it. -/
  hash_key : ∀ h, ∀ i ∈ bucket h, (∀ f, s.calls (c.monitor h) = some f → f.outdated ≠ some i) →
    c.hash (s.cache.key i).1 (s.cache.key i).2 = h

/-- No assertion fails, no access is out of range and no search runs in a circle. -/
structure NoFault (s : CacheSystem c z) : Prop where
  enter : ∀ call : CacheCall z, call.Valid → s.calls (c.monitor (call.bucket c)) = none →
    ∃ f, call.enter.run s.cache = (.ok f, s.cache)
  advance : ∀ m f, s.calls m = some f → ∃ r cache, f.advance.run s.cache = (.ok r, cache)
  pop : ∀ m vtxno blkno blk, s.calls m = some (.popping vtxno blkno blk) →
    ∃ i cache, GraphCache.popFreeEntry.run s.cache = (.ok i, cache) ∧ i ≠ invalidBlkno

private theorem Invariant.hand_of_calls (hs : s.Invariant hand free bucket owner)
    {m : Fin c.monitorNum.toNat} {f : InFlight z} {i : UInt32} (hcall : s.calls m = some f)
    (hi : f.hand = some i) : hand (f.bucket c) = some i := by
  rw [(hs.state _).hand_eq, callOn_of_bucket_eq hcall (hs.monitor m f hcall) rfl]
  exact hi

/-- The owner of an entry tells its place. -/
private theorem Invariant.owner_of_at (hs : s.Invariant hand free bucket owner) {i : UInt32}
    {p : EntryPlace c} (hp : s.At free bucket i p) : i < c.cacheBlockNum ∧ match p with
      | .free => owner i = none
      | .bucket h => owner i = some h
      | .hand m => ∃ h, c.monitor h = m ∧ owner i = some h ∧ hand h = some i := by
  cases p with
  | free => exact (hs.owned.mem_free i).mp hp
  | bucket h => exact (hs.owned.mem_owned h i).mp (Or.inl hp)
  | hand m =>
    obtain ⟨f, hcall, hi⟩ := hp
    have hhand := hs.hand_of_calls hcall hi
    obtain ⟨hlt, howner⟩ := (hs.owned.mem_owned _ i).mp (Or.inr hhand)
    exact ⟨hlt, f.bucket c, hs.monitor m f hcall, howner, hhand⟩

private theorem Invariant.existsUnique_place (hs : s.Invariant hand free bucket owner) {i : UInt32}
    (hi : i < c.cacheBlockNum) : ∃! p, s.At free bucket i p := by
  rcases ho : owner i with _ | h
  · refine ⟨.free, (hs.owned.mem_free i).mpr ⟨hi, ho⟩, fun p hp => ?_⟩
    have hplace := (hs.owner_of_at hp).2
    cases p with
    | free => rfl
    | bucket h => simp [ho] at hplace
    | hand m => simp [ho] at hplace
  · by_cases hmem : i ∈ bucket h
    · refine ⟨.bucket h, hmem, fun p hp => ?_⟩
      have hplace := (hs.owner_of_at hp).2
      cases p with
      | free => simp [ho] at hplace
      | bucket h' => rw [Option.some.inj (hplace.symm.trans ho)]
      | hand m =>
        obtain ⟨h', -, howner, hhand⟩ := hplace
        rw [Option.some.inj (howner.symm.trans ho)] at hhand
        exact absurd hmem (hs.owned.hand_notMem h i hhand)
    · have hhand := ((hs.owned.mem_owned h i).mpr ⟨hi, ho⟩).resolve_left hmem
      refine ⟨.hand (c.monitor h), ?_, fun p hp => ?_⟩
      · have hcall := (hs.state h).hand_eq.symm.trans hhand
        obtain ⟨f, hf, hfi⟩ := Option.bind_eq_some_iff.mp hcall
        exact ⟨f, (Option.filter_eq_some_iff.mp hf).1, hfi⟩
      · have hplace := (hs.owner_of_at hp).2
        cases p with
        | free => simp [ho] at hplace
        | bucket h' =>
          rw [show h = h' from Option.some.inj (ho.symm.trans hplace)] at hmem
          exact absurd hp hmem
        | hand m =>
          obtain ⟨h', hm, howner, -⟩ := hplace
          rw [← hm, Option.some.inj (howner.symm.trans ho)]

theorem Invariant.wellFormed (hs : s.Invariant hand free bucket owner) :
    s.WellFormed free bucket where
  free_walk := hs.owned.walk
  free_num := hs.owned.num_free
  linked := hs.owned.linked
  num := hs.owned.num
  num_le h := by
    rw [UInt32.le_iff_toNat_le, hs.owned.num h]
    exact hs.owned.length_bucket_le h
  prev h := hs.owned.prev_eq h
  place i hi := hs.existsUnique_place hi
  lt i p hp := (hs.owner_of_at hp).1
  hash_key h i hi hne := by
    refine (hs.state h).hash_key i hi fun hout => ?_
    obtain ⟨f, hf, hfi⟩ := Option.bind_eq_some_iff.mp hout
    exact hne f (Option.filter_eq_some_iff.mp hf).1 hfi

theorem Invariant.noFault (hs : s.Invariant hand free bucket owner) : s.NoFault where
  enter call hvalid hfree := by
    have hnone : s.callOn (call.bucket c) = none := by
      rw [callOn, hfree]
      rfl
    obtain ⟨f, hrun, -⟩ := CacheCall.enter_run hvalid rfl (hnone ▸ hs.state _)
    exact ⟨f, hrun⟩
  advance m f hcall := by
    obtain ⟨r, cache, _, _, _, _, hrun, -, -⟩ := InFlight.advance_run
      (callOn_of_bucket_eq hcall (hs.monitor m f hcall) rfl ▸ hs.state (f.bucket c))
    exact ⟨r, cache, hrun⟩
  pop m vtxno blkno blk hcall := by
    have hstate := callOn_of_bucket_eq hcall (hs.monitor m _ hcall) rfl ▸ hs.state _
    obtain ⟨i, cache, hrun, hi, -⟩ :=
      hs.owned.popFreeEntry hstate.hand_eq (hstate.ready _ rfl).2
    exact ⟨i, cache, hrun, GraphCache.ne_invalidBlkno hi⟩

end CacheSystem

/-- **The cache under concurrency.** In every run of calls that interleave, every entry is in the
free list, in the list of one bucket or in the hands of one call, the lists are well formed, every
key hashes to its bucket, and no assertion fails. -/
theorem cacheRun_invariant (memory : GraphCache c z) {as : List (CacheAction c z)}
    {s : CacheSystem c z} (h : Steps CacheStep (CacheSystem.new memory) as s) :
    (∃ free bucket, s.WellFormed free bucket) ∧ s.NoFault := by
  obtain ⟨free, hfree⟩ := CacheSystem.invariant_new memory
  obtain ⟨hand, free, bucket, owner, hs⟩ := h.invariant
    (I := fun s => ∃ hand free bucket owner, s.Invariant hand free bucket owner)
    (fun _ _ _ ⟨_, _, _, _, hs⟩ ha => hs.step ha) ⟨_, _, _, _, hfree⟩
  exact ⟨⟨free, bucket, hs.wellFormed⟩, hs.noFault⟩

/-- A write to an empty cache, up to the step in which it takes the entry. -/
theorem cacheRun_invariant_write :
    ∃ s : CacheSystem CacheConfig.small ⟨5, by decide, by decide⟩,
      s.calls ⟨0, by decide⟩ = some (.pushing 3 5 (fun _ => 7) 0) ∧
      (∃ free bucket, s.WellFormed free bucket) ∧ s.NoFault := by
  let z : BlockSz := ⟨5, by decide, by decide⟩
  let m : Fin CacheConfig.small.monitorNum.toNat := ⟨0, by decide⟩
  have henter : CacheStep (CacheSystem.new (GraphCache.zero CacheConfig.small z))
    (.enter (.write 3 5 fun _ => 7)) _ := .enter rfl rfl
  have hwait := Steps.snoc (.single henter) (.advance (m := m) rfl rfl)
  have hpop := Steps.snoc hwait (.advance (m := m) rfl rfl)
  exact ⟨_, rfl, cacheRun_invariant _ hpop⟩
end Nynn
