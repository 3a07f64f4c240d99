import Nynn.Cache.Ownership
import Nynn.Library.Recency

/-!
# The cache is a family of least recently used lists

The entries of a bucket, in the order of their links, are read as a list of keys with the blocks
cached under them. Reads and writes of the cache then are the reads and writes of a family of least
recently used lists of width `LRU_WINDOW_SIZE`.

Source: `nynn_mm_graph_cache.h`.

## Main definitions

* `Nynn.CacheKey`: the keys that pass the assertions of a call.
* `Nynn.GraphCache.call`, `Nynn.GraphCache.runCalls`: sequential calls.
* `Nynn.GraphCache.Represents`: the cache holds a family of recency lists.
* `Nynn.GraphCache.Only`: what the cached pairs have in common.

## Main results

* `Nynn.GraphCache.Represents.call`: a call does what the lists do.
* `Nynn.graphCache_refines_lru`: so does every sequence of calls.
-/

namespace Nynn

open Program LinkedRing Recency

variable {c : CacheConfig} {z : BlockSz}

/-- A vertex number and a block number that name a vertex and a block. -/
abbrev CacheKey :=
  { k : UInt32 × UInt32 // k.1 ≠ invalidVertexno ∧ k.2 ≠ invalidBlkno }

/-- The bucket of a key. -/
def CacheConfig.hashKey (c : CacheConfig) (k : CacheKey) : c.Head := c.hash k.val.1 k.val.2

namespace GraphCache

/-- A read or a write of a valid key. -/
def call : Access CacheKey (Block z) → Prog (GraphCache c z) CacheFault (Option (Block z))
  | .read k => read k.val.1 k.val.2
  | .write k blk => do
    write k.val.1 k.val.2 blk
    pure none

/-- Calls one after the other, with what they return. -/
def runCalls : List (Access CacheKey (Block z)) →
    Prog (GraphCache c z) CacheFault (List (Option (Block z)))
  | [] => pure []
  | a :: as => do
    let r ← call a
    let rs ← runCalls as
    pure (r :: rs)

/-- The key and the block of an entry. -/
def pair (s : GraphCache c z) (i : UInt32) : (UInt32 × UInt32) × Block z := (s.key i, s.data i)

/-- The key and the block of a pair of a recency list, as an entry holds them. -/
def rawPair (p : CacheKey × Block z) : (UInt32 × UInt32) × Block z := (p.1.val, p.2)

/-- The entries of every bucket hold the pairs of its recency list, in the same order. -/
def Holds (s : GraphCache c z) (bucket : c.Head → List UInt32)
    (A : c.Head → List (CacheKey × Block z)) : Prop :=
  ∀ h, (bucket h).map s.pair = (A h).map rawPair

/-- The cache holds the family `A` of recency lists. -/
def Represents (s : GraphCache c z) (A : c.Head → List (CacheKey × Block z)) : Prop :=
  ∃ free bucket owner, s.Owned (fun _ => none) free bucket owner ∧ s.Holds bucket A

section

variable {s s' : GraphCache c z} {hand : c.Head → Option UInt32} {free : List UInt32}
  {bucket : c.Head → List UInt32} {owner : UInt32 → Option c.Head} {h : c.Head}
  {A : c.Head → List (CacheKey × Block z)} {k : CacheKey} {d : Block z}

/-- A key that is not in the recency list is not found. -/
theorem Holds.firstMatch_eq_none (hA : s.Holds bucket A)
    (hlt : ∀ i ∈ bucket h, i < c.cacheBlockNum) (hk : k ∉ keys (A h)) :
    s.firstMatch (bucket h) k.val = invalidBlkno := by
  refine (firstMatch_eq_invalidBlkno hlt).mpr fun i hi heq => hk ?_
  have hmem : s.pair i ∈ (A h).map rawPair := hA h ▸ List.mem_map_of_mem hi
  obtain ⟨p, hp, hpi⟩ := List.mem_map.mp hmem
  have hkey : p.1.val = k.val := (congrArg Prod.fst hpi).trans heq
  exact mem_keys.mpr ⟨p.2, Subtype.ext hkey ▸ hp⟩

/-- A key of the recency list is found at the entry in the same place. -/
theorem Holds.firstMatch_eq_some (hA : s.Holds bucket A) {l₁ l₂ : List (CacheKey × Block z)}
    (hl : A h = l₁ ++ (k, d) :: l₂) (hnodup : (keys (A h)).Nodup) :
    ∃ b₁ i b₂, bucket h = b₁ ++ i :: b₂ ∧ s.firstMatch (bucket h) k.val = i ∧ s.pair i = (k.val, d) ∧
      b₁.map s.pair = l₁.map rawPair ∧ b₂.map s.pair = l₂.map rawPair := by
  have hmap := hA h
  rw [hl, List.map_append, List.map_cons] at hmap
  obtain ⟨b₁, b, hb, hb₁, hrest⟩ := List.map_eq_append_iff.mp hmap
  obtain ⟨i, b₂, rfl, hi, hb₂⟩ := List.map_eq_cons_iff.mp hrest
  refine ⟨b₁, i, b₂, hb, ?_, hi, hb₁, hb₂⟩
  have hki : s.key i = k.val := congrArg Prod.fst hi
  have hne : b₁.find? (fun j => s.key j = k.val) = none := by
    rw [List.find?_eq_none]
    intro j hj heq
    have hmem : s.pair j ∈ l₁.map rawPair := hb₁ ▸ List.mem_map_of_mem hj
    obtain ⟨p, hp, hpj⟩ := List.mem_map.mp hmem
    have hkey : p.1 = k := Subtype.ext ((congrArg Prod.fst hpj).trans (of_decide_eq_true heq))
    rw [hl, keys_append, keys_cons, List.nodup_append] at hnodup
    exact hnodup.2.2 k (mem_keys.mpr ⟨p.2, hkey ▸ hp⟩) k List.mem_cons_self rfl
  rw [firstMatch, hb, List.find?_append, hne]
  simp [hki]

/-- Moving an entry to the front changes no key and no block. -/
theorem Owned.moveFront_pair (hs : s.Owned hand free bucket owner) {b₁ b₂ : List UInt32}
    {i : UInt32} (hb : bucket h = b₁ ++ i :: b₂) :
    ∃ s', (GraphCache.moveFront h i).run s = (.ok (), s') ∧
      s'.Owned hand free (Function.update bucket h (i :: (b₁ ++ b₂))) owner ∧
      s'.pair = s.pair := by
  obtain ⟨s', hrun, howned, hdata, hkey⟩ := hs.moveFront hb
  exact ⟨s', hrun, howned, funext fun j => Prod.ext (hkey j) (congrFun hdata j)⟩

/-- Overwriting the first entry of a bucket overwrites the first pair of its list. -/
theorem Holds.fill {i : UInt32} {b : List UInt32} {l : List (CacheKey × Block z)}
    (hA : s.Holds bucket A) (hs : s.Owned hand free (Function.update bucket h (i :: b)) owner)
    (hb : b.map s.pair = l.map rawPair) (k : CacheKey) (d : Block z) :
    ∃ s', (GraphCache.fill i k.val.1 k.val.2 d).run s = (.ok (), s') ∧
      s'.Owned hand free (Function.update bucket h (i :: b)) owner ∧
      s'.Holds (Function.update bucket h (i :: b)) (Function.update A h ((k, d) :: l)) := by
  have hself : i ∈ Function.update bucket h (i :: b) h := by
    rw [Function.update_self]
    exact List.mem_cons_self
  obtain ⟨s', hrun, howned, hdata, hkey⟩ :=
    hs.fill (hs.lt_of_mem_bucket hself) k.val.1 k.val.2 d
  have hpair : ∀ j, j ≠ i → s'.pair j = s.pair j := fun j hj =>
    Prod.ext (by rw [pair, hkey, Function.update_of_ne hj]; rfl)
      (by rw [pair, hdata, Function.update_of_ne hj]; rfl)
  have hfirst : s'.pair i = (k.val, d) :=
    Prod.ext (by rw [pair, hkey, Function.update_self]) (by rw [pair, hdata, Function.update_self])
  have hmap : ∀ m : List UInt32, i ∉ m → m.map s'.pair = m.map s.pair := fun m hm =>
    List.map_congr_left fun j hj => hpair j fun e => hm (e ▸ hj)
  have hnodup : (i :: b).Nodup := by
    have := (hs.linked h).list_nodup
    rwa [Function.update_self] at this
  refine ⟨s', hrun, howned, fun h' => ?_⟩
  by_cases hh : h' = h
  · subst hh
    rw [Function.update_self, Function.update_self, List.map_cons, List.map_cons, hfirst,
      hmap b (List.nodup_cons.mp hnodup).1, hb]
    rfl
  · have hnot : i ∉ bucket h' := by
      intro hm
      have hm' : i ∈ Function.update bucket h (i :: b) h' := by rwa [Function.update_of_ne hh]
      exact hh (Option.some.inj ((hs.owner_of_mem_bucket hm').symm.trans
        (hs.owner_of_mem_bucket hself)))
    rw [Function.update_of_ne hh, Function.update_of_ne hh, hmap _ hnot]
    exact hA h'

/-- The entry of a key is brought to the front and overwritten. -/
private theorem Holds.moveFront_fill {b₁ b₂ : List UInt32} {i : UInt32}
    {l : List (CacheKey × Block z)} (hA : s.Holds bucket A)
    (hs : s.Owned hand free bucket owner) (hb : bucket h = b₁ ++ i :: b₂)
    (hl : (b₁ ++ b₂).map s.pair = l.map rawPair) (k : CacheKey) (d : Block z) :
    ∃ s', (do GraphCache.moveFront h i; GraphCache.fill i k.val.1 k.val.2 d).run s = (.ok (), s') ∧
      s'.Owned hand free (Function.update bucket h (i :: (b₁ ++ b₂))) owner ∧
      s'.Holds (Function.update bucket h (i :: (b₁ ++ b₂))) (Function.update A h ((k, d) :: l)) := by
  obtain ⟨s₁, hmove, howned, hpair⟩ := hs.moveFront_pair hb
  have hA₁ : s₁.Holds bucket A := fun h' => hpair ▸ hA h'
  obtain ⟨s', hfill, howned', hA'⟩ := hA₁.fill howned (hpair ▸ hl) k d
  exact ⟨s', (Prog.run_bind_of_ok hmove).trans hfill, howned', hA'⟩

/-- **A read.** -/
theorem Represents.read (hs : s.Represents A) (hh : c.hashKey k = h)
    (hnodup : (keys (A h)).Nodup) :
    ∃ s', (GraphCache.read k.val.1 k.val.2).run s = (.ok (lookup (A h) k), s') ∧
      s'.Represents (Function.update A h (fetch (A h) k)) := by
  obtain ⟨free, bucket, owner, howned, hA⟩ := hs
  have hlt : ∀ i ∈ bucket h, i < c.cacheBlockNum := fun i => howned.lt_of_mem_bucket
  have hfind := find_run (howned.linked h) hlt (howned.length_bucket_le_cacheBlockNum _)
    k.val.1 k.val.2
  have hbucket : c.hash k.val.1 k.val.2 = h := hh
  rw [GraphCache.read, Prog.run_bind_of_ok (run_checkKey k.property s), hbucket,
    Prog.run_bind_of_ok hfind]
  by_cases hk : k ∈ keys (A h)
  · obtain ⟨l₁, d, l₂, hl⟩ := keys_split hk
    obtain ⟨b₁, i, b₂, hb, hmatch, hpair, hb₁, hb₂⟩ := hA.firstMatch_eq_some hl hnodup
    have hi : i < c.cacheBlockNum := hlt i (by simp [hb])
    obtain ⟨s', hmove, howned', hpair'⟩ := howned.moveFront_pair hb
    rw [hl] at hnodup
    rw [show s.firstMatch (bucket h) (k.val.1, k.val.2) = i from hmatch,
      if_neg (ne_invalidBlkno hi), Prog.run_bind_of_ok hmove, Prog.run_bind_of_ok (run_copy hi s')]
    have hdata : s'.data i = d := congrArg Prod.snd ((congrFun hpair' i).trans hpair)
    refine ⟨s', ?_, free, _, owner, howned', fun h' => ?_⟩
    · rw [hl, lookup_split hnodup, hdata]
      rfl
    · rw [hpair', hl, fetch_split hnodup]
      by_cases hh' : h' = h
      · subst hh'
        rw [Function.update_self, Function.update_self, List.map_cons, List.map_append, hpair, hb₁,
          hb₂, List.map_cons, List.map_append]
        rfl
      · rw [Function.update_of_ne hh', Function.update_of_ne hh']
        exact hA h'
  · rw [show s.firstMatch (bucket h) (k.val.1, k.val.2) = invalidBlkno from
      hA.firstMatch_eq_none hlt hk, if_pos rfl, lookup_eq_none.mpr hk, fetch_of_notMem hk,
      Function.update_eq_self]
    exact ⟨s, rfl, free, bucket, owner, howned, hA⟩

/-- **A write.** -/
theorem Represents.write (hs : s.Represents A) (hh : c.hashKey k = h)
    (hnodup : (keys (A h)).Nodup) (d : Block z) :
    ∃ s', (GraphCache.write k.val.1 k.val.2 d).run s = (.ok (), s') ∧
      s'.Represents (Function.update A h (store c.lruWindowSize.toNat (A h) k d)) := by
  obtain ⟨free, bucket, owner, howned, hA⟩ := hs
  have hlt : ∀ i ∈ bucket h, i < c.cacheBlockNum := fun i => howned.lt_of_mem_bucket
  have hfind := find_run (howned.linked h) hlt (howned.length_bucket_le_cacheBlockNum _)
    k.val.1 k.val.2
  have hbucket : c.hash k.val.1 k.val.2 = h := hh
  have hlen : (bucket h).length = (A h).length := by
    have := congrArg List.length (hA h)
    rwa [List.length_map, List.length_map] at this
  rw [GraphCache.write, Prog.run_bind_of_ok (run_checkKey k.property s), hbucket,
    Prog.run_bind_of_ok hfind]
  by_cases hk : k ∈ keys (A h)
  · -- the key is cached: its entry is used again
    obtain ⟨l₁, d', l₂, hl⟩ := keys_split hk
    obtain ⟨b₁, i, b₂, hb, hmatch, -, hb₁, hb₂⟩ := hA.firstMatch_eq_some hl hnodup
    have hi : i < c.cacheBlockNum := hlt i (by simp [hb])
    obtain ⟨s', hrun, howned', hA'⟩ := hA.moveFront_fill howned hb
      (show _ = (l₁ ++ l₂).map rawPair by rw [List.map_append, List.map_append, hb₁, hb₂]) k d
    rw [hl] at hnodup
    rw [show s.firstMatch (bucket h) (k.val.1, k.val.2) = i from hmatch,
      if_neg (ne_invalidBlkno hi), hl, store_split hnodup]
    exact ⟨s', hrun, free, _, owner, howned', hA'⟩
  · rw [show s.firstMatch (bucket h) (k.val.1, k.val.2) = invalidBlkno from
      hA.firstMatch_eq_none hlt hk, if_pos rfl, Prog.run_bind_of_ok (run_head h s)]
    by_cases hroom : (s.lruTable h).num < c.lruWindowSize
    · -- the bucket has room: a free entry is used
      have hlt' := UInt32.lt_iff_toNat_lt.mp hroom
      rw [howned.num h] at hlt'
      obtain ⟨i, s₁, hpop, hi, howned₁, -, hentries, hdata₁⟩ := howned.popFreeEntry rfl hlt'
      obtain ⟨s₂, hpush, howned₂, hdata₂, hkey₂⟩ :=
        howned₁.pushFront (Function.update_self h (some i) fun _ => none)
      have hpair : s₂.pair = s.pair := funext fun j => Prod.ext
        ((hkey₂ j).trans (by simp [pair, key, hentries])) (by simp [pair, hdata₂, hdata₁])
      have hhand : Function.update (Function.update (fun _ => none) h (some i)) h none =
          (fun _ => none : c.Head → Option UInt32) := by
        rw [Function.update_idem]
        exact Function.update_eq_self h _
      rw [hhand] at howned₂
      have hA₂ : s₂.Holds bucket A := fun h' => hpair ▸ hA h'
      obtain ⟨s', hfill, howned', hA'⟩ := hA₂.fill howned₂ (hpair ▸ hA h) k d
      rw [if_pos hroom, Prog.run_bind_of_ok hpop,
        Prog.run_bind_of_ok (run_check (ne_invalidBlkno hi) s₁), Prog.run_bind_of_ok hpush,
        store_of_notMem_of_lt hk (hlen ▸ hlt')]
      exact ⟨s', hfill, _, _, _, howned', hA'⟩
    · -- the bucket is full: its last entry is used
      have hfull : c.lruWindowSize.toNat ≤ (A h).length := by
        rw [UInt32.lt_iff_toNat_lt, howned.num h, not_lt] at hroom
        exact hlen ▸ hroom
      obtain ⟨b, hb⟩ := howned.exists_last hroom
      have hdrop : (b ++ []).map s.pair = ((A h).dropLast).map rawPair := by
        rw [List.append_nil, List.map_dropLast, ← hA h, hb, List.map_append, List.map_singleton,
          List.dropLast_concat]
      obtain ⟨s', hrun, howned', hA'⟩ := hA.moveFront_fill howned hb hdrop k d
      rw [if_neg hroom, store_of_notMem_of_le hk hfull]
      exact ⟨s', hrun, free, _, owner, howned', hA'⟩

/-- **A call.** The cache does what the recency lists do. -/
theorem Represents.call (hs : s.Represents A)
    (hA : ∀ h, Bounded c.lruWindowSize.toNat (A h)) (a : Access CacheKey (Block z)) :
    ∃ s', (GraphCache.call a).run s = (.ok (a.result (A (c.hashKey a.key))), s') ∧
      s'.Represents (serve c.lruWindowSize.toNat c.hashKey A a) := by
  cases a with
  | read k => exact hs.read rfl (hA _).nodup
  | write k d =>
    obtain ⟨s', hrun, hs'⟩ := hs.write rfl (hA (c.hashKey k)).nodup d
    exact ⟨s', Prog.run_bind_of_ok hrun, hs'⟩

/-- **A sequence of calls.** -/
theorem Represents.runCalls (hs : s.Represents A)
    (hA : ∀ h, Bounded c.lruWindowSize.toNat (A h)) (as : List (Access CacheKey (Block z))) :
    ∃ s', (GraphCache.runCalls as).run s =
        (.ok (results c.lruWindowSize.toNat c.hashKey A as), s') ∧
      s'.Represents (serveAll c.lruWindowSize.toNat c.hashKey A as) := by
  induction as generalizing s A with
  | nil => exact ⟨s, rfl, hs⟩
  | cons a as ih =>
    obtain ⟨s₁, hrun, hs₁⟩ := hs.call hA a
    obtain ⟨s', hrun', hs'⟩ := ih hs₁ fun h => Bounded.serve hA (window_pos c) a h
    refine ⟨s', ?_, hs'⟩
    rw [GraphCache.runCalls, Prog.run_bind_of_ok hrun, Prog.run_bind_of_ok hrun']
    rfl

theorem represents_new (memory : GraphCache c z) : (new memory).Represents fun _ => [] := by
  obtain ⟨free, hfree⟩ := owned_new memory
  exact ⟨free, _, _, hfree, fun _ => rfl⟩

/-- Every pair that is cached satisfies `P`. -/
def Only (s : GraphCache c z) (P : CacheKey → Block z → Prop) : Prop :=
  ∃ A, s.Represents A ∧ (∀ h, Bounded c.lruWindowSize.toNat (A h)) ∧
    ∀ h, ∀ p ∈ A h, c.hashKey p.1 = h ∧ P p.1 p.2

section Only

variable {P Q : CacheKey → Block z → Prop}

theorem only_new (memory : GraphCache c z) : (new memory).Only P :=
  ⟨_, represents_new memory, fun _ => .nil _, nofun⟩

theorem Only.mono (h : s.Only P) (hPQ : ∀ k d, P k d → Q k d) : s.Only Q := by
  obtain ⟨A, hA, hbounded, hP⟩ := h
  exact ⟨A, hA, hbounded, fun h p hp => ⟨(hP h p hp).1, hPQ _ _ (hP h p hp).2⟩⟩

/-- What a read finds satisfies `P`, and nothing new is cached. -/
theorem Only.read (h : s.Only P) (k : CacheKey) :
    ∃ found s', (GraphCache.read k.val.1 k.val.2).run s = (.ok found, s') ∧ s'.Only P ∧
      ∀ d ∈ found, P k d := by
  obtain ⟨A, hA, hbounded, hP⟩ := h
  obtain ⟨s', hrun, hs'⟩ := hA.call hbounded (.read k)
  refine ⟨_, s', hrun, ⟨_, hs', Bounded.serve hbounded (window_pos c) _, fun h p hp => ?_⟩,
    fun d hd => (hP _ _ (mem_of_lookup hd)).2⟩
  rcases mem_serve hp with ⟨hold, -⟩ | ⟨-, hwrite⟩
  · exact hP h p hold
  · cases hwrite

/-- After a write, the old pairs have other keys. -/
theorem Only.write (h : s.Only P) {k : CacheKey} {d : Block z}
    (hPQ : ∀ k' d', k' ≠ k → P k' d' → Q k' d') (hQ : Q k d) :
    ∃ s', (GraphCache.write k.val.1 k.val.2 d).run s = (.ok (), s') ∧ s'.Only Q := by
  obtain ⟨A, hA, hbounded, hP⟩ := h
  obtain ⟨s', hrun, hs'⟩ := hA.write rfl (hbounded (c.hashKey k)).nodup d
  refine ⟨s', hrun, _, hs', Bounded.serve hbounded (window_pos c) (.write k d), fun h p hp => ?_⟩
  rcases mem_serve (a := .write k d) hp with ⟨hold, hne⟩ | ⟨rfl, hwrite⟩
  · obtain ⟨hhash, hold⟩ := hP h p hold
    refine ⟨hhash, hPQ _ _ (fun hk => ?_) hold⟩
    exact hne (hhash.symm.trans (congrArg c.hashKey hk)) d (by rw [hk])
  · cases hwrite
    exact ⟨rfl, hQ⟩

end Only

end

end GraphCache

/-- **The cache is a family of LRU lists.** After every sequence of calls the cache holds recency
lists of at most `LRU_WINDOW_SIZE` pairs without a repeated key; every call did what the lists do;
a pair holds the bytes of the last write of its key; and a key that a write or a hit brought to the
front is still found if fewer than `LRU_WINDOW_SIZE` other keys of its bucket were written or hit
since. -/
theorem graphCache_refines_lru (memory : GraphCache c z) (as : List (Access CacheKey (Block z))) :
    (∃ s, (GraphCache.runCalls as).run (GraphCache.new memory) =
        (.ok (results c.lruWindowSize.toNat c.hashKey (fun _ => []) as), s) ∧
      s.Represents (serveAll c.lruWindowSize.toNat c.hashKey (fun _ => []) as)) ∧
    (∀ h, Bounded c.lruWindowSize.toNat
      (serveAll c.lruWindowSize.toNat c.hashKey (fun _ => []) as h)) ∧
    (∀ h, ∀ p ∈ serveAll c.lruWindowSize.toNat c.hashKey (fun _ => []) as h,
      c.hashKey p.1 = h ∧ lastWrite p.1 as = some p.2) ∧
    ∀ before a after, as = before ++ a :: after →
      ∀ A, A = serveAll c.lruWindowSize.toNat c.hashKey (fun _ => []) before →
      a.Touches (A (c.hashKey a.key)) →
      ((touched c.lruWindowSize.toNat c.hashKey (c.hashKey a.key)
        (serve c.lruWindowSize.toNat c.hashKey A a) after).erase a.key).card <
          c.lruWindowSize.toNat →
      a.key ∈ keys (serveAll c.lruWindowSize.toNat c.hashKey (fun _ => []) as
        (c.hashKey a.key)) := by
  have hempty : ∀ _h : c.Head, Bounded c.lruWindowSize.toNat ([] : List (CacheKey × Block z)) :=
    fun _ => .nil _
  have hpos := GraphCache.window_pos c
  refine ⟨(GraphCache.represents_new memory).runCalls hempty as, Bounded.serveAll hempty hpos as,
    fun h p hp => ⟨?_, lastWrite_of_mem as hp⟩, ?_⟩
  · exact hash_of_mem_serveAll (fun _ _ hk => by cases hk) as h p.1 (mem_keys.mpr ⟨p.2, hp⟩)
  · rintro before a after rfl A rfl ht hcard
    rw [serveAll_append]
    exact resident (Bounded.serveAll hempty hpos before) hpos ht after hcard

end Nynn
