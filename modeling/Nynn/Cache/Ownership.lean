import Mathlib.Algebra.BigOperators.Group.Finset.Basic
import Mathlib.Algebra.Order.BigOperators.Group.Finset
import Mathlib.Data.Fintype.BigOperators
import Nynn.Cache.Buckets

/-!
# The owners of the cache entries

Every entry is free or has one bucket as its owner. The entries of a bucket are the nodes of its
list and the entry that a call took from the free list and has not yet put into the list. A bucket
owns at most `LRU_WINDOW_SIZE` entries, and the windows of all buckets together fit into the array
of entries, so that a bucket with room always finds a free entry.

Source: `nynn_mm_graph_cache.h`.

## Main definitions

* `Nynn.GraphCache.Owned`: the free list, the buckets and the entries in hand partition the array.

## Main results

* `Nynn.GraphCache.Owned.free_ne_nil`: a bucket with room finds a free entry.
* `Nynn.GraphCache.owned_new`: the constructor.
* `Nynn.GraphCache.Owned.popFreeEntry`, `Nynn.GraphCache.Owned.moveFront`,
  `Nynn.GraphCache.Owned.pushFront`, `Nynn.GraphCache.Owned.fill`: what the steps of a call do.
-/

namespace Nynn

open Program LinkedRing

namespace GraphCache

variable {c : CacheConfig} {z : BlockSz}

/-- The entries are divided among the free list, the lists of the buckets and the entries that
calls on a bucket have in hand. -/
structure Owned (s : GraphCache c z) (hand : c.Head → Option UInt32) (free : List UInt32)
    (bucket : c.Head → List UInt32) (owner : UInt32 → Option c.Head) : Prop where
  /-- The free list is chained. -/
  walk : Walk (fun i => (s.entries i).next) invalidBlkno s.freeList.next free
  num_free : s.freeList.num.toNat = free.length
  mem_free : ∀ i, i ∈ free ↔ i < c.cacheBlockNum ∧ owner i = none
  /-- The buckets are linked in both directions. -/
  linked : ∀ h, Linked (s.ring h) invalidBlkno (bucket h)
  num : ∀ h, (s.lruTable h).num.toNat = (bucket h).length
  mem_owned : ∀ h i, i ∈ bucket h ∨ hand h = some i ↔ i < c.cacheBlockNum ∧ owner i = some h
  hand_notMem : ∀ h i, hand h = some i → i ∉ bucket h
  /-- A bucket owns at most `LRU_WINDOW_SIZE` entries. -/
  length_le : ∀ h, (bucket h).length + (hand h).toList.length ≤ c.lruWindowSize.toNat

theorem toNat_lruWindowSize (c : CacheConfig) :
    c.lruWindowSize.toNat = c.cacheBlockNum.toNat / c.cacheHeadNum.toNat := UInt32.toNat_div _ _

/-- The windows of all buckets fit into the array of entries. -/
theorem heads_mul_window_le (c : CacheConfig) :
    c.cacheHeadNum.toNat * c.lruWindowSize.toNat ≤ c.cacheBlockNum.toNat := by
  rw [toNat_lruWindowSize]
  exact Nat.mul_div_le _ _

theorem window_pos (c : CacheConfig) : 0 < c.lruWindowSize.toNat :=
  UInt32.le_iff_toNat_le.mp c.one_le_window

/-- The list of a bucket only depends on the head of the bucket and on the entries in it. -/
theorem linked_congr {s s' : GraphCache c z} {h : c.Head} {l : List UInt32}
    (hl : Linked (s.ring h) invalidBlkno l) (hlt : ∀ i ∈ l, i < c.cacheBlockNum)
    (htable : s'.lruTable h = s.lruTable h) (hentries : ∀ i ∈ l, s'.entries i = s.entries i) :
    Linked (s'.ring h) invalidBlkno l := by
  refine hl.congr ?_ ?_
  · intro i hi
    rcases List.mem_cons.mp hi with rfl | hi
    · rw [ring_next_invalidBlkno, ring_next_invalidBlkno, htable]
    · have hne := ne_invalidBlkno (hlt i hi)
      rw [ring_next _ _ hne, ring_next _ _ hne, hentries i hi]
  · intro i hi
    rcases List.mem_cons.mp hi with rfl | hi
    · rw [ring_prev_invalidBlkno, ring_prev_invalidBlkno, htable]
    · have hne := ne_invalidBlkno (hlt i hi)
      rw [ring_prev _ _ hne, ring_prev _ _ hne, hentries i hi]

namespace Owned

variable {s s' : GraphCache c z} {hand : c.Head → Option UInt32} {free : List UInt32}
  {bucket : c.Head → List UInt32} {owner : UInt32 → Option c.Head} {h : c.Head} {i : UInt32}

theorem lt_of_mem_bucket (hs : Owned s hand free bucket owner) (hi : i ∈ bucket h) :
    i < c.cacheBlockNum := ((hs.mem_owned h i).mp (Or.inl hi)).1

theorem owner_of_mem_bucket (hs : Owned s hand free bucket owner) (hi : i ∈ bucket h) :
    owner i = some h := ((hs.mem_owned h i).mp (Or.inl hi)).2

theorem length_bucket_le (hs : Owned s hand free bucket owner) (h : c.Head) :
    (bucket h).length ≤ c.lruWindowSize.toNat := (Nat.le_add_right _ _).trans (hs.length_le h)

/-- The head of a bucket names its last entry. -/
theorem prev_eq (hs : Owned s hand free bucket owner) (h : c.Head) :
    (s.lruTable h).prev = before invalidBlkno (bucket h) := by
  rw [← ring_prev_invalidBlkno, (hs.linked h).prev_nil]

theorem exists_last (hs : Owned s hand free bucket owner)
    (hfull : ¬(s.lruTable h).num < c.lruWindowSize) :
    ∃ l, bucket h = l ++ [(s.lruTable h).prev] := by
  rw [UInt32.lt_iff_toNat_lt, hs.num h, not_lt] at hfull
  have hne : bucket h ≠ [] := by
    have := window_pos c
    exact List.ne_nil_of_length_pos (by omega)
  obtain ⟨l, x, hl⟩ := (List.eq_nil_or_concat (bucket h)).resolve_left hne
  have hx : (s.lruTable h).prev = x := by
    rw [hs.prev_eq h, hl]
    simp [before]
  exact ⟨l, by rw [hx, hl, List.concat_eq_append]⟩

theorem length_bucket_le_cacheBlockNum (hs : Owned s hand free bucket owner) (h : c.Head) :
    (bucket h).length ≤ c.cacheBlockNum.toNat := by
  refine (hs.length_bucket_le h).trans ?_
  rw [toNat_lruWindowSize]
  exact Nat.div_le_self _ _

/-- **Counting.** When a bucket owns fewer entries than its window, some entry is free. -/
theorem free_ne_nil (hs : Owned s hand free bucket owner)
    (hroom : (bucket h).length + (hand h).toList.length < c.lruWindowSize.toNat) : free ≠ [] := by
  rintro rfl
  have hcover : (Finset.range c.cacheBlockNum.toNat).image UInt32.ofNat ⊆
      Finset.univ.biUnion fun h => (bucket h ++ (hand h).toList).toFinset := by
    intro i hi
    obtain ⟨n, hn, rfl⟩ := Finset.mem_image.mp hi
    have hlt : UInt32.ofNat n < c.cacheBlockNum := by
      have hn' := Finset.mem_range.mp hn
      have := c.cacheBlockNum.toNat_lt
      rw [UInt32.lt_iff_toNat_lt, UInt32.toNat_ofNat_of_lt' (show n < 2 ^ 32 by omega)]
      exact hn'
    obtain ⟨h, hown⟩ : ∃ h, owner (UInt32.ofNat n) = some h := by
      refine Option.ne_none_iff_exists'.mp fun hnone => ?_
      exact absurd ((hs.mem_free _).mpr ⟨hlt, hnone⟩) List.not_mem_nil
    have hmem := (hs.mem_owned h _).mpr ⟨hlt, hown⟩
    simpa using ⟨h, hmem⟩
  have hcard : ((Finset.range c.cacheBlockNum.toNat).image UInt32.ofNat).card =
      c.cacheBlockNum.toNat := by
    rw [Finset.card_image_of_injOn, Finset.card_range]
    intro m hm n hn hmn
    have hm' := Finset.mem_range.mp hm
    have hn' := Finset.mem_range.mp hn
    have := c.cacheBlockNum.toNat_lt
    have heq := congrArg UInt32.toNat hmn
    rwa [UInt32.toNat_ofNat_of_lt' (show m < 2 ^ 32 by omega),
      UInt32.toNat_ofNat_of_lt' (show n < 2 ^ 32 by omega)] at heq
  have hslot : ∀ h, ((bucket h ++ (hand h).toList).toFinset).card ≤
      (bucket h).length + (hand h).toList.length := fun h =>
    (List.toFinset_card_le _).trans (List.length_append).le
  have hsum : c.cacheBlockNum.toNat ≤
      ∑ h, ((bucket h).length + (hand h).toList.length) := by
    calc c.cacheBlockNum.toNat
        = ((Finset.range c.cacheBlockNum.toNat).image UInt32.ofNat).card := hcard.symm
      _ ≤ _ := Finset.card_le_card hcover
      _ ≤ _ := Finset.card_biUnion_le
      _ ≤ _ := Finset.sum_le_sum fun h _ => hslot h
  have hlt : ∑ h, ((bucket h).length + (hand h).toList.length) <
      ∑ _h : c.Head, c.lruWindowSize.toNat :=
    Finset.sum_lt_sum (fun h _ => hs.length_le h) ⟨h, Finset.mem_univ h, hroom⟩
  rw [Finset.sum_const_nat fun _ _ => rfl, Finset.card_univ, Fintype.card_fin] at hlt
  exact absurd (hsum.trans_lt hlt) (heads_mul_window_le c).not_gt

/-- A step that only uses the entries of one bucket. -/
theorem update (hs : Owned s hand free bucket owner) {changed l : List UInt32}
    {hand' : Option UInt32} (hlinks : LinksOnly s s' h changed)
    (hchanged : ∀ i ∈ changed, owner i = some h)
    (hl : Linked (s'.ring h) invalidBlkno l) (hnum : (s'.lruTable h).num.toNat = l.length)
    (hmem : ∀ i, i ∈ l ∨ hand' = some i ↔ i ∈ bucket h ∨ hand h = some i)
    (hdisj : ∀ i, hand' = some i → i ∉ l)
    (hlen : l.length + hand'.toList.length = (bucket h).length + (hand h).toList.length) :
    Owned s' (Function.update hand h hand') free (Function.update bucket h l) owner where
  walk := by
    rw [hlinks.freeList]
    refine hs.walk.congr fun i hi => congrArg LRUListEntry.next (hlinks.entries i fun hc => ?_)
    exact Option.some_ne_none h ((hchanged i hc).symm.trans ((hs.mem_free i).mp hi).2)
  num_free := by rw [hlinks.freeList]; exact hs.num_free
  mem_free := hs.mem_free
  linked h' := by
    by_cases hh : h' = h
    · subst hh
      rwa [Function.update_self]
    · rw [Function.update_of_ne hh]
      exact linked_congr (hs.linked h') (fun i => hs.lt_of_mem_bucket) (hlinks.lruTable h' hh) fun i hi =>
        hlinks.entries i fun hc => hh (Option.some.inj
          ((hs.owner_of_mem_bucket hi).symm.trans (hchanged i hc)))
  num h' := by
    by_cases hh : h' = h
    · subst hh
      rwa [Function.update_self]
    · rw [Function.update_of_ne hh, hlinks.lruTable h' hh]
      exact hs.num h'
  mem_owned h' i := by
    by_cases hh : h' = h
    · subst hh
      rw [Function.update_self, Function.update_self, hmem i]
      exact hs.mem_owned h' i
    · rw [Function.update_of_ne hh, Function.update_of_ne hh]
      exact hs.mem_owned h' i
  hand_notMem h' i := by
    by_cases hh : h' = h
    · subst hh
      rw [Function.update_self, Function.update_self]
      exact hdisj i
    · rw [Function.update_of_ne hh, Function.update_of_ne hh]
      exact hs.hand_notMem h' i
  length_le h' := by
    by_cases hh : h' = h
    · subst hh
      rw [Function.update_self, Function.update_self, hlen]
      exact hs.length_le h'
    · rw [Function.update_of_ne hh, Function.update_of_ne hh]
      exact hs.length_le h'

/-- **`popFreeEntry`.** A bucket with room gets a free entry into its hand. -/
theorem popFreeEntry (hs : Owned s hand free bucket owner) (hhand : hand h = none)
    (hroom : (bucket h).length < c.lruWindowSize.toNat) :
    ∃ i s', (popFreeEntry (c := c) (z := z)).run s = (.ok i, s') ∧ i < c.cacheBlockNum ∧
      Owned s' (Function.update hand h (some i)) free.tail bucket
        (Function.update owner i (some h)) ∧
      s'.lruTable = s.lruTable ∧ s'.entries = s.entries ∧ s'.data = s.data := by
  have hne := hs.free_ne_nil (h := h) (by simpa [hhand] using hroom)
  obtain ⟨i, free, rfl⟩ := List.exists_cons_of_ne_nil hne
  have hhead : s.freeList.next = i := hs.walk.head_eq
  obtain ⟨hi, hnone⟩ := (hs.mem_free i).mp List.mem_cons_self
  have hnodup := List.nodup_cons.mp hs.walk.nodup
  have hwalk : Walk (fun j => (s.entries j).next) invalidBlkno (s.entries i).next free := by
    have := hhead ▸ hs.walk
    cases this with
    | step _ h => exact h
  let s' : GraphCache c z :=
    { s with freeList := { s.freeList with
        next := (s.entries i).next, num := s.freeList.num - 1 } }
  have hrun : (GraphCache.popFreeEntry (c := c) (z := z)).run s = (.ok i, s') := by
    rw [GraphCache.popFreeEntry, Prog.run_get_bind]
    simp only [hhead]
    rw [Prog.run_bind_of_ok (run_entry hi s), Prog.run_modify_bind]
    rfl
  have howner : ∀ h', owner i ≠ some h' := fun h' => by simp [hnone]
  have hbucket : ∀ h', i ∉ bucket h' := fun h' hm => howner h' (hs.owner_of_mem_bucket hm)
  have hupdate : ∀ j, j ≠ i → Function.update owner i (some h) j = owner j :=
    fun j hj => Function.update_of_ne hj _ _
  refine ⟨i, s', hrun, hi, ⟨hwalk, ?_, ?_, hs.linked, hs.num, ?_, ?_, ?_⟩, rfl, rfl, rfl⟩
  · have hnum := hs.num_free
    have hone : (1 : UInt32) ≤ s.freeList.num := by
      rw [UInt32.le_iff_toNat_le, hnum]
      simp
    change (s.freeList.num - 1).toNat = free.length
    rw [UInt32.toNat_sub_of_le _ _ hone, hnum]
    simp
  · intro j
    by_cases hj : j = i
    · subst hj
      simp [hnodup.1]
    · rw [hupdate j hj, ← hs.mem_free j]
      simp [hj]
  · intro h' j
    by_cases hj : j = i
    · subst hj
      rw [Function.update_self]
      by_cases hh : h' = h
      · subst hh
        simp [hi]
      · rw [Function.update_of_ne hh]
        have hnot : ¬(j ∈ bucket h' ∨ hand h' = some j) :=
          fun hm => howner h' ((hs.mem_owned h' j).mp hm).2
        simp [hnot, Ne.symm hh]
    · rw [hupdate j hj, ← hs.mem_owned h' j]
      by_cases hh : h' = h
      · subst hh
        simp [hhand, Ne.symm hj]
      · rw [Function.update_of_ne hh]
  · intro h' j hj
    by_cases hh : h' = h
    · subst hh
      rw [Function.update_self] at hj
      exact Option.some.inj hj ▸ hbucket h'
    · rw [Function.update_of_ne hh] at hj
      exact hs.hand_notMem h' j hj
  · intro h'
    by_cases hh : h' = h
    · subst hh
      rw [Function.update_self]
      exact hroom
    · rw [Function.update_of_ne hh]
      exact hs.length_le h'

/-- **`move_front`.** -/
theorem moveFront (hs : Owned s hand free bucket owner) {l₁ l₂ : List UInt32}
    (hb : bucket h = l₁ ++ i :: l₂) :
    ∃ s', (GraphCache.moveFront h i).run s = (.ok (), s') ∧
      Owned s' hand free (Function.update bucket h (i :: (l₁ ++ l₂))) owner ∧
      s'.data = s.data ∧ ∀ j, s'.key j = s.key j := by
  have hl := hs.linked h
  rw [hb] at hl
  have hmem : ∀ j ∈ l₁ ++ i :: l₂, j ∈ bucket h := fun j hj => hb ▸ hj
  obtain ⟨s', hrun, hl', hnum, hlinks⟩ :=
    moveFront_run hl fun j hj => hs.lt_of_mem_bucket (hmem j hj)
  have hperm : (l₁ ++ i :: l₂).Perm (i :: (l₁ ++ l₂)) := List.perm_middle
  have hstep : Owned s' (Function.update hand h (hand h)) free
      (Function.update bucket h (i :: (l₁ ++ l₂))) owner :=
    hs.update hlinks (fun j hj => hs.owner_of_mem_bucket (hmem j hj)) hl'
      (by rw [hnum, hs.num h, hb, hperm.length_eq])
      (fun j => by rw [hb, hperm.mem_iff])
      (fun j hj => by rw [← hperm.mem_iff, ← hb]; exact hs.hand_notMem h j hj)
      (by rw [hb, hperm.length_eq])
  rw [Function.update_eq_self] at hstep
  exact ⟨s', hrun, hstep, hlinks.data, hlinks.key⟩

/-- **`push_front`.** The entry in the hand goes to the front of the bucket. -/
theorem pushFront (hs : Owned s hand free bucket owner) (hhand : hand h = some i) :
    ∃ s', (GraphCache.pushFront h i).run s = (.ok (), s') ∧
      Owned s' (Function.update hand h none) free (Function.update bucket h (i :: bucket h)) owner ∧
      s'.data = s.data ∧ ∀ j, s'.key j = s.key j := by
  obtain ⟨hi, howner⟩ := (hs.mem_owned h i).mp (Or.inr hhand)
  have hnot := hs.hand_notMem h i hhand
  have hlen := hs.length_le h
  have hlt : ∀ j ∈ i :: bucket h, j < c.cacheBlockNum ∧ owner j = some h := fun j hj =>
    (hs.mem_owned h j).mp ((List.mem_cons.mp hj).elim (fun e => Or.inr (e ▸ hhand)) Or.inl)
  have hroom : (s.lruTable h).num < c.lruWindowSize := by
    rw [UInt32.lt_iff_toNat_lt, hs.num h]
    simp only [hhand, Option.toList_some, List.length_singleton] at hlen
    omega
  obtain ⟨s', hrun, hl', hnum, hlinks⟩ :=
    pushFront_run (hs.linked h) (fun j hj => (hlt j hj).1) hnot hroom
  refine ⟨s', hrun, hs.update hlinks (fun j hj => (hlt j hj).2) hl' ?_ ?_ nofun ?_, hlinks.data,
    hlinks.key⟩
  · have hmax : (s.lruTable h).num.toNat + 1 < 2 ^ 32 := by
      have h₁ := UInt32.lt_iff_toNat_lt.mp hroom
      have h₂ := c.lruWindowSize.toNat_lt
      omega
    have hone : (1 : UInt32).toNat = 1 := rfl
    rw [hnum, UInt32.toNat_add, hone, Nat.mod_eq_of_lt hmax, hs.num h]
    rfl
  · intro j
    simp [hhand, or_comm, eq_comm]
  · simp [hhand]

/-- Overwriting the key and the block of an entry changes no links. -/
theorem fill (hs : Owned s hand free bucket owner) (hi : i < c.cacheBlockNum)
    (vtxno blkno : UInt32) (blk : Block z) :
    ∃ s', (GraphCache.fill i vtxno blkno blk).run s = (.ok (), s') ∧
      Owned s' hand free bucket owner ∧ s'.data = Function.update s.data i blk ∧
      s'.key = Function.update s.key i (vtxno, blkno) := by
  have hnext : ∀ j, ((s.setKey i vtxno blkno).entries j).next = (s.entries j).next := by
    intro j
    by_cases hj : j = i
    · subst hj; simp [setKey, setEntry]
    · simp [setKey, setEntry, hj]
  have hprev : ∀ j, ((s.setKey i vtxno blkno).entries j).prev = (s.entries j).prev := by
    intro j
    by_cases hj : j = i
    · subst hj; simp [setKey, setEntry]
    · simp [setKey, setEntry, hj]
  have hring : ∀ h, ((s.setKey i vtxno blkno).setData i blk).ring h = s.ring h := by
    intro h
    refine congrArg₂ Links.mk (funext fun j => ?_) (funext fun j => ?_)
    · exact congrArg (fun x => if j = invalidBlkno then (s.lruTable h).next else x) (hnext j)
    · exact congrArg (fun x => if j = invalidBlkno then (s.lruTable h).prev else x) (hprev j)
  refine ⟨(s.setKey i vtxno blkno).setData i blk, ?_, ⟨?_, hs.num_free, hs.mem_free, ?_, hs.num,
    hs.mem_owned, hs.hand_notMem, hs.length_le⟩, rfl, ?_⟩
  · rw [GraphCache.fill, Prog.run_bind_of_ok (run_assign hi _ s), run_assign hi]
  · exact hs.walk.congr fun j _ => hnext j
  · exact fun h => (hring h).symm ▸ hs.linked h
  · funext j
    by_cases hj : j = i
    · subst hj; simp [key, setData, setKey, setEntry]
    · simp [key, setData, setKey, setEntry, hj]

end Owned

/-! ### The constructor -/

/-- The free list after the first rounds of the constructor's loop. -/
private def initialFree (c : CacheConfig) : ℕ → List UInt32
  | 0 => []
  | i + 1 => (c.cacheBlockNum - 1 - UInt32.ofNat i) :: initialFree c i

private theorem toNat_initialFree {i : ℕ} (hi : i < c.cacheBlockNum.toNat) :
    (c.cacheBlockNum - 1 - UInt32.ofNat i).toNat = c.cacheBlockNum.toNat - 1 - i := by
  have hlt := c.cacheBlockNum.toNat_lt
  have hone : (1 : UInt32) ≤ c.cacheBlockNum := by
    rw [UInt32.le_iff_toNat_le]
    exact Nat.one_le_of_lt hi
  have hsub : (c.cacheBlockNum - 1).toNat = c.cacheBlockNum.toNat - 1 :=
    UInt32.toNat_sub_of_le _ _ hone
  have hof : (UInt32.ofNat i).toNat = i := UInt32.toNat_ofNat_of_lt' (show i < 2 ^ 32 by omega)
  have hle : UInt32.ofNat i ≤ c.cacheBlockNum - 1 := by
    rw [UInt32.le_iff_toNat_le, hsub, hof]
    omega
  rw [UInt32.toNat_sub_of_le _ _ hle, hsub, hof]

private theorem mem_initialFree {n : ℕ} (hn : n ≤ c.cacheBlockNum.toNat) (i : UInt32) :
    i ∈ initialFree c n ↔ c.cacheBlockNum.toNat - n ≤ i.toNat ∧ i < c.cacheBlockNum := by
  induction n with
  | zero =>
    rw [UInt32.lt_iff_toNat_lt]
    simp only [initialFree, List.not_mem_nil, false_iff]
    omega
  | succ n ih =>
    have hk := toNat_initialFree (c := c) (i := n) hn
    rw [initialFree, List.mem_cons, ih (Nat.le_of_succ_le hn), ← UInt32.toNat_inj, hk,
      UInt32.lt_iff_toNat_lt]
    omega

/-- The free list of the constructor's loop is chained. -/
private theorem walk_initEntries {s : GraphCache c z} (hnext : s.freeList.next = invalidBlkno)
    (hnum : s.freeList.num = 0) {n : ℕ} (hn : n ≤ c.cacheBlockNum.toNat) :
    Walk (fun i => ((s.initEntries n).entries i).next) invalidBlkno
      (s.initEntries n).freeList.next (initialFree c n) ∧
      (s.initEntries n).freeList.num.toNat = n := by
  induction n with
  | zero => exact ⟨hnext ▸ Walk.done, by simp [initEntries, hnum]⟩
  | succ n ih =>
    obtain ⟨hwalk, hcount⟩ := ih (Nat.le_of_succ_le hn)
    have hk := toNat_initialFree (c := c) (i := n) hn
    set k := c.cacheBlockNum - 1 - UInt32.ofNat n with hkdef
    have hlt : k < c.cacheBlockNum := by
      rw [UInt32.lt_iff_toNat_lt, hk]
      omega
    have hfresh : ∀ i ∈ initialFree c n, i ≠ k := by
      rintro i hi rfl
      have := ((mem_initialFree (Nat.le_of_succ_le hn) _).mp hi).1
      omega
    have hself : ((s.initEntries (n + 1)).entries (s.initEntries (n + 1)).freeList.next).next =
        (s.initEntries n).freeList.next := by
      simp [initEntries, initEntry, ← hkdef]
    refine ⟨.step (ne_invalidBlkno hlt) ?_, ?_⟩
    · rw [hself]
      refine hwalk.congr fun i hi => ?_
      simp [initEntries, initEntry, ← hkdef, hfresh i hi]
    · have hmax : n + 1 < 2 ^ 32 := by
        have := c.cacheBlockNum.toNat_lt
        omega
      have hone : (1 : UInt32).toNat = 1 := rfl
      change ((s.initEntries n).freeList.num + 1).toNat = n + 1
      rw [UInt32.toNat_add, hone, hcount, Nat.mod_eq_of_lt hmax]

/-- **The constructor.** All entries are free and all buckets are empty. -/
theorem owned_new (memory : GraphCache c z) :
    ∃ free, Owned (new memory) (fun _ => none) free (fun _ => []) (fun _ => none) := by
  let s : GraphCache c z :=
    { memory with
      data := fun _ _ => 0
      freeList := { next := invalidBlkno, prev := invalidBlkno, num := 0 } }
  obtain ⟨hwalk, hnum⟩ := walk_initEntries (s := s) rfl rfl le_rfl
  refine ⟨initialFree c c.cacheBlockNum.toNat, hwalk, ?_, ?_, ?_, ?_, ?_, nofun, ?_⟩
  · have hlen : ∀ n, (initialFree c n).length = n := fun n => by
      induction n with
      | zero => rfl
      | succ n ih => rw [initialFree, List.length_cons, ih]
    exact hnum.trans (hlen _).symm
  · intro i
    rw [mem_initialFree le_rfl]
    simp
  · intro h
    refine ⟨by simp, ?_⟩
    simp [Links.Adjacent, new, ring]
  · exact fun h => rfl
  · simp
  · simp

end GraphCache

end Nynn
