import Nynn.Cache.GraphCache

/-!
# The buckets of the cache as rings

The links of the entries are read as a ring through `INVALID_BLOCKNO`, closed by the ends of a
bucket. Moving an entry to the front is then the removal of a node and an insertion behind the
sentinel, and inserting a new entry in front is the insertion alone.

Source: `nynn_mm_graph_cache.h`.

## Main definitions

* `Nynn.GraphCache.ring`: the ring of a bucket.
* `Nynn.GraphCache.LinksOnly`: two states differ in the links of a bucket only.

## Main results

* `Nynn.GraphCache.find_run`: the search of a key.
* `Nynn.GraphCache.moveFront_run`, `Nynn.GraphCache.pushFront_run`: the updates of a bucket.
-/

namespace Nynn

open Program LinkedRing

namespace GraphCache

variable {c : CacheConfig} {z : BlockSz}

/-- The links of the entries, closed to a ring by the ends of a bucket. -/
def ring (s : GraphCache c z) (h : c.Head) : Links UInt32 where
  next i := if i = invalidBlkno then (s.lruTable h).next else (s.entries i).next
  prev i := if i = invalidBlkno then (s.lruTable h).prev else (s.entries i).prev

/-- The key of an entry. -/
def key (s : GraphCache c z) (i : UInt32) : UInt32 × UInt32 :=
  ((s.entries i).source, (s.entries i).blkno)

section

variable (s : GraphCache c z) (h : c.Head)

@[simp] theorem ring_next_invalidBlkno : (s.ring h).next invalidBlkno = (s.lruTable h).next := by
  simp [ring]

@[simp] theorem ring_prev_invalidBlkno : (s.ring h).prev invalidBlkno = (s.lruTable h).prev := by
  simp [ring]

theorem ring_next {i : UInt32} (hi : i ≠ invalidBlkno) :
    (s.ring h).next i = (s.entries i).next := by
  simp [ring, hi]

theorem ring_prev {i : UInt32} (hi : i ≠ invalidBlkno) :
    (s.ring h).prev i = (s.entries i).prev := by
  simp [ring, hi]

end

/-- The indexes of the entries are not `INVALID_BLOCKNO`. -/
theorem ne_invalidBlkno {i : UInt32} (hi : i < c.cacheBlockNum) : i ≠ invalidBlkno := by
  rintro rfl
  have h : invalidBlkno.toNat < c.cacheBlockNum.toNat := hi
  have hmax : invalidBlkno.toNat = 2 ^ 32 - 1 := rfl
  have := c.cacheBlockNum.toNat_lt
  omega

/-! ### Writes to a ring -/

/-- Let `x` follow `a`; the first entry follows `INVALID_BLOCKNO`. -/
def setNextLink (s : GraphCache c z) (h : c.Head) (a x : UInt32) : GraphCache c z :=
  if a = invalidBlkno then s.setHeadNext h x else s.setNext a x

/-- Let `x` precede `b`; the last entry precedes `INVALID_BLOCKNO`. -/
def setPrevLink (s : GraphCache c z) (h : c.Head) (b x : UInt32) : GraphCache c z :=
  if b = invalidBlkno then s.setHeadPrev h x else s.setPrev b x

theorem ring_setNextLink (s : GraphCache c z) (h : c.Head) (a x : UInt32) :
    (s.setNextLink h a x).ring h =
      { s.ring h with next := Function.update (s.ring h).next a x } := by
  unfold setNextLink
  split_ifs with ha
  · subst ha
    ext i
    · by_cases hi : i = invalidBlkno <;> simp [ring, hi, setHeadNext, setHead]
    · simp [ring, setHeadNext, setHead]
  · ext i
    · by_cases hi : i = a
      · subst hi
        simp [ring, ha, setNext, setEntry]
      · simp [ring, hi, setNext, setEntry]
    · by_cases hi : i = a
      · subst hi
        simp [ring, setNext, setEntry]
      · simp [ring, hi, setNext, setEntry]

theorem ring_setPrevLink (s : GraphCache c z) (h : c.Head) (b x : UInt32) :
    (s.setPrevLink h b x).ring h =
      { s.ring h with prev := Function.update (s.ring h).prev b x } := by
  unfold setPrevLink
  split_ifs with hb
  · subst hb
    ext i
    · simp [ring, setHeadPrev, setHead]
    · by_cases hi : i = invalidBlkno <;> simp [ring, hi, setHeadPrev, setHead]
  · ext i
    · by_cases hi : i = b
      · subst hi
        simp [ring, setPrev, setEntry]
      · simp [ring, hi, setPrev, setEntry]
    · by_cases hi : i = b
      · subst hi
        simp [ring, hb, setPrev, setEntry]
      · simp [ring, hi, setPrev, setEntry]

@[simp] theorem ring_setHeadNum (s : GraphCache c z) (h : c.Head) (n : UInt32) :
    (s.setHeadNum h n).ring h = s.ring h := by
  ext i <;> simp [ring, setHeadNum, setHead]

/-- The states differ only in the links of the entries in `changed` and in the head of bucket
`h`. -/
structure LinksOnly (s s' : GraphCache c z) (h : c.Head) (changed : List UInt32) : Prop where
  freeList : s'.freeList = s.freeList
  data : s'.data = s.data
  lruTable : ∀ h', h' ≠ h → s'.lruTable h' = s.lruTable h'
  entries : ∀ i, i ∉ changed → s'.entries i = s.entries i
  key : ∀ i, s'.key i = s.key i

namespace LinksOnly

variable {s s' s'' : GraphCache c z} {h : c.Head} {changed changed' : List UInt32}

theorem trans (hs : LinksOnly s s' h changed) (hs' : LinksOnly s' s'' h changed') :
    LinksOnly s s'' h (changed ++ changed') where
  freeList := hs'.freeList.trans hs.freeList
  data := hs'.data.trans hs.data
  lruTable h' hh := (hs'.lruTable h' hh).trans (hs.lruTable h' hh)
  entries i hi := by
    rw [List.mem_append, not_or] at hi
    exact (hs'.entries i hi.2).trans (hs.entries i hi.1)
  key i := (hs'.key i).trans (hs.key i)

theorem mono (hs : LinksOnly s s' h changed) (hsub : ∀ i ∈ changed, i ∈ changed') :
    LinksOnly s s' h changed' :=
  { hs with entries := fun i hi => hs.entries i fun hc => hi (hsub i hc) }

protected theorem refl (s : GraphCache c z) (h : c.Head) : LinksOnly s s h [] :=
  ⟨rfl, rfl, fun _ _ => rfl, fun _ _ => rfl, fun _ => rfl⟩

theorem setHead (s : GraphCache c z) (h : c.Head) (l : LRUList) :
    LinksOnly s (s.setHead h l) h [] where
  freeList := rfl
  data := rfl
  lruTable _ hh := Function.update_of_ne hh _ _
  entries _ _ := rfl
  key _ := rfl

theorem setEntry (s : GraphCache c z) (h : c.Head) (i : UInt32) {e : LRUListEntry}
    (hs : e.source = (s.entries i).source) (hb : e.blkno = (s.entries i).blkno) :
    LinksOnly s (s.setEntry i e) h [i] where
  freeList := rfl
  data := rfl
  lruTable _ _ := rfl
  entries j hj := Function.update_of_ne (by simpa using hj) _ _
  key j := by
    by_cases hj : j = i
    · subst hj
      simp [GraphCache.key, GraphCache.setEntry, hs, hb]
    · simp [GraphCache.key, GraphCache.setEntry, hj]

theorem setHeadNext (s : GraphCache c z) (h : c.Head) (x : UInt32) :
    LinksOnly s (s.setHeadNext h x) h [] := setHead s h _

theorem setHeadPrev (s : GraphCache c z) (h : c.Head) (x : UInt32) :
    LinksOnly s (s.setHeadPrev h x) h [] := setHead s h _

theorem setHeadNum (s : GraphCache c z) (h : c.Head) (n : UInt32) :
    LinksOnly s (s.setHeadNum h n) h [] := setHead s h _

theorem setNext (s : GraphCache c z) (h : c.Head) (i x : UInt32) :
    LinksOnly s (s.setNext i x) h [i] := setEntry s h i rfl rfl

theorem setPrev (s : GraphCache c z) (h : c.Head) (i x : UInt32) :
    LinksOnly s (s.setPrev i x) h [i] := setEntry s h i rfl rfl

end LinksOnly

/-! ### Accesses that succeed -/

theorem run_check {p : Prop} [Decidable p] (hp : p) (s : GraphCache c z) :
    (check p).run s = (.ok (), s) := by
  simp [check, hp]

theorem run_checkKey {vtxno blkno : UInt32}
    (hk : vtxno ≠ invalidVertexno ∧ blkno ≠ invalidBlkno) (s : GraphCache c z) :
    (checkKey vtxno blkno).run s = (.ok (), s) := by
  rw [checkKey, Prog.run_bind_of_ok (run_check hk.1 s), run_check hk.2]

theorem run_entry {i : UInt32} (hi : i < c.cacheBlockNum) (s : GraphCache c z) :
    (entry i).run s = (.ok (s.entries i), s) := by
  simp [entry, hi]

theorem run_head (h : c.Head) (s : GraphCache c z) :
    (head h).run s = (.ok (s.lruTable h), s) := rfl

theorem run_assign {i : UInt32} (hi : i < c.cacheBlockNum)
    (f : GraphCache c z → GraphCache c z) (s : GraphCache c z) :
    (assign i f).run s = (.ok (), f s) := by
  simp [assign, hi]

theorem run_copy {i : UInt32} (hi : i < c.cacheBlockNum) (s : GraphCache c z) :
    (copy i).run s = (.ok (s.data i), s) := by
  simp [copy, hi]

/-! ### The search -/

/-- The first entry of a list with a key, or `INVALID_BLOCKNO`. -/
def firstMatch (s : GraphCache c z) (l : List UInt32) (k : UInt32 × UInt32) : UInt32 :=
  (l.find? fun i => s.key i = k).getD invalidBlkno

private theorem findFrom_run {s : GraphCache c z} {vtxno blkno : UInt32} {n : ℕ} {curr : UInt32}
    {l : List UInt32} {next : UInt32 → UInt32} (hw : Walk next invalidBlkno curr l)
    (hnext : ∀ i ∈ l, next i = (s.entries i).next) (hlt : ∀ i ∈ l, i < c.cacheBlockNum)
    (hn : l.length < n) :
    (findFrom vtxno blkno n curr).run s = (.ok (s.firstMatch l (vtxno, blkno)), s) := by
  induction hw generalizing n with
  | done =>
    obtain ⟨n, rfl⟩ := Nat.exists_eq_succ_of_ne_zero (Nat.ne_of_gt hn)
    simp [findFrom, firstMatch]
  | @step a l ha _ ih =>
    obtain ⟨n, rfl⟩ := Nat.exists_eq_succ_of_ne_zero (Nat.ne_of_gt (Nat.zero_lt_of_lt hn))
    rw [findFrom, if_neg ha, Prog.run_bind_of_ok (run_entry (hlt a List.mem_cons_self) s)]
    by_cases hkey : s.key a = (vtxno, blkno)
    · have heq : (s.entries a).source = vtxno ∧ (s.entries a).blkno = blkno := by
        simpa [key] using hkey
      rw [if_pos heq, firstMatch, List.find?_cons_of_pos (by simpa using hkey)]
      rfl
    · have hne : ¬((s.entries a).source = vtxno ∧ (s.entries a).blkno = blkno) := by
        simpa [key] using hkey
      rw [if_neg hne, ← hnext a List.mem_cons_self, firstMatch,
        List.find?_cons_of_neg (by simpa using hkey)]
      refine ih (fun i hi => hnext i (List.mem_cons_of_mem _ hi))
        (fun i hi => hlt i (List.mem_cons_of_mem _ hi)) ?_
      rw [List.length_cons] at hn
      omega

section

variable {s : GraphCache c z} {h : c.Head} {l l₁ l₂ : List UInt32} {e : UInt32}

/-- The search of a bucket finds the first entry with the key. -/
theorem find_run (hl : Linked (s.ring h) invalidBlkno l) (hlt : ∀ i ∈ l, i < c.cacheBlockNum)
    (hlen : l.length ≤ c.cacheBlockNum.toNat) (vtxno blkno : UInt32) :
    (find h vtxno blkno).run s = (.ok (s.firstMatch l (vtxno, blkno)), s) := by
  have hw := hl.walk_next
  rw [ring_next_invalidBlkno] at hw
  rw [find, Prog.run_bind_of_ok (run_head h s)]
  exact findFrom_run hw (fun i hi => s.ring_next h (ne_invalidBlkno (hlt i hi))) hlt
    (Nat.lt_succ_of_le hlen)

theorem firstMatch_eq_invalidBlkno (hlt : ∀ i ∈ l, i < c.cacheBlockNum) {k : UInt32 × UInt32} :
    s.firstMatch l k = invalidBlkno ↔ ∀ i ∈ l, s.key i ≠ k := by
  rw [firstMatch]
  rcases hf : l.find? (fun i => s.key i = k) with _ | i
  · simpa using hf
  · have hi := List.mem_of_find?_eq_some hf
    have hk : s.key i = k := by simpa using List.find?_some hf
    simp only [Option.getD_some]
    exact ⟨fun heq => absurd heq (ne_invalidBlkno (hlt i hi)), fun hne => absurd hk (hne i hi)⟩

theorem firstMatch_mem {k : UInt32 × UInt32} (hne : s.firstMatch l k ≠ invalidBlkno) :
    s.firstMatch l k ∈ l ∧ s.key (s.firstMatch l k) = k := by
  rw [firstMatch] at hne ⊢
  rcases hf : l.find? (fun i => s.key i = k) with _ | i
  · simp [hf] at hne
  · exact ⟨List.mem_of_find?_eq_some hf, by simpa using List.find?_some hf⟩

/-! ### The updates of a bucket -/

/-- A bucket that is linked through an entry passes the check. -/
theorem checkLRUList_run (hl : Linked (s.ring h) invalidBlkno (e :: l))
    (hlt : ∀ i ∈ e :: l, i < c.cacheBlockNum) : (checkLRUList h).run s = (.ok (), s) := by
  have he := hlt e List.mem_cons_self
  have hfirst : (s.lruTable h).next = e := by
    rw [← ring_next_invalidBlkno, hl.next_nil]
    rfl
  have hprev : (s.entries e).prev = invalidBlkno := by
    have hmid : Linked (s.ring h) invalidBlkno ([] ++ e :: l) := hl
    rw [← ring_prev s h (ne_invalidBlkno he), hmid.adjacent_mid.1]
    rfl
  rw [checkLRUList, Prog.run_bind_of_ok (run_head h s), if_pos (hfirst ▸ ne_invalidBlkno he),
    hfirst, Prog.run_bind_of_ok (run_entry he s), if_pos hprev]
  rfl

/-- The part of `move_front` that takes an entry behind the first one out of its bucket. -/
private theorem unlink_run (hl : Linked (s.ring h) invalidBlkno (l₁ ++ e :: l₂)) (hne : l₁ ≠ [])
    (hlt : ∀ i ∈ l₁ ++ e :: l₂, i < c.cacheBlockNum) :
    ∃ s', (do
        let old ← entry e
        assign old.prev (·.setNext old.prev old.next)
        let old ← entry e
        (if old.next ≠ invalidBlkno then do
          check ((s.lruTable h).prev ≠ e)
          assign old.next (·.setPrev old.next old.prev)
        else do
          check ((s.lruTable h).prev = e)
          Prog.modify (·.setHeadPrev h old.prev)
          assign old.prev (·.setNext old.prev invalidBlkno))).run s = (.ok (), s') ∧
      s'.ring h = (s.ring h).unlink (before invalidBlkno l₁) (after invalidBlkno l₂) ∧
      (s'.lruTable h).num = (s.lruTable h).num ∧
      LinksOnly s s' h (l₁ ++ e :: l₂) := by
  have he : e < c.cacheBlockNum := hlt e (by simp)
  have hprev : (s.entries e).prev = before invalidBlkno l₁ :=
    (s.ring_prev h (ne_invalidBlkno he)).symm.trans hl.adjacent_mid.1
  have hnext : (s.entries e).next = after invalidBlkno l₂ :=
    (s.ring_next h (ne_invalidBlkno he)).symm.trans hl.adjacent_mid.2
  have htail : (s.lruTable h).prev = before invalidBlkno (l₁ ++ e :: l₂) := by
    rw [← ring_prev_invalidBlkno, hl.prev_nil]
  obtain ⟨l₁, p, rfl⟩ := List.eq_nil_or_concat l₁ |>.resolve_left hne
  have hbefore : before invalidBlkno (l₁.concat p) = p := by simp [before]
  rw [hbefore] at hprev ⊢
  have hp : p < c.cacheBlockNum := hlt p (by simp)
  have hpe : e ≠ p := by
    rintro rfl
    have := hl.list_nodup
    simp [List.nodup_append] at this
  set n := after invalidBlkno l₂ with hn
  -- after the first write the entry itself is as it was
  have hkeep : ((s.setNext p n).entries e) = s.entries e := Function.update_of_ne hpe _ _
  have hfirst : s.setNext p n = s.setNextLink h p n := by
    rw [setNextLink, if_neg (ne_invalidBlkno hp)]
  rw [Prog.run_bind_of_ok (run_entry he s), hprev, hnext, Prog.run_bind_of_ok (run_assign hp _ s),
    Prog.run_bind_of_ok (run_entry he _), hkeep, hprev, hnext]
  cases l₂ with
  | nil =>
    have hlast : (s.lruTable h).prev = e := by rw [htail]; simp [before]
    rw [if_neg (not_not.mpr (show n = invalidBlkno from rfl)),
      Prog.run_bind_of_ok (run_check hlast _), Prog.run_modify_bind, run_assign hp]
    have hstate : ((s.setNext p n).setHeadPrev h p).setNext p invalidBlkno =
        ((s.setNextLink h p n).setPrevLink h n p).setNextLink h p n := by
      rw [hfirst, setPrevLink, if_pos (show n = invalidBlkno from rfl), setNextLink, setNextLink,
        if_neg (ne_invalidBlkno hp), if_neg (ne_invalidBlkno hp)]
      rfl
    refine ⟨_, rfl, ?_, ?_, ?_⟩
    · rw [hstate, ring_setNextLink, ring_setPrevLink, ring_setNextLink]
      simp [Links.unlink]
    · simp [setNext, setHeadPrev, setEntry, setHead]
    · have hlinks := ((LinksOnly.setNext s h p n).trans (.setHeadPrev _ h p)).trans
        (.setNext _ h p invalidBlkno)
      exact hlinks.mono (by simp)
  | cons b l₂ =>
    have hnb : n = b := rfl
    have hb : n < c.cacheBlockNum := hlt b (by simp)
    have hlast : (s.lruTable h).prev ≠ e := by
      rw [htail]
      have hnd := hl.list_nodup
      rw [List.nodup_append] at hnd
      have hbl : before invalidBlkno (l₁.concat p ++ e :: b :: l₂) = before b l₂ := by
        simp [before, List.getLastD_eq_getLast?, List.getLast?_append, List.getLast?_cons]
      rw [hbl]
      exact fun heq => (List.nodup_cons.mp hnd.2.1).1 (heq ▸ before_mem b l₂)
    rw [if_pos (ne_invalidBlkno hb), Prog.run_bind_of_ok (run_check hlast _), run_assign hb]
    refine ⟨_, rfl, ?_, ?_, ?_⟩
    · have hsecond : (s.setNext p n).setPrev n p = (s.setNextLink h p n).setPrevLink h n p := by
        rw [hfirst, setPrevLink, if_neg (ne_invalidBlkno hb)]
      rw [hsecond, ring_setPrevLink, ring_setNextLink]
      rfl
    · rfl
    · exact ((LinksOnly.setNext s h p n).trans (.setPrev _ h n p)).mono (by simp [hnb])

/-- **`move_front`.** The entry becomes the first one of its bucket. -/
theorem moveFront_run (hl : Linked (s.ring h) invalidBlkno (l₁ ++ e :: l₂))
    (hlt : ∀ i ∈ l₁ ++ e :: l₂, i < c.cacheBlockNum) :
    ∃ s', (moveFront h e).run s = (.ok (), s') ∧
      Linked (s'.ring h) invalidBlkno (e :: (l₁ ++ l₂)) ∧
      (s'.lruTable h).num = (s.lruTable h).num ∧ LinksOnly s s' h (l₁ ++ e :: l₂) := by
  have he : e < c.cacheBlockNum := hlt e (by simp)
  have hhead : (s.lruTable h).next = after invalidBlkno (l₁ ++ e :: l₂) := by
    rw [← ring_next_invalidBlkno, hl.next_nil]
  rw [moveFront, Prog.run_bind_of_ok (run_check (ne_invalidBlkno he) s),
    Prog.run_bind_of_ok (run_head h s)]
  cases l₁ with
  | nil =>
    have hfirst : (s.lruTable h).next = e := hhead
    rw [if_neg (not_not.mpr hfirst), Prog.pure_bind]
    exact ⟨s, checkLRUList_run hl hlt, hl, rfl, (LinksOnly.refl s h).mono (by simp)⟩
  | cons a l₁ =>
    have hfirst : (s.lruTable h).next = a := hhead
    have ha : a < c.cacheBlockNum := hlt a (by simp)
    have hae : e ≠ a := by
      rintro rfl
      have := hl.list_nodup
      simp at this
    obtain ⟨s₁, hrun, hring, hnum, hlinks⟩ := unlink_run hl (List.cons_ne_nil a l₁) hlt
    have hout : Linked (s₁.ring h) invalidBlkno ([] ++ a :: (l₁ ++ l₂)) := hring ▸ hl.unlink
    have hstate : (((s₁.setPrev e invalidBlkno).setNext e a).setPrev a e).setHeadNext h e =
        (((s₁.setPrevLink h e invalidBlkno).setNextLink h e a).setPrevLink h a e).setNextLink h
          invalidBlkno e := by
      simp only [setNextLink, setPrevLink, if_neg (ne_invalidBlkno ha), if_neg (ne_invalidBlkno he),
        if_pos]
    have hnot : e ∉ invalidBlkno :: ([] ++ a :: (l₁ ++ l₂)) := by
      have hperm : (a :: l₁ ++ e :: l₂).Perm (e :: (a :: l₁ ++ l₂)) := List.perm_middle
      have hmem := (List.nodup_cons.mp (hperm.nodup_iff.mp hl.list_nodup)).1
      exact fun hm => (List.mem_cons.mp hm).elim (ne_invalidBlkno he) hmem
    have hring' : ((((s₁.setPrev e invalidBlkno).setNext e a).setPrev a e).setHeadNext h e).ring h
        = (s₁.ring h).insert (before invalidBlkno []) e (after invalidBlkno (a :: (l₁ ++ l₂))) := by
      rw [hstate, ring_setNextLink, ring_setPrevLink, ring_setNextLink, ring_setPrevLink]
      simp only [Links.insert, before, after, List.getLastD_nil, List.headD_cons]
      rw [Function.update_comm (ne_invalidBlkno he), Function.update_comm hae]
    have hin := hout.insert hnot
    rw [← hring'] at hin
    have hseq := Prog.run_bind_of_ok (f := fun _ : Unit => do
        assign e (·.setPrev e invalidBlkno)
        assign e (·.setNext e a)
        assign a (·.setPrev a e)
        Prog.modify (·.setHeadNext h e)) hrun
    rw [Prog.run_bind_of_ok (run_assign he _ _), Prog.run_bind_of_ok (run_assign he _ _),
      Prog.run_bind_of_ok (run_assign ha _ _), Prog.run_modify] at hseq
    simp only [Prog.bind_assoc] at hseq
    rw [if_pos (by rw [hfirst]; exact hae.symm), hfirst, Prog.run_bind_of_ok hseq]
    refine ⟨_, checkLRUList_run hin ?_, hin, ?_, ?_⟩
    · intro i hi
      exact hlt i (List.perm_middle.mem_iff.mpr hi)
    · simpa [setHeadNext, setHead, setNext, setPrev, setEntry] using hnum
    · have hfront := (((LinksOnly.setPrev s₁ h e invalidBlkno).trans (.setNext _ h e a)).trans
        (.setPrev _ h a e)).trans (.setHeadNext _ h e)
      refine (hlinks.trans hfront).mono fun i hi => ?_
      simp only [List.mem_append, List.mem_cons, List.not_mem_nil, or_false] at hi ⊢
      tauto

/-- **`push_front`.** A new entry becomes the first one of a bucket that has room. -/
theorem pushFront_run (hl : Linked (s.ring h) invalidBlkno l)
    (hlt : ∀ i ∈ e :: l, i < c.cacheBlockNum) (hnot : e ∉ l)
    (hroom : (s.lruTable h).num < c.lruWindowSize) :
    ∃ s', (pushFront h e).run s = (.ok (), s') ∧
      Linked (s'.ring h) invalidBlkno (e :: l) ∧
      (s'.lruTable h).num = (s.lruTable h).num + 1 ∧ LinksOnly s s' h (e :: l) := by
  have he : e < c.cacheBlockNum := hlt e List.mem_cons_self
  set n := (s.lruTable h).next with hn
  have hfirst : n = after invalidBlkno l := by
    rw [hn, ← ring_next_invalidBlkno, hl.next_nil]
  have hlast : (s.lruTable h).prev = before invalidBlkno l := by
    rw [← ring_prev_invalidBlkno, hl.prev_nil]
  set s₁ := (s.setNext e n).setHeadNext h e with hs₁
  have hentry : (s₁.entries e).next = n := by simp [hs₁, setHeadNext, setHead, setNext, setEntry]
  have hnot' : e ∉ invalidBlkno :: ([] ++ l) :=
    fun hm => (List.mem_cons.mp hm).elim (ne_invalidBlkno he) hnot
  have hring : (((s₁.setPrevLink h n e).setPrev e invalidBlkno).setHeadNum h
      ((s.lruTable h).num + 1)).ring h = (s.ring h).insert (before invalidBlkno []) e
        (after invalidBlkno l) := by
    have hstate : (s₁.setPrevLink h n e).setPrev e invalidBlkno =
        ((((s.setNextLink h e n).setNextLink h invalidBlkno e).setPrevLink h n e).setPrevLink h e
          invalidBlkno) := by
      simp only [hs₁, setNextLink, if_neg (ne_invalidBlkno he), if_pos]
      rw [setPrevLink.eq_def _ h e, if_neg (ne_invalidBlkno he)]
    rw [ring_setHeadNum, hstate, ring_setPrevLink, ring_setPrevLink, ring_setNextLink,
      ring_setNextLink, ← hfirst]
    simp only [Links.insert, before, List.getLastD_nil]
    rw [Function.update_comm (ne_invalidBlkno he)]
  have hnil : Linked (s.ring h) invalidBlkno ([] ++ l) := hl
  have hin := hnil.insert hnot'
  rw [← hring] at hin
  -- the branch writes the link in front of the old first entry, in an entry or in the head
  have hbranch : (if n ≠ invalidBlkno then do
        check ((s.lruTable h).prev ≠ invalidBlkno)
        assign n (·.setPrev n e)
      else do
        check ((s.lruTable h).prev = invalidBlkno)
        Prog.modify (·.setHeadPrev h e)).run s₁ = (.ok (), s₁.setPrevLink h n e) := by
    cases l with
    | nil =>
      have hn' : n = invalidBlkno := hfirst
      have hlast' : (s.lruTable h).prev = invalidBlkno := hlast
      rw [if_neg (not_not.mpr hn'), Prog.run_bind_of_ok (run_check hlast' _), Prog.run_modify,
        setPrevLink, if_pos hn']
    | cons a l =>
      have ha : n < c.cacheBlockNum := hfirst ▸ hlt a (by simp)
      have hlast' : (s.lruTable h).prev ≠ invalidBlkno := by
        have hbefore : before invalidBlkno (a :: l) = before a l := by
          simp [before, List.getLastD_eq_getLast?, List.getLast?_cons]
        rw [hlast, hbefore]
        exact ne_invalidBlkno (hlt _ (List.mem_cons_of_mem _ (before_mem a l)))
      rw [if_pos (ne_invalidBlkno ha), Prog.run_bind_of_ok (run_check hlast' _), run_assign ha,
        setPrevLink, if_neg (ne_invalidBlkno ha)]
  rw [pushFront, Prog.run_bind_of_ok (run_head h s), Prog.run_bind_of_ok (run_check hroom s),
    Prog.run_bind_of_ok (run_check (ne_invalidBlkno he) s), Prog.run_bind_of_ok (run_assign he _ s),
    Prog.run_modify_bind, ← hn, ← hs₁, Prog.run_bind_of_ok (run_entry he s₁), hentry,
    Prog.run_bind_of_ok hbranch, Prog.run_bind_of_ok (run_assign he _ _), Prog.run_modify_bind]
  refine ⟨_, checkLRUList_run hin hlt, hin, ?_, ?_⟩
  · simp [setHeadNum, setHead]
  · have hhead := ((LinksOnly.setNext s h e n).trans (.setHeadNext _ h e))
    have hback : LinksOnly s₁ (s₁.setPrevLink h n e) h l := by
      cases l with
      | nil =>
        have hn' : n = invalidBlkno := hfirst
        rw [setPrevLink, if_pos hn']
        exact .setHeadPrev _ h e
      | cons a l =>
        have ha : n = a := hfirst
        rw [setPrevLink, if_neg (ne_invalidBlkno (ha ▸ hlt a (by simp)))]
        exact (LinksOnly.setPrev _ h n e).mono (by simp [ha])
    refine (((hhead.trans hback).trans (.setPrev _ h e invalidBlkno)).trans
      (.setHeadNum _ h _)).mono fun i hi => ?_
    simp only [List.mem_append, List.mem_cons, List.not_mem_nil, or_false] at hi ⊢
    tauto

end

end GraphCache

end Nynn
