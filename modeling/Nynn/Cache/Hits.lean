import Nynn.Cache.CacheRefinement
import Nynn.Library.Residency

/-!
# What the cache finds

A block that was put into the cache is found exactly as long as fewer than `LRU_WINDOW_SIZE` other
keys of its bucket are written or found. A read that finds nothing changes nothing, so a larger cache
orders its entries in another way; it finds what the smaller one finds all the same.

Source: `nynn_mm_graph_cache.h`.

## Main results

* `Nynn.graphCache_found_iff`: exactly when a read finds its block, and what it returns.
* `Nynn.graphCache_larger_finds`: with a larger window, the reads find no less.
-/

namespace Nynn

open Program Recency

variable {z : BlockSz}

/-- **Exactly when a block is found.** Once a write or a read that found it has brought a key to the
front, a read finds it exactly if fewer than `LRU_WINDOW_SIZE` other keys of its bucket were written
or found since, and it returns the bytes of the last write of the key. -/
theorem graphCache_found_iff {c : CacheConfig} (memory : GraphCache c z)
    {before after : List (Access CacheKey (Block z))} {a : Access CacheKey (Block z)}
    {A : c.Head → List (CacheKey × Block z)}
    (hA : A = serveAll c.lruWindowSize.toNat c.hashKey (fun _ => []) before)
    (ht : a.Touches (A (c.hashKey a.key)))
    (hnot : a.key ∉ touched c.lruWindowSize.toNat c.hashKey (c.hashKey a.key)
      (serve c.lruWindowSize.toNat c.hashKey A a) after) :
    ∃ rs s, (GraphCache.runCalls (before ++ a :: after ++ [.read a.key])).run
      (GraphCache.new memory) = (.ok (rs ++
        [if (touched c.lruWindowSize.toNat c.hashKey (c.hashKey a.key)
            (serve c.lruWindowSize.toNat c.hashKey A a) after).card < c.lruWindowSize.toNat then
          lastWrite a.key (before ++ a :: after) else none]), s) := by
  have hempty : ∀ _h : c.Head, Bounded c.lruWindowSize.toNat ([] : List (CacheKey × Block z)) :=
    fun _ => .nil _
  have hpos := GraphCache.window_pos c
  have hbounded : ∀ h, Bounded c.lruWindowSize.toNat (A h) :=
    hA ▸ Bounded.serveAll hempty hpos before
  have hall : serveAll c.lruWindowSize.toNat c.hashKey (fun _ => []) (before ++ a :: after) =
      serveAll c.lruWindowSize.toNat c.hashKey A (a :: after) := by rw [serveAll_append, hA]
  obtain ⟨s, hrun, -⟩ := (GraphCache.represents_new memory).runCalls hempty
    (before ++ a :: after ++ [.read a.key])
  have hfound : lookup (serveAll c.lruWindowSize.toNat c.hashKey (fun _ => [])
      (before ++ a :: after) (c.hashKey a.key)) a.key =
        if (touched c.lruWindowSize.toNat c.hashKey (c.hashKey a.key)
            (serve c.lruWindowSize.toNat c.hashKey A a) after).card < c.lruWindowSize.toNat then
          lastWrite a.key (before ++ a :: after) else none := by
    have hiff := resident_iff hbounded hpos ht after hnot
    split_ifs with hcard
    · have hmem := hiff.mpr hcard
      rw [← hall] at hmem
      obtain ⟨d, hd⟩ := Option.ne_none_iff_exists'.mp fun e => lookup_eq_none.mp e hmem
      exact hd.trans (lastWrite_of_mem _ (mem_of_lookup hd)).symm
    · rw [lookup_eq_none, hall]
      exact fun hmem => hcard (hiff.mp hmem)
  rw [results_concat] at hrun
  exact ⟨_, s, hrun.trans (congrArg (fun r => (Except.ok (_ ++ [r]), s)) hfound)⟩

/-- Two entries in one bucket. -/
def CacheConfig.two : CacheConfig := { small with cacheBlockNum := 2, one_le_window := by decide }

/-- Two keys of one bucket. -/
def CacheKey.one : CacheKey := ⟨(0, 1), by decide⟩

def CacheKey.two : CacheKey := ⟨(0, 2), by decide⟩

/-- A block of 128 zeros. -/
def zeros : Block ⟨7, by decide, by decide⟩ := fun _ => 0

/-- With two entries, a block is found although another one was written since. -/
theorem graphCache_found_iff_small : ∃ rs s,
    (GraphCache.runCalls [.write .one zeros, .write .two zeros, .read .one]).run
      (GraphCache.new (.zero .two _)) = (.ok (rs ++ [some zeros]), s) := by
  have hnot : CacheKey.one ∉ touched CacheConfig.two.lruWindowSize.toNat CacheConfig.two.hashKey
      (CacheConfig.two.hashKey .one) (serve CacheConfig.two.lruWindowSize.toNat
        CacheConfig.two.hashKey (fun _ => []) (.write .one zeros)) [.write .two zeros] := by decide
  obtain ⟨rs, s, hrun⟩ :=
    @graphCache_found_iff _ .two (.zero .two _) [] _ (.write .one zeros) _ rfl trivial hnot
  rw [if_pos (by decide)] at hrun
  exact ⟨rs, s, hrun⟩

/-- **A larger cache.** Of two caches that distribute the keys over their buckets in the same way, the
one with the larger window returns what the other one returns, whatever the calls, and may return a
block where the other one finds none. -/
theorem graphCache_larger_finds {c₁ c₂ : CacheConfig}
    (hhash : ∀ k k', c₁.hashKey k = c₁.hashKey k' ↔ c₂.hashKey k = c₂.hashKey k')
    (hw : c₁.lruWindowSize ≤ c₂.lruWindowSize) (memory₁ : GraphCache c₁ z)
    (memory₂ : GraphCache c₂ z) (as : List (Access CacheKey (Block z))) :
    ∃ rs₁ s₁ rs₂ s₂, (GraphCache.runCalls as).run (GraphCache.new memory₁) = (.ok rs₁, s₁) ∧
      (GraphCache.runCalls as).run (GraphCache.new memory₂) = (.ok rs₂, s₂) ∧
        List.Forall₂ (fun r₁ r₂ => ∀ d, r₁ = some d → r₂ = some d) rs₁ rs₂ := by
  obtain ⟨s₁, hrun₁, -⟩ := (GraphCache.represents_new memory₁).runCalls (fun _ => .nil _) as
  obtain ⟨s₂, hrun₂, -⟩ := (GraphCache.represents_new memory₂).runCalls (fun _ => .nil _) as
  refine ⟨_, s₁, _, s₂, hrun₁, hrun₂, ?_⟩
  have hsubsumes : Subsumes c₁.lruWindowSize.toNat c₁.hashKey c₂.hashKey
      (fun _ => ([] : List (CacheKey × Block z))) (fun _ => []) :=
    fun _ => ⟨List.Sublist.refl _, fun _ => rfl⟩
  exact hsubsumes.results (fun _ => .nil _) (GraphCache.window_pos c₂) (UInt32.le_iff_toNat_le.mp hw)
    hhash as

/-- With one entry the first block is lost, and with two it is found. -/
theorem graphCache_larger_finds_small : ∃ rs₁ s₁ rs₂ s₂,
    (GraphCache.runCalls [.write .one zeros, .write .two zeros, .read .one]).run
      (GraphCache.new (.zero .small _)) = (.ok rs₁, s₁) ∧
    (GraphCache.runCalls [.write .one zeros, .write .two zeros, .read .one]).run
      (GraphCache.new (.zero .two _)) = (.ok rs₂, s₂) ∧
        List.Forall₂ (fun r₁ r₂ => ∀ d, r₁ = some d → r₂ = some d) rs₁ rs₂ :=
  graphCache_larger_finds (fun _ _ => ⟨fun _ => rfl, fun _ => rfl⟩) (by decide) _ _ _

end Nynn
