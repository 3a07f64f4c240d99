import Nynn.Cache.CacheRefinement
import Nynn.Storage.VertexLists

/-!
# Reads through an agent

An agent knows the host of every subgraph and reads the blocks of vertices on other hosts through
its cache. A read that misses asks the host for the next blocks of the chain and caches all of them:
each prefetched block is cached under the number that the block before it names as its next one.

The provider of a host is reached through two calls, `read` and `readn`, which are parameters here;
`Nynn.Provider.Serves` is what they return for a vertex while no list of the store changes.

Source: `nynn_mm_graph.h`.

## Main definitions

* `Nynn.AgentConfig`, `Nynn.Agent`: an agent with its hosts, its providers and its cache.
* `Nynn.Agent.read`: `Graph::read`.
* `Nynn.QuiescentStore`: lists of blocks that do not change.
* `Nynn.GraphCache.Caches`: the cache holds a block under a key.

## Main results

* `Nynn.Agent.read_run`: a read returns the provider's bytes and caches only the provider's bytes.
* `Nynn.agentReads_transparent`: so does every sequence of reads from the empty cache.
-/

namespace Nynn

open Program LinkedRing Recency

/-- The sizes that an agent is compiled with. A block is at most as large as the 4096 bytes that
an agent prefetches. -/
structure AgentConfig where
  storage : Config
  cache : CacheConfig
  bytes_le : storage.blockSz.bytes ≤ 4096

namespace AgentConfig

variable (g : AgentConfig)

/-- The blocks of an agent. -/
abbrev Blk := Block g.storage.blockSz

/-- The number of blocks that a read asks for when it misses, `4096/sizeof(Block)`. -/
def prefetch : ℕ := 4096 / g.storage.blockSz.bytes

theorem prefetch_pos : 0 < g.prefetch :=
  Nat.div_pos g.bytes_le ((Nat.zero_lt_succ 31).trans_le g.storage.blockSz.le_bytes)

end AgentConfig

/-- The calls of `ProviderRPC` that a read makes. -/
structure Provider (g : AgentConfig) where
  read : (vtxno blkno : UInt32) → g.Blk
  readn : (vtxno blkno : UInt32) → (n : ℕ) → List g.Blk

/-- The state of `Graph` that a read uses. -/
structure Agent (g : AgentConfig) where
  localHost : String
  host2Provider : String → Option (Provider g)
  subgraph2Host : UInt32 → Option String
  graphCache : GraphCache g.cache g.storage.blockSz

/-- The ways in which a read goes wrong. -/
inductive AgentFault
  /-- A fault of the cache. -/
  | cache (e : CacheFault)
  /-- A call through a provider that is not there. -/
  | noProvider
  /-- A copy of the first of no blocks. -/
  | noBlocks
  /-- A copy of a block into a vector without room for it. -/
  | noRoom
  /-- A call that calls itself without end. -/
  | stackOverflow

namespace Agent

variable {g : AgentConfig}

/-- A call of the agent's cache. -/
def cached {α : Type} (x : Prog (GraphCache g.cache g.storage.blockSz) CacheFault α) :
    Prog (Agent g) AgentFault α :=
  ⟨fun s =>
    match x.run s.graphCache with
    | (.ok a, cache) => (.ok a, { s with graphCache := cache })
    | (.error e, cache) => (.error (.cache e), { s with graphCache := cache })⟩

/-- `getHost`: the host of the subgraph of a vertex, which becomes the empty string when it is not
known. -/
def getHost (vtxno : UInt32) : Prog (Agent g) AgentFault String := do
  let s ← Prog.get
  let sgkey := subgraphKey g.storage vtxno
  match s.subgraph2Host sgkey with
  | some host => pure host
  | none => do
    Prog.modify fun s =>
      { s with subgraph2Host := Function.update s.subgraph2Host sgkey (some "") }
    pure ""

/-- `getProvider`. -/
def getProvider (host : String) : Prog (Agent g) AgentFault (Provider g) := do
  let s ← Prog.get
  match s.host2Provider host with
  | some provider => pure provider
  | none => Prog.fail .noProvider

/-- The loop that caches prefetched blocks, each under the number that the one before it names. -/
def cacheBlocks (vtxno : UInt32) : UInt32 → List g.Blk → Prog (Agent g) AgentFault Unit
  | _, [] => pure ()
  | blkno, blk :: blks => do
    cached (GraphCache.write vtxno blkno blk)
    cacheBlocks vtxno blk.getNext blks

/-- `read`, with the block that it puts into `xblk`. -/
def read (vtxno blkno : UInt32) : Prog (Agent g) AgentFault g.Blk := do
  let host ← getHost vtxno
  let s ← Prog.get
  if s.localHost = host then do
    let provider ← getProvider host
    pure (provider.read vtxno blkno)
  else do
    let found ← cached (GraphCache.read vtxno blkno)
    match found with
    | some blk => pure blk
    | none => do
      let provider ← getProvider host
      match provider.readn vtxno blkno g.prefetch with
      | [] => Prog.fail .noBlocks
      | blk :: blks => do
        cacheBlocks vtxno blkno (blk :: blks)
        pure blk

/-- Reads one after the other, with the blocks that they return. -/
def readAll : List (UInt32 × UInt32) → Prog (Agent g) AgentFault (List g.Blk)
  | [] => pure []
  | k :: ks => do
    let blk ← read k.1 k.2
    let blks ← readAll ks
    pure (blk :: blks)

end Agent

/-! ### A store whose lists do not change -/

/-- The lists of blocks of the vertices, and the blocks, linked by their headers. -/
structure QuiescentStore (g : AgentConfig) where
  list : UInt32 → List UInt32
  block : (vtxno blkno : UInt32) → g.Blk
  /-- Only vertex numbers and block numbers that are valid are used. -/
  valid : ∀ {v b}, b ∈ list v → v ≠ invalidVertexno ∧ b ≠ invalidBlkno
  nodup : ∀ v, (list v).Nodup
  next : ∀ {v b} {l₁ l₂ : List UInt32}, list v = l₁ ++ b :: l₂ →
    (block v b).getNext = l₂.headD invalidBlkno

/-- What the provider of a vertex returns: the bytes of a block, and the `min n remaining` blocks of
the chain that starts at a block. -/
structure Provider.Serves {g : AgentConfig} (p : Provider g) (Q : QuiescentStore g) (v : UInt32) :
    Prop where
  read : ∀ b ∈ Q.list v, p.read v b = Q.block v b
  readn : ∀ b l₁ l₂ n, Q.list v = l₁ ++ b :: l₂ → 0 < n →
    p.readn v b n = ((b :: l₂).take n).map (Q.block v)

/-- A provider that serves a store. -/
def QuiescentStore.provider {g : AgentConfig} (Q : QuiescentStore g) : Provider g where
  read := Q.block
  readn v b n := (((Q.list v).dropWhile (· ≠ b)).take n).map (Q.block v)

theorem QuiescentStore.provider_serves {g : AgentConfig} (Q : QuiescentStore g) (v : UInt32) :
    Q.provider.Serves Q v where
  read _ _ := rfl
  readn b l₁ l₂ n hl _ := by
    have hnot : b ∉ l₁ := fun hb => by
      have hnodup := hl ▸ Q.nodup v
      exact (List.nodup_append.mp hnodup).2.2 b hb b List.mem_cons_self rfl
    have hdrop : (Q.list v).dropWhile (· ≠ b) = b :: l₂ := by
      rw [hl, List.dropWhile_append_of_pos fun a ha => by
        simpa using fun e : a = b => hnot (e ▸ ha), List.dropWhile_cons_of_neg (by simp)]
    exact congrArg (fun l => (l.take n).map (Q.block v)) hdrop

/-- The vertex is served by another host than the agent's own. -/
def Agent.Alien {g : AgentConfig} (s : Agent g) (Q : QuiescentStore g) (v : UInt32) : Prop :=
  ∃ host p, s.subgraph2Host (subgraphKey g.storage v) = some host ∧ host ≠ s.localHost ∧
    s.host2Provider host = some p ∧ p.Serves Q v

/-- Some bucket of the cache holds the bytes under the key. -/
def GraphCache.Caches {c : CacheConfig} {z : BlockSz} (s : GraphCache c z) (v b : UInt32)
    (blk : Block z) : Prop :=
  ∃ h l, Linked (s.ring h) invalidBlkno l ∧ ∃ i ∈ l, s.key i = (v, b) ∧ s.data i = blk

/-! ### Reads keep the cache fresh -/

namespace Agent

variable {g : AgentConfig} {Q : QuiescentStore g} {s : Agent g}

/-- The cache only holds blocks of the store, under their own numbers. -/
def Fresh (cache : GraphCache g.cache g.storage.blockSz) (Q : QuiescentStore g) : Prop :=
  ∃ A, cache.Represents A ∧ (∀ h, Bounded g.cache.lruWindowSize.toNat (A h)) ∧
    ∀ h, ∀ p ∈ A h, p.1.val.2 ∈ Q.list p.1.val.1 ∧ p.2 = Q.block p.1.val.1 p.1.val.2

theorem run_cached {α : Type} {x : Prog (GraphCache g.cache g.storage.blockSz) CacheFault α}
    {a : α} {cache : GraphCache g.cache g.storage.blockSz}
    (h : x.run s.graphCache = (.ok a, cache)) :
    (cached x).run s = (.ok a, { s with graphCache := cache }) := by
  rw [cached]
  simp only [h]

/-! What a read does, by where the block is found. -/

section Runs

variable {v b : UInt32} {host : String} {p : Provider g} {blk : g.Blk} {blks : List g.Blk}
  {cache : GraphCache g.cache g.storage.blockSz} {s' : Agent g}

theorem getHost_run (hhost : s.subgraph2Host (subgraphKey g.storage v) = some host) :
    (getHost v).run s = (.ok host, s) := by
  rw [getHost, Prog.run_get_bind]
  simp only [hhost]
  rfl

theorem getProvider_run (hp : s.host2Provider host = some p) :
    (getProvider host).run s = (.ok p, s) := by
  rw [getProvider, Prog.run_get_bind]
  simp only [hp]
  rfl

/-- A read of a block on the agent's own host. -/
theorem read_run_native (hhost : s.subgraph2Host (subgraphKey g.storage v) = some s.localHost)
    (hp : s.host2Provider s.localHost = some p) :
    (read v b).run s = (.ok (p.read v b), s) := by
  rw [read, Prog.run_bind_of_ok (getHost_run hhost), Prog.run_get_bind, if_pos rfl,
    Prog.run_bind_of_ok (getProvider_run hp), Prog.run_pure]

/-- A read that hits. -/
theorem read_run_hit (hhost : s.subgraph2Host (subgraphKey g.storage v) = some host)
    (hne : host ≠ s.localHost)
    (hread : (GraphCache.read v b).run s.graphCache = (.ok (some blk), cache)) :
    (read v b).run s = (.ok blk, { s with graphCache := cache }) := by
  rw [read, Prog.run_bind_of_ok (getHost_run hhost), Prog.run_get_bind, if_neg (Ne.symm hne),
    Prog.run_bind_of_ok (run_cached hread)]
  rfl

/-- A read that misses. -/
theorem read_run_miss (hhost : s.subgraph2Host (subgraphKey g.storage v) = some host)
    (hne : host ≠ s.localHost)
    (hread : (GraphCache.read v b).run s.graphCache = (.ok none, cache))
    (hp : s.host2Provider host = some p) (hreadn : p.readn v b g.prefetch = blk :: blks)
    (hcache : (cacheBlocks v b (blk :: blks)).run { s with graphCache := cache } = (.ok (), s')) :
    (read v b).run s = (.ok blk, s') := by
  have hprovider : (getProvider host).run { s with graphCache := cache } =
      (.ok p, { s with graphCache := cache }) := getProvider_run hp
  rw [read, Prog.run_bind_of_ok (getHost_run hhost), Prog.run_get_bind, if_neg (Ne.symm hne),
    Prog.run_bind_of_ok (run_cached hread)]
  simp only
  rw [Prog.run_bind_of_ok hprovider, hreadn]
  exact Prog.run_bind_of_ok hcache

end Runs

/-- A call that writes only blocks of the store keeps the cache fresh. -/
private theorem fresh_serve {A : g.cache.Head → List (CacheKey × g.Blk)}
    (hA : ∀ h, ∀ p ∈ A h, p.1.val.2 ∈ Q.list p.1.val.1 ∧ p.2 = Q.block p.1.val.1 p.1.val.2)
    {a : Access CacheKey g.Blk}
    (ha : ∀ k d, a = .write k d → k.val.2 ∈ Q.list k.val.1 ∧ d = Q.block k.val.1 k.val.2)
    (h : g.cache.Head) : ∀ p ∈ serve g.cache.lruWindowSize.toNat g.cache.hashKey A a h,
      p.1.val.2 ∈ Q.list p.1.val.1 ∧ p.2 = Q.block p.1.val.1 p.1.val.2 := by
  intro p hp
  rcases mem_serve hp with ⟨hold, -⟩ | ⟨-, hwrite⟩
  · exact hA _ p hold
  · exact ha _ _ hwrite

/-- Caching a block of the store. -/
private theorem write_run {v b : UInt32} (hfresh : Fresh s.graphCache Q) (hb : b ∈ Q.list v) :
    ∃ cache, (cached (GraphCache.write v b (Q.block v b))).run s =
        (.ok (), { s with graphCache := cache }) ∧ Fresh cache Q := by
  obtain ⟨A, hA, hbounded, hvalues⟩ := hfresh
  let k : CacheKey := ⟨(v, b), Q.valid hb⟩
  obtain ⟨cache, hrun, hcache⟩ := hA.write (k := k) rfl (hbounded _).nodup (Q.block v b)
  refine ⟨cache, run_cached hrun, _, hcache, ?_, ?_⟩
  · exact Bounded.serve hbounded (GraphCache.window_pos _) (.write k (Q.block v b))
  · refine fresh_serve hvalues (a := .write k (Q.block v b)) ?_
    rintro _ _ ⟨⟩
    exact ⟨hb, rfl⟩

/-- The prefetched blocks are cached under their own numbers. -/
theorem cacheBlocks_run {v b : UInt32} {m l₁ l₂ : List UInt32}
    (hfresh : Fresh s.graphCache Q) (hl : Q.list v = l₁ ++ b :: (m ++ l₂)) :
    ∃ cache, (cacheBlocks v b ((b :: m).map (Q.block v))).run s =
        (.ok (), { s with graphCache := cache }) ∧ Fresh cache Q := by
  induction m generalizing s b l₁ with
  | nil =>
    obtain ⟨cache, hrun, hcache⟩ := write_run hfresh (hl ▸ List.mem_append_right l₁ List.mem_cons_self)
    exact ⟨cache, Prog.run_bind_of_ok hrun, hcache⟩
  | cons b' m ih =>
    obtain ⟨cache₁, hrun₁, hcache₁⟩ :=
      write_run hfresh (hl ▸ List.mem_append_right l₁ List.mem_cons_self)
    have hnext : (Q.block v b).getNext = b' := Q.next hl
    have hl' : Q.list v = (l₁ ++ [b]) ++ b' :: (m ++ l₂) := by simpa using hl
    obtain ⟨cache, hrun, hcache⟩ := ih (s := { s with graphCache := cache₁ }) hcache₁ hl'
    refine ⟨cache, ?_, hcache⟩
    rw [List.map_cons, cacheBlocks, Prog.run_bind_of_ok hrun₁, hnext]
    exact hrun

/-- **A read of a block on another host.** -/
theorem read_run {v b : UInt32} (hfresh : Fresh s.graphCache Q) (hv : s.Alien Q v)
    (hb : b ∈ Q.list v) :
    ∃ cache, (read v b).run s = (.ok (Q.block v b), { s with graphCache := cache }) ∧
      Fresh cache Q := by
  obtain ⟨host, p, hhost, hne, hp, hserves⟩ := hv
  obtain ⟨A, hA, hbounded, hvalues⟩ := hfresh
  let k : CacheKey := ⟨(v, b), Q.valid hb⟩
  obtain ⟨cache, hrun, hcache⟩ := hA.read (k := k) rfl (hbounded _).nodup
  have hfresh' : Fresh cache Q :=
    ⟨_, hcache, Bounded.serve hbounded (GraphCache.window_pos _) (.read k),
      fresh_serve hvalues (a := .read k) nofun⟩
  rcases hlookup : lookup (A (g.cache.hashKey k)) k with _ | d
  · -- the read misses
    rw [hlookup] at hrun
    obtain ⟨l₁, l₂, hl⟩ := List.append_of_mem hb
    have hreadn := hserves.readn b l₁ l₂ g.prefetch hl g.prefetch_pos
    obtain ⟨n, hn⟩ := Nat.exists_eq_succ_of_ne_zero g.prefetch_pos.ne'
    rw [hn, Nat.succ_eq_add_one, List.take_succ_cons, ← Nat.succ_eq_add_one, ← hn] at hreadn
    have hl' : Q.list v = l₁ ++ b :: (l₂.take n ++ l₂.drop n) := by rw [List.take_append_drop, hl]
    obtain ⟨cache', hrun', hcache'⟩ :=
      cacheBlocks_run (s := { s with graphCache := cache }) hfresh' hl'
    exact ⟨cache', read_run_miss hhost hne hrun hp hreadn hrun', hcache'⟩
  · -- the read hits
    rw [hlookup] at hrun
    have hd : d = Q.block v b := (hvalues _ _ (mem_of_lookup hlookup)).2
    exact ⟨cache, hd ▸ read_run_hit hhost hne hrun, hfresh'⟩

/-- **Reads of blocks on other hosts.** -/
theorem readAll_run {ks : List (UInt32 × UInt32)} (hfresh : Fresh s.graphCache Q)
    (hks : ∀ k ∈ ks, k.2 ∈ Q.list k.1 ∧ s.Alien Q k.1) :
    ∃ cache, (readAll ks).run s =
        (.ok (ks.map fun k => Q.block k.1 k.2), { s with graphCache := cache }) ∧
      Fresh cache Q := by
  induction ks generalizing s with
  | nil => exact ⟨s.graphCache, rfl, hfresh⟩
  | cons k ks ih =>
    obtain ⟨hmem, halien⟩ := hks k List.mem_cons_self
    obtain ⟨cache₁, hrun₁, hfresh₁⟩ := read_run hfresh halien hmem
    obtain ⟨cache, hrun, hcache⟩ := ih (s := { s with graphCache := cache₁ }) hfresh₁
      fun k hk => hks k (List.mem_cons_of_mem _ hk)
    refine ⟨cache, ?_, hcache⟩
    rw [readAll, Prog.run_bind_of_ok hrun₁, Prog.run_bind_of_ok hrun]
    rfl

/-- What a fresh cache holds is in the store. -/
theorem Fresh.block_eq {cache : GraphCache g.cache g.storage.blockSz} (hfresh : Fresh cache Q)
    {v b : UInt32} {blk : g.Blk} (h : cache.Caches v b blk) :
    b ∈ Q.list v ∧ blk = Q.block v b := by
  obtain ⟨A, ⟨free, bucket, owner, howned, hpairs⟩, -, hvalues⟩ := hfresh
  obtain ⟨h, l, hl, i, hi, hkey, hdata⟩ := h
  have hlist : l = bucket h := hl.walk_next.unique (howned.linked h).walk_next
  have hmem : ((v, b), blk) ∈ (A h).map GraphCache.rawPair := by
    rw [← hpairs h, ← hkey, ← hdata]
    exact List.mem_map_of_mem (hlist ▸ hi)
  obtain ⟨p, hp, hpi⟩ := List.mem_map.mp hmem
  obtain ⟨hk, hd⟩ := Prod.mk.inj hpi
  have := hvalues h p hp
  rw [hk, hd] at this
  exact this

end Agent

/-- **The agent's cache is transparent while the store is quiescent.** Every sequence of reads of
blocks on other hosts, from the empty cache, returns what the providers' `read` returns, and leaves
only the providers' blocks in the cache, under their own numbers. -/
theorem agentReads_transparent {g : AgentConfig} (Q : QuiescentStore g) (s : Agent g)
    (memory : GraphCache g.cache g.storage.blockSz) (hs : s.graphCache = GraphCache.new memory)
    (ks : List (UInt32 × UInt32)) (hks : ∀ k ∈ ks, k.2 ∈ Q.list k.1 ∧ s.Alien Q k.1) :
    ∃ blks s', (Agent.readAll ks).run s = (.ok blks, s') ∧
      List.Forall₂ (fun k blk => ∀ host p, s.subgraph2Host (subgraphKey g.storage k.1) = some host →
        s.host2Provider host = some p → blk = p.read k.1 k.2) ks blks ∧
      ∀ v b blk, s'.graphCache.Caches v b blk → b ∈ Q.list v ∧ blk = Q.block v b := by
  have hfresh : Agent.Fresh s.graphCache Q :=
    ⟨_, hs ▸ GraphCache.represents_new memory, fun _ => .nil _, nofun⟩
  obtain ⟨cache, hrun, hcache⟩ := Agent.readAll_run hfresh hks
  refine ⟨_, _, hrun, ?_, fun v b blk => hcache.block_eq⟩
  refine List.forall₂_map_right_iff.mpr (List.forall₂_same.mpr fun k hk host p hhost hp => ?_)
  obtain ⟨hmem, host', p', hhost', -, hp', hserves⟩ := hks k hk
  obtain rfl : host' = host := Option.some.inj (hhost'.symm.trans hhost)
  obtain rfl : p' = p := Option.some.inj (hp'.symm.trans hp)
  exact (hserves.read k.2 hmem).symm

theorem Config.small_bytes_le : Config.small.blockSz.bytes ≤ 4096 := by decide

/-- A store for closed examples: the blocks `4` and `7` of vertex `0`. -/
def QuiescentStore.small : QuiescentStore ⟨Config.small, CacheConfig.small, Config.small_bytes_le⟩ where
  list v := if v = 0 then [4, 7] else []
  block _ b := Block.setNext (fun _ => 0) (if b = 4 then 7 else invalidBlkno)
  valid {v b} h := by
    by_cases hv : v = 0
    · subst hv
      have hb : b = 4 ∨ b = 7 := by simpa using h
      rcases hb with rfl | rfl <;> decide
    · simp [hv] at h
  nodup v := by
    by_cases hv : v = 0 <;> simp [hv]
  next {v b l₁ l₂} h := by
    by_cases hv : v = 0
    · rw [if_pos hv] at h
      rcases l₁ with _ | ⟨a, _ | ⟨a', l₁⟩⟩
      · obtain ⟨rfl, rfl⟩ := List.cons.inj h
        simp
      · obtain ⟨-, rfl, rfl⟩ : a = 4 ∧ b = 7 ∧ l₂ = [] := by simpa [eq_comm] using h
        simp
      · simp at h
    · simp [hv] at h

/-- An agent with a cache of one entry, next to a host that serves the store. -/
def Agent.small : Agent ⟨Config.small, CacheConfig.small, Config.small_bytes_le⟩ where
  localHost := "a"
  host2Provider _ := some QuiescentStore.small.provider
  subgraph2Host _ := some "b"
  graphCache := GraphCache.new (GraphCache.zero _ _)

theorem agentReads_transparent_small :
    ∃ blks s', (Agent.readAll [(0, 4), (0, 7), (0, 4)]).run Agent.small = (.ok blks, s') ∧
      List.Forall₂ (fun k blk => ∀ host p,
        Agent.small.subgraph2Host (subgraphKey Config.small k.1) = some host →
        Agent.small.host2Provider host = some p → blk = p.read k.1 k.2)
        [(0, 4), (0, 7), (0, 4)] blks ∧
      ∀ v b blk, s'.graphCache.Caches v b blk →
        b ∈ QuiescentStore.small.list v ∧ blk = QuiescentStore.small.block v b := by
  refine agentReads_transparent QuiescentStore.small Agent.small _ rfl _ fun k hk => ?_
  have halien : ∀ v, Agent.small.Alien QuiescentStore.small v := fun v =>
    ⟨"b", _, rfl, by decide, rfl, QuiescentStore.small.provider_serves v⟩
  simp only [List.mem_cons, List.not_mem_nil, or_false] at hk
  rcases hk with rfl | rfl | rfl
  · exact ⟨by decide, halien _⟩
  · exact ⟨by decide, halien _⟩
  · exact ⟨by decide, halien _⟩

end Nynn
