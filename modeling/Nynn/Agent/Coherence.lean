import Nynn.Agent.GraphRead
import Nynn.Library.Transition
import Nynn.Storage.SubgraphRuns

/-!
# Reads of an agent beside updates

The producer updates the blocks of a vertex at its host, and an agent on another host reads them
through its cache. Nothing tells the agent of an update, and neither `lock` nor `unlock` drops what
is cached. So a read that hits returns the bytes that the provider stored when the block was last
fetched, and only a read that misses returns the bytes of the moment.

The lock of the agent plays no part in this: an update can be made at any time.

Source: `nynn_mm_graph.h`.

## Main definitions

* `Nynn.Agent.lock`, `Nynn.Agent.unlock`: `Graph::lock` and `Graph::unlock`.
* `Nynn.AgentSystem`: the stores of the hosts, an agent, and what it last fetched of each block.
* `Nynn.AgentStep`: an update at a host, or a call of the agent.

## Main results

* `Nynn.agentRead_fetched`: a read returns what was last fetched.
* `Nynn.agentRead_current_false_of_push`: a read under the lock that returns old bytes.
-/

namespace Nynn

open Program LinkedRing Transition

variable {g : AgentConfig} {M : Type}

/-! ### The calls of the agent -/

namespace Agent

/-- `getHostTS`. -/
def getHostTS (vtxno : UInt32) : Prog (Agent g) AgentFault String := do
  let s ← Prog.get
  pure ((s.subgraph2Host (subgraphKey g.storage vtxno)).getD "UNKNOWN")

/-- `refresh`: the producer names the host of the subgraph. -/
def refresh (named : String) (vtxno : UInt32) : Prog (Agent g) AgentFault Unit :=
  Prog.modify fun s =>
    { s with
      subgraph2Host := Function.update s.subgraph2Host (subgraphKey g.storage vtxno) (some named) }

/-- `lock`. The provider replies `granted`, and the producer names the host `named` when the agent
does not know it. -/
def lock (named : String) (granted : Bool) (vtxno : UInt32) : Prog (Agent g) AgentFault Bool := do
  let host ← getHostTS vtxno
  if host ≠ "UNKNOWN" then do
    let _ ← getProvider host
    pure granted
  else do
    refresh named vtxno
    let host ← getHostTS vtxno
    if host ≠ "UNKNOWN" then do
      let _ ← getProvider host
      pure granted
    else pure false

/-- `unlock`. The provider replies `released`. -/
def unlock (released : Bool) (vtxno : UInt32) : Prog (Agent g) AgentFault Bool := do
  let host ← getHostTS vtxno
  if host ≠ "" then do
    let _ ← getProvider host
    pure released
  else pure false

end Agent

/-! ### The lists of a store -/

section Lists

variable {c : Config}

/-- The first `n` blocks of the chain that starts at a block. -/
def Storage.chain (s : Storage c M) (n : ℕ) (b : UInt32) : List UInt32 :=
  follow (fun b => (s.blocks b).getNext) invalidBlkno n b

/-- The list of the vertex `v` is `l`: the chain from its head, made of blocks. -/
def Storage.HasList (s : Storage c M) (v : UInt32) (l : List UInt32) : Prop :=
  ∃ vtx : Fin c.vertexIntervalWidth, vertexSlot s.superblk.getMinVtxno v = vtx.val ∧
    Walk (fun b => (s.blocks b).getNext) invalidBlkno (s.superblk.vertices vtx).headBlkno l ∧
    ∀ b ∈ l, s.isBlock b = true

/-- The list of a vertex is what `readAllBlknos` returns. -/
theorem Storage.hasList_iff {s : FlatStorage c} {v : UInt32} {l : List UInt32} :
    s.HasList v l ↔ ReadsList s v l := by
  constructor
  · rintro ⟨vtx, hvtx, hwalk, hblk⟩
    refine ⟨l.length + 1, ?_⟩
    rw [readAllBlknos, Prog.run_bind_of_ok (getHeadBlkno_run hvtx),
      readBlknosFrom_of_walk hwalk hblk (Nat.lt_succ_self _)]
  · exact ReadsList.exists_walk

/-- What `readn` returns, by its contract: the blocks of the chain that starts at `b`. -/
def Storage.readn (s : Storage c M) (_v b : UInt32) (n : ℕ) : List (Block c.blockSz) :=
  (s.chain n b).map s.blocks

/-- The contract of `readn`: where the blocks of the chain are there, it returns them. -/
def ReadnContract (readn : Storage c M → UInt32 → UInt32 → ℕ → List (Block c.blockSz)) : Prop :=
  ∀ s v b n, (∀ b' ∈ s.chain n b, s.isBlock b' = true) → readn s v b n = s.readn v b n

end Lists

/-! ### The agent and the stores -/

/-- The store of each subgraph at each host, the agent, and the vertices that it has locked. -/
structure AgentSystem (g : AgentConfig) (M : Type) where
  stores : String → UInt32 → Storage g.storage M
  agent : Agent g
  locked : UInt32 → Bool

/-- An update at a host, or a call of the agent with its reply. -/
inductive AgentEvent (g : AgentConfig)
  | update (host : String) (op : ListOp g.storage.blockSz) (disk : CreateOutcome)
  | lock (vtxno : UInt32) (reply : Bool)
  | unlock (vtxno : UInt32) (reply : Bool)
  | read (vtxno blkno : UInt32) (blk : g.Blk)

namespace AgentSystem

variable (readn : Storage g.storage M → UInt32 → UInt32 → ℕ → List g.Blk) (s : AgentSystem g M)

/-- The store that serves a vertex to the agent. -/
def store (v : UInt32) : Storage g.storage M :=
  s.stores ((s.agent.subgraph2Host (subgraphKey g.storage v)).getD "") (subgraphKey g.storage v)

/-- The provider of a host, as it is now. -/
def provider (host : String) : Provider g where
  read v b := (s.stores host (subgraphKey g.storage v)).blocks b
  readn v b n := readn (s.stores host (subgraphKey g.storage v)) v b n

/-- The agent, with the providers as they are now. -/
def view : Agent g :=
  { s.agent with
    host2Provider := fun host => (s.agent.host2Provider host).map fun _ => s.provider readn host }

/-- The cache has the block. -/
def cached (v b : UInt32) : Bool :=
  match ((GraphCache.read v b).run s.agent.graphCache).1 with
  | .ok (some _) => true
  | _ => false

/-- The vertex is served by another host. -/
def ServedElsewhere (v : UInt32) : Prop :=
  ∃ host, s.agent.subgraph2Host (subgraphKey g.storage v) = some host ∧
    host ≠ s.agent.localHost ∧ (s.agent.host2Provider host).isSome = true

/-- A producer's update goes through at a host. -/
def update [OverflowTable M] (host : String) (op : ListOp g.storage.blockSz)
    (disk : CreateOutcome) : AgentSystem g M :=
  let sgkey := subgraphKey g.storage op.vtxno
  { s with stores := Function.update s.stores host (Function.update (s.stores host) sgkey
      ((op.run disk).run (s.stores host sgkey)).2) }

/-- The event is a read that fetches the block: it misses, and the block is in the chain that it
asks for. -/
def Fetches (e : AgentEvent g) (v b : UInt32) : Prop :=
  ∃ b' blk, e = .read v b' blk ∧ s.cached v b' = false ∧ b ∈ (s.store v).chain g.prefetch b'

end AgentSystem

section Steps

variable [OverflowTable M] (readn : Storage g.storage M → UInt32 → UInt32 → ℕ → List g.Blk)

/-- The steps of the system. A read is one that comes back: the block is cached, or the chain that
it starts is made of blocks. -/
inductive AgentStep : AgentSystem g M → AgentEvent g → AgentSystem g M → Prop
  | update {s : AgentSystem g M} {host : String} {op : ListOp g.storage.blockSz}
      {disk : CreateOutcome} : AgentStep s (.update host op disk) (s.update host op disk)
  | lock {s : AgentSystem g M} {v : UInt32} {named : String} {granted reply : Bool}
      {agent : Agent g}
      (hrun : (Agent.lock named granted v).run (s.view readn) = (.ok reply, agent)) :
      AgentStep s (.lock v reply)
        { s with agent, locked := Function.update s.locked v (reply || s.locked v) }
  | unlock {s : AgentSystem g M} {v : UInt32} {released reply : Bool} {agent : Agent g}
      (hrun : (Agent.unlock released v).run (s.view readn) = (.ok reply, agent)) :
      AgentStep s (.unlock v reply)
        { s with agent, locked := Function.update s.locked v false }
  | read {s : AgentSystem g M} {v b : UInt32} {blk : g.Blk} {agent : Agent g}
      (hserved : s.ServedElsewhere v) (hv : v ≠ invalidVertexno) (hb : b ≠ invalidBlkno)
      (hchain : s.cached v b = true ∨
        ∀ b' ∈ (s.store v).chain g.prefetch b, (s.store v).isBlock b' = true)
      (hrun : (Agent.read v b).run (s.view readn) = (.ok blk, agent)) :
      AgentStep s (.read v b blk) { s with agent }

/-- In the run from `s₀` to `s`, the last read that fetched the block found the bytes `blk` at the
provider. -/
def LastFetched (s₀ : AgentSystem g M) (es : List (AgentEvent g)) (s : AgentSystem g M)
    (v b : UInt32) (blk : g.Blk) : Prop :=
  ∃ es₁ e es₂ s₁ s₂, es = es₁ ++ e :: es₂ ∧ Steps (AgentStep readn) s₀ es₁ s₁ ∧
    AgentStep readn s₁ e s₂ ∧ s₁.Fetches e v b ∧
    Steps (fun t a t' => AgentStep readn t a t' ∧ ¬t.Fetches a v b) s₂ es₂ s ∧
    blk = (s₁.store v).blocks b

end Steps

/-! ### What is cached was fetched -/

section Chains

variable {c : Config} {s : Storage c M} {v b : UInt32} {l : List UInt32}

theorem Storage.chain_succ (hb : b ≠ invalidBlkno) (n : ℕ) :
    s.chain (n + 1) b = b :: s.chain n (s.blocks b).getNext := by
  rw [Storage.chain, follow, if_neg hb]
  rfl

/-- The chain from a block of a list stays in the list. -/
theorem Storage.HasList.chain_subset (h : s.HasList v l) (hb : b ∈ l) (n : ℕ) :
    s.chain n b ⊆ l := by
  obtain ⟨_, -, hwalk, -⟩ := h
  obtain ⟨l₁, l₂, rfl⟩ := List.append_of_mem hb
  rw [Storage.chain, hwalk.of_append.follow_eq]
  exact fun x hx => List.mem_append_right _ (List.mem_of_mem_take hx)

theorem Storage.HasList.isBlock (h : s.HasList v l) (hb : b ∈ l) : s.isBlock b = true := by
  obtain ⟨_, -, -, hblk⟩ := h
  exact hblk b hb

theorem Storage.HasList.isBlock_of_mem_chain (h : s.HasList v l) (hb : b ∈ l) (n : ℕ) :
    ∀ b' ∈ s.chain n b, s.isBlock b' = true :=
  fun _ hmem => h.isBlock (h.chain_subset hb n hmem)

theorem Storage.HasList.ne_invalidBlkno (h : s.HasList v l) (hb : b ∈ l) : b ≠ invalidBlkno := by
  obtain ⟨_, -, hwalk, -⟩ := h
  obtain ⟨l₁, l₂, rfl⟩ := List.append_of_mem hb
  cases hwalk.of_append with
  | step hb _ => exact hb

end Chains

namespace Agent

private theorem keeps_getHostTS (v : UInt32) : Keeps Agent.graphCache (getHostTS (g := g) v) :=
  .bind .get fun _ => .pure _

private theorem keeps_getProvider (host : String) :
    Keeps Agent.graphCache (getProvider (g := g) host) := by
  refine .bind .get fun s => ?_
  cases s.host2Provider host with
  | none => exact .fail _
  | some p => exact .pure _

/-- A lock leaves the cache as it is. -/
theorem keeps_lock (named : String) (granted : Bool) (v : UInt32) :
    Keeps Agent.graphCache (lock (g := g) named granted v) := by
  refine .bind (keeps_getHostTS v) fun host => .ite ?_ (.bind (.modify fun _ => rfl) fun _ => ?_)
  · exact .bind (keeps_getProvider host) fun _ => .pure _
  · exact .bind (keeps_getHostTS v) fun host =>
      .ite (.bind (keeps_getProvider host) fun _ => .pure _) (.pure _)

/-- An unlock leaves the cache as it is. -/
theorem keeps_unlock (released : Bool) (v : UInt32) :
    Keeps Agent.graphCache (unlock (g := g) released v) := by
  refine .bind (keeps_getHostTS v) fun host => .ite ?_ (.pure _)
  exact .bind (keeps_getProvider host) fun _ => .pure _

variable {s : Agent g} {σ : Storage g.storage M} {v b : UInt32}

/-- The blocks of a chain are cached under their own numbers. -/
theorem cacheBlocks_chain {P : CacheKey → g.Blk → Prop} (hv : v ≠ invalidVertexno) (n : ℕ)
    (h : s.graphCache.Only P) :
    ∃ cache, (cacheBlocks v b (σ.readn v b n)).run s = (.ok (), { s with graphCache := cache }) ∧
      cache.Only fun k d =>
        if k.val.1 = v ∧ k.val.2 ∈ σ.chain n b then d = σ.blocks k.val.2 else P k d := by
  induction n generalizing s b P with
  | zero =>
    have hnil : σ.chain 0 b = [] := rfl
    rw [Storage.readn, hnil]
    exact ⟨s.graphCache, rfl, h.mono fun k d hP => by rwa [if_neg (by simp)]⟩
  | succ n ih =>
    by_cases hb : b = invalidBlkno
    · have hnil : σ.chain (n + 1) b = [] := if_pos hb
      rw [Storage.readn, hnil]
      exact ⟨s.graphCache, rfl, h.mono fun k d hP => by rwa [if_neg (by simp)]⟩
    · let k₀ : CacheKey := ⟨(v, b), hv, hb⟩
      obtain ⟨cache₁, hrun₁, hcache₁⟩ := h.write (k := k₀) (d := σ.blocks b)
        (Q := fun k d => if k = k₀ then d = σ.blocks b else P k d)
        (fun k d hk hP => by rwa [if_neg hk]) (by rw [if_pos rfl])
      obtain ⟨cache, hrun, hcache⟩ := ih (s := { s with graphCache := cache₁ })
        (b := (σ.blocks b).getNext) hcache₁
      refine ⟨cache, ?_, hcache.mono fun k d hP => ?_⟩
      · rw [Storage.readn, Storage.chain_succ hb, List.map_cons, cacheBlocks,
          Prog.run_bind_of_ok (run_cached hrun₁)]
        exact hrun
      · rw [Storage.chain_succ hb]
        by_cases hk : k.val.1 = v ∧ k.val.2 ∈ σ.chain n (σ.blocks b).getNext
        · rw [if_pos hk] at hP
          rwa [if_pos ⟨hk.1, List.mem_cons_of_mem _ hk.2⟩]
        · rw [if_neg hk] at hP
          by_cases hk₀ : k = k₀
          · rw [if_pos hk₀] at hP
            subst hk₀
            rwa [if_pos ⟨rfl, List.mem_cons_self⟩]
          · rw [if_neg hk₀] at hP
            refine (if_neg ?_).mpr hP
            rintro ⟨hkv, hkb⟩
            rcases List.mem_cons.mp hkb with hkb | hkb
            · exact hk₀ (Subtype.ext (Prod.ext hkv hkb))
            · exact hk ⟨hkv, hkb⟩

end Agent

namespace AgentSystem

variable {readn : Storage g.storage M → UInt32 → UInt32 → ℕ → List g.Blk} {s s' : AgentSystem g M}
  {v b : UInt32}

/-- **A read beside updates** succeeds. It returns what is cached of a block that is cached, and the
bytes of the moment of a block that is not; a block that it fetches is cached as it is now. -/
theorem read_run {P : CacheKey → g.Blk → Prop} (hreadn : ReadnContract readn)
    (hP : s.agent.graphCache.Only P) (hserved : s.ServedElsewhere v) (hv : v ≠ invalidVertexno)
    (hb : b ≠ invalidBlkno)
    (hchain : s.cached v b = true ∨
      ∀ b' ∈ (s.store v).chain g.prefetch b, (s.store v).isBlock b' = true) :
    ∃ blk agent, (Agent.read v b).run (s.view readn) = (.ok blk, agent) ∧
      agent.graphCache.Only (fun k d =>
        if s.cached v b = false ∧ k.val.1 = v ∧ k.val.2 ∈ (s.store v).chain g.prefetch b then
          d = (s.store v).blocks k.val.2
        else P k d) ∧
      (s.cached v b = true → P ⟨(v, b), hv, hb⟩ blk) ∧
      (s.cached v b = false → blk = (s.store v).blocks b) := by
  obtain ⟨host, hhost, hne, hprovider⟩ := hserved
  obtain ⟨p, hp⟩ := Option.isSome_iff_exists.mp hprovider
  have hview : (s.view readn).host2Provider host = some (s.provider readn host) :=
    congrArg (Option.map fun _ => s.provider readn host) hp
  obtain ⟨found, cache, hread, hcache, hfound⟩ := GraphCache.Only.read hP ⟨(v, b), hv, hb⟩
  cases found with
  | some blk =>
    have hhit : s.cached v b = true := by rw [cached, hread]
    refine ⟨blk, _, Agent.read_run_hit hhost hne hread, hcache.mono fun k d hk => ?_,
      fun _ => hfound blk rfl, fun hmiss => absurd (hmiss.symm.trans hhit) Bool.false_ne_true⟩
    rwa [if_neg fun h => Bool.false_ne_true (h.1.symm.trans hhit)]
  | none =>
    have hmiss : s.cached v b = false := by rw [cached, hread]
    have hstore : s.store v = s.stores host (subgraphKey g.storage v) := by
      rw [store, hhost]
      rfl
    have hblocks := hchain.resolve_left fun hhit => Bool.false_ne_true (hmiss.symm.trans hhit)
    have hreply : (s.provider readn host).readn v b g.prefetch =
        (s.store v).readn v b g.prefetch := by
      rw [hstore] at hblocks ⊢
      exact hreadn _ v b _ hblocks
    obtain ⟨n, hn⟩ := Nat.exists_eq_succ_of_ne_zero g.prefetch_pos.ne'
    have hcons : (s.store v).readn v b g.prefetch = (s.store v).blocks b ::
        ((s.store v).chain n ((s.store v).blocks b).getNext).map (s.store v).blocks := by
      rw [Storage.readn, hn, Storage.chain_succ hb, List.map_cons]
    obtain ⟨cache', hrun, hcache'⟩ := Agent.cacheBlocks_chain (σ := s.store v) (b := b)
      (s := { s.view readn with graphCache := cache }) hv g.prefetch hcache
    rw [hcons] at hrun
    refine ⟨_, _, Agent.read_run_miss hhost hne hread hview (hreply.trans hcons) hrun,
      hcache'.mono fun k d hk => ?_, fun hhit => absurd (hmiss.symm.trans hhit) Bool.false_ne_true,
      fun _ => rfl⟩
    by_cases hmem : k.val.1 = v ∧ k.val.2 ∈ (s.store v).chain g.prefetch b
    · rw [if_pos hmem] at hk
      rwa [if_pos ⟨hmiss, hmem⟩]
    · rw [if_neg hmem] at hk
      rwa [if_neg fun h => hmem h.2]

end AgentSystem

/-! ### Runs -/

section Runs

variable [OverflowTable M] {readn : Storage g.storage M → UInt32 → UInt32 → ℕ → List g.Blk}
  {s₀ s s' : AgentSystem g M} {es : List (AgentEvent g)} {e : AgentEvent g} {v b : UInt32}
  {blk : g.Blk}

/-- A step that fetches the block. -/
theorem LastFetched.of_fetches (h : Steps (AgentStep readn) s₀ es s) (he : AgentStep readn s e s')
    (hfetch : s.Fetches e v b) :
    LastFetched readn s₀ (es ++ [e]) s' v b ((s.store v).blocks b) :=
  ⟨es, e, [], s, s', rfl, h, he, hfetch, .nil, rfl⟩

/-- A step that does not fetch the block. -/
theorem LastFetched.snoc (h : LastFetched readn s₀ es s v b blk) (he : AgentStep readn s e s')
    (hfetch : ¬s.Fetches e v b) : LastFetched readn s₀ (es ++ [e]) s' v b blk := by
  obtain ⟨es₁, e₁, es₂, s₁, s₂, rfl, h₁, he₁, hfetch₁, h₂, hblk⟩ := h
  refine ⟨es₁, e₁, es₂ ++ [e], s₁, s₂, ?_, h₁, he₁, hfetch₁, h₂.snoc ⟨he, hfetch⟩, hblk⟩
  rw [List.append_assoc, List.cons_append]

/-- The cache only holds what was last fetched. -/
theorem only_lastFetched (hreadn : ReadnContract readn)
    (hcache : ∃ memory, s₀.agent.graphCache = GraphCache.new memory)
    (h : Steps (AgentStep readn) s₀ es s) :
    s.agent.graphCache.Only fun k d => LastFetched readn s₀ es s k.val.1 k.val.2 d := by
  induction h with
  | nil =>
    obtain ⟨memory, hnew⟩ := hcache
    exact hnew ▸ GraphCache.only_new memory
  | @snoc s s' es e h he ih =>
    have hsame : (∀ v b, ¬s.Fetches e v b) → s'.agent.graphCache = s.agent.graphCache →
        s'.agent.graphCache.Only fun k d => LastFetched readn s₀ (es ++ [e]) s' k.val.1 k.val.2 d :=
      fun hfetch heq => heq ▸ ih.mono fun k d hk => LastFetched.snoc hk he (hfetch _ _)
    cases he with
    | update => exact hsame (fun _ _ ⟨_, _, hread, _⟩ => by cases hread) rfl
    | lock hrun =>
      have hkeeps := (Agent.keeps_lock _ _ _).of_run hrun
      exact hsame (fun _ _ ⟨_, _, hread, _⟩ => by cases hread) hkeeps
    | unlock hrun =>
      have hkeeps := (Agent.keeps_unlock _ _).of_run hrun
      exact hsame (fun _ _ ⟨_, _, hread, _⟩ => by cases hread) hkeeps
    | @read w b' blk agent hserved hv hb hchain hrun =>
      obtain ⟨blk₁, agent₁, hrun', hcached, -⟩ :=
        AgentSystem.read_run hreadn ih hserved hv hb hchain
      rw [hrun, Prod.mk.injEq] at hrun'
      rw [hrun'.2]
      refine hcached.mono fun k d hk => ?_
      have he := AgentStep.read hserved hv hb hchain (hrun.trans (by rw [hrun'.2]))
      by_cases hfetch : s.cached w b' = false ∧ k.val.1 = w ∧
          k.val.2 ∈ (s.store w).chain g.prefetch b'
      · rw [if_pos hfetch] at hk
        obtain ⟨hmiss, rfl, hmem⟩ := hfetch
        rw [hk]
        exact LastFetched.of_fetches h he ⟨_, _, rfl, hmiss, hmem⟩
      · rw [if_neg hfetch] at hk
        refine hk.snoc he ?_
        rintro ⟨_, _, hread, hmiss, hmem⟩
        cases hread
        exact hfetch ⟨hmiss, rfl, hmem⟩

end Runs

/-- **A read returns what was last fetched.** In every run of updates and calls of an agent with an
empty cache, a read of a block of a list on another host succeeds. It returns the bytes of the
moment when the block is not cached; otherwise it returns the bytes that the provider stored when a
read last fetched the block. -/
theorem agentRead_fetched [OverflowTable M]
    {readn : Storage g.storage M → UInt32 → UInt32 → ℕ → List g.Blk} (hreadn : ReadnContract readn)
    {s₀ s : AgentSystem g M} {es : List (AgentEvent g)}
    (hcache : ∃ memory, s₀.agent.graphCache = GraphCache.new memory)
    (h : Steps (AgentStep readn) s₀ es s) {v b : UInt32} {l : List UInt32}
    (hv : v ≠ invalidVertexno) (hserved : s.ServedElsewhere v) (hl : (s.store v).HasList v l)
    (hb : b ∈ l) :
    (∃ blk s', AgentStep readn s (.read v b blk) s') ∧
      ∀ blk s', AgentStep readn s (.read v b blk) s' →
        (s.cached v b = false → blk = (s.store v).blocks b) ∧
        (s.cached v b = true → LastFetched readn s₀ es s v b blk) := by
  have honly := only_lastFetched hreadn hcache h
  have hb' := hl.ne_invalidBlkno hb
  have hchain := hl.isBlock_of_mem_chain hb g.prefetch
  obtain ⟨blk, agent, hrun, -, hhit, hmiss⟩ :=
    AgentSystem.read_run hreadn honly hserved hv hb' (Or.inr hchain)
  refine ⟨⟨blk, _, .read hserved hv hb' (Or.inr hchain) hrun⟩, fun blk' s' he => ?_⟩
  cases he with
  | read _ _ _ _ hrun' =>
    rw [hrun, Prod.mk.injEq, Except.ok.injEq] at hrun'
    rw [← hrun'.1]
    exact ⟨hmiss, hhit⟩

/-! ### An agent beside a push -/

/-- A storage whose first vertex has one block. -/
def oneBlock : FlatStorage Config.small := ((push .ok 0 fun _ => 1).run smallStorage).2

theorem oneBlock_hasList : oneBlock.HasList 0 [0] := Storage.hasList_iff.mpr ⟨2, by decide +kernel⟩

/-- The small agent, next to a host with that storage. -/
def AgentSystem.small : AgentSystem ⟨Config.small, CacheConfig.small, Config.small_bytes_le⟩ AllMapped where
  stores _ _ := oneBlock
  agent := Agent.small
  locked _ := false

/-- A block is read for the first time, and then once more. -/
theorem agentRead_fetched_small : ∃ blk blk' s s',
    Steps (AgentStep Storage.readn) AgentSystem.small [.lock 0 true, .read 0 0 blk] s ∧
      AgentStep Storage.readn s (.read 0 0 blk') s' ∧
      LastFetched Storage.readn AgentSystem.small [.lock 0 true, .read 0 0 blk] s 0 0 blk' := by
  have hblocks := oneBlock_hasList.isBlock_of_mem_chain List.mem_cons_self
  have h₁ : AgentStep Storage.readn AgentSystem.small (.lock 0 true) _ :=
    .lock (show (Agent.lock "b" true 0).run _ = (.ok true, _) from rfl)
  have h₂ := (Steps.single h₁).snoc (.read (v := 0) (b := 0) ⟨"b", rfl, by decide, rfl⟩ (by decide)
    (by decide) (Or.inr (hblocks _)) rfl)
  obtain ⟨⟨blk', s', hread⟩, hall⟩ := agentRead_fetched (fun _ _ _ _ _ => rfl) ⟨_, rfl⟩ h₂
    (v := 0) (b := 0) (by decide) ⟨"b", rfl, by decide, rfl⟩ oneBlock_hasList
    List.mem_cons_self
  exact ⟨_, blk', _, s', h₂, hread, (hall blk' s' hread).2 (by decide +kernel)⟩

/-- A block is read under the lock; then a push gives it a new successor; and then it is read under
the lock again, with the bytes of the first time. -/
theorem agentRead_current_false_of_push : ∃ blk s s', Steps (AgentStep Storage.readn)
    AgentSystem.small [.lock 0 true, .read 0 0 blk, .unlock 0 true,
      .update "b" (.push 0 fun _ => 2) .ok, .lock 0 true] s ∧
    s.locked 0 = true ∧ s.ServedElsewhere 0 ∧ (s.store 0).HasList 0 [0, 1] ∧
    AgentStep Storage.readn s (.read 0 0 blk) s' ∧ blk ≠ (s.store 0).blocks 0 := by
  have hblocks := oneBlock_hasList.isBlock_of_mem_chain List.mem_cons_self
  have h₁ : AgentStep Storage.readn AgentSystem.small (.lock 0 true) _ :=
    .lock (show (Agent.lock "b" true 0).run _ = (.ok true, _) from rfl)
  have h₂ := (Steps.single h₁).snoc (.read (v := 0) (b := 0) ⟨"b", rfl, by decide, rfl⟩ (by decide)
    (by decide) (Or.inr (hblocks _)) rfl)
  have h₃ := h₂.snoc (.unlock (show (Agent.unlock true 0).run _ = (.ok true, _) from rfl))
  have h₄ := h₃.snoc
    (show AgentStep _ _ (.update "b" (.push 0 fun _ => 2) .ok) _ from .update)
  have h₅ := h₄.snoc (.lock (show (Agent.lock "b" true 0).run _ = (.ok true, _) from rfl))
  have hpushed : ((push .ok 0 fun _ => 2).run oneBlock).2.HasList 0 [0, 1] :=
    Storage.hasList_iff.mpr ⟨3, by decide +kernel⟩
  refine ⟨_, _, _, h₅, rfl, ⟨"b", rfl, by decide, rfl⟩, hpushed, .read (v := 0) (b := 0)
    ⟨"b", rfl, by decide, rfl⟩ (by decide) (by decide)
    (Or.inr (hpushed.isBlock_of_mem_chain List.mem_cons_self _)) rfl, fun h => ?_⟩
  have hnext := congrArg Block.getNext h
  revert hnext
  decide +kernel

end Nynn
