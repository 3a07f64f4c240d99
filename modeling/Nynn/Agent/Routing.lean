import Nynn.Agent.Coherence
import Nynn.Placement.GraphTable

/-!
# Where an agent sends its calls

An agent sends a call on a vertex to the provider of the host of the vertex's subgraph. It keeps the
hosts that the producer named in a table; only `lock` asks the producer for a name. A subgraph that
is not in the table is marked in two ways: `getHostTS` returns `UNKNOWN` for it, and the lookup of
the other calls inserts the empty string.

So a call other than `lock` reaches a provider when an earlier `lock` learned the host, and it goes
through an absent provider when none did. The handler of `getTailBlkno` calls itself. The server
hands `read` an empty vector, which only the provider of the agent's own host makes larger: a block
that comes from another host, or from the cache, is copied to where there is no room for it.

Source: `nynn_mm_graph.h`, `agent/src/AgentDaemon.cpp`, `agent/src/Agent.cpp`.

## Main definitions

* `Nynn.HandlerCall`: a call of `AgentHandler`, with the providers as they are at that time.
* `Nynn.Route`: what a call is served by.
* `Nynn.HandlerCall.route`: the route of a call; `Nynn.Agent.lock_eq`, `Nynn.Agent.unlock_eq` and
  `Nynn.Agent.read_eq` relate it to the calls of `Graph`.
* `Nynn.Routed`: a call is routed as it should be.

## Main results

* `Nynn.handlerCall_routed_iff`: which calls are routed.
-/

namespace Nynn

open Program Transition

variable {g : AgentConfig}

/-- What a call is served by: the provider of a host, the cache, or nothing. -/
inductive Route
  | provider (host : String)
  | cache
  | failure
  deriving DecidableEq

/-- What a call returns that the provider answers with `reply`. -/
def Route.reply (reply : Bool) : Route → Bool
  | .provider _ => reply
  | _ => false

/-! ### The calls, with their routes -/

namespace Agent

/-- The constructor `Graph`, in memory with any contents. It calls the provider of the agent's own
host. -/
def new (localHost : String) (hosts : List String) (providers : String → Provider g)
    (memory : GraphCache g.cache g.storage.blockSz) : Except AgentFault (Agent g) :=
  if localHost ∈ hosts then
    .ok {
      localHost
      host2Provider := fun host => if host ∈ hosts then some (providers host) else none
      subgraph2Host := fun _ => none
      graphCache := GraphCache.new memory }
  else .error .noProvider

/-- The agent, with the providers as they are now. -/
def facing (s : Agent g) (providers : String → Provider g) : Agent g :=
  { s with host2Provider := fun host => (s.host2Provider host).map fun _ => providers host }

/-- A call of the provider of a host. -/
def callProvider (host : String) : Prog (Agent g) AgentFault Route := do
  let _ ← getProvider host
  pure (.provider host)

/-- `lock`, when the producer names the host `named`. -/
def lockRoute (named : String) (vtxno : UInt32) : Prog (Agent g) AgentFault Route := do
  let host ← getHostTS vtxno
  if host ≠ "UNKNOWN" then callProvider host
  else do
    refresh named vtxno
    let host ← getHostTS vtxno
    if host ≠ "UNKNOWN" then callProvider host else pure .failure

/-- `unlock`. -/
def unlockRoute (vtxno : UInt32) : Prog (Agent g) AgentFault Route := do
  let host ← getHostTS vtxno
  if host ≠ "" then callProvider host else pure .failure

/-- `Graph::getHeadBlkno`, through `getProvider(vtxno)`. -/
def getHeadBlknoRoute (vtxno : UInt32) : Prog (Agent g) AgentFault Route := do
  let host ← getHost vtxno
  callProvider host

/-- `AgentHandler::getTailBlkno`, with at most `depth` calls of itself. -/
def getTailBlknoRoute : ℕ → UInt32 → Prog (Agent g) AgentFault Route
  | 0, _ => Prog.fail .stackOverflow
  | depth + 1, vtxno => getTailBlknoRoute depth vtxno

/-- The copy of a block to the start of a vector of `room` bytes. -/
def copyBlock (room : ℕ) : Prog (Agent g) AgentFault Unit :=
  if g.storage.blockSz.bytes ≤ room then pure () else Prog.fail .noRoom

/-- `read`, with the block that it puts into `xblk`, a vector of `room` bytes. A provider's `read`
sets the size of the vector; a copy takes it as it is. -/
def readRoute (room : ℕ) (vtxno blkno : UInt32) : Prog (Agent g) AgentFault (Route × g.Blk) := do
  let host ← getHost vtxno
  let s ← Prog.get
  if s.localHost = host then do
    let provider ← getProvider host
    pure (.provider host, provider.read vtxno blkno)
  else do
    let found ← cached (GraphCache.read vtxno blkno)
    match found with
    | some blk => do
      copyBlock room
      pure (.cache, blk)
    | none => do
      let provider ← getProvider host
      match provider.readn vtxno blkno g.prefetch with
      | [] => Prog.fail .noBlocks
      | blk :: blks => do
        copyBlock room
        cacheBlocks vtxno blkno (blk :: blks)
        pure (.provider host, blk)

theorem callProvider_reply (host : String) (reply : Bool) :
    (callProvider (g := g) host >>= fun route => pure (route.reply reply)) =
      getProvider host >>= fun _ => pure reply :=
  Prog.bind_assoc _ _ _

/-- `lock` takes its route, and returns what it comes to. -/
theorem lock_eq (named : String) (granted : Bool) (v : UInt32) :
    lock (g := g) named granted v =
      lockRoute named v >>= fun route => pure (route.reply granted) := by
  rw [lock, lockRoute, Prog.bind_assoc]
  refine congrArg _ (funext fun host => ?_)
  by_cases hhost : host ≠ "UNKNOWN"
  · rw [if_pos hhost, if_pos hhost, callProvider_reply]
  · rw [if_neg hhost, if_neg hhost, Prog.bind_assoc]
    refine congrArg _ (funext fun _ => ?_)
    rw [Prog.bind_assoc]
    refine congrArg _ (funext fun host => ?_)
    by_cases hhost : host ≠ "UNKNOWN"
    · rw [if_pos hhost, if_pos hhost, callProvider_reply]
    · rw [if_neg hhost, if_neg hhost]
      rfl

/-- `unlock` takes its route, and returns what it comes to. -/
theorem unlock_eq (released : Bool) (v : UInt32) :
    unlock (g := g) released v =
      unlockRoute v >>= fun route => pure (route.reply released) := by
  rw [unlock, unlockRoute, Prog.bind_assoc]
  refine congrArg _ (funext fun host => ?_)
  by_cases hhost : host ≠ ""
  · rw [if_pos hhost, if_pos hhost, callProvider_reply]
  · rw [if_neg hhost, if_neg hhost]
    rfl

/-- With room for a block `read` takes its route, and puts the block of the route into `xblk`. -/
theorem read_eq {room : ℕ} (hroom : g.storage.blockSz.bytes ≤ room) (v b : UInt32) :
    read (g := g) v b = readRoute room v b >>= fun r => pure r.2 := by
  have hcopy : copyBlock (g := g) room = pure () := if_pos hroom
  rw [read, readRoute, hcopy, Prog.bind_assoc]
  refine congrArg _ (funext fun host => ?_)
  rw [Prog.bind_assoc]
  refine congrArg _ (funext fun s => ?_)
  by_cases hhost : s.localHost = host
  · rw [if_pos hhost, if_pos hhost, Prog.bind_assoc]
    rfl
  · rw [if_neg hhost, if_neg hhost, Prog.bind_assoc]
    refine congrArg _ (funext fun found => ?_)
    cases found with
    | some blk => rfl
    | none =>
      simp only [Prog.bind_assoc]
      refine congrArg _ (funext fun provider => ?_)
      cases provider.readn v b g.prefetch with
      | nil => rfl
      | cons blk blks => exact (Prog.bind_assoc (cacheBlocks v b (blk :: blks))
        (fun _ => pure (Route.provider host, blk)) fun r => pure r.2).symm

end Agent

/-! ### The handler -/

/-- The calls of `AgentHandler`. -/
inductive HandlerOp
  | lock (vtxno : UInt32)
  | unlock (vtxno : UInt32)
  | getHeadBlkno (vtxno : UInt32)
  | getTailBlkno (vtxno : UInt32)
  | read (vtxno blkno : UInt32)

def HandlerOp.vtxno : HandlerOp → UInt32
  | .lock v | .unlock v | .getHeadBlkno v | .getTailBlkno v | .read v _ => v

/-- A call of the handler, with the providers as they are at that time. -/
structure HandlerCall (g : AgentConfig) where
  op : HandlerOp
  providers : String → Provider g

namespace HandlerCall

variable (c : HandlerCall g)

/-- The subgraph of a call. -/
def sgkey : UInt32 := subgraphKey g.storage c.op.vtxno

/-- The route of a call, when the producer has the partition `p`. -/
def route (p : Partition) (depth : ℕ) : Prog (Agent g) AgentFault Route :=
  match c.op with
  | .lock v => Agent.lockRoute (p.get (subgraphKey g.storage v)) v
  | .unlock v => Agent.unlockRoute v
  | .getHeadBlkno v => Agent.getHeadBlknoRoute v
  | .getTailBlkno v => Agent.getTailBlknoRoute depth v
  | .read v b => do
    -- `process_read` hands over the empty vector of a new result
    let r ← Agent.readRoute 0 v b
    pure r.1

/-- The call ends with a route. -/
def EndsWith (p : Partition) (s : Agent g) (route : Route) (s' : Agent g) : Prop :=
  ∃ depth, (c.route p depth).run (s.facing c.providers) = (.ok route, s')

end HandlerCall

/-- Every call on the subgraph, at whatever partition of the producer, goes the same way from both
states. -/
def SameRoutes (sgkey : UInt32) (s s' : Agent g) : Prop :=
  ∀ (p : Partition) (c : HandlerCall g) (depth : ℕ), c.sgkey = sgkey →
    ((c.route p depth).run (s.facing c.providers)).1 =
      ((c.route p depth).run (s'.facing c.providers)).1

/-- A provider that serves a call, or that has filled the cache for it, is the one of a configured
host that the producer names for the subgraph. A call fails only if there is none, and then later
calls go the same way. -/
def Route.Right (hosts : List String) (p : Partition) (sgkey : UInt32) (s s' : Agent g) :
    Route → Prop
  | .provider host => host ∈ hosts ∧ p.get sgkey = host
  | .cache => p.get sgkey ∈ hosts
  | .failure => p.get sgkey ∉ hosts ∧ SameRoutes sgkey s s'

/-- The call ends, and its route is right. -/
def Routed (hosts : List String) (p : Partition) (s : Agent g) (c : HandlerCall g) : Prop :=
  ∃ route s', c.EndsWith p s route s' ∧ route.Right hosts p c.sgkey s s'

/-- The condition on a call: a `lock` on a subgraph whose host, if the producer knows one, is
configured; `unlock` and `getHeadBlkno` on a subgraph whose host an earlier `lock` learned; `read`
where that is the agent's own host. -/
def HandlerCall.Safe (hosts : List String) (p : Partition) (s : Agent g) (c : HandlerCall g) :
    Prop :=
  match c.op with
  | .lock _ => p.get c.sgkey = unknown ∨ p.get c.sgkey ∈ hosts
  | .unlock _ | .getHeadBlkno _ => ∃ host ∈ hosts, s.subgraph2Host c.sgkey = some host
  | .getTailBlkno _ => False
  | .read _ _ => s.subgraph2Host c.sgkey = some s.localHost

/-- A call that meets the condition, and ends. -/
def HandlerStep (hosts : List String) (p : Partition) (s : Agent g) (c : HandlerCall g)
    (s' : Agent g) : Prop :=
  c.Safe hosts p s ∧ ∃ route, c.EndsWith p s route s'

/-! ### What an agent has learned -/

namespace Agent

/-- The agent, with a name for a subgraph in its table. -/
def learn (s : Agent g) (sgkey : UInt32) (named : String) : Agent g :=
  { s with subgraph2Host := Function.update s.subgraph2Host sgkey (some named) }

/-- What holds of an agent: its table has the names that the producer gave, and the providers are
those of the configured hosts. -/
structure Ready (hosts : List String) (p : Partition) (s : Agent g) : Prop where
  localHost_mem : s.localHost ∈ hosts
  isSome_iff : ∀ host, (s.host2Provider host).isSome = true ↔ host ∈ hosts
  learned : ∀ sgkey host, s.subgraph2Host sgkey = some host →
    p.get sgkey = host ∧ (host = unknown ∨ host ∈ hosts)

/-- The table has no configured host for the subgraph. -/
def Unlearned (hosts : List String) (s : Agent g) (sgkey : UInt32) : Prop :=
  ∀ host ∈ hosts, s.subgraph2Host sgkey ≠ some host

variable {hosts : List String} {p : Partition} {s : Agent g} {sgkey v b : UInt32} {host : String}

@[simp] theorem facing_facing (s : Agent g) (providers providers' : String → Provider g) :
    (s.facing providers).facing providers' = s.facing providers' := by
  simp [facing, Function.comp_def]

@[simp] theorem learn_facing (s : Agent g) (providers : String → Provider g) (sgkey : UInt32)
    (named : String) :
    (s.learn sgkey named).facing providers = (s.facing providers).learn sgkey named := rfl

@[simp] theorem learn_learn (s : Agent g) (sgkey : UInt32) (named named' : String) :
    (s.learn sgkey named).learn sgkey named' = s.learn sgkey named' := by
  simp [learn]

@[simp] theorem subgraph2Host_learn (s : Agent g) (sgkey : UInt32) (named : String) :
    (s.learn sgkey named).subgraph2Host sgkey = some named :=
  Function.update_self ..

theorem exists_of_not_unlearned (hun : ¬s.Unlearned hosts sgkey) :
    ∃ host ∈ hosts, s.subgraph2Host sgkey = some host := by
  by_contra hnone
  exact hun fun host hmem hhost => hnone ⟨host, hmem, hhost⟩

theorem Unlearned.getD_notMem (hun : s.Unlearned hosts sgkey) (hempty : "" ∉ hosts) :
    (s.subgraph2Host sgkey).getD "" ∉ hosts := by
  cases hhost : s.subgraph2Host sgkey with
  | none => exact hempty
  | some host => exact fun hmem => hun host hmem hhost

namespace Ready

theorem facing (hs : s.Ready hosts p) (providers : String → Provider g) :
    (s.facing providers).Ready hosts p where
  localHost_mem := hs.localHost_mem
  isSome_iff host := by rw [← hs.isSome_iff host, Agent.facing, Option.isSome_map]
  learned := hs.learned

/-- A subgraph without a configured host is not known, or it has the mark for that. -/
theorem getD_eq_unknown (hs : s.Ready hosts p)
    (hun : s.Unlearned hosts sgkey) :
    (s.subgraph2Host sgkey).getD "UNKNOWN" = unknown := by
  cases hhost : s.subgraph2Host sgkey with
  | none => rfl
  | some host =>
    exact (hs.learned sgkey host hhost).2.resolve_right fun hmem => hun host hmem hhost

/-- The producer names a host that it does not know, or one that is configured. -/
theorem learn (hs : s.Ready hosts p)
    (hun : s.Unlearned hosts sgkey)
    (hnamed : p.get sgkey = unknown ∨ p.get sgkey ∈ hosts) :
    (s.learn sgkey (p.get sgkey)).Ready hosts p where
  localHost_mem := hs.localHost_mem
  isSome_iff := hs.isSome_iff
  learned sgkey' host hhost := by
    by_cases hkey : sgkey' = sgkey
    · subst hkey
      obtain rfl := Option.some.inj ((subgraph2Host_learn s sgkey' _).symm.trans hhost)
      exact ⟨rfl, hnamed⟩
    · exact hs.learned sgkey' host ((Function.update_of_ne hkey ..).symm.trans hhost)

end Ready

/-! ### The routes of single calls -/

theorem callProvider_run (hprovider : ∀ host, (s.host2Provider host).isSome = true ↔ host ∈ hosts)
    (hmem : host ∈ hosts) : (callProvider host).run s = (.ok (.provider host), s) := by
  obtain ⟨provider, hp⟩ := Option.isSome_iff_exists.mp ((hprovider host).mpr hmem)
  rw [callProvider, Prog.run_bind_of_ok (getProvider_run hp), Prog.run_pure]

theorem getProvider_run_of_notMem
    (hprovider : ∀ host, (s.host2Provider host).isSome = true ↔ host ∈ hosts)
    (hmem : host ∉ hosts) : (getProvider host).run s = (.error .noProvider, s) := by
  have hnone : s.host2Provider host = none :=
    Option.not_isSome_iff_eq_none.mp fun h => hmem ((hprovider host).mp h)
  rw [getProvider, Prog.run_get_bind]
  simp only [hnone]
  rfl

theorem callProvider_run_of_notMem
    (hprovider : ∀ host, (s.host2Provider host).isSome = true ↔ host ∈ hosts)
    (hmem : host ∉ hosts) : (callProvider host).run s = (.error .noProvider, s) :=
  Prog.run_bind_of_error (getProvider_run_of_notMem hprovider hmem)

theorem getHostTS_run (s : Agent g) (v : UInt32) :
    (getHostTS v).run s =
      (.ok ((s.subgraph2Host (subgraphKey g.storage v)).getD "UNKNOWN"), s) := rfl

theorem run_cached_error {α : Type} {x : Prog (GraphCache g.cache g.storage.blockSz) CacheFault α}
    {e : CacheFault} {cache : GraphCache g.cache g.storage.blockSz}
    (h : x.run s.graphCache = (.error e, cache)) :
    (cached x).run s = (.error (.cache e), { s with graphCache := cache }) := by
  rw [cached]
  simp only [h]

/-- There is no room in the vector of a new result. -/
theorem copyBlock_run_zero (s : Agent g) : (copyBlock 0).run s = (.error .noRoom, s) := by
  have hpos : 32 ≤ g.storage.blockSz.bytes := g.storage.blockSz.le_bytes
  rw [copyBlock, if_neg (by omega), Prog.run_fail]

/-- `getHost` puts what it returns into the table. -/
theorem getHost_run_getD (s : Agent g) (v : UInt32) :
    (getHost v).run s = (.ok ((s.subgraph2Host (subgraphKey g.storage v)).getD ""),
      s.learn (subgraphKey g.storage v)
        ((s.subgraph2Host (subgraphKey g.storage v)).getD "")) := by
  cases hhost : s.subgraph2Host (subgraphKey g.storage v) with
  | none =>
    rw [getHost, Prog.run_get_bind]
    simp only [hhost]
    rfl
  | some host =>
    rw [getHost_run hhost, Option.getD_some, learn, ← hhost, Function.update_eq_self]

namespace Ready

variable (hs : s.Ready hosts p)

include hs

/-- A lock on a subgraph that the agent knows. -/
theorem lockRoute_run_of_learned (hunknown : unknown ∉ hosts) (named : String) (hmem : host ∈ hosts)
    (hhost : s.subgraph2Host (subgraphKey g.storage v) = some host) :
    (lockRoute named v).run s = (.ok (.provider host), s) := by
  have hne : host ≠ "UNKNOWN" := ne_of_mem_of_not_mem hmem hunknown
  rw [lockRoute, Prog.run_bind_of_ok (getHostTS_run s v), hhost, Option.getD_some, if_pos hne,
    callProvider_run hs.isSome_iff hmem]

/-- A lock on a subgraph that the agent does not know. -/
theorem lockRoute_run_of_unlearned (named : String)
    (hun : s.Unlearned hosts (subgraphKey g.storage v)) :
    (lockRoute named v).run s =
      (if named ≠ unknown then callProvider named else pure .failure).run
        (s.learn (subgraphKey g.storage v) named) := by
  have hunk : ¬unknown ≠ "UNKNOWN" := not_not_intro rfl
  rw [lockRoute, Prog.run_bind_of_ok (getHostTS_run s v), hs.getD_eq_unknown hun, if_neg hunk]
  have hrefresh : (refresh named v).run s = (.ok (), s.learn (subgraphKey g.storage v) named) := rfl
  rw [Prog.run_bind_of_ok hrefresh, Prog.run_bind_of_ok (getHostTS_run _ v), subgraph2Host_learn,
    Option.getD_some]
  rfl

theorem unlockRoute_run_of_learned (hempty : "" ∉ hosts) (hmem : host ∈ hosts)
    (hhost : s.subgraph2Host (subgraphKey g.storage v) = some host) :
    (unlockRoute v).run s = (.ok (.provider host), s) := by
  have hne : host ≠ "" := ne_of_mem_of_not_mem hmem hempty
  rw [unlockRoute, Prog.run_bind_of_ok (getHostTS_run s v), hhost, Option.getD_some, if_pos hne,
    callProvider_run hs.isSome_iff hmem]

/-- An unlock on a subgraph that the agent does not know goes through an absent provider. -/
theorem unlockRoute_run_of_unlearned (hunknown : unknown ∉ hosts)
    (hun : s.Unlearned hosts (subgraphKey g.storage v)) :
    (unlockRoute v).run s = (.error .noProvider, s) := by
  have hne : unknown ≠ "" := by decide
  rw [unlockRoute, Prog.run_bind_of_ok (getHostTS_run s v), hs.getD_eq_unknown hun, if_pos hne,
    callProvider_run_of_notMem hs.isSome_iff hunknown]

theorem getHeadBlknoRoute_run_of_learned (hmem : host ∈ hosts)
    (hhost : s.subgraph2Host (subgraphKey g.storage v) = some host) :
    (getHeadBlknoRoute v).run s = (.ok (.provider host), s) := by
  rw [getHeadBlknoRoute, Prog.run_bind_of_ok (getHost_run hhost),
    callProvider_run hs.isSome_iff hmem]

theorem getHeadBlknoRoute_run_of_unlearned (hempty : "" ∉ hosts)
    (hun : s.Unlearned hosts (subgraphKey g.storage v)) :
    ((getHeadBlknoRoute v).run s).1 = .error .noProvider := by
  have hrun := getHost_run_getD s v
  have hnot := hun.getD_notMem hempty
  generalize (s.subgraph2Host (subgraphKey g.storage v)).getD "" = host at hnot hrun
  rw [getHeadBlknoRoute, Prog.run_bind_of_ok hrun,
    callProvider_run_of_notMem (s := s.learn (subgraphKey g.storage v) host) hs.isSome_iff hnot]

/-- A read on a subgraph that the agent does not know fails, in a way that depends on the cache
only. -/
theorem readRoute_run_of_unlearned (hempty : "" ∉ hosts)
    (hun : s.Unlearned hosts (subgraphKey g.storage v)) :
    ((readRoute 0 v b).run s).1 =
      match ((GraphCache.read v b).run s.graphCache).1 with
      | .ok (some _) => .error .noRoom
      | .ok none => .error .noProvider
      | .error e => .error (.cache e) := by
  have hrun := getHost_run_getD s v
  have hnot := hun.getD_notMem hempty
  generalize (s.subgraph2Host (subgraphKey g.storage v)).getD "" = host at hnot hrun
  let s' := s.learn (subgraphKey g.storage v) host
  have hlocal : s'.localHost ≠ host := ne_of_mem_of_not_mem hs.localHost_mem hnot
  have hprovider : ∀ host, (s'.host2Provider host).isSome = true ↔ host ∈ hosts := hs.isSome_iff
  rw [readRoute, Prog.run_bind_of_ok hrun, Prog.run_get_bind, if_neg hlocal]
  rcases hread : (GraphCache.read v b).run s.graphCache with ⟨e | _ | blk, cache⟩
  · rw [Prog.run_bind_of_error (run_cached_error (s := s') hread)]
  · rw [Prog.run_bind_of_ok (run_cached (s := s') hread)]
    have herror := getProvider_run_of_notMem (s := { s' with graphCache := cache }) hprovider hnot
    exact congrArg Prod.fst (Prog.run_bind_of_error herror)
  · rw [Prog.run_bind_of_ok (run_cached (s := s') hread)]
    exact congrArg Prod.fst (Prog.run_bind_of_error (copyBlock_run_zero _))

/-- A read of a block on the agent's own host. -/
theorem readRoute_run_native (room : ℕ)
    (hhost : s.subgraph2Host (subgraphKey g.storage v) = some s.localHost) :
    ∃ blk, (readRoute room v b).run s = (.ok (.provider s.localHost, blk), s) := by
  obtain ⟨provider, hprovider⟩ :=
    Option.isSome_iff_exists.mp ((hs.isSome_iff s.localHost).mpr hs.localHost_mem)
  refine ⟨provider.read v b, ?_⟩
  rw [readRoute, Prog.run_bind_of_ok (getHost_run hhost), Prog.run_get_bind, if_pos rfl,
    Prog.run_bind_of_ok (getProvider_run hprovider), Prog.run_pure]

end Ready

/-- A read of a block on another host fails: also where the block is found there is no room for
it. -/
theorem readRoute_error_of_alien (hhost : s.subgraph2Host (subgraphKey g.storage v) = some host)
    (hne : host ≠ s.localHost) : ∃ e, ((readRoute 0 v b).run s).1 = .error e := by
  rw [readRoute, Prog.run_bind_of_ok (getHost_run hhost), Prog.run_get_bind, if_neg (Ne.symm hne)]
  rcases hread : (GraphCache.read v b).run s.graphCache with ⟨e | _ | blk, cache⟩
  · exact ⟨_, congrArg Prod.fst (Prog.run_bind_of_error (run_cached_error hread))⟩
  · rw [Prog.run_bind_of_ok (run_cached hread)]
    rcases hget : (getProvider host).run { s with graphCache := cache } with ⟨e | provider, s'⟩
    · exact ⟨e, congrArg Prod.fst (Prog.run_bind_of_error hget)⟩
    · simp only
      rw [Prog.run_bind_of_ok hget]
      cases provider.readn v b g.prefetch with
      | nil => exact ⟨.noBlocks, rfl⟩
      | cons blk blks =>
        exact ⟨.noRoom, congrArg Prod.fst (Prog.run_bind_of_error (copyBlock_run_zero s'))⟩
  · rw [Prog.run_bind_of_ok (run_cached hread)]
    exact ⟨.noRoom, congrArg Prod.fst (Prog.run_bind_of_error (copyBlock_run_zero _))⟩

/-- A read on a subgraph that the agent does not know fails. -/
theorem Ready.readRoute_error (hs : s.Ready hosts p) (hempty : "" ∉ hosts)
    (hun : s.Unlearned hosts (subgraphKey g.storage v)) :
    ∃ e, ((readRoute 0 v b).run s).1 = .error e := by
  rw [hs.readRoute_run_of_unlearned hempty hun]
  rcases ((GraphCache.read v b).run s.graphCache).1 with e | _ | blk
  · exact ⟨.cache e, rfl⟩
  · exact ⟨.noProvider, rfl⟩
  · exact ⟨.noRoom, rfl⟩

theorem getTailBlknoRoute_run (depth : ℕ) (v : UInt32) (s : Agent g) :
    (getTailBlknoRoute depth v).run s = (.error .stackOverflow, s) := by
  induction depth with
  | zero => rfl
  | succ depth ih => exact ih

/-- The route of a read. -/
theorem run_route (x : Prog (Agent g) AgentFault (Route × g.Blk)) (s : Agent g) :
    ((x >>= fun r => pure r.1).run s).1 = (x.run s).1.map Prod.fst := by
  rcases hrun : x.run s with ⟨_ | _, _⟩
  · rw [Prog.run_bind_of_error hrun]
    rfl
  · rw [Prog.run_bind_of_ok hrun]
    rfl

/-- A new agent is ready. -/
theorem ready_new {localHost : String} {providers : String → Provider g}
    {memory : GraphCache g.cache g.storage.blockSz} (p : Partition)
    (hnew : new localHost hosts providers memory = .ok s) : s.Ready hosts p := by
  rw [new] at hnew
  split at hnew
  case isFalse => cases hnew
  case isTrue hlocal =>
    obtain rfl := Except.ok.inj hnew
    refine ⟨hlocal, fun host => ?_, nofun⟩
    by_cases hmem : host ∈ hosts <;> simp [hmem]

end Agent

/-! ### The routes of calls of the handler -/

section Handler

variable {hosts : List String} {p : Partition} {s s' : Agent g} {c : HandlerCall g} {route : Route}

theorem HandlerCall.route_depth (c : HandlerCall g) (p : Partition) (depth : ℕ) :
    c.route p depth = c.route p 0 := by
  rcases c with ⟨_ | _ | _ | v | _, _⟩
  case getTailBlkno =>
    refine congrArg Prog.mk (funext fun s => ?_)
    exact (Agent.getTailBlknoRoute_run depth v s).trans (Agent.getTailBlknoRoute_run 0 v s).symm
  all_goals rfl

theorem HandlerCall.endsWith_iff :
    c.EndsWith p s route s' ↔ (c.route p 0).run (s.facing c.providers) = (.ok route, s') :=
  ⟨fun ⟨depth, h⟩ => c.route_depth p depth ▸ h, fun h => ⟨0, h⟩⟩

/-- A call has one route. -/
theorem HandlerCall.EndsWith.unique {route' : Route} {s'' : Agent g} (h : c.EndsWith p s route s')
    (h' : c.EndsWith p s route' s'') : route = route' ∧ s' = s'' := by
  have heq := (endsWith_iff.mp h).symm.trans (endsWith_iff.mp h')
  rw [Prod.mk.injEq, Except.ok.injEq] at heq
  exact heq

theorem not_routed_of_error {e : AgentFault}
    (h : ((c.route p 0).run (s.facing c.providers)).1 = .error e) : ¬Routed hosts p s c := by
  rintro ⟨route, s', hend, -⟩
  rw [HandlerCall.endsWith_iff.mp hend] at h
  cases h

theorem routed_of_run (route : Route)
    (hrun : (c.route p 0).run (s.facing c.providers) = (.ok route, s'))
    (hs' : s'.Ready hosts p)
    (hroute : route.Right hosts p c.sgkey s s') :
    Routed hosts p s c ∧ ∀ route s', c.EndsWith p s route s' → s'.Ready hosts p := by
  have hend := HandlerCall.endsWith_iff.mpr hrun
  refine ⟨⟨route, s', hend, hroute⟩, fun route' s'' hend' => ?_⟩
  exact (hend.unique hend').2 ▸ hs'

/-- Where the agent does not know the subgraph, the mark for that makes no difference. -/
theorem Agent.Ready.sameRoutes (hs : s.Ready hosts p) (hempty : "" ∉ hosts)
    (hunknown : unknown ∉ hosts) {sgkey : UInt32} (hun : s.Unlearned hosts sgkey)
    (hp : p.get sgkey = unknown) (providers : String → Provider g) :
    SameRoutes sgkey s ((s.facing providers).learn sgkey unknown) := by
  intro p' c depth hkey
  rw [c.route_depth, Agent.learn_facing, Agent.facing_facing]
  have ht := hs.facing c.providers
  have hunt : (s.facing c.providers).Unlearned hosts sgkey := hun
  generalize s.facing c.providers = t at ht hunt
  have ht' : (t.learn sgkey unknown).Ready hosts p := hp ▸ ht.learn hunt (Or.inl hp)
  have hunt' : (t.learn sgkey unknown).Unlearned hosts sgkey := fun host hmem hhost =>
    hunknown (Option.some.inj ((Agent.subgraph2Host_learn t sgkey unknown).symm.trans hhost) ▸ hmem)
  rcases c with ⟨v | v | v | v | ⟨v, b⟩, _⟩ <;>
    change subgraphKey g.storage v = sgkey at hkey <;> subst hkey
  case lock =>
    rw [HandlerCall.route, ht.lockRoute_run_of_unlearned _ hunt,
      ht'.lockRoute_run_of_unlearned _ hunt', Agent.learn_learn]
  case unlock =>
    exact (congrArg Prod.fst (ht.unlockRoute_run_of_unlearned hunknown hunt)).trans
      (congrArg Prod.fst (ht'.unlockRoute_run_of_unlearned hunknown hunt')).symm
  case getHeadBlkno =>
    exact (ht.getHeadBlknoRoute_run_of_unlearned hempty hunt).trans
      (ht'.getHeadBlknoRoute_run_of_unlearned hempty hunt').symm
  case getTailBlkno => rfl
  case read =>
    have hsame : ((Agent.readRoute 0 v b).run t).1 =
        ((Agent.readRoute 0 v b).run (t.learn (subgraphKey g.storage v) unknown)).1 :=
      (ht.readRoute_run_of_unlearned hempty hunt).trans
        (ht'.readRoute_run_of_unlearned hempty hunt').symm
    exact (Agent.run_route _ _).trans ((congrArg _ hsame).trans (Agent.run_route _ _).symm)

/-- **A call that meets the condition** is routed. -/
theorem HandlerCall.Safe.routed (hsafe : c.Safe hosts p s) (hs : s.Ready hosts p)
    (hempty : "" ∉ hosts) (hunknown : unknown ∉ hosts) :
    Routed hosts p s c ∧ ∀ route s', c.EndsWith p s route s' → s'.Ready hosts p := by
  have ht := hs.facing c.providers
  rcases c with ⟨v | v | v | v | ⟨v, b⟩, providers⟩
  case lock =>
    by_cases hun : (s.facing providers).Unlearned hosts (subgraphKey g.storage v)
    · have hrun := ht.lockRoute_run_of_unlearned (p.get (subgraphKey g.storage v)) hun
      have ht' := ht.learn hun hsafe
      by_cases hnamed : p.get (subgraphKey g.storage v) = unknown
      · have hsame := hs.sameRoutes hempty hunknown hun hnamed providers
        rw [if_neg (not_not_intro hnamed), Prog.run_pure] at hrun
        exact routed_of_run .failure hrun ht'
          ⟨fun h => hunknown (hnamed ▸ h), hnamed ▸ hsame⟩
      · have hmem := Or.resolve_left hsafe hnamed
        rw [if_pos hnamed] at hrun
        exact routed_of_run (.provider _)
          (hrun.trans (Agent.callProvider_run ht'.isSome_iff hmem)) ht' ⟨hmem, rfl⟩
    · obtain ⟨host, hmem, hhost⟩ := Agent.exists_of_not_unlearned hun
      exact routed_of_run (.provider host)
        (ht.lockRoute_run_of_learned hunknown _ hmem hhost) ht
        ⟨hmem, (hs.learned _ host hhost).1⟩
  case unlock =>
    obtain ⟨host, hmem, hhost⟩ := hsafe
    exact routed_of_run (.provider host)
      (ht.unlockRoute_run_of_learned hempty hmem hhost) ht ⟨hmem, (hs.learned _ host hhost).1⟩
  case getHeadBlkno =>
    obtain ⟨host, hmem, hhost⟩ := hsafe
    exact routed_of_run (.provider host)
      (ht.getHeadBlknoRoute_run_of_learned hmem hhost) ht ⟨hmem, (hs.learned _ host hhost).1⟩
  case getTailBlkno => exact hsafe.elim
  case read =>
    have hmem := hs.localHost_mem
    obtain ⟨blk, hrun⟩ := ht.readRoute_run_native (b := b) 0 hsafe
    exact routed_of_run (.provider _) (Prog.run_bind_of_ok hrun) ht
      ⟨hmem, (hs.learned _ _ hsafe).1⟩

/-- A call that does not meet the condition fails. -/
theorem HandlerCall.not_routed (hsafe : ¬c.Safe hosts p s) (hs : s.Ready hosts p)
    (hempty : "" ∉ hosts) (hunknown : unknown ∉ hosts) : ¬Routed hosts p s c := by
  have ht := hs.facing c.providers
  rcases c with ⟨v | v | v | v | ⟨v, b⟩, providers⟩
  case lock =>
    have hnamed : p.get (subgraphKey g.storage v) ∉ hosts := fun h => hsafe (Or.inr h)
    have hne : p.get (subgraphKey g.storage v) ≠ unknown := fun h => hsafe (Or.inl h)
    have hun : (s.facing providers).Unlearned hosts (subgraphKey g.storage v) :=
      fun host hmem hhost => hnamed ((hs.learned _ host hhost).1 ▸ hmem)
    have hrun := ht.lockRoute_run_of_unlearned (p.get (subgraphKey g.storage v)) hun
    rw [if_pos hne] at hrun
    exact not_routed_of_error (congrArg Prod.fst
      (hrun.trans (Agent.callProvider_run_of_notMem ht.isSome_iff hnamed)))
  case unlock =>
    have hun : (s.facing providers).Unlearned hosts (subgraphKey g.storage v) :=
      fun host hmem hhost => hsafe ⟨host, hmem, hhost⟩
    exact not_routed_of_error (congrArg Prod.fst (ht.unlockRoute_run_of_unlearned hunknown hun))
  case getHeadBlkno =>
    have hun : (s.facing providers).Unlearned hosts (subgraphKey g.storage v) :=
      fun host hmem hhost => hsafe ⟨host, hmem, hhost⟩
    exact not_routed_of_error (ht.getHeadBlknoRoute_run_of_unlearned hempty hun)
  case getTailBlkno =>
    exact not_routed_of_error (congrArg Prod.fst (Agent.getTailBlknoRoute_run 0 v _))
  case read =>
    by_cases hun : (s.facing providers).Unlearned hosts (subgraphKey g.storage v)
    · obtain ⟨e, herror⟩ := ht.readRoute_error (b := b) hempty hun
      exact not_routed_of_error ((Agent.run_route _ _).trans (congrArg _ herror))
    · obtain ⟨host, hmem, hhost⟩ := Agent.exists_of_not_unlearned hun
      have hne : host ≠ s.localHost := fun e => hsafe (hhost.trans (congrArg some e))
      obtain ⟨e, herror⟩ :=
        Agent.readRoute_error_of_alien (s := s.facing providers) (b := b) hhost hne
      exact not_routed_of_error ((Agent.run_route _ _).trans (congrArg _ herror))

end Handler

/-- **Which calls are routed.** After every sequence of calls that meet the condition, a call of a
new agent is routed as it should be if and only if it meets the condition too. -/
theorem handlerCall_routed_iff {hosts : List String} (hempty : "" ∉ hosts)
    (hunknown : unknown ∉ hosts) (p : Partition) {localHost : String}
    {providers : String → Provider g} {memory : GraphCache g.cache g.storage.blockSz}
    {s₀ s : Agent g} (hnew : Agent.new localHost hosts providers memory = .ok s₀)
    {cs : List (HandlerCall g)} (h : Steps (HandlerStep hosts p) s₀ cs s) (c : HandlerCall g) :
    Routed hosts p s c ↔ c.Safe hosts p s := by
  have hs : s.Ready hosts p := by
    refine h.invariant (fun s c s' hs ⟨hsafe, route, hend⟩ => ?_) (Agent.ready_new p hnew)
    exact (hsafe.routed hs hempty hunknown).2 route s' hend
  refine ⟨fun hrouted => ?_, fun hsafe => (hsafe.routed hs hempty hunknown).1⟩
  by_contra hsafe
  exact HandlerCall.not_routed hsafe hs hempty hunknown hrouted

/-! ### Calls of a small agent -/

/-- A provider that answers with one block. -/
def Provider.oneBlock : Provider g where
  read _ _ _ := 0
  readn _ _ _ := [fun _ => 0]

/-- A call with providers that answer with one block. -/
def HandlerOp.call (op : HandlerOp) : HandlerCall g :=
  ⟨op, fun _ => Provider.oneBlock⟩

/-- A new agent on the host `a`, next to the host `b`. -/
def Agent.fresh : Agent ⟨Config.small, CacheConfig.small, Config.small_bytes_le⟩ where
  localHost := "a"
  host2Provider host := if host ∈ ["a", "b"] then some .oneBlock else none
  subgraph2Host _ := none
  graphCache := GraphCache.new (GraphCache.zero _ _)

theorem Agent.new_eq_fresh :
    Agent.new "a" ["a", "b"] (fun _ => .oneBlock) (GraphCache.zero _ _) = .ok Agent.fresh := rfl

/-- A read, on the agent's own host, after a lock. -/
theorem handlerCall_routed_iff_small : ∃ s,
    Steps (HandlerStep ["a", "b"] fun _ => some "a") Agent.fresh [HandlerOp.call (.lock 0)] s ∧
      Routed ["a", "b"] (fun _ => some "a") s (HandlerOp.call (.read 0 4)) := by
  have h : Steps (HandlerStep ["a", "b"] fun _ => some "a") Agent.fresh
      [HandlerOp.call (.lock 0)] ((Agent.fresh.facing fun _ => .oneBlock).learn 0 "a") :=
    .single ⟨Or.inr (by decide +kernel), .provider "a", 0, rfl⟩
  exact ⟨_, h, (handlerCall_routed_iff (by decide) (by decide) _ Agent.new_eq_fresh h _).mpr rfl⟩

/-- The first call of an agent is an unlock of a vertex on a configured host. -/
theorem routed_false_of_unlock :
    ¬Routed ["a", "b"] (fun _ => some "b") Agent.fresh (HandlerOp.call (.unlock 0)) :=
  not_routed_of_error (e := .noProvider) rfl

end Nynn
