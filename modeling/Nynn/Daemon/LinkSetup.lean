import Nynn.Daemon.NetworkConfig
import Nynn.Library.Transition
import Mathlib.Algebra.Group.Action.Defs
import Mathlib.Algebra.Order.BigOperators.Group.Finset
import Mathlib.Data.Set.Card

/-!
# The set-up of the links

At its start a daemon reads the table of the hosts and looks for its own entry. From the index `k`
of that entry it derives its role towards each of the other hosts: `connector` threads connect to
the hosts behind `k`, and the `acceptor` thread waits for `k` connections and stores each in the
link of the host with the address of the peer. `main` goes on when all these threads have ended.

The daemons start and run at any speed. A connector whose target does not listen yet tries again.

Source: `main`, `connector` and `acceptor` in `nynn_daemon.cpp`.

## Main definitions

* `Nynn.LinkNet`: hosts that set their links up, with the configuration of each.
* `Nynn.SetUp`, `Nynn.SetUpStep`: the state of the set-up, and the steps of the threads.
* `Nynn.BuildsFullMesh`: the set-up ends, with one connection between any two hosts.

## Main results

* `Nynn.buildsFullMesh_of_listed`: hosts whose files list all of them build a full mesh.
-/

namespace Nynn

open Transition

/-! ### The hosts and their roles -/

/-- Hosts that set their links up: the name, the address and the port of each, its configuration
file, the size of its table of links, and the contents of that table before. -/
structure LinkNet where
  hosts : List Link
  cfg : Fin hosts.length → Text
  linksMax : Fin hosts.length → ℕ
  old : Fin hosts.length → ℕ → UInt32

namespace LinkNet

variable (net : LinkNet)

abbrev Host : Type := Fin net.hosts.length

def link (h : net.Host) : Link := net.hosts.get h

/-- The table of a host. It is empty if `loadconfig` returns `false`. -/
def links (h : net.Host) : List Link :=
  match loadconfig (net.linksMax h) (net.old h) (net.cfg h) with
  | .ok links => links
  | .error _ => []

/-- The loop of `main` that looks for the own entry. -/
def k (h : net.Host) : ℕ :=
  (net.links h).findIdx fun l =>
    l.hostname = (net.link h).hostname || l.hostaddr = (net.link h).hostaddr

/-- The acceptor of the host is bound to the address and the port of the link. -/
def Listens (g : net.Host) (l : Link) : Prop :=
  ∃ own, (net.links g)[net.k g]? = some own ∧ own.hostaddr = l.hostaddr ∧ own.port = l.port

/-- The host `h` has a connector that connects to `g`. -/
def Targets (h g : net.Host) : Prop :=
  ∃ i l, net.k h < i ∧ (net.links h)[i]? = some l ∧ net.Listens g l

/-- Hosts with names and addresses of their own whose files list all of them, with tables that have
room for them. -/
structure Listed : Prop where
  two_le : 2 ≤ net.hosts.length
  names : (net.hosts.map Link.hostname).Nodup
  addrs : (net.hosts.map Link.hostaddr).Nodup
  lists : ∀ h, ListsHosts (net.cfg h) net.hosts
  linksMax : ∀ h, net.hosts.length ≤ net.linksMax h

end LinkNet

/-! ### The threads and their steps -/

/-- A connection, with the hosts at its ends. The number tells two connections of the same hosts
apart. -/
structure Conn (net : LinkNet) where
  no : ℕ
  src : net.Host
  dst : net.Host
  deriving DecidableEq

/-- Where the acceptor of a host is. -/
inductive AcceptorPhase
  | unborn
  | accepting (i : ℕ)
  | closed
  /-- `exit_on_error`: the peer is not in the table. -/
  | exited
  deriving DecidableEq, Repr

/-- The state of the set-up. -/
structure SetUp (net : LinkNet) where
  acceptor : net.Host → AcceptorPhase
  /-- Connections that the network has made and the acceptor has not taken yet. -/
  backlog : net.Host → List (Conn net)
  /-- The connector for this link has ended. -/
  connected : net.Host → ℕ → Bool
  /-- `rfd` and `wfd` of a link: two descriptors of one connection. -/
  fd : net.Host → ℕ → Option (Conn net)
  /-- All connections that were made. -/
  made : List (Conn net)

inductive SetUpEvent (net : LinkNet)
  | listen (g : net.Host)
  | retry (h : net.Host) (i : ℕ)
  | connect (h : net.Host) (i : ℕ)
  | accept (g : net.Host)
  | close (g : net.Host)

/-- The event is a step forward, not a failed attempt to connect. -/
def SetUpEvent.isProgress {net : LinkNet} : SetUpEvent net → Bool
  | retry _ _ => false
  | listen _ | connect _ _ | accept _ | close _ => true

namespace SetUp

variable {net : LinkNet} (s : SetUp net)

/-- No thread has done anything. -/
def init : SetUp net := ⟨fun _ => .unborn, fun _ => [], fun _ _ => false, fun _ _ => none, []⟩

/-- The connector of `h` for the link `i` runs. `main` creates threads only if there are other
hosts. -/
def Pending (h : net.Host) (i : ℕ) : Prop :=
  1 < (net.links h).length ∧ net.k h < i ∧ i < (net.links h).length ∧ s.connected h i = false

def setAcceptor (g : net.Host) (phase : AcceptorPhase) : SetUp net :=
  { s with acceptor := Function.update s.acceptor g phase }

@[simp]
theorem setAcceptor_self (g : net.Host) (phase : AcceptorPhase) :
    (s.setAcceptor g phase).acceptor g = phase :=
  Function.update_self ..

theorem setAcceptor_of_ne {g g' : net.Host} (hg : g' ≠ g) (phase : AcceptorPhase) :
    (s.setAcceptor g phase).acceptor g' = s.acceptor g' :=
  Function.update_of_ne hg ..

def setBacklog (g : net.Host) (conns : List (Conn net)) : SetUp net :=
  { s with backlog := Function.update s.backlog g conns }

@[simp]
theorem setBacklog_self (g : net.Host) (conns : List (Conn net)) :
    (s.setBacklog g conns).backlog g = conns :=
  Function.update_self ..

theorem setBacklog_of_ne {g g' : net.Host} (hg : g' ≠ g) (conns : List (Conn net)) :
    (s.setBacklog g conns).backlog g' = s.backlog g' :=
  Function.update_of_ne hg ..

/-- `links[j].rfd` and `links[j].wfd` of the host. -/
def setFd (h : net.Host) (j : ℕ) (c : Conn net) : SetUp net :=
  { s with fd := Function.update s.fd h (Function.update (s.fd h) j (some c)) }

theorem setFd_fd {h h' : net.Host} {j j' : ℕ} {c : Conn net} :
    (s.setFd h j c).fd h' j' = if h' = h ∧ j' = j then some c else s.fd h' j' := by
  rw [setFd]
  by_cases hh : h' = h
  · subst hh
    by_cases hj : j' = j <;> simp [hj]
  · simp [hh]

/-- The network makes a connection from `h` to `g`, for the link `i` of `h`. -/
def connect (h : net.Host) (i : ℕ) (g : net.Host) : SetUp net :=
  let c : Conn net := ⟨s.made.length, h, g⟩
  { (s.setFd h i c).setBacklog g (s.backlog g ++ [c]) with
    connected := Function.update s.connected h (Function.update (s.connected h) i true)
    made := s.made ++ [c] }

theorem connect_connected {h h' g : net.Host} {i j : ℕ} :
    (s.connect h i g).connected h' j = if h' = h ∧ j = i then true else s.connected h' j := by
  rw [connect]
  by_cases hh : h' = h
  · subst hh
    by_cases hj : j = i <;> simp [hj]
  · simp [hh]

/-- The acceptor of `g`, which has accepted `i` connections, gets the connection `c`: it looks for
the address of the peer in the links in front of its own. -/
def accept (g : net.Host) (i : ℕ) (c : Conn net) : SetUp net :=
  let n := net.k g
  let ip := (net.link c.src).hostaddr
  let j := ((net.links g).take n).findIdx fun l => l.hostaddr = ip
  if j = n then s.setAcceptor g .exited
  else (s.setFd g j c).setAcceptor g (.accepting (i + 1))

/-- All threads have ended. -/
def Done : Prop :=
  ∀ h, s.acceptor h = .closed ∧ ∀ i, ¬s.Pending h i

end SetUp

/-- The steps of the threads. -/
inductive SetUpStep (net : LinkNet) : SetUp net → SetUpEvent net → SetUp net → Prop
  | listen {s : SetUp net} {g : net.Host} (hlinks : 1 < (net.links g).length)
      (hacc : s.acceptor g = .unborn) :
      SetUpStep net s (.listen g) (s.setAcceptor g (.accepting 0))
  | retry {s : SetUp net} {h : net.Host} {i : ℕ} (hpending : s.Pending h i) :
      SetUpStep net s (.retry h i) s
  | connect {s : SetUp net} {h g : net.Host} {i n : ℕ} {l : Link} (hpending : s.Pending h i)
      (hl : (net.links h)[i]? = some l) (hacc : s.acceptor g = .accepting n)
      (hlistens : net.Listens g l) : SetUpStep net s (.connect h i) (s.connect h i g)
  | accept {s : SetUp net} {g : net.Host} {i : ℕ} {c : Conn net} {rest : List (Conn net)}
      (hacc : s.acceptor g = .accepting i) (hi : i < net.k g)
      (hbacklog : s.backlog g = c :: rest) :
      SetUpStep net s (.accept g) ((s.setBacklog g rest).accept g i c)
  | close {s : SetUp net} {g : net.Host} (hacc : s.acceptor g = .accepting (net.k g)) :
      SetUpStep net s (.close g) ((s.setBacklog g []).setAcceptor g .closed)

/-! ### Full meshes -/

/-- In no state has an acceptor exited, two hosts have at most one connection, the host earlier in
the order connects, and a link has a connection with the host of the link. -/
structure SetUp.Safe {net : LinkNet} (s : SetUp net) : Prop where
  not_exited : ∀ g, s.acceptor g ≠ .exited
  ordered : ∀ c ∈ s.made, net.k c.src < net.k c.dst
  unique : ∀ c ∈ s.made, ∀ d ∈ s.made, c.src = d.src → c.dst = d.dst → c = d
  stored : ∀ h j c, s.fd h j = some c → c ∈ s.made ∧
    (c.src = h ∧ (net.links h)[j]? = some (net.link c.dst) ∨
      c.dst = h ∧ (net.links h)[j]? = some (net.link c.src))

/-- Any two hosts have a connection, and both have stored it in the link of the other one. -/
def SetUp.FullMesh {net : LinkNet} (s : SetUp net) : Prop :=
  ∀ h g, net.k h < net.k g → ∃ c ∈ s.made, c.src = h ∧ c.dst = g ∧
    s.fd h (net.k g) = some c ∧ s.fd g (net.k h) = some c

/-- **Full meshes.** Every host finds its entry, and no two hosts have the same index; an acceptor
waits for as many connections as hosts connect to it. Whatever the threads do, all that they have
done so far is right, they are not stuck, they make only finitely many steps forward, and when they
have ended, any two hosts are connected. -/
structure BuildsFullMesh (net : LinkNet) : Prop where
  own : ∀ h, (net.links h)[net.k h]? = some (net.link h)
  roles : Function.Injective net.k
  counts : ∀ g, {h | net.Targets h g}.ncard = net.k g
  safe : ∀ as s, Steps (SetUpStep net) .init as s → s.Safe
  progress : ∀ as s, Steps (SetUpStep net) .init as s →
    s.Done ∨ ∃ a s', a.isProgress = true ∧ SetUpStep net s a s'
  bounded : ∀ as s, Steps (SetUpStep net) .init as s →
    as.countP SetUpEvent.isProgress ≤ 2 * net.hosts.length * net.hosts.length
  mesh : ∀ as s, Steps (SetUpStep net) .init as s → s.Done → s.FullMesh

/-! ### The roles -/

namespace LinkNet

variable {net : LinkNet}

/-- The roles that the hosts derive from their tables. -/
private structure Roles (net : LinkNet) : Prop where
  length_links : ∀ h, (net.links h).length = net.hosts.length
  /-- Every table has the host of index `net.k g` at this index. -/
  getElem_k : ∀ h g, (net.links h)[net.k g]? = some (net.link g)
  k_injective : Function.Injective net.k
  exists_k : ∀ i < net.hosts.length, ∃ h, net.k h = i
  addr_injective : ∀ g h, (net.link g).hostaddr = (net.link h).hostaddr → g = h

private theorem Listed.links_eq (hnet : net.Listed) (h : net.Host) :
    net.links h = sortLinks net.hosts := by
  rw [links, loadconfig_of_lists (hnet.lists h) (hnet.linksMax h)]

/-- The loop of `main` finds the entry of the host, wherever it is. -/
private theorem Listed.k_eq (hnet : net.Listed) {h : net.Host} {i : ℕ}
    (hi : (sortLinks net.hosts)[i]? = some (net.link h)) : net.k h = i := by
  have hperm := sortLinks_perm net.hosts
  obtain ⟨hlt, hget⟩ := List.getElem?_eq_some_iff.mp hi
  have hnames : ((sortLinks net.hosts).map Link.hostname).Nodup :=
    (hperm.map _).nodup_iff.mpr hnet.names
  have haddrs : ((sortLinks net.hosts).map Link.hostaddr).Nodup :=
    (hperm.map _).nodup_iff.mpr hnet.addrs
  rw [k, hnet.links_eq, List.findIdx_eq hlt]
  refine ⟨by simp [hget], fun j hji => ?_⟩
  rw [List.nodup_iff_injective_getElem] at hnames haddrs
  have hj : j < (sortLinks net.hosts).length := by omega
  have hname : (sortLinks net.hosts)[j].hostname ≠ (net.link h).hostname := fun e => by
    have heq := @hnames ⟨j, by simpa using hj⟩ ⟨i, by simpa using hlt⟩ (by simpa [hget] using e)
    simp at heq
    omega
  have haddr : (sortLinks net.hosts)[j].hostaddr ≠ (net.link h).hostaddr := fun e => by
    have heq := @haddrs ⟨j, by simpa using hj⟩ ⟨i, by simpa using hlt⟩ (by simpa [hget] using e)
    simp at heq
    omega
  simp [hname, haddr]

private theorem Listed.roles (hnet : net.Listed) : Roles net := by
  have hperm := sortLinks_perm net.hosts
  have hlength := hperm.length_eq
  have hget (g : net.Host) : (sortLinks net.hosts)[net.k g]? = some (net.link g) := by
    have hmem : net.link g ∈ sortLinks net.hosts := hperm.mem_iff.mpr (List.get_mem _ _)
    obtain ⟨i, hi⟩ := List.mem_iff_getElem?.mp hmem
    rw [hnet.k_eq hi, hi]
  have haddr (g h : net.Host) (e : (net.link g).hostaddr = (net.link h).hostaddr) : g = h := by
    have hinj := List.nodup_iff_injective_getElem.mp hnet.addrs
    have heq := @hinj ⟨g, by simp⟩ ⟨h, by simp⟩ (by simpa [link] using e)
    exact Fin.ext (by simpa using heq)
  refine ⟨fun h => by rw [hnet.links_eq, hlength], fun h g => by rw [hnet.links_eq]; exact hget g,
    fun g h e => ?_, fun i hi => ?_, haddr⟩
  · have hlink := hget g
    rw [e, hget h, Option.some.injEq] at hlink
    exact (haddr _ _ (congrArg Link.hostaddr hlink)).symm
  · obtain ⟨l, hl⟩ : ∃ l, (sortLinks net.hosts)[i]? = some l :=
      ⟨_, List.getElem?_eq_getElem (hlength.symm ▸ hi)⟩
    obtain ⟨h, hh⟩ := List.mem_iff_get.mp (hperm.mem_iff.mp (List.mem_of_getElem? hl))
    exact ⟨h, hnet.k_eq (by rw [hl, ← hh]; rfl)⟩

namespace Roles

variable {h g : net.Host} (hr : Roles net)
include hr

theorem k_lt (g : net.Host) : net.k g < net.hosts.length := by
  have hlt := (List.getElem?_eq_some_iff.mp (hr.getElem_k g g)).1
  rwa [hr.length_links] at hlt

/-- Only one host listens for a link. -/
theorem listens_link_iff : net.Listens g (net.link h) ↔ g = h := by
  constructor
  · rintro ⟨own, hown, haddr, -⟩
    rw [hr.getElem_k, Option.some.injEq] at hown
    subst hown
    exact hr.addr_injective _ _ haddr
  · rintro rfl
    exact ⟨_, hr.getElem_k g g, rfl, rfl⟩

/-- The link for which a host listens has the index of the host. -/
theorem eq_k_of_listens {i : ℕ} {l : Link} (hl : (net.links h)[i]? = some l)
    (hlistens : net.Listens g l) : i = net.k g := by
  obtain ⟨hlt, -⟩ := List.getElem?_eq_some_iff.mp hl
  rw [hr.length_links] at hlt
  obtain ⟨g', rfl⟩ := hr.exists_k i hlt
  rw [hr.getElem_k, Option.some.injEq] at hl
  subst hl
  rw [hr.listens_link_iff.mp hlistens]

/-- A host connects to the hosts behind it. -/
theorem targets_iff : net.Targets h g ↔ net.k h < net.k g := by
  constructor
  · rintro ⟨i, l, hi, hl, hlistens⟩
    exact hr.eq_k_of_listens hl hlistens ▸ hi
  · intro hlt
    exact ⟨_, _, hlt, hr.getElem_k h g, hr.listens_link_iff.mpr rfl⟩

/-- The number of hosts in front of a host. -/
theorem ncard_targets (g : net.Host) : {h | net.Targets h g}.ncard = net.k g := by
  have himage : net.k '' {h | net.Targets h g} = Set.Iio (net.k g) := by
    ext i
    constructor
    · rintro ⟨h, hh, rfl⟩
      exact hr.targets_iff.mp hh
    · intro hi
      obtain ⟨h, rfl⟩ := hr.exists_k i (hi.trans (hr.k_lt g))
      exact ⟨h, hr.targets_iff.mpr hi, rfl⟩
  rw [← Set.ncard_image_of_injective _ hr.k_injective, himage,
    ← Finset.coe_range, Set.ncard_coe_finset, Finset.card_range]

/-- The acceptor looks for the address of a host in front of it. -/
theorem findIdx_addr (hlt : net.k h < net.k g) :
    ((net.links g).take (net.k g)).findIdx (fun l => l.hostaddr = (net.link h).hostaddr) =
      net.k h := by
  obtain ⟨hk, hget⟩ := List.getElem?_eq_some_iff.mp (hr.getElem_k g h)
  have htake : net.k h < ((net.links g).take (net.k g)).length := by
    rw [List.length_take]
    omega
  rw [List.findIdx_eq htake]
  refine ⟨by simp [hget], fun j hji => ?_⟩
  have hj : j < net.hosts.length := hji.trans (hr.k_lt h)
  obtain ⟨g', rfl⟩ := hr.exists_k j hj
  obtain ⟨hk', hget'⟩ := List.getElem?_eq_some_iff.mp (hr.getElem_k g g')
  have hne : (net.link g').hostaddr ≠ (net.link h).hostaddr := fun e =>
    absurd (congrArg net.k (hr.addr_injective _ _ e)) hji.ne
  simp [hget', hne]

end Roles

end LinkNet

/-! ### What holds after any steps -/

namespace SetUp

variable {net : LinkNet} {s s' : SetUp net}

/-- The connections that were made to a host. -/
private def incoming (s : SetUp net) (g : net.Host) : List (Conn net) :=
  s.made.filter fun c => c.dst = g

/-- The connections to a host that its acceptor has taken, and those that wait. -/
private def Took (n : ℕ) (acc backlog : List (Conn net)) : AcceptorPhase → Prop
  | .unborn => acc = [] ∧ backlog = []
  | .accepting i => acc.length = i
  | .closed => acc.length = n ∧ backlog = []
  | .exited => False

/-- The connections that the acceptor of a host has taken are in the links of their hosts. -/
private def AcceptorRight (s : SetUp net) (g : net.Host) : Prop :=
  ∃ acc, s.incoming g = acc ++ s.backlog g ∧
    Took (net.k g) acc (s.backlog g) (s.acceptor g) ∧ ∀ c ∈ acc, s.fd g (net.k c.src) = some c

private structure Invariant (s : SetUp net) : Prop where
  ordered : ∀ c ∈ s.made, net.k c.src < net.k c.dst
  unique : (s.made.map fun c => (c.src, c.dst)).Nodup
  connected : ∀ h g, net.k h < net.k g →
    (s.connected h (net.k g) = true ↔ ∃ c ∈ s.made, c.src = h ∧ c.dst = g)
  src_fd : ∀ c ∈ s.made, s.fd c.src (net.k c.dst) = some c
  acceptor : ∀ g, s.AcceptorRight g
  fd : ∀ h j c, s.fd h j = some c → c ∈ s.made ∧
    (c.src = h ∧ j = net.k c.dst ∨ c.dst = h ∧ j = net.k c.src)

/-- Nothing changes for an acceptor where its connections and its phase are the same and no link is
overwritten. -/
private theorem AcceptorRight.congr {g : net.Host} (h : s.AcceptorRight g)
    (hincoming : s'.incoming g = s.incoming g) (hbacklog : s'.backlog g = s.backlog g)
    (hacc : s'.acceptor g = s.acceptor g)
    (hfd : ∀ j c, s.fd g j = some c → s'.fd g j = some c) : s'.AcceptorRight g := by
  obtain ⟨acc, hsplit, htook, hstored⟩ := h
  refine ⟨acc, ?_, ?_, fun c hc => hfd _ _ (hstored c hc)⟩
  · rw [hincoming, hbacklog, hsplit]
  · rwa [hbacklog, hacc]

private theorem mem_incoming {g : net.Host} {c : Conn net} :
    c ∈ s.incoming g ↔ c ∈ s.made ∧ c.dst = g := by
  simp [incoming]

private theorem incoming_connect {h g g' : net.Host} {i : ℕ} :
    (s.connect h i g).incoming g' =
      s.incoming g' ++ if g' = g then [⟨s.made.length, h, g⟩] else [] := by
  have hmade : (s.connect h i g).made = s.made ++ [⟨s.made.length, h, g⟩] := rfl
  rw [incoming, hmade, List.filter_append, incoming]
  by_cases hg : g' = g
  · simp [hg]
  · simp [hg, Ne.symm hg]

namespace Invariant

variable (hinv : s.Invariant) (hr : LinkNet.Roles net)
include hinv

/-- Two hosts have at most one connection. -/
private theorem eq_of_ends {c d : Conn net} (hc : c ∈ s.made) (hd : d ∈ s.made)
    (hsrc : c.src = d.src) (hdst : c.dst = d.dst) : c = d :=
  List.inj_on_of_nodup_map hinv.unique hc hd (Prod.ext hsrc hdst)

include hr

private theorem nodup_incoming (g : net.Host) :
    ((s.incoming g).map fun c => net.k c.src).Nodup := by
  have hnodup : (s.incoming g).Nodup := (List.Nodup.of_map _ hinv.unique).filter _
  refine hnodup.map_on fun c hc d hd e => ?_
  obtain ⟨hc, hcg⟩ := mem_incoming.mp hc
  obtain ⟨hd, hdg⟩ := mem_incoming.mp hd
  exact hinv.eq_of_ends hc hd (hr.k_injective e) (hcg.trans hdg.symm)

omit hr in
private theorem incoming_subset (g : net.Host) :
    ((s.incoming g).map fun c => net.k c.src) ⊆ List.range (net.k g) := by
  intro i hi
  obtain ⟨c, hc, rfl⟩ := List.mem_map.mp hi
  obtain ⟨hmade, rfl⟩ := mem_incoming.mp hc
  exact List.mem_range.mpr (hinv.ordered c hmade)

/-- Not more hosts connect to a host than are in front of it. -/
private theorem length_incoming_le (g : net.Host) : (s.incoming g).length ≤ net.k g := by
  have hle := ((hinv.nodup_incoming hr g).subperm (hinv.incoming_subset g)).length_le
  rwa [List.length_map, List.length_range] at hle

/-- The hosts in front of a host have all connected to it if and only if their number tells so. -/
private theorem length_incoming_eq_iff (g : net.Host) :
    (s.incoming g).length = net.k g ↔
      ∀ h, net.k h < net.k g → ∃ c ∈ s.made, c.src = h ∧ c.dst = g := by
  have hsub := (hinv.nodup_incoming hr g).subperm (hinv.incoming_subset g)
  constructor
  · intro hlen h hlt
    have hperm := hsub.perm_of_length_le (by simp [hlen])
    obtain ⟨c, hc, hk⟩ := List.mem_map.mp (hperm.mem_iff.mpr (List.mem_range.mpr hlt))
    obtain ⟨hc, hg⟩ := mem_incoming.mp hc
    exact ⟨c, hc, hr.k_injective hk, hg⟩
  · intro hall
    refine le_antisymm (hinv.length_incoming_le hr g) ?_
    have hsub' : List.range (net.k g) ⊆ (s.incoming g).map fun c => net.k c.src := by
      intro i hi
      have hi := List.mem_range.mp hi
      obtain ⟨h, rfl⟩ := hr.exists_k i (hi.trans (hr.k_lt g))
      obtain ⟨c, hc, rfl, rfl⟩ := hall h hi
      exact List.mem_map.mpr ⟨c, mem_incoming.mpr ⟨hc, rfl⟩, rfl⟩
    have hle := (List.nodup_range.subperm hsub').length_le
    rwa [List.length_map, List.length_range] at hle

/-- A host accepts connections of the hosts in front of it only, each once. -/
private theorem incoming_accepting {g : net.Host} {i : ℕ} (hacc : s.acceptor g = .accepting i) :
    ∃ acc, s.incoming g = acc ++ s.backlog g ∧ acc.length = i ∧
      (∀ c ∈ acc, s.fd g (net.k c.src) = some c) ∧ i + (s.backlog g).length ≤ net.k g := by
  obtain ⟨acc, hsplit, htook, hstored⟩ := hinv.acceptor g
  rw [hacc] at htook
  have hle := hinv.length_incoming_le hr g
  rw [hsplit, List.length_append] at hle
  exact ⟨acc, hsplit, htook, hstored, htook ▸ hle⟩

omit hinv hr in
private theorem at_init : (SetUp.init : SetUp net).Invariant where
  ordered := nofun
  unique := List.nodup_nil
  connected h g _ := by simp [SetUp.init]
  src_fd := nofun
  acceptor g := ⟨[], rfl, ⟨rfl, rfl⟩, nofun⟩
  fd := nofun

omit hr in
private theorem listen_step {g : net.Host} (hacc : s.acceptor g = .unborn) :
    (s.setAcceptor g (.accepting 0)).Invariant := by
  refine ⟨hinv.ordered, hinv.unique, hinv.connected, hinv.src_fd, fun g' => ?_, hinv.fd⟩
  by_cases hg : g' = g
  · subst hg
    obtain ⟨acc, hsplit, htook, hstored⟩ := hinv.acceptor g'
    rw [hacc] at htook
    refine ⟨acc, hsplit, ?_, hstored⟩
    rw [setAcceptor_self, htook.1]
    rfl
  · exact (hinv.acceptor g').congr rfl rfl (setAcceptor_of_ne s hg _) fun _ _ => id

private theorem close_step {g : net.Host} (hacc : s.acceptor g = .accepting (net.k g)) :
    ((s.setBacklog g []).setAcceptor g .closed).Invariant := by
  refine ⟨hinv.ordered, hinv.unique, hinv.connected, hinv.src_fd, fun g' => ?_, hinv.fd⟩
  by_cases hg : g' = g
  · subst hg
    obtain ⟨acc, hsplit, hlen, hstored, hle⟩ := hinv.incoming_accepting hr hacc
    have hnil : s.backlog g' = [] := List.length_eq_zero_iff.mp (by omega)
    rw [hnil] at hsplit
    have hbacklog : ((s.setBacklog g' []).setAcceptor g' .closed).backlog g' = [] :=
      setBacklog_self ..
    refine ⟨acc, ?_, ?_, hstored⟩
    · rw [hbacklog]
      exact hsplit
    · rw [setAcceptor_self, hbacklog]
      exact ⟨hlen, rfl⟩
  · exact (hinv.acceptor g').congr rfl (setBacklog_of_ne s hg _) (setAcceptor_of_ne _ hg _)
      fun _ _ => id

private theorem connect_step {h g : net.Host} {n : ℕ} (hlt : net.k h < net.k g)
    (hnot : s.connected h (net.k g) = false) (hacc : s.acceptor g = .accepting n) :
    (s.connect h (net.k g) g).Invariant := by
  have hnew : ∀ c ∈ s.made, ¬(c.src = h ∧ c.dst = g) := fun c hc hends => by
    rw [(hinv.connected h g hlt).mpr ⟨c, hc, hends⟩] at hnot
    cases hnot
  -- the link of `g` was not used: a connection in it would be one of these two hosts
  have hfree : s.fd h (net.k g) = none := by
    rw [Option.eq_none_iff_forall_not_mem]
    intro c hc
    obtain ⟨hmade, ⟨hsrc, hk⟩ | ⟨hdst, hk⟩⟩ := hinv.fd _ _ _ hc
    · exact hnew c hmade ⟨hsrc, (hr.k_injective hk).symm⟩
    · have hord := hinv.ordered c hmade
      rw [← hk, hdst] at hord
      omega
  have hfd (h' : net.Host) (j : ℕ) (c : Conn net) (hold : s.fd h' j = some c) :
      (s.connect h (net.k g) g).fd h' j = some c := by
    have hsame : (s.connect h (net.k g) g).fd h' j =
        (s.setFd h (net.k g) ⟨s.made.length, h, g⟩).fd h' j := rfl
    rw [hsame, setFd_fd, if_neg, hold]
    rintro ⟨rfl, rfl⟩
    rw [hfree] at hold
    cases hold
  refine ⟨fun c hc => ?_, ?_, fun h' g' hlt' => ?_, fun c hc => ?_, fun g' => ?_,
    fun h' j c hc => ?_⟩
  · rcases List.mem_append.mp hc with hc | hc
    · exact hinv.ordered c hc
    · rw [List.mem_singleton.mp hc]
      exact hlt
  · have hmap : (s.connect h (net.k g) g).made.map (fun c => (c.src, c.dst)) =
        s.made.map (fun c => (c.src, c.dst)) ++ [(h, g)] :=
      List.map_append
    rw [hmap, List.nodup_append]
    refine ⟨hinv.unique, List.nodup_singleton _, fun p hp q hq e => ?_⟩
    obtain ⟨c, hc, rfl⟩ := List.mem_map.mp hp
    rw [List.mem_singleton.mp hq, Prod.mk.injEq] at e
    exact hnew c hc e
  · rw [connect_connected]
    constructor
    · intro hcon
      by_cases hends : h' = h ∧ net.k g' = net.k g
      · exact ⟨_, List.mem_append_right _ (List.mem_singleton_self _), hends.1.symm,
          (hr.k_injective hends.2).symm⟩
      · rw [if_neg hends] at hcon
        obtain ⟨c, hc, hends'⟩ := (hinv.connected h' g' hlt').mp hcon
        exact ⟨c, List.mem_append_left _ hc, hends'⟩
    · rintro ⟨c, hc, rfl, rfl⟩
      rcases List.mem_append.mp hc with hc | hc
      · rw [(hinv.connected _ _ hlt').mpr ⟨c, hc, rfl, rfl⟩, ite_self]
      · rw [List.mem_singleton.mp hc, if_pos ⟨rfl, rfl⟩]
  · rcases List.mem_append.mp hc with hc | hc
    · exact hfd _ _ _ (hinv.src_fd c hc)
    · rw [List.mem_singleton.mp hc]
      exact (setFd_fd s).trans (if_pos ⟨rfl, rfl⟩)
  · by_cases hg : g' = g
    · subst hg
      obtain ⟨acc, hsplit, hlen, hstored, -⟩ := hinv.incoming_accepting hr hacc
      refine ⟨acc, ?_, ?_, fun c hc => hfd _ _ _ (hstored c hc)⟩
      · rw [incoming_connect, if_pos rfl, hsplit, List.append_assoc]
        exact congrArg (acc ++ ·) (setBacklog_self ..).symm
      · exact hacc ▸ hlen
    · refine (hinv.acceptor g').congr ?_ (setBacklog_of_ne _ hg _) rfl fun _ _ => hfd _ _ _
      rw [incoming_connect, if_neg hg, List.append_nil]
  · by_cases hends : h' = h ∧ j = net.k g
    · obtain ⟨rfl, rfl⟩ := hends
      have hcon : (s.connect h' (net.k g) g).fd h' (net.k g) = some ⟨s.made.length, h', g⟩ :=
        (setFd_fd s).trans (if_pos ⟨rfl, rfl⟩)
      rw [hcon, Option.some.injEq] at hc
      subst hc
      exact ⟨List.mem_append_right _ (List.mem_singleton_self _), Or.inl ⟨rfl, rfl⟩⟩
    · have hold : s.fd h' j = some c := by
        rw [← hc]
        exact ((setFd_fd s).trans (if_neg hends)).symm
      obtain ⟨hmade, hends'⟩ := hinv.fd _ _ _ hold
      exact ⟨List.mem_append_left _ hmade, hends'⟩

omit hr in
/-- The connection that an acceptor takes belongs to a host in front of its own. -/
private theorem of_backlog {g : net.Host} {c : Conn net} {rest : List (Conn net)}
    (hbacklog : s.backlog g = c :: rest) :
    c ∈ s.made ∧ c.dst = g ∧ net.k c.src < net.k g := by
  obtain ⟨acc, hsplit, -, -⟩ := hinv.acceptor g
  rw [hbacklog] at hsplit
  obtain ⟨hmade, hdst⟩ := mem_incoming.mp (hsplit ▸ List.mem_append_right _ List.mem_cons_self)
  exact ⟨hmade, hdst, hdst ▸ hinv.ordered c hmade⟩

/-- The acceptor finds the link of the peer. -/
private theorem accept_eq {g : net.Host} {i : ℕ} {c : Conn net} {rest : List (Conn net)}
    (hbacklog : s.backlog g = c :: rest) :
    (s.setBacklog g rest).accept g i c =
      ((s.setBacklog g rest).setFd g (net.k c.src) c).setAcceptor g (.accepting (i + 1)) := by
  have hlt := (hinv.of_backlog hbacklog).2.2
  rw [accept, hr.findIdx_addr hlt, if_neg hlt.ne]

private theorem accept_step {g : net.Host} {i : ℕ} {c : Conn net} {rest : List (Conn net)}
    (hacc : s.acceptor g = .accepting i) (hbacklog : s.backlog g = c :: rest) :
    ((s.setBacklog g rest).accept g i c).Invariant := by
  obtain ⟨acc, hsplit, hlen, hstored, -⟩ := hinv.incoming_accepting hr hacc
  rw [hbacklog] at hsplit
  obtain ⟨hmade, hdst, hord⟩ := hinv.of_backlog hbacklog
  rw [hinv.accept_eq hr hbacklog]
  -- the link of the peer was not used, or holds this connection
  have hfd (h' : net.Host) (j : ℕ) (d : Conn net) (hold : s.fd h' j = some d) :
      ((s.setBacklog g rest).setFd g (net.k c.src) c).fd h' j = some d := by
    rw [setFd_fd]
    split
    next hends =>
      obtain ⟨rfl, rfl⟩ := hends
      obtain ⟨hd, ⟨hsrc, hk⟩ | ⟨hdst', hk⟩⟩ := hinv.fd _ _ _ hold
      · have hord' := hinv.ordered d hd
        rw [hsrc, ← hk] at hord'
        omega
      · rw [hinv.eq_of_ends hmade hd (hr.k_injective hk) (hdst.trans hdst'.symm)]
    next => exact hold
  refine ⟨hinv.ordered, hinv.unique, hinv.connected, fun d hd => hfd _ _ _ (hinv.src_fd d hd),
    fun g' => ?_, fun h' j d hd => ?_⟩
  · by_cases hg : g' = g
    · subst hg
      refine ⟨acc ++ [c], ?_, ?_, fun d hd => ?_⟩
      · rw [List.append_assoc]
        refine hsplit.trans (congrArg (acc ++ ·) (congrArg (c :: ·) ?_))
        exact (setBacklog_self ..).symm
      · rw [setAcceptor_self, Took, List.length_append, hlen]
        rfl
      · rcases List.mem_append.mp hd with hd | hd
        · exact hfd _ _ _ (hstored d hd)
        · rw [List.mem_singleton.mp hd]
          exact (setFd_fd _).trans (if_pos ⟨rfl, rfl⟩)
    · exact (hinv.acceptor g').congr rfl (setBacklog_of_ne s hg _) (setAcceptor_of_ne _ hg _)
        (hfd g')
  · by_cases hends : h' = g ∧ j = net.k c.src
    · have hnew : ((s.setBacklog g rest).setFd g (net.k c.src) c).fd h' j = some c :=
        (setFd_fd _).trans (if_pos hends)
      obtain rfl : c = d := Option.some.inj (hnew.symm.trans hd)
      exact ⟨hmade, Or.inr ⟨hdst.trans hends.1.symm, hends.2⟩⟩
    · exact hinv.fd h' j d (((setFd_fd _).trans (if_neg hends)).symm.trans hd)

/-- Every step keeps the invariant. -/
private theorem step {a : SetUpEvent net} (hstep : SetUpStep net s a s') : s'.Invariant := by
  cases hstep with
  | listen _ hacc => exact hinv.listen_step hacc
  | retry => exact hinv
  | @connect h g i n l hpending hl hacc hlistens =>
    obtain rfl := hr.eq_k_of_listens hl hlistens
    exact hinv.connect_step hr hpending.2.1 hpending.2.2.2 hacc
  | accept hacc _ hbacklog => exact hinv.accept_step hr hacc hbacklog
  | close hacc => exact hinv.close_step hr hacc

/-! ### What the invariant says -/

private theorem safe : s.Safe where
  not_exited g hacc := by
    obtain ⟨acc, -, htook, -⟩ := hinv.acceptor g
    rw [hacc] at htook
    exact htook
  ordered := hinv.ordered
  unique c hc d hd := hinv.eq_of_ends hc hd
  stored h j c hc := by
    obtain ⟨hmade, ⟨hsrc, rfl⟩ | ⟨hdst, rfl⟩⟩ := hinv.fd h j c hc
    · exact ⟨hmade, Or.inl ⟨hsrc, hr.getElem_k _ _⟩⟩
    · exact ⟨hmade, Or.inr ⟨hdst, hr.getElem_k _ _⟩⟩

omit hr in
/-- An acceptor that has ended has stored a connection with each host in front of its own. -/
private theorem closed {g : net.Host} (hacc : s.acceptor g = .closed) :
    (s.incoming g).length = net.k g ∧ ∀ c ∈ s.incoming g, s.fd g (net.k c.src) = some c := by
  obtain ⟨acc, hsplit, htook, hstored⟩ := hinv.acceptor g
  rw [hacc] at htook
  rw [htook.2, List.append_nil] at hsplit
  rw [hsplit]
  exact ⟨htook.1, hstored⟩

private theorem fullMesh (hdone : s.Done) : s.FullMesh := by
  intro h g hlt
  obtain ⟨hlen, hstored⟩ := hinv.closed (hdone g).1
  obtain ⟨c, hc, rfl, rfl⟩ := (hinv.length_incoming_eq_iff hr g).mp hlen h hlt
  exact ⟨c, hc, rfl, rfl, hinv.src_fd c hc, hstored c (mem_incoming.mpr ⟨hc, rfl⟩)⟩

/-- A connector that runs can connect if the acceptor of its host has begun. -/
private theorem exists_connect {h g : net.Host} (hpending : s.Pending h (net.k g))
    (hborn : s.acceptor g ≠ .unborn) :
    ∃ s', SetUpStep net s (.connect h (net.k g)) s' := by
  have hlistens : net.Listens g (net.link g) := hr.listens_link_iff.mpr rfl
  cases hacc : s.acceptor g with
  | unborn => exact absurd hacc hborn
  | accepting n => exact ⟨_, .connect hpending (hr.getElem_k h g) hacc hlistens⟩
  | closed =>
    -- all hosts in front of `g` have connected, so no connector for it runs
    obtain ⟨-, hlt, -, hnot⟩ := hpending
    have hall := (hinv.length_incoming_eq_iff hr g).mp (hinv.closed hacc).1
    rw [(hinv.connected h g hlt).mpr (hall h hlt)] at hnot
    cases hnot
  | exited => exact absurd hacc ((hinv.safe hr).not_exited g)

/-- An acceptor that runs can go on if no connector runs. -/
private theorem exists_accept {g : net.Host} {n : ℕ} (hlength : 2 ≤ net.hosts.length)
    (hacc : s.acceptor g = .accepting n) (hnone : ∀ h i, ¬s.Pending h i) :
    ∃ a s', a.isProgress = true ∧ SetUpStep net s a s' := by
  obtain ⟨acc, hsplit, rfl, -, hle⟩ := hinv.incoming_accepting hr hacc
  rcases hle' : (acc.length).lt_or_ge (net.k g) with hlt | hge
  · have hall : ∀ h, net.k h < net.k g → ∃ c ∈ s.made, c.src = h ∧ c.dst = g := fun h hlt => by
      refine (hinv.connected h g hlt).mp ?_
      by_contra hnot
      exact hnone h (net.k g) ⟨by rw [hr.length_links]; omega, hlt,
        by rw [hr.length_links]; exact hr.k_lt g, by simpa using hnot⟩
    have hlen := (hinv.length_incoming_eq_iff hr g).mpr hall
    rw [hsplit, List.length_append] at hlen
    cases hbacklog : s.backlog g with
    | nil => rw [hbacklog, List.length_nil] at hlen; omega
    | cons c rest => exact ⟨_, _, rfl, .accept hacc hlt hbacklog⟩
  · have heq : acc.length = net.k g := by omega
    exact ⟨_, _, rfl, .close (heq ▸ hacc)⟩

/-- The threads are not stuck. -/
private theorem progress (hlength : 2 ≤ net.hosts.length) :
    s.Done ∨ ∃ a s', a.isProgress = true ∧ SetUpStep net s a s' := by
  by_cases hunborn : ∃ g, s.acceptor g = .unborn
  · obtain ⟨g, hg⟩ := hunborn
    have hlinks : 1 < (net.links g).length := by rw [hr.length_links]; omega
    exact Or.inr ⟨_, _, rfl, .listen hlinks hg⟩
  · rw [not_exists] at hunborn
    by_cases hpending : ∃ h i, s.Pending h i
    · obtain ⟨h, i, hp⟩ := hpending
      obtain ⟨g, rfl⟩ := hr.exists_k i (hr.length_links h ▸ hp.2.2.1)
      obtain ⟨s', hstep⟩ := hinv.exists_connect hr hp (hunborn g)
      exact Or.inr ⟨_, s', rfl, hstep⟩
    · have hnone : ∀ h i, ¬s.Pending h i := fun h i hp => hpending ⟨h, i, hp⟩
      by_cases hclosed : ∀ g, s.acceptor g = .closed
      · exact Or.inl fun h => ⟨hclosed h, hnone h⟩
      · obtain ⟨g, hg⟩ := not_forall.mp hclosed
        cases hacc : s.acceptor g with
        | unborn => exact absurd hacc (hunborn g)
        | accepting n => exact Or.inr (hinv.exists_accept hr hlength hacc hnone)
        | closed => exact absurd hacc hg
        | exited => exact absurd hacc ((hinv.safe hr).not_exited g)

end Invariant

/-! ### The length of a set-up -/

/-- How far an acceptor that waits for `n` connections is. -/
private def rank (n : ℕ) : AcceptorPhase → ℕ
  | .unborn | .exited => 0
  | .accepting i => i + 1
  | .closed => n + 2

/-- What has been done for the connections to a host. -/
private def work (s : SetUp net) (g : net.Host) : ℕ :=
  rank (net.k g) (s.acceptor g) + (s.incoming g).length

private theorem Invariant.work_le (hinv : s.Invariant) (hr : LinkNet.Roles net) (g : net.Host) :
    s.work g ≤ 2 * net.hosts.length := by
  have hlt := hr.k_lt g
  have hle := hinv.length_incoming_le hr g
  have hrank : rank (net.k g) (s.acceptor g) ≤ net.k g + 2 := by
    cases hacc : s.acceptor g with
    | unborn | exited => exact Nat.zero_le _
    | accepting i =>
      obtain ⟨-, -, -, -, hi⟩ := hinv.incoming_accepting hr hacc
      rw [rank]
      omega
    | closed => exact le_rfl
  rw [work]
  omega

/-- A step forward is one piece of work for one host. -/
private theorem Invariant.work_step (hinv : s.Invariant) (hr : LinkNet.Roles net)
    {a : SetUpEvent net} (hstep : SetUpStep net s a s') (ha : a.isProgress = true) :
    ∃ g, s'.work g = s.work g + 1 ∧ ∀ g', g' ≠ g → s'.work g' = s.work g' := by
  have hphase {t : SetUp net} {g : net.Host} {p : AcceptorPhase} (hmade : t.made = s.made)
      (hrank : rank (net.k g) p = rank (net.k g) (s.acceptor g) + 1)
      (hacc : t.acceptor = s.acceptor) :
      (t.setAcceptor g p).work g = s.work g + 1 ∧
        ∀ g', g' ≠ g → (t.setAcceptor g p).work g' = s.work g' := by
    have hincoming (g' : net.Host) : (t.setAcceptor g p).incoming g' = s.incoming g' :=
      congrArg _ hmade
    refine ⟨?_, fun g' hg => ?_⟩
    · rw [work, setAcceptor_self, hincoming, hrank, work]
      omega
    · rw [work, setAcceptor_of_ne t hg, hincoming, hacc, work]
  cases hstep with
  | @listen g _ hacc => exact ⟨g, hphase rfl (by rw [hacc]; rfl) rfl⟩
  | retry => cases ha
  | @connect h g i n l hpending hl hacc hlistens =>
    refine ⟨g, ?_, fun g' hg => ?_⟩
    · rw [work, incoming_connect, if_pos rfl, List.length_append, List.length_singleton, work]
      exact (Nat.add_assoc ..).symm
    · rw [work, incoming_connect, if_neg hg, List.append_nil, work]
      rfl
  | @accept g i c rest hacc hi hbacklog =>
    rw [hinv.accept_eq hr hbacklog]
    exact ⟨g, hphase rfl (by rw [hacc]; rfl) rfl⟩
  | @close g hacc => exact ⟨g, hphase rfl (by rw [hacc]; rfl) rfl⟩

private theorem sum_work (hr : LinkNet.Roles net) {as : List (SetUpEvent net)}
    (hrun : Steps (SetUpStep net) .init as s) :
    s.Invariant ∧ as.countP SetUpEvent.isProgress = ∑ g, s.work g := by
  induction hrun with
  | nil => exact ⟨Invariant.at_init, (Finset.sum_eq_zero fun g _ => rfl).symm⟩
  | @snoc s s' as a _ hstep ih =>
    obtain ⟨hinv, hcount⟩ := ih
    refine ⟨hinv.step hr hstep, ?_⟩
    rw [List.countP_append, List.countP_singleton, hcount]
    cases ha : a.isProgress with
    | false =>
      cases hstep with
      | retry => rfl
      | listen | connect | accept | close => cases ha
    | true =>
      obtain ⟨g, hg, hothers⟩ := hinv.work_step hr hstep ha
      rw [← Finset.add_sum_erase _ s.work (Finset.mem_univ g),
        ← Finset.add_sum_erase _ s'.work (Finset.mem_univ g), hg,
        Finset.sum_congr rfl fun g' hg' => hothers g' (Finset.ne_of_mem_erase hg')]
      exact Nat.add_right_comm ..

end SetUp

/-! ### The set-up -/

/-- **The set-up of the links.** Hosts with names and addresses of their own, at least two, whose
files list all of them and whose tables have room for them, build a full mesh. -/
theorem buildsFullMesh_of_listed {net : LinkNet} (hnet : net.Listed) : BuildsFullMesh net := by
  have hr := hnet.roles
  refine ⟨fun h => hr.getElem_k h h, hr.k_injective, hr.ncard_targets, fun as s hrun => ?_,
    fun as s hrun => ?_, fun as s hrun => ?_, fun as s hrun => ?_⟩
  · exact (SetUp.sum_work hr hrun).1.safe hr
  · exact (SetUp.sum_work hr hrun).1.progress hr hnet.two_le
  · obtain ⟨hinv, hcount⟩ := SetUp.sum_work hr hrun
    rw [hcount]
    calc ∑ g, s.work g ≤ ∑ _g : net.Host, 2 * net.hosts.length :=
          Finset.sum_le_sum fun g _ => hinv.work_le hr g
      _ = 2 * net.hosts.length * net.hosts.length := by
          rw [Finset.sum_const, Finset.card_univ, Fintype.card_fin, smul_eq_mul, Nat.mul_comm]
  · exact (SetUp.sum_work hr hrun).1.fullMesh hr

/-- An example host. -/
def exampleLink (i : ℕ) : Link :=
  ⟨['h', Char.ofNat ('a'.toNat + i)], UInt32.ofNat (10 + 2 ^ 24 * i), htons 30001⟩

/-- The line for an example host. -/
def exampleLine (i : ℕ) : Text :=
  (exampleLink i).hostname ++ " 10.0.0.".toList ++ Nat.toDigits 10 i ++ "\t30001".toList

/-- Example hosts whose files list them in the given orders. -/
def exampleNet (n linksMax : ℕ) (order : ℕ → List ℕ) : LinkNet where
  hosts := (List.range n).map exampleLink
  cfg h := ['\n'].intercalate ((order h).map exampleLine)
  linksMax _ := linksMax
  old _ _ := 0

private theorem exampleLine_lists :
    ∀ i < 11, LineLists (exampleLine i) (exampleLink i) ∧ (exampleLine i).length < 128 := by
  intro i hi
  have hfields : ∀ i < 11, fields (exampleLine i) = [(exampleLink i).hostname,
      "10.0.0.".toList ++ Nat.toDigits 10 i, "30001".toList] := by decide +kernel
  have haddr : ∀ i < 11, ("10.0.0.".toList ++ Nat.toDigits 10 i).length < 32 ∧
      inetPton ("10.0.0.".toList ++ Nat.toDigits 10 i) = some (exampleLink i).hostaddr ∧
      (exampleLine i).length < 128 := by decide +kernel
  have hport : htons (UInt16.ofInt (atoi "30001".toList)) = htons 30001 := by decide +kernel
  obtain ⟨hlen, hpton, hline⟩ := haddr i hi
  exact ⟨⟨_, _, _, hfields i hi, Nat.lt_of_sub_eq_succ rfl, hlen, by decide, hpton, hport⟩, hline⟩

private theorem exampleLines_list (is : List ℕ) (his : ∀ i ∈ is, i < 11) :
    LinesList (is.map exampleLine) (is.map exampleLink) := by
  induction is with
  | nil => exact .nil
  | cons i is ih =>
    obtain ⟨hline, hlen⟩ := exampleLine_lists i (his i List.mem_cons_self)
    exact .host hlen hline (ih fun j hj => his j (List.mem_cons_of_mem i hj))

private theorem exampleNet_nodup {β : Type} (f : Link → β) {n linksMax : ℕ}
    {order : ℕ → List ℕ} (hle : n ≤ 11)
    (hf : ∀ i < 11, ∀ j < 11, f (exampleLink i) = f (exampleLink j) → i = j) :
    ((exampleNet n linksMax order).hosts.map f).Nodup := by
  rw [exampleNet, List.map_map]
  refine List.nodup_range.map_on fun i hi j hj e => ?_
  exact hf i ((List.mem_range.mp hi).trans_le hle) j ((List.mem_range.mp hj).trans_le hle) e

private theorem exampleNet_lists {n linksMax : ℕ} {order : ℕ → List ℕ} (hn : 0 < n)
    (hle : n ≤ 11) (horder : ∀ h < n, (order h).Perm (List.range n))
    (h : (exampleNet n linksMax order).Host) :
    ListsHosts ((exampleNet n linksMax order).cfg h) (exampleNet n linksMax order).hosts := by
  have hlength : (exampleNet n linksMax order).hosts.length = n := by simp [exampleNet]
  have hperm := horder h (h.isLt.trans_eq hlength)
  have hlt : ∀ i ∈ order h, i < 11 := fun i hi =>
    (List.mem_range.mp (hperm.mem_iff.mp hi)).trans_le hle
  have hline : ∀ i < 11, '\n' ∉ exampleLine i := by decide +kernel
  refine ⟨(order h).map exampleLink, ?_, hperm.map exampleLink⟩
  change LinesList ((['\n'].intercalate ((order h).map exampleLine)).splitOn '\n') _
  rw [List.splitOn_intercalate]
  · exact exampleLines_list (order h) hlt
  · intro line hmem
    obtain ⟨i, hi, rfl⟩ := List.mem_map.mp hmem
    exact hline i (hlt i hi)
  · intro hnil
    have hlen := hperm.length_eq
    rw [List.map_eq_nil_iff.mp hnil, List.length_range] at hlen
    exact hn.ne hlen

private theorem exampleNet_listed {n linksMax : ℕ} {order : ℕ → List ℕ} (hn : 2 ≤ n)
    (hle : n ≤ 11) (hmax : n ≤ linksMax) (horder : ∀ h < n, (order h).Perm (List.range n)) :
    (exampleNet n linksMax order).Listed where
  two_le := by simpa [exampleNet] using hn
  names := exampleNet_nodup _ hle (by decide +kernel)
  addrs := exampleNet_nodup _ hle (by decide +kernel)
  lists := exampleNet_lists (by omega) hle horder
  linksMax _ := by simpa [exampleNet] using hmax

/-- The order in which the file of an example host has the lines: its own line is the first. -/
def ownFirst (n h : ℕ) : List ℕ := (List.range n).rotate h

/-- Three hosts, with the lines in three orders. -/
theorem buildsFullMesh_of_listed_three : BuildsFullMesh (exampleNet 3 10 (ownFirst 3)) :=
  buildsFullMesh_of_listed
    (exampleNet_listed (by decide) (by decide) (by decide) fun _ _ => List.rotate_perm _ _)

/-- Eleven hosts, with the default of ten links: no host has a table. -/
theorem buildsFullMesh_false_of_eleven :
    (∀ h, ListsHosts ((exampleNet 11 10 (ownFirst 11)).cfg h) (exampleNet 11 10 (ownFirst 11)).hosts) ∧
      ((exampleNet 11 10 (ownFirst 11)).hosts.map Link.hostname).Nodup ∧
      ((exampleNet 11 10 (ownFirst 11)).hosts.map Link.hostaddr).Nodup ∧
      ¬BuildsFullMesh (exampleNet 11 10 (ownFirst 11)) := by
  refine ⟨exampleNet_lists (by decide) (by decide) fun _ _ => List.rotate_perm _ _,
    exampleNet_nodup _ le_rfl (by decide +kernel), exampleNet_nodup _ le_rfl (by decide +kernel),
    fun hmesh => ?_⟩
  have hown := hmesh.own ⟨0, by decide⟩
  have hlinks : (exampleNet 11 10 (ownFirst 11)).links ⟨0, by decide⟩ = [] := by decide +kernel
  rw [hlinks] at hown
  cases hown

end Nynn
