import Nynn.Daemon.Network

/-!
# Messages from end to end

A message that `infuse` was called with on one host reaches at most one queue of a hose, on one
host, and a call of `effuse` that gets it returns its body. A message is in the queue of the link
where its host is listed, or in the queue of its message id; on the other side of a link it has a
segment of its own, with the same bytes.

Source: as for `Nynn.Daemon.Node`.

## Main definitions

* `Nynn.Net.Origin`: the segment of `infuse` that a message comes from.
* `Nynn.Net.Gives`: what `infuse` was called with for a message.

## Main results

* `Nynn.links_in_order`: a link carries the messages in order, whole and once.
* `Nynn.hoses_in_order`: a hose gives its messages in order, with their bodies.
* `Nynn.origin_unique`: a message reaches at most one queue of a hose, once.
* `Nynn.effuse_returns`: a call of `effuse` that has got a message can return it.
-/

namespace Nynn

open Custody Transition

namespace Net

variable {H C K R W : Type} (net : Network H) (s : Net H C K R W)

/-- The message with the segment `x.2` of the host `x.1` comes from the call of `infuse` for the
segment `y.2` of the host `y.1`. -/
inductive Origin : H × ℕ → H × ℕ → Prop
  | infused {h : H} {i : ℕ} {m : Message} (hm : (s.node h).history.infused i = some m) :
      Origin (h, i) (h, i)
  /-- It is the message at the position `n` of a link. -/
  | taken {h : H} {l n i k : ℕ} (hi : ((s.node h).history.taken l)[n]? = some i)
      (hk : ((s.node (net.peer (h, l)).1).history.pushed (net.peer (h, l)).2)[n]? = some k) :
      Origin (h, i) ((net.peer (h, l)).1, k)

/-- The message comes from a call of `infuse` with `m`. -/
def Gives (x : H × ℕ) (m : Message) : Prop :=
  ∃ y, s.Origin net x y ∧ (s.node y.1).history.infused y.2 = some m

variable {net} {s} {x y : H × ℕ} {m : Message}

/-- The messages of a link have the same bytes at both ends. -/
theorem Invariant.contents_taken (h : s.Invariant net) {a : H} {l n i k : ℕ}
    (hi : ((s.node a).history.taken l)[n]? = some i)
    (hk : ((s.node (net.peer (a, l)).1).history.pushed (net.peer (a, l)).2)[n]? = some k) :
    (s.node a).shm.contents i = (s.node (net.peer (a, l)).1).shm.contents k := by
  have hcarries := (h.carries (net.peer (a, l))).taken_isPrefix
  rw [net.peer_peer] at hcarries
  obtain ⟨rest, hrest⟩ := hcarries
  have hin : (s.incoming (a, l)).taken[n]? = some ((s.node a).shm.contents i) := by
    rw [incoming, Node.incoming, List.getElem?_map, hi]
    rfl
  have hout : (s.outgoing (net.peer (a, l))).pushed[n]? =
      some ((s.node (net.peer (a, l)).1).shm.contents k) := by
    rw [outgoing, Node.outgoing, List.getElem?_map, hk]
    rfl
  rw [← hrest, List.getElem?_append_left (List.getElem?_eq_some_iff.mp hin).1, hin] at hout
  exact Option.some.inj hout

theorem Invariant.contents_origin (h : s.Invariant net) (hxy : s.Origin net x y) :
    (s.node x.1).shm.contents x.2 = (s.node y.1).shm.contents y.2 := by
  cases hxy with
  | infused => rfl
  | taken hi hk => exact h.contents_taken hi hk

/-- The bytes of a message are those that `infuse` has written. -/
theorem Invariant.contents_gives (h : s.Invariant net) (hm : s.Gives net x m) :
    64 + m.msgbdy.length < 2 ^ 64 ∧ (s.node x.1).shm.contents x.2 = m.bytes := by
  obtain ⟨y, hxy, hm⟩ := hm
  obtain ⟨-, hlt, hcontents⟩ := (h.node y.1).kept.infused y.2 m hm
  exact ⟨hlt, (h.contents_origin hxy).trans hcontents⟩

/-- Every message comes from a call of `infuse`. -/
theorem Invariant.exists_gives (h : s.Invariant net) {a : H} {i : ℕ}
    (hi : i < (s.node a).shm.made) : ∃ m, s.Gives net (a, i) m := by
  rcases (h.node a).kept.origin i hi with ho | ⟨l, hl⟩
  · obtain ⟨m, hm⟩ := Option.isSome_iff_exists.mp ho
    exact ⟨m, (a, i), .infused hm, hm⟩
  · obtain ⟨n, hn, hget⟩ := List.getElem_of_mem hl
    have htaken : ((s.node a).history.taken l)[n]? = some i := by
      rw [List.getElem?_eq_getElem hn, hget]
    have hlen := (h.carries (net.peer (a, l))).taken_isPrefix.length_le
    rw [net.peer_peer] at hlen
    simp only [incoming, outgoing, Node.incoming, Node.outgoing, List.length_map] at hlen
    have hpushed := List.getElem?_eq_getElem (hn.trans_le hlen)
    have hinfused := ((h.node _).kept.pushed _).2 _ (List.mem_of_getElem? hpushed)
    obtain ⟨m, hm⟩ := Option.isSome_iff_exists.mp hinfused.2
    exact ⟨m, _, .taken htaken hpushed, hm⟩

/-- A message is a client's own, or it is at one position of both ends of a link. -/
theorem Origin.eq_or (h : s.Origin net x y) : x = y ∨ ∃ l j n : ℕ,
    net.peer (x.1, l) = (y.1, j) ∧ ((s.node x.1).history.taken l)[n]? = some x.2 ∧
      ((s.node y.1).history.pushed j)[n]? = some y.2 := by
  cases h with
  | infused => exact Or.inl rfl
  | taken hi hk => exact Or.inr ⟨_, _, _, rfl, hi, hk⟩

/-- A message in the queue of a hose was not pushed on the queue of a link, and the messages of the
links are different ones. -/
theorem Invariant.origin_inj (h : s.Invariant net) {z : H × ℕ} {q q' : ℕ}
    (hx : x.2 ∈ (s.node x.1).history.reached q) (hy : y.2 ∈ (s.node y.1).history.reached q')
    (hxz : s.Origin net x z) (hyz : s.Origin net y z) : x = y := by
  have hpushed {j n : ℕ} (hj : ((s.node z.1).history.pushed j)[n]? = some z.2) :=
    (h.node z.1).kept.once z.2 j (List.mem_of_getElem? hj)
  rcases hxz.eq_or with rfl | ⟨l, j, n, hpeer, htaken, hj⟩ <;>
    rcases hyz.eq_or with rfl | ⟨l', j', n', hpeer', htaken', hj'⟩
  · rfl
  · exact absurd hx ((hpushed hj').2 q)
  · exact absurd hy ((hpushed hj).2 q')
  · obtain rfl := (hpushed hj).1 j' (List.mem_of_getElem? hj')
    have hlink : (x.1, l) = (y.1, l') := by
      rw [← net.peer_peer (x.1, l), ← net.peer_peer (y.1, l'), hpeer, hpeer']
    obtain ⟨hhost, rfl⟩ := Prod.mk.inj hlink
    have hn : n = n' := by
      obtain ⟨hlt, hget⟩ := List.getElem?_eq_some_iff.mp hj
      obtain ⟨hlt', hget'⟩ := List.getElem?_eq_some_iff.mp hj'
      exact ((h.node z.1).kept.pushed j').1.getElem_inj_iff.mp (hget.trans hget'.symm)
    subst hn
    rw [hhost, htaken'] at htaken
    exact Prod.ext hhost (Option.some.inj htaken).symm

end Net

/-! ### Calls of `effuse` -/

/-- The step is one of a call of `effuse`. -/
def NodeEvent.isEffuse {C K R W : Type} : NodeEvent C K R W → Bool
  | effuse _ _ | pop _ | reply _ | receive _ _ | shmat _ | finish _ => true
  | _ => false

theorem NodeEvent.isLocal_of_isEffuse {C K R W : Type} {a : NodeEvent C K R W}
    (h : a.isEffuse = true) : a.isLocal = true := by
  cases a <;> simp_all [isEffuse, isLocal]

namespace Node

variable {C K R W : Type} [DecidableEq C] [DecidableEq K] [DecidableEq R] [DecidableEq W]
  {config : DaemonConfig} {shmmax : ℕ} {s : Node C K R W} {m : Message} {k : K} {c : C} {q : ℕ}
  {t : NynnToken} {ts : List NynnToken}

/-- The steps `as` lead to a call of `effuse` that returns the message `m` of the segment `i`. -/
def Returns (config : DaemonConfig) (shmmax : ℕ) (s : Node C K R W) (as : List (NodeEvent C K R W))
    (i : ℕ) (m : Message) : Prop :=
  ∃ s', Steps (NodeStep config shmmax) s as s' ∧
    s'.history.effused i = some (.returned m.msgbdy.length m.msgbdy)

theorem Returns.cons {s' : Node C K R W} {a : NodeEvent C K R W} {as : List (NodeEvent C K R W)}
    {i : ℕ} (hstep : NodeStep config shmmax s a s') (h : s'.Returns config shmmax as i m) :
    s.Returns config shmmax (a :: as) i m := by
  obtain ⟨s'', hsteps, heffused⟩ := h
  exact ⟨s'', .cons hstep hsteps, heffused⟩

variable (hlt : 64 + m.msgbdy.length < 2 ^ 64) (hm : s.shm.contents t.shmid = m.bytes)
include hlt hm

theorem returns_of_reading (hp : s.tokens (.inl (.reading k)) = [t]) :
    s.Returns config shmmax [.finish k] t.shmid m :=
  ⟨_, .single (.finish hp (fun _ => hm.symm) (Message.effuseCopy_bytes hlt)),
    Function.update_self ..⟩

theorem returns_of_received (h : s.Invariant) (hp : s.tokens (.inl (.received k)) = [t]) :
    s.Returns config shmmax [.shmat k, .finish k] t.shmid m := by
  have hnil : s.tokens (.inl (.reading k)) = [] := by
    have hlen := h.clients.received k
    rw [hp, List.length_singleton] at hlen
    exact List.eq_nil_of_length_eq_zero (by omega)
  refine .cons (.shmat hp (h.kept.exists_shm hp rfl)) (returns_of_reading hlt hm ?_)
  simp [Holdings.move_target, hnil]

theorem returns_of_rsocket (h : s.Invariant) (hlock : s.tapLock c = some k)
    (hp : s.tokens (.inl (.rsocket c)) = [t]) :
    s.Returns config shmmax [.receive k c, .shmat k, .finish k] t.shmid m := by
  have hstep : NodeStep config shmmax s (.receive k c) _ := .receive hlock hp
  refine .cons hstep (returns_of_received hlt hm (h.step hstep) ?_)
  simp [Holdings.move_target, setTap, (h.clients.waiting k c hlock).1]

theorem returns_of_popped (h : s.Invariant) (hlock : s.tapLock c = some k)
    (hp : s.tokens (.inl (.popped c)) = [t]) :
    s.Returns config shmmax [.reply c, .receive k c, .shmat k, .finish k] t.shmid m := by
  have hnil : s.tokens (.inl (.rsocket c)) = [] := by
    have hlen := h.taps c
    rw [hp, hlock] at hlen
    simp only [List.length_singleton, Option.isSome_some, Bool.toNat_true] at hlen
    exact List.eq_nil_of_length_eq_zero (by omega)
  have hstep : NodeStep config shmmax s (.reply c) _ := .reply hp
  refine .cons hstep (returns_of_rsocket hlt hm (h.step hstep) hlock ?_)
  simp [Holdings.move_target, hnil]

/-- A call of `effuse` gets the first message of the hose. -/
theorem returns_of_queue (h : s.Invariant) {msgid : List UInt8}
    (hserving : s.rresponder c = .serving msgid q) (hidle : s.Idle k) (hlock : s.tapLock c = none)
    (hq : s.tokens (.inr q) = t :: ts) :
    s.Returns config shmmax
      [.effuse k c, .pop c, .reply c, .receive k c, .shmat k, .finish k] t.shmid m := by
  have hnil : s.tokens (.inl (.popped c)) = [] := by
    have hlen := h.taps c
    rw [hlock] at hlen
    simp only [Option.isSome_none, Bool.toNat_false] at hlen
    exact List.eq_nil_of_length_eq_zero (by omega)
  have heffuse : NodeStep config shmmax s (.effuse k c) _ := .effuse hidle hlock
  have hpop : NodeStep config shmmax (s.setTap c (some k) true) (.pop c) _ :=
    .pop hserving (Function.update_self ..) hnil hq
  refine .cons heffuse (.cons hpop (returns_of_popped (k := k) hlt hm
    ((h.step heffuse).step hpop) ?_ ?_))
  · simp [setTap]
  · simp [Holdings.move_target, setTap, hnil]

omit hm in
/-- The call of `effuse` that has got the message can return it. -/
theorem returns_of_stage (h : s.Invariant) {i : ℕ} (hm : s.shm.contents i = m.bytes)
    {p : TokenPlace C K} (hstage : p.stage = 3) (hp : At NynnToken.shmid s.tokens p i) :
    ∃ as, (∀ a ∈ as, a.isEffuse = true) ∧ s.Returns config shmmax as i m := by
  have hone (hlen : (s.tokens p).length ≤ 1) : ∃ t, s.tokens p = [t] ∧ t.shmid = i := by
    obtain ⟨t, ht, hti⟩ := List.mem_map.mp hp
    have hlen' : (s.tokens p).length = 1 :=
      le_antisymm hlen (List.length_pos_iff.mpr (List.ne_nil_of_mem ht))
    obtain ⟨t', ht'⟩ := List.length_eq_one_iff.mp hlen'
    rw [ht', List.mem_singleton] at ht
    exact ⟨t', ht', ht ▸ hti⟩
  have hpos : 0 < (s.tokens p).length := by
    rw [← List.length_map (f := NynnToken.shmid)]
    exact List.length_pos_of_mem hp
  have htap (c : C) (hle : 0 < (s.tokens (.inl (.popped c))).length +
      (s.tokens (.inl (.rsocket c))).length) : ∃ k, s.tapLock c = some k := by
    have hlen := h.taps c
    cases hlock : s.tapLock c with
    | none =>
      rw [hlock] at hlen
      simp only [Option.isSome_none, Bool.toNat_false] at hlen
      omega
    | some k => exact ⟨k, rfl⟩
  have hlen (c : C) : (s.tokens (.inl (.popped c))).length +
      (s.tokens (.inl (.rsocket c))).length ≤ 1 := by
    have hsum := h.taps c
    have hle := Bool.toNat_le (s.tapLock c).isSome
    omega
  cases p with
  | inr q => cases hstage
  | inl v =>
    cases v with
    | popped c =>
      obtain ⟨t, ht, rfl⟩ := hone ((Nat.le_add_right ..).trans (hlen c))
      obtain ⟨k, hlock⟩ := htap c (by omega)
      exact ⟨_, by simp [NodeEvent.isEffuse], returns_of_popped hlt hm h hlock ht⟩
    | rsocket c =>
      obtain ⟨t, ht, rfl⟩ := hone ((Nat.le_add_left ..).trans (hlen c))
      obtain ⟨k, hlock⟩ := htap c (by omega)
      exact ⟨_, by simp [NodeEvent.isEffuse], returns_of_rsocket hlt hm h hlock ht⟩
    | received k =>
      obtain ⟨t, ht, rfl⟩ := hone ((Nat.le_add_right ..).trans (h.clients.received k))
      exact ⟨_, by simp [NodeEvent.isEffuse], returns_of_received hlt hm h ht⟩
    | reading k =>
      obtain ⟨t, ht, rfl⟩ := hone ((Nat.le_add_left ..).trans (h.clients.received k))
      exact ⟨_, by simp [NodeEvent.isEffuse], returns_of_reading hlt hm ht⟩
    | _ => cases hstage

end Node

/-! ### The runs -/

section Runs

variable {H C K R W : Type} [DecidableEq H] [DecidableEq C] [DecidableEq K] [DecidableEq R]
  [DecidableEq W] {net : Network H} {s : Net H C K R W} {as : List (H × NodeEvent C K R W)}

/-- Steps of one host that neither send nor receive are steps of the hosts. -/
theorem Net.steps_onHost {h : H} {bs : List (NodeEvent C K R W)} {n : Node C K R W}
    (hsteps : Steps (NodeStep (net.config h) (net.shmmax h)) (s.node h) bs n)
    (hlocal : ∀ b ∈ bs, b.isLocal = true) :
    ∃ s', Steps (NetStep net) s (bs.map (h, ·)) s' ∧ s'.node h = n := by
  generalize hn : s.node h = n₀ at hsteps
  induction hsteps with
  | nil => exact ⟨s, .nil, hn⟩
  | snoc _ hb ih =>
    rw [List.forall_mem_append] at hlocal
    obtain ⟨s', hsteps', rfl⟩ := ih hlocal.1
    refine ⟨s'.setNode h _, ?_, Function.update_self ..⟩
    rw [List.map_append, List.map_singleton]
    exact hsteps'.snoc (.onHost (hlocal.2 _ (List.mem_singleton_self _)) hb)

theorem Net.invariant_of_run (hrun : Steps (NetStep net) .init as s) : s.Invariant net :=
  hrun.invariant (fun _ _ _ h hstep => h.step hstep) Net.invariant_init

/-- **Links.** In every run, the messages that a `reader` has taken off a link are the first ones
that were pushed on the queue of the link at its other end, in this order, each once and with the
bytes that `infuse` has written. -/
theorem links_in_order (hrun : Steps (NetStep net) .init as s) (e : H × ℕ) :
    (s.incoming (net.peer e)).taken <+: (s.outgoing e).pushed ∧
      ((s.node e.1).history.pushed e.2).Nodup ∧ ∀ i ∈ (s.node e.1).history.pushed e.2, ∃ m,
        (s.node e.1).history.infused i = some m ∧ (s.node e.1).shm.contents i = m.bytes := by
  have hinv := Net.invariant_of_run hrun
  refine ⟨(hinv.carries e).taken_isPrefix, ((hinv.node e.1).kept.pushed e.2).1, fun i hi => ?_⟩
  obtain ⟨m, hm⟩ :=
    Option.isSome_iff_exists.mp (((hinv.node e.1).kept.pushed e.2).2 i hi).2
  exact ⟨m, hm, ((hinv.node e.1).kept.infused i m hm).2.2⟩

/-- Two hosts, with a link between the second link of one and the first link of the other. -/
def Network.small : Network Bool where
  config h := ⟨if h then 2 else 1, [1, 2], 1⟩
  shmmax _ := 100
  peer
    | (false, 1) => (true, 0)
    | (true, 0) => (false, 1)
    | e => e
  peer_peer := by rintro ⟨_ | _, _ | _ | n⟩ <;> rfl

def Message.small : Message where
  host := [50]
  msgid := [109]
  msgbdy := [7]
  host_lt := by decide
  msgid_lt := by decide
  host_ne_zero := by decide
  msgid_ne_zero := by decide

/-- A client registers on one host, and a message of the other host reaches its hose. -/
def arrival : List (Bool × NodeEvent Unit Unit Unit Unit) :=
  [(true, .register () [109]), (true, .add ()), (true, .serve ()), (false, .infuse () .small 2),
    (false, .shmdt ()), (false, .send () ()), (false, .requireRemote ()), (false, .route ()),
    (false, .pollOut 1), (false, .wtask ()), (false, .trylock ()), (false, .write ()),
    (false, .delayclean ()), (false, .transmit () 1 Message.small.bytes), (false, .unlock ()),
    (true, .pollIn 0), (true, .rtask ()), (true, .lock ()), (true, .recv () 0 Message.small.bytes),
    (true, .turn () fun _ => 0), (true, .get (.inr 0)), (true, .release (.inr 0)),
    (true, .push (.inr 0))]

/-- Where the message is after `arrival`. -/
structure Arrived (s : Net Bool Unit Unit Unit Unit) : Prop where
  run : Steps (NetStep Network.small) .init arrival s
  infused : (s.node false).history.infused 0 = some .small
  pushed : (s.node false).history.pushed 1 = [0]
  taken : (s.node true).history.taken 0 = [0]
  reached : (s.node true).history.reached 0 = [0]
  queue : (s.node true).tokens (.inr 0) = [⟨0, 65, 0⟩]
  popped : (s.node true).tokens (.inl (.popped ())) = []
  serving : (s.node true).rresponder () = .serving [109] 0
  tapLock : (s.node true).tapLock () = none
  idle : (s.node true).Idle ()

theorem exists_arrived : ∃ s, Arrived s := by
  have hidle {s : Node Unit Unit Unit Unit} (h : s.tapLock () = none) (c : Unit) :
      s.tapLock c ≠ some () := by
    rw [h]
    simp
  refine ⟨_, .cons (.onHost rfl (.register rfl (by decide)))
    (.cons (.onHost rfl (.add rfl))
    (.cons (.onHost rfl (.serve (q := 0) rfl))
    (.cons (.onHost rfl (.infuse ⟨hidle rfl, rfl, rfl, rfl, rfl⟩ (by decide) rfl))
    (.cons (.onHost rfl (.shmdt rfl))
    (.cons (.onHost rfl (.send rfl))
    (.cons (.onHost rfl (.requireRemote ⟨rfl, rfl, rfl, fun _ _ => rfl⟩ rfl rfl))
    (.cons (.onHost rfl (.route rfl (by decide)))
    (.cons (.onHost rfl (.pollOut (by decide)))
    (.cons (.onHost rfl (.wtask rfl rfl))
    (.cons (.onHost rfl (.trylock rfl rfl))
    (.cons (.onHost rfl (.write rfl rfl))
    (.cons (.onHost rfl (.delayclean rfl rfl))
    (.cons (.transmit
        (.transmit rfl (Or.inl rfl) (fun _ => rfl) (by decide) (List.prefix_append _ [])))
    (.cons (.onHost rfl (.unlock rfl (by decide)))
    (.cons (.onHost rfl .pollIn)
    (.cons (.onHost rfl (.rtask rfl rfl))
    (.cons (.onHost rfl (.lock (i := 0) rfl rfl))
    (.cons (.recv (show _ = Message.small.bytes ++ [] from rfl)
        (.recv rfl (by decide) (by decide)))
    (.cons (.onHost rfl (.turnHanded (i := 0) (g := fun _ => true) rfl rfl rfl))
    (.cons (.onHost rfl (.get rfl fun _ => rfl))
    (.cons (.onHost rfl (.release rfl))
    (.cons (.onHost rfl (.push (q := 0) rfl rfl))
    .nil)))))))))))))))))))))), rfl, rfl, rfl, rfl, rfl, rfl, rfl, rfl,
    ⟨hidle rfl, rfl, rfl, rfl, rfl⟩⟩

theorem links_in_order_small : ∃ s : Net Bool Unit Unit Unit Unit,
    (s.node false).history.pushed 1 = [0] ∧
      (s.incoming (true, 0)).taken <+: (s.outgoing (false, 1)).pushed := by
  obtain ⟨s, hs⟩ := exists_arrived
  exact ⟨s, hs.pushed, (links_in_order hs.run (false, 1)).1⟩

/-- **Hoses.** In every run, the messages in the queue of a hose have its message id, each is there
once, and they are popped in order. What a call of `effuse` returns for one of them is the body that
`infuse` was called with, and no call fails. -/
theorem hoses_in_order (hrun : Steps (NetStep net) .init as s) (h : H) (q : ℕ) :
    ((s.node h).history.reached q).Nodup ∧
      (s.node h).history.popped q <+: (s.node h).history.reached q ∧
        ∀ i ∈ (s.node h).history.reached q, ∃ m, s.Gives net (h, i) m ∧
          (s.node h).hosemap m.msgid = some q ∧ ∀ r, (s.node h).history.effused i = some r →
            r = .returned m.msgbdy.length m.msgbdy := by
  have hinv := Net.invariant_of_run hrun
  have hkept := (hinv.node h).kept
  refine ⟨(hkept.reached q).1, ⟨_, ((hinv.node h).queues q).symm⟩, fun i hi => ?_⟩
  obtain ⟨hmade, hhose⟩ := (hkept.reached q).2 i hi
  obtain ⟨m, hm⟩ := hinv.exists_gives hmade
  obtain ⟨hlt, hcontents⟩ := hinv.contents_gives hm
  refine ⟨m, hm, ?_, fun r hr => ?_⟩
  · rwa [hcontents, Message.msghdrMsgid_bytes] at hhose
  · have hcopy := (hkept.effused i r hr).2
    rw [hcontents, Message.effuseCopy_bytes hlt] at hcopy
    exact (Option.some.inj hcopy).symm

theorem hoses_in_order_small : ∃ s : Net Bool Unit Unit Unit Unit,
    (s.node true).history.reached 0 = [0] ∧ ∃ m, s.Gives Network.small (true, 0) m := by
  obtain ⟨s, hs⟩ := exists_arrived
  obtain ⟨m, hm, -⟩ := (hoses_in_order hs.run true 0).2.2 0 (by simp [hs.reached])
  exact ⟨s, hs.reached, m, hm⟩

/-- **Exactly once.** In every run, two messages in queues of hoses, of any hosts, come from two
calls of `infuse`. -/
theorem origin_unique (hrun : Steps (NetStep net) .init as s) {x y z : H × ℕ} {q q' : ℕ}
    (hx : x.2 ∈ (s.node x.1).history.reached q) (hy : y.2 ∈ (s.node y.1).history.reached q')
    (hxz : s.Origin net x z) (hyz : s.Origin net y z) : x = y ∧ q = q' := by
  have hinv := Net.invariant_of_run hrun
  obtain rfl := hinv.origin_inj hx hy hxz hyz
  have hhose := ((hinv.node x.1).kept.reached q).2 _ hx
  have hhose' := ((hinv.node x.1).kept.reached q').2 _ hy
  exact ⟨rfl, Option.some.inj (hhose.2.symm.trans hhose'.2)⟩

theorem origin_unique_small : ∃ s : Net Bool Unit Unit Unit Unit,
    s.Origin Network.small (true, 0) (false, 0) ∧
      (((true, 0) : Bool × ℕ) = (true, 0) ∧ (0 : ℕ) = 0) := by
  obtain ⟨s, hs⟩ := exists_arrived
  have horigin : s.Origin Network.small (true, 0) (false, 0) :=
    .taken (l := 0) (n := 0) (by simp [hs.taken]) (by simp [Network.small, hs.pushed])
  have hreached : 0 ∈ (s.node true).history.reached 0 := by simp [hs.reached]
  exact ⟨s, horigin, origin_unique hs.run hreached hreached horigin horigin⟩

/-- **No call hangs.** In every run, a message that was popped for a call of `effuse` has been
returned, or the steps of the call lead to a state in which it is. -/
theorem effuse_returns (hrun : Steps (NetStep net) .init as s) {h : H} {q i : ℕ}
    (hi : i ∈ (s.node h).history.popped q) : ∃ m, s.Gives net (h, i) m ∧
      ∃ (bs : List (NodeEvent C K R W)) (s' : Net H C K R W), (∀ b ∈ bs, b.isEffuse = true) ∧
        Steps (NetStep net) s (bs.map (h, ·)) s' ∧
          (s'.node h).history.effused i = some (.returned m.msgbdy.length m.msgbdy) := by
  have hinv := Net.invariant_of_run hrun
  obtain ⟨hmade, hstage⟩ := (hinv.node h).kept.popped q i hi
  obtain ⟨m, hm⟩ := hinv.exists_gives hmade
  obtain ⟨hlt, hcontents⟩ := hinv.contents_gives hm
  refine ⟨m, hm, ?_⟩
  cases hr : (s.node h).history.effused i with
  | some r =>
    have hcopy := ((hinv.node h).kept.effused i r hr).2
    rw [hcontents, Message.effuseCopy_bytes hlt] at hcopy
    exact ⟨[], s, by simp, .nil, hr.trans hcopy.symm⟩
  | none =>
    obtain ⟨p, hp, hat⟩ := hstage hr
    have hreturns : ∃ bs, (∀ b ∈ bs, b.isEffuse = true) ∧
        (s.node h).Returns (net.config h) (net.shmmax h) bs i m :=
      Node.returns_of_stage hlt (hinv.node h) hcontents hp hat
    obtain ⟨bs, hbs, n, hsteps, heffused⟩ := hreturns
    obtain ⟨s', hsteps', rfl⟩ :=
      Net.steps_onHost hsteps fun b hb => NodeEvent.isLocal_of_isEffuse (hbs b hb)
    exact ⟨bs, s', hbs, hsteps', heffused⟩

theorem effuse_returns_small : ∃ s : Net Bool Unit Unit Unit Unit,
    0 ∈ (s.node true).history.popped 0 ∧ ∃ m, s.Gives Network.small (true, 0) m := by
  obtain ⟨s, hs⟩ := exists_arrived
  have heffuse : NetStep Network.small s (true, .effuse () ()) _ :=
    .onHost rfl (.effuse hs.idle hs.tapLock)
  have hpop : NetStep Network.small (s.setNode true ((s.node true).setTap () (some ()) true))
      (true, .pop ()) _ :=
    .onHost rfl (.pop hs.serving rfl hs.popped hs.queue)
  obtain ⟨s', hrun, hmem⟩ : ∃ s', Steps (NetStep Network.small) .init
      (arrival ++ [(true, .effuse () ())] ++ [(true, .pop ())]) s' ∧
        0 ∈ (s'.node true).history.popped 0 :=
    ⟨_, (hs.run.snoc heffuse).snoc hpop,
      show 0 ∈ Custody.put (s.node true).history.popped 0 0 0 from mem_put.mpr (Or.inr ⟨rfl, rfl⟩)⟩
  obtain ⟨m, hm, -⟩ := effuse_returns hrun hmem
  exact ⟨s', hmem, m, hm⟩

/-- **The next message.** In every run, a call of `effuse` on a tap that nobody uses and that has
the hose can return the message at the head of the queue, and this is the next one of the hose. -/
theorem effuse_next (hrun : Steps (NetStep net) .init as s) {h : H} {k : K} {c : C}
    {msgid : List UInt8} {q : ℕ} {t : NynnToken} {ts : List NynnToken}
    (hserving : (s.node h).rresponder c = .serving msgid q) (hidle : (s.node h).Idle k)
    (hlock : (s.node h).tapLock c = none) (hq : (s.node h).tokens (.inr q) = t :: ts) :
    (∃ rest, (s.node h).history.reached q =
      (s.node h).history.popped q ++ t.shmid :: rest) ∧ ∃ m, s.Gives net (h, t.shmid) m ∧
        ∃ s', Steps (NetStep net) s
          [(h, .effuse k c), (h, .pop c), (h, .reply c), (h, .receive k c), (h, .shmat k),
            (h, .finish k)] s' ∧
          (s'.node h).history.effused t.shmid =
            some (.returned m.msgbdy.length m.msgbdy) := by
  have hinv := Net.invariant_of_run hrun
  have hmade := ((hinv.node h).kept.place _ _ (at_head hq)).made
  obtain ⟨m, hm⟩ := hinv.exists_gives hmade
  obtain ⟨hlt, hcontents⟩ := hinv.contents_gives hm
  have hqueue := (hinv.node h).queues q
  rw [hq, List.map_cons] at hqueue
  have hreturns : (s.node h).Returns (net.config h) (net.shmmax h)
      [.effuse k c, .pop c, .reply c, .receive k c, .shmat k, .finish k] t.shmid m :=
    Node.returns_of_queue hlt hcontents (hinv.node h) hserving hidle hlock hq
  obtain ⟨n, hsteps, heffused⟩ := hreturns
  obtain ⟨s', hsteps', rfl⟩ := Net.steps_onHost hsteps (by simp [NodeEvent.isLocal])
  exact ⟨⟨_, hqueue⟩, m, hm, s', hsteps', heffused⟩

theorem effuse_next_small : ∃ s : Net Bool Unit Unit Unit Unit,
    (s.node true).tokens (.inr 0) = [⟨0, 65, 0⟩] ∧ ∃ (m : Message) (s' : _),
      Steps (NetStep Network.small) s
        [(true, .effuse () ()), (true, .pop ()), (true, .reply ()), (true, .receive () ()),
          (true, .shmat ()), (true, .finish ())] s' ∧
        (s'.node true).history.effused 0 = some (.returned m.msgbdy.length m.msgbdy) := by
  obtain ⟨s, hs⟩ := exists_arrived
  obtain ⟨-, m, hm, s', hsteps, heffused⟩ :=
    effuse_next hs.run hs.serving hs.idle hs.tapLock hs.queue
  exact ⟨s, hs.queue, m, s', hsteps, heffused⟩

end Runs

end Nynn
