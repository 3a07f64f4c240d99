import Nynn.Daemon.NodeLedger

/-!
# The links of the daemons

Every end of a link has a peer, and the bytes that are sent at one end arrive in order at the other
one. What has been pushed on the queue of a link is not sent yet, or on its way, or has been
received: the complete messages have been taken off the link, and the beginning of the next one is
in `cachedfragment` and in the rest of the chunk. The locks keep the bytes of two messages apart:
the `writer` that has `wlock` sends a message to its end, and the `reader` that has `rlock` takes
the bytes of a chunk before those of the next one.

Source: as for `Nynn.Daemon.Node`.

## Main definitions

* `Nynn.Outgoing`, `Nynn.Incoming`: the two ends of a link, seen from outside.
* `Nynn.Carries`: where the bytes of the messages are.
* `Nynn.Network`, `Nynn.Net`, `Nynn.NetStep`: the hosts, their state, and their steps.

## Main results

* `Nynn.Net.Invariant.step`: every step keeps the links in order.
-/

namespace Nynn

open Custody Messages Reader

/-! ### The ends of a link -/

/-- The end of a link that sends: the messages that were pushed on its queue, and the bytes that are
not sent yet. -/
structure Outgoing where
  pushed : List (List UInt8)
  unsent : List UInt8

/-- The end of a link that receives: the messages that were taken off, the fragment, and the bytes
of the chunk that are left. -/
structure Incoming where
  taken : List (List UInt8)
  cachedfragment : Option Fragment
  pending : List UInt8

/-- The end stays as it is, or a message is pushed on its queue. -/
def Outgoing.Pushes (out out' : Outgoing) : Prop :=
  out' = out ∨ ∃ m, IsMessage m ∧ out' = ⟨out.pushed ++ [m], out.unsent ++ m⟩

/-- The end stays as it is, or there is a turn of the inner loop. -/
def Incoming.Turns (inc inc' : Incoming) : Prop :=
  inc' = inc ∨ 0 < inc.pending.length ∧ ∃ memory grants t,
    turn memory grants inc.cachedfragment inc.pending = .ok t ∧
      inc' = ⟨inc.taken ++ t.handed.toList.map (·.shm), t.cached, t.goesOn⟩

/-- The messages that were taken off are the first that were pushed, and the bytes of all others
are in order: the fragment, the rest of the chunk, what is on the way and what is not sent yet. -/
def Carries (out : Outgoing) (wire : List UInt8) (inc : Incoming) : Prop :=
  (∀ m ∈ out.pushed, IsMessage m) ∧
    ∃ rest q, out.pushed = inc.taken ++ rest ∧ Holds inc.cachedfragment q rest ∧
      q ++ inc.pending ++ wire ++ out.unsent = rest.flatten

namespace Reader

/-- More messages may be pushed afterwards. -/
theorem Holds.append {cached : Option Fragment} {q : List UInt8} {rest : List (List UInt8)}
    (h : Holds cached q rest) (more : List (List UInt8)) : Holds cached q (rest ++ more) := by
  cases h with
  | null => exact .null
  | fragment hsize hshm hcapacity hq hpos hlt =>
    exact .fragment hsize hshm hcapacity hq hpos hlt

end Reader

namespace Carries

variable {out : Outgoing} {wire : List UInt8} {inc : Incoming}

theorem taken_isPrefix (h : Carries out wire inc) : inc.taken <+: out.pushed := by
  obtain ⟨-, rest, q, hpushed, -⟩ := h
  exact ⟨rest, hpushed.symm⟩

/-- A message is pushed on the queue. -/
theorem push {m : List UInt8} (h : Carries out wire inc) (hm : IsMessage m) :
    Carries ⟨out.pushed ++ [m], out.unsent ++ m⟩ wire inc := by
  obtain ⟨hmessages, rest, q, hpushed, hholds, hbytes⟩ := h
  refine ⟨List.forall_mem_append.mpr ⟨hmessages, List.forall_mem_singleton.mpr hm⟩, rest ++ [m], q,
    ?_, hholds.append _, ?_⟩
  · rw [hpushed, List.append_assoc]
  · rw [← List.append_assoc, hbytes, List.flatten_append, List.flatten_singleton]

/-- Bytes are sent. -/
theorem transmit {bytes unsent : List UInt8} (h : Carries out wire inc)
    (hunsent : out.unsent = bytes ++ unsent) :
    Carries ⟨out.pushed, unsent⟩ (wire ++ bytes) inc := by
  obtain ⟨hmessages, rest, q, hpushed, hholds, hbytes⟩ := h
  refine ⟨hmessages, rest, q, hpushed, hholds, ?_⟩
  rw [← hbytes, hunsent]
  simp only [List.append_assoc]

/-- A chunk is received. -/
theorem recv {chunk wire : List UInt8} (h : Carries out (chunk ++ wire) inc)
    (hpending : inc.pending = []) :
    Carries out wire ⟨inc.taken, inc.cachedfragment, chunk⟩ := by
  obtain ⟨hmessages, rest, q, hpushed, hholds, hbytes⟩ := h
  refine ⟨hmessages, rest, q, hpushed, hholds, ?_⟩
  rw [← hbytes, hpending]
  simp only [List.append_assoc, List.nil_append]

/-- A turn of the inner loop takes a message off the link, or keeps the bytes in the fragment. -/
theorem turn {memory : Fin 8 → UInt8} {grants : ℕ → Bool} {t : Turn} (h : Carries out wire inc)
    (hpos : 0 < inc.pending.length)
    (hturn : Reader.turn memory grants inc.cachedfragment inc.pending = .ok t) :
    Carries out wire ⟨inc.taken ++ t.handed.toList.map (·.shm), t.cached, t.goesOn⟩ := by
  obtain ⟨hmessages, rest, q, hpushed, hholds, hbytes⟩ := h
  cases rest with
  | nil =>
    simp only [List.flatten_nil, List.append_eq_nil_iff] at hbytes
    simp [hbytes.1.1.2] at hpos
  | cons m rest =>
    have hm : IsMessage m := hmessages m (by rw [hpushed]; simp)
    rw [List.append_assoc (q ++ inc.pending)] at hbytes
    -- the message got its segment, for the turn has not ended the daemon
    have hgrants : q.length < 8 → 8 ≤ (q ++ inc.pending).length → grants m.length = true := by
      intro h8 hp
      by_contra hnot
      have htake := congrArg (List.take 8) hbytes
      rw [List.take_append_of_le_length hp, List.flatten_cons,
        List.take_append_of_le_length ((show 8 ≤ 64 by omega).trans hm.header)] at htake
      have hexit := turn_exit memory hm hholds (Bool.eq_false_iff.mpr hnot) h8 hp htake.symm
      rw [hturn] at hexit
      cases hexit
    rcases begun_append hbytes with ⟨p', hqp, hp'⟩ | ⟨hqp, hlt⟩
    · have hlen := congrArg List.length hqp
      have hadd : (m ++ p').length = m.length + p'.length := List.length_append
      have hheader := hm.header
      have hcomplete := turn_complete memory hm hholds (fun h8 => hgrants h8 (by omega))
        ⟨p', hqp.symm⟩
      rw [hqp, List.drop_left, hturn] at hcomplete
      rcases hkey : getKey m with e | key
      · rw [hkey] at hcomplete
        cases hcomplete
      rw [hkey] at hcomplete
      obtain rfl := Except.ok.inj hcomplete
      refine ⟨hmessages, rest, [], by simp [hpushed], .null, ?_⟩
      rw [← hp']
      simp [Turn.goesOn]
    · obtain ⟨cached', p', hpartial, hholds'⟩ := turn_partial memory hm hholds hgrants hpos hqp hlt
      obtain rfl := Except.ok.inj (hturn.symm.trans hpartial)
      refine ⟨hmessages, m :: rest, q ++ inc.pending, by simp [hpushed], hholds', ?_⟩
      simpa [Turn.goesOn] using hbytes

/-- A step that neither sends nor receives. -/
theorem pushes_turns {out' : Outgoing} {inc' : Incoming} (h : Carries out wire inc)
    (hout : out.Pushes out') (hinc : inc.Turns inc') : Carries out' wire inc' := by
  have hpushes : Carries out' wire inc := by
    rcases hout with rfl | ⟨m, hm, rfl⟩
    · exact h
    · exact h.push hm
  rcases hinc with rfl | ⟨hpos, memory, grants, t, hturn, rfl⟩
  · exact hpushes
  · exact hpushes.turn hpos hturn

end Carries

/-! ### The ends of the links of a host -/

/-- The step neither sends nor receives. -/
def NodeEvent.isLocal {C K R W : Type} : NodeEvent C K R W → Bool
  | transmit _ _ _ | recv _ _ _ => false
  | _ => true

/-- What the `writer` has not sent yet of a message for the link `j`. -/
def Writing.unsent (contents : ℕ → List UInt8) (j : ℕ) : Writing → List UInt8
  | locked _ => []
  | popped j' req => if j' = j then contents req.shmid else []
  | sending j' req size => if j' = j then (contents req.shmid).drop size else []

/-- What the `reader` has not handled yet of the chunk. -/
def Reading.pending : Reading → List UInt8
  | reading p _ | handing p _ => p
  | locked | finished _ => []

theorem Reading.pending_inner (p : List UInt8) (size : ℕ) : (Reading.inner p size).pending = p := by
  rw [inner]
  split
  · rename_i hnil
    exact hnil.symm
  · rfl

namespace Node

variable {C K R W : Type} (s : Node C K R W)

def outgoing (j : ℕ) : Outgoing where
  pushed := (s.history.pushed j).map s.shm.contents
  unsent := s.wlock.elim [] (·.2.unsent s.shm.contents j) ++
    ((s.tokens (.inl (.wqueue j))).map (s.shm.contents ·.shmid)).flatten

def incoming (i : ℕ) : Incoming where
  taken := (s.history.taken i).map s.shm.contents
  cachedfragment := s.cachedfragment i
  pending := (s.rlock i).elim [] (·.2.pending)

variable {s} {s' : Node C K R W}

/-- The segments of the messages in the queues of the links and behind them stay as they are. -/
theorem outgoing_congr (h : s.Invariant) {j : ℕ}
    (hcontents : ∀ i < s.shm.made, s'.shm.contents i = s.shm.contents i)
    (hpushed : s'.history.pushed j = s.history.pushed j) (hwlock : s'.wlock = s.wlock)
    (hqueue : s'.tokens (.inl (.wqueue j)) = s.tokens (.inl (.wqueue j))) :
    s'.outgoing j = s.outgoing j := by
  have htoken {p : TokenPlace C K} {t : NynnToken} (ht : t ∈ s.tokens p) :
      s'.shm.contents t.shmid = s.shm.contents t.shmid :=
    hcontents _ (h.kept.place p _ (List.mem_map_of_mem ht)).made
  have hwriter : s'.wlock.elim [] (·.2.unsent s'.shm.contents j) =
      s.wlock.elim [] (·.2.unsent s.shm.contents j) := by
    have hreq := h.writer.writing
    rw [hwlock]
    cases hlock : s.wlock with
    | none => rfl
    | some l =>
      obtain ⟨w, phase⟩ := l
      rw [hlock] at hreq
      cases phase with
      | locked => rfl
      | popped j' t =>
        have ht : t ∈ s.tokens (.inl .writing) := by
          rw [hreq]
          exact List.mem_singleton_self t
        simp [Writing.unsent, htoken ht]
      | sending j' t size =>
        have ht : t ∈ s.tokens (.inl .delaycleaned) := by
          rw [h.writer.delaycleaned w j' t size hlock]
          exact List.mem_singleton_self t
        simp [Writing.unsent, htoken ht]
  have hmessages : (s.history.pushed j).map s'.shm.contents =
      (s.history.pushed j).map s.shm.contents :=
    List.map_congr_left fun i hi => hcontents i ((h.kept.pushed j).2 i hi).1
  have hunsent : (s.tokens (.inl (.wqueue j))).map (s'.shm.contents ·.shmid) =
      (s.tokens (.inl (.wqueue j))).map (s.shm.contents ·.shmid) :=
    List.map_congr_left fun t ht => htoken ht
  rw [outgoing, outgoing, hpushed, hwriter, hqueue, hmessages, hunsent]

theorem incoming_congr (h : s.Invariant) {i : ℕ}
    (hcontents : ∀ i < s.shm.made, s'.shm.contents i = s.shm.contents i)
    (htaken : s'.history.taken i = s.history.taken i)
    (hcached : s'.cachedfragment i = s.cachedfragment i)
    (hpending : (s'.rlock i).elim [] (·.2.pending) = (s.rlock i).elim [] (·.2.pending)) :
    s'.incoming i = s.incoming i := by
  have hmessages : (s.history.taken i).map s'.shm.contents =
      (s.history.taken i).map s.shm.contents :=
    List.map_congr_left fun k hk => hcontents k (h.kept.taken i k hk)
  rw [incoming, incoming, htaken, hcached, hpending, hmessages]

/-- The bytes of a message that the `writer` sends. -/
theorem contents_sending (h : s.Invariant) {w : W} {j size : ℕ} {t : NynnToken}
    (hlock : s.wlock = some (w, .sending j t size)) :
    s.shm.nattch t.shmid ≠ 0 ∧ (s.shm.contents t.shmid).length = t.size := by
  have hp := h.writer.delaycleaned w j t size hlock
  have hat := h.kept.place _ _ (at_head hp)
  refine ⟨by rw [hat.nattch]; exact one_ne_zero, ?_⟩
  obtain ⟨m, hm⟩ := Option.isSome_iff_exists.mp (hat.infused rfl)
  rw [(h.kept.infused _ m hm).2.2, Message.length_bytes,
    h.kept.sized _ t (hp ▸ List.mem_singleton_self t) m hm]

variable [DecidableEq C] [DecidableEq K] [DecidableEq R] [DecidableEq W] {config : DaemonConfig}
  {shmmax : ℕ} {a : NodeEvent C K R W} {w : W} {r : R} {i j : ℕ} {bytes chunk : List UInt8}

/-- **Sending.** The bytes that `send` takes are the next ones of the link. -/
theorem outgoing_transmit (h : s.Invariant)
    (hstep : NodeStep config shmmax s (.transmit w j bytes) s') :
    (s.outgoing j).unsent = bytes ++ (s'.outgoing j).unsent ∧
      (s'.outgoing j).pushed = (s.outgoing j).pushed ∧
        ∀ j' ≠ j, s'.outgoing j' = s.outgoing j' := by
  cases hstep with
  | @transmit _ _ size t shm beyond _ hlock hloop hshm hlen hbytes =>
    obtain ⟨hattached, hsize⟩ := contents_sending h hlock
    obtain rfl := hshm hattached
    have hle := hlen.trans (sendMax_le _)
    have htake : bytes = ((s.shm.contents t.shmid).drop size).take bytes.length := by
      have hdrop : bytes.length ≤ ((s.shm.contents t.shmid).drop size).length := by
        rw [List.length_drop, hsize]
        exact hle
      exact List.prefix_iff_eq_take.mp (List.prefix_of_prefix_length_le hbytes
        (List.prefix_append _ _) hdrop)
    refine ⟨?_, rfl, fun j' hj => ?_⟩
    · show s.wlock.elim [] _ ++ _ = bytes ++ ((s.setWlock _).wlock.elim [] _ ++ _)
      rw [hlock]
      simp only [Option.elim_some, setWlock, Writing.unsent, if_pos]
      have hsplit := List.take_append_drop bytes.length ((s.shm.contents t.shmid).drop size)
      rw [← htake, List.drop_drop] at hsplit
      rw [← List.append_assoc, hsplit]
    · simp [outgoing, hlock, setWlock, Writing.unsent, hj.symm]

/-- **Receiving.** The inner loop has handled the bytes of the last chunk. -/
theorem incoming_recv (hstep : NodeStep config shmmax s (.recv r i chunk) s') :
    (s.incoming i).pending = [] ∧
      s'.incoming i = ⟨(s.incoming i).taken, (s.incoming i).cachedfragment, chunk⟩ ∧
        ∀ i' ≠ i, s'.incoming i' = s.incoming i' := by
  cases hstep with
  | recv hlock =>
    refine ⟨?_, ?_, fun i' hi => ?_⟩
    · simp [incoming, hlock, Reading.pending]
    · simp [incoming, setRlock, Reading.pending]
    · simp [incoming, setRlock, hi]

/-- A step that sends nothing leaves the end of a link as it is, or pushes a message. -/
theorem outgoing_local (h : s.Invariant) (ha : a.isLocal = true)
    (hstep : NodeStep config shmmax s a s') (j : ℕ) : (s.outgoing j).Pushes (s'.outgoing j) := by
  by_cases hquiet : a.isQuiet = true
  · have hs := quiet_step hquiet hstep
    exact Or.inl (outgoing_congr h hs.contents (congrFun hs.pushed j) hs.wlock (hs.tokens _ rfl))
  cases hstep with
  | push | pop =>
    exact Or.inl (outgoing_congr h (fun _ _ => rfl) rfl rfl (by simp [Holdings.move_of_ne]))
  | routeNowhere =>
    exact Or.inl (outgoing_congr h (fun _ _ => rfl) rfl rfl (by simp [Holdings.drop_of_ne]))
  | turnHanded =>
    exact Or.inl (outgoing_congr h (fun i hi => Function.update_of_ne hi.ne ..) rfl rfl
      (by simp [Holdings.put_of_ne]))
  | lock | again | recv | turn | next | loop | loopEnds => exact Or.inl rfl
  | @route c t hp hlink =>
    by_cases hj : j = config.linkIndex t.host
    · subst hj
      obtain ⟨m, hm⟩ := Option.isSome_iff_exists.mp ((h.kept.place _ _ (at_head hp)).infused rfl)
      obtain ⟨-, hlt, hcontents⟩ := h.kept.infused _ m hm
      refine Or.inr ⟨s.shm.contents t.shmid, hcontents ▸ Message.isMessage_bytes hlt, ?_⟩
      simp [outgoing, Holdings.recordPushed, Holdings.setHistory, put_self, Holdings.move_target,
        hold]
    · refine Or.inl (outgoing_congr h (fun _ _ => rfl) (put_of_ne hj) rfl ?_)
      simp [Holdings.move_of_ne, hj]
  | trylock _ hlock =>
    refine Or.inl ?_
    simp [outgoing, hlock, setWlock, Writing.unsent]
  | empty hlock =>
    refine Or.inl ?_
    simp [outgoing, hlock, setWlock, setWriter, Writing.unsent]
  | @write w j' t ts hlock hp =>
    refine Or.inl ?_
    by_cases hj : j' = j
    · subst hj
      simp [outgoing, hlock, setWlock, Writing.unsent, Holdings.move_source, hp]
    · have hqueue : (s.move (.inl (.wqueue j')) (.inl .writing) t).tokens (.inl (.wqueue j)) =
          s.tokens (.inl (.wqueue j)) := by
        simp [Holdings.move_of_ne, Ne.symm hj]
      simp [outgoing, hlock, setWlock, Writing.unsent, hj, hqueue]
  | delayclean hlock =>
    refine Or.inl ?_
    simp [outgoing, hlock, setWlock, Writing.unsent, Holdings.move_of_ne]
  | delaycleanRelease hlock =>
    refine Or.inl ?_
    simp [outgoing, hlock, setWlock, Writing.unsent, Holdings.move_of_ne, Holdings.drop_of_ne]
  | @unlock w j' size t hlock hsize =>
    refine Or.inl ?_
    have hlen : (s.shm.contents t.shmid).length ≤ size := (contents_sending h hlock).2 ▸ hsize
    simp [outgoing, hlock, setWlock, setWriter, Writing.unsent, hlen]
  | transmit => cases ha
  | _ => exact absurd rfl hquiet

omit [DecidableEq C] [DecidableEq K] [DecidableEq R] [DecidableEq W] in
/-- The bytes that are left stay the same when they do at the link whose lock changes. -/
private theorem pending_update {i i' : ℕ} {rlock : Option (R × Reading)}
    (hpending : i = i' → rlock.elim [] (·.2.pending) = (s.rlock i').elim [] (·.2.pending)) :
    (Function.update s.rlock i' rlock i).elim [] (·.2.pending) =
      (s.rlock i).elim [] (·.2.pending) := by
  by_cases hi : i = i'
  · subst hi
    rw [Function.update_self, hpending rfl]
  · rw [Function.update_of_ne hi]

/-- A step that receives nothing leaves the end of a link as it is, or is a turn of the inner
loop. -/
theorem incoming_local (h : s.Invariant) (ha : a.isLocal = true)
    (hstep : NodeStep config shmmax s a s') (i : ℕ) : (s.incoming i).Turns (s'.incoming i) := by
  by_cases hquiet : a.isQuiet = true
  · have hs := quiet_step hquiet hstep
    exact Or.inl (incoming_congr h hs.contents (congrFun hs.taken i) (congrFun hs.cached i)
      (by rw [hs.rlock]))
  cases hstep with
  | push | pop | route | routeNowhere | trylock | empty | write | delayclean | delaycleanRelease
  | unlock =>
    exact Or.inl rfl
  | lock _ hlock | again hlock | loop hlock | loopEnds hlock =>
    exact Or.inl (incoming_congr h (fun _ _ => rfl) rfl rfl
      (pending_update fun _ => by rw [hlock]; rfl))
  | next hlock =>
    refine Or.inl (incoming_congr h (fun _ _ => rfl) rfl rfl (pending_update fun _ => ?_))
    rw [hlock]
    exact Reading.pending_inner ..
  | @turn r i' size p memory g t hlock hturn hhanded =>
    by_cases hi : i = i'
    · subst hi
      have hpending : (s.incoming i).pending = p := by
        simp [incoming, hlock, Reading.pending]
      refine Or.inr ⟨hpending ▸ h.readers i r p size hlock, memory, g, t, hpending ▸ hturn, ?_⟩
      simp [incoming, setRlock, setCached, hhanded, Reading.pending_inner]
    · exact Or.inl (incoming_congr h (fun _ _ => rfl) rfl (Function.update_of_ne hi ..)
        (pending_update fun e => absurd e hi))
  | @turnHanded r i' size p memory g t f hlock hturn hhanded =>
    have hcontents : ∀ k < s.shm.made, (s.shm.shmget f.shm).contents k = s.shm.contents k :=
      fun k hk => Function.update_of_ne hk.ne ..
    by_cases hi : i = i'
    · subst hi
      have hpending : (s.incoming i).pending = p := by
        simp [incoming, hlock, Reading.pending]
      refine Or.inr ⟨hpending ▸ h.readers i r p size hlock, memory, g, t, hpending ▸ hturn, ?_⟩
      have htaken : (Custody.put s.history.taken i s.shm.made i).map (s.shm.shmget f.shm).contents =
          (s.history.taken i).map s.shm.contents ++ [f.shm] := by
        have hself : (s.shm.shmget f.shm).contents s.shm.made = f.shm := Function.update_self ..
        rw [put_self, List.map_append, List.map_singleton, hself,
          List.map_congr_left fun k hk => hcontents k (h.kept.taken i k hk)]
      simp only [incoming, setRlock, setCached, hhanded, Function.update_self, Option.elim_some,
        Reading.pending, Option.toList_some, List.map_singleton]
      exact congrArg (Incoming.mk · t.cached t.goesOn) htaken
    · exact Or.inl (incoming_congr h hcontents (put_of_ne hi) (Function.update_of_ne hi ..)
        (pending_update fun e => absurd e hi))
  | transmit | recv => cases ha
  | _ => exact absurd rfl hquiet

end Node

/-! ### The hosts -/

/-- The hosts and their links: `(h, j)` is the link `j` of the daemon of the host `h`. -/
structure Network (H : Type) where
  config : H → DaemonConfig
  shmmax : H → ℕ
  /-- The other end of a link. -/
  peer : H × ℕ → H × ℕ
  peer_peer : ∀ e, peer (peer e) = e

/-- The hosts, and the bytes that were sent at an end of a link and are on the way to its peer. -/
structure Net (H C K R W : Type) where
  node : H → Node C K R W
  wire : H × ℕ → List UInt8

namespace Net

variable {H C K R W : Type} (s : Net H C K R W)

def init : Net H C K R W := ⟨fun _ => .init, fun _ => []⟩

def outgoing (e : H × ℕ) : Outgoing := (s.node e.1).outgoing e.2

def incoming (e : H × ℕ) : Incoming := (s.node e.1).incoming e.2

def setNode [DecidableEq H] (h : H) (node : Node C K R W) : Net H C K R W :=
  { s with node := Function.update s.node h node }

def setWire [DecidableEq H] (e : H × ℕ) (bytes : List UInt8) : Net H C K R W :=
  { s with wire := Function.update s.wire e bytes }

end Net

section Steps

variable {H C K R W : Type} [DecidableEq H] [DecidableEq C] [DecidableEq K] [DecidableEq R]
  [DecidableEq W] (net : Network H)

/-- A step of a host. The bytes that are received are the first ones on the way. -/
inductive NetStep : Net H C K R W → H × NodeEvent C K R W → Net H C K R W → Prop
  | onHost {s : Net H C K R W} {h : H} {a : NodeEvent C K R W} {node : Node C K R W}
      (ha : a.isLocal = true) (hstep : NodeStep (net.config h) (net.shmmax h) (s.node h) a node) :
      NetStep s (h, a) (s.setNode h node)
  | transmit {s : Net H C K R W} {h : H} {w : W} {j : ℕ} {bytes : List UInt8} {node : Node C K R W}
      (hstep : NodeStep (net.config h) (net.shmmax h) (s.node h) (.transmit w j bytes) node) :
      NetStep s (h, .transmit w j bytes)
        ((s.setNode h node).setWire (h, j) (s.wire (h, j) ++ bytes))
  | recv {s : Net H C K R W} {h : H} {r : R} {i : ℕ} {chunk wire : List UInt8}
      {node : Node C K R W} (hwire : s.wire (net.peer (h, i)) = chunk ++ wire)
      (hstep : NodeStep (net.config h) (net.shmmax h) (s.node h) (.recv r i chunk) node) :
      NetStep s (h, .recv r i chunk) ((s.setNode h node).setWire (net.peer (h, i)) wire)

end Steps

namespace Net

variable {H C K R W : Type} {net : Network H} {s s' : Net H C K R W}

/-- What holds in every run. -/
structure Invariant (net : Network H) (s : Net H C K R W) : Prop where
  node : ∀ h, (s.node h).Invariant
  carries : ∀ e, Carries (s.outgoing e) (s.wire e) (s.incoming (net.peer e))

theorem invariant_init : (init : Net H C K R W).Invariant net where
  node _ := Node.invariant_init
  carries _ := ⟨fun _ h => absurd h List.not_mem_nil, [], [], rfl, .null, rfl⟩

variable [DecidableEq H] [DecidableEq C] [DecidableEq K] [DecidableEq R] [DecidableEq W]
  {a : H × NodeEvent C K R W}

omit [DecidableEq C] [DecidableEq K] [DecidableEq R] [DecidableEq W] in
/-- What relates an end of the host before and after the step relates all ends. -/
private theorem setNode_rel {α : Type} (Rel : α → α → Prop) (hrefl : ∀ x, Rel x x)
    (f : Node C K R W → ℕ → α) {x : H} {node : Node C K R W} {e : H × ℕ}
    (h : e.1 = x → Rel (f (s.node x) e.2) (f node e.2)) :
    Rel (f (s.node e.1) e.2) (f ((s.setNode x node).node e.1) e.2) := by
  show Rel _ (f (Function.update s.node x node e.1) e.2)
  by_cases hx : e.1 = x
  · rw [hx, Function.update_self]
    exact h hx
  · rw [Function.update_of_ne hx]
    exact hrefl _

private theorem invariant_setNode (h : s.Invariant net) {x : H} {b : NodeEvent C K R W}
    {node : Node C K R W}
    (hstep : NodeStep (net.config x) (net.shmmax x) (s.node x) b node) :
    ∀ y, ((s.setNode x node).node y).Invariant :=
  (Function.forall_update_iff s.node fun _ n => n.Invariant).mpr
    ⟨(h.node x).step hstep, fun y _ => h.node y⟩

/-- **The links.** Every step of a host keeps the links in order. -/
theorem Invariant.step (h : s.Invariant net) (hstep : NetStep net s a s') : s'.Invariant net := by
  cases hstep with
  | @onHost x b node ha hstep =>
    refine ⟨invariant_setNode h hstep, fun e => (h.carries e).pushes_turns ?_ ?_⟩
    · exact setNode_rel Outgoing.Pushes (fun _ => Or.inl rfl) Node.outgoing
        fun _ => Node.outgoing_local (h.node x) ha hstep _
    · exact setNode_rel Incoming.Turns (fun _ => Or.inl rfl) Node.incoming
        fun _ => Node.incoming_local (h.node x) ha hstep _
  | @transmit x w j bytes node hstep =>
    obtain ⟨hunsent, hpushed, hothers⟩ := Node.outgoing_transmit (h.node x) hstep
    refine ⟨invariant_setNode h hstep, fun e => ?_⟩
    have hinc : s.incoming (net.peer e) =
        ((s.setNode x node).setWire (x, j) (s.wire (x, j) ++ bytes)).incoming (net.peer e) :=
      setNode_rel Eq (fun _ => rfl) Node.incoming fun _ => by cases hstep; rfl
    rw [← hinc]
    by_cases he : e = (x, j)
    · subst he
      have hout : ((s.setNode x node).setWire (x, j) (s.wire (x, j) ++ bytes)).outgoing (x, j) =
          ⟨((s.node x).outgoing j).pushed, (node.outgoing j).unsent⟩ := by
        rw [← hpushed]
        exact congrArg (Node.outgoing · j) (Function.update_self ..)
      rw [hout]
      show Carries _ (Function.update s.wire _ _ _) _
      rw [Function.update_self]
      exact (h.carries (x, j)).transmit hunsent
    · have hout : s.outgoing e =
          ((s.setNode x node).setWire (x, j) (s.wire (x, j) ++ bytes)).outgoing e :=
        setNode_rel Eq (fun _ => rfl) Node.outgoing fun hx =>
          (hothers _ fun hj => he (Prod.ext hx hj)).symm
      rw [← hout]
      show Carries _ (Function.update s.wire _ _ _) _
      rw [Function.update_of_ne he]
      exact h.carries e
  | @recv x r i chunk wire node hwire hstep =>
    obtain ⟨hpending, hchunk, hothers⟩ := Node.incoming_recv hstep
    refine ⟨invariant_setNode h hstep, fun e => ?_⟩
    have hout : s.outgoing e = ((s.setNode x node).setWire (net.peer (x, i)) wire).outgoing e :=
      setNode_rel Eq (fun _ => rfl) Node.outgoing fun _ => by cases hstep; rfl
    rw [← hout]
    by_cases he : e = net.peer (x, i)
    · subst he
      have hinc : ((s.setNode x node).setWire (net.peer (x, i)) wire).incoming (x, i) =
          ⟨((s.node x).incoming i).taken, ((s.node x).incoming i).cachedfragment, chunk⟩ := by
        rw [← hchunk]
        exact congrArg (Node.incoming · i) (Function.update_self ..)
      have hcarries := h.carries (net.peer (x, i))
      rw [net.peer_peer] at hcarries ⊢
      rw [hinc]
      show Carries _ (Function.update s.wire _ _ _) _
      rw [Function.update_self]
      exact (hwire ▸ hcarries).recv hpending
    · have hne (hpeer : net.peer e = (x, i)) : False := he (by rw [← hpeer, net.peer_peer])
      have hinc : s.incoming (net.peer e) =
          ((s.setNode x node).setWire (net.peer (x, i)) wire).incoming (net.peer e) :=
        setNode_rel Eq (fun _ => rfl) Node.incoming fun hx =>
          (hothers _ fun hi => hne (Prod.ext hx hi)).symm
      rw [← hinc]
      show Carries _ (Function.update s.wire _ _ _) _
      rw [Function.update_of_ne he]
      exact h.carries e

end Net

end Nynn
