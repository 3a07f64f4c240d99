import Nynn.Daemon.Hoses
import Nynn.Library.Custody
import Mathlib.Data.Set.Card

/-!
# The shared-memory segments

A message lies in a segment of shared memory, and a token with the identifier of the segment goes
from hand to hand. `infuse` makes a segment and sends the token to its `wresponder`. For the local
host the `wresponder` looks the queue of the message id up and pushes the token on it; for another
host it marks the segment for removal, stays attached and pushes the token on the queue of the link.
The `reader` of a link makes a segment for a message that comes in, and treats it as a local one.
The `rresponder` pops tokens and sends them to its client, and `effuse` reads the segment and
removes it.

The daemon counts the segments that it is attached to, so that they are not more than `shmseg`.

Source: `nynn_shmat`, `nynn_shmdt`, `nynn_shmrm`, `infuse` and `effuse` in `nynn.cpp`,
`shm_manager_t` and `release_rqueue_t` in `nynn_daemon.h`, `wresponder`, `rresponder`, `reader` and
`writer` in `nynn_daemon.cpp`.

## Main definitions

* `Nynn.Var`: the variables, sockets and queues of links that hold tokens.
* `Nynn.Segments`, `Nynn.SegmentStep`: the state of the daemon and its clients, and their steps.
* `Nynn.Segments.NoOrphans`: every segment is referenced, and the count is right.
* `Nynn.Segments.Careful`: the step takes none of the branches that lose a segment.
-/

namespace Nynn

open Custody

/-! ### Tokens and their places -/

/-- `nynn_token_t`, with the message id that the segment holds. -/
structure Token (M : Type) where
  shmid : ℕ
  host : UInt32
  msgid : M
  deriving DecidableEq, Repr

/-- Where a token is, unless it is in the queue of a hose. `C` are the taps, each with a
`wresponder` and an `rresponder`, and `K` the threads of clients. A thread that hands tokens to
hoses is the `wresponder` of a tap or the `reader` of a link. -/
inductive Var (C K : Type)
  /-- `infuse`, before `nynn_shmdt`. -/
  | filling (k : K)
  /-- `infuse`, before `send`. -/
  | unsent (k : K)
  /-- Sent to the `wresponder`. -/
  | wsocket (c : C)
  /-- After `require`; for the `reader` this is `links[i].cachedfragment`. -/
  | attached (p : C ⊕ ℕ)
  /-- After `hoses.get`. -/
  | found (p : C ⊕ ℕ)
  /-- After `release`. -/
  | released (p : C ⊕ ℕ)
  /-- The `wresponder`, for another host. -/
  | attachedRemote (c : C)
  /-- `links[j].wqueue`. -/
  | wqueue (j : ℕ)
  /-- `req` of the `writer` that has the lock. -/
  | writing
  | delaycleaned
  /-- `req` of the `rresponder`. -/
  | popped (c : C)
  /-- Sent to the client. -/
  | rsocket (c : C)
  /-- `effuse`, before `nynn_shmat`. -/
  | received (k : K)
  /-- `effuse`, before `nynn_shmdt`. -/
  | reading (k : K)
  deriving DecidableEq

namespace Var

variable {C K : Type}

/-- The daemon is attached to the segments of the tokens in this variable, if `require` could. -/
def byDaemon : Var C K → Bool
  | attached _ | found _ | attachedRemote _ | wqueue _ | writing | delaycleaned => true
  | filling _ | unsent _ | wsocket _ | released _ | popped _ | rsocket _ | received _ | reading _ =>
    false

/-- Steps that fail give the token in this variable up: a `send` or a `recv` that fails, a
connection that is reset, a client that ends. -/
def canFail : Var C K → Bool
  | filling _ | unsent _ | wsocket _ | popped _ | rsocket _ | received _ => true
  | attached _ | found _ | released _ | attachedRemote _ | wqueue _ | writing | delaycleaned
  | reading _ => false

/-- A client that ends is detached. -/
def byClient : Var C K → Bool
  | filling _ | reading _ => true
  | unsent _ | wsocket _ | attached _ | found _ | released _ | attachedRemote _ | wqueue _
  | writing | delaycleaned | popped _ | rsocket _ | received _ => false

end Var

/-! ### The state -/

/-- The segments, the daemon and its clients. -/
structure Segments (M C K : Type) where
  hoses : Hoses M C (C ⊕ ℕ) (Token M)
  vars : Var C K → List (Token M)
  /-- Segments that were made so far. -/
  made : ℕ
  /-- `shm_nattch`. -/
  nattch : ℕ → ℕ
  /-- `IPC_RMID` was called. -/
  marked : ℕ → Bool
  /-- `shm_manager_t::count`. -/
  count : ℕ

/-- The address of the host, the addresses of `links[0..linksize)`, and the number of segments that
the daemon may be attached to. -/
structure DaemonConfig where
  hostaddr : UInt32
  linkaddrs : List UInt32
  shmseg : ℕ

def ntohl (x : UInt32) : UInt32 :=
  let second : UInt32 := 0xff00
  (x <<< 24) ||| ((x &&& second) <<< 8) ||| ((x >>> 8) &&& second) ||| (x >>> 24)

/-- The test of the `wresponder` for the local host. -/
def DaemonConfig.isLocal (config : DaemonConfig) (host : UInt32) : Bool :=
  host = config.hostaddr ∨ 0x7f000000 ≤ ntohl host ∧ ntohl host ≤ 0x7fffffff

/-- The loop of the `wresponder` that looks for the link of the host. -/
def DaemonConfig.linkIndex (config : DaemonConfig) (host : UInt32) : ℕ :=
  config.linkaddrs.findIdx (· = host)

namespace Segments

variable {M C K : Type} (s : Segments M C K)

/-- Nothing has happened yet. -/
def init : Segments M C K := ⟨.init, fun _ => [], 0, fun _ => 0, fun _ => false, 0⟩

/-- A segment exists until it is marked and nobody is attached to it. -/
def Exists (i : ℕ) : Prop := i < s.made ∧ ¬(s.marked i = true ∧ s.nattch i = 0)

/-- `shmget` with `IPC_PRIVATE`. -/
def shmget : Segments M C K := { s with made := s.made + 1 }

def shmat (i : ℕ) : Segments M C K :=
  { s with nattch := Function.update s.nattch i (s.nattch i + 1) }

def shmdt (i : ℕ) : Segments M C K :=
  { s with nattch := Function.update s.nattch i (s.nattch i - 1) }

/-- `shmctl` with `IPC_RMID`. -/
def rmid (i : ℕ) : Segments M C K := { s with marked := Function.update s.marked i true }

/-- `nynn_shmrm`. -/
def shmrm (i : ℕ) : Segments M C K := if s.nattch i ≠ 0 then s else s.rmid i

def incCount : Segments M C K := { s with count := s.count + 1 }

def decCount : Segments M C K := { s with count := s.count - 1 }

def setHoses (hoses : Hoses M C (C ⊕ ℕ) (Token M)) : Segments M C K := { s with hoses := hoses }

section Places

variable [DecidableEq C] [DecidableEq K]

def put (v : Var C K) (t : Token M) : Segments M C K := { s with vars := Custody.put s.vars v t }

/-- The first token of the variable is gone. -/
def drop (v : Var C K) : Segments M C K := { s with vars := Custody.take s.vars v }

def move (v w : Var C K) (t : Token M) : Segments M C K := (s.drop v).put w t

end Places

/-- The thread of a client is in no call. -/
def Idle (k : K) : Prop :=
  s.vars (.filling k) = [] ∧ s.vars (.unsent k) = [] ∧ s.vars (.received k) = [] ∧
    s.vars (.reading k) = []

/-- The `wresponder` waits for a token, or the `reader` for a message. -/
def Waiting (p : C ⊕ ℕ) : Prop :=
  s.vars (.attached p) = [] ∧ s.vars (.found p) = [] ∧ s.vars (.released p) = [] ∧
    ∀ c, p = .inl c → s.vars (.attachedRemote c) = []

end Segments

/-! ### The steps -/

inductive SegmentEvent (M C K : Type)
  | infuse (k : K) (host : UInt32) (msgid : M)
  | shmatFails
  | shmdt (k : K)
  | send (k : K) (c : C)
  | giveUp (v : Var C K)
  | requireLocal (c : C)
  | requireRemote (c : C)
  | requireFails (c : C)
  | fragment (i : ℕ) (msgid : M)
  | get (p : C ⊕ ℕ)
  | release (p : C ⊕ ℕ)
  | push (p : C ⊕ ℕ)
  | shmrm (p : C ⊕ ℕ)
  | route (c : C)
  | write (j : ℕ)
  | delayclean
  | hose (a : HoseEvent M C (C ⊕ ℕ) (Token M))
  | pop (c : C)
  | reply (c : C)
  | drain (c : C)
  | effuse (k : K) (c : C)
  | shmat (k : K)
  | finish (k : K)

/-- The event of the hoses concerns no token. -/
def HoseEvent.isRegistration {M R P T : Type} : HoseEvent M R P T → Bool
  | get _ _ | add _ | serve _ | fail _ | remove _ | delete _ => true
  | pop _ | drain _ | lookup _ _ | push _ _ => false

section Steps

variable {M C K : Type} [DecidableEq M] [DecidableEq C] [DecidableEq K] (config : DaemonConfig)

/-- The steps of the clients and of the threads of the daemon. -/
inductive SegmentStep : Segments M C K → SegmentEvent M C K → Segments M C K → Prop
  | infuse {s : Segments M C K} {k : K} {host : UInt32} {msgid : M} (hidle : s.Idle k) :
      SegmentStep s (.infuse k host msgid)
        ((s.shmget.shmat s.made).put (.filling k) ⟨s.made, host, msgid⟩)
  /-- `nynn_shmat` makes a segment and cannot attach to it; `infuse` returns `-1`, a `reader` ends
  the daemon. -/
  | shmatFails {s : Segments M C K} : SegmentStep s .shmatFails s.shmget
  | shmdt {s : Segments M C K} {k : K} {t : Token M} (h : s.vars (.filling k) = [t]) :
      SegmentStep s (.shmdt k) ((s.shmdt t.shmid).move (.filling k) (.unsent k) t)
  | send {s : Segments M C K} {k : K} {c : C} {t : Token M} (h : s.vars (.unsent k) = [t]) :
      SegmentStep s (.send k c) (s.move (.unsent k) (.wsocket c) t)
  | giveUp {s : Segments M C K} {v : Var C K} {t : Token M} {ts : List (Token M)}
      (hv : v.canFail = true) (h : s.vars v = t :: ts) :
      SegmentStep s (.giveUp v) ((if v.byClient then s.shmdt t.shmid else s).drop v)
  | requireLocal {s : Segments M C K} {c : C} {t : Token M} {ts : List (Token M)}
      (hwait : s.Waiting (.inl c)) (h : s.vars (.wsocket c) = t :: ts)
      (hlocal : config.isLocal t.host = true) (hcount : s.count ≠ config.shmseg) :
      SegmentStep s (.requireLocal c)
        ((s.shmat t.shmid).incCount.move (.wsocket c) (.attached (.inl c)) t)
  | requireRemote {s : Segments M C K} {c : C} {t : Token M} {ts : List (Token M)}
      (hwait : s.Waiting (.inl c)) (h : s.vars (.wsocket c) = t :: ts)
      (hlocal : config.isLocal t.host = false) (hcount : s.count ≠ config.shmseg) :
      SegmentStep s (.requireRemote c)
        (((s.shmat t.shmid).rmid t.shmid).incCount.move (.wsocket c) (.attachedRemote c) t)
  /-- `require` counts a segment to which it cannot attach, and the `wresponder` goes on. For the
  local host it faults. -/
  | requireFailsLocal {s : Segments M C K} {c : C} {t : Token M} {ts : List (Token M)}
      (hwait : s.Waiting (.inl c)) (h : s.vars (.wsocket c) = t :: ts)
      (hlocal : config.isLocal t.host = true) (hcount : s.count ≠ config.shmseg) :
      SegmentStep s (.requireFails c) (s.incCount.drop (.wsocket c))
  | requireFailsRemote {s : Segments M C K} {c : C} {t : Token M} {ts : List (Token M)}
      (hwait : s.Waiting (.inl c)) (h : s.vars (.wsocket c) = t :: ts)
      (hlocal : config.isLocal t.host = false) (hcount : s.count ≠ config.shmseg) :
      SegmentStep s (.requireFails c) (s.incCount.move (.wsocket c) (.attachedRemote c) t)
  | fragment {s : Segments M C K} {i : ℕ} {msgid : M} (hwait : s.Waiting (.inr i))
      (hcount : s.count ≠ config.shmseg) :
      SegmentStep s (.fragment i msgid)
        ((s.shmget.shmat s.made).incCount.put (.attached (.inr i)) ⟨s.made, 0, msgid⟩)
  | get {s : Segments M C K} {p : C ⊕ ℕ} {t : Token M} (h : s.vars (.attached p) = [t]) :
      SegmentStep s (.get p)
        ((s.setHoses (s.hoses.setPusher p (s.hoses.hosemap.get t.msgid))).move (.attached p)
          (.found p) t)
  | release {s : Segments M C K} {p : C ⊕ ℕ} {t : Token M} (h : s.vars (.found p) = [t])
      (hcount : s.count ≠ 0) :
      SegmentStep s (.release p)
        ((s.shmdt t.shmid).decCount.move (.found p) (.released p) t)
  | push {s : Segments M C K} {p : C ⊕ ℕ} {t : Token M} {q : ℕ}
      (h : s.vars (.released p) = [t]) (hq : s.hoses.pusher p = some q) :
      SegmentStep s (.push p)
        ((s.setHoses ((s.hoses.use q (s.hoses.queues q ++ [t])).setPusher p none)).drop
          (.released p))
  | shmrm {s : Segments M C K} {p : C ⊕ ℕ} {t : Token M} (h : s.vars (.released p) = [t])
      (hq : s.hoses.pusher p = none) :
      SegmentStep s (.shmrm p) ((s.shmrm t.shmid).drop (.released p))
  | route {s : Segments M C K} {c : C} {t : Token M} (h : s.vars (.attachedRemote c) = [t]) :
      SegmentStep s (.route c)
        (if config.linkIndex t.host < config.linkaddrs.length then
          s.move (.attachedRemote c) (.wqueue (config.linkIndex t.host)) t
        else s.drop (.attachedRemote c))
  | write {s : Segments M C K} {j : ℕ} {t : Token M} {ts : List (Token M)}
      (hlock : s.vars .writing = []) (h : s.vars (.wqueue j) = t :: ts) :
      SegmentStep s (.write j) (s.move (.wqueue j) .writing t)
  | delayclean {s : Segments M C K} {t : Token M} (h : s.vars .writing = [t])
      (hnull : s.vars .delaycleaned = []) :
      SegmentStep s .delayclean (s.move .writing .delaycleaned t)
  | delaycleanRelease {s : Segments M C K} {t d : Token M} (h : s.vars .writing = [t])
      (hold : s.vars .delaycleaned = [d]) (hcount : s.count ≠ 0) :
      SegmentStep s .delayclean
        (((s.shmdt d.shmid).decCount.drop .delaycleaned).move .writing .delaycleaned t)
  | hose {s : Segments M C K} {a : HoseEvent M C (C ⊕ ℕ) (Token M)}
      {hoses : Hoses M C (C ⊕ ℕ) (Token M)} (ha : a.isRegistration = true)
      (hstep : Hoses.Step s.hoses a hoses)
      (hpopped : ∀ c, a = .remove c → s.vars (.popped c) = []) :
      SegmentStep s (.hose a) (s.setHoses hoses)
  | pop {s : Segments M C K} {c : C} {msgid : M} {q : ℕ} {t : Token M} {ts : List (Token M)}
      (hpopped : s.vars (.popped c) = []) (h : s.hoses.consumer c = .serving msgid q)
      (hq : s.hoses.deleted q = true ∨ s.hoses.queues q = t :: ts) :
      SegmentStep s (.pop c) ((s.setHoses (s.hoses.use q ts)).put (.popped c) t)
  | reply {s : Segments M C K} {c : C} {t : Token M} (h : s.vars (.popped c) = [t]) :
      SegmentStep s (.reply c) (s.move (.popped c) (.rsocket c) t)
  /-- `~release_rqueue_t` deletes the tokens that are left. -/
  | drain {s : Segments M C K} {c : C} {q : ℕ} {t : Token M} {ts : List (Token M)}
      (h : s.hoses.consumer c = .draining q)
      (hq : s.hoses.deleted q = true ∨ s.hoses.queues q = t :: ts) :
      SegmentStep s (.drain c) (s.setHoses (s.hoses.use q ts))
  | effuse {s : Segments M C K} {k : K} {c : C} {t : Token M} {ts : List (Token M)}
      (hidle : s.Idle k) (h : s.vars (.rsocket c) = t :: ts) :
      SegmentStep s (.effuse k c) (s.move (.rsocket c) (.received k) t)
  | shmat {s : Segments M C K} {k : K} {t : Token M} (h : s.vars (.received k) = [t]) :
      SegmentStep s (.shmat k)
        (((s.shmat t.shmid).rmid t.shmid).move (.received k) (.reading k) t)
  /-- `effuse` detaches, or its client ends. -/
  | finish {s : Segments M C K} {k : K} {t : Token M} (h : s.vars (.reading k) = [t]) :
      SegmentStep s (.finish k) ((s.shmdt t.shmid).drop (.reading k))

end Steps

/-! ### Orphans -/

namespace Segments

variable {M C K : Type}

/-- The step takes none of the branches that lose a segment. No call fails while it has a segment; a
host to which a token is sent is in a link; a thread that adds its id finds no queue in the map; and
a thread that removes its id has an empty queue, which no thread has looked up and not pushed on. -/
def Careful (config : DaemonConfig) [DecidableEq M] (s : Segments M C K) :
    SegmentEvent M C K → Prop
  | .shmatFails | .giveUp _ | .requireFails _ => False
  | .route c => ∀ t, s.vars (.attachedRemote c) = [t] → t.host ∈ config.linkaddrs
  | .hose (.add r) => ∀ msgid, s.hoses.consumer r = .checked msgid →
      s.hoses.hosemap.get msgid = none
  | .hose (.remove r) => ∀ msgid q, s.hoses.consumer r = .serving msgid q →
      s.hoses.queues q = [] ∧ ∀ p, s.hoses.pusher p ≠ some q
  | _ => True

end Segments

end Nynn
