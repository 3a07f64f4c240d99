import Nynn.Daemon.Framing
import Nynn.Daemon.SegmentLedger

/-!
# A host and its threads

The daemon of a host and the clients of the daemon, thread by thread. `infuse` fills a segment and
sends its token to the `wresponder` of the tap. For the local host the `wresponder` pushes the token
on the queue of the message id, and for another host on the queue of the link. The `poller` makes
tasks. A `writer` that gets the lock of the links pops a token and sends the bytes of its segment,
as many at a time as the socket takes; one that does not get the lock drops its task. A `reader`
that has the lock of its link receives a chunk, and turns of the inner loop make messages of it,
which go on as local ones. `effuse` asks the `rresponder` for a token and copies the body.

`shmget`, `shmat` and `require` of a new segment succeed, and the other side of a connection stays.
A segment of the `reader` is its own until the message is complete, so the model makes it then. The
count of `shm_manager_t`, which makes threads wait, is left out; it is in `Nynn.Segments`. A task has
the number of the link in place of the descriptor, by which the thread finds the link.

Source: `nynn_shmat`, `nynn_shmdt`, `nynn_shmrm`, `infuse` and `effuse` in `nynn.cpp`, `Socket::send`
in `socket.cpp`, `poller`, `writer`, `reader`, `wresponder` and `rresponder` in `nynn_daemon.cpp`.

## Main definitions

* `Nynn.Message`: what `infuse` is called with, and what it writes.
* `Nynn.SharedMemory`: the segments.
* `Nynn.History`: what has happened to the messages.
* `Nynn.Holdings`: the segments, tokens and hoses of a host.
* `Nynn.Node`, `Nynn.NodeStep`: the state of a host, and the steps of its threads.
-/

namespace Nynn

open Custody LittleEndian

/-! ### Messages -/

/-- The host, the message id and the body that `infuse` is called with. -/
structure Message where
  host : List UInt8
  msgid : List UInt8
  msgbdy : List UInt8
  host_lt : host.length < 16
  msgid_lt : msgid.length < 40
  host_ne_zero : 0 ∉ host
  msgid_ne_zero : 0 ∉ msgid
  deriving DecidableEq

namespace Message

variable (m : Message)

/-- `sizeof(size_t)+MSGHOSTSIZE+MSGIDSIZE+msgbdysize`, in 64 bits. -/
def shmsize : ℕ := (8 + 16 + 40 + m.msgbdy.length) % 2 ^ 64

/-- What `infuse` writes into the segment, and `none` where it writes beyond the end. -/
def fill : Option (List UInt8) := do
  let shm ← memcpy (Reader.segment m.shmsize) 0 (leBytes 8 m.shmsize) 8
  let shm ← memcpy shm 8 (m.host ++ [0]) (m.host.length + 1)
  let shm ← memcpy shm 24 (m.msgid ++ [0]) (m.msgid.length + 1)
  memcpy shm 64 m.msgbdy m.msgbdy.length

/-- A text in a field of zeros. -/
def field (width : ℕ) (text : List UInt8) : List UInt8 :=
  text ++ List.replicate (width - text.length) 0

/-- The bytes of the message. -/
def bytes : List UInt8 :=
  leBytes 8 (64 + m.msgbdy.length) ++ field 16 m.host ++ field 40 m.msgid ++ m.msgbdy

end Message

/-- What a call of `effuse` returns: `-1`, or `0` with the size of the body and the body. -/
inductive Effused
  | failed
  | returned (msgbdysize : ℕ) (msgbdy : List UInt8)
  deriving DecidableEq, Repr

/-- The size and the body that `effuse` copies, and `none` where it reads beyond the end. -/
def effuseCopy (shm : List UInt8) : Option Effused := do
  let msgbdysize := (leValue (shm.take 8) + (2 ^ 64 - 64)) % 2 ^ 64
  let msgbdy ← memcpy (List.replicate msgbdysize 0) 0 (shm.drop 64) msgbdysize
  return .returned msgbdysize msgbdy

/-- The bytes that `send` may take when `length` are given: it gets them as an `int`, which becomes
a `size_t`, and the system takes at most `0x7ffff000` bytes at once. -/
def sendMax (length : ℕ) : ℕ := min (Int.bmod length (2 ^ 32) % 2 ^ 64).toNat 0x7ffff000

theorem sendMax_le (length : ℕ) : sendMax length ≤ length := by
  rw [sendMax, Int.bmod_def]
  split <;> omega

namespace Message

variable {m : Message}

theorem length_field {width : ℕ} {text : List UInt8} (h : text.length < width) :
    (field width text).length = width := by
  rw [field, List.length_append, List.length_replicate]
  omega

theorem length_bytes : m.bytes.length = 64 + m.msgbdy.length := by
  simp only [bytes, List.length_append, length_leBytes, length_field m.host_lt,
    length_field m.msgid_lt]

/-- Bytes in front of zeros. -/
private theorem memcpy_zeros (pre src : List UInt8) (rest : ℕ) :
    memcpy (pre ++ List.replicate (src.length + rest) 0) pre.length src src.length =
      some (pre ++ src ++ List.replicate rest 0) := by
  rw [memcpy_eq (by simp) le_rfl, List.take_left, List.take_length, List.drop_append,
    List.drop_of_length_le (Nat.le_add_right ..), List.nil_append, List.drop_replicate]
  congr 3
  omega

/-- A text and the zero behind it, in a field of zeros. -/
private theorem memcpy_text {src : List UInt8} {width : ℕ} (pre : List UInt8) (rest : ℕ)
    (hsrc : src.length < width) :
    memcpy (pre ++ List.replicate (width + rest) 0) pre.length (src ++ [0]) (src.length + 1) =
      some (pre ++ field width src ++ List.replicate rest 0) := by
  have hcopy := memcpy_zeros pre (src ++ [0]) (width - src.length - 1 + rest)
  have hlen : (src ++ [0]).length = src.length + 1 := List.length_append
  have hwidth : src.length + 1 + (width - src.length - 1 + rest) = width + rest := by omega
  have hfield : ([0] : List UInt8) ++ List.replicate (width - src.length - 1) 0 =
      List.replicate (width - src.length) 0 := by
    rw [List.singleton_append, ← List.replicate_succ]
    congr 1
    omega
  rw [hlen, hwidth] at hcopy
  rw [hcopy, ← List.replicate_append_replicate, field, ← hfield]
  simp only [List.append_assoc]

private theorem of_memcpy {dst src shm : List UInt8} {offset n : ℕ}
    (h : memcpy dst offset src n = some shm) : offset + n ≤ dst.length ∧ shm.length = dst.length := by
  rw [memcpy] at h
  split at h
  · rename_i hbounds
    cases h
    refine ⟨hbounds.1, ?_⟩
    simp only [List.length_append, List.length_take, List.length_drop]
    omega
  · cases h

/-- A message that `infuse` can write has a size that does not overflow, and its bytes are in the
segment. -/
theorem of_fill {shm : List UInt8} (h : m.fill = some shm) :
    64 + m.msgbdy.length < 2 ^ 64 ∧ m.shmsize = 64 + m.msgbdy.length ∧ shm = m.bytes := by
  obtain ⟨shm₁, h₁, h⟩ := Option.bind_eq_some_iff.mp h
  obtain ⟨shm₂, h₂, h⟩ := Option.bind_eq_some_iff.mp h
  obtain ⟨shm₃, h₃, h⟩ := Option.bind_eq_some_iff.mp h
  have hlen : 64 + m.msgbdy.length ≤ m.shmsize := by
    have hrequire : (Reader.segment m.shmsize).length = m.shmsize := List.length_replicate
    rw [← hrequire, ← (of_memcpy h₁).2, ← (of_memcpy h₂).2, ← (of_memcpy h₃).2]
    exact (of_memcpy h).1
  have hlt : 64 + m.msgbdy.length < 2 ^ 64 := by
    rw [shmsize] at hlen
    omega
  have hsize : m.shmsize = 64 + m.msgbdy.length := Nat.mod_eq_of_lt hlt
  refine ⟨hlt, hsize, ?_⟩
  have hzeros : Reader.segment m.shmsize =
      [] ++ List.replicate (8 + (16 + (40 + m.msgbdy.length))) 0 := by
    rw [hsize]
    exact congrArg (List.replicate · 0) (by omega)
  have hmsgsize := memcpy_zeros [] (leBytes 8 (64 + m.msgbdy.length)) (16 + (40 + m.msgbdy.length))
  rw [length_leBytes] at hmsgsize
  rw [hzeros, hsize] at h₁
  obtain rfl := Option.some.inj (h₁.symm.trans hmsgsize)
  have hhost := memcpy_text (leBytes 8 (64 + m.msgbdy.length)) (40 + m.msgbdy.length) m.host_lt
  rw [length_leBytes] at hhost
  obtain rfl := Option.some.inj (h₂.symm.trans hhost)
  have hmsgid := memcpy_text (leBytes 8 (64 + m.msgbdy.length) ++ field 16 m.host)
    m.msgbdy.length m.msgid_lt
  rw [List.length_append, length_leBytes, length_field m.host_lt] at hmsgid
  obtain rfl := Option.some.inj (h₃.symm.trans hmsgid)
  have hbody := memcpy_zeros (leBytes 8 (64 + m.msgbdy.length) ++ field 16 m.host ++
    field 40 m.msgid) m.msgbdy 0
  rw [List.length_append, List.length_append, length_leBytes, length_field m.host_lt,
    length_field m.msgid_lt] at hbody
  obtain rfl := Option.some.inj (h.symm.trans hbody)
  exact List.append_nil _

/-- `reader` frames the message by its first bytes. -/
theorem isMessage_bytes (h : 64 + m.msgbdy.length < 2 ^ 64) : IsMessage m.bytes where
  header := by
    rw [length_bytes]
    exact Nat.le_add_right ..
  msgsize := by
    have htake : m.bytes.take 8 = leBytes 8 (64 + m.msgbdy.length) := by
      rw [bytes, List.append_assoc, List.append_assoc, List.take_left' (length_leBytes ..)]
    rw [htake, leValue_leBytes, length_bytes]
    exact Nat.mod_eq_of_lt h

theorem msghdrMsgid_bytes : msghdrMsgid m.bytes = m.msgid := by
  have hmsgid := m.msgid_lt
  have hdrop : m.bytes.drop 24 = field 40 m.msgid ++ m.msgbdy := by
    rw [bytes, List.append_assoc, List.drop_left']
    rw [List.length_append, length_leBytes, length_field m.host_lt]
  have hzero : List.replicate (40 - m.msgid.length) (0 : UInt8) =
      0 :: List.replicate (39 - m.msgid.length) 0 := by
    rw [← List.replicate_succ]
    congr 1
    omega
  rw [msghdrMsgid, hdrop, field, hzero, List.append_assoc, List.takeWhile_append_of_pos,
    List.cons_append]
  · rw [List.takeWhile_cons_of_neg (by simp), List.append_nil]
  · intro b hb
    exact decide_eq_true fun h0 => m.msgid_ne_zero (h0 ▸ hb)

/-- `effuse` finds the size of the body and the body. -/
theorem effuseCopy_bytes (h : 64 + m.msgbdy.length < 2 ^ 64) :
    effuseCopy m.bytes = some (.returned m.msgbdy.length m.msgbdy) := by
  have hmsgsize := (isMessage_bytes h).msgsize
  rw [length_bytes] at hmsgsize
  have hsize : (leValue (m.bytes.take 8) + (2 ^ 64 - 64)) % 2 ^ 64 = m.msgbdy.length := by
    rw [hmsgsize]
    omega
  have hdrop : m.bytes.drop 64 = m.msgbdy := by
    rw [bytes, List.drop_left']
    rw [List.length_append, List.length_append, length_leBytes, length_field m.host_lt,
      length_field m.msgid_lt]
  rw [effuseCopy]
  simp only [hsize, hdrop]
  rw [memcpy_eq (by simp) le_rfl]
  simp

end Message

/-! ### Segments -/

/-- `nynn_token_t`. -/
structure NynnToken where
  shmid : ℕ
  size : ℕ
  host : UInt32
  deriving DecidableEq, Repr

/-- The segments that were made so far. -/
structure SharedMemory where
  made : ℕ
  nattch : ℕ → ℕ
  marked : ℕ → Bool
  contents : ℕ → List UInt8

namespace SharedMemory

variable (shm : SharedMemory) (i : ℕ)

def init : SharedMemory := ⟨0, fun _ => 0, fun _ => false, fun _ => []⟩

/-- A segment exists until it is marked and nobody is attached to it. -/
def Exists : Prop := i < shm.made ∧ ¬(shm.marked i = true ∧ shm.nattch i = 0)

instance : Decidable (shm.Exists i) := inferInstanceAs (Decidable (_ ∧ _))

/-- A new segment that somebody fills and is attached to. -/
def shmget (bytes : List UInt8) : SharedMemory :=
  { shm with
    made := shm.made + 1
    nattch := Function.update shm.nattch shm.made 1
    contents := Function.update shm.contents shm.made bytes }

/-- `shmat`, which fails when there is no such segment. -/
def shmat : SharedMemory :=
  { shm with
    nattch := if shm.Exists i then Function.update shm.nattch i (shm.nattch i + 1) else shm.nattch }

def shmdt : SharedMemory := { shm with nattch := Function.update shm.nattch i (shm.nattch i - 1) }

/-- `shmctl` with `IPC_RMID`. -/
def rmid : SharedMemory := { shm with marked := Function.update shm.marked i true }

/-- `nynn_shmrm`. -/
def shmrm : SharedMemory := if shm.nattch i ≠ 0 then shm else shm.rmid i

/-- Who reads a segment to which nobody is attached may find anything. -/
def Reads (bytes : List UInt8) : Prop := shm.nattch i ≠ 0 → bytes = shm.contents i

@[simp] theorem contents_shmdt : (shm.shmdt i).contents = shm.contents := rfl

end SharedMemory

/-! ### The state -/

/-- Where the `writer` is that has the lock of the links. -/
inductive Writing
  | locked (j : ℕ)
  /-- `link->wqueue.pop()` has returned. -/
  | popped (j : ℕ) (req : NynnToken)
  /-- The loop that sends; `size` bytes have been sent. -/
  | sending (j : ℕ) (req : NynnToken) (size : ℕ)
  deriving DecidableEq

/-- Where the `reader` is that has the lock of a link. -/
inductive Reading
  | locked
  /-- The inner loop, at the bytes `p` of a chunk of `size` bytes. -/
  | reading (p : List UInt8) (size : ℕ)
  /-- The inner loop, with a message that is complete. -/
  | handing (p : List UInt8) (size : ℕ)
  /-- After the inner loop. -/
  | finished (size : ℕ)
  deriving DecidableEq

/-- The bytes of the chunk for which the inner loop goes on. -/
def Reader.Turn.goesOn (t : Reader.Turn) : List UInt8 := if t.breaks then [] else t.rest

/-- The test of the inner loop. -/
def Reading.inner (p : List UInt8) (size : ℕ) : Reading :=
  if p = [] then finished size else reading p size

/-- What has happened to the messages, by the segment of each. -/
structure History where
  /-- What `infuse` was called with. -/
  infused : ℕ → Option Message
  /-- Pushed on the queue of the link. -/
  pushed : ℕ → List ℕ
  /-- Taken off the link by the `reader`. -/
  taken : ℕ → List ℕ
  /-- Pushed on the queue of the hose. -/
  reached : ℕ → List ℕ
  /-- Popped from the queue of the hose for a call of `effuse`. -/
  popped : ℕ → List ℕ
  /-- What the call of `effuse` has returned that got the message. -/
  effused : ℕ → Option Effused

/-- The messages of a host. `C` are the taps, each with a `wresponder` and an `rresponder`, and `K`
the threads of the clients. -/
structure Holdings (C K : Type) where
  shm : SharedMemory
  tokens : TokenPlace C K → List NynnToken
  hosemap : HoseMap (List UInt8)
  /-- Queues of hoses that were made so far. -/
  hosesMade : ℕ
  /-- What `hoses.get` has returned to the thread that has the message. -/
  rqueue : ℕ → Option ℕ
  history : History

namespace Holdings

variable {C K : Type} (s : Holdings C K)

def init : Holdings C K where
  shm := .init
  tokens _ := []
  hosemap _ := none
  hosesMade := 0
  rqueue _ := none
  history := ⟨fun _ => none, fun _ => [], fun _ => [], fun _ => [], fun _ => [], fun _ => none⟩

def setShm (shm : SharedMemory) : Holdings C K := { s with shm := shm }

section Tokens

variable [DecidableEq C] [DecidableEq K]

def put (p : TokenPlace C K) (t : NynnToken) : Holdings C K :=
  { s with tokens := Custody.put s.tokens p t }

/-- The first token of the place is gone. -/
def drop (p : TokenPlace C K) : Holdings C K := { s with tokens := Custody.take s.tokens p }

def move (p q : TokenPlace C K) (t : NynnToken) : Holdings C K := (s.drop p).put q t

end Tokens

def setRqueue (i : ℕ) (rqueue : Option ℕ) : Holdings C K :=
  { s with rqueue := Function.update s.rqueue i rqueue }

/-- `hoses.add(msgid)`. -/
def addHose (msgid : List UInt8) : Holdings C K :=
  { s with
    hosemap := (s.hosemap.add s.hosesMade msgid).2
    hosesMade := s.hosesMade + if s.hosemap.get msgid = none then 1 else 0 }

def setHistory (history : History) : Holdings C K := { s with history := history }

def recordInfused (i : ℕ) (m : Message) : Holdings C K :=
  s.setHistory { s.history with infused := Function.update s.history.infused i (some m) }

def recordPushed (j i : ℕ) : Holdings C K :=
  s.setHistory { s.history with pushed := Custody.put s.history.pushed j i }

def recordTaken (l i : ℕ) : Holdings C K :=
  s.setHistory { s.history with taken := Custody.put s.history.taken l i }

def recordReached (q i : ℕ) : Holdings C K :=
  s.setHistory { s.history with reached := Custody.put s.history.reached q i }

def recordPopped (q i : ℕ) : Holdings C K :=
  s.setHistory { s.history with popped := Custody.put s.history.popped q i }

def recordEffused (i : ℕ) (result : Effused) : Holdings C K :=
  s.setHistory { s.history with effused := Function.update s.history.effused i (some result) }

@[simp] theorem tokens_setShm {shm : SharedMemory} : (s.setShm shm).tokens = s.tokens := rfl

@[simp] theorem shm_setShm {shm : SharedMemory} : (s.setShm shm).shm = shm := rfl

@[simp] theorem history_setShm {shm : SharedMemory} : (s.setShm shm).history = s.history := rfl

@[simp] theorem tokens_setRqueue {i : ℕ} {rqueue : Option ℕ} :
    (s.setRqueue i rqueue).tokens = s.tokens := rfl

@[simp] theorem tokens_recordInfused {i : ℕ} {m : Message} :
    (s.recordInfused i m).tokens = s.tokens := rfl

@[simp] theorem tokens_recordPushed {j i : ℕ} : (s.recordPushed j i).tokens = s.tokens := rfl

@[simp] theorem tokens_recordTaken {l i : ℕ} : (s.recordTaken l i).tokens = s.tokens := rfl

@[simp] theorem tokens_recordReached {q i : ℕ} : (s.recordReached q i).tokens = s.tokens := rfl

@[simp] theorem tokens_recordPopped {q i : ℕ} : (s.recordPopped q i).tokens = s.tokens := rfl

@[simp] theorem tokens_recordEffused {i : ℕ} {result : Effused} :
    (s.recordEffused i result).tokens = s.tokens := rfl

@[simp] theorem reached_recordReached {q i : ℕ} :
    (s.recordReached q i).history.reached = Custody.put s.history.reached q i := rfl

@[simp] theorem popped_recordReached {q i : ℕ} :
    (s.recordReached q i).history.popped = s.history.popped := rfl

@[simp] theorem reached_recordPopped {q i : ℕ} :
    (s.recordPopped q i).history.reached = s.history.reached := rfl

@[simp] theorem popped_recordPopped {q i : ℕ} :
    (s.recordPopped q i).history.popped = Custody.put s.history.popped q i := rfl

section Tokens

variable [DecidableEq C] [DecidableEq K] {t : NynnToken} {p q r : TokenPlace C K}

@[simp] theorem history_move : (s.move p q t).history = s.history := rfl

@[simp] theorem shm_move : (s.move p q t).shm = s.shm := rfl

@[simp] theorem history_drop : (s.drop p).history = s.history := rfl

@[simp] theorem shm_drop : (s.drop p).shm = s.shm := rfl

theorem put_of_ne (hp : r ≠ p) : (s.put p t).tokens r = s.tokens r := Custody.put_of_ne hp

theorem drop_of_ne (hp : r ≠ p) : (s.drop p).tokens r = s.tokens r := Custody.take_of_ne hp

theorem move_of_ne (hp : r ≠ p) (hq : r ≠ q) : (s.move p q t).tokens r = s.tokens r :=
  (Custody.put_of_ne hq).trans (Custody.take_of_ne hp)

theorem move_source (hpq : p ≠ q) : (s.move p q t).tokens p = (s.tokens p).tail :=
  (Custody.put_of_ne hpq).trans Custody.take_self

theorem move_target (hpq : q ≠ p) : (s.move p q t).tokens q = s.tokens q ++ [t] :=
  Custody.put_self.trans (congrArg (· ++ [t]) (Custody.take_of_ne hpq))

end Tokens

end Holdings

/-- A host: its messages and its threads. `R` and `W` are the readers and the writers. -/
structure Node (C K R W : Type) extends Holdings C K where
  rresponder : C → Consumer (List UInt8)
  /-- `nynn_tap_t::rlock`. -/
  tapLock : C → Option K
  /-- The `rresponder` has been sent a request for a token. -/
  requested : C → Bool
  wtaskQueue : List ℕ
  rtaskQueue : List ℕ
  /-- The link of the task that the thread has. -/
  writer : W → Option ℕ
  reader : R → Option ℕ
  /-- `links->wlock`. -/
  wlock : Option (W × Writing)
  /-- `links[i].rlock`. -/
  rlock : ℕ → Option (R × Reading)
  cachedfragment : ℕ → Option Fragment

namespace Node

variable {C K R W : Type} (s : Node C K R W)

def init : Node C K R W where
  toHoldings := .init
  rresponder _ := .idle
  tapLock _ := none
  requested _ := false
  wtaskQueue := []
  rtaskQueue := []
  writer _ := none
  reader _ := none
  wlock := none
  rlock _ := none
  cachedfragment _ := none

def hold (holdings : Holdings C K) : Node C K R W := { s with toHoldings := holdings }

def setRresponder [DecidableEq C] (c : C) (phase : Consumer (List UInt8)) : Node C K R W :=
  { s with rresponder := Function.update s.rresponder c phase }

def setTap [DecidableEq C] (c : C) (lock : Option K) (requested : Bool) : Node C K R W :=
  { s with
    tapLock := Function.update s.tapLock c lock
    requested := Function.update s.requested c requested }

def setWtasks (wtaskQueue : List ℕ) : Node C K R W := { s with wtaskQueue := wtaskQueue }

def setRtasks (rtaskQueue : List ℕ) : Node C K R W := { s with rtaskQueue := rtaskQueue }

def setWriter [DecidableEq W] (w : W) (task : Option ℕ) : Node C K R W :=
  { s with writer := Function.update s.writer w task }

def setReader [DecidableEq R] (r : R) (task : Option ℕ) : Node C K R W :=
  { s with reader := Function.update s.reader r task }

def setWlock (wlock : Option (W × Writing)) : Node C K R W := { s with wlock := wlock }

def setRlock (i : ℕ) (rlock : Option (R × Reading)) : Node C K R W :=
  { s with rlock := Function.update s.rlock i rlock }

def setCached (i : ℕ) (cached : Option Fragment) : Node C K R W :=
  { s with cachedfragment := Function.update s.cachedfragment i cached }

@[simp] theorem toHoldings_hold {holdings : Holdings C K} :
    (s.hold holdings).toHoldings = holdings := rfl

@[simp] theorem tapLock_hold {holdings : Holdings C K} :
    (s.hold holdings).tapLock = s.tapLock := rfl

@[simp] theorem requested_hold {holdings : Holdings C K} :
    (s.hold holdings).requested = s.requested := rfl

@[simp] theorem toHoldings_setTap [DecidableEq C] {c : C} {lock : Option K} {requested : Bool} :
    (s.setTap c lock requested).toHoldings = s.toHoldings := rfl

@[simp] theorem toHoldings_setWlock {wlock : Option (W × Writing)} :
    (s.setWlock wlock).toHoldings = s.toHoldings := rfl

@[simp] theorem toHoldings_setRlock {i : ℕ} {rlock : Option (R × Reading)} :
    (s.setRlock i rlock).toHoldings = s.toHoldings := rfl

@[simp] theorem toHoldings_setCached {i : ℕ} {cached : Option Fragment} :
    (s.setCached i cached).toHoldings = s.toHoldings := rfl

/-- The thread of a client is in no call. -/
def Idle (k : K) : Prop :=
  (∀ c, s.tapLock c ≠ some k) ∧ s.tokens (.inl (.filling k)) = [] ∧
    s.tokens (.inl (.unsent k)) = [] ∧ s.tokens (.inl (.received k)) = [] ∧
      s.tokens (.inl (.reading k)) = []

/-- The `wresponder` or the `reader` has no message at hand. -/
def Waiting (p : C ⊕ ℕ) : Prop :=
  s.tokens (.inl (.attached p)) = [] ∧ s.tokens (.inl (.found p)) = [] ∧
    s.tokens (.inl (.released p)) = [] ∧
      ∀ c, p = .inl c → s.tokens (.inl (.attachedRemote c)) = []

end Node

/-! ### The steps -/

inductive NodeEvent (C K R W : Type)
  | infuse (k : K) (m : Message) (host : UInt32)
  | shmdt (k : K)
  | send (k : K) (c : C)
  | sendFails (k : K)
  | requireLocal (c : C)
  | requireRemote (c : C)
  | get (p : C ⊕ ℕ)
  | release (p : C ⊕ ℕ)
  | push (p : C ⊕ ℕ)
  | shmrm (p : C ⊕ ℕ)
  | route (c : C)
  | pollIn (i : ℕ)
  | pollOut (j : ℕ)
  | wtask (w : W)
  | busy (w : W)
  | trylock (w : W)
  | empty (w : W)
  | write (w : W)
  | delayclean (w : W)
  | transmit (w : W) (j : ℕ) (bytes : List UInt8)
  | unlock (w : W)
  | rtask (r : R)
  | lock (r : R)
  | again (r : R)
  | recv (r : R) (i : ℕ) (chunk : List UInt8)
  | turn (r : R) (memory : Fin 8 → UInt8)
  | next (r : R)
  | loop (r : R)
  | register (c : C) (msgid : List UInt8)
  | add (c : C)
  | serve (c : C)
  | effuse (k : K) (c : C)
  | pop (c : C)
  | reply (c : C)
  | receive (k : K) (c : C)
  | shmat (k : K)
  | shmatFails (k : K)
  | finish (k : K)

section Steps

variable {C K R W : Type} [DecidableEq C] [DecidableEq K] [DecidableEq R] [DecidableEq W]
  (config : DaemonConfig) (shmmax : ℕ)

/-- The steps of the clients and of the threads of the daemon. What a `writer` sends and a `reader`
receives is in the event. -/
inductive NodeStep : Node C K R W → NodeEvent C K R W → Node C K R W → Prop
  | infuse {s : Node C K R W} {k : K} {m : Message} {host : UInt32} {bytes : List UInt8}
      (hidle : s.Idle k) (hmax : m.shmsize ≤ shmmax) (hfill : m.fill = some bytes) :
      NodeStep s (.infuse k m host)
        (s.hold (((s.setShm (s.shm.shmget bytes)).put (.inl (.filling k))
          ⟨s.shm.made, m.shmsize, host⟩).recordInfused s.shm.made m))
  | shmdt {s : Node C K R W} {k : K} {t : NynnToken} (h : s.tokens (.inl (.filling k)) = [t]) :
      NodeStep s (.shmdt k)
        (s.hold ((s.setShm (s.shm.shmdt t.shmid)).move (.inl (.filling k)) (.inl (.unsent k)) t))
  | send {s : Node C K R W} {k : K} {c : C} {t : NynnToken}
      (h : s.tokens (.inl (.unsent k)) = [t]) :
      NodeStep s (.send k c) (s.hold (s.move (.inl (.unsent k)) (.inl (.wsocket c)) t))
  /-- `infuse` returns `-1`. -/
  | sendFails {s : Node C K R W} {k : K} {t : NynnToken} (h : s.tokens (.inl (.unsent k)) = [t]) :
      NodeStep s (.sendFails k) (s.hold (s.drop (.inl (.unsent k))))
  | requireLocal {s : Node C K R W} {c : C} {t : NynnToken} {ts : List NynnToken}
      (hwait : s.Waiting (.inl c)) (h : s.tokens (.inl (.wsocket c)) = t :: ts)
      (hlocal : config.isLocal t.host = true) :
      NodeStep s (.requireLocal c)
        (s.hold ((s.setShm (s.shm.shmat t.shmid)).move (.inl (.wsocket c))
          (.inl (.attached (.inl c))) t))
  | requireRemote {s : Node C K R W} {c : C} {t : NynnToken} {ts : List NynnToken}
      (hwait : s.Waiting (.inl c)) (h : s.tokens (.inl (.wsocket c)) = t :: ts)
      (hlocal : config.isLocal t.host = false) :
      NodeStep s (.requireRemote c)
        (s.hold ((s.setShm ((s.shm.shmat t.shmid).rmid t.shmid)).move (.inl (.wsocket c))
          (.inl (.attachedRemote c)) t))
  | get {s : Node C K R W} {p : C ⊕ ℕ} {t : NynnToken} {bytes : List UInt8}
      (h : s.tokens (.inl (.attached p)) = [t]) (hbytes : s.shm.Reads t.shmid bytes) :
      NodeStep s (.get p)
        (s.hold ((s.setRqueue t.shmid (s.hosemap.get (msghdrMsgid bytes))).move
          (.inl (.attached p)) (.inl (.found p)) t))
  | release {s : Node C K R W} {p : C ⊕ ℕ} {t : NynnToken}
      (h : s.tokens (.inl (.found p)) = [t]) :
      NodeStep s (.release p)
        (s.hold ((s.setShm (s.shm.shmdt t.shmid)).move (.inl (.found p)) (.inl (.released p)) t))
  | push {s : Node C K R W} {p : C ⊕ ℕ} {t : NynnToken} {q : ℕ}
      (h : s.tokens (.inl (.released p)) = [t]) (hq : s.rqueue t.shmid = some q) :
      NodeStep s (.push p)
        (s.hold ((s.move (.inl (.released p)) (.inr q) t).recordReached q t.shmid))
  | shmrm {s : Node C K R W} {p : C ⊕ ℕ} {t : NynnToken}
      (h : s.tokens (.inl (.released p)) = [t]) (hq : s.rqueue t.shmid = none) :
      NodeStep s (.shmrm p)
        (s.hold ((s.setShm (s.shm.shmrm t.shmid)).drop (.inl (.released p))))
  | route {s : Node C K R W} {c : C} {t : NynnToken}
      (h : s.tokens (.inl (.attachedRemote c)) = [t])
      (hlink : config.linkIndex t.host < config.linkaddrs.length) :
      NodeStep s (.route c)
        (s.hold ((s.move (.inl (.attachedRemote c)) (.inl (.wqueue (config.linkIndex t.host)))
          t).recordPushed (config.linkIndex t.host) t.shmid))
  /-- The host is in no link. -/
  | routeNowhere {s : Node C K R W} {c : C} {t : NynnToken}
      (h : s.tokens (.inl (.attachedRemote c)) = [t])
      (hlink : ¬config.linkIndex t.host < config.linkaddrs.length) :
      NodeStep s (.route c) (s.hold (s.drop (.inl (.attachedRemote c))))
  /-- `EPOLLIN`. -/
  | pollIn {s : Node C K R W} {i : ℕ} : NodeStep s (.pollIn i) (s.setRtasks (s.rtaskQueue ++ [i]))
  /-- `EPOLLOUT`. -/
  | pollOut {s : Node C K R W} {j : ℕ} (h : s.tokens (.inl (.wqueue j)) ≠ []) :
      NodeStep s (.pollOut j) (s.setWtasks (s.wtaskQueue ++ [j]))
  | wtask {s : Node C K R W} {w : W} {j : ℕ} {tasks : List ℕ} (hw : s.writer w = none)
      (h : s.wtaskQueue = j :: tasks) :
      NodeStep s (.wtask w) ((s.setWtasks tasks).setWriter w (some j))
  /-- `EBUSY`. -/
  | busy {s : Node C K R W} {w w' : W} {j : ℕ} {phase : Writing} (hw : s.writer w = some j)
      (hlock : s.wlock = some (w', phase)) (hne : w' ≠ w) :
      NodeStep s (.busy w) (s.setWriter w none)
  | trylock {s : Node C K R W} {w : W} {j : ℕ} (hw : s.writer w = some j) (hlock : s.wlock = none) :
      NodeStep s (.trylock w) (s.setWlock (some (w, .locked j)))
  | empty {s : Node C K R W} {w : W} {j : ℕ} (hlock : s.wlock = some (w, .locked j))
      (h : s.tokens (.inl (.wqueue j)) = []) :
      NodeStep s (.empty w) ((s.setWlock none).setWriter w none)
  | write {s : Node C K R W} {w : W} {j : ℕ} {t : NynnToken} {ts : List NynnToken}
      (hlock : s.wlock = some (w, .locked j)) (h : s.tokens (.inl (.wqueue j)) = t :: ts) :
      NodeStep s (.write w)
        ((s.hold (s.move (.inl (.wqueue j)) (.inl .writing) t)).setWlock (some (w, .popped j t)))
  | delayclean {s : Node C K R W} {w : W} {j : ℕ} {t : NynnToken}
      (hlock : s.wlock = some (w, .popped j t)) (hnull : s.tokens (.inl .delaycleaned) = []) :
      NodeStep s (.delayclean w)
        ((s.hold (s.move (.inl .writing) (.inl .delaycleaned) t)).setWlock
          (some (w, .sending j t 0)))
  | delaycleanRelease {s : Node C K R W} {w : W} {j : ℕ} {t d : NynnToken}
      (hlock : s.wlock = some (w, .popped j t)) (hold : s.tokens (.inl .delaycleaned) = [d]) :
      NodeStep s (.delayclean w)
        ((s.hold (((s.setShm (s.shm.shmdt d.shmid)).drop (.inl .delaycleaned)).move (.inl .writing)
          (.inl .delaycleaned) t)).setWlock (some (w, .sending j t 0)))
  /-- `send` takes some bytes, or none with `EAGAIN`. What lies `beyond` the segment is anything. -/
  | transmit {s : Node C K R W} {w : W} {j size : ℕ} {t : NynnToken}
      {shm beyond bytes : List UInt8} (hlock : s.wlock = some (w, .sending j t size))
      (hloop : size = 0 ∨ size < t.size) (hshm : s.shm.Reads t.shmid shm)
      (hlen : bytes.length ≤ sendMax (t.size - size)) (hbytes : bytes <+: shm.drop size ++ beyond) :
      NodeStep s (.transmit w j bytes) (s.setWlock (some (w, .sending j t (size + bytes.length))))
  | unlock {s : Node C K R W} {w : W} {j size : ℕ} {t : NynnToken}
      (hlock : s.wlock = some (w, .sending j t size)) (hsize : t.size ≤ size) :
      NodeStep s (.unlock w) ((s.setWlock none).setWriter w none)
  | rtask {s : Node C K R W} {r : R} {i : ℕ} {tasks : List ℕ} (hr : s.reader r = none)
      (h : s.rtaskQueue = i :: tasks) :
      NodeStep s (.rtask r) ((s.setRtasks tasks).setReader r (some i))
  | lock {s : Node C K R W} {r : R} {i : ℕ} (hr : s.reader r = some i) (hlock : s.rlock i = none) :
      NodeStep s (.lock r) (s.setRlock i (some (r, .locked)))
  /-- `EAGAIN` ends the loop. -/
  | again {s : Node C K R W} {r : R} {i : ℕ} (hlock : s.rlock i = some (r, .locked)) :
      NodeStep s (.again r) ((s.setRlock i none).setReader r none)
  | recv {s : Node C K R W} {r : R} {i : ℕ} {chunk : List UInt8}
      (hlock : s.rlock i = some (r, .locked)) (hpos : 0 < chunk.length)
      (hlen : chunk.length ≤ 65536) :
      NodeStep s (.recv r i chunk) (s.setRlock i (some (r, .reading chunk chunk.length)))
  /-- A turn that gets no segment ends the daemon: it has no step. -/
  | turn {s : Node C K R W} {r : R} {i size : ℕ} {p : List UInt8} {memory : Fin 8 → UInt8}
      {g : ℕ → Bool} {t : Reader.Turn} (hlock : s.rlock i = some (r, .reading p size))
      (hturn : Reader.turn memory g (s.cachedfragment i) p = .ok t) (hhanded : t.handed = none) :
      NodeStep s (.turn r memory)
        ((s.setRlock i (some (r, .inner t.goesOn size))).setCached i t.cached)
  | turnHanded {s : Node C K R W} {r : R} {i size : ℕ} {p : List UInt8} {memory : Fin 8 → UInt8}
      {g : ℕ → Bool} {t : Reader.Turn} {f : Fragment} (hlock : s.rlock i = some (r, .reading p size))
      (hturn : Reader.turn memory g (s.cachedfragment i) p = .ok t) (hhanded : t.handed = some f) :
      NodeStep s (.turn r memory)
        (((s.hold (((s.setShm (s.shm.shmget f.shm)).put (.inl (.attached (.inr i)))
          ⟨s.shm.made, f.size, 0⟩).recordTaken i s.shm.made)).setRlock i
            (some (r, .handing t.goesOn size))).setCached i t.cached)
  | next {s : Node C K R W} {r : R} {i size : ℕ} {p : List UInt8}
      (hlock : s.rlock i = some (r, .handing p size)) (hwait : s.Waiting (.inr i)) :
      NodeStep s (.next r) (s.setRlock i (some (r, .inner p size)))
  | loop {s : Node C K R W} {r : R} {i : ℕ} (hlock : s.rlock i = some (r, .finished 65536)) :
      NodeStep s (.loop r) (s.setRlock i (some (r, .locked)))
  | loopEnds {s : Node C K R W} {r : R} {i size : ℕ} (hlock : s.rlock i = some (r, .finished size))
      (hsize : size ≠ 65536) : NodeStep s (.loop r) ((s.setRlock i none).setReader r none)
  | register {s : Node C K R W} {c : C} {msgid : List UInt8} (h : s.rresponder c = .idle)
      (hlen : msgid.length < 40) :
      NodeStep s (.register c msgid)
        (s.setRresponder c (if s.hosemap.get msgid = none then .checked msgid else .ended))
  | add {s : Node C K R W} {c : C} {msgid : List UInt8} (h : s.rresponder c = .checked msgid) :
      NodeStep s (.add c)
        ((s.hold (s.addHose msgid)).setRresponder c
          (.added msgid (s.hosemap.add s.hosesMade msgid).1))
  | serve {s : Node C K R W} {c : C} {msgid : List UInt8} {q : ℕ}
      (h : s.rresponder c = .added msgid q) :
      NodeStep s (.serve c) (s.setRresponder c (.serving msgid q))
  | effuse {s : Node C K R W} {k : K} {c : C} (hidle : s.Idle k) (hlock : s.tapLock c = none) :
      NodeStep s (.effuse k c) (s.setTap c (some k) true)
  | pop {s : Node C K R W} {c : C} {msgid : List UInt8} {q : ℕ} {t : NynnToken}
      {ts : List NynnToken} (h : s.rresponder c = .serving msgid q)
      (hrequested : s.requested c = true) (hpopped : s.tokens (.inl (.popped c)) = [])
      (hq : s.tokens (.inr q) = t :: ts) :
      NodeStep s (.pop c)
        ((s.hold ((s.move (.inr q) (.inl (.popped c)) t).recordPopped q t.shmid)).setTap c
          (s.tapLock c) false)
  | reply {s : Node C K R W} {c : C} {t : NynnToken} (h : s.tokens (.inl (.popped c)) = [t]) :
      NodeStep s (.reply c) (s.hold (s.move (.inl (.popped c)) (.inl (.rsocket c)) t))
  | receive {s : Node C K R W} {k : K} {c : C} {t : NynnToken} {ts : List NynnToken}
      (hlock : s.tapLock c = some k) (h : s.tokens (.inl (.rsocket c)) = t :: ts) :
      NodeStep s (.receive k c)
        ((s.hold (s.move (.inl (.rsocket c)) (.inl (.received k)) t)).setTap c none
          (s.requested c))
  | shmat {s : Node C K R W} {k : K} {t : NynnToken} (h : s.tokens (.inl (.received k)) = [t])
      (hexists : s.shm.Exists t.shmid) :
      NodeStep s (.shmat k)
        (s.hold ((s.setShm ((s.shm.shmat t.shmid).rmid t.shmid)).move (.inl (.received k))
          (.inl (.reading k)) t))
  /-- `effuse` returns `-1`. -/
  | shmatFails {s : Node C K R W} {k : K} {t : NynnToken}
      (h : s.tokens (.inl (.received k)) = [t]) (hexists : ¬s.shm.Exists t.shmid) :
      NodeStep s (.shmatFails k)
        (s.hold ((s.drop (.inl (.received k))).recordEffused t.shmid .failed))
  | finish {s : Node C K R W} {k : K} {t : NynnToken} {bytes : List UInt8} {result : Effused}
      (h : s.tokens (.inl (.reading k)) = [t]) (hbytes : s.shm.Reads t.shmid bytes)
      (hcopy : effuseCopy bytes = some result) :
      NodeStep s (.finish k)
        (s.hold (((s.setShm (s.shm.shmdt t.shmid)).drop (.inl (.reading k))).recordEffused t.shmid
          result))

end Steps

end Nynn
