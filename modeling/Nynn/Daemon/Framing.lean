import Nynn.Library.LittleEndian
import Nynn.Library.Messages

/-!
# The fragments of a message

The peer of a link sends messages one after the other, and the `reader` gets them in chunks that end
anywhere. What it has of a message that is not complete is in `links[i].cachedfragment`: in a buffer
of `sizeof(size_t)` bytes as long as the size of the message is not known, and in a segment of this
size afterwards. A turn of the inner loop ends the fragment or the chunk.

A message that is complete is handed over to the hose of its message id, a string that ends at the
first zero byte. Where there is no segment for a message the reader closes the socket, and the
daemon exits.

The sizes are below `2 ^ 64`, and so are their sums, since the chunk and the segment are in one
memory.

Source: `reader` in `nynn_daemon.cpp`, `nynn_msg_t` in `nynn.h`, `link_t` in `nynn_daemon.h`.

## Main definitions

* `Nynn.Fragment`: the token in `cachedfragment`.
* `Nynn.Reader.turn`, `Nynn.Reader.readChunk`: a turn of the inner loop, and the loop.
* `Nynn.ReaderEnd`: the ways in which the reader comes to an end.
* `Nynn.IsMessage`: the bytes begin with their own number and have a header.
* `Nynn.IsNamed`: the message id ends within the message.

## Main results

* `Nynn.readChunks_frames`: however the messages are cut, the reader hands them over, up to the first
  one that it gets no segment for.
-/

namespace Nynn

open LittleEndian Messages

/-! ### The loop -/

/-- The token in `cachedfragment`: `shm` is the buffer or the segment, and `size` bytes of it have
been received. -/
structure Fragment where
  size : ℕ
  shm : List UInt8
  deriving DecidableEq, Repr

/-- `memcpy(dst + offset, src, n)`, and `none` where it leaves `dst` or `src`. -/
def memcpy (dst : List UInt8) (offset : ℕ) (src : List UInt8) (n : ℕ) : Option (List UInt8) :=
  if offset + n ≤ dst.length ∧ n ≤ src.length then
    some (dst.take offset ++ src.take n ++ dst.drop (offset + n))
  else none

theorem memcpy_eq {dst src : List UInt8} {offset n : ℕ} (hdst : offset + n ≤ dst.length)
    (hsrc : n ≤ src.length) :
    memcpy dst offset src n = some (dst.take offset ++ src.take n ++ dst.drop (offset + n)) :=
  if_pos ⟨hdst, hsrc⟩

/-- The bytes begin with their own number, and they have a header. -/
structure IsMessage (m : List UInt8) : Prop where
  header : 64 ≤ m.length
  msgsize : leValue (m.take 8) = m.length

/-- `msg->msghdr.msgid`, the string in the header. -/
def msghdrMsgid (shm : List UInt8) : List UInt8 := (shm.drop 24).takeWhile (· ≠ 0)

/-- The message id ends within the message. -/
def IsNamed (m : List UInt8) : Prop := 0 ∈ m.drop 24

/-- How the reader comes to an end. -/
inductive ReaderEnd
  /-- A copy leaves the bytes that it is for. -/
  | overrun
  /-- There is no segment: the socket is closed, and the daemon exits. -/
  | exit
  /-- No turns are left. -/
  | fuel
  deriving DecidableEq, Repr

namespace Reader

/-- What a turn of the inner loop leaves: `cachedfragment`, the bytes from `p` to the end of the
chunk, the token that it hands over, and whether it ends with a `break`. -/
structure Turn where
  cached : Option Fragment
  rest : List UInt8
  handed : Option Fragment
  breaks : Bool

/-- A new segment. -/
def segment (msgsize : ℕ) : List UInt8 := List.replicate msgsize 0

/-- `shmmgr->require(-1, ..)`: a new segment, where one of the size is granted. -/
def require (grants : ℕ → Bool) (msgsize : ℕ) : Except ReaderEnd (List UInt8) :=
  if grants msgsize then .ok (segment msgsize) else .error .exit

/-- A `memcpy` of the reader. -/
def copy (dst : List UInt8) (offset : ℕ) (src : List UInt8) (n : ℕ) :
    Except ReaderEnd (List UInt8) :=
  (memcpy dst offset src n).elim (.error .overrun) .ok

/-- `hoses.get(msg->msghdr.msgid)`, which makes a string of the bytes up to the first zero. -/
def getKey (shm : List UInt8) : Except ReaderEnd (List UInt8) :=
  if 0 ∈ shm.drop 24 then .ok (msghdrMsgid shm) else .error .overrun

/-- A turn when `cachedfragment` is `NULL`. The new buffer has the contents `memory`. -/
def fresh (memory : Fin 8 → UInt8) (grants : ℕ → Bool) (p : List UInt8) :
    Except ReaderEnd Turn :=
  let s := p.length
  if s < 8 then do
    let shm ← copy (List.ofFn memory) 0 p s
    return ⟨some ⟨s, shm⟩, p, none, true⟩
  else do
    let msgsize := leValue (p.take 8)
    let shm ← require grants msgsize
    let size := if s < msgsize then s else msgsize
    let shm ← copy shm 0 p size
    if msgsize = size then do
      let _ ← getKey shm
      return ⟨none, p.drop size, some ⟨size, shm⟩, false⟩
    else return ⟨some ⟨size, shm⟩, p.drop size, none, true⟩

/-- The size of the message is complete, and the buffer is changed for a segment. -/
def changeBuffer (grants : ℕ → Bool) (cached : Fragment) (p : List UInt8) :
    Except ReaderEnd (Fragment × List UInt8) := do
  let s1 := 8 - cached.size
  let shm ← copy cached.shm cached.size p s1
  let msgsize := leValue (shm.take 8)
  let shm ← require grants msgsize
  let shm ← copy shm 0 (leBytes 8 msgsize) 8
  return (⟨8, shm⟩, p.drop s1)

/-- `handle incomplete msg`: a turn when `cachedfragment` is a segment. -/
def complete (cached : Fragment) (p : List UInt8) : Except ReaderEnd Turn := do
  let s := p.length
  let msgsize := leValue (cached.shm.take 8)
  let fragsize := cached.size
  let remainsize := msgsize - fragsize
  if remainsize ≤ s then
    let shm ← copy cached.shm fragsize p remainsize
    let _ ← getKey shm
    return ⟨none, p.drop remainsize, some ⟨msgsize, shm⟩, false⟩
  else
    let shm ← copy cached.shm fragsize p s
    return ⟨some ⟨fragsize + s, shm⟩, p, none, true⟩

/-- A turn when `cachedfragment` is not `NULL`. -/
def continued (grants : ℕ → Bool) (cached : Fragment) (p : List UInt8) : Except ReaderEnd Turn :=
  let fragsize := cached.size
  let s := p.length
  if fragsize + s < 8 then do
    let shm ← copy cached.shm fragsize p s
    return ⟨some ⟨fragsize + s, shm⟩, p, none, true⟩
  else if fragsize < 8 ∧ 8 ≤ fragsize + s then do
    let (cached, p) ← changeBuffer grants cached p
    complete cached p
  else complete cached p

/-- A turn of the inner loop, which asks for one segment at most. -/
def turn (memory : Fin 8 → UInt8) (grants : ℕ → Bool) (cached : Option Fragment)
    (p : List UInt8) : Except ReaderEnd Turn :=
  match cached with
  | none => fresh memory grants p
  | some cached => continued grants cached p

/-- The inner loop on a chunk, in at most `fuel` turns: `cachedfragment`, and the tokens that are
handed over. A segment is granted by its size and by the bytes that are left of the chunk when it is
asked for. -/
def readChunk (memory : Fin 8 → UInt8) (grants : ℕ → ℕ → Bool) :
    ℕ → Option Fragment → List UInt8 → Except ReaderEnd (Option Fragment) × List Fragment
  | 0, _, _ => (.error .fuel, [])
  | fuel + 1, cached, p =>
    match turn memory (grants p.length) cached p with
    | .error e => (.error e, [])
    | .ok t =>
      if t.breaks = false ∧ 0 < t.rest.length then
        let (cached, handed) := readChunk memory grants fuel t.cached t.rest
        (cached, t.handed.toList ++ handed)
      else (.ok t.cached, t.handed.toList)

/-- What the reader gets: a chunk, the contents of a new buffer if it allocates one, and the
segments that it is granted. -/
structure Received where
  chunk : List UInt8
  memory : Fin 8 → UInt8
  grants : ℕ → ℕ → Bool

/-- The loop over the chunks. -/
def readChunks (fuel : ℕ) :
    Option Fragment → List Received → Except ReaderEnd (Option Fragment) × List Fragment
  | cached, [] => (.ok cached, [])
  | cached, r :: received =>
    match readChunk r.memory r.grants fuel cached r.chunk with
    | (.error e, handed) => (.error e, handed)
    | (.ok cached, handed) =>
      let (cached, more) := readChunks fuel cached received
      (cached, handed ++ more)

/-! ### What the reader gets and hands over -/

/-- The token of a message that is handed over. -/
def ofMessage (m : List UInt8) : Fragment := ⟨m.length, m⟩

/-- **The messages and the fragment.** Of the messages, whose first bytes have been received, the
complete ones have been handed over, byte for byte and in order. `cachedfragment` is `NULL` on the
boundaries of messages, and otherwise it has the bytes of the message that is not complete. -/
structure Frames (msgs : List (List UInt8)) (bytes : List UInt8) (cached : Option Fragment)
    (handed : List Fragment) : Prop where
  complete : ∃ done rest q, msgs = done ++ rest ∧ bytes = done.flatten ++ q ∧ Begun q rest ∧
    handed = done.map ofMessage ∧ ∀ f ∈ cached, f.size = q.length ∧ f.shm.take f.size = q
  null : cached = none ↔ ∃ k, bytes = (msgs.take k).flatten
  all : bytes = msgs.flatten → handed = msgs.map ofMessage

/-- **The end.** The messages before one that got no segment have been handed over. -/
def Exits (msgs : List (List UInt8)) (received : List Received) (handed : List Fragment) : Prop :=
  ∃ done m rest, msgs = done ++ m :: rest ∧ handed = done.map ofMessage ∧
    ∃ r ∈ received, ∃ left, r.grants left m.length = false

/-- `cachedfragment` holds the bytes `q` of the first of the messages to come. -/
inductive Holds : Option Fragment → List UInt8 → List (List UInt8) → Prop
  | null {rest : List (List UInt8)} : Holds none [] rest
  | fragment {cached : Fragment} {q m : List UInt8} {rest : List (List UInt8)}
      (hsize : cached.size = q.length) (hshm : cached.shm.take q.length = q)
      (hcapacity : cached.shm.length = if q.length < 8 then 8 else m.length)
      (hq : q <+: m) (hpos : 0 < q.length) (hlt : q.length < m.length) :
      Holds (some cached) q (m :: rest)

/-! ### Copies -/

variable (memory : Fin 8 → UInt8) {grants : ℕ → Bool} {cached : Fragment} {m q p : List UInt8}
  {rest : List (List UInt8)}

theorem copy_eq {dst src : List UInt8} {offset n : ℕ} (hdst : offset + n ≤ dst.length)
    (hsrc : n ≤ src.length) :
    copy dst offset src n = .ok (dst.take offset ++ src.take n ++ dst.drop (offset + n)) := by
  rw [copy, memcpy_eq hdst hsrc]
  rfl

theorem require_eq {msgsize : ℕ} (h : grants msgsize = true) :
    require grants msgsize = .ok (segment msgsize) := if_pos h

theorem require_error {msgsize : ℕ} (h : grants msgsize = false) :
    require grants msgsize = .error .exit := if_neg (h ▸ Bool.false_ne_true)

/-- The bytes `q` that are in `shm`, and `n` bytes of the chunk behind them. -/
private theorem copy_cached {shm : List UInt8} {n : ℕ} (hshm : shm.take q.length = q)
    (hdst : q.length + n ≤ shm.length) (hn : n ≤ p.length) :
    copy shm q.length p n = .ok (q ++ p.take n ++ shm.drop (q.length + n)) := by
  rw [copy_eq hdst hn, hshm]

private theorem msgsize_of_prefix (hm : IsMessage m) (hq : q <+: m) (h8 : 8 ≤ q.length) :
    leValue (q.take 8) = m.length := by
  rw [← hm.msgsize]
  obtain ⟨r, rfl⟩ := hq
  rw [List.take_append_of_le_length h8]

/-- A fragment of the first bytes of a message. -/
private theorem holds_mk {shm tail : List UInt8} (hshm : shm = q ++ tail)
    (hcapacity : shm.length = if q.length < 8 then 8 else m.length) (hq : q <+: m)
    (hpos : 0 < q.length) (hlt : q.length < m.length) :
    Holds (some ⟨q.length, shm⟩) q (m :: rest) :=
  .fragment rfl (by rw [hshm, List.take_left]) hcapacity hq hpos hlt

/-! ### The message is complete -/

private theorem fresh_complete (hm : IsMessage m) (hgrants : grants m.length = true)
    (hp : m <+: p) :
    fresh memory grants p = do
      let _ ← getKey m
      return ⟨none, p.drop m.length, some ⟨m.length, m⟩, false⟩ := by
  obtain ⟨p', rfl⟩ := hp
  have hheader := hm.header
  have hlen : (m ++ p').length = m.length + p'.length := List.length_append
  have hmsgsize : leValue ((m ++ p').take 8) = m.length := by
    rw [List.take_append_of_le_length (by omega), hm.msgsize]
  have hsize : (if (m ++ p').length < m.length then (m ++ p').length else m.length) = m.length :=
    if_neg (by omega)
  have hcopy : copy (segment m.length) 0 (m ++ p') m.length = .ok m := by
    rw [copy_eq (by simp [segment]) (by omega)]
    simp [segment]
  rw [fresh, if_neg (by omega)]
  simp only [hmsgsize, require_eq hgrants]
  change (copy (segment m.length) 0 (m ++ p') _ >>= _) = _
  simp only [hsize, hcopy]
  rfl

private theorem complete_complete (hm : IsMessage m) (hsize : cached.size = q.length)
    (hshm : cached.shm.take q.length = q) (hcapacity : cached.shm.length = m.length)
    (h8 : 8 ≤ q.length) (hq : q <+: m) (hp : m <+: q ++ p) :
    complete cached p = do
      let _ ← getKey m
      return ⟨none, (q ++ p).drop m.length, some ⟨m.length, m⟩, false⟩ := by
  have hqm := hq.length_le
  have hpm : m.length ≤ q.length + p.length := by simpa using hp.length_le
  have hmsgsize : leValue (cached.shm.take 8) = m.length := by
    rw [← msgsize_of_prefix hm hq h8, ← hshm, List.take_take, min_eq_left h8]
  have hcopy : copy cached.shm q.length p (m.length - q.length) = .ok m := by
    rw [copy_cached hshm (by omega) (by omega), List.drop_of_length_le (by omega),
      List.append_nil]
    have htake := List.prefix_iff_eq_take.mp hp
    rw [List.take_append, List.take_of_length_le hqm] at htake
    rw [← htake]
  have hrest : (q ++ p).drop m.length = p.drop (m.length - q.length) := by
    rw [List.drop_append, List.drop_of_length_le hqm, List.nil_append]
  rw [complete, hsize, hmsgsize, if_pos (by omega), hcopy, hrest]
  rfl

private theorem complete_partial (rest : List (List UInt8)) (hm : IsMessage m)
    (hsize : cached.size = q.length)
    (hshm : cached.shm.take q.length = q) (hcapacity : cached.shm.length = m.length)
    (h8 : 8 ≤ q.length) (hqp : q ++ p <+: m) (hlt : (q ++ p).length < m.length) :
    ∃ cached', complete cached p = .ok ⟨some cached', p, none, true⟩ ∧
      Holds (some cached') (q ++ p) (m :: rest) := by
  have hq : q <+: m := (List.prefix_append q p).trans hqp
  have hlen : (q ++ p).length = q.length + p.length := List.length_append
  have hmsgsize : leValue (cached.shm.take 8) = m.length := by
    rw [← msgsize_of_prefix hm hq h8, ← hshm, List.take_take, min_eq_left h8]
  have hcopy : copy cached.shm q.length p p.length =
      .ok (q ++ p ++ cached.shm.drop (q.length + p.length)) := by
    rw [copy_cached hshm (by omega) le_rfl, List.take_length]
  refine ⟨⟨q.length + p.length, q ++ p ++ cached.shm.drop (q.length + p.length)⟩, ?_, ?_⟩
  · rw [complete, hsize, hmsgsize, if_neg (by omega), hcopy]
    rfl
  · rw [← hlen]
    refine holds_mk rfl ?_ hqp (by omega) hlt
    rw [if_neg (by omega)]
    simp only [List.length_append, List.length_drop]
    omega

/-! ### The beginning of a message -/

private theorem fresh_partial (hm : IsMessage m)
    (hgrants : 8 ≤ p.length → grants m.length = true) (hp : p <+: m) (hpos : 0 < p.length)
    (hlt : p.length < m.length) :
    ∃ cached' p', fresh memory grants p = .ok ⟨some cached', p', none, true⟩ ∧
      Holds (some cached') p (m :: rest) := by
  by_cases h8 : p.length < 8
  · have hcopy : copy (List.ofFn memory) 0 p p.length =
        .ok (p ++ (List.ofFn memory).drop p.length) := by
      rw [copy_eq (by simp; omega) le_rfl]
      simp
    refine ⟨_, p, ?_, holds_mk (@rfl _ (p ++ (List.ofFn memory).drop p.length)) ?_ hp hpos hlt⟩
    · rw [fresh, if_pos h8, hcopy]
      rfl
    · rw [if_pos h8]
      simp
      omega
  · have hmsgsize : leValue (p.take 8) = m.length := msgsize_of_prefix hm hp (by omega)
    have hcopy : copy (segment m.length) 0 p p.length =
        .ok (p ++ (segment m.length).drop p.length) := by
      rw [copy_eq (by simp [segment]; omega) le_rfl]
      simp
    refine ⟨_, [], ?_, holds_mk (@rfl _ (p ++ (segment m.length).drop p.length)) ?_ hp hpos hlt⟩
    · rw [fresh, if_neg h8]
      simp only [hmsgsize, require_eq (hgrants (Nat.le_of_not_lt h8))]
      change (copy (segment m.length) 0 p _ >>= _) = _
      simp only [if_pos hlt, hcopy]
      change (if m.length = p.length then _ else _) = _
      rw [if_neg hlt.ne', List.drop_length]
      rfl
    · rw [if_neg h8]
      simp [segment]
      omega

/-- The size of the message is in the buffer. -/
private theorem copy_msgsize (hsize : cached.size = q.length)
    (hshm : cached.shm.take q.length = q) (hcapacity : cached.shm.length = 8)
    (h8 : q.length < 8) (hp : 8 ≤ q.length + p.length)
    (hqp : m.take 8 = (q ++ p).take 8) :
    copy cached.shm cached.size p (8 - cached.size) = .ok (m.take 8) := by
  have htake : (q ++ p).take 8 = q ++ p.take (8 - q.length) := by
    rw [List.take_append, List.take_of_length_le h8.le]
  rw [hsize, copy_cached hshm (by omega) (by omega), List.drop_of_length_le (by omega),
    List.append_nil, hqp, htake]

/-- The segment gets the size of the message. -/
private theorem changeBuffer_eq (hm : IsMessage m) (hgrants : grants m.length = true)
    (hsize : cached.size = q.length)
    (hshm : cached.shm.take q.length = q) (hcapacity : cached.shm.length = 8)
    (h8 : q.length < 8) (hp : 8 ≤ q.length + p.length)
    (hqp : m.take 8 = (q ++ p).take 8) :
    changeBuffer grants cached p = .ok (⟨8, m.take 8 ++ List.replicate (m.length - 8) 0⟩,
      p.drop (8 - q.length)) := by
  have hheader := hm.header
  have hbytes : leBytes 8 m.length = m.take 8 := by
    have hlen : (m.take 8).length = 8 := by simp; omega
    calc leBytes 8 m.length = leBytes (m.take 8).length (leValue (m.take 8)) := by
          rw [hlen, hm.msgsize]
      _ = m.take 8 := leBytes_leValue _
  have hsegment : copy (segment m.length) 0 (leBytes 8 m.length) 8 =
      .ok (m.take 8 ++ List.replicate (m.length - 8) 0) := by
    rw [copy_eq (by simp [segment]; omega) (by simp), hbytes]
    simp [segment]
  rw [changeBuffer, copy_msgsize hsize hshm hcapacity h8 hp hqp]
  change (require grants (leValue ((m.take 8).take 8)) >>= _) = _
  rw [List.take_take, min_self, hm.msgsize, require_eq hgrants]
  change (copy (segment m.length) 0 (leBytes 8 m.length) 8 >>= _) = _
  rw [hsegment, hsize]
  rfl

/-- There is no segment of the size. -/
private theorem changeBuffer_error (hm : IsMessage m) (hgrants : grants m.length = false)
    (hsize : cached.size = q.length)
    (hshm : cached.shm.take q.length = q) (hcapacity : cached.shm.length = 8)
    (h8 : q.length < 8) (hp : 8 ≤ q.length + p.length)
    (hqp : m.take 8 = (q ++ p).take 8) :
    changeBuffer grants cached p = .error .exit := by
  rw [changeBuffer, copy_msgsize hsize hshm hcapacity h8 hp hqp]
  change (require grants (leValue ((m.take 8).take 8)) >>= _) = _
  rw [List.take_take, min_self, hm.msgsize, require_error hgrants]
  rfl

/-- The segment has the size of the message, and the chunk goes on behind it. -/
private theorem changeBuffer_append (h8 : q.length < 8) (hqp : m.take 8 = (q ++ p).take 8) :
    m.take 8 ++ p.drop (8 - q.length) = q ++ p := by
  have hdrop : (q ++ p).drop 8 = p.drop (8 - q.length) := by
    rw [List.drop_append, List.drop_of_length_le h8.le, List.nil_append]
  rw [hqp, ← hdrop, List.take_append_drop]

/-! ### The turns -/

private theorem continued_complete (hm : IsMessage m) (h : Holds (some cached) q (m :: rest))
    (hgrants : q.length < 8 → grants m.length = true) (hp : m <+: q ++ p) :
    continued grants cached p = do
      let _ ← getKey m
      return ⟨none, (q ++ p).drop m.length, some ⟨m.length, m⟩, false⟩ := by
  cases h with | fragment hsize hshm hcapacity hq hpos hlt
  have hheader := hm.header
  have hpm : m.length ≤ q.length + p.length := by simpa using hp.length_le
  rw [continued, hsize, if_neg (by omega)]
  by_cases h8 : q.length < 8
  · rw [if_pos h8] at hcapacity
    have hqp : m.take 8 = (q ++ p).take 8 := by
      obtain ⟨r, hr⟩ := hp
      rw [← hr, List.take_append_of_le_length (by omega)]
    have happend := changeBuffer_append h8 hqp
    rw [if_pos ⟨h8, by omega⟩,
      changeBuffer_eq hm (hgrants h8) hsize hshm hcapacity h8 (by omega) hqp]
    rw [← happend] at hp ⊢
    have hlen : (m.take 8).length = 8 := by simp; omega
    refine complete_complete hm hlen.symm ?_ ?_ hlen.ge (List.take_prefix 8 m) hp
    · exact List.take_left
    · simp
      omega
  · rw [if_neg h8] at hcapacity
    rw [if_neg fun e => h8 e.1]
    exact complete_complete hm hsize hshm hcapacity (by omega) hq hp

private theorem continued_partial (hm : IsMessage m) (h : Holds (some cached) q (m :: rest))
    (hgrants : q.length < 8 → 8 ≤ (q ++ p).length → grants m.length = true)
    (hqp : q ++ p <+: m) (hlt : (q ++ p).length < m.length) :
    ∃ cached' p', continued grants cached p = .ok ⟨some cached', p', none, true⟩ ∧
      Holds (some cached') (q ++ p) (m :: rest) := by
  cases h with | fragment hsize hshm hcapacity hq hpos
  have hheader := hm.header
  have hlen : (q ++ p).length = q.length + p.length := List.length_append
  by_cases hs : q.length + p.length < 8
  · rw [if_pos (by omega)] at hcapacity
    have hcopy : copy cached.shm q.length p p.length =
        .ok (q ++ p ++ cached.shm.drop (q.length + p.length)) := by
      rw [copy_cached hshm (by omega) le_rfl, List.take_length]
    refine ⟨⟨(q ++ p).length, q ++ p ++ cached.shm.drop (q.length + p.length)⟩, p, ?_,
      holds_mk rfl ?_ hqp (by omega) hlt⟩
    · rw [continued, hsize, if_pos hs, hcopy, hlen]
      rfl
    · rw [if_pos (by omega)]
      simp only [List.length_append, List.length_drop]
      omega
  · rw [continued, hsize, if_neg hs]
    by_cases h8 : q.length < 8
    · rw [if_pos h8] at hcapacity
      have htake : m.take 8 = (q ++ p).take 8 := by
        obtain ⟨r, hr⟩ := hqp
        rw [← hr, List.take_append_of_le_length (by omega)]
      have happend := changeBuffer_append h8 htake
      rw [if_pos ⟨h8, by omega⟩, changeBuffer_eq hm (hgrants h8 (by omega)) hsize hshm hcapacity h8
        (by omega) htake]
      rw [← happend] at hqp hlt ⊢
      have hlen : (m.take 8).length = 8 := by simp; omega
      have hsize' : (⟨8, m.take 8 ++ List.replicate (m.length - 8) 0⟩ : Fragment).size =
          (m.take 8).length := hlen.symm
      obtain ⟨cached', heq, hholds⟩ := complete_partial rest hm hsize' List.take_left
        (by simp; omega) hlen.ge hqp hlt
      exact ⟨cached', _, heq, hholds⟩
    · rw [if_neg h8] at hcapacity
      rw [if_neg fun e => h8 e.1]
      obtain ⟨cached', heq, hholds⟩ :=
        complete_partial rest hm hsize hshm hcapacity (by omega) hqp hlt
      exact ⟨cached', _, heq, hholds⟩

/-- A turn that completes the message hands it over, with the key of its hose. -/
theorem turn_complete {cached : Option Fragment} (hm : IsMessage m)
    (h : Holds cached q (m :: rest)) (hgrants : q.length < 8 → grants m.length = true)
    (hp : m <+: q ++ p) :
    turn memory grants cached p = do
      let _ ← getKey m
      return ⟨none, (q ++ p).drop m.length, some ⟨m.length, m⟩, false⟩ := by
  cases cached with
  | none =>
    cases h
    exact fresh_complete memory hm (hgrants (Nat.zero_lt_succ 7)) hp
  | some cached => exact continued_complete hm h hgrants hp

/-- A turn that does not complete the message takes all bytes of the chunk. -/
theorem turn_partial {cached : Option Fragment} (hm : IsMessage m)
    (h : Holds cached q (m :: rest))
    (hgrants : q.length < 8 → 8 ≤ (q ++ p).length → grants m.length = true)
    (hpos : 0 < p.length) (hqp : q ++ p <+: m) (hlt : (q ++ p).length < m.length) :
    ∃ cached' p', turn memory grants cached p = .ok ⟨some cached', p', none, true⟩ ∧
      Holds (some cached') (q ++ p) (m :: rest) := by
  cases cached with
  | none =>
    cases h
    exact fresh_partial memory hm (hgrants (Nat.zero_lt_succ 7)) hqp hpos hlt
  | some cached => exact continued_partial hm h hgrants hqp hlt

/-- A turn that comes to the size of a message that there is no segment for. -/
theorem turn_exit {cached : Option Fragment} (hm : IsMessage m) (h : Holds cached q (m :: rest))
    (hgrants : grants m.length = false) (h8 : q.length < 8) (hp : 8 ≤ (q ++ p).length)
    (hqp : m.take 8 = (q ++ p).take 8) : turn memory grants cached p = .error .exit := by
  rw [List.length_append] at hp
  cases h with
  | null =>
    have hmsgsize : leValue (p.take 8) = m.length := by
      rw [← List.nil_append p, ← hqp, hm.msgsize]
    have hlen : ¬p.length < 8 := by
      rw [List.length_nil] at hp
      omega
    rw [turn, fresh, if_neg hlen]
    simp only [hmsgsize, require_error hgrants]
    rfl
  | fragment hsize hshm hcapacity hq hpos hlt =>
    rw [if_pos h8] at hcapacity
    rw [turn, continued, hsize, if_neg (by omega), if_pos ⟨h8, hp⟩,
      changeBuffer_error hm hgrants hsize hshm hcapacity h8 hp hqp]
    rfl

theorem Holds.begun {cached : Option Fragment} (h : Holds cached q rest) : Begun q rest := by
  cases h with
  | null => exact .nil
  | fragment _ _ _ hq _ hlt => exact .cons hq hlt

theorem Holds.eq_none_iff {cached : Option Fragment} (h : Holds cached q rest) :
    cached = none ↔ q = [] := by
  cases h with
  | null => exact iff_of_true rfl rfl
  | fragment _ _ _ _ hpos => exact iff_of_false nofun (List.ne_nil_of_length_pos hpos)

theorem getKey_eq (hm : IsNamed m) : getKey m = .ok (msghdrMsgid m) := if_pos hm

/-- **A chunk.** The reader hands over the messages that the chunk completes, and keeps the rest, or
it exits at a message that it gets no segment for. -/
theorem readChunk_eq {r : Received} {cached : Option Fragment} {fuel : ℕ} {later : List UInt8}
    (hrest : ∀ m ∈ rest, IsMessage m ∧ IsNamed m) (h : Holds cached q rest) (hpos : 0 < p.length)
    (hfuel : p.length ≤ fuel) (hbytes : q ++ p ++ later = rest.flatten) :
    (∃ done rest' q' cached', rest = done ++ rest' ∧ q ++ p = done.flatten ++ q' ∧
      readChunk r.memory r.grants fuel cached p = (.ok cached', done.map ofMessage) ∧
      Holds cached' q' rest') ∨
    ∃ handed, readChunk r.memory r.grants fuel cached p = (.error .exit, handed) ∧
      Exits rest [r] handed := by
  induction fuel generalizing cached q p rest with
  | zero => omega
  | succ fuel ih =>
    cases rest with
    | nil =>
      simp only [List.flatten_nil, List.append_eq_nil_iff] at hbytes
      simp [hbytes.1.2] at hpos
    | cons m rest =>
      obtain ⟨hm, hnamed⟩ := hrest m List.mem_cons_self
      by_cases hexit : q.length < 8 ∧ 8 ≤ (q ++ p).length ∧ r.grants p.length m.length = false
      · obtain ⟨h8, hp, hgrants⟩ := hexit
        have hqp : m.take 8 = (q ++ p).take 8 := by
          have htake := congrArg (List.take 8) hbytes
          rwa [List.take_append_of_le_length hp, List.flatten_cons,
            List.take_append_of_le_length ((show 8 ≤ 64 by omega).trans hm.header),
            eq_comm] at htake
        refine Or.inr ⟨[], ?_, [], m, rest, rfl, rfl, r, List.mem_cons_self, _, hgrants⟩
        rw [readChunk, turn_exit r.memory hm h hgrants h8 hp hqp]
      have hgrants : q.length < 8 → 8 ≤ (q ++ p).length → r.grants p.length m.length = true :=
        fun h8 hp => Bool.eq_true_of_not_eq_false fun hfalse => hexit ⟨h8, hp, hfalse⟩
      rcases begun_append hbytes with ⟨p', hqp, hp'⟩ | ⟨hqp, hlt⟩
      · have hlen := congrArg List.length hqp
        simp only [List.length_append] at hlen
        have hheader := hm.header
        have hturn := turn_complete r.memory hm h (fun h8 => hgrants h8 (by simp; omega))
          ⟨p', hqp.symm⟩
        rw [hqp, List.drop_left, getKey_eq hnamed] at hturn
        by_cases hnil : 0 < p'.length
        · have hlt : p'.length ≤ fuel := by
            have hq := h.begun.length_lt (by omega)
            omega
          have hread : readChunk r.memory r.grants (fuel + 1) cached p =
              ((readChunk r.memory r.grants fuel none p').1,
                ofMessage m :: (readChunk r.memory r.grants fuel none p').2) := by
            rw [readChunk, hturn]
            exact if_pos ⟨rfl, hnil⟩
          rcases ih (q := []) (fun m' hm' => hrest m' (List.mem_cons_of_mem _ hm')) .null hnil hlt hp'
            with ⟨done, rest', q', cached', rfl, hdone, hread', hholds⟩ |
              ⟨handed, hread', done, m', rest', rfl, rfl, hrefused⟩
          · refine Or.inl ⟨m :: done, rest', q', cached', rfl, ?_, ?_, hholds⟩
            · rw [hqp, List.flatten_cons, List.append_assoc, ← hdone, List.nil_append]
            · rw [hread, hread', List.map_cons]
          · refine Or.inr ⟨_, ?_, m :: done, m', rest', rfl, rfl, hrefused⟩
            rw [hread, hread', List.map_cons]
        · have hp'nil : p' = [] := List.eq_nil_of_length_eq_zero (by omega)
          subst hp'nil
          refine Or.inl ⟨[m], rest, [], none, rfl, by simpa using hqp, ?_, .null⟩
          rw [readChunk, hturn]
          rfl
      · obtain ⟨cached', p', hturn, hholds⟩ := turn_partial r.memory hm h hgrants hpos hqp hlt
        refine Or.inl ⟨[], m :: rest, q ++ p, cached', rfl, rfl, ?_, hholds⟩
        rw [readChunk, hturn]
        rfl

/-! ### Chunk after chunk -/

private theorem readChunks_eq {cached : Option Fragment} {fuel : ℕ} {received : List Received}
    {later : List UInt8} (hrest : ∀ m ∈ rest, IsMessage m ∧ IsNamed m) (h : Holds cached q rest)
    (hchunks : ∀ r ∈ received, 0 < r.chunk.length ∧ r.chunk.length ≤ fuel)
    (hbytes : q ++ (received.map (·.chunk)).flatten ++ later = rest.flatten) :
    (∃ done rest' q' cached', rest = done ++ rest' ∧
      q ++ (received.map (·.chunk)).flatten = done.flatten ++ q' ∧
      readChunks fuel cached received = (.ok cached', done.map ofMessage) ∧
      Holds cached' q' rest') ∨
    ∃ handed, readChunks fuel cached received = (.error .exit, handed) ∧
      Exits rest received handed := by
  induction received generalizing cached q rest with
  | nil => exact Or.inl ⟨[], rest, q, cached, rfl, by simp, rfl, h⟩
  | cons r received ih =>
    obtain ⟨hpos, hfuel⟩ := hchunks r List.mem_cons_self
    rw [List.map_cons, List.flatten_cons, ← List.append_assoc] at hbytes ⊢
    rcases readChunk_eq (r := r) hrest h hpos hfuel ((List.append_assoc ..).symm.trans hbytes) with
      ⟨done, rest₁, q₁, cached₁, rfl, hdone, hread, hholds⟩ |
        ⟨handed, hread, done, m, rest₁, rfl, rfl, r', hmem, hrefused⟩
    · rw [hdone, List.flatten_append, List.append_assoc, List.append_assoc,
        List.append_cancel_left_eq, ← List.append_assoc] at hbytes
      rcases ih (fun m hm => hrest m (List.mem_append_right _ hm)) hholds
          (fun r' hr' => hchunks r' (List.mem_cons_of_mem _ hr')) hbytes with
        ⟨more, rest₂, q₂, cached₂, rfl, hmore, hreads, hholds₂⟩ |
          ⟨handed, hreads, more, m, rest₂, rfl, rfl, r', hmem, hrefused⟩
      · refine Or.inl ⟨done ++ more, rest₂, q₂, cached₂, (List.append_assoc ..).symm, ?_, ?_,
          hholds₂⟩
        · rw [hdone, List.append_assoc, hmore, List.flatten_append, List.append_assoc]
        · rw [readChunks, hread]
          simp only [hreads, List.map_append]
      · refine Or.inr ⟨_, ?_, done ++ more, m, rest₂, (List.append_assoc ..).symm,
          List.map_append.symm, r', List.mem_cons_of_mem _ hmem, hrefused⟩
        rw [readChunks, hread]
        simp only [hreads]
    · obtain rfl := List.mem_singleton.mp hmem
      refine Or.inr ⟨_, ?_, done, m, rest₁, rfl, rfl, r', List.mem_cons_self, hrefused⟩
      rw [readChunks, hread]

end Reader

open Reader

/-- **Framing.** However a sequence of messages is cut into chunks, the reader hands over the
complete messages, and keeps the beginning of the next one; it copies no byte past the buffer or the
segment. If it gets no segment for a message it exits, and has handed over the messages before. -/
theorem readChunks_frames {msgs : List (List UInt8)} {received later : List Received} {fuel : ℕ}
    (hmsgs : ∀ m ∈ msgs, IsMessage m ∧ IsNamed m)
    (hcut : ((received ++ later).map (·.chunk)).flatten = msgs.flatten)
    (hchunks : ∀ r ∈ received ++ later, r.chunk ≠ [] ∧ r.chunk.length ≤ 65536)
    (hfuel : 65536 ≤ fuel) :
    (∃ cached handed, readChunks fuel none received = (.ok cached, handed) ∧
      Frames msgs (received.map (·.chunk)).flatten cached handed) ∨
    ∃ handed, readChunks fuel none received = (.error .exit, handed) ∧
      Exits msgs received handed := by
  rw [List.map_append, List.flatten_append] at hcut
  have hchunks' (r : Received) (hr : r ∈ received) : 0 < r.chunk.length ∧ r.chunk.length ≤ fuel := by
    obtain ⟨hne, hle⟩ := hchunks r (List.mem_append_left _ hr)
    exact ⟨List.length_pos_iff.mpr hne, hle.trans hfuel⟩
  refine (readChunks_eq (q := []) hmsgs .null hchunks' hcut).imp_left ?_
  rintro ⟨done, rest, q, cached, rfl, hbytes, hread, hholds⟩
  rw [List.nil_append] at hbytes
  have hnull : cached = none ↔ ∃ k,
      (received.map (·.chunk)).flatten = ((done ++ rest).take k).flatten := by
    rw [hholds.eq_none_iff, hholds.begun.eq_nil_iff done, hbytes]
  refine ⟨cached, _, hread, ⟨done, rest, q, rfl, hbytes, hholds.begun, rfl, ?_⟩, hnull, ?_⟩
  · rintro f ⟨⟩
    cases hholds with
    | fragment hsize hshm => exact ⟨hsize, hsize ▸ hshm⟩
  · intro hall
    have hq : q = [] := hholds.eq_none_iff.mp (hnull.mpr ⟨(done ++ rest).length, by
      rw [List.take_length, hall]⟩)
    rw [hbytes, hq, List.flatten_append, List.append_cancel_left_eq] at hall
    have hrest : rest = [] := by
      cases rest with
      | nil => rfl
      | cons m rest =>
        have hheader := (hmsgs m (by simp)).1.header
        rw [List.flatten_cons, eq_comm, List.append_eq_nil_iff] at hall
        simp [hall.1] at hheader
    rw [hrest, List.append_nil]

private def smallMessages : List (List UInt8) :=
  [leBytes 8 64 ++ List.replicate 56 0, leBytes 8 66 ++ List.replicate 58 0]

/-- The first chunk ends in a length field, and the second one has a message and a part of the next
length field. -/
private def smallReceived : List Received :=
  [⟨smallMessages.flatten.take 3, fun _ => 0, fun _ _ => true⟩,
    ⟨(smallMessages.flatten.drop 3).take 66, fun _ => 1, fun _ _ => true⟩]

private theorem smallMessages_isMessage : ∀ m ∈ smallMessages, IsMessage m ∧ IsNamed m :=
  List.forall_mem_cons.mpr ⟨⟨⟨by decide +kernel, by decide +kernel⟩, show _ ∈ _ by decide +kernel⟩,
    List.forall_mem_singleton.mpr
      ⟨⟨by decide +kernel, by decide +kernel⟩, show _ ∈ _ by decide +kernel⟩⟩

theorem readChunks_frames_small :
    ∃ cached handed, readChunks 65536 none smallReceived = (.ok cached, handed) ∧
      Frames smallMessages (smallReceived.map (·.chunk)).flatten cached handed := by
  refine (@readChunks_frames smallMessages smallReceived
    [⟨smallMessages.flatten.drop 69, fun _ => 2, fun _ _ => true⟩] 65536 smallMessages_isMessage
    (by decide +kernel) (by decide +kernel) le_rfl).resolve_right ?_
  rintro ⟨handed, -, done, m, rest, -, -, r, hmem, left, hrefused⟩
  have hall : ∀ r ∈ smallReceived, r.grants = fun _ _ => true := by simp [smallReceived]
  rw [hall r hmem] at hrefused
  cases hrefused

/-- A message of 66 bytes where segments have at most 65, and one whose message id does not end. -/
theorem readChunks_frames_false_of_refused :
    (¬∀ msgs received, (∀ m ∈ msgs, IsMessage m) →
      (received.map (·.chunk)).flatten = msgs.flatten →
      (∀ r ∈ received, r.chunk ≠ [] ∧ r.chunk.length ≤ 65536) →
      ∃ cached handed, readChunks 65536 none received = (.ok cached, handed) ∧
        Frames msgs msgs.flatten cached handed) ∧
    ¬∀ msgs received, (∀ m ∈ msgs, IsMessage m) →
      (received.map (·.chunk)).flatten = msgs.flatten →
      (∀ r ∈ received, r.chunk ≠ [] ∧ r.chunk.length ≤ 65536) →
      (∀ r ∈ received, ∀ left size, r.grants left size = true) →
      ∃ cached handed, readChunks 65536 none received = (.ok cached, handed) ∧
        Frames msgs msgs.flatten cached handed := by
  constructor
  · intro hall
    obtain ⟨cached, handed, hread, -⟩ := hall [leBytes 8 66 ++ List.replicate 58 0]
      [⟨leBytes 8 66 ++ List.replicate 58 0, fun _ => 0, fun _ size => decide (size ≤ 65)⟩]
      (List.forall_mem_singleton.mpr ⟨by decide +kernel, by decide +kernel⟩) rfl
      (by decide +kernel)
    have hexit : readChunks 65536 none
        [⟨leBytes 8 66 ++ List.replicate 58 0, fun _ => 0, fun _ size => decide (size ≤ 65)⟩] =
          (.error .exit, []) := by decide +kernel
    rw [hexit] at hread
    cases hread
  · intro hall
    obtain ⟨cached, handed, hread, -⟩ := hall [leBytes 8 64 ++ List.replicate 56 97]
      [⟨leBytes 8 64 ++ List.replicate 56 97, fun _ => 0, fun _ _ => true⟩]
      (List.forall_mem_singleton.mpr ⟨by decide +kernel, by decide +kernel⟩) rfl
      (by decide +kernel) (List.forall_mem_singleton.mpr fun _ _ => rfl)
    have hoverrun : readChunks 65536 none
        [⟨leBytes 8 64 ++ List.replicate 56 97, fun _ => 0, fun _ _ => true⟩] =
          (.error .overrun, []) := by decide +kernel
    rw [hoverrun] at hread
    cases hread

end Nynn
