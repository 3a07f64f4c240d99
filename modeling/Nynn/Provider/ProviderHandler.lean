import Nynn.Producer.VertexLocks
import Nynn.Rpc.Connections
import Nynn.Storage.SubgraphSet
import Nynn.Storage.TableStore

/-!
# The handler of a provider

The methods of a provider on its subgraphs. A storage object is known by the directory that it was
opened on. When the directory is removed, the object goes on with the files that it has mapped, and
a directory that is made anew has other files; so the files are told apart by the directory and by
how often it was removed before.

What the operating system answers to a call, and whether a lock is granted, is an argument of the
call. A call that blocks has not been served yet.

Source: `ProviderDaemon.cpp`, `nynn_mm_subgraph_set.h`.

## Main definitions

* `Nynn.ProviderState`: the subgraphs of a provider and their files.
* `Nynn.ProviderHandler.call`, `Nynn.ProviderHandler.handler`: the methods and the handler.
* `Nynn.blockAt`, `Nynn.Block.toVector`: blocks in vectors of bytes.
-/

namespace Nynn

open Program

variable {c : Config}

/-! ### The state -/

/-- A provider, with the files of its subgraphs. -/
structure ProviderState (c : Config) where
  set : SubgraphSet
  /-- How often a directory was removed. -/
  removals : List Char → ℕ
  /-- How often the directory of an attached subgraph had been removed when it was opened. -/
  opened : UInt32 → ℕ
  /-- What is in the files of a directory, zeros before they are formatted, with the table of the
  storage object on them. The table of files that were there before is the one that the object makes
  when it is opened. -/
  files : List Char × ℕ → Storage c (Overflow c)

/-- Why a call has no answer: a fault that is not an exception, or a loop that does not end. -/
inductive CallFault
  | fault (e : Fault)
  | endless

/-- Programs of a provider. -/
abbrev ProviderM (c : Config) : Type → Type := Prog (ProviderState c) CallFault

/-- What the operating system answers to a call, and what becomes of a lock. -/
structure CallEnv where
  create : CreateEnv
  attach : AttachEnv
  /-- `system` can run `rm -fr`. -/
  system : Bool
  /-- `rm -fr` removes the directory. -/
  removes : Bool
  disk : CreateOutcome
  /-- An attempt that does not wait is granted. -/
  granted : Bool
  /-- The lock can be released. -/
  released : Bool

section Programs

variable {α : Type}

def onSet (p : SubgraphSetM α) : ProviderM c α :=
  ⟨fun s => ((p.run s.set).1.mapError .fault, { s with set := (p.run s.set).2 })⟩

def onFiles (inode : List Char × ℕ) (p : StorageM c (Overflow c) α) : ProviderM c α :=
  ⟨fun s => ((p.run (s.files inode)).1.mapError .fault,
    { s with files := Function.update s.files inode (p.run (s.files inode)).2 })⟩

/-- What is done with the storage that `getSubgraph` returns. -/
def onSubgraph (vtxno : UInt32) (p : StorageM c (Overflow c) α) : ProviderM c α := do
  let subgraph ← onSet (getSubgraph c vtxno)
  let s ← Prog.get
  onFiles (subgraph.basedir, s.opened (subgraphKey c vtxno)) p

/-- `catch(NynnException &ex){return false;}` -/
def caught (p : ProviderM c Unit) : ProviderM c Bool :=
  ⟨fun s => match p.run s with
    | (.ok (), s') => (.ok true, s')
    | (.error (.fault (.exception _)), s') => (.ok false, s')
    | (.error e, s') => (.error e, s')⟩

/-- A loop that has not ended when it has met more blocks than there are does not end. -/
def ended (p : ProviderM c (Option α)) : ProviderM c α := do
  match ← p with
  | some a => pure a
  | none => Prog.fail .endless

end Programs

/-! ### Vectors of bytes -/

/-- The block at the beginning of a vector, as `reinterpret_cast<Block*>` has it. -/
def blockAt (z : BlockSz) (xblk : List Int8) : Option (Block z) :=
  if h : z.bytes ≤ xblk.length then some fun i => (xblk.get ⟨i, i.isLt.trans_le h⟩).toUInt8
  else none

/-- The bytes of a block in a vector. -/
def Block.toVector {z : BlockSz} (blk : Block z) : List Int8 := List.ofFn fun i => (blk i).toInt8

@[simp] theorem Block.length_toVector {z : BlockSz} (blk : Block z) :
    blk.toVector.length = z.bytes := List.length_ofFn

/-- The provider after the directory of a subgraph was removed. -/
def ProviderState.remove (s : ProviderState c) (path : List Char) : ProviderState c where
  set := { s.set with
    paths := s.set.paths.filter (· ≠ path)
    dir := Function.update s.set.dir path ⟨false, false, false⟩ }
  removals := Function.update s.removals path (s.removals path + 1)
  opened := s.opened
  files := Function.update s.files (path, s.removals path + 1) (Storage.zeros (Overflow.empty c))

/-- The keys of `m_subgraphMap` in their order. -/
def ProviderState.keys (s : ProviderState c) : List UInt32 :=
  ((List.range UInt32.size).map UInt32.ofNat).filter fun key => (s.set.subgraphMap key).isSome

/-! #### The places of three arguments -/

theorem first_of_three : 0 < 3 := Nat.zero_lt_succ 2

theorem second_of_three : 1 < 3 := Nat.one_lt_succ_succ 1

theorem third_of_three : 2 < 3 := Nat.lt_succ_self 2

namespace ProviderHandler

/-- `createSubgraph`, with the files that it formats. -/
def createSubgraph (env : CreateEnv) (key : UInt32) : ProviderM c Unit := do
  onSet (Nynn.createSubgraph c env key)
  let s ← Prog.get
  let path := makeSubgraphPath c s.set.basedir key
  let (r, formatted) := format (Overflow.empty c) (makeSubgraphKey path)
  Prog.modify fun s =>
    { s with files := Function.update s.files (path, s.removals path) formatted }
  match r with
  | .ok () => pure ()
  | .error _ => Prog.fail (.fault (.exception "Fail to format a new Subgraph!"))

/-- `destroySubgraph`: nobody looks at what `rm` returns. -/
def destroySubgraph (env : CallEnv) (key : UInt32) : ProviderM c Unit := do
  let s ← Prog.get
  let path := makeSubgraphPath c s.set.basedir key
  if env.system then
    Prog.modify fun s => if env.removes then s.remove path else s
  else
    Prog.fail (.fault (.exception
      ("Fail to excecute 'rm -fr " ++ String.ofList path ++ "' by invoking 'system'!")))

/-- `attachSubgraph`, with the files that a new storage object maps. -/
def attachSubgraph (env : AttachEnv) (key : UInt32) : ProviderM c Unit := do
  let s ← Prog.get
  onSet (Nynn.attachSubgraph c env key)
  if s.set.subgraphMap key = none then
    Prog.modify fun s =>
      let path := makeSubgraphPath c s.set.basedir key
      { s with opened := Function.update s.opened key (s.removals path) }

/-- A method that reads a number of a vertex. -/
def number (vtxno : Int32) (get : UInt32 → StorageM c (Overflow c) UInt32) : ProviderM c Int32 := do
  let n ← onSubgraph vtxno.toUInt32 (get vtxno.toUInt32)
  pure n.toInt32

/-- A method that inserts the block at the beginning of a vector. -/
def inserted (vtxno : Int32) (xblk : List Int8)
    (insert : UInt32 → Block c.blockSz → StorageM c (Overflow c) UInt32) : ProviderM c Int32 := do
  let blkno ← onSubgraph vtxno.toUInt32 (match blockAt c.blockSz xblk with
    | some blk => insert vtxno.toUInt32 blk
    | none => Prog.fail .outOfRange)
  pure blkno.toInt32

/-- A method that removes a block. -/
def removed (vtxno : Int32) (remove : UInt32 → StorageM c (Overflow c) Unit) : ProviderM c Bool :=
  caught (onSubgraph vtxno.toUInt32 (remove vtxno.toUInt32))

variable (rounds : ℕ) (env : CallEnv)

/-- The methods. The numbers of a call come without sign to the subgraphs, and `rounds` is more than
the number of blocks of any list. -/
def call : (m : ProviderMethod) → TProtocol.Values m.params → ProviderM c m.ret.Value
  | .createSubgraph, args =>
    caught (createSubgraph env.create (args ⟨0, Nat.zero_lt_one⟩).toUInt32)
  | .destroySubgraph, args => caught (destroySubgraph env (args ⟨0, Nat.zero_lt_one⟩).toUInt32)
  | .attachSubgraph, args =>
    caught (attachSubgraph env.attach (args ⟨0, Nat.zero_lt_one⟩).toUInt32)
  | .detachSubgraph, args =>
    caught (onSet (Nynn.detachSubgraph (args ⟨0, Nat.zero_lt_one⟩).toUInt32))
  | .getSubgraphKeys, _ => do
    let s ← Prog.get
    pure (s.keys.map UInt32.toInt32)
  | .getWidthOfVertexInterval, _ => pure (UInt32.ofNat c.vertexIntervalWidth).toInt32
  | .lock, args => pure (match lockAttempt (args ⟨1, Nat.one_lt_two⟩).toUInt32 with
    | .trywrlock | .tryrdlock => env.granted
    | .wrlock | .rdlock => true)
  | .unlock, _ => caught (if env.released then pure ()
    else Prog.fail (.fault (.exception "Fail to unlock vertex!")))
  | .getSize, args => number (args ⟨0, Nat.zero_lt_one⟩) getSize
  | .getHeadBlkno, args => number (args ⟨0, Nat.zero_lt_one⟩) getHeadBlkno
  | .getTailBlkno, args => number (args ⟨0, Nat.zero_lt_one⟩) getTailBlkno
  | .readAllBlknos, args => do
    let blknos ← ended (onSubgraph (args ⟨0, Nat.zero_lt_one⟩).toUInt32
      (readAllBlknos rounds (args ⟨0, Nat.zero_lt_one⟩).toUInt32))
    pure (blknos.map UInt32.toInt32)
  | .read, args => do
    let blk ← onSubgraph (args ⟨0, Nat.zero_lt_two⟩).toUInt32
      (read (args ⟨0, Nat.zero_lt_two⟩).toUInt32 (args ⟨1, Nat.one_lt_two⟩).toUInt32)
    pure blk.toVector
  | .readn, args => do
    let blks ← ended (onSubgraph (args ⟨0, first_of_three⟩).toUInt32
      (readn rounds (args ⟨0, first_of_three⟩).toUInt32
        (args ⟨1, second_of_three⟩).toUInt32 (args ⟨2, third_of_three⟩)))
    pure (blks.flatMap Block.toVector)
  | .insertPrev, args =>
    inserted (args ⟨0, first_of_three⟩) (args ⟨2, third_of_three⟩) fun vtxno blk =>
      insertPrev env.disk vtxno (args ⟨1, second_of_three⟩).toUInt32 blk
  | .insertNext, args =>
    inserted (args ⟨0, first_of_three⟩) (args ⟨2, third_of_three⟩) fun vtxno blk =>
      insertNext env.disk vtxno (args ⟨1, second_of_three⟩).toUInt32 blk
  | .remove, args =>
    removed (args ⟨0, Nat.zero_lt_two⟩) fun vtxno =>
      remove vtxno (args ⟨1, Nat.one_lt_two⟩).toUInt32
  | .unshift, args =>
    inserted (args ⟨0, Nat.zero_lt_two⟩) (args ⟨1, Nat.one_lt_two⟩) (unshift env.disk)
  | .shift, args => removed (args ⟨0, Nat.zero_lt_one⟩) shift
  | .push, args =>
    inserted (args ⟨0, Nat.zero_lt_two⟩) (args ⟨1, Nat.one_lt_two⟩) (push env.disk)
  | .pop, args => removed (args ⟨0, Nat.zero_lt_one⟩) pop

/-- The handler of the service; the state counts the calls. A call without an answer is here one
with an exception that has no text. -/
def handler (env : ℕ → CallEnv) : Handler providerService (ℕ × ProviderState c) := fun call s =>
  match (ProviderHandler.call rounds (env s.1) call.method call.args).run s.2 with
  | (.ok a, s') => (.ok a, s.1 + 1, s')
  | (.error (.fault (.exception what)), s') => (.error what, s.1 + 1, s')
  | (.error _, s') => (.error "", s.1 + 1, s')

end ProviderHandler

end Nynn
