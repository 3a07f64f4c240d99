import Nynn.Library.Hexadecimal
import Nynn.Library.Transition
import Nynn.Storage.VertexLists

/-!
# Attaching and detaching subgraphs

A provider keeps a map from subgraph keys to the storages of the attached subgraphs. The key of an
entry comes from a directory found at start-up or from a call, and an entry is absent, present
without a storage, or present with one. `attachSubgraph` opens a storage only for an absent entry.

The model takes what the operating system answers as an argument of a call. The storage objects
are told apart by the directory they were opened on.

Source: `nynn_mm_subgraph_set.h`, the constructor of `SubgraphStorageType` and `format` in
`nynn_mm_subgraph_storage.h`.

## Main definitions

* `Nynn.SubgraphSet`: the provider's map and the directories on the disk.
* `Nynn.SetOp`, `Nynn.SetRun`: the calls and the runs of a provider, with restarts.
* `Nynn.Served`: `getSubgraph` yields the storage in the directory of a subgraph.

## Main results

* `Nynn.makeSubgraphKey_makeSubgraphPath`: the key of a directory is read back.
* `Nynn.attachSubgraph_serves_iff`: when an attached subgraph is served until it is detached.
-/

namespace Nynn

open Program Transition

/-- The files of a subgraph in its directory. -/
structure SubgraphDir where
  superblock : Bool
  volume : Bool
  overflow : Bool
  deriving DecidableEq, Repr

/-- A storage object of an attached subgraph. -/
structure Subgraph where
  basedir : List Char
  deriving DecidableEq, Repr

/-- `SubgraphSetType`, with the directories below the base directory. -/
structure SubgraphSet where
  /-- `m_subgraphSetBasedir`. -/
  basedir : List Char
  /-- `m_subgraphMap`. -/
  subgraphMap : UInt32 → Option (Option Subgraph)
  /-- The paths of the directories on the disk. -/
  paths : List (List Char)
  /-- The files in a directory. -/
  dir : List Char → SubgraphDir

/-- Programs on a provider. -/
abbrev SubgraphSetM (α : Type) : Type := Prog SubgraphSet Fault α

/-! ### Paths -/

section Paths

variable (c : Config) (basedir : List Char)

/-- `makeSubgraphPath`. -/
def makeSubgraphPath (vtxno : UInt32) : List Char :=
  basedir ++ "/subgraph0x".toList ++ Hexadecimal.toHex 8 (subgraphKey c vtxno).toNat

/-- `makeSubgraphKey`: `strtoul` on the last ten characters, which start with `0x`. -/
def makeSubgraphKey (subgraphPath : List Char) : UInt32 :=
  UInt32.ofNat (Hexadecimal.ofHex
    ((subgraphPath.drop (subgraphPath.length - "0xabcd0000".length)).drop 2))

/-- The paths that match the pattern `/subgraph0x????????`. -/
def isSubgraphPath (path : List Char) : Bool :=
  path.length = basedir.length + 19 &&
    path.take (basedir.length + 11) = basedir ++ "/subgraph0x".toList

variable {c basedir}

@[simp] theorem subgraphKey_subgraphKey (v : UInt32) :
    subgraphKey c (subgraphKey c v) = subgraphKey c v := by
  rw [subgraphKey, subgraphKey, UInt32.and_assoc, UInt32.and_self]

/-- The path of the directory depends on the subgraph only. -/
@[simp] theorem makeSubgraphPath_subgraphKey (v : UInt32) :
    makeSubgraphPath c basedir (subgraphKey c v) = makeSubgraphPath c basedir v := by
  rw [makeSubgraphPath, subgraphKey_subgraphKey, makeSubgraphPath]

/-- **The key of a directory** is read back from its path. -/
theorem makeSubgraphKey_makeSubgraphPath (v : UInt32) :
    makeSubgraphKey (makeSubgraphPath c basedir v) = subgraphKey c v := by
  obtain ⟨hex, hhex⟩ : ∃ hex, hex = Hexadecimal.toHex 8 (subgraphKey c v).toNat := ⟨_, rfl⟩
  have hlen : hex.length = 8 := by rw [hhex, Hexadecimal.length_toHex]
  have hdrop : ((basedir ++ "/subgraph0x".toList ++ hex).drop
      ((basedir ++ "/subgraph0x".toList ++ hex).length - "0xabcd0000".length)).drop 2 = hex := by
    have hprefix : (basedir ++ "/subgraph0x".toList ++ hex).length - "0xabcd0000".length + 2 =
        (basedir ++ "/subgraph0x".toList).length := by
      rw [List.length_append, List.length_append, hlen]
      change basedir.length + 11 + 8 - 10 + 2 = basedir.length + 11
      omega
    rw [List.drop_drop, hprefix, List.drop_left]
  rw [makeSubgraphKey, makeSubgraphPath, ← hhex, hdrop, hhex,
    Hexadecimal.ofHex_toHex (subgraphKey c v).toNat_lt, UInt32.ofNat_toNat]

end Paths

/-! ### The calls -/

/-- An exception of a callee is replaced by one with another text. -/
def rethrow {α : Type} (what : String) (x : SubgraphSetM α) : SubgraphSetM α :=
  x.mapError fun _ => .exception what

/-- What the operating system answers to `createSubgraph`. -/
structure CreateEnv where
  system : Bool
  mkdirP : Bool
  superblock : CreateOutcome
  volume : CreateOutcome
  mkdir : Bool

/-- What the operating system answers to `attachSubgraph`, and whether the compiler evaluates
`m_subgraphMap[subgraphKey]` before the new storage. -/
structure AttachEnv where
  opens : Bool
  entryFirst : Bool

section Calls

variable (c : Config)

/-- Insert or replace an entry of `m_subgraphMap`. -/
def setEntry (subgraphKey : UInt32) (storage : Option Subgraph) : SubgraphSetM Unit :=
  Prog.modify fun s =>
    { s with subgraphMap := Function.update s.subgraphMap subgraphKey (some storage) }

/-- The constructor of `SubgraphSetType`: the directories that exist get entries without a
storage. -/
def construct (globFails : Bool) : SubgraphSetM Unit :=
  if globFails then Prog.fail (.exception "Fail to create Graph object")
  else
    Prog.modify fun s =>
      { s with
        subgraphMap := fun subgraphKey =>
          if s.paths.any fun path =>
              isSubgraphPath s.basedir path && makeSubgraphKey path == subgraphKey then some none
          else none }

/-- `MmapFile(path,size)` for a file of a new subgraph, told by the flag that says that the file
exists. -/
def createFile (disk : CreateOutcome) (path : List Char) (has : SubgraphDir → Bool)
    (add : SubgraphDir → SubgraphDir) : SubgraphSetM Unit := do
  let s ← Prog.get
  let create : SubgraphSetM Unit :=
    Prog.modify fun s => { s with dir := Function.update s.dir path (add (s.dir path)) }
  if path ∉ s.paths then Prog.fail (.exception "No such file or directory")
  else if has (s.dir path) then Prog.fail (.exception "File exists")
  else
    match disk with
    | .ok => create
    | .openFails errno => Prog.fail (.exception errno)
    | .writeFails errno | .laterCallFails errno => do
      create
      Prog.fail (.exception errno)

/-- The files that `SubgraphStorageType::format` makes. -/
def formatFiles (env : CreateEnv) (path : List Char) : SubgraphSetM Unit := do
  createFile env.superblock path SubgraphDir.superblock fun d => { d with superblock := true }
  createFile env.volume path SubgraphDir.volume fun d => { d with volume := true }
  createFile (if env.mkdir then .ok else .openFails "Permission denied") path SubgraphDir.overflow
    fun d => { d with overflow := true }

/-- `createSubgraph`. -/
def createSubgraph (env : CreateEnv) (subgraphKey : UInt32) : SubgraphSetM Unit := do
  let s ← Prog.get
  let subgraphBasedir := makeSubgraphPath c s.basedir subgraphKey
  if env.system then do
    Prog.modify fun s =>
      if env.mkdirP && subgraphBasedir ∉ s.paths then
        { s with paths := subgraphBasedir :: s.paths }
      else s
    rethrow "Fail to format a new Subgraph!" (formatFiles env subgraphBasedir)
  else
    Prog.fail (.exception ("Fail to excecute 'mkdir -p " ++ String.ofList subgraphBasedir ++
      "' by invoking 'system'!"))

/-- The constructor of `SubgraphStorageType` that opens the files of a directory. -/
def openStorage (opens : Bool) (basedir : List Char) : SubgraphSetM Subgraph := do
  let s ← Prog.get
  if opens && basedir ∈ s.paths && (s.dir basedir).superblock && (s.dir basedir).volume then
    pure ⟨basedir⟩
  else Prog.fail (.exception "Fail to construct SubgraphStorage object!")

/-- `attachSubgraph`. -/
def attachSubgraph (env : AttachEnv) (subgraphKey : UInt32) : SubgraphSetM Unit := do
  let s ← Prog.get
  let subgraphBasedir := makeSubgraphPath c s.basedir subgraphKey
  if s.subgraphMap subgraphKey = none then do
    (if env.entryFirst then setEntry subgraphKey none else pure ())
    let storage ← rethrow "Fail to attach specified subgraph"
      (openStorage env.opens subgraphBasedir)
    setEntry subgraphKey (some storage)
  else pure ()

/-- `detachSubgraph`. -/
def detachSubgraph (subgraphKey : UInt32) : SubgraphSetM Unit := do
  let s ← Prog.get
  if s.subgraphMap subgraphKey ≠ none then setEntry subgraphKey none
  else Prog.fail (.exception "The subgraph that would be detached is not found!")

/-- `getSubgraph`. -/
def getSubgraph (vtxno : UInt32) : SubgraphSetM Subgraph := do
  let s ← Prog.get
  match s.subgraphMap (subgraphKey c vtxno) with
  | some (some subgraph) => pure subgraph
  | some none => Prog.fail (.exception "Cannot get detached subgraph!")
  | none => Prog.fail (.exception "Cannot find specified subgraph")

end Calls

/-! ### Runs -/

/-- A step of a provider. A restart is a start-up that succeeds: after one that fails there is no
provider that could be called. -/
inductive SetOp
  | create (env : CreateEnv) (subgraphKey : UInt32)
  | attach (env : AttachEnv) (subgraphKey : UInt32)
  | detach (subgraphKey : UInt32)
  | restart

/-- The program of a step. -/
def SetOp.run (c : Config) : SetOp → SubgraphSetM Unit
  | create env key => createSubgraph c env key
  | attach env key => attachSubgraph c env key
  | detach key => detachSubgraph key
  | restart => construct false

/-- The step leads from one state to the other, whether or not its call succeeds. -/
def SetStep (c : Config) (s : SubgraphSet) (op : SetOp) (s' : SubgraphSet) : Prop :=
  ((op.run c).run s).2 = s'

/-- The subgraph is detached: by name, or with the provider that had it. -/
def SetOp.Ends (c : Config) (k : UInt32) : SetOp → Prop
  | detach key => subgraphKey c key = k
  | restart => True
  | create _ _ | attach _ _ => False

/-- Every vertex of the subgraph gets the storage in the subgraph's directory. -/
def Served (c : Config) (s : SubgraphSet) (k : UInt32) : Prop :=
  ∀ v, subgraphKey c v = k →
    ((getSubgraph c v).run s).1 = .ok ⟨makeSubgraphPath c s.basedir k⟩

/-! ### What a step does to the map -/

section Steps

variable {c : Config} {s s' : SubgraphSet} {k : UInt32}

theorem keeps_createFile (disk : CreateOutcome) (path : List Char) (has : SubgraphDir → Bool)
    (add : SubgraphDir → SubgraphDir) :
    Keeps (fun s => (s.basedir, s.subgraphMap)) (createFile disk path has add) := by
  refine Keeps.bind Keeps.get fun s => Keeps.ite (Keeps.fail _) (Keeps.ite (Keeps.fail _) ?_)
  cases disk with
  | ok => exact Keeps.modify fun _ => rfl
  | openFails errno => exact Keeps.fail _
  | writeFails errno => exact Keeps.bind (Keeps.modify fun _ => rfl) fun _ => Keeps.fail _
  | laterCallFails errno => exact Keeps.bind (Keeps.modify fun _ => rfl) fun _ => Keeps.fail _

/-- To create a subgraph leaves the map alone. -/
theorem keeps_createSubgraph (env : CreateEnv) (key : UInt32) :
    Keeps (fun s => (s.basedir, s.subgraphMap)) (createSubgraph c env key) := by
  refine Keeps.bind Keeps.get fun s => Keeps.ite (Keeps.bind (Keeps.modify fun s => ?_)
    fun _ => Keeps.mapError ?_) (Keeps.fail _)
  · split_ifs <;> rfl
  · exact Keeps.bind (keeps_createFile _ _ _ _) fun _ => Keeps.bind (keeps_createFile _ _ _ _)
      fun _ => keeps_createFile _ _ _ _

/-- The provider with another entry for a key. -/
def SubgraphSet.setEntry (s : SubgraphSet) (key : UInt32) (storage : Option Subgraph) :
    SubgraphSet :=
  { s with subgraphMap := Function.update s.subgraphMap key (some storage) }

@[simp] theorem setEntry_self (s : SubgraphSet) (key : UInt32) (storage : Option Subgraph) :
    (s.setEntry key storage).subgraphMap key = some storage := Function.update_self ..

theorem setEntry_of_ne (s : SubgraphSet) {key key' : UInt32} (h : key' ≠ key)
    (storage : Option Subgraph) : (s.setEntry key storage).subgraphMap key' = s.subgraphMap key' :=
  Function.update_of_ne h ..

/-- Opening a storage yields the one in the directory, or fails. -/
private theorem rethrow_openStorage (what : String) (opens : Bool) (path : List Char)
    (s : SubgraphSet) :
    (rethrow what (openStorage opens path)).run s = (.ok ⟨path⟩, s) ∨
      (rethrow what (openStorage opens path)).run s = (.error (.exception what), s) := by
  by_cases hopen : (opens && path ∈ s.paths && (s.dir path).superblock &&
      (s.dir path).volume) = true
  · have hrun : (openStorage opens path).run s = (.ok ⟨path⟩, s) := by
      rw [openStorage, Prog.run_get_bind, if_pos hopen, Prog.run_pure]
    exact Or.inl (by rw [rethrow, Prog.run_mapError, hrun]; rfl)
  · have hrun : (openStorage opens path).run s =
        (.error (.exception "Fail to construct SubgraphStorage object!"), s) := by
      rw [openStorage, Prog.run_get_bind, if_neg hopen, Prog.run_fail]
    exact Or.inr (by rw [rethrow, Prog.run_mapError, hrun]; rfl)

/-- **Attaching.** A present entry is left as it is. For an absent entry the storage in the
directory of the key is opened. -/
theorem attachSubgraph_cases {env : AttachEnv} {key : UInt32} {r : Except Fault Unit}
    (h : (attachSubgraph c env key).run s = (r, s')) :
    (s.subgraphMap key ≠ none ∧ r = .ok () ∧ s' = s) ∨
    (s.subgraphMap key = none ∧ r = .ok () ∧
      s' = s.setEntry key (some ⟨makeSubgraphPath c s.basedir key⟩)) ∨
    (s.subgraphMap key = none ∧ r = .error (.exception "Fail to attach specified subgraph") ∧
      (s' = s ∨ s' = s.setEntry key none)) := by
  rw [attachSubgraph, Prog.run_get_bind] at h
  dsimp only at h
  by_cases hkey : s.subgraphMap key = none
  · obtain ⟨s₁, hs₁⟩ : ∃ s₁, s₁ = if env.entryFirst then s.setEntry key none else s := ⟨_, rfl⟩
    have hentry : (if env.entryFirst then setEntry key none else pure () : SubgraphSetM Unit).run s =
        (.ok (), s₁) := by
      rw [hs₁]
      cases env.entryFirst <;> rfl
    have hcases : s₁ = s ∨ s₁ = s.setEntry key none := by
      rw [hs₁]
      cases env.entryFirst
      · exact Or.inl rfl
      · exact Or.inr rfl
    have hset (storage : Subgraph) :
        s₁.setEntry key (some storage) = s.setEntry key (some storage) := by
      rcases hcases with h | h
      · rw [h]
      · rw [h, SubgraphSet.setEntry, SubgraphSet.setEntry, SubgraphSet.setEntry,
          Function.update_idem]
    rw [if_pos hkey, Prog.run_bind_of_ok hentry] at h
    rcases rethrow_openStorage "Fail to attach specified subgraph" env.opens
      (makeSubgraphPath c s.basedir key) s₁ with hopen | hopen
    · rw [Prog.run_bind_of_ok hopen] at h
      obtain ⟨rfl, rfl⟩ := Prod.mk.inj h
      exact Or.inr (Or.inl ⟨hkey, rfl, hset _⟩)
    · rw [Prog.run_bind_of_error hopen] at h
      obtain ⟨rfl, rfl⟩ := Prod.mk.inj h
      exact Or.inr (Or.inr ⟨hkey, rfl, hcases⟩)
  · rw [if_neg hkey, Prog.run_pure, Prod.mk.injEq] at h
    exact Or.inl ⟨hkey, h.1.symm, h.2.symm⟩

/-- The storages in the map were opened on the directories of their keys. -/
def Coherent (c : Config) (s : SubgraphSet) : Prop :=
  ∀ key subgraph, s.subgraphMap key = some (some subgraph) →
    subgraph.basedir = makeSubgraphPath c s.basedir key

theorem Coherent.setEntry (h : Coherent c s) {key : UInt32} {storage : Option Subgraph}
    (hst : ∀ subgraph, storage = some subgraph →
      subgraph.basedir = makeSubgraphPath c s.basedir key) :
    Coherent c (s.setEntry key storage) := by
  intro key' subgraph hmap
  by_cases hkey : key' = key
  · rw [hkey, setEntry_self] at hmap
    rw [hkey]
    exact hst subgraph (Option.some.inj hmap)
  · rw [setEntry_of_ne s hkey] at hmap
    exact h key' subgraph hmap

/-- A new provider has no storage in its map. -/
theorem not_attached_construct {globFails : Bool} (h : (construct globFails).run s = (.ok (), s'))
    (key : UInt32) (subgraph : Subgraph) : s'.subgraphMap key ≠ some (some subgraph) := by
  cases globFails
  · obtain ⟨-, rfl⟩ := Prod.mk.inj h
    dsimp only
    split_ifs
    · nofun
    · nofun
  · cases h

theorem detachSubgraph_cases {key : UInt32} {r : Except Fault Unit}
    (h : (detachSubgraph key).run s = (r, s')) : s' = s ∨ s' = s.setEntry key none := by
  rw [detachSubgraph, Prog.run_get_bind] at h
  split_ifs at h
  · exact Or.inr (Prod.mk.inj h).2.symm
  · exact Or.inl (Prod.mk.inj h).2.symm

theorem SetStep.exists_run {op : SetOp} (h : SetStep c s op s') :
    ∃ r, (op.run c).run s = (r, s') := ⟨_, Prod.ext rfl h⟩

/-- **One step** keeps the map coherent. -/
theorem Coherent.step {op : SetOp} (h : Coherent c s) (hstep : SetStep c s op s') :
    Coherent c s' := by
  cases op with
  | create env key =>
    have hkeeps := keeps_createSubgraph (c := c) env key s
    rw [show ((createSubgraph c env key).run s).2 = s' from hstep, Prod.mk.injEq] at hkeeps
    intro key' subgraph hmap
    rw [hkeeps.2] at hmap
    rw [hkeeps.1]
    exact h key' subgraph hmap
  | attach env key =>
    obtain ⟨r, hr⟩ := hstep.exists_run
    rcases attachSubgraph_cases hr with
      ⟨-, -, rfl⟩ | ⟨-, -, rfl⟩ | ⟨-, -, rfl | rfl⟩
    · exact h
    · exact h.setEntry fun subgraph hst => by rw [← Option.some.inj hst]
    · exact h
    · exact h.setEntry nofun
  | detach key =>
    obtain ⟨r, hr⟩ := hstep.exists_run
    rcases detachSubgraph_cases hr with rfl | rfl
    · exact h
    · exact h.setEntry nofun
  | restart =>
    intro key subgraph hmap
    exact absurd hmap (not_attached_construct (Prod.ext rfl hstep) key subgraph)

/-- **One step** that does not detach the subgraph keeps its storage. -/
theorem attached_step {op : SetOp} {subgraph : Subgraph} (hk : subgraphKey c k = k)
    (hmap : s.subgraphMap k = some (some subgraph)) (hends : ¬op.Ends c k)
    (hstep : SetStep c s op s') :
    s'.subgraphMap k = some (some subgraph) ∧ s'.basedir = s.basedir := by
  have hother {key : UInt32} (hkey : key ≠ k) (storage : Option Subgraph) :
      (s.setEntry key storage).subgraphMap k = some (some subgraph) ∧
        (s.setEntry key storage).basedir = s.basedir :=
    ⟨(setEntry_of_ne s (Ne.symm hkey) storage).trans hmap, rfl⟩
  cases op with
  | create env key =>
    have hkeeps := keeps_createSubgraph (c := c) env key s
    rw [show ((createSubgraph c env key).run s).2 = s' from hstep, Prod.mk.injEq] at hkeeps
    rw [hkeeps.1, hkeeps.2]
    exact ⟨hmap, rfl⟩
  | attach env key =>
    have hkey : s.subgraphMap key = none → key ≠ k := by
      rintro hnone rfl
      rw [hmap] at hnone
      cases hnone
    obtain ⟨r, hr⟩ := hstep.exists_run
    rcases attachSubgraph_cases hr with
      ⟨-, -, rfl⟩ | ⟨hnone, -, rfl⟩ | ⟨hnone, -, rfl | rfl⟩
    · exact ⟨hmap, rfl⟩
    · exact hother (hkey hnone) _
    · exact ⟨hmap, rfl⟩
    · exact hother (hkey hnone) _
  | detach key =>
    have hkey : key ≠ k := by
      rintro rfl
      exact hends hk
    obtain ⟨r, hr⟩ := hstep.exists_run
    rcases detachSubgraph_cases hr with rfl | rfl
    · exact ⟨hmap, rfl⟩
    · exact hother hkey _
  | restart => exact absurd trivial hends

/-- A subgraph is served when its own key has a storage. -/
theorem served_iff (h : Coherent c s) (hk : subgraphKey c k = k) :
    Served c s k ↔ ∃ subgraph, s.subgraphMap k = some (some subgraph) := by
  constructor
  · intro hserved
    have hget := hserved k hk
    rw [getSubgraph, Prog.run_get_bind, hk] at hget
    split at hget
    · exact ⟨_, ‹_›⟩
    · cases hget
    · cases hget
  · rintro ⟨subgraph, hmap⟩ v rfl
    rw [getSubgraph, Prog.run_get_bind, hmap]
    exact congrArg Except.ok (congrArg Subgraph.mk (h _ subgraph hmap))

end Steps

/-! ### Attached subgraphs -/

/-- **Attaching.** After any run of a provider, when `attachSubgraph` returns without an exception,
the subgraph is served until it is detached if and only if it had a storage already, or the call
named it by the number of its first vertex and the map had no entry for it. -/
theorem attachSubgraph_serves_iff {c : Config} {s s₀ s₁ s₂ : SubgraphSet} {globFails : Bool}
    {ops : List SetOp} {env : AttachEnv} {key : UInt32}
    (hnew : (construct globFails).run s = (.ok (), s₀)) (hrun : Steps (SetStep c) s₀ ops s₁)
    (hok : (attachSubgraph c env key).run s₁ = (.ok (), s₂)) :
    (∀ ops' s₃, (∀ op ∈ ops', ¬op.Ends c (subgraphKey c key)) →
      Steps (SetStep c) s₂ ops' s₃ → Served c s₃ (subgraphKey c key)) ↔
    ((∃ subgraph, s₁.subgraphMap (subgraphKey c key) = some (some subgraph)) ∨
      (subgraphKey c key = key ∧ s₁.subgraphMap key = none)) := by
  have hcoh₁ : Coherent c s₁ := hrun.invariant (fun _ _ _ h hstep => h.step hstep)
    fun k subgraph hmap => absurd hmap (not_attached_construct hnew k subgraph)
  have hattach : SetStep c s₁ (.attach env key) s₂ := congrArg Prod.snd hok
  have hcoh₂ : Coherent c s₂ := hcoh₁.step hattach
  constructor
  · intro hserved
    have hnow := (served_iff hcoh₂ (subgraphKey_subgraphKey key)).mp
      (hserved [] s₂ (by simp) .nil)
    by_cases hkey : subgraphKey c key = key
    · rcases attachSubgraph_cases hok with ⟨-, -, rfl⟩ | ⟨hnone, -, -⟩ | ⟨-, he, -⟩
      · exact Or.inl hnow
      · exact Or.inr ⟨hkey, hnone⟩
      · cases he
    · rcases attachSubgraph_cases hok with ⟨-, -, rfl⟩ | ⟨-, -, rfl⟩ | ⟨-, he, -⟩
      · exact Or.inl hnow
      · obtain ⟨subgraph, hmap⟩ := hnow
        rw [setEntry_of_ne s₁ hkey] at hmap
        exact Or.inl ⟨subgraph, hmap⟩
      · cases he
  · intro hcond ops' s₃ hends hrun'
    have hnow : ∃ subgraph, s₂.subgraphMap (subgraphKey c key) = some (some subgraph) := by
      rcases hcond with ⟨subgraph, hmap⟩ | ⟨hkey, hnone⟩
      · exact ⟨subgraph, (attached_step (subgraphKey_subgraphKey key) hmap
          (show ¬(SetOp.attach env key).Ends c (subgraphKey c key) from fun h => h) hattach).1⟩
      · rcases attachSubgraph_cases hok with ⟨hsome, -, -⟩ | ⟨-, -, rfl⟩ | ⟨-, he, -⟩
        · exact absurd hnone hsome
        · rw [hkey]
          exact ⟨_, setEntry_self ..⟩
        · cases he
    have hlater := hrun'.invariant_of_mem
      (I := fun s => Coherent c s ∧
        ∃ subgraph, s.subgraphMap (subgraphKey c key) = some (some subgraph))
      (fun s op hop s' hs hstep => ⟨hs.1.step hstep, by
        obtain ⟨subgraph, hmap⟩ := hs.2
        exact ⟨subgraph, (attached_step (subgraphKey_subgraphKey key) hmap (hends op hop)
          hstep).1⟩⟩) ⟨hcoh₂, hnow⟩
    exact (served_iff hlater.1 (subgraphKey_subgraphKey key)).mpr hlater.2

/-- A run, evaluated. -/
def runSet (c : Config) (ops : List SetOp) (s : SubgraphSet) : SubgraphSet :=
  ops.foldl (fun s op => ((op.run c).run s).2) s

theorem steps_runSet (c : Config) (ops : List SetOp) (s : SubgraphSet) :
    Steps (SetStep c) s ops (runSet c ops s) := by
  induction ops generalizing s with
  | nil => exact .nil
  | cons op ops ih => exact .cons rfl (ih _)

/-- A new provider on an empty base directory. -/
def emptySet : SubgraphSet where
  basedir := "/var".toList
  subgraphMap := fun _ => none
  paths := []
  dir := fun _ => ⟨false, false, false⟩

/-- The subgraph `0` is created. -/
def createZero : SetOp := .create ⟨true, true, .ok, .ok, true⟩ 0

/-- The operating system does what it is asked. -/
def attachEnv : AttachEnv := ⟨true, true⟩

/-- The subgraph `0` is created and attached, and still served after a second attach. -/
theorem attachSubgraph_serves_small :
    Served Config.small (runSet Config.small [.attach attachEnv 0]
      (runSet Config.small [createZero, .attach attachEnv 0] emptySet)) 0 := by
  have hnew : (construct false).run emptySet = (.ok (), emptySet) := rfl
  have hok : (attachSubgraph Config.small attachEnv 0).run
      (runSet Config.small [createZero] emptySet) =
        (.ok (), runSet Config.small [createZero, .attach attachEnv 0] emptySet) :=
    Prod.ext (by decide +kernel) rfl
  have hserved := (attachSubgraph_serves_iff hnew (steps_runSet Config.small [createZero] emptySet)
    hok).mpr (Or.inr ⟨by decide, by decide +kernel⟩)
  exact hserved [.attach attachEnv 0] _ (List.forall_mem_singleton.mpr id) (steps_runSet ..)

/-- A subgraph found at start-up: `attachSubgraph` returns, and the subgraph is not served. -/
theorem attachSubgraph_serves_false_of_restart :
    ∃ s s', Steps (SetStep Config.small) emptySet [createZero, .restart] s ∧
      (attachSubgraph Config.small attachEnv 0).run s = (.ok (), s') ∧
      ¬Served Config.small s' 0 := by
  refine ⟨runSet Config.small [createZero, .restart] emptySet, _, steps_runSet ..,
    Prod.ext (by decide +kernel) rfl, fun h => ?_⟩
  have hget := h 0 (by decide)
  revert hget
  decide +kernel

end Nynn
