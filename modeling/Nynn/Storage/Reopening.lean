import Nynn.Storage.SubgraphSet
import Nynn.Storage.Twins

/-!
# Reopening a subgraph

The constructor of `SubgraphStorageType` maps the superblock and the volume of a directory, and of
its overflow files the first `OVERFLOW_NUM` that `glob` lists; it reads the number of the group from
the name of the file. A storage object that is closed and opened again cannot be told from the one
that stayed open.

The constructor fails where one of the listed files has no bytes, as `mmap` refuses an empty file.
Such a file is left behind when a new overflow file is created and `lseek` or `write` fails.

Source: the constructor of `SubgraphStorageType` and `makeOverflowPath` in
`nynn_mm_subgraph_storage.h`.

## Main definitions

* `Nynn.overflowPath`, `Nynn.preloadedBlkno`: the name of an overflow file, and the number read
  from it.
* `Nynn.reopen`: the constructor, for the directory of a storage that was closed.
* `Nynn.Indistinguishable`, `Nynn.Reopens`: the new object does the same as the old one.

## Main results

* `Nynn.preloadedBlkno_overflowPath`: the number of the group is read back.
* `Nynn.reopen_transparent_iff`: when reopening is transparent.
-/

namespace Nynn

open Program

variable {c : Config}

/-! ### The names of the overflow files -/

section Paths

variable (c : Config) (basedir : List Char)

/-- The path that `makeOverflowPath` makes of a block number. -/
def overflowPath (blkno : UInt32) : List Char :=
  basedir ++ "/overflow/block0x".toList ++
    (Hexadecimal.toHex 8 (overflowGroup c blkno).toNat ++ ".dat".toList)

/-- The block number that the constructor reads from a path: `strtoul` on the last fourteen
characters, which start with `0x`. -/
def preloadedBlkno (path : List Char) : UInt32 :=
  UInt32.ofNat (Hexadecimal.ofHex ((path.drop (path.length - "0xffff0000.dat".length)).drop 2))

variable {c basedir}

/-- **The number of a group** is read back from the path. -/
theorem preloadedBlkno_overflowPath (blkno : UInt32) :
    preloadedBlkno (overflowPath c basedir blkno) = overflowGroup c blkno := by
  obtain ⟨tail, htail⟩ : ∃ tail, tail =
    Hexadecimal.toHex 8 (overflowGroup c blkno).toNat ++ ".dat".toList := ⟨_, rfl⟩
  have hlen : tail.length = 12 := by
    rw [htail, List.length_append, Hexadecimal.length_toHex]
    rfl
  have hdrop : ((basedir ++ "/overflow/block0x".toList ++ tail).drop
      ((basedir ++ "/overflow/block0x".toList ++ tail).length - "0xffff0000.dat".length)).drop 2 =
        tail := by
    have hprefix : (basedir ++ "/overflow/block0x".toList ++ tail).length -
        "0xffff0000.dat".length + 2 = (basedir ++ "/overflow/block0x".toList).length := by
      rw [List.length_append, List.length_append, hlen]
      change basedir.length + 17 + 12 - 14 + 2 = basedir.length + 17
      omega
    rw [List.drop_drop, hprefix, List.drop_left]
  have hread : Hexadecimal.ofHex tail = (overflowGroup c blkno).toNat := by
    rw [htail]
    exact Hexadecimal.ofHex_toHex_append (overflowGroup c blkno).toNat_lt (by decide) _
  rw [preloadedBlkno, overflowPath, ← htail, hdrop, hread, UInt32.ofNat_toNat]

end Paths

/-! ### The constructor -/

/-- What `glob` does for the pattern `overflow/block*.dat`. The paths are told by the numbers of
their groups; there are none when it returns `GLOB_NOMATCH`. -/
inductive GlobResult
  | paths (files : List UInt32)
  | fails (errno : String)

section Constructor

variable {M : Type} [OverflowTable M]

/-- The loop of the constructor over the paths that it preloads. -/
def preload (basedir : List Char) : List UInt32 → StorageM c M Unit
  | [] => pure ()
  | file :: files => do
    let blkno := preloadedBlkno (overflowPath c basedir file)
    let overflowBlkFile ← mmapFile file
    setOverflowBlock blkno overflowBlkFile
    preload basedir files

/-- The overflow files that the constructor maps. -/
def openOverflow (basedir : List Char) : GlobResult → StorageM c M Unit
  | .paths files => preload basedir (files.take c.overflowNum)
  | .fails errno => throwNynnException ("Fail to invoke glob!(" ++ errno ++ ")")

/-- The constructor of `SubgraphStorageType`, for the directory of the storage `s` that was closed;
what was written through its mappings is in the files. `t` is the table of a new object. -/
def reopen (t : M) (basedir : List Char) (glob : GlobResult) (s : Storage c M) :
    Except Fault Unit × Storage c M :=
  match (openOverflow basedir glob).run { s with overflow := t } with
  | (.error (.exception _), s') =>
    (.error (.exception "Fail to construct SubgraphStorage object!"), s')
  | r => r

/-- The storage `t` cannot be told from the storage `s`: it has the same superblock and the same
blocks, and every run of calls on it returns the same and leaves the same. -/
structure Indistinguishable (s t : Storage c M) : Prop where
  superblk : t.superblk = s.superblk
  contents : ∀ b < s.superblk.supBlkno,
    ((getBlock b >>= deref).run t).1 = ((getBlock b >>= deref).run s).1
  results : ∀ ops, (runOps ops t).1 = (runOps ops s).1
  superblk_run : ∀ ops, (runOps ops t).2.superblk = (runOps ops s).2.superblk
  blocks_run : ∀ ops, (runOps ops t).2.blocks = (runOps ops s).2.blocks
  files_run : ∀ ops, (runOps ops t).2.files = (runOps ops s).2.files
  lists_run : ∀ ops fuel v, ((readAllBlknos fuel v).run (runOps ops t).2).1 =
    ((readAllBlknos fuel v).run (runOps ops s).2).1

end Constructor

/-- `files` lists the overflow files of the storage, in any order. -/
structure Lists (files : List UInt32) (s : Storage c (Overflow c)) : Prop where
  nodup : files.Nodup
  mem_iff : ∀ g, g ∈ files ↔ s.files g = true

/-- The storage is closed and opened again: the constructor succeeds, and the new object cannot be
told from the old one. -/
def Reopens (basedir : List Char) (files : List UInt32) (s : Storage c (Overflow c)) : Prop :=
  ∃ t, reopen (Overflow.empty c) basedir (.paths files) s = (.ok (), t) ∧ Indistinguishable s t

/-! ### The preloaded files -/

section Preload

variable {s : Storage c (Overflow c)} {basedir : List Char} {file : UInt32} {files : List UInt32}

/-- The state after one file was mapped. -/
private def preloadOne (s : Storage c (Overflow c)) (file : UInt32) : Storage c (Overflow c) :=
  { s with mmaps := s.mmaps + 1, overflow := Overflow.set file ⟨s.mmaps, file⟩ s.overflow }

private theorem preload_cons (h : s.Backed) (hfile : s.files file = true)
    (hbytes : s.emptyFiles file = false) :
    (preload basedir (file :: files) : StorageM c (Overflow c) Unit).run s =
      (preload basedir files).run (preloadOne s file) := by
  have hgroup : overflowGroup c (preloadedBlkno (overflowPath c basedir file)) = file := by
    rw [preloadedBlkno_overflowPath, overflowGroup_overflowGroup, h.isGroup file hfile]
  have hmap : (mmapFile file : StorageM c (Overflow c) Mapping).run s =
      (.ok ⟨s.mmaps, file⟩, { s with mmaps := s.mmaps + 1 }) := by
    rw [mmapFile, Prog.run_get_bind, if_pos hfile, hbytes]
    simp only [h.reopens]
    rfl
  rw [preload, Prog.run_bind_of_ok hmap, setOverflowBlock, Prog.run_modify_bind, hgroup]
  rfl

private theorem backed_preloadOne (h : s.Backed) (hfile : s.files file = true)
    (hbytes : s.emptyFiles file = false) : (preloadOne s file).Backed :=
  h.mmap.setMapping (m := ⟨s.mmaps, file⟩) (Nat.lt_succ_self _) hfile hbytes

/-- When every file has bytes, the new storage is a twin of the one that stayed open. -/
theorem preload_of_hasBytes (basedir : List Char) {s₀ : Storage c (Overflow c)} (htwins : Twins s₀ s)
    (hfiles : ∀ g ∈ files, s.files g = true) (hbytes : ∀ g ∈ files, s.emptyFiles g = false) :
    ∃ t, (preload basedir files).run s = (.ok (), t) ∧ Twins s₀ t := by
  induction files generalizing s with
  | nil => exact ⟨s, rfl, htwins⟩
  | cons file files ih =>
    have hfile := hfiles file List.mem_cons_self
    have hbyte := hbytes file List.mem_cons_self
    rw [preload_cons htwins.right hfile hbyte]
    exact ih ⟨htwins.superblk, htwins.blocks, htwins.files, htwins.emptyFiles, htwins.left,
      backed_preloadOne htwins.right hfile hbyte⟩
      (fun g hg => hfiles g (List.mem_cons_of_mem _ hg))
      fun g hg => hbytes g (List.mem_cons_of_mem _ hg)

/-- The constructor stops at the first file without bytes. -/
theorem preload_of_empty (basedir : List Char) (h : s.Backed) (hfiles : ∀ g ∈ files, s.files g = true)
    (hempty : ∃ g ∈ files, s.emptyFiles g = true) :
    ∃ what t, (preload basedir files : StorageM c (Overflow c) Unit).run s =
      (.error (.exception what), t) := by
  induction files generalizing s with
  | nil =>
    obtain ⟨g, hg, -⟩ := hempty
    cases hg
  | cons file files ih =>
    have hfile := hfiles file List.mem_cons_self
    by_cases hbyte : s.emptyFiles file = true
    · refine ⟨"Invalid argument", s, ?_⟩
      have hmap : (mmapFile file : StorageM c (Overflow c) Mapping).run s =
          (.error (.exception "Invalid argument"), s) := by
        rw [mmapFile, Prog.run_get_bind, if_pos hfile, if_pos hbyte]
        rfl
      rw [preload, Prog.run_bind_of_error hmap]
    · have hbytes := Bool.eq_false_iff.mpr hbyte
      rw [preload_cons h hfile hbytes]
      refine ih (backed_preloadOne h hfile hbytes)
        (fun g hg => hfiles g (List.mem_cons_of_mem _ hg)) ?_
      obtain ⟨g, hg, he⟩ := hempty
      rcases List.mem_cons.mp hg with rfl | hg
      · exact absurd he hbyte
      · exact ⟨g, hg, he⟩

end Preload

/-! ### Twins cannot be told apart -/

theorem Twins.indistinguishable {s t : Storage c (Overflow c)} (h : Twins s t) :
    Indistinguishable s t where
  superblk := h.superblk.symm
  contents b _ := ((SameRun.getBlock_bind b fun _ _ => SameRun.deref List.mem_cons_self).run h).1.symm
  results ops := (h.runOps ops).1.symm
  superblk_run ops := (h.runOps ops).2.superblk.symm
  blocks_run ops := (h.runOps ops).2.blocks.symm
  files_run ops := (h.runOps ops).2.files.symm
  lists_run ops fuel v := ((SameRun.readAllBlknos fuel v).run (h.runOps ops).2).1.symm

/-- A storage whose mappings are mappings of its files reopens just when no file that is preloaded
is without bytes. -/
theorem Storage.Backed.reopens_iff {s : Storage c (Overflow c)} (h : s.Backed) (basedir : List Char)
    {files : List UInt32} (hfiles : Lists files s) :
    Reopens basedir files s ↔ ∀ g ∈ files.take c.overflowNum, s.emptyFiles g = false := by
  have hnew : Twins s { s with overflow := Overflow.empty c } :=
    ⟨rfl, rfl, rfl, rfl, h, h.newTable⟩
  have htake : ∀ g ∈ files.take c.overflowNum, s.files g = true :=
    fun g hg => (hfiles.mem_iff g).mp (List.mem_of_mem_take hg)
  constructor
  · rintro ⟨t, hopen, -⟩ g hg
    refine Bool.eq_false_iff.mpr fun hempty => ?_
    obtain ⟨what, s', hrun⟩ := preload_of_empty basedir hnew.right htake ⟨g, hg, hempty⟩
    rw [reopen, openOverflow, hrun] at hopen
    cases hopen
  · intro hbytes
    obtain ⟨t, hrun, htwins⟩ := preload_of_hasBytes basedir hnew htake hbytes
    refine ⟨t, ?_, htwins.indistinguishable⟩
    rw [reopen, openOverflow, hrun]

/-- **Reopening.** After any run of calls on a new storage, reopening is transparent if and only if
none of the overflow files that the constructor preloads is without bytes. The numbers in the names
of the files and of the directories are always read back. -/
theorem reopen_transparent_iff (basedir : List Char) (minVtxno : UInt32)
    (ops : List (StoreOp c.blockSz)) {files : List UInt32}
    (hfiles : Lists files (runOps ops (formatOverflow c minVtxno).2).2) :
    (Reopens basedir files (runOps ops (formatOverflow c minVtxno).2).2 ↔
      ∀ g ∈ files.take c.overflowNum,
        (runOps ops (formatOverflow c minVtxno).2).2.emptyFiles g = false) ∧
    (∀ b, isOverflow c b = true →
      preloadedBlkno (overflowPath c basedir b) = b &&& ~~~c.overflowBlknoMask) ∧
    ∀ vtxno, makeSubgraphKey (makeSubgraphPath c basedir vtxno) = subgraphKey c vtxno :=
  ⟨(backed_runOps minVtxno ops).reopens_iff basedir hfiles,
    fun b _ => preloadedBlkno_overflowPath b, fun v => makeSubgraphKey_makeSubgraphPath v⟩

/-- There are three groups of overflow blocks, and one of them is preloaded. -/
theorem reopen_transparent_small : Reopens "/subgraph0x00000000".toList [2, 4, 6]
    (runOps (requireRelease []) (formatOverflow Config.small 0).2).2 := by
  have hstate : (runOps (requireRelease []) (formatOverflow Config.small 0).2).2.files =
      Function.update (Function.update (Function.update (fun _ => false) 2 true) 4 true) 6 true :=
    rfl
  have hfiles : Lists [2, 4, 6] (runOps (requireRelease []) (formatOverflow Config.small 0).2).2 := by
    refine ⟨by decide, fun g => ?_⟩
    rw [hstate]
    simp only [Function.update_apply]
    grind
  exact (reopen_transparent_iff _ 0 _ hfiles).1.mpr fun _ _ => rfl

/-- The volume is used up, and the disk is full when the first overflow file is written. -/
def fullDisk : List (StoreOp Config.small.blockSz) :=
  [.require .ok, .require .ok, .require (.writeFails "No space left on device")]

/-- The file of the group `2` is left without bytes, and the directory does not open any more. -/
theorem reopen_transparent_false_of_fullDisk :
    Lists [2] (runOps fullDisk (formatOverflow Config.small 0).2).2 ∧
      ¬Reopens "/subgraph0x00000000".toList [2]
        (runOps fullDisk (formatOverflow Config.small 0).2).2 := by
  have hstate : (runOps fullDisk (formatOverflow Config.small 0).2).2.files =
      Function.update (fun _ => false) 2 true := rfl
  have hfiles : Lists [2] (runOps fullDisk (formatOverflow Config.small 0).2).2 :=
    ⟨by decide, fun g => by rw [hstate, Function.update_apply]; simp⟩
  refine ⟨hfiles, fun hopen => ?_⟩
  have hbytes := ((backed_runOps 0 fullDisk).reopens_iff _ hfiles).mp hopen 2 List.mem_cons_self
  cases hbytes

end Nynn
