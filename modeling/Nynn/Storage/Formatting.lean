import Nynn.Storage.Following
import Nynn.Storage.SubgraphRuns

/-!
# The vertices of a new subgraph

Formatting gives the vertices of an interval their numbers, in the order of their slots. The bound
of the loop is the sum of the first number and the width of the interval in 32 bits. It is zero for
the last interval, whose slots are left as the new file has them: filled with zeros, so that the
first number of the subgraph is read back as `0`. The sizes of the two files are 32-bit numbers as
well: a superblock with `2 ^ 28` vertices or more, or a volume of `2 ^ 32` bytes or more, is written
behind the end of its file. Formatting uses no overflow group, so that the table does not matter.

Source: `nynn_mm_subgraph_storage.h`, `nynn_mm_subgraph_set.h`.

## Main definitions

* `Nynn.InInterval`: the numbers of the vertices of an interval.
* `Nynn.Initialised`: every vertex of an interval is initialised.

## Main results

* `Nynn.format_flat`: formatting returns the same with every table.
* `Nynn.initialised_iff`: when formatting initialises an interval.
-/

namespace Nynn

open Program

variable {c : Config} {M : Type} {t : M} {s : Storage c M} {key v w : UInt32}

/-- The number `v` lies in the interval of width `VERTEX_INTERVAL_WIDTH` from `key` on. -/
def InInterval (c : Config) (key v : UInt32) : Prop :=
  key.toNat ≤ v.toNat ∧ v.toNat ≤ key.toNat + c.vertexIntervalWidth - 1

/-- Every vertex of the interval has the slot of its number, is without blocks there, and every
vertex with the key is in the interval. -/
structure Initialised (s : Storage c M) (key : UInt32) : Prop where
  vertex : ∀ v, InInterval c key v → ∃ slot : Fin c.vertexIntervalWidth,
    (getVertex v).run s = (.ok slot, s) ∧ slot.val = v.toNat - key.toNat ∧
      (s.superblk.vertices slot).source = v ∧ (s.superblk.vertices slot).size = 0 ∧
      (s.superblk.vertices slot).headBlkno = invalidBlkno ∧
      (s.superblk.vertices slot).tailBlkno = invalidBlkno
  slots_ne : ∀ v w, InInterval c key v → InInterval c key w → v ≠ w →
    ((getVertex v).run s).1 ≠ ((getVertex w).run s).1
  contains : ∀ v, subgraphKey c v = key → InInterval c key v

/-! ### Formatting without overflow groups -/

section Flat

variable {M : Type} [OverflowTable M]

/-- A storage and the one in which every block stays mapped, with a head of the free list in the
volume. -/
abbrev FlatHead (s : Storage c M) (t : FlatStorage c) : Prop :=
  Follows (fun b => isFlat c b = true) (fun _ => True) [] s t

theorem releaseVolume_flatHead {n : ℕ} (hn : n ≤ c.overflowBlknoMin.toNat) :
    Rel FlatHead (releaseVolume n : StorageM c M Unit) (releaseVolume n) (fun _ _ => FlatHead)
      SameData := by
  induction n with
  | zero => exact Rel.pure fun _ _ h => h
  | succ n ih =>
    have hlt := c.overflowBlknoMin.toNat_lt
    have hflat : isFlat c (UInt32.ofNat n) = true := by
      refine decide_eq_true ?_
      rw [UInt32.lt_iff_toNat_lt, UInt32.toNat_ofNat_of_lt' (show n < 2 ^ 32 by omega)]
      omega
    exact Rel.ite (fun _ => Rel.bind (releaseRaw_follows held_isFlat hflat) fun _ _ =>
      ih (by omega)) fun _ => Rel.fail fun _ _ h => h.flat

theorem setMinVtxno_flatHead (key : UInt32) :
    Rel FlatHead (setMinVtxno key : StorageM c M Unit) (setMinVtxno key) (fun _ _ => FlatHead)
      SameData := by
  refine Rel.ite (fun _ => Rel.fail fun _ _ h => h.flat) fun _ => Rel.get_bind ?_
  intro s t h
  refine Rel.mono (P := FlatHead) ?_ (by rintro s' t' ⟨rfl, rfl⟩; exact h) fun _ _ _ _ h => h
  rw [h.flat, superblk_flat]
  cases initVertices key c.vertexIntervalWidth key s.superblk.vertices with
  | none => exact Rel.fail fun _ _ h => h.flat
  | some vertices => exact modifySuperBlock_follows fun _ h => h

/-- **Formatting needs no table.** -/
theorem format_flat (t : M) (key : UInt32) :
    (format (c := c) t key).1 = (format (c := c) AllMapped.allMapped key).1 := by
  rw [format, format]
  by_cases hsize : c.volumeSize < 4
  · rw [if_pos hsize, if_pos hsize]
  rw [if_neg hsize, if_neg hsize]
  have hrel : Rel (fun s t => t = s.flat) (formatStorage key : StorageM c M Unit) (formatStorage key)
      (fun _ _ => FlatHead) SameData := by
    have hstart {f : SuperBlock c → SuperBlock c} :
        Rel (fun s t => t = s.flat) (modifySuperBlock f : StorageM c M Unit) (modifySuperBlock f)
          (fun _ _ s t => t = s.flat) SameData :=
      Rel.modify fun s t h => by rw [h]; rfl
    have hhead : Rel (fun s t => t = s.flat) (setHeadBlkno invalidBlkno : StorageM c M Unit)
        (setHeadBlkno invalidBlkno) (fun _ _ => FlatHead) SameData :=
      Rel.modify fun s t h => ⟨by rw [h]; rfl, trivial, Or.inl rfl, List.forall_mem_nil _⟩
    exact Rel.bind hstart fun _ _ => Rel.bind hhead fun _ _ =>
      Rel.bind (modifySuperBlock_follows fun _ h => h) fun _ _ =>
        Rel.bind (releaseVolume_flatHead le_rfl) fun _ _ => setMinVtxno_flatHead key
  rcases hrel (Storage.zeros t) (Storage.zeros .allMapped) rfl with
    ⟨_, _, s', t', hx, hy, -⟩ | ⟨e, s', t', hx, hy, -⟩
  · rw [hx, hy]
  · rw [hx, hy]
    cases e <;> rfl

end Flat

/-! ### The vertices of an interval -/

/-- Every vertex with the key is in the interval. -/
theorem inInterval_of_subgraphKey (hv : subgraphKey c v = key) : InInterval c key v := by
  have hmod := Nat.mod_le v.toNat c.vertexIntervalWidth
  have hlt := Nat.mod_lt v.toNat c.vertexIntervalWidth_pos
  have hkey : key.toNat = v.toNat - v.toNat % c.vertexIntervalWidth := hv ▸ toNat_subgraphKey v
  rw [InInterval, hkey]
  omega

/-- The interval ends before `2 ^ 32`, or it is the last one. -/
theorem add_width_lt_or_eq (hkey : key.toNat % c.vertexIntervalWidth = 0) :
    key.toNat + c.vertexIntervalWidth < 2 ^ 32 ∨ key.toNat + c.vertexIntervalWidth = 2 ^ 32 := by
  have hdvd : c.vertexIntervalWidth ∣ 2 ^ 32 := pow_dvd_pow 2 c.log2Width_lt.le
  obtain ⟨i, hi⟩ := Nat.dvd_of_mod_eq_zero hkey
  obtain ⟨n, hn⟩ := hdvd
  have hlt := key.toNat_lt
  rw [hi, hn] at hlt
  have hin : i + 1 ≤ n := Nat.lt_of_mul_lt_mul_left hlt
  have hle := Nat.mul_le_mul_left c.vertexIntervalWidth hin
  rw [hi, ← Nat.mul_succ]
  exact (hn ▸ hle).lt_or_eq

/-- The last interval starts behind the first one. -/
theorem width_le_of_last (hlast : key.toNat + c.vertexIntervalWidth = 2 ^ 32) :
    c.vertexIntervalWidth ≤ key.toNat := by
  have hle : c.vertexIntervalWidth ≤ 2 ^ 31 :=
    Nat.pow_le_pow_right (by norm_num) (Nat.le_of_lt_succ c.log2Width_lt)
  omega

/-- The slot of a vertex of the interval. -/
theorem getVertex_run_of_inInterval (hmin : s.superblk.getMinVtxno = key)
    (hv : InInterval c key v) : ∃ slot : Fin c.vertexIntervalWidth,
      (getVertex v).run s = (.ok slot, s) ∧ slot.val = v.toNat - key.toNat := by
  have hpos := c.vertexIntervalWidth_pos
  have hslot : vertexSlot s.superblk.getMinVtxno v = v.toNat - key.toNat := by
    rw [hmin, vertexSlot, UInt32.toNat_sub_of_le]
    exact UInt32.le_iff_toNat_le.mpr hv.1
  have hlt : v.toNat - key.toNat < c.vertexIntervalWidth := by
    have := hv.2
    omega
  refine ⟨⟨vertexSlot s.superblk.getMinVtxno v, hslot ▸ hlt⟩, ?_, hslot⟩
  rw [getVertex, Prog.run_get_bind, dif_pos (hslot ▸ hlt), Prog.run_pure]

/-- A formatted interval that ends before `2 ^ 32` is initialised. -/
private theorem initialised_of_format [OverflowTable M] (h : format t key = (.ok (), s))
    (hlt : key.toNat + c.vertexIntervalWidth < 2 ^ 32) : Initialised s key := by
  have hnew : ∀ slot, s.superblk.vertices slot = Vertex.new (key + UInt32.ofNat slot.val) :=
    vertices_format h hlt
  have hmin : s.superblk.getMinVtxno = key := by
    rw [SuperBlock.getMinVtxno, hnew]
    exact UInt32.add_zero key
  refine ⟨fun v hv => ?_, fun v w hv hw hne heq => hne ?_, fun v => inInterval_of_subgraphKey⟩
  · obtain ⟨slot, hrun, hslot⟩ := getVertex_run_of_inInterval hmin hv
    have hsource : key + UInt32.ofNat slot.val = v := by
      have hle := UInt32.le_iff_toNat_le.mpr hv.1
      rw [hslot, ← UInt32.toNat_sub_of_le _ _ hle, UInt32.ofNat_toNat, UInt32.add_comm,
        UInt32.sub_add_cancel]
    refine ⟨slot, hrun, hslot, ?_⟩
    rw [hnew, hsource]
    exact ⟨rfl, rfl, rfl, rfl⟩
  · obtain ⟨slot, hrun, hslot⟩ := getVertex_run_of_inInterval hmin hv
    obtain ⟨slot', hrun', hslot'⟩ := getVertex_run_of_inInterval hmin hw
    rw [hrun, hrun', Except.ok.injEq] at heq
    rw [heq, hslot'] at hslot
    have hv' := hv.1
    have hw' := hw.1
    exact UInt32.toNat_inj.mp (by omega)

/-- The last interval is not initialised. -/
private theorem not_initialised_of_last [OverflowTable M] (h : format t key = (.ok (), s))
    (hlast : key.toNat + c.vertexIntervalWidth = 2 ^ 32) : ¬Initialised s key := by
  intro hinit
  have hpos := c.vertexIntervalWidth_pos
  have hvertices := (of_format_eq_ok h).2.2
  rw [initVertices_of_last hlast, Option.some.injEq] at hvertices
  -- the first vertex of the last interval is looked up behind the slots
  have hself : InInterval c key key := ⟨le_rfl, by omega⟩
  obtain ⟨slot, hrun, -⟩ := hinit.vertex key hself
  have hzero : s.superblk.getMinVtxno = 0 := by
    rw [SuperBlock.getMinVtxno, ← hvertices]
    rfl
  have hslot : ¬vertexSlot s.superblk.getMinVtxno key < c.vertexIntervalWidth := by
    rw [hzero, vertexSlot, UInt32.sub_zero]
    exact Nat.not_lt.mpr (width_le_of_last hlast)
  rw [getVertex, Prog.run_get_bind, dif_neg hslot, Prog.run_fail] at hrun
  cases hrun

/-- The loop over the vertices comes to its end, in an interval that ends before `2 ^ 32`, if and
only if the superblock is as large as what is written of it. -/
private theorem exists_vertices_iff (hlt : key.toNat + c.vertexIntervalWidth < 2 ^ 32) :
    (∃ vertices, initVertices key c.vertexIntervalWidth key (zeroVertices c) = some vertices) ↔
      12 + 20 * c.vertexIntervalWidth < 2 ^ 32 := by
  obtain ⟨fuel, hfuel⟩ := Nat.exists_eq_add_of_lt c.vertexIntervalWidth_pos
  rw [Nat.zero_add] at hfuel
  have h : (∃ vertices, initVertices key (fuel + 1) (key + UInt32.ofNat 0) (zeroVertices c) =
      some vertices) ↔ _ := exists_initVertices_iff hlt (by omega)
  rwa [← hfuel, show key + UInt32.ofNat 0 = key from UInt32.add_zero key] at h

/-- **Formatting.** A subgraph is formatted, with every vertex of its interval initialised, if and
only if the interval ends before `2 ^ 32`, the size of the superblock is below `2 ^ 32`, and the
volume has at least one block and less than `2 ^ 32` bytes. -/
theorem initialised_iff [OverflowTable M] (t : M)
    (hkey : key.toNat % c.vertexIntervalWidth = 0) :
    (∃ s : Storage c M, format t key = (.ok (), s) ∧ Initialised s key) ↔
      key.toNat + c.vertexIntervalWidth < 2 ^ 32 ∧ 12 + 20 * c.vertexIntervalWidth < 2 ^ 32 ∧
        c.VolumeFits := by
  constructor
  · rintro ⟨s, h, hinit⟩
    have hlt := (add_width_lt_or_eq hkey).resolve_right fun hlast =>
      not_initialised_of_last h hlast hinit
    obtain ⟨-, hvolume, hvertices⟩ := of_format_eq_ok h
    exact ⟨hlt, (exists_vertices_iff hlt).mp ⟨_, hvertices⟩, hvolume⟩
  · rintro ⟨hlt, hsize, hvolume⟩
    obtain ⟨vertices, hvertices⟩ := (exists_vertices_iff hlt).mpr hsize
    obtain ⟨s₀, h₀, -⟩ := format_spec hkey hvolume hvertices
    have h : format t key = (.ok (), (format t key).2) :=
      Prod.ext ((format_flat t key).trans (congrArg Prod.fst h₀)) rfl
    exact ⟨_, h, initialised_of_format h hlt⟩

/-- The first one of the intervals of two vertices. -/
theorem initialised_iff_small :
    ∃ s, format (c := Config.small) AllMapped.allMapped 0 = (.ok (), s) ∧ Initialised s 0 :=
  (initialised_iff AllMapped.allMapped (by decide)).mpr ⟨by decide, by decide, by decide, by decide⟩

/-- A subgraph with the last one of the intervals of two vertices. -/
def lastStorage : FlatStorage Config.small := (format .allMapped 0xFFFFFFFE).2

theorem initialised_false_of_last :
    format .allMapped 0xFFFFFFFE = (.ok (), lastStorage) ∧ ¬Initialised lastStorage 0xFFFFFFFE := by
  have h : format .allMapped 0xFFFFFFFE = (.ok (), lastStorage) := Prod.ext (by decide +kernel) rfl
  exact ⟨h, not_initialised_of_last h (by decide)⟩

end Nynn
