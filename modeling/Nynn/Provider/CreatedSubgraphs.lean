import Nynn.Provider.ServedSubgraphs

/-!
# Subgraphs that are created and attached

A subgraph that was created holds empty lists, until its directory is removed. It is served when it
is attached, if nobody has tried to attach it before: the map keeps an entry for every key that it
was asked for, and does not open a storage again.

Source: `ProviderDaemon.cpp`, `nynn_mm_subgraph_set.h`.

## Main definitions

* `Nynn.ProviderState.Offers`: the subgraphs that can be created, and the ones that can be attached.

## Main results

* `Nynn.ProviderState.Offers.create`, `Nynn.ProviderState.Offers.attach`: creating and attaching.
-/

namespace Nynn

open Program Transition

variable {c : Config}

open Classical in
/-- The store after some subgraphs were made anew. -/
noncomputable def ListStore.clear (L : ListStore c.blockSz) (k : UInt32) : ListStore c.blockSz where
  list v := if subgraphKey c v = k then [] else L.list v
  given := L.given

theorem ListStore.list_clear_self {L : ListStore c.blockSz} {k v : UInt32}
    (h : subgraphKey c v = k) : (L.clear k).list v = [] := if_pos h

theorem ListStore.clear_of_ne {L : ListStore c.blockSz} {k v : UInt32}
    (h : subgraphKey c v ≠ k) :
    (L.clear k).list v = L.list v ∧ (L.clear k).given v = L.given v := ⟨if_neg h, rfl⟩

namespace ProviderState

/-- The subgraphs `F` have no entry in the map, and the subgraphs `M` among them were created and
hold the lists of their vertices. -/
structure Offers (s : ProviderState c) (F M : Set UInt32) (L : ListStore c.blockSz) : Prop where
  key : ∀ k ∈ F, subgraphKey c k = k
  notLast : ∀ k ∈ F, k.toNat + c.vertexIntervalWidth < 2 ^ 32
  absent : ∀ k ∈ F, s.set.subgraphMap k = none
  subset : M ⊆ F
  formatted : ∀ k ∈ M, Formatted (s.path k) s.set
  holds : ∀ k ∈ M, (s.files (s.path k, s.removals (s.path k))).HoldsLists k L

section Offers

variable {s s' : ProviderState c} {F M F' M' K : Set UInt32} {L L' : ListStore c.blockSz}
  {v key : UInt32} {t : Storage c (Overflow c)}

theorem Offers.mono (h : s.Offers F M L) (hF : F' ⊆ F) (hM : M' ⊆ M) (hMF : M' ⊆ F') :
    s.Offers F' M' L where
  key k hk := h.key k (hF hk)
  notLast k hk := h.notLast k (hF hk)
  absent k hk := h.absent k (hF hk)
  subset := hMF
  formatted k hk := h.formatted k (hM hk)
  holds k hk := h.holds k (hM hk)

/-- A write to the files of a subgraph that has an entry in the map. -/
theorem Offers.setStorage (h : s.Offers F M L) (hv : s.set.subgraphMap (subgraphKey c v) ≠ none)
    (hother : ∀ w, subgraphKey c w ≠ subgraphKey c v →
      L'.list w = L.list w ∧ L'.given w = L.given w) : (s.setStorage v t).Offers F M L' where
  key := h.key
  notLast := h.notLast
  absent := h.absent
  subset := h.subset
  formatted := h.formatted
  holds k hk := by
    have hkv : k ≠ subgraphKey c v := fun e => hv (e ▸ h.absent k (h.subset hk))
    have hne : (s.path k, s.removals (s.path k)) ≠ (s.path v, s.opened (subgraphKey c v)) :=
      fun e => path_ne (h.key k (h.subset hk)) hkv (congrArg Prod.fst e)
    change (Function.update s.files _ t (s.path k, s.removals (s.path k))).HoldsLists k L'
    rw [Function.update_of_ne hne]
    refine (h.holds k hk).congr (fun w hw => ?_) fun w hw => ?_
    · exact (hother w (by rwa [hw])).1
    · exact (hother w (by rwa [hw])).2

theorem Offers.preserves_onSubgraph {α : Type} (h : s.Offers F M L)
    (hcoherent : Coherent c s.set) (p : StorageM c (Overflow c) α) :
    ((onSubgraph v p).run s).2.Offers F M L := by
  rcases onSubgraph_cases hcoherent v p with hsame | ⟨hmap, t, ht⟩
  · rwa [hsame]
  · rw [ht]
    exact h.setStorage hmap fun _ _ => ⟨rfl, rfl⟩

/-- A change of the map and of the directories that no subgraph that can be attached sees. -/
theorem Offers.changeSet (h : s.Offers F M L) {set : SubgraphSet}
    (hbasedir : set.basedir = s.set.basedir)
    (hmap : ∀ k ∈ F, set.subgraphMap k = s.set.subgraphMap k)
    (hdir : ∀ k ∈ M, Formatted (s.path k) s.set → Formatted (s.path k) set) :
    ({ s with set := set } : ProviderState c).Offers F M L := by
  have hpath := path_changeSet hbasedir
  refine ⟨h.key, h.notLast, fun k hk => ?_, h.subset, fun k hk => ?_, fun k hk => ?_⟩
  · exact (hmap k hk).trans (h.absent k hk)
  · rw [hpath]
    exact hdir k hk (h.formatted k hk)
  · rw [hpath]
    exact h.holds k hk

theorem Offers.setEntry (h : s.Offers F M L) (key : UInt32) (storage : Option Subgraph) :
    ({ s with set := s.set.setEntry key storage } : ProviderState c).Offers
      (F \ {key}) (M \ {key}) L :=
  (h.mono Set.sdiff_subset Set.sdiff_subset (Set.sdiff_subset_sdiff_left h.subset)).changeSet rfl
    (fun _ hk => setEntry_of_ne s.set hk.2 storage) fun _ _ hk => hk

/-- Nobody offers the files of a directory that was removed. -/
theorem Offers.remove (h : s.Offers F M L) (key : UInt32) :
    (s.remove (s.path key)).Offers F (M \ {subgraphKey c key}) L := by
  have hpath : ∀ k ∈ M \ {subgraphKey c key}, s.path k ≠ s.path key := fun k hk =>
    path_ne (h.key k (h.subset hk.1)) hk.2
  refine ⟨h.key, h.notLast, h.absent, Set.sdiff_subset.trans h.subset, fun k hk => ?_,
    fun k hk => ?_⟩
  · obtain ⟨hmem, hsuper⟩ := h.formatted k hk.1
    refine ⟨List.mem_filter.mpr ⟨hmem, decide_eq_true (hpath k hk)⟩, ?_⟩
    change (Function.update s.set.dir (s.path key) _ (s.path k)).superblock = true
    rwa [Function.update_of_ne (hpath k hk)]
  · have hne : (s.path k, s.removals (s.path k)) ≠ (s.path key, s.removals (s.path key) + 1) :=
      fun he => hpath k hk (congrArg Prod.fst he)
    change (Function.update s.files _ _
      (s.path k, Function.update s.removals _ _ (s.path k))).HoldsLists
      k L
    rw [Function.update_of_ne (hpath k hk), Function.update_of_ne hne]
    exact h.holds k hk.1

/-- Files that are formatted, where there was no superblock. -/
theorem Offers.setFiles (h : s.Offers F M L) (hkey : ∀ k ∈ M, k ≠ subgraphKey c key)
    (t : Storage c (Overflow c)) : ({ s with
      files := Function.update s.files (s.path key, s.removals (s.path key)) t } :
      ProviderState c).Offers F M L := by
  refine ⟨h.key, h.notLast, h.absent, h.subset, h.formatted, fun k hk => ?_⟩
  have hne : (s.path k, s.removals (s.path k)) ≠ (s.path key, s.removals (s.path key)) :=
    fun he => path_ne (h.key k (h.subset hk)) (hkey k hk) (congrArg Prod.fst he)
  change (Function.update s.files _ t (s.path k, s.removals (s.path k))).HoldsLists k L
  rw [Function.update_of_ne hne]
  exact h.holds k hk

theorem Offers.congr (h : s.Offers F M L) (hL : ∀ k ∈ M, ∀ v, subgraphKey c v = k →
    L'.list v = L.list v ∧ L'.given v = L.given v) : s.Offers F M L' where
  key := h.key
  notLast := h.notLast
  absent := h.absent
  subset := h.subset
  formatted := h.formatted
  holds k hk := (h.holds k hk).congr (fun v hv => (hL k hk v hv).1) fun v hv => (hL k hk v hv).2

/-- One more subgraph that can be attached. -/
theorem Offers.insert (h : s.Offers F M L) (hkey : key ∈ F)
    (hformatted : Formatted (s.path key) s.set)
    (hholds : (s.files (s.path key, s.removals (s.path key))).HoldsLists key L) :
    s.Offers F (insert key M) L where
  key := h.key
  notLast := h.notLast
  absent := h.absent
  subset := Set.insert_subset hkey h.subset
  formatted := Set.forall_mem_insert.mpr ⟨hformatted, h.formatted⟩
  holds := Set.forall_mem_insert.mpr ⟨hholds, h.holds⟩

/-- A subgraph that can be attached is not attached. -/
theorem Offers.notMem (h : s.Offers F M L) (hs : s.Serves K L) (hkey : key ∈ F) : key ∉ K :=
  fun hmem => by
    have habsent := h.absent key hkey
    rw [hs.attached key hmem] at habsent
    cases habsent

end Offers

end ProviderState

/-! ### What clients know of a provider -/

/-- The subgraphs that nobody has attached, the ones among them that were created, the subgraphs
that are attached, and the lists of all these. -/
structure RemoteStore (c : Config) where
  fresh : Set UInt32
  created : Set UInt32
  attached : Set UInt32
  lists : ListStore c.blockSz

namespace RemoteStore

variable (S : RemoteStore c) (k : UInt32)

noncomputable def create : RemoteStore c :=
  { S with created := insert k S.created, lists := S.lists.clear k }

def destroy : RemoteStore c := { S with created := S.created \ {k} }

def attach : RemoteStore c where
  fresh := S.fresh \ {k}
  created := S.created \ {k}
  attached := insert k S.attached
  lists := S.lists

/-- The subgraph can not be attached any more. -/
def spend : RemoteStore c := { S with fresh := S.fresh \ {k}, created := S.created \ {k} }

def detach : RemoteStore c := { S with attached := S.attached \ {k} }

end RemoteStore

namespace ProviderState

/-- A provider is as its clients know it. -/
structure Provides (s : ProviderState c) (S : RemoteStore c) : Prop where
  serves : s.Serves S.attached S.lists
  offers : s.Offers S.fresh S.created S.lists

section Provides

variable {s s' : ProviderState c} {S : RemoteStore c} {key : UInt32} {r : Except CallFault Unit}

/-- **Creating a subgraph.** -/
theorem Provides.create (h : s.Provides S) (halign : c.overflowBlknoMin.toNat % c.groupSize = 0)
    {env : CreateEnv}
    (hrun : (ProviderHandler.createSubgraph env key).run s = (r, s')) : s'.Provides S ∧
      (r = .ok () ∧ subgraphKey c key ∈ S.fresh →
        s'.Provides (S.create (subgraphKey c key))) := by
  have hserves := (Serves.preserves_createSubgraph env key).of_run h.serves hrun
  obtain ⟨set, hstep, hcases⟩ := createSubgraph_cases hrun
  obtain ⟨hbasedir, hmap, hformatted⟩ := setStep_create hstep
  have hoffers : ({ s with set := set } : ProviderState c).Offers S.fresh S.created S.lists :=
    h.offers.changeSet hbasedir (fun k _ => by rw [hmap]) fun k _ hk => hformatted _ hk
  have hpath := path_changeSet hbasedir key
  rcases hcases with ⟨⟨what, rfl⟩, rfl⟩ | ⟨hnew, hsuper, t, hformat, rfl⟩
  · exact ⟨⟨hserves, hoffers⟩, fun hr => by cases hr.1⟩
  -- what was created before has a superblock
  have hne : ∀ k ∈ S.created, k ≠ subgraphKey c key := by
    rintro k hk rfl
    have hpresent := h.offers.formatted _ hk
    rw [path_subgraphKey] at hpresent
    exact hnew hpresent
  have hfiles := hoffers.setFiles hne t
  rw [hpath] at hfiles
  refine ⟨⟨hserves, hfiles⟩, fun h' => ?_⟩
  obtain ⟨hr, hfresh⟩ := h'
  refine ⟨?_, ?_⟩
  · refine hserves.congr fun k hk v hv => ListStore.clear_of_ne fun hkey => ?_
    exact h.offers.notMem h.serves hfresh (hkey ▸ hv ▸ hk)
  · have hclear : ∀ k ∈ S.created, ∀ v, subgraphKey c v = k →
        (S.lists.clear (subgraphKey c key)).list v = S.lists.list v ∧
          (S.lists.clear (subgraphKey c key)).given v = S.lists.given v := fun k hk v hv =>
      ListStore.clear_of_ne fun hkey => hne k hk (hv.symm.trans hkey)
    refine (hfiles.congr hclear).insert hfresh ?_ ?_
    · rw [path_subgraphKey]
      exact hpath.symm ▸ hsuper
    · rw [path_subgraphKey]
      change (Function.update s.files _ t (({ s with set := set } : ProviderState c).path key,
        s.removals (({ s with set := set } : ProviderState c).path key))).HoldsLists _ _
      rw [hpath, Function.update_self]
      rcases hformat with ⟨-, hformat⟩ | ⟨what, hwhat⟩
      · exact .of_format halign hformat (h.offers.notLast _ hfresh) fun v hv =>
          ListStore.list_clear_self hv
      · rw [hwhat] at hr
        cases hr

theorem Provides.destroy (h : s.Provides S) {env : CallEnv}
    (hrun : (ProviderHandler.destroySubgraph env key).run s = (r, s')) :
    s'.Provides (S.destroy (subgraphKey c key)) := by
  refine ⟨(Serves.preserves_destroySubgraph env key).of_run h.serves hrun, ?_⟩
  have hsame : s.Offers S.fresh (S.created \ {subgraphKey c key}) S.lists :=
    h.offers.mono subset_rfl Set.sdiff_subset (Set.sdiff_subset.trans h.offers.subset)
  rcases destroySubgraph_cases hrun with ⟨-, rfl | rfl⟩ | ⟨-, rfl⟩
  · exact hsame
  · exact h.offers.remove key
  · exact hsame

/-- **Attaching a subgraph.** -/
theorem Provides.attach (h : s.Provides S) {env : AttachEnv}
    (hrun : (ProviderHandler.attachSubgraph env key).run s = (r, s')) :
    s'.Provides (S.spend key) ∧
      (r = .ok () ∧ key ∈ S.created → s'.Provides (S.attach key)) := by
  have hserves := (Serves.preserves_attachSubgraph env key).of_run h.serves hrun
  have hspend : s.Offers (S.fresh \ {key}) (S.created \ {key}) S.lists :=
    h.offers.mono Set.sdiff_subset Set.sdiff_subset (Set.sdiff_subset_sdiff_left h.offers.subset)
  rcases attachSubgraph_cases hrun with
    ⟨hsome, -, rfl⟩ | ⟨hnone, -, rfl⟩ | ⟨hnone, ⟨what, rfl⟩, rfl | rfl⟩
  · exact ⟨⟨hserves, hspend⟩, fun hr =>
      absurd (h.offers.absent key (h.offers.subset hr.2)) hsome⟩
  · have hentry := h.offers.setEntry key (some ⟨s.path key⟩)
    have hoffers : (⟨s.set.setEntry key (some ⟨s.path key⟩), s.removals,
        Function.update s.opened key (s.removals (s.path key)), s.files⟩ : ProviderState c).Offers
          (S.fresh \ {key}) (S.created \ {key}) S.lists :=
      ⟨hentry.key, hentry.notLast, hentry.absent, hentry.subset, hentry.formatted, hentry.holds⟩
    refine ⟨⟨hserves, hoffers⟩, fun hr => ⟨hserves.insert ?_ ?_ ?_ ?_ ?_, hoffers⟩⟩
    · exact h.offers.key key (h.offers.subset hr.2)
    · exact setEntry_self ..
    · exact Function.update_self ..
    · exact h.offers.formatted key hr.2
    · exact h.offers.holds key hr.2
  · exact ⟨⟨hserves, hspend⟩, fun hr => by cases hr.1⟩
  · exact ⟨⟨hserves, h.offers.setEntry key none⟩, fun hr => by cases hr.1⟩

theorem Provides.detach (h : s.Provides S)
    (hrun : (onSet (detachSubgraph key)).run s = (r, s')) : s'.Provides (S.detach key) := by
  have hkey : key ∉ S.attached \ {key} := fun hmem => hmem.2 rfl
  have hserves : s.Serves (S.attached \ {key}) S.lists := h.serves.mono Set.sdiff_subset
  refine ⟨(Serves.preserves_detachSubgraph hkey).of_run hserves hrun, ?_⟩
  simp only [onSet, detachSubgraph, Prog.run_get_bind, Prod.mk.injEq] at hrun
  obtain ⟨-, rfl⟩ := hrun
  split_ifs with hmap
  · have hne : ∀ k ∈ S.fresh, k ≠ key := by
      rintro k hk rfl
      exact hmap (h.offers.absent k hk)
    exact h.offers.changeSet rfl (fun k hk => setEntry_of_ne s.set (hne k hk) none)
      fun _ _ hk => hk
  · exact h.offers

end Provides

end ProviderState

end Nynn
