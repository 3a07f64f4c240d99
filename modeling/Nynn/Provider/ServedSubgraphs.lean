import Nynn.Provider.ProviderHandler

/-!
# The subgraphs that a provider serves

Some subgraphs of a provider are attached and hold the lists of their vertices. Calls to other
subgraphs do not reach their files. Neither do calls that create, attach or destroy subgraphs, also
when they remove the directory of one of these: the files that are mapped stay, and files that are
made anew are other ones.

Source: `ProviderDaemon.cpp`, `nynn_mm_subgraph_set.h`.

## Main definitions

* `Nynn.ProviderState.Serves`: a provider serves the lists of some subgraphs.

## Main results

* `Nynn.ProviderState.Serves.onSubgraph_run`: a call to a subgraph that is served.
* `Nynn.ProviderState.Serves.preserves_onSubgraph`,
  `Nynn.ProviderState.Serves.preserves_createSubgraph` and the other calls that leave the lists
  alone.
-/

namespace Nynn

open Program Transition

variable {c : Config}

/-! ### The subgraphs that are served -/

namespace ProviderState

variable (s : ProviderState c)

/-- The directory of the subgraph of a vertex. -/
def path (v : UInt32) : List Char := makeSubgraphPath c s.set.basedir v

/-- The storage of the subgraph of a vertex. -/
def storage (v : UInt32) : Storage c (Overflow c) := s.files (s.path v, s.opened (subgraphKey c v))

def setStorage (v : UInt32) (t : Storage c (Overflow c)) : ProviderState c :=
  { s with files := Function.update s.files (s.path v, s.opened (subgraphKey c v)) t }

/-- The subgraphs `K` are attached and hold the lists of their vertices. A directory that was opened
and not removed since then has its files. -/
structure Serves (K : Set UInt32) (L : ListStore c.blockSz) : Prop where
  coherent : Coherent c s.set
  key : ∀ k ∈ K, subgraphKey c k = k
  attached : ∀ k ∈ K, s.set.subgraphMap k = some (some ⟨s.path k⟩)
  opened_le : ∀ k ∈ K, s.opened k ≤ s.removals (s.path k)
  present : ∀ k ∈ K, s.opened k = s.removals (s.path k) →
    s.path k ∈ s.set.paths ∧ (s.set.dir (s.path k)).superblock = true
  holds : ∀ k ∈ K, (s.files (s.path k, s.opened k)).HoldsLists k L

variable {s} {K : Set UInt32} {L L' : ListStore c.blockSz} {v w : UInt32}
  {t : Storage c (Overflow c)}

theorem Serves.congr (hs : s.Serves K L) (hL : ∀ k ∈ K, ∀ v, subgraphKey c v = k →
    L'.list v = L.list v ∧ L'.given v = L.given v) : s.Serves K L' where
  coherent := hs.coherent
  key := hs.key
  attached := hs.attached
  opened_le := hs.opened_le
  present := hs.present
  holds k hk := (hs.holds k hk).congr (fun v hv => (hL k hk v hv).1) fun v hv => (hL k hk v hv).2

theorem Serves.mono {K' : Set UInt32} (hs : s.Serves K L) (hK : K' ⊆ K) : s.Serves K' L where
  coherent := hs.coherent
  key k hk := hs.key k (hK hk)
  attached k hk := hs.attached k (hK hk)
  opened_le k hk := hs.opened_le k (hK hk)
  present k hk := hs.present k (hK hk)
  holds k hk := hs.holds k (hK hk)

theorem path_eq_iff : s.path v = s.path w ↔ subgraphKey c v = subgraphKey c w := by
  refine ⟨fun h => ?_, fun h => ?_⟩
  · have hkey := congrArg makeSubgraphKey h
    rwa [path, path, makeSubgraphKey_makeSubgraphPath, makeSubgraphKey_makeSubgraphPath] at hkey
  · rw [path, path, ← makeSubgraphPath_subgraphKey, h, makeSubgraphPath_subgraphKey]

theorem path_subgraphKey : s.path (subgraphKey c v) = s.path v := makeSubgraphPath_subgraphKey v

/-- Another subgraph has another directory. -/
theorem path_ne (hv : subgraphKey c v = v) (hne : v ≠ subgraphKey c w) : s.path v ≠ s.path w :=
  fun h => hne (hv.symm.trans (path_eq_iff.mp h))

theorem path_changeSet {set : SubgraphSet} (hbasedir : set.basedir = s.set.basedir) (v : UInt32) :
    ({ s with set := set } : ProviderState c).path v = s.path v := by
  rw [path, path, hbasedir]

/-! #### Calls to the subgraph of a vertex -/

section OnSubgraph

variable {α : Type} {p : StorageM c (Overflow c) α}

theorem onSubgraph_run (hmap : s.set.subgraphMap (subgraphKey c v) = some (some ⟨s.path v⟩)) :
    (onSubgraph v p).run s =
      ((p.run (s.storage v)).1.mapError .fault, s.setStorage v (p.run (s.storage v)).2) := by
  have hget : (onSet (getSubgraph c v)).run s = (.ok ⟨s.path v⟩, s) := by
    have hrun : (getSubgraph c v).run s.set = (.ok ⟨s.path v⟩, s.set) := by
      rw [getSubgraph, Prog.run_get_bind, hmap]
      rfl
    simp only [onSet, hrun]
    rfl
  rw [onSubgraph, Prog.run_bind_of_ok hget]
  rfl

/-- Nothing is done where no subgraph is attached. -/
theorem onSubgraph_run_of_not_attached
    (hmap : ∀ subgraph, s.set.subgraphMap (subgraphKey c v) ≠ some (some subgraph)) :
    ((onSubgraph v p).run s).2 = s := by
  have hget : ∃ e, (onSet (getSubgraph c v)).run s = (.error e, s) := by
    simp only [onSet, getSubgraph, Prog.run_get_bind]
    rcases hkey : s.set.subgraphMap (subgraphKey c v) with _ | _ | subgraph
    · exact ⟨_, rfl⟩
    · exact ⟨_, rfl⟩
    · exact absurd hkey (hmap subgraph)
  obtain ⟨e, he⟩ := hget
  rw [onSubgraph, Prog.run_bind_of_error he]

/-- A write to the files of the subgraph of a vertex. -/
theorem Serves.setStorage (hs : s.Serves K L) (ht : t.HoldsLists (subgraphKey c v) L')
    (hother : ∀ w, subgraphKey c w ≠ subgraphKey c v →
      L'.list w = L.list w ∧ L'.given w = L.given w) : (s.setStorage v t).Serves K L' where
  coherent := hs.coherent
  key := hs.key
  attached := hs.attached
  opened_le := hs.opened_le
  present := hs.present
  holds k hk := by
    change (Function.update s.files (s.path v, s.opened (subgraphKey c v)) t
      (s.path k, s.opened k)).HoldsLists k L'
    by_cases hkv : k = subgraphKey c v
    · rw [hkv, path_subgraphKey, Function.update_self]
      exact ht
    · have hne : (s.path k, s.opened k) ≠ (s.path v, s.opened (subgraphKey c v)) := fun h =>
        path_ne (hs.key k hk) hkv (congrArg Prod.fst h)
      rw [Function.update_of_ne hne]
      refine (hs.holds k hk).congr (fun w hw => ?_) fun w hw => ?_
      · exact (hother w (by rwa [hw])).1
      · exact (hother w (by rwa [hw])).2

theorem Serves.setStorage_of_notMem (hs : s.Serves K L) (hv : subgraphKey c v ∉ K) :
    (s.setStorage v t).Serves K L where
  coherent := hs.coherent
  key := hs.key
  attached := hs.attached
  opened_le := hs.opened_le
  present := hs.present
  holds k hk := by
    have hne : (s.path k, s.opened k) ≠ (s.path v, s.opened (subgraphKey c v)) := fun h =>
      path_ne (hs.key k hk) (ne_of_mem_of_not_mem hk hv) (congrArg Prod.fst h)
    change (Function.update s.files _ t (s.path k, s.opened k)).HoldsLists k L
    rw [Function.update_of_ne hne]
    exact hs.holds k hk

/-- A call to a subgraph that is served. -/
theorem Serves.onSubgraph_run (hs : s.Serves K L) (hv : subgraphKey c v ∈ K)
    {r : Except Fault α} (hp : p.run (s.storage v) = (r, t)) :
    (onSubgraph v p).run s = (r.mapError .fault, s.setStorage v t) := by
  have hmap := hs.attached _ hv
  rw [path_subgraphKey] at hmap
  rw [ProviderState.onSubgraph_run hmap, hp]

/-- A call changes nothing but the files of the subgraph of its vertex. -/
theorem onSubgraph_cases (hcoherent : Coherent c s.set) (v : UInt32)
    (p : StorageM c (Overflow c) α) :
    ((onSubgraph v p).run s).2 = s ∨ s.set.subgraphMap (subgraphKey c v) ≠ none ∧
      ∃ t, ((onSubgraph v p).run s).2 = s.setStorage v t := by
  by_cases hmap : ∃ subgraph, s.set.subgraphMap (subgraphKey c v) = some (some subgraph)
  · obtain ⟨subgraph, hmap⟩ := hmap
    have hpath : s.set.subgraphMap (subgraphKey c v) = some (some ⟨s.path v⟩) := by
      rw [hmap, path, ← makeSubgraphPath_subgraphKey v, ← hcoherent _ _ hmap]
    exact Or.inr ⟨by simp [hmap], _, congrArg Prod.snd (ProviderState.onSubgraph_run hpath)⟩
  · exact Or.inl (onSubgraph_run_of_not_attached fun subgraph h => hmap ⟨subgraph, h⟩)

/-- Calls to other subgraphs. -/
theorem Serves.preserves_onSubgraph (hv : subgraphKey c v ∉ K) :
    Preserves (Serves (c := c) · K L) (onSubgraph v p) := by
  intro s hs
  rcases onSubgraph_cases hs.coherent v p with hsame | ⟨-, t, ht⟩
  · rwa [hsame]
  · rw [ht]
    exact hs.setStorage_of_notMem hv

end OnSubgraph

/-! #### Subgraphs that are created, attached and removed -/

section Subgraphs

theorem caught_cases {p : ProviderM c Unit} {s s' : ProviderState c} {r : Except CallFault Bool}
    (h : (caught p).run s = (r, s')) :
    ∃ r', p.run s = (r', s') ∧ (r = .ok true ↔ r' = .ok ()) := by
  rcases hp : p.run s with ⟨(_ | _) | ⟨⟩, s''⟩ <;> simp only [caught, hp] at h
  · rename_i e
    cases e <;> (obtain ⟨rfl, rfl⟩ := Prod.mk.inj h; simp)
  · obtain ⟨rfl, rfl⟩ := Prod.mk.inj h
    simp
  · obtain ⟨rfl, rfl⟩ := Prod.mk.inj h
    simp

theorem preserves_caught {I : ProviderState c → Prop} {p : ProviderM c Unit}
    (hp : Preserves I p) : Preserves I (caught p) := by
  intro s hs
  have hs' := hp s hs
  rcases h : p.run s with ⟨(_ | _) | ⟨⟩, s'⟩ <;> rw [h] at hs' <;> simp only [caught, h]
  · rename_i e
    cases e <;> exact hs'
  · exact hs'
  · exact hs'

theorem preserves_ended {α : Type} {I : ProviderState c → Prop} {p : ProviderM c (Option α)}
    (hp : Preserves I p) : Preserves I (ended p) :=
  hp.bind fun
    | some a => .pure a
    | none => .fail _

/-- A directory with a superblock. -/
def Formatted (path : List Char) (s : SubgraphSet) : Prop :=
  path ∈ s.paths ∧ (s.dir path).superblock = true

theorem preserves_createFile {path : List Char} (disk : CreateOutcome) (path' : List Char)
    (has : SubgraphDir → Bool) {add : SubgraphDir → SubgraphDir}
    (hadd : ∀ d, d.superblock = true → (add d).superblock = true) :
    Preserves (Formatted path) (createFile disk path' has add) := by
  have hcreate : Preserves (Formatted path) (Prog.modify fun s : SubgraphSet =>
      { s with dir := Function.update s.dir path' (add (s.dir path')) } : SubgraphSetM Unit) := by
    refine .modify fun s hs => ⟨hs.1, ?_⟩
    by_cases hpath : path = path'
    · subst hpath
      simpa only [Function.update_self] using hadd _ hs.2
    · simpa only [Function.update_of_ne hpath] using hs.2
  refine .bind .get fun s => .ite (.fail _) (.ite (.fail _) ?_)
  cases disk with
  | ok => exact hcreate
  | openFails errno => exact .fail _
  | writeFails errno => exact hcreate.bind fun _ => .fail _
  | laterCallFails errno => exact hcreate.bind fun _ => .fail _

theorem preserves_createSubgraph {path : List Char} (env : CreateEnv) (key : UInt32) :
    Preserves (Formatted path) (createSubgraph c env key) := by
  refine .bind .get fun s => .ite (.bind (.modify fun s hs => ?_) fun _ => .mapError ?_) (.fail _)
  · split_ifs
    · exact ⟨List.mem_cons_of_mem _ hs.1, hs.2⟩
    · exact hs
  · exact .bind (preserves_createFile _ _ _ fun _ _ => rfl) fun _ =>
      .bind (preserves_createFile _ _ _ fun _ h => h) fun _ =>
        preserves_createFile _ _ _ fun _ h => h

/-- A subgraph that has its superblock is not created again. -/
theorem createSubgraph_fails {env : CreateEnv} {key : UInt32} {s s' : SubgraphSet}
    {r : Except Fault Unit} (hs : Formatted (makeSubgraphPath c s.basedir key) s)
    (hrun : (createSubgraph c env key).run s = (r, s')) : ∃ e, r = .error e := by
  rw [createSubgraph, Prog.run_get_bind] at hrun
  cases hsystem : env.system with
  | false =>
    simp only [hsystem, Bool.false_eq_true, if_false, Prog.run_fail] at hrun
    exact ⟨_, (Prod.mk.inj hrun).1.symm⟩
  | true =>
    have hsame : (if env.mkdirP && makeSubgraphPath c s.basedir key ∉ s.paths then
        { s with paths := makeSubgraphPath c s.basedir key :: s.paths } else s) = s := by
      simp [hs.1]
    have hexists : (createFile env.superblock (makeSubgraphPath c s.basedir key)
        SubgraphDir.superblock fun d => { d with superblock := true }).run s =
          (.error (.exception "File exists"), s) := by
      rw [createFile, Prog.run_get_bind, if_neg (not_not_intro hs.1), if_pos hs.2, Prog.run_fail]
    simp only [hsystem, if_true, Prog.run_modify_bind, hsame] at hrun
    rw [rethrow, Prog.run_mapError, formatFiles, Prog.run_bind_of_error hexists] at hrun
    exact ⟨_, (Prod.mk.inj hrun).1.symm⟩

/-- A change of the map and of the directories that no served subgraph sees. -/
theorem Serves.changeSet (hs : s.Serves K L) {set : SubgraphSet} (hcoherent : Coherent c set)
    (hbasedir : set.basedir = s.set.basedir)
    (hmap : ∀ k ∈ K, set.subgraphMap k = s.set.subgraphMap k)
    (hdir : ∀ k ∈ K, Formatted (s.path k) s.set → Formatted (s.path k) set) :
    ({ s with set := set } : ProviderState c).Serves K L := by
  have hpath := path_changeSet hbasedir
  refine ⟨hcoherent, hs.key, fun k hk => ?_, fun k hk => ?_, fun k hk => ?_, fun k hk => ?_⟩
  · rw [hpath, ← hs.attached k hk]
    exact hmap k hk
  · rw [hpath]
    exact hs.opened_le k hk
  · rw [hpath]
    exact fun h => hdir k hk (hs.present k hk h)
  · rw [hpath]
    exact hs.holds k hk

/-- A superblock that was created is in the directory. -/
private theorem formatted_createFile {disk : CreateOutcome} {path : List Char}
    {s s' : SubgraphSet} {u : Unit}
    (hrun : (createFile disk path SubgraphDir.superblock fun d =>
      { d with superblock := true }).run s = (.ok u, s')) : Formatted path s' := by
  rw [createFile, Prog.run_get_bind] at hrun
  by_cases hpath : path ∉ s.paths
  · rw [if_pos hpath, Prog.run_fail] at hrun
    cases hrun
  by_cases hhas : (s.dir path).superblock = true
  · rw [if_neg hpath, if_pos hhas, Prog.run_fail] at hrun
    cases hrun
  rw [if_neg hpath, if_neg hhas] at hrun
  cases disk with
  | ok =>
    rw [Prog.run_modify, Prod.mk.injEq] at hrun
    obtain ⟨-, rfl⟩ := hrun
    exact ⟨not_not.mp hpath, by simp only [Function.update_self]⟩
  | openFails errno => cases hrun
  | writeFails errno => cases hrun
  | laterCallFails errno => cases hrun

/-- A subgraph that was created has its superblock. -/
theorem formatted_createSubgraph {env : CreateEnv} {key : UInt32} {s s' : SubgraphSet}
    (hrun : (createSubgraph c env key).run s = (.ok (), s')) :
    Formatted (makeSubgraphPath c s.basedir key) s' := by
  rw [createSubgraph, Prog.run_get_bind] at hrun
  cases hsystem : env.system with
  | false =>
    simp only [hsystem, Bool.false_eq_true, if_false, Prog.run_fail] at hrun
    cases hrun
  | true =>
    simp only [hsystem, if_true, Prog.run_modify_bind] at hrun
    generalize (if env.mkdirP && makeSubgraphPath c s.basedir key ∉ s.paths then
      { s with paths := makeSubgraphPath c s.basedir key :: s.paths } else s) = s₀ at hrun
    generalize makeSubgraphPath c s.basedir key = path at hrun ⊢
    rcases hformat : (formatFiles env path).run s₀ with ⟨r, s''⟩
    rw [rethrow, Prog.run_mapError, hformat, Prod.mk.injEq] at hrun
    obtain ⟨hr, rfl⟩ := hrun
    obtain rfl : r = .ok () := by
      cases r with
      | error e => cases hr
      | ok u => rfl
    obtain ⟨u, s₁, hsuper, hrest⟩ := Prog.of_bind_eq_ok hformat
    refine Preserves.of_run ?_ (formatted_createFile hsuper) hrest
    exact .bind (preserves_createFile _ _ _ fun _ h => h) fun _ =>
      preserves_createFile _ _ _ fun _ h => h

/-- What the creation of a subgraph does to the map and the directories. -/
theorem setStep_create {env : CreateEnv} {key : UInt32} {s s' : SubgraphSet}
    (h : SetStep c s (.create env key) s') :
    s'.basedir = s.basedir ∧ s'.subgraphMap = s.subgraphMap ∧
      ∀ path, Formatted path s → Formatted path s' := by
  obtain ⟨r, hrun⟩ := h.exists_run
  have hkeeps := (keeps_createSubgraph (c := c) env key).of_run hrun
  rw [Prod.mk.injEq] at hkeeps
  exact ⟨hkeeps.1, hkeeps.2, fun path hpath =>
    (ProviderState.preserves_createSubgraph env key).of_run hpath hrun⟩

theorem createSubgraph_error {env : CreateEnv} {key : UInt32} {s s' : SubgraphSet} {e : Fault}
    (hrun : (createSubgraph c env key).run s = (.error e, s')) : ∃ what, e = .exception what := by
  rw [createSubgraph, Prog.run_get_bind] at hrun
  cases hsystem : env.system with
  | false =>
    simp only [hsystem, Bool.false_eq_true, if_false, Prog.run_fail, Prod.mk.injEq] at hrun
    exact ⟨_, (Except.error.inj hrun.1).symm⟩
  | true =>
    simp only [hsystem, if_true, Prog.run_modify_bind, rethrow, Prog.run_mapError,
      Prod.mk.injEq] at hrun
    generalize ((formatFiles _ _).run _).1 = r at hrun
    cases r with
    | error => exact ⟨_, (Except.error.inj hrun.1).symm⟩
    | ok => cases hrun.1

/-- **Creating a subgraph.** Files are formatted only where there was no superblock. -/
theorem createSubgraph_cases {env : CreateEnv} {key : UInt32} {s s' : ProviderState c}
    {r : Except CallFault Unit} (h : (ProviderHandler.createSubgraph env key).run s = (r, s')) :
    ∃ set, SetStep c s.set (.create env key) set ∧
      ((∃ what, r = .error (.fault (.exception what))) ∧ s' = { s with set := set } ∨
        ¬Formatted (s.path key) s.set ∧ Formatted (s.path key) set ∧ ∃ t,
          (r = .ok () ∧ format (Overflow.empty c) (subgraphKey c key) = (.ok (), t) ∨
            ∃ what, r = .error (.fault (.exception what))) ∧
          s' = { s with
            set := set
            files := Function.update s.files (s.path key, s.removals (s.path key)) t }) := by
  rcases hcreate : (createSubgraph c env key).run s.set with ⟨e | u, set⟩
  · obtain ⟨what, rfl⟩ := createSubgraph_error hcreate
    have hrun : (onSet (createSubgraph c env key)).run s =
        (.error (.fault (.exception what)), { s with set }) := by
      simp only [onSet, hcreate]
      rfl
    rw [ProviderHandler.createSubgraph, Prog.run_bind_of_error hrun, Prod.mk.injEq] at h
    exact ⟨set, congrArg Prod.snd hcreate, Or.inl ⟨⟨what, h.1.symm⟩, h.2.symm⟩⟩
  · have hrun : (onSet (createSubgraph c env key)).run s = (.ok (), { s with set }) := by
      simp only [onSet, hcreate]
      rfl
    have hstep : SetStep c s.set (.create env key) set := congrArg Prod.snd hcreate
    have hnew : ¬Formatted (s.path key) s.set := fun hpresent => by
      obtain ⟨e, he⟩ := createSubgraph_fails hpresent hcreate
      cases he
    refine ⟨set, hstep, Or.inr ⟨hnew, formatted_createSubgraph hcreate, ?_⟩⟩
    rw [ProviderHandler.createSubgraph, Prog.run_bind_of_ok hrun, Prog.run_get_bind] at h
    dsimp only at h
    rw [(setStep_create hstep).1, makeSubgraphKey_makeSubgraphPath] at h
    rcases hformat : format (Overflow.empty c) (subgraphKey c key) with ⟨e | u, t⟩
    · rw [hformat, Prog.run_modify_bind, Prog.run_fail, Prod.mk.injEq] at h
      exact ⟨t, Or.inr ⟨_, h.1.symm⟩, h.2.symm⟩
    · rw [hformat, Prog.run_modify_bind, Prog.run_pure, Prod.mk.injEq] at h
      exact ⟨t, Or.inl ⟨h.1.symm, rfl⟩, h.2.symm⟩

/-- To create a subgraph changes no files that are in use. -/
theorem Serves.preserves_createSubgraph (env : CreateEnv) (key : UInt32) :
    Preserves (Serves (c := c) · K L) (ProviderHandler.createSubgraph env key) := by
  intro s hs
  rcases hrun : (ProviderHandler.createSubgraph env key).run s with ⟨r, s'⟩
  obtain ⟨set, hstep, hcases⟩ := createSubgraph_cases hrun
  obtain ⟨hbasedir, hmap, hformatted⟩ := setStep_create hstep
  have hs₁ : ({ s with set := set } : ProviderState c).Serves K L :=
    hs.changeSet (hs.coherent.step hstep) hbasedir (fun k _ => by rw [hmap]) fun k _ hk =>
      hformatted _ hk
  rcases hcases with ⟨-, rfl⟩ | ⟨hnew, -, t, -, rfl⟩
  · exact hs₁
  · refine ⟨hs₁.coherent, hs₁.key, hs₁.attached, hs₁.opened_le, hs₁.present, fun k hk => ?_⟩
    -- the files that were formatted belong to no served subgraph: its superblock would be there
    have hne : (s.path k, s.opened k) ≠ (s.path key, s.removals (s.path key)) := fun he => by
      rw [Prod.mk.injEq] at he
      have hpresent := hs.present k hk (by rw [he.1, he.2])
      rw [he.1] at hpresent
      exact hnew hpresent
    have hk' := hs₁.holds k hk
    rw [path_changeSet hbasedir] at hk'
    change (Function.update s.files _ t
      (makeSubgraphPath c set.basedir k, s.opened k)).HoldsLists k L
    rw [hbasedir]
    change (Function.update s.files _ t (s.path k, s.opened k)).HoldsLists k L
    rw [Function.update_of_ne hne]
    exact hk'

/-- Nobody reads the files of a directory again when it has been removed. -/
theorem Serves.remove (hs : s.Serves K L) (path' : List Char) : (s.remove path').Serves K L where
  coherent := hs.coherent
  key := hs.key
  attached := hs.attached
  opened_le k hk := by
    have hle := hs.opened_le k hk
    change s.opened k ≤ Function.update s.removals path' _ (s.path k)
    by_cases hpath : s.path k = path'
    · rw [hpath, Function.update_self, ← hpath]
      omega
    · rwa [Function.update_of_ne hpath]
  present k hk h := by
    have hle := hs.opened_le k hk
    change s.opened k = Function.update s.removals path' _ (s.path k) at h
    change s.path k ∈ s.set.paths.filter (· ≠ path') ∧
      (Function.update s.set.dir path' _ (s.path k)).superblock = true
    by_cases hpath : s.path k = path'
    · rw [hpath, Function.update_self, ← hpath] at h
      omega
    · rw [Function.update_of_ne hpath] at h ⊢
      obtain ⟨hmem, hsuper⟩ := hs.present k hk h
      exact ⟨List.mem_filter.mpr ⟨hmem, by simpa using hpath⟩, hsuper⟩
  holds k hk := by
    have hle := hs.opened_le k hk
    have hne : (s.path k, s.opened k) ≠ (path', s.removals path' + 1) := by
      intro he
      rw [Prod.mk.injEq] at he
      rw [he.1] at hle
      omega
    change (Function.update s.files _ _ (s.path k, s.opened k)).HoldsLists k L
    rw [Function.update_of_ne hne]
    exact hs.holds k hk

/-- **Removing a subgraph.** The provider does not know whether the directory has gone. -/
theorem destroySubgraph_cases {env : CallEnv} {key : UInt32} {s s' : ProviderState c}
    {r : Except CallFault Unit} (h : (ProviderHandler.destroySubgraph env key).run s = (r, s')) :
    (r = .ok () ∧ (s' = s ∨ s' = s.remove (s.path key))) ∨
      (∃ what, r = .error (.fault (.exception what))) ∧ s' = s := by
  rw [ProviderHandler.destroySubgraph, Prog.run_get_bind] at h
  dsimp only at h
  cases hsystem : env.system with
  | false =>
    rw [hsystem, if_neg Bool.false_ne_true, Prog.run_fail, Prod.mk.injEq] at h
    exact Or.inr ⟨⟨_, h.1.symm⟩, h.2.symm⟩
  | true =>
    rw [hsystem, if_pos rfl, Prog.run_modify, Prod.mk.injEq] at h
    obtain ⟨hr, hs'⟩ := h
    refine Or.inl ⟨hr.symm, ?_⟩
    split_ifs at hs'
    · exact Or.inr hs'.symm
    · exact Or.inl hs'.symm

theorem Serves.preserves_destroySubgraph (env : CallEnv) (key : UInt32) :
    Preserves (Serves (c := c) · K L) (ProviderHandler.destroySubgraph env key) := by
  intro s hs
  rcases hrun : (ProviderHandler.destroySubgraph env key).run s with ⟨r, s'⟩
  rcases destroySubgraph_cases hrun with ⟨-, rfl | rfl⟩ | ⟨-, rfl⟩
  · exact hs
  · exact hs.remove _
  · exact hs

/-- Another entry of the map. -/
theorem Serves.setEntry (hs : s.Serves K L) {key : UInt32} (hkey : key ∉ K)
    {storage : Option Subgraph} (hcoherent : Coherent c (s.set.setEntry key storage)) :
    ({ s with set := s.set.setEntry key storage } : ProviderState c).Serves K L :=
  hs.changeSet hcoherent rfl
    (fun _ hk => setEntry_of_ne s.set (ne_of_mem_of_not_mem hk hkey) storage) fun _ _ h => h

theorem Serves.preserves_detachSubgraph {key : UInt32} (hkey : key ∉ K) :
    Preserves (Serves (c := c) · K L) (onSet (detachSubgraph key)) := by
  intro s hs
  rcases hrun : (detachSubgraph key).run s.set with ⟨r, set⟩
  have hstep : SetStep c s.set (.detach key) set := congrArg Prod.snd hrun
  have hcoherent := hs.coherent.step hstep
  simp only [onSet, hrun]
  rcases detachSubgraph_cases hrun with rfl | rfl
  · exact hs
  · exact hs.setEntry hkey hcoherent

/-- **Attaching a subgraph.** Only a subgraph without an entry in the map is opened. -/
theorem attachSubgraph_cases {env : AttachEnv} {key : UInt32} {s s' : ProviderState c}
    {r : Except CallFault Unit} (h : (ProviderHandler.attachSubgraph env key).run s = (r, s')) :
    (s.set.subgraphMap key ≠ none ∧ r = .ok () ∧ s' = s) ∨
    (s.set.subgraphMap key = none ∧ r = .ok () ∧ s' = { s with
      set := s.set.setEntry key (some ⟨s.path key⟩)
      opened := Function.update s.opened key (s.removals (s.path key)) }) ∨
    (s.set.subgraphMap key = none ∧ (∃ what, r = .error (.fault (.exception what))) ∧
      (s' = s ∨ s' = { s with set := s.set.setEntry key none })) := by
  rcases hrun : (attachSubgraph c env key).run s.set with ⟨r', set⟩
  have hset : (onSet (attachSubgraph c env key)).run s = (r'.mapError .fault, { s with set }) := by
    simp only [onSet, hrun]
  rw [ProviderHandler.attachSubgraph, Prog.run_get_bind] at h
  rcases Nynn.attachSubgraph_cases hrun with
    ⟨hsome, rfl, rfl⟩ | ⟨hnone, rfl, rfl⟩ | ⟨hnone, rfl, hset'⟩
  · rw [Prog.run_bind_of_ok hset, if_neg hsome, Prog.run_pure, Prod.mk.injEq] at h
    exact Or.inl ⟨hsome, h.1.symm, h.2.symm⟩
  · rw [Prog.run_bind_of_ok hset, if_pos hnone, Prog.run_modify, Prod.mk.injEq] at h
    exact Or.inr (Or.inl ⟨hnone, h.1.symm, h.2.symm⟩)
  · rw [Prog.run_bind_of_error hset, Prod.mk.injEq] at h
    refine Or.inr (Or.inr ⟨hnone, ⟨_, h.1.symm⟩, ?_⟩)
    rcases hset' with rfl | rfl
    · exact Or.inl h.2.symm
    · exact Or.inr h.2.symm

/-- One more subgraph that is served. -/
theorem Serves.insert (hs : s.Serves K L) {key : UInt32} (hkey : subgraphKey c key = key)
    (hmap : s.set.subgraphMap key = some (some ⟨s.path key⟩))
    (hopened : s.opened key = s.removals (s.path key)) (hformatted : Formatted (s.path key) s.set)
    (hholds : (s.files (s.path key, s.removals (s.path key))).HoldsLists key L) :
    s.Serves (insert key K) L where
  coherent := hs.coherent
  key := Set.forall_mem_insert.mpr ⟨hkey, hs.key⟩
  attached := Set.forall_mem_insert.mpr ⟨hmap, hs.attached⟩
  opened_le := Set.forall_mem_insert.mpr ⟨hopened.le, hs.opened_le⟩
  present := Set.forall_mem_insert.mpr ⟨fun _ => hformatted, hs.present⟩
  holds := Set.forall_mem_insert.mpr ⟨hopened ▸ hholds, hs.holds⟩

/-- To attach a subgraph changes nothing where one is attached. -/
theorem Serves.preserves_attachSubgraph (env : AttachEnv) (key : UInt32) :
    Preserves (Serves (c := c) · K L) (ProviderHandler.attachSubgraph env key) := by
  intro s hs
  rcases hrun : (ProviderHandler.attachSubgraph env key).run s with ⟨r, s'⟩
  have habsent : s.set.subgraphMap key = none → key ∉ K := fun hnone hmem => by
    rw [hs.attached key hmem] at hnone
    cases hnone
  rcases attachSubgraph_cases hrun with ⟨-, -, rfl⟩ | ⟨hnone, -, rfl⟩ | ⟨hnone, -, rfl | rfl⟩
  · exact hs
  · have hs₁ := hs.setEntry (habsent hnone) (hs.coherent.setEntry fun _ h => by
      rw [← Option.some.inj h])
    have hopened : ∀ k ∈ K, ∀ n, Function.update s.opened key n k = s.opened k := fun k hk n =>
      Function.update_of_ne (ne_of_mem_of_not_mem hk (habsent hnone)) ..
    refine ⟨hs₁.coherent, hs₁.key, hs₁.attached, fun k hk => ?_, fun k hk h => ?_, fun k hk => ?_⟩
    · exact (hopened k hk _).trans_le (hs₁.opened_le k hk)
    · exact hs₁.present k hk ((hopened k hk _).symm.trans h)
    · have hk' := hs₁.holds k hk
      change (s.files (_, Function.update s.opened key _ k)).HoldsLists k L
      rw [hopened k hk]
      exact hk'
  · exact hs
  · exact hs.setEntry (habsent hnone) (hs.coherent.setEntry fun _ h => by cases h)

end Subgraphs

end ProviderState

end Nynn
