import Nynn.Library.Transition
import Nynn.Rpc.BinaryProtocol
import Nynn.Rpc.Processor
import Mathlib.Data.List.Sigma

/-!
# A server with its connections

Clients send calls on their connections, without waiting for answers. The server takes one call after
the other, from any connection, and writes the answer to that connection. A client reads an answer
for the oldest of its calls that has none.

There are any number of connections, their steps come in any order, and the clients may have been
generated from other versions of the service. All calls happen one after another at the handler, in
one order that has the calls of every client in the order in which it sent them. Every client gets the
answers to its own calls, each once and in this order.

Source: `Provider.cpp`, `Producer.cpp`, `Agent.cpp`.

## Main definitions

* `Nynn.Connections`: the state of a server and its connections.
* `Nynn.Connections.Step`: what the clients and the server do.
* `Nynn.execute`: calls one after another.

## Main results

* `Nynn.calls_linearized`: every run is a sequence of calls.
* `Nynn.calls_local`: for one version of a service, they are calls of the handler.
* `Nynn.calls_return`: every call that was sent can return.
-/

namespace Nynn

open Program Transition

/-- What a client has read for a call. -/
structure Outcome (C : Service) where
  method : C.Method
  result : Except TException (C.ret method).Value

/-- A connection. What was sent and read is remembered. -/
structure Connection (B : Type) (C : Service) where
  /-- What the client has written and the server has not read. -/
  requests : List B
  /-- What the server has written and the client has not read. -/
  replies : List B
  sent : List C.Call
  outcomes : List (Outcome C)

variable {B σ ι : Type} [DecidableEq ι] {C : ι → Service} {S : Service}

/-- A server with its connections. The calls that the handler has seen are remembered. -/
structure Connections (B σ : Type) (C : ι → Service) where
  state : σ
  conn : (i : ι) → Connection B (C i)
  log : List (Sigma fun i => (C i).Call)

namespace Connections

def init (s₀ : σ) : Connections B σ C := ⟨s₀, fun _ => ⟨[], [], [], []⟩, []⟩

/-- The oldest call that the server has not read. -/
def nextCall (s : Connections B σ C) (i : ι) : Option (C i).Call :=
  (s.conn i).sent[(s.log.lookupAll i).length]?

def afterSend (P : TProtocol B) (s : Connections B σ C) (i : ι) (call : (C i).Call) :
    Connections B σ C :=
  { s with
    conn := Function.update s.conn i { s.conn i with
      requests := (s.conn i).requests ++ Client.send P call
      sent := (s.conn i).sent ++ [call] } }

def afterServe (s : Connections B σ C) (i : ι) (reply rest : List B) (state' : σ) :
    Connections B σ C where
  state := state'
  conn := Function.update s.conn i { s.conn i with
    requests := rest
    replies := (s.conn i).replies ++ reply }
  log := s.log ++ (s.nextCall i).toList.map (Sigma.mk i)

def afterRecv (s : Connections B σ C) (i : ι) (outcome : Outcome (C i)) (rest : List B) :
    Connections B σ C :=
  { s with
    conn := Function.update s.conn i { s.conn i with
      replies := rest
      outcomes := (s.conn i).outcomes ++ [outcome] } }

inductive Event (C : ι → Service)
  | send (i : ι) (call : (C i).Call)
  | serve (i : ι)
  | recv (i : ι)

inductive Step (P : TProtocol B) (h : Handler S σ) :
    Connections B σ C → Event C → Connections B σ C → Prop
  | send {s : Connections B σ C} {i : ι} {call : (C i).Call} (hfits : call.Fits) :
    Step P h s (.send i call) (s.afterSend P i call)
  /-- A whole frame has arrived. -/
  | serve {s : Connections B σ C} {i : ι} {reply rest : List B} {state' : σ}
    (hne : (s.conn i).requests ≠ [])
    (hserve : (Processor.serve P h).run ((s.conn i).requests, s.state) =
      (.ok reply, rest, state')) :
    Step P h s (.serve i) (s.afterServe i reply rest state')
  | recv {s : Connections B σ C} {i : ι} {call : (C i).Call}
    {result : Except TException ((C i).ret call.method).Value} {rest : List B}
    (hcall : (s.conn i).sent[(s.conn i).outcomes.length]? = some call)
    (hne : (s.conn i).replies ≠ [])
    (hrecv : (Client.recv P call.method).run (s.conn i).replies = (result, rest)) :
    Step P h s (.recv i) (s.afterRecv i ⟨call.method, result⟩ rest)

end Connections

/-! ### Calls one after another -/

/-- Calls one after another, with what the clients make of them. -/
def execute (h : Handler S σ) :
    List (Sigma fun i => (C i).Call) → σ → List (Sigma fun i => Outcome (C i)) × σ
  | [], s => ([], s)
  | ⟨i, call⟩ :: log, s =>
    let (os, s') := execute h log (remote h call s).2
    (⟨i, call.method, (remote h call s).1⟩ :: os, s')

/-- What the handler returns to these calls one after another can be written. -/
def LogFits (h : Handler S σ) : List (Sigma fun i => (C i).Call) → σ → Prop
  | [], _ => True
  | ⟨_, call⟩ :: log, s => RemoteFits h call s ∧ LogFits h log (remote h call s).2

/-- Calls of a handler one after another. Exceptions come with their texts. -/
def Handler.execute (h : Handler S σ) :
    List (Sigma fun _ : ι => S.Call) → σ → List (Sigma fun _ : ι => Outcome S) × σ
  | [], s => ([], s)
  | ⟨i, call⟩ :: log, s =>
    let (os, s') := Handler.execute h log (h call s).2
    (⟨i, call.method, (h call s).1.mapError fun what => .application ⟨.unknown, what⟩⟩ :: os, s')

section Execute

omit [DecidableEq ι] in
theorem execute_self (h : Handler S σ) (log : List (Sigma fun _ : ι => S.Call)) (s : σ) :
    Nynn.execute (C := fun _ => S) h log s = Handler.execute h log s := by
  induction log generalizing s with
  | nil => rfl
  | cons e log ih =>
    obtain ⟨i, call⟩ := e
    rw [Nynn.execute, Handler.execute, ih, remote_self]

variable {i : ι}

omit [DecidableEq ι] in
theorem execute_concat (h : Handler S σ) (log : List (Sigma fun i => (C i).Call)) (s : σ)
    (call : (C i).Call) :
    execute h (log ++ [Sigma.mk i call]) s =
      ((execute h log s).1 ++ [⟨i, call.method, (remote h call (execute h log s).2).1⟩],
        (remote h call (execute h log s).2).2) := by
  induction log generalizing s with
  | nil => rfl
  | cons e log ih =>
    obtain ⟨j, call'⟩ := e
    rw [List.cons_append, execute, ih, execute]
    rfl

omit [DecidableEq ι] in
theorem logFits_concat (h : Handler S σ) (log : List (Sigma fun i => (C i).Call)) (s : σ)
    (call : (C i).Call) :
    LogFits h (log ++ [Sigma.mk i call]) s ↔
      LogFits h log s ∧ RemoteFits h call (execute h log s).2 := by
  induction log generalizing s with
  | nil => simp [LogFits, execute]
  | cons e log ih =>
    obtain ⟨j, call'⟩ := e
    rw [List.cons_append, LogFits, ih, LogFits, and_assoc]
    rfl

theorem lookupAll_append {β : ι → Type} (l l' : List (Sigma β)) :
    (l ++ l').lookupAll i = l.lookupAll i ++ l'.lookupAll i := by
  induction l with
  | nil => rfl
  | cons a l ih =>
    by_cases hia : i = a.1
    · obtain ⟨j, b⟩ := a
      obtain rfl : i = j := hia
      rw [List.cons_append, List.lookupAll_cons_eq, List.lookupAll_cons_eq, ih, List.cons_append]
    · rw [List.cons_append, List.lookupAll_cons_ne _ a hia, List.lookupAll_cons_ne _ a hia, ih]

theorem lookupAll_concat {β : ι → Type} (l : List (Sigma β)) (b : β i) :
    (l ++ [Sigma.mk i b]).lookupAll i = l.lookupAll i ++ [b] := by
  rw [lookupAll_append, List.lookupAll_cons_eq, List.lookupAll_nil]

theorem lookupAll_concat_of_ne {β : ι → Type} (l : List (Sigma β)) {j : ι} (hij : i ≠ j)
    (b : β j) : (l ++ [Sigma.mk j b]).lookupAll i = l.lookupAll i := by
  rw [lookupAll_append, List.lookupAll_cons_ne [] (Sigma.mk j b) hij, List.lookupAll_nil,
    List.append_nil]

/-- Every client has one outcome for each of its calls. -/
theorem method_lookupAll_execute (h : Handler S σ) (log : List (Sigma fun i => (C i).Call)) (s : σ)
    (i : ι) :
    ((execute h log s).1.lookupAll i).map Outcome.method =
      (log.lookupAll i).map Service.Call.method := by
  induction log generalizing s with
  | nil => rfl
  | cons e log ih =>
    obtain ⟨j, call⟩ := e
    rw [execute]
    dsimp only
    by_cases hij : i = j
    · obtain rfl := hij
      rw [List.lookupAll_cons_eq, List.lookupAll_cons_eq, List.map_cons, List.map_cons, ih]
    · simp only [ne_eq, hij, not_false_iff, List.lookupAll_cons_ne, ih]

end Execute

/-! ### Bytes in flight -/

/-- Answers as a client reads them. -/
inductive Encodes (P : TProtocol B) {C : Service} : List (Outcome C) → List B → Prop
  | nil : Encodes P [] []
  | cons {m : C.Method} {result : Except TException (C.ret m).Value} {reply bs : List B}
    {os : List (Outcome C)} (hne : reply ≠ [])
    (hreply : ∀ rest, (Client.recv P m).run (reply ++ rest) = (result, rest))
    (hos : Encodes P os bs) : Encodes P (⟨m, result⟩ :: os) (reply ++ bs)

theorem Encodes.concat {P : TProtocol B} {C : Service} {os : List (Outcome C)} {bs reply : List B}
    {m : C.Method} {result : Except TException (C.ret m).Value} (hos : Encodes P os bs)
    (hne : reply ≠ []) (hreply : ∀ rest, (Client.recv P m).run (reply ++ rest) = (result, rest)) :
    Encodes P (os ++ [⟨m, result⟩]) (bs ++ reply) := by
  induction hos with
  | nil =>
    have h : Encodes P [⟨m, result⟩] (reply ++ []) := .cons hne hreply .nil
    rwa [List.append_nil] at h
  | cons hne' hreply' _ ih =>
    rw [List.append_assoc]
    exact .cons hne' hreply' ih

theorem Client.send_ne_nil {P : TProtocol B} {C : Service} (call : C.Call) : send P call ≠ [] := by
  rw [send, List.append_assoc]
  exact fun h => P.writeMessageBegin_ne_nil _ _ _ (List.append_eq_nil_iff.mp h).1

namespace Connections

variable {P : TProtocol B} {h : Handler S σ} {s s' : Connections B σ C} {s₀ : σ}
  {e : Event C} {es : List (Event C)}

/-- What is in flight on a connection are the calls that the handler has not seen and the answers that
the client has not read. -/
structure Carries (P : TProtocol B) {C : Service} (calls : List C.Call) (outcomes : List (Outcome C))
    (c : Connection B C) : Prop where
  requests : ∃ waiting, c.sent = calls ++ waiting ∧
    c.requests = waiting.flatMap (Client.send P) ∧ ∀ call ∈ waiting, call.Fits
  replies : ∃ ready, outcomes = c.outcomes ++ ready ∧ Encodes P ready c.replies

structure Invariant (P : TProtocol B) (h : Handler S σ) (s₀ : σ) (s : Connections B σ C) : Prop where
  state : s.state = (execute h s.log s₀).2
  carries : ∀ i, Carries P (s.log.lookupAll i) ((execute h s.log s₀).1.lookupAll i) (s.conn i)

theorem invariant_init : Invariant P h s₀ (.init s₀ : Connections B σ C) where
  state := rfl
  carries _ := ⟨⟨[], rfl, rfl, by simp⟩, ⟨[], rfl, .nil⟩⟩

/-- A step of a connection that the handler does not take part in. -/
theorem Invariant.update (hinv : Invariant P h s₀ s) {i : ι} {c : Connection B (C i)}
    (hc : Carries P (s.log.lookupAll i) ((execute h s.log s₀).1.lookupAll i) c) :
    Invariant P h s₀ { s with conn := Function.update s.conn i c } where
  state := hinv.state
  carries j := by
    by_cases hij : j = i
    · obtain rfl := hij
      simpa only [Function.update_self] using hc
    · simpa only [Function.update_of_ne hij] using hinv.carries j

/-- The server can read the next call if there is one. -/
theorem Invariant.serve_run (hinv : Invariant P h s₀ s) (hspeaks : ∀ i, (C i).Speaks S) {i : ι}
    (hne : (s.conn i).requests ≠ []) :
    ∃ call waiting, s.nextCall i = some call ∧
      (s.conn i).sent = s.log.lookupAll i ++ call :: waiting ∧ (∀ call ∈ waiting, call.Fits) ∧
      (Processor.serve P h).run ((s.conn i).requests, s.state) =
        (.ok (Processor.reply P h call s.state), waiting.flatMap (Client.send P),
          (remote h call s.state).2) := by
  obtain ⟨waiting, hsent, hrequests, hfits⟩ := (hinv.carries i).requests
  cases waiting with
  | nil => exact absurd hrequests hne
  | cons call waiting =>
    rw [List.forall_mem_cons] at hfits
    refine ⟨call, waiting, ?_, hsent, hfits.2, ?_⟩
    · rw [nextCall, hsent, List.getElem?_append_right le_rfl, Nat.sub_self, List.getElem?_cons_zero]
    · rw [hrequests, List.flatMap_cons]
      exact Processor.serve_send (hspeaks i) hfits.1 _ _

theorem Invariant.serve (hspeaks : ∀ i, (C i).Speaks S) (hinv : Invariant P h s₀ s) {i : ι}
    {call : (C i).Call} (hh : RemoteFits h call s.state) {waiting : List (C i).Call}
    (hnext : s.nextCall i = some call)
    (hsent : (s.conn i).sent = s.log.lookupAll i ++ call :: waiting)
    (hwaiting : ∀ call ∈ waiting, call.Fits) :
    Invariant P h s₀ (s.afterServe i (Processor.reply P h call s.state)
      (waiting.flatMap (Client.send P)) (remote h call s.state).2) := by
  have hexec := execute_concat h s.log s₀ call
  rw [← hinv.state] at hexec
  rw [afterServe, hnext, Option.toList_some, List.map_singleton]
  refine ⟨by rw [hexec], fun j => ?_⟩
  dsimp only
  rw [hexec]
  by_cases hij : j = i
  · obtain rfl := hij
    obtain ⟨ready, houtcomes, hready⟩ := (hinv.carries j).replies
    rw [lookupAll_concat, lookupAll_concat, Function.update_self]
    refine ⟨⟨waiting, ?_, rfl, hwaiting⟩, ⟨ready ++ [⟨call.method, (remote h call s.state).1⟩], ?_, ?_⟩⟩
    · rw [hsent, List.append_assoc, List.singleton_append]
    · rw [houtcomes, List.append_assoc]
    · exact hready.concat (Processor.reply_ne_nil call s.state)
        (Client.recv_reply_of_call (hspeaks j) hh)
  · rw [lookupAll_concat_of_ne _ hij, lookupAll_concat_of_ne _ hij, Function.update_of_ne hij]
    exact hinv.carries j

/-- The next answer is for the oldest call that has none. -/
theorem Invariant.call_of_outcome (hinv : Invariant P h s₀ s) {i : ι} {m : (C i).Method}
    {result : Except TException ((C i).ret m).Value} {os : List (Outcome (C i))}
    (houtcomes : (execute h s.log s₀).1.lookupAll i = (s.conn i).outcomes ++ ⟨m, result⟩ :: os) :
    ∃ call, (s.conn i).sent[(s.conn i).outcomes.length]? = some call ∧ call.method = m := by
  obtain ⟨waiting, hsent, -, -⟩ := (hinv.carries i).requests
  have hmethods := method_lookupAll_execute h s.log s₀ i
  rw [houtcomes, List.map_append, List.map_cons] at hmethods
  have hget : ((s.log.lookupAll i).map Service.Call.method)[(s.conn i).outcomes.length]? =
      some m := by
    rw [← hmethods, List.getElem?_append_right (by rw [List.length_map]), List.length_map,
      Nat.sub_self, List.getElem?_cons_zero]
  rw [List.getElem?_map, Option.map_eq_some_iff] at hget
  obtain ⟨call, hcall, hm⟩ := hget
  obtain ⟨hlt, -⟩ := List.getElem?_eq_some_iff.mp hcall
  exact ⟨call, by rw [hsent, List.getElem?_append_left hlt, hcall], hm⟩

/-- A client reads the next answer of its own. -/
theorem Invariant.recv (hinv : Invariant P h s₀ s) {i : ι} {call : (C i).Call}
    {result : Except TException ((C i).ret call.method).Value} {rest : List B}
    (hcall : (s.conn i).sent[(s.conn i).outcomes.length]? = some call)
    (hne : (s.conn i).replies ≠ [])
    (hrecv : (Client.recv P call.method).run (s.conn i).replies = (result, rest)) :
    Invariant P h s₀ (s.afterRecv i ⟨call.method, result⟩ rest) := by
  obtain ⟨ready, houtcomes, hready⟩ := (hinv.carries i).replies
  refine hinv.update ⟨(hinv.carries i).requests, ?_⟩
  generalize (s.conn i).replies = replies at hne hrecv hready
  cases hready with
  | nil => exact absurd rfl hne
  | @cons m result' reply bs os hne' hreply hos =>
    obtain ⟨call', hcall', hm⟩ := hinv.call_of_outcome houtcomes
    obtain rfl : call = call' := Option.some.inj (hcall.symm.trans hcall')
    obtain rfl := hm
    rw [hreply bs, Prod.mk.injEq] at hrecv
    obtain ⟨rfl, rfl⟩ := hrecv
    exact ⟨os, by rw [houtcomes, List.append_assoc, List.singleton_append], hos⟩

theorem Invariant.step (hspeaks : ∀ i, (C i).Speaks S) (hinv : Invariant P h s₀ s)
    (hh : ∀ i, e = .serve i → ∀ call, s.nextCall i = some call → RemoteFits h call s.state)
    (hstep : Step P h s e s') : Invariant P h s₀ s' := by
  cases hstep with
  | @send i call hfits =>
    obtain ⟨waiting, hsent, hrequests, hwaiting⟩ := (hinv.carries i).requests
    refine hinv.update ⟨⟨waiting ++ [call], ?_, ?_, ?_⟩, (hinv.carries i).replies⟩
    · rw [hsent, List.append_assoc]
    · rw [hrequests, List.flatMap_append, List.flatMap_singleton]
    · rw [List.forall_mem_append, List.forall_mem_singleton]
      exact ⟨hwaiting, hfits⟩
  | serve hne hserve =>
    obtain ⟨call, waiting, hnext, hsent, hwaiting, hrun⟩ := hinv.serve_run hspeaks hne
    rw [hrun, Prod.mk.injEq, Prod.mk.injEq, Except.ok.injEq] at hserve
    obtain ⟨rfl, rfl, rfl⟩ := hserve
    exact hinv.serve hspeaks (hh _ rfl call hnext) hnext hsent hwaiting
  | recv hcall hne hrecv => exact hinv.recv hcall hne hrecv

theorem invariant_of_run (hspeaks : ∀ i, (C i).Speaks S) (hh : h.Fits)
    (hrun : Steps (Step P h) (.init s₀) es s) : Invariant P h s₀ s :=
  hrun.invariant (fun _ _ _ hinv hstep =>
    hinv.step hspeaks (fun _ _ call _ => hh.remoteFits call _) hstep) invariant_init

/-- Calls in any order can happen and return. -/
theorem exists_run (P : TProtocol B) (hspeaks : ∀ i, (C i).Speaks S)
    {log : List (Sigma fun i => (C i).Call)} (hcalls : ∀ e ∈ log, e.2.Fits)
    (hfits : LogFits h log s₀) :
    ∃ es s, Steps (Step P h) (.init s₀) es s ∧ s.log = log ∧ s.state = (execute h log s₀).2 ∧
      ∀ i, s.conn i = ⟨[], [], log.lookupAll i, (execute h log s₀).1.lookupAll i⟩ := by
  induction log using List.reverseRecOn with
  | nil => exact ⟨[], .init s₀, .nil, rfl, rfl, fun _ => rfl⟩
  | append_singleton log e ih =>
    obtain ⟨i, call⟩ := e
    obtain ⟨hlog, hremote⟩ := (logFits_concat h log s₀ call).mp hfits
    obtain ⟨hcalls, hcall⟩ := List.forall_mem_append.mp hcalls
    rw [List.forall_mem_singleton] at hcall
    obtain ⟨es, s, hrun, hslog, hstate, hconn⟩ := ih hcalls hlog
    rw [← hstate] at hremote
    let s₁ := s.afterSend P i call
    let s₂ := s₁.afterServe i (Processor.reply P h call s.state) [] (remote h call s.state).2
    let s₃ := s₂.afterRecv i ⟨call.method, (remote h call s.state).1⟩ []
    have hconn₁ : s₁.conn i = ⟨Client.send P call, [], log.lookupAll i ++ [call],
        (execute h log s₀).1.lookupAll i⟩ := by
      simp only [s₁, afterSend, Function.update_self, hconn, List.nil_append]
    have hnext : s₁.nextCall i = some call := by
      rw [nextCall, hconn₁, show s₁.log = log from hslog, List.getElem?_concat_length]
    have hconn₂ : s₂.conn i = ⟨[], Processor.reply P h call s.state, log.lookupAll i ++ [call],
        (execute h log s₀).1.lookupAll i⟩ := by
      simp only [s₂, afterServe, Function.update_self, hconn₁, List.nil_append]
    have hsend : Step P h s (.send i call) s₁ := .send hcall
    have hserve : Step P h s₁ (.serve i) s₂ := by
      refine .serve ?_ ?_
      · rw [hconn₁]
        exact Client.send_ne_nil call
      · have hread := Processor.serve_send (P := P) (h := h) (hspeaks i) hcall [] s.state
        rw [List.append_nil] at hread
        rw [hconn₁]
        exact hread
    have hrecv : Step P h s₂ (.recv i) s₃ := by
      refine .recv ?_ ?_ ?_
      · have hlen := congrArg List.length (method_lookupAll_execute h log s₀ i)
        rw [List.length_map, List.length_map] at hlen
        rw [hconn₂, hlen, List.getElem?_concat_length]
      · rw [hconn₂]
        exact Processor.reply_ne_nil call s.state
      · have hread := Client.recv_reply_of_call (P := P) (hspeaks i) hremote []
        rw [List.append_nil] at hread
        rw [hconn₂]
        exact hread
    refine ⟨_, s₃, ((hrun.snoc hsend).snoc hserve).snoc hrecv, ?_, ?_, fun j => ?_⟩
    · change s₁.log ++ (s₁.nextCall i).toList.map (Sigma.mk i) = _
      rw [hnext, show s₁.log = log from hslog, Option.toList_some, List.map_singleton]
    · rw [execute_concat, ← hstate]
      rfl
    · rw [execute_concat, ← hstate]
      by_cases hij : j = i
      · obtain rfl := hij
        rw [lookupAll_concat, lookupAll_concat]
        simp only [s₃, afterRecv, Function.update_self, hconn₂]
      · rw [lookupAll_concat_of_ne _ hij, lookupAll_concat_of_ne _ hij, ← hconn j]
        simp only [s₃, s₂, s₁, afterRecv, afterServe, afterSend, Function.update_of_ne hij]

/-- A call that the handler has seen stays in front of the later ones. -/
theorem log_isPrefix (hrun : Steps (Step P h) s es s') : s.log <+: s'.log := by
  refine hrun.invariant (I := fun s' => s.log <+: s'.log) (fun _ _ _ hlog hstep => ?_)
    (List.prefix_refl _)
  cases hstep with
  | serve => exact hlog.trans (List.prefix_append _ _)
  | _ => exact hlog

/-- The server reads what a client has sent. -/
theorem Invariant.serve_all (hspeaks : ∀ i, (C i).Speaks S) (hh : h.Fits)
    (hinv : Invariant P h s₀ s) (i : ι) :
    ∃ n s', Steps (Step P h) s (List.replicate n (.serve i)) s' ∧ Invariant P h s₀ s' ∧
      (s'.conn i).sent = (s.conn i).sent ∧ (s'.conn i).requests = [] := by
  obtain ⟨waiting, hsent, -, -⟩ := (hinv.carries i).requests
  induction waiting generalizing s with
  | nil =>
    refine ⟨0, s, .nil, hinv, rfl, ?_⟩
    by_contra hne
    obtain ⟨call, waiting, -, hsent', -⟩ := hinv.serve_run hspeaks hne
    rw [hsent, List.append_cancel_left_eq] at hsent'
    cases hsent'
  | cons call waiting ih =>
    have hne : (s.conn i).requests ≠ [] := by
      obtain ⟨waiting', hsent', hrequests, -⟩ := (hinv.carries i).requests
      rw [hsent, List.append_cancel_left_eq] at hsent'
      rw [hrequests, ← hsent', List.flatMap_cons]
      exact fun h => Client.send_ne_nil call (List.append_eq_nil_iff.mp h).1
    obtain ⟨call', waiting', hnext, hsent', -, hrun⟩ := hinv.serve_run hspeaks hne
    rw [hsent, List.append_cancel_left_eq, List.cons.injEq] at hsent'
    obtain ⟨rfl, -⟩ := hsent'
    have hstep := Step.serve (h := h) hne hrun
    have hinv' := hinv.step hspeaks (fun _ _ call _ => hh.remoteFits call _) hstep
    rw [afterServe, hnext, Option.toList_some, List.map_singleton] at hstep hinv'
    obtain ⟨n, s', hsteps, hinv'', hsame, hempty⟩ := ih hinv' (by
      simp only [Function.update_self, lookupAll_concat]
      rw [hsent, List.append_assoc, List.singleton_append])
    refine ⟨n + 1, s', .cons hstep hsteps, hinv'', ?_, hempty⟩
    rw [hsame]
    simp only [Function.update_self]

/-- A client reads the answers to what the server has read. -/
theorem Invariant.recv_all (hspeaks : ∀ i, (C i).Speaks S) (hh : h.Fits)
    (hinv : Invariant P h s₀ s) {i : ι} (hempty : (s.conn i).requests = []) :
    ∃ n s', Steps (Step P h) s (List.replicate n (.recv i)) s' ∧ Invariant P h s₀ s' ∧
      (s'.conn i).sent = (s.conn i).sent ∧ s'.log = s.log ∧
      (s'.conn i).outcomes = (execute h s.log s₀).1.lookupAll i := by
  obtain ⟨ready, houtcomes, hready⟩ := (hinv.carries i).replies
  induction ready generalizing s with
  | nil => exact ⟨0, s, .nil, hinv, rfl, rfl, by rw [houtcomes, List.append_nil]⟩
  | cons o os ih =>
    generalize hbytes : (s.conn i).replies = replies at hready
    cases hready with
    | @cons m result reply bs os hne hreply hos =>
      obtain ⟨call, hcall, rfl⟩ := hinv.call_of_outcome houtcomes
      have hstep := Step.recv (P := P) (h := h) hcall
        (by rw [hbytes]; exact fun h => hne (List.append_eq_nil_iff.mp h).1)
        (by rw [hbytes, hreply bs])
      have hinv' := hinv.step hspeaks (fun _ _ call _ => hh.remoteFits call _) hstep
      obtain ⟨n, s', hsteps, hinv'', hsent, hlog, hall⟩ := ih hinv'
        (by simpa only [afterRecv, Function.update_self] using hempty)
        (by
          simp only [afterRecv, Function.update_self]
          rw [houtcomes, List.append_assoc, List.singleton_append])
        (by simpa only [afterRecv, Function.update_self] using hos)
      refine ⟨n + 1, s', .cons hstep hsteps, hinv'', ?_, hlog, hall⟩
      rw [hsent]
      simp only [afterRecv, Function.update_self]

end Connections

/-! ### Two clients -/

/-- A handler that only counts its calls. -/
def countCalls (S : Service) : Handler S ℕ := fun call n =>
  (.ok (S.ret call.method).default, n + 1)

theorem countCalls_fits (S : Service) : (countCalls S).Fits := fun call _ =>
  (S.ret call.method).fits_default

/-- A client of an agent and a client of the producer, both connected to a provider. -/
def strayClients : Bool → Service
  | false => agentService
  | true => producerService

theorem strayClients_speak (i : Bool) : (strayClients i).Speaks providerService := by
  have hmem : strayClients i ∈ daemons := by cases i <;> simp [strayClients, daemons]
  exact daemons_speak _ hmem _ (by simp [daemons])

def lockCall : agentService.Call := ⟨.lock, fun
  | ⟨0, _⟩ => (5 : Int32)⟩

def getHostCall : producerService.Call := ⟨.getHost, fun
  | ⟨0, _⟩ => (7 : Int32)⟩

def popCall : providerService.Call := ⟨.pop, fun
  | ⟨0, _⟩ => (5 : Int32)⟩

theorem lockCall_fits : lockCall.Fits := by decide

theorem getHostCall_fits : getHostCall.Fits := by decide

theorem popCall_fits : popCall.Fits := by decide

open Connections in
/-- The second client is served before the first one, and has its answer before the first one is
served. -/
theorem two_calls {C : Bool → Service} {h : Handler S σ} (P : TProtocol B)
    (hspeaks : ∀ i, (C i).Speaks S) (hh : h.Fits) {call : (C false).Call} {call' : (C true).Call}
    (hcall : call.Fits) (hcall' : call'.Fits) (s₀ : σ) :
    ∃ s : Connections B σ C, Steps (Step P h) (.init s₀)
      [.send false call, .send true call', .serve true, .recv true, .serve false] s := by
  let s₁ : Connections B σ C := afterSend P (.init s₀) false call
  let s₂ := afterSend P s₁ true call'
  let s₃ := afterServe s₂ true (Processor.reply P h call' s₀) [] (remote h call' s₀).2
  let s₄ := afterRecv s₃ true ⟨call'.method, (remote h call' s₀).1⟩ []
  let s₅ := afterServe s₄ false (Processor.reply P h call s₃.state) [] (remote h call s₃.state).2
  have h₁ : Step P h (.init s₀) (.send false call) s₁ := .send hcall
  have h₂ : Step P h s₁ (.send true call') s₂ := .send hcall'
  have hserve' := Processor.serve_send (P := P) (h := h) (hspeaks true) hcall' [] s₀
  have hrecv := Client.recv_reply_of_call (P := P) (hspeaks true) (hh.remoteFits call' s₀) []
  have hserve := Processor.serve_send (P := P) (h := h) (hspeaks false) hcall [] s₃.state
  rw [List.append_nil] at hserve' hrecv hserve
  have h₃ : Step P h s₂ (.serve true) s₃ := .serve (Client.send_ne_nil _) hserve'
  have h₄ : Step P h s₃ (.recv true) s₄ := @Step.recv _ _ _ _ _ _ P h s₃ true call' _ [] rfl
    (Processor.reply_ne_nil (P := P) (h := h) call' s₀) hrecv
  have h₅ : Step P h s₄ (.serve false) s₅ := .serve (Client.send_ne_nil _) hserve
  exact ⟨s₅, .cons h₁ (.cons h₂ (.cons h₃ (.cons h₄ (.single h₅))))⟩

/-! ### Every run -/

section Runs

variable {P : TProtocol B} {h : Handler S σ} {s s' : Connections B σ C} {s₀ : σ}
  {es es' : List (Connections.Event C)}

/-- **Every run is a sequence of calls**, also where the clients were generated from other services than
the server. The calls that were seen before stay in front, those of a client are in the order in which
it sent them, and each client has read the first of its answers. -/
theorem calls_linearized (hspeaks : ∀ i, (C i).Speaks S) (hh : h.Fits)
    (hrun : Steps (Connections.Step P h) (.init s₀) es s)
    (hrun' : Steps (Connections.Step P h) s es' s') :
    s'.state = (execute h s'.log s₀).2 ∧ s.log <+: s'.log ∧
      ∀ i, s'.log.lookupAll i <+: (s'.conn i).sent ∧
        (s'.conn i).outcomes <+: (execute h s'.log s₀).1.lookupAll i := by
  have hinv := Connections.invariant_of_run hspeaks hh (hrun.append hrun')
  refine ⟨hinv.state, Connections.log_isPrefix hrun', fun i => ⟨?_, ?_⟩⟩
  · obtain ⟨waiting, hsent, -⟩ := (hinv.carries i).requests
    exact ⟨waiting, hsent.symm⟩
  · obtain ⟨ready, houtcomes, -⟩ := (hinv.carries i).replies
    exact ⟨ready, houtcomes.symm⟩

theorem calls_linearized_small :
    ∃ s : Connections UInt8 ℕ strayClients,
      Steps (Connections.Step binaryProtocol (countCalls providerService)) (.init 0)
        [.send false lockCall, .send true getHostCall, .serve true, .recv true, .serve false] s ∧
      s.state = (execute (countCalls providerService) s.log 0).2 ∧
      ∀ i, s.log.lookupAll i <+: (s.conn i).sent ∧
        (s.conn i).outcomes <+: (execute (countCalls providerService) s.log 0).1.lookupAll i := by
  obtain ⟨s, hrun⟩ := two_calls (C := strayClients) binaryProtocol strayClients_speak
    (countCalls_fits providerService) lockCall_fits getHostCall_fits 0
  obtain ⟨hstate, -, hcalls⟩ := calls_linearized strayClients_speak (countCalls_fits _) hrun .nil
  exact ⟨s, hrun, hstate, hcalls⟩

/-- **Calls are calls of the handler.** For clients of the version of the server, every run is a
sequence of calls of the handler, and what a client reads is what the handler returned for its own
calls. -/
theorem calls_local {s s' : Connections B σ fun _ : ι => S}
    {es es' : List (Connections.Event fun _ : ι => S)} (hh : h.Fits)
    (hrun : Steps (Connections.Step P h) (.init s₀) es s)
    (hrun' : Steps (Connections.Step P h) s es' s') :
    s'.state = (Handler.execute h s'.log s₀).2 ∧ s.log <+: s'.log ∧
      ∀ i, s'.log.lookupAll i <+: (s'.conn i).sent ∧
        (s'.conn i).outcomes <+: (Handler.execute h s'.log s₀).1.lookupAll i := by
  have hcalls := calls_linearized (fun _ => S.speaks_self) hh hrun hrun'
  rwa [execute_self] at hcalls

theorem calls_local_small :
    ∃ s : Connections UInt8 ℕ fun _ : Bool => providerService,
      Steps (Connections.Step binaryProtocol (countCalls providerService)) (.init 0)
        [.send false popCall, .send true popCall, .serve true, .recv true, .serve false] s ∧
      s.state = (Handler.execute (countCalls providerService) s.log 0).2 ∧
      ∀ i, s.log.lookupAll i <+: (s.conn i).sent ∧ (s.conn i).outcomes <+:
        (Handler.execute (countCalls providerService) s.log 0).1.lookupAll i := by
  obtain ⟨s, hrun⟩ := two_calls (C := fun _ => providerService) binaryProtocol
    (fun _ => providerService.speaks_self) (countCalls_fits providerService) popCall_fits
    popCall_fits 0
  obtain ⟨hstate, -, hcalls⟩ := calls_local (countCalls_fits _) hrun .nil
  exact ⟨s, hrun, hstate, hcalls⟩

/-- **Every call can return.** From every reachable state, the server can read what a client has sent,
and then the client can read all its answers, whatever the other clients do not do. -/
theorem calls_return (hspeaks : ∀ i, (C i).Speaks S) (hh : h.Fits)
    (hrun : Steps (Connections.Step P h) (.init s₀) es s) (i : ι) :
    ∃ n m s', Steps (Connections.Step P h) s
        (List.replicate n (.serve i) ++ List.replicate m (.recv i)) s' ∧
      (s'.conn i).sent = (s.conn i).sent ∧ s'.log.lookupAll i = (s.conn i).sent ∧
      (s'.conn i).outcomes = (execute h s'.log s₀).1.lookupAll i := by
  have hinv := Connections.invariant_of_run hspeaks hh hrun
  obtain ⟨n, s₁, hserve, hinv₁, hsent₁, hempty⟩ := hinv.serve_all hspeaks hh i
  obtain ⟨m, s₂, hrecv, hinv₂, hsent₂, hlog, houtcomes⟩ := hinv₁.recv_all hspeaks hh hempty
  refine ⟨n, m, s₂, hserve.append hrecv, hsent₂.trans hsent₁, ?_, by rw [houtcomes, hlog]⟩
  obtain ⟨waiting, hsent, hrequests, -⟩ := (hinv₁.carries i).requests
  have hwaiting : waiting = [] := by
    rw [hempty] at hrequests
    cases waiting with
    | nil => rfl
    | cons call waiting =>
      have hnil := List.append_eq_nil_iff.mp (List.flatMap_cons.symm.trans hrequests.symm)
      exact absurd hnil.1 (Client.send_ne_nil call)
  rw [hwaiting, List.append_nil] at hsent
  rw [hlog, ← hsent, hsent₁]

theorem calls_return_small :
    ∃ s : Connections UInt8 ℕ strayClients,
      Steps (Connections.Step binaryProtocol (countCalls providerService)) (.init 0)
        [.send false lockCall, .send true getHostCall, .serve true, .recv true, .serve false] s ∧
      ∃ n m s', Steps (Connections.Step binaryProtocol (countCalls providerService)) s
          (List.replicate n (.serve false) ++ List.replicate m (.recv false)) s' ∧
        (s'.conn false).sent = (s.conn false).sent ∧
        s'.log.lookupAll false = (s.conn false).sent ∧
        (s'.conn false).outcomes =
          (execute (countCalls providerService) s'.log 0).1.lookupAll false := by
  obtain ⟨s, hrun⟩ := two_calls (C := strayClients) binaryProtocol strayClients_speak
    (countCalls_fits providerService) lockCall_fits getHostCall_fits 0
  exact ⟨s, hrun, calls_return strayClients_speak (countCalls_fits _) hrun false⟩

end Runs

end Nynn
