import Nynn.Rpc.Services

/-!
# Calls of methods

A client writes the name of a method and its arguments, and reads the result or an exception. The
processor of a service looks the name up, reads the arguments, calls the handler and writes what it
returns. Exceptions of the handler become exceptions of the client.

The client and the server may have been generated from different versions of a service, or from
different services. `remote` says what such a call does, without any bytes.

Source: `Provider.cpp`, `Producer.cpp`, `Agent.cpp`.

## Main definitions

* `Nynn.Handler`: what a service does.
* `Nynn.Processor.dispatchCall`, `Nynn.Processor.process`: the server.
* `Nynn.Client.send`, `Nynn.Client.recv`: the client.
* `Nynn.remote`: what a call does.

## Main results

* `Nynn.Processor.serve_send`, `Nynn.Client.recv_reply_of_call`: a call does what `remote` says.
* `Nynn.remote_self`: `remote` is the handler for clients and servers of one version.
-/

namespace Nynn

open Program Wire

open TProtocol (Values)

variable {B σ α : Type}

/-- The exception of a server that does not have the method. -/
def invalidMethodName (fname : String) : TApplicationException :=
  ⟨.unknownMethod, "Invalid method name: '" ++ fname ++ "'"⟩

/-- The handler of a service, on its state. An exception is given by `what()`. -/
abbrev Handler (S : Service) (σ : Type) :=
  (call : S.Call) → σ → Except String (S.ret call.method).Value × σ

/-- What the handler returns to a call can be written. -/
def Handler.FitsAt {S : Service} (h : Handler S σ) (call : S.Call) (s : σ) : Prop :=
  match (h call s).1 with
  | .ok success => (S.ret call.method).Fits success
  | .error what => SizeFits what.utf8ByteSize

/-- What the handler returns can be written. -/
def Handler.Fits {S : Service} (h : Handler S σ) : Prop :=
  ∀ call s, match (h call s).1 with
    | .ok success => (S.ret call.method).Fits success
    | .error what => SizeFits what.utf8ByteSize

/-- The arguments that a struct has after it was read. -/
def orDefault {fields : TProtocol.Fields} (found : Found FieldType.Value fields) : Values fields :=
  fun i => (found i).getD (fields.get i).type.default

/-! ### The server -/

/-- Programs of a server, on what it has to read and the state of its handler. -/
abbrev ServerM (B σ : Type) : Type → Type := Prog (List B × σ) TException

def ServerM.input (p : Prog (List B) TException α) : ServerM B σ α :=
  ⟨fun (bs, s) => ((p.run bs).1, (p.run bs).2, s)⟩

def ServerM.call {S : Service} (h : Handler S σ) (call : S.Call) :
    ServerM B σ (Except String (S.ret call.method).Value) :=
  ⟨fun (bs, s) => (.ok (h call s).1, bs, (h call s).2)⟩

namespace Processor

variable (P : TProtocol B) {S : Service} (h : Handler S σ)

def writeException (name : String) (seqid : Int32) (x : TApplicationException) : List B :=
  P.writeMessageBegin name .exception seqid ++ P.writeException x ++ P.writeMessageEnd

/-- The field of the result is written if it is set. -/
def writeReply (m : S.Method) (seqid : Int32) (success : Option (S.ret m).Value) : List B :=
  P.writeMessageBegin (S.methodName m) .reply seqid ++
    P.writeEntries (S.name ++ "_" ++ S.methodName m ++ "_result")
      (success.toList.map fun v => ⟨"success", 0, S.ret m, v⟩) ++ P.writeMessageEnd

def answer (m : S.Method) (seqid : Int32) : Except String (S.ret m).Value → List B
  | .error what => writeException P (S.methodName m) seqid ⟨.unknown, what⟩
  | .ok success => writeReply P m seqid (some success)

/-- `process_push` and the same function of the other methods. It returns what it writes. -/
def process (m : S.Method) (seqid : Int32) : ServerM B σ (List B) := do
  let found ← ServerM.input (P.readStruct (S.params m))
  ServerM.input P.readMessageEnd
  let r ← ServerM.call h ⟨m, orDefault found⟩
  pure (answer P m seqid r)

def dispatchCall (fname : String) (seqid : Int32) : ServerM B σ (List B) :=
  match S.find fname with
  | none => do
    ServerM.input (P.skip .struct)
    ServerM.input P.readMessageEnd
    pure (writeException P fname seqid (invalidMethodName fname))
  | some m => process P h m seqid

/-- The library reads the beginning of a message and calls `dispatchCall`. -/
def serve : ServerM B σ (List B) := do
  let (fname, _, seqid) ← ServerM.input P.readMessageBegin
  dispatchCall P h fname seqid

end Processor

/-! ### The client -/

namespace Client

variable (P : TProtocol B) {C : Service}

/-- `send_push` and the same function of the other methods. -/
def send (call : C.Call) : List B :=
  P.writeMessageBegin (C.methodName call.method) .call 0 ++
    P.writeStruct (C.name ++ "_" ++ C.methodName call.method ++ "_pargs") call.args ++
    P.writeMessageEnd

/-- `recv_push` and the same function of the other methods. A message of another type or name is
skipped, and the result is read from what comes next. -/
def recv (m : C.Method) : Prog (List B) TException (C.ret m).Value := do
  let (fname, mtype, _) ← P.readMessageBegin
  if mtype = .exception then
    let x ← P.readException
    P.readMessageEnd
    Prog.fail (.application x)
  else
    if mtype ≠ .reply then
      P.skip .struct
      P.readMessageEnd
    if fname ≠ C.methodName m then
      P.skip .struct
      P.readMessageEnd
    let result ← P.readStruct (Service.result (C.ret m))
    P.readMessageEnd
    match result ⟨0, Nat.zero_lt_one⟩ with
    | some success => pure success
    | none => Prog.fail (.application
        ⟨.missingResult, C.methodName m ++ " failed: unknown result"⟩)

end Client

/-! ### What a call does -/

/-- What the client of a method makes of what a handler returns. It finds no result of another type. -/
def returned (name : String) {ret : FieldType} (ret' : FieldType) :
    Except String ret.Value → Except TException ret'.Value
  | .error what => .error (.application ⟨.unknown, what⟩)
  | .ok success =>
    if hret : ret = ret' then .ok (hret ▸ success)
    else .error (.application ⟨.missingResult, name ++ " failed: unknown result"⟩)

theorem returned_self (name : String) {ret : FieldType} (r : Except String ret.Value) :
    returned name ret r = r.mapError fun what => .application ⟨.unknown, what⟩ := by
  cases r with
  | error what => rfl
  | ok success => exact dif_pos rfl

/-- A call of a client of `C`, at a server of `S`. The handler sees the arguments under the numbers
that it knows. -/
def remote {C S : Service} (h : Handler S σ) (call : C.Call) (s : σ) :
    Except TException (C.ret call.method).Value × σ :=
  match S.find (C.methodName call.method) with
  | none => (.error (.application (invalidMethodName (C.methodName call.method))), s)
  | some m =>
    let args := orDefault (call.args.seenBy (S.params m))
    (returned (C.methodName call.method) _ (h ⟨m, args⟩ s).1, (h ⟨m, args⟩ s).2)

/-- What the handler returns to a call of a client of `C` can be written. -/
def RemoteFits {C S : Service} (h : Handler S σ) (call : C.Call) (s : σ) : Prop :=
  ∀ m, S.find (C.methodName call.method) = some m →
    h.FitsAt ⟨m, orDefault (call.args.seenBy (S.params m))⟩ s

theorem Handler.Fits.remoteFits {C S : Service} {h : Handler S σ} (hh : h.Fits) (call : C.Call)
    (s : σ) : RemoteFits h call s := fun _ _ => hh _ s

/-- Between one version of a service, a call is a call of the handler. -/
theorem remote_self {S : Service} (h : Handler S σ) (call : S.Call) (s : σ) :
    remote h call s = ((h call s).1.mapError fun what => .application ⟨.unknown, what⟩,
      (h call s).2) := by
  obtain ⟨m, args⟩ := call
  have hargs : orDefault (args.seenBy (S.params m)) = args := by
    rw [Record.seenBy_self (S.params_nodup m)]
    rfl
  simp only [remote, S.find_methodName]
  rw [hargs, returned_self]

theorem remoteFits_self {S : Service} {h : Handler S σ} {call : S.Call} {s : σ}
    (hfits : h.FitsAt call s) : RemoteFits h call s := by
  intro m hm
  rw [S.find_methodName, Option.some.injEq] at hm
  subst hm
  rw [Record.seenBy_self (S.params_nodup call.method)]
  exact hfits

/-! ### A call over the wire -/

section Wire

variable {P : TProtocol B} {C S : Service} {h : Handler S σ}

theorem run_input_bind {β : Type} {p : Prog (List B) TException α} {bs : List B} {a : α}
    (hp : Reads p bs a) (f : α → ServerM B σ β) (rest : List B) (s : σ) :
    (ServerM.input p >>= f).run (bs ++ rest, s) = (f a).run (rest, s) := by
  refine Prog.run_bind_of_ok (x := ServerM.input p) ?_
  simp only [ServerM.input, hp rest]

theorem Client.recv_exception {name : String} {seqid : Int32} {x : TApplicationException}
    (hname : SizeFits name.utf8ByteSize) (hx : SizeFits x.message.utf8ByteSize) (m : C.Method)
    (rest : List B) :
    (Client.recv P m).run (Processor.writeException P name seqid x ++ rest) =
      (.error (.application x), rest) := by
  have hbegin := P.reads_messageBegin name .exception seqid hname
  rw [Client.recv, Processor.writeException, List.append_assoc, List.append_assoc,
    Prog.run_bind_of_ok (hbegin _)]
  dsimp only
  rw [if_pos rfl, Prog.run_bind_of_ok (P.reads_exception x hx _),
    Prog.run_bind_of_ok (P.reads_messageEnd _), Prog.run_fail]

/-- The field that a server of `S` writes, for a client of `C`. -/
private theorem lastOf_result {ret ret' : FieldType} (v : ret.Value) :
    lastOf (Service.result ret') [⟨"success", 0, ret, v⟩] ⟨0, Nat.zero_lt_one⟩ =
      if hret : ret = ret' then some (hret ▸ v) else none := by
  rw [lastOf, List.reverse_singleton, List.findSome?_singleton, Entry.valueFor]
  by_cases hret : ret = ret'
  · rw [dif_pos hret, dif_pos ⟨rfl, hret⟩]
  · rw [dif_neg hret, dif_neg fun h => hret h.2]

private theorem size_le (m : C.Method) : SizeFits (C.methodName m).utf8ByteSize :=
  lt_of_le_of_lt (Nat.le_add_right _ _) (C.methodName_fits m)

theorem Client.recv_reply {m : S.Method} {m' : C.Method} {v : (S.ret m).Value}
    (hname : S.methodName m = C.methodName m')
    (hcompat : TProtocol.Compatible (Service.result (S.ret m)) (Service.result (C.ret m')))
    (hv : (S.ret m).Fits v) (seqid : Int32) (rest : List B) :
    (Client.recv P m').run (Processor.writeReply P m seqid (some v) ++ rest) =
      (returned (C.methodName m') _ (.ok v), rest) := by
  have hreadable : ∀ e ∈ [(⟨"success", 0, S.ret m, v⟩ : Entry Int16 FieldType.Value)],
      P.codec.Readable (Service.result (C.ret m')) e := by
    rw [List.forall_mem_singleton]
    exact ⟨hv, fun i hi => hcompat ⟨0, Nat.zero_lt_one⟩ i (Spec.number_of_find hi).symm⟩
  have hresult := TProtocol.reads_entries (S.name ++ "_" ++ S.methodName m ++ "_result")
    (Service.result_nodup (C.ret m')) hreadable
  rw [Client.recv, Processor.writeReply, List.append_assoc, List.append_assoc,
    Prog.run_bind_of_ok (P.reads_messageBegin (S.methodName m) .reply seqid (size_le m) _)]
  dsimp only
  rw [if_neg (by decide), if_neg (by decide), if_neg (not_not_intro hname), Option.toList_some,
    List.map_singleton, Prog.run_bind_of_ok (hresult _), Prog.run_bind_of_ok (P.reads_messageEnd _),
    lastOf_result, returned]
  split_ifs <;> rfl

private theorem size_invalidMethodName (m : C.Method) :
    SizeFits (invalidMethodName (C.methodName m)).message.utf8ByteSize := by
  have hname := C.methodName_fits m
  have hsize : (invalidMethodName (C.methodName m)).message.utf8ByteSize =
      "Invalid method name: '".utf8ByteSize + (C.methodName m).utf8ByteSize + "'".utf8ByteSize := by
    rw [invalidMethodName, String.utf8ByteSize_append, String.utf8ByteSize_append]
  have hquote : "Invalid method name: '".utf8ByteSize = 22 ∧ "'".utf8ByteSize = 1 := by decide
  rw [hsize, hquote.1, hquote.2]
  omega

/-- What the server writes for a call. -/
def Processor.reply (P : TProtocol B) (h : Handler S σ) (call : C.Call) (s : σ) : List B :=
  match S.find (C.methodName call.method) with
  | none => writeException P (C.methodName call.method) 0
      (invalidMethodName (C.methodName call.method))
  | some m => answer P m 0 (h ⟨m, orDefault (call.args.seenBy (S.params m))⟩ s).1

theorem Processor.reply_ne_nil (call : C.Call) (s : σ) : reply P h call s ≠ [] := by
  have hne : ∀ name type seqid bs, P.writeMessageBegin name type seqid ++ bs ≠ [] :=
    fun name type seqid bs h =>
      P.writeMessageBegin_ne_nil name type seqid (List.append_eq_nil_iff.mp h).1
  rw [reply]
  cases S.find (C.methodName call.method) with
  | none =>
    dsimp only
    rw [writeException, List.append_assoc]
    exact hne _ _ _ _
  | some m =>
    dsimp only
    cases (h ⟨m, orDefault (call.args.seenBy (S.params m))⟩ s).1 with
    | error what =>
      rw [answer, writeException, List.append_assoc]
      exact hne _ _ _ _
    | ok success =>
      rw [answer, writeReply, List.append_assoc]
      exact hne _ _ _ _

/-- **A call at the server.** It reads the call and nothing else, and the handler sees what `remote`
gives it. -/
theorem Processor.serve_send (hspeaks : C.Speaks S) {call : C.Call} (hcall : call.Fits)
    (rest : List B) (s : σ) :
    (serve P h).run (Client.send P call ++ rest, s) =
      (.ok (reply P h call s), rest, (remote h call s).2) := by
  rw [serve, Client.send, List.append_assoc, List.append_assoc,
    run_input_bind (P.reads_messageBegin _ .call 0 (size_le call.method))]
  dsimp only
  rw [dispatchCall, reply, remote]
  cases hfind : S.find (C.methodName call.method) with
  | none =>
    dsimp only
    rw [run_input_bind (TProtocol.skips_written _ hcall), run_input_bind P.reads_messageEnd,
      Prog.run_pure]
  | some m =>
    have hargs := TProtocol.reads_struct (P := P)
      (C.name ++ "_" ++ C.methodName call.method ++ "_pargs") (C.params_nodup call.method)
      (S.params_nodup m) (hspeaks call.method m hfind).1 hcall
    dsimp only
    rw [process, run_input_bind hargs, run_input_bind P.reads_messageEnd]
    rfl

/-- **The answer at the client**, whatever comes after it. -/
theorem Client.recv_reply_of_call (hspeaks : C.Speaks S) {call : C.Call} {s : σ}
    (hh : RemoteFits h call s) (rest : List B) :
    (recv P call.method).run (Processor.reply P h call s ++ rest) = ((remote h call s).1, rest) := by
  rw [Processor.reply, remote]
  cases hfind : S.find (C.methodName call.method) with
  | none => exact recv_exception (size_le call.method) (size_invalidMethodName call.method) _ _
  | some m =>
    have hname := Service.methodName_of_find hfind
    have hfits := hh m hfind
    rw [Handler.FitsAt] at hfits
    dsimp only
    cases hr : (h ⟨m, orDefault (call.args.seenBy (S.params m))⟩ s).1 with
    | error what =>
      rw [hr] at hfits
      exact recv_exception (size_le m) hfits _ _
    | ok success =>
      rw [hr] at hfits
      exact recv_reply hname (hspeaks call.method m hfind).2 hfits 0 rest

end Wire

end Nynn
