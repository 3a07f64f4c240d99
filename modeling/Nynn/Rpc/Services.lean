import Nynn.Rpc.Protocol

/-!
# The services of the daemons

The providers keep the subgraphs, the producer sends updates to the providers, and the agents read
for the programs on their hosts. Each of them has a service whose methods are told apart by their
names.

Source: `Provider.thrift`, `Producer.thrift`, `agent.thrift` and what is generated from them.

## Main definitions

* `Nynn.Service`: a service, with the structs of its methods.
* `Nynn.providerService`, `Nynn.producerService`, `Nynn.agentService`.
* `Nynn.Service.Speaks`: clients of a service may call a server of another one.

## Main results

* `Nynn.daemons_speak`: the clients of every daemon may call every daemon.
-/

namespace Nynn

open Wire

open TProtocol (Fields Values)

/-- A service. Its processor looks up methods by their names. -/
structure Service where
  name : String
  Method : Type
  /-- `processMap_` -/
  processMap : List Method
  methodName : Method → String
  params : Method → Fields
  ret : Method → FieldType
  mem_processMap : ∀ m, m ∈ processMap
  methodName_nodup : (processMap.map methodName).Nodup
  /-- The name can be written, and so can the text of an exception that quotes it. -/
  methodName_fits : ∀ m, SizeFits ((methodName m).utf8ByteSize + 23)
  params_nodup : ∀ m, ((params m).map (·.number)).Nodup

namespace Service

variable (S : Service)

/-- `processMap_.find` -/
def find (fname : String) : Option S.Method := S.processMap.find? (S.methodName · = fname)

theorem find_methodName (m : S.Method) : S.find (S.methodName m) = some m := by
  rcases h : S.find (S.methodName m) with _ | m'
  · have hne := List.find?_eq_none.mp h m (S.mem_processMap m)
    simp at hne
  · have hname : S.methodName m' = S.methodName m := by simpa using List.find?_some h
    rw [List.inj_on_of_nodup_map S.methodName_nodup (S.mem_processMap m') (S.mem_processMap m)
      hname]

/-- The struct of a result has one field. -/
abbrev result (ret : FieldType) : Fields := [⟨"success", 0, ret⟩]

theorem result_nodup (ret : FieldType) : ((result ret).map (·.number)).Nodup :=
  List.nodup_singleton _

/-- A method with its arguments. -/
structure Call where
  method : S.Method
  args : Values (S.params method)

/-- The arguments can be written. -/
def Call.Fits {S : Service} (call : S.Call) : Prop :=
  ∀ i, ((S.params call.method).get i).type.Fits (call.args i)

instance {S : Service} (call : S.Call) : Decidable call.Fits :=
  inferInstanceAs (Decidable (∀ _, _))

/-- A client of the service `C` may call the methods of `S`. Methods with one name need not have the
same arguments, but no number in them stands for lists of different elements. -/
def Speaks (C S : Service) : Prop :=
  ∀ m m', S.find (C.methodName m) = some m' →
    TProtocol.Compatible (C.params m) (S.params m') ∧
    TProtocol.Compatible (result (S.ret m')) (result (C.ret m))

variable {S}

theorem methodName_of_find {fname : String} {m : S.Method} (h : S.find fname = some m) :
    S.methodName m = fname := by
  simpa using List.find?_some h

theorem speaks_of_forall {C : Service}
    (h : ∀ m ∈ C.processMap, ∀ m' ∈ S.processMap, S.methodName m' = C.methodName m →
      TProtocol.Compatible (C.params m) (S.params m') ∧
      TProtocol.Compatible (result (S.ret m')) (result (C.ret m))) : C.Speaks S := fun m m' hm =>
  h m (C.mem_processMap m) m' (S.mem_processMap m') (methodName_of_find hm)

variable (S)

theorem speaks_self : S.Speaks S := by
  intro m m' hm
  rw [find_methodName, Option.some.injEq] at hm
  subst hm
  refine ⟨fun i j hij _ => ?_, fun i j _ _ => ?_⟩
  · rw [Spec.eq_of_number (S.params_nodup m) hij]
  · rw [Subsingleton.elim (α := Fin 1) i j]

end Service

/-! ### Providers -/

inductive ProviderMethod
  | createSubgraph
  | destroySubgraph
  | attachSubgraph
  | detachSubgraph
  | getSubgraphKeys
  | getWidthOfVertexInterval
  | lock
  | unlock
  | getSize
  | getHeadBlkno
  | getTailBlkno
  | readAllBlknos
  | read
  | readn
  | insertPrev
  | insertNext
  | remove
  | unshift
  | shift
  | push
  | pop
  deriving DecidableEq, Repr

namespace ProviderMethod

def all : List ProviderMethod :=
  [createSubgraph, destroySubgraph, attachSubgraph, detachSubgraph, getSubgraphKeys,
    getWidthOfVertexInterval, lock, unlock, getSize, getHeadBlkno, getTailBlkno, readAllBlknos, read,
    readn, insertPrev, insertNext, remove, unshift, shift, push, pop]

def name : ProviderMethod → String
  | createSubgraph => "createSubgraph"
  | destroySubgraph => "destroySubgraph"
  | attachSubgraph => "attachSubgraph"
  | detachSubgraph => "detachSubgraph"
  | getSubgraphKeys => "getSubgraphKeys"
  | getWidthOfVertexInterval => "getWidthOfVertexInterval"
  | lock => "lock"
  | unlock => "unlock"
  | getSize => "getSize"
  | getHeadBlkno => "getHeadBlkno"
  | getTailBlkno => "getTailBlkno"
  | readAllBlknos => "readAllBlknos"
  | read => "read"
  | readn => "readn"
  | insertPrev => "insertPrev"
  | insertNext => "insertNext"
  | remove => "remove"
  | unshift => "unshift"
  | shift => "shift"
  | push => "push"
  | pop => "pop"

def params : ProviderMethod → Fields
  | createSubgraph | destroySubgraph | attachSubgraph | detachSubgraph =>
    [⟨"subgraphKey", 1, .i32⟩]
  | getSubgraphKeys | getWidthOfVertexInterval => []
  | lock => [⟨"vtxno", 1, .i32⟩, ⟨"flag", 2, .i32⟩]
  | unlock | getSize | getHeadBlkno | getTailBlkno | readAllBlknos | shift | pop =>
    [⟨"vtxno", 1, .i32⟩]
  | read | remove => [⟨"vtxno", 1, .i32⟩, ⟨"blkno", 2, .i32⟩]
  | readn => [⟨"vtxno", 1, .i32⟩, ⟨"blkno", 2, .i32⟩, ⟨"n", 3, .i32⟩]
  | insertPrev => [⟨"vtxno", 1, .i32⟩, ⟨"nextBlkno", 2, .i32⟩, ⟨"xblk", 3, .listByte⟩]
  | insertNext => [⟨"vtxno", 1, .i32⟩, ⟨"prevBlkno", 2, .i32⟩, ⟨"xblk", 3, .listByte⟩]
  | unshift => [⟨"vtxno", 1, .i32⟩, ⟨"newXHeadBlk", 2, .listByte⟩]
  | push => [⟨"vtxno", 1, .i32⟩, ⟨"newXTailBlk", 2, .listByte⟩]

def ret : ProviderMethod → FieldType
  | createSubgraph | destroySubgraph | attachSubgraph | detachSubgraph | lock | unlock | remove
  | shift | pop => .bool
  | getSubgraphKeys | readAllBlknos => .listI32
  | getWidthOfVertexInterval | getSize | getHeadBlkno | getTailBlkno | insertPrev | insertNext
  | unshift | push => .i32
  | read | readn => .listByte

end ProviderMethod

def providerService : Service where
  name := "Provider"
  Method := ProviderMethod
  processMap := ProviderMethod.all
  methodName := ProviderMethod.name
  params := ProviderMethod.params
  ret := ProviderMethod.ret
  mem_processMap m := by cases m <;> decide
  methodName_nodup := by decide
  methodName_fits m := by cases m <;> decide
  params_nodup m := by cases m <;> decide

/-! ### The producer -/

inductive ProducerMethod
  | report
  | getHost
  | insertPrev
  | insertNext
  | remove
  | unshift
  | shift
  | push
  | pop
  deriving DecidableEq, Repr

namespace ProducerMethod

def all : List ProducerMethod :=
  [report, getHost, insertPrev, insertNext, remove, unshift, shift, push, pop]

def name : ProducerMethod → String
  | report => "report"
  | getHost => "getHost"
  | insertPrev => "insertPrev"
  | insertNext => "insertNext"
  | remove => "remove"
  | unshift => "unshift"
  | shift => "shift"
  | push => "push"
  | pop => "pop"

def params : ProducerMethod → Fields
  | report => [⟨"subgraphKeys", 1, .listI32⟩, ⟨"hostname", 2, .string⟩]
  | getHost => [⟨"subgraphKey", 1, .i32⟩]
  | insertPrev => [⟨"vtxno", 1, .i32⟩, ⟨"nextBlkno", 2, .i32⟩, ⟨"xblk", 3, .listByte⟩]
  | insertNext => [⟨"vtxno", 1, .i32⟩, ⟨"prevBlkno", 2, .i32⟩, ⟨"xblk", 3, .listByte⟩]
  | remove => [⟨"vtxno", 1, .i32⟩, ⟨"blkno", 2, .i32⟩]
  | unshift => [⟨"vtxno", 1, .i32⟩, ⟨"newXHeadBlk", 2, .listByte⟩]
  | shift | pop => [⟨"vtxno", 1, .i32⟩]
  | push => [⟨"vtxno", 1, .i32⟩, ⟨"newXTailBlk", 2, .listByte⟩]

def ret : ProducerMethod → FieldType
  | report | remove | shift | pop => .bool
  | getHost => .string
  | insertPrev | insertNext | unshift | push => .i32

end ProducerMethod

def producerService : Service where
  name := "Producer"
  Method := ProducerMethod
  processMap := ProducerMethod.all
  methodName := ProducerMethod.name
  params := ProducerMethod.params
  ret := ProducerMethod.ret
  mem_processMap m := by cases m <;> decide
  methodName_nodup := by decide
  methodName_fits m := by cases m <;> decide
  params_nodup m := by cases m <;> decide

/-! ### Agents -/

inductive AgentMethod
  | lock
  | unlock
  | getHeadBlkno
  | getTailBlkno
  | read
  deriving DecidableEq, Repr

namespace AgentMethod

def all : List AgentMethod := [lock, unlock, getHeadBlkno, getTailBlkno, read]

def name : AgentMethod → String
  | lock => "lock"
  | unlock => "unlock"
  | getHeadBlkno => "getHeadBlkno"
  | getTailBlkno => "getTailBlkno"
  | read => "read"

def params : AgentMethod → Fields
  | lock | unlock | getHeadBlkno | getTailBlkno => [⟨"vtxno", 1, .i32⟩]
  | read => [⟨"vtxno", 1, .i32⟩, ⟨"blkno", 2, .i32⟩]

def ret : AgentMethod → FieldType
  | lock | unlock => .bool
  | getHeadBlkno | getTailBlkno => .i32
  | read => .listByte

end AgentMethod

def agentService : Service where
  name := "Agent"
  Method := AgentMethod
  processMap := AgentMethod.all
  methodName := AgentMethod.name
  params := AgentMethod.params
  ret := AgentMethod.ret
  mem_processMap m := by cases m <;> decide
  methodName_nodup := by decide
  methodName_fits m := by cases m <;> decide
  params_nodup m := by cases m <;> decide

/-! ### Clients of another daemon -/

/-- The services of the daemons. -/
def daemons : List Service := [providerService, producerService, agentService]

/-- A client that is connected to another daemon than it takes it for is understood there, as far as
the daemon has its methods. -/
theorem daemons_speak : ∀ C ∈ daemons, ∀ S ∈ daemons, C.Speaks S := by
  simp only [daemons, List.forall_mem_cons, List.not_mem_nil, false_imp_iff, implies_true, and_true]
  refine ⟨⟨?_, ?_, ?_⟩, ⟨?_, ?_, ?_⟩, ⟨?_, ?_, ?_⟩⟩ <;>
    exact Service.speaks_of_forall (by decide)

end Nynn
