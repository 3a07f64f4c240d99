import Nynn.Library.LittleEndian
import Nynn.Rpc.Protocol

/-!
# The binary protocol

The daemons use the binary protocol of the library. Numbers are big-endian, texts and lists come after
their lengths, a field after its type and its number, and structs have no more than their fields. It
has all that the generated code relies on.

A value is skipped as it would be read. Nothing in a struct or a list is nested more deeply than the
bytes that are left.

## Main definitions

* `Nynn.BinaryProtocol.skip`: skipping a value.
* `Nynn.binaryProtocol`: `TBinaryProtocol` as a protocol.

## Main results

* `Nynn.BinaryProtocol.reads_bytes`, `Nynn.BinaryProtocol.reads_nat`.
* `Nynn.BinaryProtocol.skips_list`, `Nynn.BinaryProtocol.skips_struct`.
-/

namespace Nynn

open Program Wire LittleEndian

namespace TType

def code : TType → UInt8
  | bool => 2
  | byte => 3
  | i32 => 8
  | string => 11
  | struct => 12
  | list => 15

def ofCode (c : UInt8) : Option TType :=
  [bool, byte, i32, string, struct, list].find? (·.code = c)

theorem ofCode_code (type : TType) : ofCode type.code = some type := by
  cases type <;> decide

end TType

namespace TMessageType

def code : TMessageType → UInt8
  | call => 1
  | reply => 2
  | exception => 3
  | oneway => 4

def ofCode (c : UInt8) : Option TMessageType :=
  [call, reply, exception, oneway].find? (·.code = c)

theorem ofCode_code (type : TMessageType) : ofCode type.code = some type := by
  cases type <;> decide

end TMessageType

namespace TApplicationExceptionType

def code : TApplicationExceptionType → Int32
  | unknown => 0
  | unknownMethod => 1
  | missingResult => 5

def ofCode (c : Int32) : TApplicationExceptionType :=
  ([unknownMethod, missingResult].find? (·.code = c)).getD unknown

theorem ofCode_code (type : TApplicationExceptionType) : ofCode type.code = type := by
  cases type <;> decide

end TApplicationExceptionType

namespace BinaryProtocol

abbrev Reader : Type → Type := Prog (List UInt8) TException

/-! ### Bytes, numbers and texts -/

def readBytes (n : ℕ) : Reader (List UInt8) :=
  ⟨fun bs => if n ≤ bs.length then (.ok (bs.take n), bs.drop n) else (.error .transport, bs)⟩

def ofOption {α : Type} : Option α → Reader α
  | some a => pure a
  | none => Prog.fail .protocol

def writeNat (w n : ℕ) : List UInt8 := (leBytes w n).reverse

def readNat (w : ℕ) : Reader ℕ := do
  let bs ← readBytes w
  pure (leValue bs.reverse)

def readByte : Reader UInt8 :=
  ⟨fun
    | b :: bs => (.ok b, bs)
    | [] => (.error .transport, [])⟩

def writeI32 (n : Int32) : List UInt8 := writeNat 4 n.toUInt32.toNat

def readI32 : Reader Int32 := do
  let n ← readNat 4
  pure ⟨.ofNat n⟩

/-- A negative size is refused. -/
def readSize : Reader ℕ := do
  let n ← readNat 4
  if SizeFits n then pure n else Prog.fail .protocol

def writeString (s : String) : List UInt8 :=
  writeNat 4 s.utf8ByteSize ++ s.toByteArray.data.toList

def readString : Reader String := do
  let size ← readSize
  let bs ← readBytes size
  ofOption (String.fromUTF8? ⟨bs.toArray⟩)

theorem reads_bytes (bs : List UInt8) : Reads (readBytes bs.length) bs bs := fun rest => by
  simp [readBytes]

theorem reads_nat {w n : ℕ} (hn : n < 256 ^ w) : Reads (readNat w) (writeNat w n) n := by
  have hbytes := reads_bytes (writeNat w n)
  have hlen : (writeNat w n).length = w := by rw [writeNat, List.length_reverse, length_leBytes]
  have hvalue : leValue (writeNat w n).reverse = n := by
    rw [writeNat, List.reverse_reverse, leValue_leBytes, Nat.mod_eq_of_lt hn]
  rw [hlen] at hbytes
  rw [readNat]
  refine hbytes.map ?_
  rw [hvalue]
  exact .pure n

theorem reads_byte (n : UInt8) : Reads readByte [n] n := fun _ => rfl

theorem reads_ofOption {α : Type} {o : Option α} {a : α} (h : o = some a) :
    Reads (ofOption o) [] a := by
  subst h
  exact .pure a

theorem reads_i32 (n : Int32) : Reads readI32 (writeI32 n) n := by
  have hnat := reads_nat (w := 4) n.toUInt32.toNat_lt
  rw [readI32]
  refine hnat.map ?_
  rw [UInt32.ofNat_toNat]
  exact .pure n

theorem reads_size {n : ℕ} (hn : SizeFits n) : Reads readSize (writeNat 4 n) n := by
  have hnat := reads_nat (w := 4) (n := n) (by omega)
  rw [readSize]
  refine hnat.map ?_
  rw [if_pos hn]
  exact .pure n

theorem reads_string {s : String} (hs : SizeFits s.utf8ByteSize) :
    Reads readString (writeString s) s := by
  have hbytes := reads_bytes s.toByteArray.data.toList
  have hlen : s.toByteArray.data.toList.length = s.utf8ByteSize := rfl
  rw [hlen] at hbytes
  have hvalid : String.fromUTF8? ⟨s.toByteArray.data.toList.toArray⟩ = some s :=
    dif_pos s.isValidUTF8
  exact (reads_size hs).bind (hbytes.map (reads_ofOption hvalid))

/-! ### Messages, structs and lists -/

def writeMessageBegin (name : String) (type : TMessageType) (seqid : Int32) : List UInt8 :=
  [0x80, 0x01, 0x00, type.code] ++ writeString name ++ writeI32 seqid

def readMessageBegin : Reader (String × TMessageType × Int32) := do
  let version ← readBytes 3
  if version = [0x80, 0x01, 0x00] then
    let type ← readByte
    let type ← ofOption (TMessageType.ofCode type)
    let name ← readString
    let seqid ← readI32
    pure (name, type, seqid)
  else Prog.fail .protocol

def writeFieldBegin (type : TType) (id : Int16) : List UInt8 :=
  type.code :: writeNat 2 id.toUInt16.toNat

/-- The code of `T_STOP` is `0`. -/
def readFieldBegin : Reader (Option (TType × Int16)) := do
  let type ← readByte
  if type = 0 then pure none
  else
    let type ← ofOption (TType.ofCode type)
    let id ← readNat 2
    pure (some (type, ⟨.ofNat id⟩))

def writeListBegin (type : TType) (size : UInt32) : List UInt8 :=
  type.code :: writeNat 4 size.toNat

def readListBegin : Reader (TType × UInt32) := do
  let type ← readByte
  let type ← ofOption (TType.ofCode type)
  let size ← readSize
  pure (type, .ofNat size)

def writeBool (b : Bool) : List UInt8 := [if b then 1 else 0]

def readBool : Reader Bool := do
  let b ← readByte
  pure (b != 0)

def writeException (x : TApplicationException) : List UInt8 :=
  writeFieldBegin .string 1 ++ writeString x.message ++ writeFieldBegin .i32 2 ++
    writeI32 x.type.code ++ [0]

/-- The fields come in the order in which they are written. -/
def readException : Reader TApplicationException := do
  let message ← readFieldBegin
  if message = some (.string, 1) then
    let message ← readString
    let type ← readFieldBegin
    if type = some (.i32, 2) then
      let type ← readI32
      let stop ← readFieldBegin
      if stop = none then pure ⟨.ofCode type, message⟩ else Prog.fail .protocol
    else Prog.fail .protocol
  else Prog.fail .protocol

theorem reads_fieldBegin (type : TType) (id : Int16) :
    Reads readFieldBegin (writeFieldBegin type id) (some (type, id)) := by
  have hcode : type.code ≠ 0 := by cases type <;> decide
  have hid : Reads (readNat 2) (writeNat 2 id.toUInt16.toNat) id.toUInt16.toNat :=
    reads_nat id.toUInt16.toNat_lt
  rw [readFieldBegin]
  refine (reads_byte type.code).bind ?_
  rw [if_neg hcode]
  refine (reads_ofOption type.ofCode_code).after (hid.map ?_)
  rw [UInt16.ofNat_toNat]
  exact .pure _

theorem reads_fieldStop : Reads readFieldBegin [0] none := fun _ => rfl

theorem reads_listBegin (type : TType) {size : UInt32} (hsize : SizeFits size.toNat) :
    Reads readListBegin (writeListBegin type size) (type, size) := by
  rw [readListBegin]
  refine (reads_byte type.code).bind ?_
  refine (reads_ofOption type.ofCode_code).after ((reads_size hsize).map ?_)
  rw [UInt32.ofNat_toNat]
  exact .pure _

theorem reads_messageBegin {name : String} (type : TMessageType) (seqid : Int32)
    (hname : SizeFits name.utf8ByteSize) :
    Reads readMessageBegin (writeMessageBegin name type seqid) (name, type, seqid) := by
  have hbytes : writeMessageBegin name type seqid =
      [0x80, 0x01, 0x00] ++ ([type.code] ++ (writeString name ++ writeI32 seqid)) := rfl
  rw [hbytes, readMessageBegin]
  refine (reads_bytes [0x80, 0x01, 0x00]).bind ?_
  rw [if_pos rfl]
  exact (reads_byte type.code).bind ((reads_ofOption type.ofCode_code).after
    ((reads_string hname).bind ((reads_i32 seqid).map (.pure _))))

theorem reads_bool (b : Bool) : Reads readBool (writeBool b) b := fun _ => by
  cases b <;> rfl

theorem reads_exception {x : TApplicationException} (hx : SizeFits x.message.utf8ByteSize) :
    Reads readException (writeException x) x := by
  obtain ⟨type, message⟩ := x
  have hbytes : writeException ⟨type, message⟩ = writeFieldBegin .string 1 ++ (writeString message ++
      (writeFieldBegin .i32 2 ++ (writeI32 type.code ++ [0]))) := by
    simp only [writeException, List.append_assoc]
  rw [hbytes, readException]
  refine (reads_fieldBegin .string 1).bind ?_
  rw [if_pos rfl]
  refine (reads_string hx).bind ((reads_fieldBegin .i32 2).bind ?_)
  rw [if_pos rfl]
  refine (reads_i32 type.code).bind (reads_fieldStop.map ?_)
  rw [if_pos rfl, TApplicationExceptionType.ofCode_code]
  exact .pure _

/-! ### Skipping -/

/-- The loop over the fields of a struct. -/
def skipFields (skip : TType → Reader Unit) : ℕ → Reader Unit
  | 0 => Prog.fail .transport
  | n + 1 => do
    match ← readFieldBegin with
    | none => pure ()
    | some (type, _) =>
      skip type
      skipFields skip n

def skipUpTo : ℕ → TType → Reader Unit
  | 0, _ => Prog.fail .transport
  | _ + 1, .bool => do
    let _ ← readByte
    pure ()
  | _ + 1, .byte => do
    let _ ← readByte
    pure ()
  | _ + 1, .i32 => do
    let _ ← readBytes 4
    pure ()
  | _ + 1, .string => do
    let size ← readSize
    let _ ← readBytes size
    pure ()
  | n + 1, .struct => skipFields (skipUpTo n) n
  | n + 1, .list => do
    let (type, size) ← readListBegin
    let _ ← readMany (skipUpTo n type) size.toNat
    pure ()

def skip (type : TType) : Reader Unit := do
  let bs ← Prog.get
  skipUpTo (bs.length + 1) type

theorem failsOr_readMany {α : Type} {p q : Reader α} (h : FailsOr id p q) (n : ℕ) :
    FailsOr id (readMany p n) (readMany q n) := by
  induction n with
  | zero => exact .refl _
  | succ n ih => exact .bind h fun _ => .bind ih fun _ => .refl _

theorem failsOr_skipFields {p q : TType → Reader Unit} (h : ∀ type, FailsOr id (p type) (q type))
    {n n' : ℕ} (hn : n ≤ n') : FailsOr id (skipFields p n) (skipFields q n') := by
  induction n generalizing n' with
  | zero => exact fun s => Or.inl ⟨_, _, rfl⟩
  | succ n ih =>
    obtain ⟨n', rfl⟩ : ∃ m, n' = m + 1 := ⟨n' - 1, by omega⟩
    refine .bind (.refl _) fun field => ?_
    cases field with
    | none => exact .refl _
    | some field => exact .bind (h field.1) fun _ => ih (by omega)

/-- With a larger bound, a value is skipped if it was. -/
theorem failsOr_skipUpTo {n n' : ℕ} (hn : n ≤ n') (type : TType) :
    FailsOr id (skipUpTo n type) (skipUpTo n' type) := by
  induction n generalizing n' type with
  | zero => exact fun s => Or.inl ⟨_, _, rfl⟩
  | succ n ih =>
    obtain ⟨n', rfl⟩ : ∃ m, n' = m + 1 := ⟨n' - 1, by omega⟩
    cases type with
    | struct => exact failsOr_skipFields (ih (by omega)) (by omega)
    | list =>
      exact .bind (.refl _) fun header =>
        .bind (failsOr_readMany (ih (by omega) header.1) _) fun _ => .refl _
    | _ => exact .refl _

section Skips

variable {type : TType} {bs rest : List UInt8} {n : ℕ}

theorem skips_of_skipUpTo (h : ∀ n, Reads (skipUpTo (n + 1) type) bs ()) :
    Reads (skip type) bs () := fun rest => by
  rw [skip, Prog.run_get_bind]
  exact h _ rest

/-- What can be skipped is skipped under every bound beyond what is left. -/
theorem run_skipUpTo (h : Reads (skip type) bs ()) (hn : (bs ++ rest).length < n) :
    (skipUpTo n type).run (bs ++ rest) = (.ok (), rest) := by
  have hskip := h rest
  rw [skip, Prog.run_get_bind] at hskip
  exact (failsOr_skipUpTo hn type).of_ok hskip

theorem run_readMany_skipUpTo {elems : List (List UInt8)}
    (h : ∀ bs ∈ elems, Reads (skip type) bs ()) (hn : (elems.flatten ++ rest).length < n) :
    ∃ us, (readMany (skipUpTo n type) elems.length).run (elems.flatten ++ rest) =
      (.ok us, rest) := by
  induction elems with
  | nil => exact ⟨[], rfl⟩
  | cons bs elems ih =>
    rw [List.forall_mem_cons] at h
    rw [List.flatten_cons, List.append_assoc] at hn ⊢
    have hlen : (elems.flatten ++ rest).length < n := by
      rw [List.length_append] at hn
      omega
    obtain ⟨us, hus⟩ := ih h.2 hlen
    refine ⟨() :: us, ?_⟩
    rw [List.length_cons, readMany, Prog.run_bind_of_ok (run_skipUpTo h.1 hn),
      Prog.run_bind_of_ok hus]
    rfl

theorem skips_list {elems : List (List UInt8)} (hsize : SizeFits elems.length)
    (h : ∀ bs ∈ elems, Reads (skip type) bs ()) :
    Reads (skip .list) (writeListBegin type (.ofNat elems.length) ++ elems.flatten) () := by
  intro rest
  have hnat : (UInt32.ofNat elems.length).toNat = elems.length := by
    rw [UInt32.toNat_ofNat']
    exact Nat.mod_eq_of_lt (by omega)
  have hlen : (elems.flatten ++ rest).length <
      (writeListBegin type (.ofNat elems.length) ++ elems.flatten ++ rest).length := by
    simp only [writeListBegin, List.length_append, List.length_cons]
    omega
  obtain ⟨us, hus⟩ := run_readMany_skipUpTo h hlen
  rw [skip, Prog.run_get_bind, skipUpTo]
  generalize (writeListBegin type (.ofNat elems.length) ++ elems.flatten ++ rest).length = n at hus
  rw [List.append_assoc, Prog.run_bind_of_ok (reads_listBegin type (by rwa [hnat]) _)]
  dsimp only
  rw [hnat, Prog.run_bind_of_ok hus]
  rfl

theorem run_skipFields {fields : List (String × TType × Int16 × List UInt8)} {m : ℕ}
    (h : ∀ f ∈ fields, Reads (skip f.2.1) f.2.2.2 ()) (hm : fields.length < m)
    (hn : (fields.flatMap (fun f => writeFieldBegin f.2.1 f.2.2.1 ++ f.2.2.2) ++
      0 :: rest).length ≤ n) :
    (skipFields (skipUpTo n) m).run
      (fields.flatMap (fun f => writeFieldBegin f.2.1 f.2.2.1 ++ f.2.2.2) ++ 0 :: rest) =
      (.ok (), rest) := by
  induction fields generalizing m with
  | nil =>
    obtain ⟨m, rfl⟩ : ∃ k, m = k + 1 := ⟨m - 1, by omega⟩
    rfl
  | cons f fields ih =>
    obtain ⟨m, rfl⟩ : ∃ k, m = k + 1 := ⟨m - 1, by omega⟩
    rw [List.forall_mem_cons] at h
    rw [List.flatMap_cons, List.append_assoc, List.append_assoc] at hn ⊢
    rw [List.length_append, writeFieldBegin, List.length_cons, List.length_append] at hn
    rw [skipFields, Prog.run_bind_of_ok (reads_fieldBegin f.2.1 f.2.2.1 _)]
    dsimp only
    rw [Prog.run_bind_of_ok (run_skipUpTo h.1 (by rw [List.length_append]; omega))]
    exact ih h.2 (by simpa using hm) (by omega)

theorem skips_struct {fields : List (String × TType × Int16 × List UInt8)}
    (h : ∀ f ∈ fields, Reads (skip f.2.1) f.2.2.2 ()) :
    Reads (skip .struct)
      (fields.flatMap (fun f => writeFieldBegin f.2.1 f.2.2.1 ++ f.2.2.2) ++ [0]) () := by
  intro rest
  have hlen : fields.length ≤
      (fields.flatMap fun f => writeFieldBegin f.2.1 f.2.2.1 ++ f.2.2.2).length := by
    induction fields with
    | nil => exact Nat.zero_le _
    | cons f fields ih =>
      rw [List.forall_mem_cons] at h
      have hle := ih h.2
      rw [List.flatMap_cons, List.length_append, List.length_append, writeFieldBegin,
        List.length_cons, List.length_cons]
      omega
  rw [List.append_assoc, List.singleton_append, skip, Prog.run_get_bind, skipUpTo]
  refine run_skipFields h ?_ le_rfl
  rw [List.length_append, List.length_cons]
  omega

end Skips

end BinaryProtocol

open BinaryProtocol in
/-- `TBinaryProtocol` -/
def binaryProtocol : TProtocol UInt8 where
  writeMessageBegin := writeMessageBegin
  writeMessageEnd := []
  writeStructBegin _ := []
  writeStructEnd := []
  writeFieldBegin _ := writeFieldBegin
  writeFieldEnd := []
  writeFieldStop := [0]
  writeListBegin := writeListBegin
  writeListEnd := []
  writeBool := writeBool
  writeByte n := [n.toUInt8]
  writeI32 := writeI32
  writeString := writeString
  readMessageBegin := readMessageBegin
  readMessageEnd := pure ()
  readStructBegin := pure ()
  readStructEnd := pure ()
  readFieldBegin := readFieldBegin
  readFieldEnd := pure ()
  readListBegin := readListBegin
  readListEnd := pure ()
  readBool := readBool
  readByte := do
    let n ← BinaryProtocol.readByte
    pure ⟨n⟩
  readI32 := readI32
  readString := readString
  skip := skip
  writeException := writeException
  readException := readException
  writeMessageBegin_ne_nil _ _ _ := List.cons_ne_nil _ _
  writeFieldBegin_ne_nil _ _ _ := List.cons_ne_nil _ _
  reads_messageBegin _ type seqid hname := reads_messageBegin type seqid hname
  reads_messageEnd := .pure ()
  reads_structBegin _ := .pure ()
  reads_structEnd := .pure ()
  reads_fieldBegin _ := reads_fieldBegin
  reads_fieldEnd := .pure ()
  reads_fieldStop := reads_fieldStop
  reads_listBegin type _ hsize := reads_listBegin type hsize
  reads_listEnd := .pure ()
  reads_bool := reads_bool
  reads_byte n := (reads_byte n.toUInt8).map (.pure n)
  reads_i32 := reads_i32
  reads_string _ hs := reads_string hs
  reads_exception _ hx := reads_exception hx
  skips_bool b := skips_of_skipUpTo fun _ => (reads_byte _).map (.pure ())
  skips_byte n := skips_of_skipUpTo fun _ => (reads_byte _).map (.pure ())
  skips_i32 n := skips_of_skipUpTo fun _ => (reads_bytes (writeI32 n)).map (.pure ())
  skips_string s hs := skips_of_skipUpTo fun _ =>
    (reads_size hs).bind ((reads_bytes s.toByteArray.data.toList).map (.pure ()))
  skips_list type elems hsize h := by
    rw [List.append_nil]
    exact skips_list hsize h
  skips_struct _ fields h := by
    simp only [List.append_nil, List.nil_append]
    exact skips_struct h

end Nynn
