import Nynn.Library.Wire
import Mathlib.Data.UInt

/-!
# Structs of the services on the wire

The code that the Thrift compiler generates writes the arguments and the result of a call as structs
whose fields are numbers, texts and lists. Reading a struct is a loop over the fields on the wire,
with a case for each number that the struct knows. Such a case checks the type of the field, but not
the type of the elements of a list.

The protocol itself is a library. It is a parameter here, with what the generated code relies on: what
was written can be read, and can be skipped.

Source: `Provider.cpp`, `Producer.cpp`, `Agent.cpp`.

## Main definitions

* `Nynn.TProtocol`: a protocol of the library.
* `Nynn.FieldType`: the types of fields that the services have.
* `Nynn.TProtocol.codec`: the fields of the generated structs.
* `Nynn.TProtocol.writeStruct`, `Nynn.TProtocol.readStruct`: the structs.

## Main results

* `Nynn.TProtocol.reads_struct`: what a reader finds in a struct of another version.
* `Nynn.TProtocol.skips_written`: every struct can be skipped.
-/

namespace Nynn

open Program Wire

/-! ### The library -/

/-- `TType`, without `T_STOP` and the types that the services do not have. -/
inductive TType
  | bool
  | byte
  | i32
  | string
  | struct
  | list
  deriving DecidableEq, Repr

/-- `TMessageType`. -/
inductive TMessageType
  | call
  | reply
  | exception
  | oneway
  deriving DecidableEq, Repr

/-- `TApplicationExceptionType`, as far as the generated code has it. -/
inductive TApplicationExceptionType
  | unknown
  | unknownMethod
  | missingResult
  deriving DecidableEq, Repr

structure TApplicationException where
  type : TApplicationExceptionType
  message : String
  deriving DecidableEq, Repr

inductive TException
  | application (x : TApplicationException)
  | protocol
  | transport
  deriving DecidableEq, Repr

/-- The length of a text or a list is written as an `i32`. -/
abbrev SizeFits (size : ℕ) : Prop := size < 2 ^ 31

/-- A `TProtocol` on a transport of `B`. -/
structure TProtocol (B : Type) where
  writeMessageBegin : String → TMessageType → Int32 → List B
  writeMessageEnd : List B
  writeStructBegin : String → List B
  writeStructEnd : List B
  writeFieldBegin : String → TType → Int16 → List B
  writeFieldEnd : List B
  writeFieldStop : List B
  writeListBegin : TType → UInt32 → List B
  writeListEnd : List B
  writeBool : Bool → List B
  writeByte : Int8 → List B
  writeI32 : Int32 → List B
  writeString : String → List B
  readMessageBegin : Prog (List B) TException (String × TMessageType × Int32)
  readMessageEnd : Prog (List B) TException Unit
  readStructBegin : Prog (List B) TException Unit
  readStructEnd : Prog (List B) TException Unit
  /-- `none` for `T_STOP`. -/
  readFieldBegin : Prog (List B) TException (Option (TType × Int16))
  readFieldEnd : Prog (List B) TException Unit
  readListBegin : Prog (List B) TException (TType × UInt32)
  readListEnd : Prog (List B) TException Unit
  readBool : Prog (List B) TException Bool
  readByte : Prog (List B) TException Int8
  readI32 : Prog (List B) TException Int32
  readString : Prog (List B) TException String
  skip : TType → Prog (List B) TException Unit
  /-- `TApplicationException::write`. -/
  writeException : TApplicationException → List B
  /-- `TApplicationException::read`. -/
  readException : Prog (List B) TException TApplicationException
  writeMessageBegin_ne_nil : ∀ name type seqid, writeMessageBegin name type seqid ≠ []
  writeFieldBegin_ne_nil : ∀ name type id, writeFieldBegin name type id ≠ []
  reads_messageBegin : ∀ name type seqid, SizeFits name.utf8ByteSize →
    Reads readMessageBegin (writeMessageBegin name type seqid) (name, type, seqid)
  reads_messageEnd : Reads readMessageEnd writeMessageEnd ()
  reads_structBegin : ∀ name, Reads readStructBegin (writeStructBegin name) ()
  reads_structEnd : Reads readStructEnd writeStructEnd ()
  reads_fieldBegin : ∀ name type id,
    Reads readFieldBegin (writeFieldBegin name type id) (some (type, id))
  reads_fieldEnd : Reads readFieldEnd writeFieldEnd ()
  reads_fieldStop : Reads readFieldBegin writeFieldStop none
  reads_listBegin : ∀ type size, SizeFits size.toNat →
    Reads readListBegin (writeListBegin type size) (type, size)
  reads_listEnd : Reads readListEnd writeListEnd ()
  reads_bool : ∀ b, Reads readBool (writeBool b) b
  reads_byte : ∀ n, Reads readByte (writeByte n) n
  reads_i32 : ∀ n, Reads readI32 (writeI32 n) n
  reads_string : ∀ s, SizeFits s.utf8ByteSize → Reads readString (writeString s) s
  reads_exception : ∀ x, SizeFits x.message.utf8ByteSize → Reads readException (writeException x) x
  skips_bool : ∀ b, Reads (skip .bool) (writeBool b) ()
  skips_byte : ∀ n, Reads (skip .byte) (writeByte n) ()
  skips_i32 : ∀ n, Reads (skip .i32) (writeI32 n) ()
  skips_string : ∀ s, SizeFits s.utf8ByteSize → Reads (skip .string) (writeString s) ()
  skips_list : ∀ (type : TType) (elems : List (List B)), SizeFits elems.length →
    (∀ bs ∈ elems, Reads (skip type) bs ()) →
    Reads (skip .list) (writeListBegin type (.ofNat elems.length) ++ elems.flatten ++ writeListEnd)
      ()
  skips_struct : ∀ name (fields : List (String × TType × Int16 × List B)),
    (∀ f ∈ fields, Reads (skip f.2.1) f.2.2.2 ()) →
    Reads (skip .struct) (writeStructBegin name ++ (fields.flatMap fun f =>
      writeFieldBegin f.1 f.2.1 f.2.2.1 ++ f.2.2.2 ++ writeFieldEnd) ++ writeFieldStop ++
      writeStructEnd) ()

/-! ### Types of fields -/

/-- The types of arguments and results. -/
inductive FieldType
  | bool
  | i32
  | string
  | listI32
  | listByte
  deriving DecidableEq, Repr

namespace FieldType

def ttype : FieldType → TType
  | bool => .bool
  | i32 => .i32
  | string => .string
  | listI32 => .list
  | listByte => .list

abbrev Value : FieldType → Type
  | bool => Bool
  | i32 => Int32
  | string => String
  | listI32 => List Int32
  | listByte => List Int8

/-- What the constructors of the structs set. -/
def default : (u : FieldType) → u.Value
  | bool => false
  | i32 => 0
  | string => ""
  | listI32 => []
  | listByte => []

/-- The length of the value can be written. -/
def Fits : (u : FieldType) → u.Value → Prop
  | bool, _ => True
  | i32, _ => True
  | string, s => SizeFits s.utf8ByteSize
  | listI32, ns => SizeFits ns.length
  | listByte, ns => SizeFits ns.length

instance (u : FieldType) (x : u.Value) : Decidable (u.Fits x) :=
  match u, x with
  | bool, _ => inferInstanceAs (Decidable True)
  | i32, _ => inferInstanceAs (Decidable True)
  | string, s => inferInstanceAs (Decidable (SizeFits s.utf8ByteSize))
  | listI32, ns => inferInstanceAs (Decidable (SizeFits ns.length))
  | listByte, ns => inferInstanceAs (Decidable (SizeFits ns.length))

theorem fits_default (u : FieldType) : u.Fits u.default := by
  cases u <;> decide

end FieldType

namespace TProtocol

variable {B : Type} (P : TProtocol B)

/-! ### Values -/

def writeList {α : Type} (type : TType) (write : α → List B) (as : List α) : List B :=
  P.writeListBegin type (.ofNat as.length) ++ as.flatMap write ++ P.writeListEnd

/-- The type of the elements is not checked. -/
def readList {α : Type} (read : Prog (List B) TException α) :
    Prog (List B) TException (List α) := do
  let (_, size) ← P.readListBegin
  let as ← readMany read size.toNat
  P.readListEnd
  pure as

def writeValue : (u : FieldType) → u.Value → List B
  | .bool, b => P.writeBool b
  | .i32, n => P.writeI32 n
  | .string, s => P.writeString s
  | .listI32, ns => P.writeList .i32 P.writeI32 ns
  | .listByte, ns => P.writeList .byte P.writeByte ns

def readValue : (u : FieldType) → Prog (List B) TException u.Value
  | .bool => P.readBool
  | .i32 => P.readI32
  | .string => P.readString
  | .listI32 => P.readList P.readI32
  | .listByte => P.readList P.readByte

section Values

variable {P} {α : Type} {type : TType} {write : α → List B} {read : Prog (List B) TException α}
  {as : List α}

private theorem toNat_size (h : SizeFits as.length) :
    (UInt32.ofNat as.length).toNat = as.length := by
  rw [UInt32.toNat_ofNat']
  exact Nat.mod_eq_of_lt (by omega)

theorem reads_list (h : ∀ a, Reads read (write a) a) (has : SizeFits as.length) :
    Reads (P.readList read) (P.writeList type write as) as := by
  rw [readList, writeList, List.append_assoc]
  refine (P.reads_listBegin type _ ?_).bind ?_
  · rwa [toNat_size has]
  · dsimp only
    rw [toNat_size has]
    exact (Reads.many fun a _ => h a).bind (P.reads_listEnd.map (.pure as))

theorem skips_list_of_skips (h : ∀ a, Reads (P.skip type) (write a) ())
    (has : SizeFits as.length) : Reads (P.skip .list) (P.writeList type write as) () := by
  have hskip := P.skips_list type (as.map write) (by rwa [List.length_map]) fun bs hbs => by
    obtain ⟨a, -, rfl⟩ := List.mem_map.mp hbs
    exact h a
  rwa [List.length_map, ← List.flatMap_def] at hskip

theorem reads_value (u : FieldType) (x : u.Value) (hx : u.Fits x) :
    Reads (P.readValue u) (P.writeValue u x) x := by
  cases u with
  | bool => exact P.reads_bool x
  | i32 => exact P.reads_i32 x
  | string => exact P.reads_string x hx
  | listI32 => exact reads_list P.reads_i32 hx
  | listByte => exact reads_list P.reads_byte hx

theorem skips_value (u : FieldType) (x : u.Value) (hx : u.Fits x) :
    Reads (P.skip u.ttype) (P.writeValue u x) () := by
  cases u with
  | bool => exact P.skips_bool x
  | i32 => exact P.skips_i32 x
  | string => exact P.skips_string x hx
  | listI32 => exact skips_list_of_skips P.skips_i32 hx
  | listByte => exact skips_list_of_skips P.skips_byte hx

end Values

/-! ### Structs -/

/-- The fields of the generated structs. -/
def codec : FieldCodec B TException FieldType TType Int16 FieldType.Value where
  tag := FieldType.ttype
  writeBegin := P.writeFieldBegin
  writeEnd := P.writeFieldEnd
  writeStop := P.writeFieldStop
  write := P.writeValue
  readBegin := P.readFieldBegin
  readEnd := P.readFieldEnd
  read := P.readValue
  skip := P.skip
  unending := .transport
  Fits := FieldType.Fits
  writeBegin_ne_nil := P.writeFieldBegin_ne_nil
  reads_begin := P.reads_fieldBegin
  reads_stop := P.reads_fieldStop
  reads_end := P.reads_fieldEnd
  reads_value := reads_value
  skips_value := skips_value

/-- The fields of a generated struct. -/
abbrev Fields := Spec FieldType Int16

/-- The values of a struct. -/
abbrev Values (fields : Fields) := Record FieldType.Value fields

/-- `write` of a struct with these fields set. -/
def writeEntries (name : String) (es : List (Entry Int16 FieldType.Value)) : List B :=
  P.writeStructBegin name ++ P.codec.writeEntries es ++ P.writeStructEnd

/-- `write` of a struct. -/
def writeStruct (name : String) {fields : Fields} (r : Values fields) : List B :=
  P.writeEntries name ((List.finRange fields.length).map r.entry)

/-- `read` of a struct. The result has the fields with their bits in `__isset`. -/
def readStruct (fields : Fields) : Prog (List B) TException (Found FieldType.Value fields) := do
  P.readStructBegin
  let found ← P.codec.readRecord fields
  P.readStructEnd
  pure found

/-- Two versions of a struct do not use one number for lists of different elements. -/
def Compatible (fields fields' : Fields) : Prop :=
  ∀ i j, (fields.get i).number = (fields'.get j).number →
    (fields.get i).type.ttype = (fields'.get j).type.ttype →
    (fields.get i).type = (fields'.get j).type

instance (fields fields' : Fields) : Decidable (Compatible fields fields') :=
  inferInstanceAs (Decidable (∀ _ _, _ → _ → _))

variable {P} {fields fields' : Fields} {es : List (Entry Int16 FieldType.Value)}

theorem reads_entries (name : String) (hfields : (fields.map (·.number)).Nodup)
    (hes : ∀ e ∈ es, P.codec.Readable fields e) :
    Reads (P.readStruct fields) (P.writeEntries name es) (lastOf fields es) := by
  rw [readStruct, writeEntries, List.append_assoc]
  exact (P.reads_structBegin name).bind ((FieldCodec.reads_entries hfields hes).bind
    (P.reads_structEnd.map (.pure _)))

/-- What a reader finds in a struct of another version. -/
theorem reads_struct (name : String) {r : Values fields} (hfields : (fields.map (·.number)).Nodup)
    (hfields' : (fields'.map (·.number)).Nodup) (hcompat : Compatible fields fields')
    (hfits : ∀ i, (fields.get i).type.Fits (r i)) :
    Reads (P.readStruct fields') (P.writeStruct name r) (r.seenBy fields') := by
  rw [readStruct, writeStruct, writeEntries, List.append_assoc]
  have hrecord := FieldCodec.reads_record (C := P.codec) hfields hfields' hcompat hfits
  exact (P.reads_structBegin name).bind (hrecord.bind (P.reads_structEnd.map (.pure _)))

theorem skips_entries (name : String) (hes : ∀ e ∈ es, e.type.Fits e.value) :
    Reads (P.skip .struct) (P.writeEntries name es) () := by
  have hskip := P.skips_struct name
    (es.map fun e => (e.name, e.type.ttype, e.number, P.writeValue e.type e.value)) fun f hf => by
      obtain ⟨e, he, rfl⟩ := List.mem_map.mp hf
      exact skips_value _ _ (hes e he)
  rw [List.flatMap_map, List.append_assoc (P.writeStructBegin name)] at hskip
  exact hskip

theorem skips_written (name : String) {r : Values fields}
    (hfits : ∀ i, (fields.get i).type.Fits (r i)) :
    Reads (P.skip .struct) (P.writeStruct name r) () :=
  skips_entries name fun e he => by
    obtain ⟨i, -, rfl⟩ := List.mem_map.mp he
    exact hfits i

end TProtocol

end Nynn
