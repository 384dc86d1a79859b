import GameFrame.Lib.Run
import GameFrame.Util.Buffer

/-!
# `Buffer` as the machine has it

The class of `util/buffer.h` with nothing known of its fields. The indices are
`size_t`, sums of them wrap around, and a copy or a search that would leave
`data_` is `none`. `GameFrame.Util.Buffer` is the same class with the order of
its zones as part of the value, and with numbers that do not wrap.

An operation is a call from outside, with what is copied in if it copies
something in, and its reply is what the call returns.
-/

namespace GameFrame

/-- The bytes from `pos` on, as many as `len`, if they are in the vector. -/
def load (data : List UInt8) (pos len : UInt64) : Option (List UInt8) :=
  if pos.toNat + len.toNat ≤ data.length then
    some ((data.drop pos.toNat).take len.toNat)
  else none

/-- A copy to `pos`, if it stays in the vector. -/
def store (data : List UInt8) (pos : UInt64) (bytes : List UInt8) :
    Option (List UInt8) :=
  if pos.toNat + bytes.length ≤ data.length then
    some (overwrite data pos.toNat bytes)
  else none

structure RawBuffer where
  data : List UInt8
  readerIndex : UInt64
  writerIndex : UInt64
  deriving DecidableEq, Repr

inductive BufferOp where
  | append (bytes : List UInt8)
  | ensureWritable (len : UInt64)
  /-- a `read(2)` to `begin_write()`, and `has_written` behind it -/
  | fill (bytes : List UInt8)
  | retrieve (len : UInt64)
  | retrieveAll
  | retrieveAllAsString
  | retrieveAsString (len : UInt64)
  /-- up to `peek() + stop` -/
  | retrieveUntil (stop : UInt64)
  | findCrlf
  deriving DecidableEq, Repr

inductive BufferReply where
  | done
  | string (s : List UInt8)
  /-- an offset from `peek()`, or `nullptr` -/
  | crlf (found : Option Nat)
  deriving DecidableEq, Repr

namespace RawBuffer

/-- The constructor. -/
def new : RawBuffer where
  data := List.replicate (kPrependSize + kInitialSize) 0
  readerIndex := UInt64.ofNat kPrependSize
  writerIndex := UInt64.ofNat kPrependSize

def readableBytes (r : RawBuffer) : UInt64 := r.writerIndex - r.readerIndex

def writableBytes (r : RawBuffer) : UInt64 :=
  UInt64.ofNat r.data.length - r.writerIndex

def prependableBytes (r : RawBuffer) : UInt64 := r.readerIndex

/-- `retrieve_all()`. -/
def retrieveAll (r : RawBuffer) : RawBuffer :=
  { r with
    readerIndex := UInt64.ofNat kPrependSize
    writerIndex := UInt64.ofNat kPrependSize }

/-- `retrieve(len)`. -/
def retrieve (r : RawBuffer) (len : UInt64) : RawBuffer :=
  if len ≥ r.readableBytes then r.retrieveAll
  else { r with readerIndex := r.readerIndex + len }

/-- `readable_view()`. -/
def readableView (r : RawBuffer) : Option (List UInt8) :=
  load r.data r.readerIndex r.readableBytes

/-- `retrieve_all_as_string()`. -/
def retrieveAllAsString (r : RawBuffer) : Option (List UInt8 × RawBuffer) :=
  r.readableView.map fun s => (s, r.retrieveAll)

/-- `retrieve_as_string(len)`. -/
def retrieveAsString (r : RawBuffer) (len : UInt64) :
    Option (List UInt8 × RawBuffer) :=
  (load r.data r.readerIndex len).map fun s => (s, r.retrieve len)

/-- `retrieve_until(end)`. -/
def retrieveUntil (r : RawBuffer) (stop : UInt64) : RawBuffer := r.retrieve stop

/-- `find_crlf()`. -/
def findCrlf (r : RawBuffer) : Option (Option Nat) :=
  r.readableView.map Buffer.searchCrlf

/-- `has_written(len)`. -/
def hasWritten (r : RawBuffer) (len : UInt64) : RawBuffer :=
  { r with writerIndex := r.writerIndex + len }

/-- `ensure_writable(len)`. -/
def ensureWritable (r : RawBuffer) (len : UInt64) : Option RawBuffer :=
  if r.writableBytes ≥ len then some r
  else if r.writableBytes + r.prependableBytes ≥
      len + UInt64.ofNat kPrependSize then
    let readable := r.readableBytes
    match load r.data r.readerIndex readable with
    | none => none
    | some moved =>
        (store r.data (UInt64.ofNat kPrependSize) moved).map fun data =>
          { data
            readerIndex := UInt64.ofNat kPrependSize
            writerIndex := UInt64.ofNat kPrependSize + readable }
  else some { r with data := resize r.data (r.writerIndex + len).toNat }

/-- A copy to `begin_write()`, and `has_written` behind it. -/
def fill (r : RawBuffer) (bytes : List UInt8) : Option RawBuffer :=
  (store r.data r.writerIndex bytes).map fun data =>
    { r with data }.hasWritten (UInt64.ofNat bytes.length)

/-- `append(data, len)`. -/
def append (r : RawBuffer) (bytes : List UInt8) : Option RawBuffer :=
  (r.ensureWritable (UInt64.ofNat bytes.length)).bind fun r => r.fill bytes

/-- One call, and what it returns. -/
def call (r : RawBuffer) : BufferOp → Option (RawBuffer × BufferReply)
  | .append bytes => (r.append bytes).map (·, .done)
  | .ensureWritable len => (r.ensureWritable len).map (·, .done)
  | .fill bytes => (r.fill bytes).map (·, .done)
  | .retrieve len => some (r.retrieve len, .done)
  | .retrieveAll => some (r.retrieveAll, .done)
  | .retrieveAllAsString =>
      r.retrieveAllAsString.map fun s => (s.2, .string s.1)
  | .retrieveAsString len =>
      (r.retrieveAsString len).map fun s => (s.2, .string s.1)
  | .retrieveUntil stop => some (r.retrieveUntil stop, .done)
  | .findCrlf => r.findCrlf.map fun found => (r, .crlf found)

/-- A call, with the replies of all calls so far. -/
def step (s : RawBuffer × List BufferReply) (op : BufferOp) :
    Option (RawBuffer × List BufferReply) :=
  (s.1.call op).map fun r => (r.1, s.2 ++ [r.2])

/-- The sums that are made for `len` more bytes stay in a `size_t`. -/
def SumsFit (r : RawBuffer) (len : Nat) : Prop :=
  r.writerIndex.toNat + len < 18446744073709551616 ∧
    len + kPrependSize < 18446744073709551616

instance (r : RawBuffer) (len : Nat) : Decidable (r.SumsFit len) :=
  inferInstanceAs (Decidable (_ ∧ _))

/-- What the callers of the class have to see to. -/
def Allowed (s : RawBuffer × List BufferReply) : BufferOp → Prop
  | .append bytes => s.1.SumsFit bytes.length
  | .ensureWritable len => s.1.SumsFit len.toNat
  | .fill bytes => bytes.length ≤ s.1.writableBytes.toNat
  | .retrieveAsString len => len ≤ s.1.readableBytes
  | .retrieveUntil stop => stop ≤ s.1.readableBytes
  | .retrieve _ | .retrieveAll | .retrieveAllAsString | .findCrlf => True

instance (s : RawBuffer × List BufferReply) :
    ∀ op, Decidable (Allowed s op)
  | .append bytes => inferInstanceAs (Decidable (s.1.SumsFit bytes.length))
  | .ensureWritable len => inferInstanceAs (Decidable (s.1.SumsFit len.toNat))
  | .fill bytes =>
      inferInstanceAs (Decidable (bytes.length ≤ s.1.writableBytes.toNat))
  | .retrieveAsString len | .retrieveUntil len =>
      inferInstanceAs (Decidable (len ≤ s.1.readableBytes))
  | .retrieve _ | .retrieveAll | .retrieveAllAsString | .findCrlf =>
      inferInstanceAs (Decidable True)

end RawBuffer

end GameFrame
