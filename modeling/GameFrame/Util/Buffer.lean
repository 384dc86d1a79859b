/-!
# `Buffer`, the three-zone byte buffer

`util/buffer.h` keeps a vector and two indices into it. Everything below the
reader is prependable, the readable bytes lie between the two, and the rest
is writable; when the writable zone is too small the readable bytes are first
moved to the front, and only if that is not enough does the vector grow.

A `Buffer` here carries the order of the zones as part of the value, so the
proof that an operation keeps them apart is its definition. What the rest of
the development uses is `readable`, the byte string between the indices: the
lemmas after each operation say what it does to that string, and nothing
above this file mentions an index again.

Sizes are natural numbers. The source's `size_t` sums stay below `2 ^ 64` in
any process that could hold the bytes.
-/

namespace GameFrame

/-- Overwrite: `memcpy` or `memmove` of `bytes` to offset `pos` of `dst`. -/
def overwrite (dst : List UInt8) (pos : Nat) (bytes : List UInt8) :
    List UInt8 :=
  dst.take pos ++ bytes ++ dst.drop (pos + bytes.length)

/-- `std::vector<char>::resize(n)`: cut to `n`, or pad with zeros. -/
def resize (data : List UInt8) (n : Nat) : List UInt8 :=
  data.take n ++ List.replicate (n - data.length) 0

theorem overwrite_length {dst bytes : List UInt8} {pos : Nat}
    (h : pos + bytes.length ≤ dst.length) :
    (overwrite dst pos bytes).length = dst.length := by
  simp only [overwrite, List.length_append, List.length_take, List.length_drop]
  omega

@[simp] theorem resize_length (data : List UInt8) (n : Nat) :
    (resize data n).length = n := by
  simp only [resize, List.length_append, List.length_take,
    List.length_replicate]
  omega

theorem take_resize {data : List UInt8} {n k : Nat} (hk : k ≤ data.length)
    (hn : k ≤ n) : (resize data n).take k = data.take k := by
  rw [resize, List.take_append_of_le_length (by rw [List.length_take]; omega),
    List.take_take, Nat.min_eq_left hn]

/-- `Buffer::kInitialSize`. -/
def kInitialSize : Nat := 1024

/-- `Buffer::kPrependSize`. -/
def kPrependSize : Nat := 8

/-- `data_`, `reader_index_` and `writer_index_`, in order. -/
structure Buffer where
  data : List UInt8
  readerIndex : Nat
  writerIndex : Nat
  prepend_le : kPrependSize ≤ readerIndex
  reader_le : readerIndex ≤ writerIndex
  writer_le : writerIndex ≤ data.length
  deriving DecidableEq

namespace Buffer

/-- A fresh buffer: nothing to read, `kInitialSize` bytes to write. -/
def new : Buffer where
  data := List.replicate (kPrependSize + kInitialSize) 0
  readerIndex := kPrependSize
  writerIndex := kPrependSize
  prepend_le := Nat.le_refl _
  reader_le := Nat.le_refl _
  writer_le := by rw [List.length_replicate]; exact Nat.le_add_right _ _

def readableBytes (b : Buffer) : Nat := b.writerIndex - b.readerIndex

def writableBytes (b : Buffer) : Nat := b.data.length - b.writerIndex

def prependableBytes (b : Buffer) : Nat := b.readerIndex

def empty (b : Buffer) : Bool := b.readableBytes == 0

/-- `readable_view()`: the bytes between the two indices. -/
def readable (b : Buffer) : List UInt8 :=
  (b.data.take b.writerIndex).drop b.readerIndex

@[simp] theorem readable_length (b : Buffer) :
    b.readable.length = b.readableBytes := by
  have := b.writer_le
  simp only [readable, readableBytes, List.length_drop, List.length_take]
  omega

@[simp] theorem empty_eq_true (b : Buffer) : b.empty = true ↔ b.readable = [] := by
  rw [← List.length_eq_zero_iff, readable_length]
  simp [empty]

@[simp] theorem empty_eq_false (b : Buffer) :
    b.empty = false ↔ b.readable ≠ [] := by
  rw [Ne, ← empty_eq_true, Bool.not_eq_true]

@[simp] theorem readable_new : new.readable = [] := by
  rw [← List.length_eq_zero_iff, readable_length]
  rfl

/-- `retrieve_all()`: both indices back to the front. -/
def retrieveAll (b : Buffer) : Buffer where
  data := b.data
  readerIndex := kPrependSize
  writerIndex := kPrependSize
  prepend_le := Nat.le_refl _
  reader_le := Nat.le_refl _
  writer_le := Nat.le_trans b.prepend_le (Nat.le_trans b.reader_le b.writer_le)

@[simp] theorem readable_retrieveAll (b : Buffer) :
    b.retrieveAll.readable = [] := by
  rw [← List.length_eq_zero_iff, readable_length]
  exact Nat.sub_self _

/-- `retrieve(len)`: consume `len` bytes, or everything there is. -/
def retrieve (b : Buffer) (len : Nat) : Buffer :=
  if h : len ≥ b.readableBytes then b.retrieveAll
  else
    { data := b.data
      readerIndex := b.readerIndex + len
      writerIndex := b.writerIndex
      prepend_le := Nat.le_trans b.prepend_le (Nat.le_add_right _ _)
      reader_le := by
        have := b.reader_le
        simp only [readableBytes, ge_iff_le, Nat.not_le] at h
        omega
      writer_le := b.writer_le }

@[simp] theorem readable_retrieve (b : Buffer) (len : Nat) :
    (b.retrieve len).readable = b.readable.drop len := by
  rw [retrieve]
  split
  · next h =>
      rw [readable_retrieveAll, List.drop_eq_nil_of_le]
      rw [readable_length]
      exact h
  · rw [readable, readable, List.drop_drop]

theorem readableBytes_retrieve (b : Buffer) (len : Nat) :
    (b.retrieve len).readableBytes = b.readableBytes - len := by
  rw [← readable_length, readable_retrieve, List.length_drop, readable_length]

/-- `retrieve_as_string(len)`: the first `len` readable bytes, consumed. The
caller has to make sure that they are there; `none` is the string constructor
running past the readable zone. -/
def retrieveAsString (b : Buffer) (len : Nat) : Option (List UInt8 × Buffer) :=
  if len ≤ b.readableBytes then some (b.readable.take len, b.retrieve len)
  else none

theorem retrieveAsString_eq {b : Buffer} {len : Nat}
    (h : len ≤ b.readable.length) :
    b.retrieveAsString len = some (b.readable.take len, b.retrieve len) := by
  rw [readable_length] at h
  rw [retrieveAsString, if_pos h]

/-- `ensure_writable(len)`: move the readable bytes to the front if that
makes enough room, grow the vector otherwise. -/
def ensureWritable (b : Buffer) (len : Nat) : Buffer :=
  if b.writableBytes ≥ len then b
  else if h : b.writableBytes + b.prependableBytes ≥ len + kPrependSize then
    { data := overwrite b.data kPrependSize b.readable
      readerIndex := kPrependSize
      writerIndex := kPrependSize + b.readableBytes
      prepend_le := Nat.le_refl _
      reader_le := Nat.le_add_right _ _
      writer_le := by
        have := b.prepend_le
        have := b.reader_le
        have := b.writer_le
        have hfit : kPrependSize + b.readableBytes ≤ b.data.length := by
          simp only [readableBytes]; omega
        rw [overwrite_length (by rw [readable_length]; exact hfit)]
        exact hfit }
  else
    { data := resize b.data (b.writerIndex + len)
      readerIndex := b.readerIndex
      writerIndex := b.writerIndex
      prepend_le := b.prepend_le
      reader_le := b.reader_le
      writer_le := by rw [resize_length]; exact Nat.le_add_right _ _ }

/-- Compaction and growth leave the readable bytes alone. -/
@[simp] theorem readable_ensureWritable (b : Buffer) (len : Nat) :
    (b.ensureWritable len).readable = b.readable := by
  have hp := b.prepend_le
  have hr := b.reader_le
  have hw := b.writer_le
  rw [ensureWritable]
  split
  · rfl
  · split
    · -- The bytes now sit right behind the prepend zone.
      have htake : (b.data.take kPrependSize).length = kPrependSize := by
        rw [List.length_take]; omega
      have hlen : (b.data.take kPrependSize ++ b.readable).length =
          kPrependSize + b.readableBytes := by
        rw [List.length_append, htake, readable_length]
      show ((overwrite b.data kPrependSize b.readable).take
        (kPrependSize + b.readableBytes)).drop kPrependSize = b.readable
      rw [overwrite, List.take_left' hlen, List.drop_left' htake]
    · show ((resize b.data (b.writerIndex + len)).take b.writerIndex).drop
        b.readerIndex = b.readable
      rw [take_resize hw (Nat.le_add_right _ _)]
      rfl

/-- What `ensure_writable` is for. -/
theorem le_writableBytes_ensureWritable (b : Buffer) (len : Nat) :
    len ≤ (b.ensureWritable len).writableBytes := by
  have hp := b.prepend_le
  have hr := b.reader_le
  have hw := b.writer_le
  rw [ensureWritable]
  split
  · next h => exact h
  · split
    · next h =>
        show len ≤ (overwrite b.data kPrependSize b.readable).length -
          (kPrependSize + b.readableBytes)
        simp only [writableBytes, prependableBytes] at h
        rw [overwrite_length
          (by rw [readable_length, readableBytes]; omega)]
        simp only [readableBytes]
        omega
    · show len ≤ (resize b.data (b.writerIndex + len)).length - b.writerIndex
      rw [resize_length]
      omega

/-- Something outside copies `bytes` to `begin_write()` and then calls
`has_written(bytes.size())`. It must not write more than there is room for. -/
def hasWritten (b : Buffer) (bytes : List UInt8)
    (h : bytes.length ≤ b.writableBytes) : Buffer where
  data := overwrite b.data b.writerIndex bytes
  readerIndex := b.readerIndex
  writerIndex := b.writerIndex + bytes.length
  prepend_le := b.prepend_le
  reader_le := Nat.le_trans b.reader_le (Nat.le_add_right _ _)
  writer_le := by
    have := b.writer_le
    simp only [writableBytes] at h
    rw [overwrite_length (by omega)]
    omega

@[simp] theorem readable_hasWritten (b : Buffer) (bytes : List UInt8)
    (h : bytes.length ≤ b.writableBytes) :
    (b.hasWritten bytes h).readable = b.readable ++ bytes := by
  have hr := b.reader_le
  have hw := b.writer_le
  have htake : (b.data.take b.writerIndex).length = b.writerIndex := by
    rw [List.length_take]; omega
  have hlen : (b.data.take b.writerIndex ++ bytes).length =
      b.writerIndex + bytes.length := by
    rw [List.length_append, htake]
  show ((overwrite b.data b.writerIndex bytes).take
    (b.writerIndex + bytes.length)).drop b.readerIndex = b.readable ++ bytes
  rw [overwrite, List.take_left' hlen,
    List.drop_append_of_le_length (by rw [htake]; exact hr)]
  rfl

/-- `append(data, len)`: make room, copy, move the writer. -/
def append (b : Buffer) (bytes : List UInt8) : Buffer :=
  (b.ensureWritable bytes.length).hasWritten bytes
    (b.le_writableBytes_ensureWritable bytes.length)

@[simp] theorem readable_append (b : Buffer) (bytes : List UInt8) :
    (b.append bytes).readable = b.readable ++ bytes := by
  rw [append, readable_hasWritten, readable_ensureWritable]

/-- Where the first `\r\n` begins, which is what `std::search` looks for. -/
def searchCrlf : List UInt8 → Option Nat
  | [] => none
  | c :: bytes =>
      if c = 13 ∧ bytes.head? = some 10 then some 0
      else (searchCrlf bytes).map (· + 1)

/-- `find_crlf()`, as an offset from `peek()`. -/
def findCrlf (b : Buffer) : Option Nat := searchCrlf b.readable

/-- `retrieve_until(end)`, for an `end` at an offset from `peek()`. -/
def retrieveUntil (b : Buffer) (stop : Nat) : Buffer := b.retrieve stop

/-- The two bytes are there. -/
theorem searchCrlf_lt {bytes : List UInt8} {i : Nat}
    (h : searchCrlf bytes = some i) : i + 2 ≤ bytes.length := by
  induction bytes generalizing i with
  | nil => cases h
  | cons c bytes ih =>
      rw [searchCrlf] at h
      split at h
      · next hcrlf =>
          cases h
          cases bytes with
          | nil => simp at hcrlf
          | cons d bytes => simp
      · obtain ⟨j, hj, rfl⟩ := Option.map_eq_some_iff.mp h
        have := ih hj
        rw [List.length_cons]
        omega

theorem readableBytes_retrieveUntil_lt {b : Buffer} {i : Nat}
    (h : b.findCrlf = some i) :
    (b.retrieveUntil (i + 2)).readableBytes < b.readableBytes := by
  have hlen := searchCrlf_lt h
  rw [readable_length] at hlen
  rw [retrieveUntil, readableBytes_retrieve]
  omega

end Buffer

end GameFrame
