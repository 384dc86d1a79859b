import GameFrame.Util.RawBuffer

/-!
# A buffer is a queue of bytes

Three statements of what a buffer is, one above the other. At the bottom is
the class with its wrapping indices (`RawBuffer`). Every state of it that is
reached stands for a `Buffer`, whose zones are in order (`Represents`), as long
as the sums that its callers cause stay below `2 ^ 64`; so no copy leaves the
vector, and an operation on the one is the operation on the other
(`call_refines`). And a `Buffer` has been seen to be its readable bytes and
nothing else, so on top there is a queue that neither has indices nor moves
anything (`queueStep`). What is taken from it, and then what is still in it,
is what was put into it (`queue_account`).
-/

namespace GameFrame

/-! ## The queue -/

/-- What a call puts behind the queue. -/
def BufferOp.given : BufferOp → List UInt8
  | .append bytes | .fill bytes => bytes
  | _ => []

/-- How many bytes a call takes from the front of a queue `q`. -/
def BufferOp.takes (q : List UInt8) : BufferOp → Nat
  | .retrieve len | .retrieveAsString len | .retrieveUntil len => len.toNat
  | .retrieveAll | .retrieveAllAsString => q.length
  | .append _ | .ensureWritable _ | .fill _ | .findCrlf => 0

def BufferOp.reply (q : List UInt8) : BufferOp → BufferReply
  | .retrieveAsString len => .string (q.take len.toNat)
  | .retrieveAllAsString => .string q
  | .findCrlf => .crlf (Buffer.searchCrlf q)
  | _ => .done

/-- One call on the queue, with the replies of all calls so far. -/
def queueStep (s : List UInt8 × List BufferReply) (op : BufferOp) :
    List UInt8 × List BufferReply :=
  ((s.1 ++ op.given).drop (op.takes s.1), s.2 ++ [op.reply s.1])

def queueRun (s : List UInt8 × List BufferReply) (ops : List BufferOp) :
    List UInt8 × List BufferReply :=
  ops.foldl queueStep s

/-- What the calls take, one behind the other. -/
def queueTaken : List UInt8 × List BufferReply → List BufferOp → List UInt8
  | _, [] => []
  | s, op :: ops =>
      (s.1 ++ op.given).take (op.takes s.1) ++ queueTaken (queueStep s op) ops

/-- First in, first out. -/
theorem queue_account (ops : List BufferOp) :
    ∀ s : List UInt8 × List BufferReply,
      queueTaken s ops ++ (queueRun s ops).1 =
        s.1 ++ ops.flatMap BufferOp.given := by
  induction ops with
  | nil =>
      intro s
      simp [queueTaken, queueRun]
  | cons op ops ih =>
      intro s
      have hrest : queueTaken (queueStep s op) ops ++
          (queueRun s (op :: ops)).1 =
          (s.1 ++ op.given).drop (op.takes s.1) ++
            ops.flatMap BufferOp.given := ih (queueStep s op)
      rw [queueTaken, List.append_assoc, hrest, ← List.append_assoc,
        List.take_append_drop, List.flatMap_cons, List.append_assoc]

/-! ## The first end of a line -/

/-- A carriage return and a line feed stand at `i`. -/
def CrlfAt (bytes : List UInt8) (i : Nat) : Prop :=
  bytes[i]? = some 13 ∧ bytes[i + 1]? = some 10

/-- What is found is the first pair there is, and nothing is found only if
there is none. -/
def FirstCrlf (bytes : List UInt8) : Option Nat → Prop
  | some i => CrlfAt bytes i ∧ ∀ j, j < i → ¬ CrlfAt bytes j
  | none => ∀ j, ¬ CrlfAt bytes j

theorem firstCrlf_searchCrlf (bytes : List UInt8) :
    FirstCrlf bytes (Buffer.searchCrlf bytes) := by
  induction bytes with
  | nil =>
      intro j hj
      simp [CrlfAt] at hj
  | cons c bytes ih =>
      have hzero : CrlfAt (c :: bytes) 0 ↔ c = 13 ∧ bytes.head? = some 10 := by
        simp [CrlfAt, List.head?_eq_getElem?]
      have hsucc : ∀ j, CrlfAt (c :: bytes) (j + 1) ↔ CrlfAt bytes j := by
        intro j
        simp [CrlfAt]
      rw [Buffer.searchCrlf]
      split
      · next hcrlf =>
          refine ⟨hzero.mpr hcrlf, fun j hj => ?_⟩
          omega
      · next hcrlf =>
          have hfirst : ¬ CrlfAt (c :: bytes) 0 := fun h => hcrlf (hzero.mp h)
          cases hsearch : Buffer.searchCrlf bytes with
          | none =>
              rw [hsearch] at ih
              intro j hj
              cases j with
              | zero => exact hfirst hj
              | succ j => exact ih j ((hsucc j).mp hj)
          | some i =>
              rw [hsearch] at ih
              refine ⟨(hsucc i).mpr ih.1, fun j hj h => ?_⟩
              cases j with
              | zero => exact hfirst h
              | succ j =>
                  exact ih.2 j (Nat.lt_of_succ_lt_succ hj) ((hsucc j).mp h)

namespace RawBuffer

/-- The zones are one behind the other. -/
def Ordered (r : RawBuffer) : Prop :=
  kPrependSize ≤ r.readerIndex.toNat ∧
    r.readerIndex.toNat ≤ r.writerIndex.toNat ∧
    r.writerIndex.toNat ≤ r.data.length

/-- The fields are those of `b`, and the vector is no larger than a `size_t`
can say. -/
structure Represents (r : RawBuffer) (b : Buffer) : Prop where
  data : r.data = b.data
  reader : r.readerIndex.toNat = b.readerIndex
  writer : r.writerIndex.toNat = b.writerIndex
  size : b.data.length < 18446744073709551616

theorem new_represents : Represents new Buffer.new where
  data := rfl
  reader := rfl
  writer := rfl
  size := by
    rw [Buffer.new, List.length_replicate]
    decide

variable {r : RawBuffer} {b : Buffer}

theorem Represents.ordered (h : Represents r b) : r.Ordered := by
  rw [Ordered, h.reader, h.writer, h.data]
  exact ⟨b.prepend_le, b.reader_le, b.writer_le⟩

theorem Represents.toNat_readableBytes (h : Represents r b) :
    r.readableBytes.toNat = b.readableBytes := by
  have hle : r.readerIndex ≤ r.writerIndex := by
    rw [UInt64.le_iff_toNat_le, h.reader, h.writer]
    exact b.reader_le
  rw [readableBytes, UInt64.toNat_sub_of_le _ _ hle, h.reader, h.writer]
  rfl

theorem Represents.toNat_writableBytes (h : Represents r b) :
    r.writableBytes.toNat = b.writableBytes := by
  have hsize : (UInt64.ofNat b.data.length).toNat = b.data.length :=
    Nat.mod_eq_of_lt h.size
  have hle : r.writerIndex ≤ UInt64.ofNat r.data.length := by
    rw [UInt64.le_iff_toNat_le, h.data, hsize, h.writer]
    exact b.writer_le
  rw [writableBytes, UInt64.toNat_sub_of_le _ _ hle, h.data, hsize, h.writer]
  rfl

/-- The first bytes of the readable zone, in the vector. -/
theorem Represents.load (h : Represents r b) {len : UInt64}
    (hlen : len.toNat ≤ b.readableBytes) :
    load r.data r.readerIndex len = some (b.readable.take len.toNat) := by
  have hwriter := b.writer_le
  have hreader := b.reader_le
  rw [Buffer.readableBytes] at hlen
  rw [GameFrame.load, h.data, h.reader, if_pos (by omega), Buffer.readable,
    List.drop_take, List.take_take, Nat.min_eq_left hlen]

theorem Represents.readableView (h : Represents r b) :
    r.readableView = some b.readable := by
  have hlen := h.toNat_readableBytes
  rw [RawBuffer.readableView, h.load (Nat.le_of_eq hlen), hlen,
    ← Buffer.readable_length, List.take_length]

/-! ## The operations -/

theorem Represents.retrieveAll (h : Represents r b) :
    Represents r.retrieveAll b.retrieveAll where
  data := h.data
  reader := rfl
  writer := rfl
  size := h.size

theorem Represents.retrieve (h : Represents r b) (len : UInt64) :
    Represents (r.retrieve len) (b.retrieve len.toNat) := by
  have hall : len ≥ r.readableBytes ↔ len.toNat ≥ b.readableBytes := by
    rw [ge_iff_le, UInt64.le_iff_toNat_le, h.toNat_readableBytes]
  rw [RawBuffer.retrieve, Buffer.retrieve]
  split
  · next hge =>
      rw [dif_pos (hall.mp hge)]
      exact h.retrieveAll
  · next hlt =>
      have hlen : ¬ len.toNat ≥ b.readableBytes := fun hge => hlt (hall.mpr hge)
      have hwriter := b.writer_le
      have hsize := h.size
      rw [dif_neg hlen]
      rw [Buffer.readableBytes] at hlen
      refine ⟨h.data, ?_, h.writer, h.size⟩
      show (r.readerIndex + len).toNat = b.readerIndex + len.toNat
      rw [UInt64.toNat_add, h.reader]
      exact Nat.mod_eq_of_lt (by omega)

/-- A copy behind the readable bytes. -/
theorem Represents.fill (h : Represents r b) {bytes : List UInt8}
    (hroom : bytes.length ≤ b.writableBytes) :
    ∃ r', r.fill bytes = some r' ∧ Represents r' (b.hasWritten bytes hroom) := by
  have hwriter := b.writer_le
  have hsize := h.size
  have hfit : b.writerIndex + bytes.length ≤ b.data.length := by
    rw [Buffer.writableBytes] at hroom
    omega
  have hstore : store r.data r.writerIndex bytes =
      some (overwrite b.data b.writerIndex bytes) := by
    rw [store, h.data, h.writer, if_pos hfit]
  rw [RawBuffer.fill, hstore]
  refine ⟨_, rfl, rfl, h.reader, ?_, ?_⟩
  · show (r.writerIndex + UInt64.ofNat bytes.length).toNat =
      b.writerIndex + bytes.length
    rw [UInt64.toNat_add, UInt64.toNat_ofNat', h.writer]
    omega
  · show (overwrite b.data b.writerIndex bytes).length < _
    rw [overwrite_length hfit]
    exact hsize

/-- Room is made where it is made in `b`, by the same of the three ways. -/
theorem Represents.ensureWritable (h : Represents r b) {len : UInt64}
    (hfit : r.SumsFit len.toNat) :
    ∃ r', r.ensureWritable len = some r' ∧
      Represents r' (b.ensureWritable len.toNat) := by
  obtain ⟨hsum, hlen⟩ := hfit
  have hprepend := b.prepend_le
  have hreader := b.reader_le
  have hwriter := b.writer_le
  have hsize := h.size
  have hroom : r.writableBytes ≥ len ↔ b.writableBytes ≥ len.toNat := by
    rw [ge_iff_le, UInt64.le_iff_toNat_le, h.toNat_writableBytes]
  have hfront : r.writableBytes + r.prependableBytes ≥
      len + UInt64.ofNat kPrependSize ↔
      b.writableBytes + b.prependableBytes ≥ len.toNat + kPrependSize := by
    have hleft : (r.writableBytes + r.prependableBytes).toNat =
        b.writableBytes + b.prependableBytes := by
      rw [UInt64.toNat_add, h.toNat_writableBytes, prependableBytes, h.reader,
        Buffer.prependableBytes, Buffer.writableBytes]
      exact Nat.mod_eq_of_lt (by omega)
    have hright : (len + UInt64.ofNat kPrependSize).toNat =
        len.toNat + kPrependSize := by
      rw [UInt64.toNat_add]
      exact Nat.mod_eq_of_lt hlen
    rw [ge_iff_le, UInt64.le_iff_toNat_le, hleft, hright]
  rw [RawBuffer.ensureWritable, Buffer.ensureWritable]
  by_cases hhas : r.writableBytes ≥ len
  · rw [if_pos hhas, if_pos (hroom.mp hhas)]
    exact ⟨r, rfl, h⟩
  · rw [if_neg hhas, if_neg fun hge => hhas (hroom.mpr hge)]
    by_cases hmove : r.writableBytes + r.prependableBytes ≥
        len + UInt64.ofNat kPrependSize
    · have hview : GameFrame.load r.data r.readerIndex r.readableBytes =
          some b.readable := h.readableView
      have hmoved : kPrependSize + b.readable.length ≤ b.data.length := by
        rw [Buffer.readable_length, Buffer.readableBytes]
        omega
      have hstore : store r.data (UInt64.ofNat kPrependSize) b.readable =
          some (overwrite b.data kPrependSize b.readable) := by
        rw [store, h.data]
        exact if_pos hmoved
      rw [if_pos hmove, dif_pos (hfront.mp hmove)]
      dsimp only
      rw [hview]
      dsimp only
      rw [hstore]
      refine ⟨_, rfl, rfl, rfl, ?_, ?_⟩
      · show (UInt64.ofNat kPrependSize + r.readableBytes).toNat =
          kPrependSize + b.readableBytes
        rw [Buffer.readable_length] at hmoved
        rw [UInt64.toNat_add, h.toNat_readableBytes]
        exact Nat.mod_eq_of_lt (Nat.lt_of_le_of_lt hmoved hsize)
      · show (overwrite b.data kPrependSize b.readable).length < _
        rw [overwrite_length hmoved]
        exact hsize
    · have hgrown : (r.writerIndex + len).toNat = b.writerIndex + len.toNat := by
        rw [UInt64.toNat_add, Nat.mod_eq_of_lt hsum, h.writer]
      rw [if_neg hmove, dif_neg fun hge => hmove (hfront.mpr hge)]
      refine ⟨_, rfl, ?_, h.reader, h.writer, ?_⟩
      · show resize r.data (r.writerIndex + len).toNat = _
        rw [hgrown, h.data]
      · show (resize b.data (b.writerIndex + len.toNat)).length < _
        rw [resize_length, ← h.writer]
        exact hsum

theorem Represents.append (h : Represents r b) {bytes : List UInt8}
    (hfit : r.SumsFit bytes.length) :
    ∃ r', r.append bytes = some r' ∧ Represents r' (b.append bytes) := by
  have hlen : (UInt64.ofNat bytes.length).toNat = bytes.length := by
    obtain ⟨hsum, -⟩ := hfit
    exact Nat.mod_eq_of_lt (by omega)
  rw [← hlen] at hfit
  obtain ⟨r₁, hensure, h₁⟩ := h.ensureWritable hfit
  rw [hlen] at h₁
  obtain ⟨r₂, hfill, h₂⟩ :=
    h₁.fill (b.le_writableBytes_ensureWritable bytes.length)
  refine ⟨r₂, ?_, h₂⟩
  rw [RawBuffer.append, hensure]
  exact hfill

/-! ## Every call, and every run -/

/-- A call that is allowed does on the fields what it does on the queue. -/
theorem call_refines {replies : List BufferReply} {op : BufferOp}
    (h : Represents r b) (hok : Allowed (r, replies) op) :
    ∃ r' b', step (r, replies) op = some (r', replies ++ [op.reply b.readable]) ∧
      Represents r' b' ∧
      b'.readable = (queueStep (b.readable, replies) op).1 := by
  have hpush : ∀ bytes : List UInt8,
      b.readable ++ bytes = (b.readable ++ bytes).drop 0 := fun _ => rfl
  have hkeep : b.readable = (b.readable ++ []).drop 0 :=
    (List.append_nil _).symm
  have hpop : ∀ n, b.readable.drop n = (b.readable ++ []).drop n := fun n => by
    rw [List.append_nil]
  have hnone : [] = (b.readable ++ []).drop b.readable.length := by
    rw [List.append_nil, List.drop_length]
  cases op with
  | append bytes =>
      obtain ⟨r', happend, h'⟩ := h.append hok
      refine ⟨r', b.append bytes, ?_, h', ?_⟩
      · rw [step, call, happend]
        rfl
      · exact (b.readable_append bytes).trans (hpush bytes)
  | ensureWritable len =>
      obtain ⟨r', hensure, h'⟩ := h.ensureWritable hok
      refine ⟨r', b.ensureWritable len.toNat, ?_, h', ?_⟩
      · rw [step, call, hensure]
        rfl
      · exact (b.readable_ensureWritable len.toNat).trans hkeep
  | fill bytes =>
      have hroom : bytes.length ≤ b.writableBytes := by
        rw [← h.toNat_writableBytes]
        exact hok
      obtain ⟨r', hfill, h'⟩ := h.fill hroom
      refine ⟨r', b.hasWritten bytes hroom, ?_, h', ?_⟩
      · rw [step, call, hfill]
        rfl
      · exact (b.readable_hasWritten bytes hroom).trans (hpush bytes)
  | retrieve len =>
      refine ⟨r.retrieve len, b.retrieve len.toNat, rfl, h.retrieve len, ?_⟩
      exact (b.readable_retrieve len.toNat).trans (hpop _)
  | retrieveAll =>
      refine ⟨r.retrieveAll, b.retrieveAll, rfl, h.retrieveAll, ?_⟩
      exact b.readable_retrieveAll.trans hnone
  | retrieveAllAsString =>
      refine ⟨r.retrieveAll, b.retrieveAll, ?_, h.retrieveAll, ?_⟩
      · rw [step, call, RawBuffer.retrieveAllAsString, h.readableView]
        rfl
      · exact b.readable_retrieveAll.trans hnone
  | retrieveAsString len =>
      have hlen : len.toNat ≤ b.readableBytes := by
        rw [← h.toNat_readableBytes]
        exact UInt64.le_iff_toNat_le.mp hok
      refine ⟨r.retrieve len, b.retrieve len.toNat, ?_, h.retrieve len, ?_⟩
      · rw [step, call, RawBuffer.retrieveAsString, h.load hlen]
        rfl
      · exact (b.readable_retrieve len.toNat).trans (hpop _)
  | retrieveUntil stop =>
      refine ⟨r.retrieve stop, b.retrieve stop.toNat, rfl, h.retrieve stop, ?_⟩
      exact (b.readable_retrieve stop.toNat).trans (hpop _)
  | findCrlf =>
      refine ⟨r, b, ?_, h, hkeep⟩
      rw [step, call, RawBuffer.findCrlf, h.readableView]
      rfl

theorem run_refines {ops : List BufferOp} :
    ∀ {r : RawBuffer} {b : Buffer} {replies : List BufferReply},
      Represents r b → Machine.Meets step Allowed (r, replies) ops →
      ∃ r' b' replies', Machine.run step (r, replies) ops =
          some (r', replies') ∧
        Represents r' b' ∧
        queueRun (b.readable, replies) ops = (b'.readable, replies') := by
  induction ops with
  | nil =>
      intro r b replies h _
      exact ⟨r, b, replies, rfl, h, rfl⟩
  | cons op ops ih =>
      intro r b replies h hmeets
      obtain ⟨r₁, b₁, hstep, h₁, hqueue⟩ := call_refines h hmeets.1
      obtain ⟨r₂, b₂, replies₂, hrun, h₂, hlater⟩ := ih h₁ (hmeets.2 _ hstep)
      refine ⟨r₂, b₂, replies₂, ?_, h₂, ?_⟩
      · exact Machine.run_cons_some.mpr ⟨_, hstep, hrun⟩
      · rw [← hlater, hqueue]
        rfl

/-- Behind any calls that a caller may make, no copy having left the vector,
the zones are in order, the readable bytes and all replies are those of a
queue, what was taken and what is left is what was put in, and making room
leaves as much as was asked for and the bytes as they were. -/
theorem buffer_queue {ops : List BufferOp}
    (hok : Machine.Meets step Allowed (new, []) ops) :
    ∃ r q replies, Machine.run step (new, []) ops = some (r, replies) ∧
      r.Ordered ∧ r.readableView = some q ∧
      queueRun ([], []) ops = (q, replies) ∧
      queueTaken ([], []) ops ++ q = ops.flatMap BufferOp.given ∧
      (∀ len : UInt64, r.SumsFit len.toNat → ∃ r',
        r.ensureWritable len = some r' ∧ len ≤ r'.writableBytes ∧
          r'.Ordered ∧ r'.readableView = some q) ∧
      ∃ found, r.findCrlf = some found ∧ FirstCrlf q found := by
  obtain ⟨r, b, replies, hrun, h, hqueue⟩ := run_refines new_represents hok
  rw [Buffer.readable_new] at hqueue
  refine ⟨r, b.readable, replies, hrun, h.ordered, h.readableView, hqueue, ?_,
    ?_, Buffer.searchCrlf b.readable, ?_, firstCrlf_searchCrlf b.readable⟩
  · have haccount := queue_account ops ([], [])
    rw [hqueue] at haccount
    exact haccount
  · intro len hfit
    obtain ⟨r', hensure, h'⟩ := h.ensureWritable hfit
    have hroom := b.le_writableBytes_ensureWritable len.toNat
    refine ⟨r', hensure, ?_, h'.ordered, ?_⟩
    · rw [UInt64.le_iff_toNat_le, h'.toNat_writableBytes]
      exact hroom
    · rw [h'.readableView, Buffer.readable_ensureWritable]
  · rw [RawBuffer.findCrlf, h.readableView]
    rfl

/-- A line that is read and taken, and bytes that are moved to the front when
room is made behind them. -/
def moves : List BufferOp :=
  [.ensureWritable 4, .fill [65, 13, 10, 66], .findCrlf, .retrieveUntil 3,
    .append [67], .retrieveAsString 1, .ensureWritable 1020]

theorem buffer_queue_moves :
    ∃ r, Machine.run step (new, []) moves =
        some (r, [.done, .done, .crlf (some 1), .done, .done, .string [66],
          .done]) ∧
      r.Ordered ∧ r.readableView = some [67] := by
  have hok : Machine.Meets step Allowed (new, []) moves := by decide +kernel
  obtain ⟨r, q, replies, hrun, hordered, hview, hqueue, -⟩ :=
    buffer_queue hok
  have heval : queueRun ([], []) moves = ([67], [.done, .done, .crlf (some 1),
      .done, .done, .string [66], .done]) := by decide +kernel
  cases hqueue.symm.trans heval
  exact ⟨r, hrun, hordered, hview⟩

end RawBuffer

end GameFrame
