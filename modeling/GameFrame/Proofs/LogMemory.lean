import GameFrame.Proofs.ConnectionCalls
import GameFrame.Proofs.LogGrouping

/-!
# What a peer can make `log_server` hold

A buffer gives nothing back, and it does not always move its bytes to the front
before it grows. But it only grows if what is in it and what is asked for do not
fit, and then to less than the bytes in it and twice what is asked for
(`ensureWritable_length`). So its size is bounded by what was in it at any one
time, whatever has gone through it.

Between two batches a peer that is up has less than one frame of the largest
size in its buffer: the codec leaves no frame that is complete, and closes the
connection on a length that is larger. That is so of every stream. The memory
that one connection can take is one such frame and one batch, with what two
reads ask for and the prepend (`memory_bounded`).
-/

namespace GameFrame

namespace Buffer

theorem ensureWritable_length (b : Buffer) (len : Nat) :
    (b.ensureWritable len).data.length ≤ b.data.length ∨
      (b.ensureWritable len).data.length <
        b.readableBytes + 2 * len + kPrependSize := by
  have hr := b.reader_le
  have hw := b.writer_le
  rw [ensureWritable]
  split
  · exact .inl (Nat.le_refl _)
  · next hroom =>
      split
      · next hfit =>
          left
          have hp := b.prepend_le
          have hmoved : kPrependSize + b.readable.length ≤ b.data.length := by
            rw [readable_length]
            simp only [readableBytes]
            omega
          exact Nat.le_of_eq (overwrite_length hmoved)
      · next hfit =>
          -- What is in front of the reader is less than what is asked for.
          right
          show (resize b.data (b.writerIndex + len)).length < _
          rw [resize_length]
          simp only [writableBytes, prependableBytes, readableBytes] at *
          omega

theorem retrieve_data (b : Buffer) (len : Nat) :
    (b.retrieve len).data = b.data := by
  rw [retrieve]
  split <;> rfl

theorem foldl_retrieve_data (lens : List Nat) (b : Buffer) :
    (lens.foldl retrieve b).data = b.data := by
  induction lens generalizing b with
  | nil => rfl
  | cons len lens ih => exact (ih (b.retrieve len)).trans (b.retrieve_data len)

end Buffer

/-- A loop of reads, in a buffer that has at most so many bytes at its end. -/
theorem Connection.readLoop_length {rs : List ReadRes} {size : Nat} :
    ∀ {c c' : Connection} {fresh fresh' : List UInt8} {e : ReadEnd},
    c.readLoop fresh rs = some (c', fresh', e) →
    c.inputBuffer.data.length ≤ size →
    c.inputBuffer.readable.length + (readBytes rs).length + 2 * 4096 +
      kPrependSize ≤ size →
    c'.inputBuffer.data.length ≤ size := by
  have hgrow : ∀ {b : Buffer} {n : Nat}, b.data.length ≤ size →
      b.readable.length + n + 2 * 4096 + kPrependSize ≤ size →
      (b.ensureWritable 4096).data.length ≤ size := by
    intro b n hsize hbytes
    rw [Buffer.readable_length] at hbytes
    have := b.ensureWritable_length 4096
    omega
  induction rs with
  | nil => intro c c' fresh fresh' e h; cases h
  | cons r rs ih =>
      intro c c' fresh fresh' e h hsize hbytes
      have hroom := hgrow hsize hbytes
      cases r with
      | data bytes =>
          rw [readLoop] at h
          split at h
          · next hfit =>
              refine ih h ?_ ?_
              · show (overwrite _ _ bytes).length ≤ size
                rw [overwrite_length]
                · exact hroom
                · have hw := (c.inputBuffer.ensureWritable 4096).writer_le
                  have hfit := hfit.2
                  simp only [Buffer.writableBytes] at hfit
                  omega
              · rw [Buffer.readable_hasWritten, Buffer.readable_ensureWritable,
                  List.length_append]
                rw [readBytes, List.length_append] at hbytes
                omega
          · cases h
      | eintr =>
          refine ih h hroom ?_
          show (c.inputBuffer.ensureWritable 4096).readable.length + _ + _ + _ ≤ _
          rw [Buffer.readable_ensureWritable]
          exact hbytes
      | stop e =>
          rw [readLoop] at h
          split at h
          · cases h
            exact hroom
          · cases h

namespace LogServer

open LengthPrefixedCodec Session

theorem onMessage_data {s u : Peer} (h : onMessage s = some u) :
    u.conn.inputBuffer.data = s.conn.inputBuffer.data := by
  rw [onMessage] at h
  split at h
  · cases h
  · next hdecode =>
      cases h
      obtain ⟨lens, rfl⟩ := decode_retrieves hdecode
      show (Connection.close _).inputBuffer.data = _
      rw [Connection.close_inputBuffer]
      exact Buffer.foldl_retrieve_data lens _
  · next hdecode =>
      cases h
      obtain ⟨lens, rfl⟩ := decode_retrieves hdecode
      exact Buffer.foldl_retrieve_data lens _

/-- Behind the reads the vector stays as it is. -/
theorem handleRead_data {s s' : Peer} {reads : List ReadRes}
    (h : s.handleRead onMessage reads = some s') :
    ∃ c fresh e, s.conn.readLoop [] reads = some (c, fresh, e) ∧
      s'.conn.inputBuffer.data = c.inputBuffer.data := by
  have hdeliver : ∀ {t u : Peer} {fresh : List UInt8},
      deliver onMessage t fresh = some u →
      u.conn.inputBuffer.data = t.conn.inputBuffer.data := by
    intro t u fresh hu
    rw [deliver] at hu
    split at hu
    · have hdata := onMessage_data hu
      exact hdata
    · cases hu
      rfl
  rw [Session.handleRead] at h
  split at h
  · cases h
  · next c fresh hloop =>
      obtain ⟨u, hu, rfl⟩ := Option.map_eq_some_iff.mp h
      refine ⟨c, fresh, .eof, hloop, ?_⟩
      show u.conn.close.inputBuffer.data = _
      rw [Connection.close_inputBuffer]
      exact hdeliver hu
  · next c fresh hloop =>
      cases h
      refine ⟨c, fresh, .fatal, hloop, ?_⟩
      rw [Connection.close_inputBuffer]
  · next c fresh hloop => exact ⟨c, fresh, .eagain, hloop, hdeliver h⟩

/-- A frame of the largest size, a batch of `size` bytes, what two reads ask
for, and the prepend. -/
def memory (size : Nat) : Nat :=
  4 + maxLen + size + 2 * 4096 + kPrependSize

/-- The buffer of a peer, between two batches. -/
structure Bounded (size : Nat) (s : Peer) : Prop where
  data : s.conn.inputBuffer.data.length ≤ memory size
  input : s.conn.state = .kDisconnected ∨ Up s ∧ s.input.length < 4 + maxLen

theorem bounded_newPeer (size : Nat) : Bounded size newPeer := by
  refine ⟨?_, .inr ⟨up_newPeer, ?_⟩⟩
  · have hnew : newPeer.conn.inputBuffer.data.length =
        kPrependSize + kInitialSize := List.length_replicate
    rw [hnew, memory, kInitialSize]
    omega
  · have hnew : newPeer.input = [] := Buffer.readable_new
    rw [hnew, List.length_nil]
    omega

theorem bounded_receive {size : Nat} {s s' : Peer} {reads : List ReadRes}
    (hs : Bounded size s) (hsize : (readBytes reads).length ≤ size)
    (h : receive s reads = some s') : Bounded size s' := by
  by_cases hclosed : s.conn.state = .kDisconnected
  · rw [receive, Session.receive, if_pos hclosed] at h
    cases h
    exact hs
  obtain ⟨hup, hinput⟩ := hs.input.resolve_left hclosed
  have hread := h
  rw [receive, Session.receive, if_neg hclosed] at hread
  constructor
  · obtain ⟨c, fresh, e, hloop, hdata⟩ := handleRead_data hread
    rw [hdata]
    refine Connection.readLoop_length hloop hs.data ?_
    have hinput : s.conn.inputBuffer.readable.length < 4 + maxLen := hinput
    rw [memory]
    omega
  · by_cases hstop : readStop reads = some .fatal
    · exact .inl (handleRead_fatal hstop hread).2
    · cases receive_taken hup hstop h with
      | none _ _ hdown => exact .inl hdown
      | all hok _ hlive =>
          obtain ⟨t, u, -, -, hend⟩ :=
            handleRead_batch hup.messageCb hstop hread
          rcases hend with ⟨hagain, -⟩ | ⟨-, rfl⟩
          · obtain ⟨hup', hrest⟩ := hlive hagain
            refine .inr ⟨hup', ?_⟩
            rw [hrest]
            exact ((parse_stop maxLen _).2 hok).1
          · exact .inl (Connection.close_state _)

theorem run_bounded {size : Nat} {batches : List (List ReadRes)} :
    ∀ {s t : Peer}, Bounded size s →
      (∀ reads ∈ batches, (readBytes reads).length ≤ size) →
      Machine.run receive s batches = some t → Bounded size t := by
  induction batches with
  | nil =>
      intro s t hs _ h
      obtain rfl : s = t := by simpa using h
      exact hs
  | cons reads batches ih =>
      intro s t hs hsize h
      obtain ⟨s', hs', h⟩ := Machine.run_cons_some.mp h
      have hfirst := hsize reads List.mem_cons_self
      exact ih (bounded_receive hs hfirst hs')
        (fun rs hrs => hsize rs (List.mem_cons_of_mem _ hrs)) h

/-- Whatever a peer sends, and however much of it: as long as no batch has more
than `size` bytes, the vector of its input buffer never has more than one frame
of the largest size beside a batch, and between batches less than one frame
waits in it. -/
theorem memory_bounded {size : Nat} {batches : List (List ReadRes)} {s : Peer}
    (hsize : ∀ reads ∈ batches, (readBytes reads).length ≤ size)
    (hrun : Machine.run receive newPeer batches = some s) :
    s.conn.inputBuffer.data.length ≤ memory size ∧
      (s.conn.state ≠ .kDisconnected → s.input.length < 4 + maxLen) := by
  have hs := run_bounded (bounded_newPeer size) hsize hrun
  exact ⟨hs.data, fun hopen => (hs.input.resolve_left hopen).2⟩

/-- Two frames, and four bytes of a third. -/
theorem memory_bounded_part :
    ∃ s, Machine.run receive newPeer
        [[.data [0, 0, 0, 2, 104], .eintr, .stop .eagain],
          [.data [105, 0, 0, 0, 1, 7, 0, 0], .data [0, 9], .stop .eagain]] =
          some s ∧
      s.own = [[104, 105], [7]] ∧
      s.conn.inputBuffer.data.length ≤ memory 10 ∧
      s.input.length < 4 + maxLen := by
  have hany : (Machine.run receive newPeer
      [[.data [0, 0, 0, 2, 104], .eintr, .stop .eagain],
        [.data [105, 0, 0, 0, 1, 7, 0, 0], .data [0, 9], .stop .eagain]]).any
      (fun s => s.own == [[104, 105], [7]] &&
        s.conn.state == .kConnected) = true := by decide +kernel
  obtain ⟨s, hrun, hs⟩ := (Option.any_eq_true _ _).mp hany
  rw [Bool.and_eq_true, beq_iff_eq, beq_iff_eq] at hs
  obtain ⟨hdata, hinput⟩ := memory_bounded (by decide : ∀ reads ∈ _, _ ≤ 10) hrun
  exact ⟨s, hrun, hs.1, hdata, hinput (by simp [hs.2])⟩

end LogServer

end GameFrame
