import GameFrame.LogSender.LogSender
import GameFrame.Proofs.LogGrouping

/-!
# What a sender takes and its server does not

`push` refuses a message when the queue is full and looks at nothing else.
`send_batch` makes a frame of whatever it gets, and `encode` checks nothing
either. But the server takes no frame of no bytes, and none of more than 1 MiB,
and on the first one it closes the connection.

So a message that is accepted is understood at the other end if and only if it
has at least one byte and at most 1 MiB (`push_understood_iff`). Beyond `2 ^ 32`
bytes the header says less than there is, and what the server makes of the
frame may even look right, but it is never the message.
-/

namespace GameFrame.LogSender

open LengthPrefixedCodec LogServer Session

variable {ι : Type _}

/-- What `send_batch` hands to the connection for a message. -/
def frameOf (msg : List UInt8) : List UInt8 := encode (Payload.msg msg).bytes

/-- `log_server` takes exactly the message from its frame: whatever is behind
the frame, the codec finds the message first and then what it would find
anyway; and a connection that is sent the frame in any pieces stays up, with
the message written. -/
structure Understood (msg : List UInt8) : Prop where
  decoded : ∀ (input : Buffer) (out : List (List UInt8)) (u : List UInt8),
    input.readable = frameOf msg ++ u →
    ∃ b : Buffer, b.readable = (parse maxLen u).rest ∧
      decode input out kMaxFrameSize = some ((parse maxLen u).ok, b,
        out ++ msg :: (parse maxLen u).frames)
  kept : ∀ {s t : Peer} {batches : List (List ReadRes)}, Up s → s.input = [] →
    (∀ reads ∈ batches, readStop reads = some .eagain) →
    bytes batches = frameOf msg → Machine.run receive s batches = some t →
    Up t ∧ t.input = [] ∧ t.own = s.own ++ [msg]

/-- Either `push` refuses the message, or it is understood. -/
def Handled (w : LogSender ι) (msg : List UInt8) : Prop :=
  (w.queue.push msg).1.ok = true → Understood msg

/-- An empty message, on an empty queue. -/
theorem empty_closes :
    ¬ ∀ (w : LogSender Unit) (msg : List UInt8), w.Handled msg := by
  intro hall
  have hunderstood := hall (new { queueCapacity := 1 }) [] (by decide)
  have hclosed : (Machine.run receive newPeer [batch [0, 0, 0, 0]]).any
      (fun s => s.conn.state == .kDisconnected) = true := by decide +kernel
  obtain ⟨t, ht, hstate⟩ := (Option.any_eq_true _ _).mp hclosed
  obtain ⟨hup, -⟩ := hunderstood.kept up_newPeer rfl (by simp [batch, readStop])
    (by decide) ht
  rw [hup.state] at hstate
  cases hstate

/-! ## Sizes -/

theorem frameOf_eq (msg : List UInt8) : frameOf msg = record msg :=
  encode_eq msg

/-- All that a server writes has a size it admits. -/
theorem own_admissible {batches : List (List ReadRes)} {t : Peer}
    (hbatches : Answered batches)
    (hrun : Machine.run receive newPeer batches = some t) :
    ∀ f ∈ t.own, Admissible maxLen f := by
  have hparse : ∃ p, t.own = (parse maxLen p).frames := by
    cases run_written up_newPeer (parse_short (by decide)) hbatches hrun with
    | all hok hown _ => exact ⟨_, hown⟩
    | upTo pre reads post heq hok hbad hown => exact ⟨_, hown⟩
  obtain ⟨p, hp⟩ := hparse
  rw [hp]
  exact (parse_reference maxLen_lt p).sizes

/-- A frame of an admissible size in front of anything. -/
theorem parse_frameOf {msg : List UInt8} (h : Admissible maxLen msg)
    (u : List UInt8) :
    parse maxLen (frameOf msg ++ u) = (parse maxLen u).after [msg] := by
  rw [frameOf_eq]
  exact parse_front maxLen_lt h u

theorem understood_of_admissible {msg : List UInt8}
    (h : Admissible maxLen msg) : Understood msg := by
  constructor
  · intro input out u hinput
    obtain ⟨b, hdecode, hrest⟩ := decode_eq_parse maxLen_le input out
    have hparse : parse kMaxFrameSize.toNat input.readable =
        (parse maxLen u).after [msg] := by
      rw [hinput]
      exact parse_frameOf h u
    rw [hparse] at hdecode hrest
    exact ⟨b, hrest, hdecode⟩
  · intro s t batches hs hinput hall hbytes hrun
    have hwhole : parse maxLen (s.input ++ bytes batches) =
        ⟨true, [msg], []⟩ := by
      have hnil := parse_frameOf h []
      rw [List.append_nil] at hnil
      rw [hinput, hbytes, List.nil_append, hnil, parse_short (by decide)]
      rfl
    have hanswered : Answered batches := answered_of_eagain hall
    have hdrained : Feed.Drained (parse maxLen) s.input := by
      rw [hinput]
      exact parse_short (by decide)
    cases run_written hs hdrained hanswered hrun with
    | all hok hown hup =>
        obtain ⟨hlive, hrest⟩ := hup hall
        rw [hwhole] at hown hrest
        exact ⟨hlive, hrest, hown⟩
    | upTo pre reads post heq hok hbad hown =>
        have hbadwhole := parse_refused (bytes post) hbad
        rw [List.append_assoc, ← bytes_append, List.append_assoc,
          List.singleton_append, ← heq, hwhole] at hbadwhole
        cases hbadwhole

/-- What `push` does not refuse is understood, if and only if its size is one
that the server admits. -/
theorem push_understood_iff (w : LogSender ι) (msg : List UInt8) :
    w.Handled msg ↔ w.queue.count = w.queue.cap ∨
      1 ≤ msg.length ∧ msg.length ≤ kMaxFrameSize.toNat := by
  have hok : (w.queue.push msg).1.ok = true ↔ w.queue.count ≠ w.queue.cap := by
    by_cases hfull : w.queue.count = w.queue.cap
    · simp [MPSCQueue.push, MPSCQueue.pushLocked, MPSCQueue.pushUnlocked, hfull]
    · simp [MPSCQueue.push, MPSCQueue.pushLocked, MPSCQueue.pushUnlocked, hfull]
  rw [Handled, hok]
  constructor
  · intro hhandled
    by_cases hfull : w.queue.count = w.queue.cap
    · exact .inl hfull
    · obtain ⟨t, ht⟩ := exists_run newPeer [frameOf msg]
      have hstop := readStop_byteReads (frameOf msg)
      obtain ⟨-, -, hown⟩ := (hhandled hfull).kept up_newPeer rfl
        (by simpa using hstop)
        (by simp [bytes, readBytes_byteReads]) ht
      refine .inr (own_admissible ?_ ht msg ?_)
      · simp [Answered, hstop]
      · rw [hown]
        exact List.mem_append_right _ List.mem_cons_self
  · rintro (hfull | hsize) hroom
    · exact absurd hfull hroom
    · exact understood_of_admissible hsize

end GameFrame.LogSender
