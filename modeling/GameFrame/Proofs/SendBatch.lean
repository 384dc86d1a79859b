import GameFrame.LogSender.LogSender
import GameFrame.Proofs.ConnectionLoops

/-!
# A batch on a connection that may close under it

`send_batch` follows `connection_` once for each message and looks at it never.
A write that fails closes the connection inside `send`, the close callback is
called, `on_connection` resets `connection_`, and all that is over when the
next message is due. So the batch goes through if and only if no write fails
but those of its last message.
-/

namespace GameFrame

/-- A call of `send` on a connected connection closes it if its writes fail,
and otherwise leaves it connected. -/
theorem Connection.send_outcome {c c' : Connection} {data : List UInt8}
    {writes : List WriteRes} (h : c.send data writes = some c')
    (hstate : c.state = .kConnected) (hdata : data ≠ []) :
    writeStop writes = some .fatal ∧ c'.state = .kDisconnected ∨
      writeStop writes ≠ some .fatal ∧ c'.state = .kConnected := by
  have hbuffered : c.outputBuffer.readable ≠ [] → writes = [] := by
    intro hne
    rw [send, if_neg (by simp [hstate, hdata])] at h
    rw [if_neg (by simpa [Buffer.empty_eq_true] using hne)] at h
    split at h
    · next hnil => exact hnil
    · cases h
  cases send_sent h with
  | ignored hskip =>
      rcases hskip with hskip | hskip
      · exact absurd hstate hskip
      · exact absurd hskip hdata
  | behind _ _ hne =>
      obtain ⟨hkeep, -⟩ := sendRest_spec (c.wrote data []) data
      rw [hbuffered hne]
      exact .inr ⟨by simp [writeStop], hkeep.trans hstate⟩
  | failed chunks _ _ _ hstop => exact .inl ⟨hstop, close_state _⟩
  | taken chunks rem _ _ _ _ hrem =>
      obtain ⟨hkeep, -⟩ := sendRest_spec (c.wrote data chunks) rem
      refine .inr ⟨?_, hkeep.trans hstate⟩
      rcases hrem with ⟨-, hstop⟩ | ⟨-, hstop⟩
      · rw [hstop]; simp
      · rw [hstop]; simp

theorem LengthPrefixedCodec.encode_ne_nil (payload : List UInt8) :
    encode payload ≠ [] := by
  rw [encode]
  simp

namespace LogSender

variable {ι : Type _}

/-! ## What a closed connection sets off -/

/-- Behind `on_connection_closed` there is at most a new timer. -/
theorem settle_onConnectionClosed (w : LogSender ι) (c : TcpClient) :
    ∃ timers next, w.settle c.onConnectionClosed =
      { w with
        tcpClient := some c.onConnectionClosed.1
        timers := timers
        nextTimerId := next } := by
  rw [TcpClient.onConnectionClosed, TcpClient.scheduleRetry]
  split
  · exact ⟨w.timers, w.nextTimerId, rfl⟩
  · exact ⟨_, _, rfl⟩

theorem onConnection_closed {w : LogSender ι} {fd : Nat}
    (hclosed : (w.conns fd).state = .kDisconnected) :
    w.onConnection fd = { w with connection := none, paused := false } := by
  rw [onConnection, if_neg (by simp [hclosed])]

/-- The whole chain: `connection_` is reset, and the client sees to it that
there will be another. -/
theorem onConnectionClosed_eq {w : LogSender ι} {fd : Nat} {c : TcpClient}
    (hclosed : (w.conns fd).state = .kDisconnected)
    (hclient : w.tcpClient = some c) :
    ∃ timers next, w.onConnectionClosed fd =
      { w with
        connection := none
        paused := false
        tcpClient := some c.onConnectionClosed.1
        timers := timers
        nextTimerId := next } := by
  obtain ⟨timers, next, hsettle⟩ := settle_onConnectionClosed
    { w with connection := none, paused := false } c
  refine ⟨timers, next, ?_⟩
  rw [onConnectionClosed, onConnection_closed hclosed]
  simp only [hclient]
  exact hsettle

/-- The connection, and its functors on the loop. -/
def withConn (w : LogSender ι) (fd : Nat) (c : Connection) : LogSender ι :=
  { w.setConn fd { c with pending := [] } with
    pending := w.pending ++ c.pending.map (.conn fd) }

theorem withConn_self (w : LogSender ι) (fd : Nat) (c : Connection) :
    (w.withConn fd c).conns fd = { c with pending := [] } := if_pos rfl

theorem putConn_open {w : LogSender ι} {fd : Nat} {c : Connection}
    (hopen : ¬ ((w.conns fd).state ≠ .kDisconnected ∧
      c.state = .kDisconnected)) :
    w.putConn fd c = w.withConn fd c := if_neg hopen

theorem putConn_closed {w : LogSender ι} {fd : Nat} {c : Connection}
    (hopen : (w.conns fd).state ≠ .kDisconnected)
    (hclosed : c.state = .kDisconnected) :
    w.putConn fd c = (w.withConn fd c).onConnectionClosed fd :=
  if_pos ⟨hopen, hclosed⟩

/-! ## The batch -/

theorem sendBatch_cons {w w' : LogSender ι} {fd : Nat} {p : Payload}
    {ps : List Payload} {scripts : List (List WriteRes)}
    (hconn : w.connection = some fd)
    (h : w.sendBatch (p :: ps) scripts = some w') :
    ∃ ws rest c, scripts = ws :: rest ∧
      (w.conns fd).send (LengthPrefixedCodec.encode p.bytes) ws = some c ∧
      ({ w with passed := w.passed ++ [(fd, p)] }.putConn fd c).sendBatch ps
        rest = some w' := by
  rw [sendBatch] at h
  split at h
  · next hnone => cases hnone.symm.trans hconn
  · next fd' hfd =>
      cases hfd.symm.trans hconn
      split at h
      · cases h
      · next ws rest =>
          dsimp only at h
          split at h
          · cases h
          · next c hc => exact ⟨ws, rest, c, rfl, hc, h⟩

/-- Without a connection, every further message is one too many. -/
theorem sendBatch_reset {w w' : LogSender ι} {ps : List Payload}
    {scripts : List (List WriteRes)} (hconn : w.connection = none)
    (h : w.sendBatch ps scripts = some w') :
    scripts = [] ∧ w' = if ps = [] then w else w.fail .connection := by
  cases ps with
  | nil =>
      rw [sendBatch] at h
      split at h
      · next hnil =>
          cases h
          exact ⟨hnil, rfl⟩
      · cases h
  | cons p ps =>
      rw [sendBatch] at h
      split at h
      · split at h
        · next hnil =>
            cases h
            exact ⟨hnil, rfl⟩
        · cases h
      · next fd hfd => cases hfd.symm.trans hconn

/-- What every message of a batch preserves, up to the one that has no
connection left. -/
theorem sendBatch_rule {P Q : LogSender ι → Prop}
    (hpass : ∀ {w fd} {p : Payload} {ws c}, P w → w.connection = some fd →
      (w.conns fd).send (LengthPrefixedCodec.encode p.bytes) ws = some c →
      P ({ w with passed := w.passed ++ [(fd, p)] }.putConn fd c))
    (hdone : ∀ {w}, P w → Q w) (hfail : ∀ {w}, P w → Q (w.fail .connection))
    {batch : List Payload} : ∀ {w w' : LogSender ι}
    {scripts : List (List WriteRes)}, P w →
    w.sendBatch batch scripts = some w' → Q w' := by
  induction batch with
  | nil =>
      intro w w' scripts hw h
      rw [sendBatch] at h
      split at h
      · cases h
        exact hdone hw
      · cases h
  | cons p ps ih =>
      intro w w' scripts hw h
      cases hconn : w.connection with
      | none =>
          obtain ⟨-, rfl⟩ := sendBatch_reset hconn h
          exact hfail hw
      | some fd =>
          obtain ⟨ws, rest, c, rfl, hsend, hrest⟩ := sendBatch_cons hconn h
          exact ih (hpass hw hconn hsend) hrest

theorem fail_fault (w : LogSender ι) (f : Fault) : (w.fail f).fault ≠ none := by
  rw [fail]
  cases w.fault with
  | none => simp
  | some g => simp

/-- `connection_` is followed only while it is there, if and only if no write
fails but those of the last message. -/
theorem sendBatch_connected_iff {w w' : LogSender ι} {batch : List Payload}
    {scripts : List (List WriteRes)} (hconn : w.connected = true)
    (hclient : w.tcpClient ≠ none) (hfault : w.fault = none)
    (h : w.sendBatch batch scripts = some w') :
    w'.fault = none ↔
      ∀ ws ∈ scripts.take (batch.length - 1), writeStop ws ≠ some .fatal := by
  induction batch generalizing w scripts with
  | nil =>
      rw [sendBatch] at h
      split at h
      · cases h
        simp [hfault]
      · cases h
  | cons p ps ih =>
      rw [connected] at hconn
      split at hconn
      · cases hconn
      · next fd hfd =>
          have hstate : (w.conns fd).state = .kConnected := by simpa using hconn
          obtain ⟨k, hk⟩ := Option.ne_none_iff_exists'.mp hclient
          obtain ⟨ws, rest, c, rfl, hsend, hrest⟩ := sendBatch_cons hfd h
          rcases Connection.send_outcome hsend hstate
            (LengthPrefixedCodec.encode_ne_nil _) with ⟨hstop, hclosed⟩ |
              ⟨hstop, hopen⟩
          · -- What is left of the batch meets a null pointer.
            rw [putConn_closed (by simp [hstate]) hclosed] at hrest
            obtain ⟨timers, next, heq⟩ := onConnectionClosed_eq
              (w := { w with passed := w.passed ++ [(fd, p)] }.withConn fd c)
              (by rw [withConn_self]; exact hclosed) hk
            rw [heq] at hrest
            obtain ⟨rfl, rfl⟩ := sendBatch_reset rfl hrest
            cases ps with
            | nil => simp [withConn, setConn, hfault]
            | cons q qs => simp [fail, withConn, setConn, hfault, hstop]
          · rw [putConn_open (by simp [hopen])] at hrest
            have hconn' : ({ w with passed := w.passed ++ [(fd, p)] }.withConn
                fd c).connected = true := by
              simp [connected, withConn, setConn, hfd, hopen]
            rw [ih hconn' hclient hfault hrest]
            cases ps with
            | nil => simp
            | cons q qs => simp [hstop]

/-- `start()`, a dial, and a handshake that succeeds. -/
def up : List (Label Unit) :=
  [.start, .functor .inProgress, .handshake false]

/-- Two messages, and the first write fails. -/
theorem sendBatch_null :
    ¬ ∀ (opts : Options) (ls : List (Label Unit)) (w w' : LogSender Unit)
      (batch : List Payload) (scripts : List (List WriteRes)),
      Machine.run step (new opts) ls = some w → w.connected = true →
      w.sendBatch batch scripts = some w' → w'.fault = none := by
  intro hall
  have hany : ((Machine.run step (new {}) up).any fun w =>
      w.connected &&
        (w.sendBatch [.msg [1], .msg [2]] [[.stop .fatal]]).any fun w' =>
          w'.fault == some .connection) = true := by decide +kernel
  obtain ⟨w, hrun, hw⟩ := (Option.any_eq_true _ _).mp hany
  obtain ⟨hconn, hbatch⟩ := Bool.and_eq_true_iff.mp hw
  obtain ⟨w', hsend, hfault⟩ := (Option.any_eq_true _ _).mp hbatch
  have hnone := hall {} up w w' _ _ hrun hconn hsend
  rw [hnone] at hfault
  cases hfault

/-- A report, a message that is written in pieces, and one whose write fails,
but which is the last. -/
theorem sendBatch_connected_last :
    ∃ w w' : LogSender Unit, Machine.run step (new {}) up = some w ∧
      w.sendBatch [.logDropped 3, .msg [1], .msg [2]]
        [[.accepted 33], [.accepted 1, .eintr, .accepted 4],
          [.accepted 2, .stop .fatal]] = some w' ∧
      w'.connection = none ∧ w'.fault = none := by
  have hany : ((Machine.run step (new {}) up).any fun w =>
      w.connected && w.tcpClient.isSome && w.fault == none &&
        (w.sendBatch [.logDropped 3, .msg [1], .msg [2]]
          [[.accepted 33], [.accepted 1, .eintr, .accepted 4],
            [.accepted 2, .stop .fatal]]).any fun w' =>
          w'.connection == none) = true := by decide +kernel
  obtain ⟨w, hrun, hw⟩ := (Option.any_eq_true _ _).mp hany
  simp only [Bool.and_eq_true, beq_iff_eq] at hw
  obtain ⟨⟨⟨hconn, hclient⟩, hfault⟩, hbatch⟩ := hw
  obtain ⟨w', hsend, hreset⟩ := (Option.any_eq_true _ _).mp hbatch
  refine ⟨w, w', hrun, hsend, by simpa using hreset, ?_⟩
  refine (sendBatch_connected_iff hconn ?_ hfault hsend).mpr (by decide)
  exact Option.isSome_iff_ne_none.mp hclient

end LogSender

end GameFrame
