import GameFrame.Net.ClientLoop

/-!
# What the fields of a client say

Between two calls from the loop the state of a client is what its fields say,
and every socket it has opened is in one place. In the middle of a call it is
not quite so. A connection that is closed tells the user before the client
gives it up, and until the user has returned the client is `kConnected` with a
connection that is not (`closing`). Nothing can be called on top of that: the
client takes a `connect()` for a repetition, and a `disconnect()` finds the
connection closed. So it is only ever the innermost call that is like this.

A function that dials or waits starts from a client that has neither dial nor
connection, with a socket in hand or none (`Idle`). The socket is opened, and
then it is closed, or it becomes the one being dialled, or a connection is
built on it.
-/

namespace GameFrame.ClientLoop

open TcpClient (kInitialBackoffMs kMaxBackoffMs connectInLoop
  disconnectInLoop)

/-- The connection whose close the user is being told of. -/
def closing (w : ClientLoop) : Option Nat :=
  match w.frames with
  | .closed fd :: _ => some fd
  | _ => none

/-- The wait has not been set yet, or is within its bounds. -/
def BackoffOk (ms : Nat) : Prop :=
  ms = 0 ∨ kInitialBackoffMs ≤ ms ∧ ms ≤ kMaxBackoffMs

structure Inv (w : ClientLoop) : Prop where
  connecting : w.client.state = .kConnecting ↔
    w.client.connectingFd.isSome = true
  channel : w.client.connectChannel.isSome = true →
    w.client.state = .kConnecting
  connected : w.client.state = .kConnected ↔
    w.client.connection.isSome = true
  sole : ∀ fd, w.conns fd ≠ .kDisconnected → w.client.connection = some fd
  up : ∀ fd, w.client.connection = some fd → fd ∈ w.built ∧
    (w.closing = none → w.conns fd ≠ .kDisconnected)
  told : ∀ fd, w.closing = some fd →
    w.client.connection = some fd ∧ w.conns fd = .kDisconnected
  beneath : ∀ fd, .closed fd ∉ w.frames.tail
  enabled : w.client.retryEnabled = true → w.client.state ≠ .kDisconnected
  disabled : w.client.retryEnabled = false →
    w.client.state = .kDisconnected ∨ w.closing.isSome = true
  backoff : BackoffOk w.client.backoffMs
  sockets : ∀ fd, w.client.closedFds.count fd + w.built.count fd +
    (if w.client.connectingFd = some fd then 1 else 0) =
      if fd < w.client.sockets then 1 else 0
  closings : ∀ fd, w.connClosed.count fd =
    if fd ∈ w.built ∧ w.conns fd = .kDisconnected then 1 else 0

theorem inv_init : Inv {} where
  connecting := by simp
  channel := by simp
  connected := by simp
  sole := by simp
  up := by simp
  told := by simp [closing]
  beneath := by simp
  enabled := by simp
  disabled := by simp
  backoff := .inl rfl
  sockets := by simp
  closings := by simp

/-- A history that is longer. -/
theorem Inv.note {w : ClientLoop} (hw : w.Inv) (e : ClientEv) :
    (w.note e).Inv := ⟨hw.connecting, hw.channel, hw.connected, hw.sole, hw.up,
  hw.told, hw.beneath, hw.enabled, hw.disabled, hw.backoff, hw.sockets,
  hw.closings⟩

/-! ## A client with neither dial nor connection -/

/-- The client `c` of `w` is neither dialling nor connected, no close is being
told of, and `hand` is a socket nobody has. -/
structure Idle (w : ClientLoop) (hand : Option Nat) (c : TcpClient) : Prop where
  connectingFd : c.connectingFd = none
  connectChannel : c.connectChannel = none
  connection : c.connection = none
  down : ∀ fd, w.conns fd = .kDisconnected
  frames : ∀ fd, .closed fd ∉ w.frames
  backoff : BackoffOk c.backoffMs
  sockets : ∀ fd, c.closedFds.count fd + w.built.count fd +
    (if hand = some fd then 1 else 0) = if fd < c.sockets then 1 else 0
  closings : ∀ fd, w.connClosed.count fd = if fd ∈ w.built then 1 else 0

theorem closing_none {w : ClientLoop} (h : ∀ fd, .closed fd ∉ w.frames) :
    w.closing = none := by
  rw [closing]
  split
  · next fd fs hframes =>
      refine absurd ?_ (h fd)
      rw [hframes]
      exact List.mem_cons_self
  · rfl

section

variable {w : ClientLoop} {c : TcpClient} {fd : Nat}

/-- The client stays idle, with no socket in hand. -/
theorem Idle.inv (h : Idle w none c) (htimers : List Nat) (hlog : List ClientEv)
    (hstate : c.state ≠ .kConnecting ∧ c.state ≠ .kConnected)
    (henabled : c.retryEnabled = true ↔ c.state ≠ .kDisconnected) :
    Inv { w with client := c, timers := htimers, log := hlog } := by
  have hclosing : closing { w with
      client := c, timers := htimers, log := hlog } = none :=
    closing_none h.frames
  refine ⟨?_, ?_, ?_, ?_, ?_, ?_, ?_, ?_, ?_, h.backoff, ?_, ?_⟩
  · simp [h.connectingFd, hstate.1]
  · simp [h.connectChannel]
  · simp [h.connection, hstate.2]
  · simp [h.down]
  · simp [h.connection]
  · simp [hclosing]
  · intro fd hmem
    exact h.frames fd (List.mem_of_mem_tail hmem)
  · exact henabled.mp
  · intro hoff
    refine .inl (Decidable.of_not_not fun hne => ?_)
    simp [henabled.mpr hne] at hoff
  · simpa [h.connectingFd] using h.sockets
  · simpa [h.down] using h.closings

theorem backoff_initial : BackoffOk kInitialBackoffMs := by
  rw [BackoffOk]
  decide

theorem backoff_doubled {ms : Nat} (h : BackoffOk ms) :
    BackoffOk (min ((if ms = 0 then kInitialBackoffMs else ms) * 2)
      kMaxBackoffMs) := by
  have hbounds : kInitialBackoffMs = 500 ∧ kMaxBackoffMs = 30000 := ⟨rfl, rfl⟩
  rw [BackoffOk] at h ⊢
  split
  · omega
  · omega

/-- It is off, and that is the end of it. -/
theorem Idle.off (h : Idle w none c) (hoff : (!c.retryEnabled) = true) :
    (w.answer ({ c with state := .kDisconnected }, .nothing)).Inv := by
  have hidle : Idle w none { c with state := .kDisconnected } :=
    ⟨h.connectingFd, h.connectChannel, h.connection, h.down, h.frames,
      h.backoff, h.sockets, h.closings⟩
  refine hidle.inv w.timers w.log (by simp) ?_
  simpa using hoff

theorem Idle.scheduleRetry (h : Idle w none c) :
    (w.answer c.scheduleRetry).Inv := by
  rw [TcpClient.scheduleRetry]
  split
  · next hoff => exact h.off hoff
  · next hon =>
      have hidle : Idle w none { c with
          state := .kRetrying
          backoffMs := min ((if c.backoffMs = 0 then kInitialBackoffMs
            else c.backoffMs) * 2) kMaxBackoffMs } :=
        ⟨h.connectingFd, h.connectChannel, h.connection, h.down, h.frames,
          backoff_doubled h.backoff, h.sockets, h.closings⟩
      refine hidle.inv _ _ (by simp) ?_
      simpa using hon

theorem Idle.closeFd (h : Idle w (some fd) c) : Idle w none (c.closeFd fd) := by
  refine ⟨h.connectingFd, h.connectChannel, h.connection, h.down, h.frames,
    h.backoff, fun i => ?_, h.closings⟩
  have hi := h.sockets i
  show (c.closedFds ++ [fd]).count i + w.built.count i + 0 = _
  refine Eq.trans ?_ hi
  rw [List.count_append, List.count_singleton]
  by_cases heq : fd = i
  · simp [heq]
    omega
  · simp [heq]

theorem Idle.openSocket (h : Idle w none c) :
    Idle w (some c.sockets) c.openSocket.2 := by
  refine ⟨h.connectingFd, h.connectChannel, h.connection, h.down, h.frames,
    h.backoff, fun i => ?_, h.closings⟩
  have hi := h.sockets i
  show c.closedFds.count i + w.built.count i +
    (if some c.sockets = some i then 1 else 0) =
      if i < c.sockets + 1 then 1 else 0
  simp only [reduceCtorEq, if_false, Option.some.injEq] at hi ⊢
  by_cases heq : c.sockets = i
  · subst heq
    simp at hi ⊢
    omega
  · have hlt : i < c.sockets + 1 ↔ i < c.sockets := by omega
    simp only [if_neg heq, hlt]
    exact hi

/-- A connection is built on the socket in hand. -/
theorem Idle.established (h : Idle w (some fd) c)
    (henabled : c.retryEnabled = true) :
    (w.answer ({ c with
      state := .kConnected
      backoffMs := kInitialBackoffMs
      connection := some fd }, .established fd)).Inv := by
  have hnew : w.built.count fd = 0 := by
    have := h.sockets fd
    rw [if_pos rfl] at this
    split at this
    · omega
    · omega
  have hconns : ∀ i, (if i = fd then ConnState.kConnected else w.conns i) ≠
      .kDisconnected ↔ i = fd := by
    intro i
    split
    · next heq => simp [heq]
    · next hne => simp [h.down, hne]
  refine ⟨?_, ?_, ?_, ?_, ?_, ?_, ?_, ?_, ?_, ?_, ?_, ?_⟩
  · simp [answer, setConn, ClientLoop.note, h.connectingFd]
  · simp [answer, setConn, ClientLoop.note, h.connectChannel]
  · simp [answer, setConn, ClientLoop.note]
  · intro i hi
    rw [(hconns i).mp hi]
    rfl
  · intro i hi
    obtain rfl : fd = i := Option.some.inj hi
    refine ⟨?_, fun _ => (hconns fd).mpr rfl⟩
    simp [answer, setConn, ClientLoop.note]
  · simp [answer, setConn, ClientLoop.note, closing]
  · exact h.frames
  · simp [answer, setConn, ClientLoop.note]
  · simp [answer, setConn, ClientLoop.note, henabled]
  · exact backoff_initial
  · intro i
    have hi := h.sockets i
    simp only [answer, setConn, ClientLoop.note, List.count_append,
      List.count_singleton, h.connectingFd, Option.some.injEq, beq_iff_eq,
      reduceCtorEq, if_false] at hi ⊢
    omega
  · intro i
    have hi := h.closings i
    have hclosed : (if i = fd then ConnState.kConnected else w.conns i) =
        .kDisconnected ↔ i ≠ fd := by
      refine ⟨fun h heq => (hconns i).mpr heq h, fun hne => ?_⟩
      exact Decidable.of_not_not fun h => hne ((hconns i).mp h)
    simp only [answer, setConn, ClientLoop.note, List.mem_append,
      List.mem_singleton, hclosed]
    rw [hi]
    by_cases heq : i = fd
    · subst heq
      simp [List.count_eq_zero.mp hnew]
    · simp [heq]

/-- A handshake begins on it. -/
theorem Idle.inProgress (h : Idle w (some fd) c)
    (henabled : c.retryEnabled = true) (ch : Channel) :
    (w.answer ({ c with
      connectingFd := some fd
      state := .kConnecting
      connectChannel := some ch }, .nothing)).Inv := by
  have hclosing : w.closing = none := closing_none h.frames
  refine ⟨?_, ?_, ?_, ?_, ?_, ?_, ?_, ?_, ?_, h.backoff, h.sockets, ?_⟩
  · simp [answer]
  · simp [answer]
  · simp [answer, h.connection]
  · simp [answer, h.down]
  · simp [answer, h.connection]
  · intro i hi
    have := hclosing.symm.trans hi
    cases this
  · intro i hmem
    exact h.frames i (List.mem_of_mem_tail hmem)
  · simp [answer]
  · simp [answer, henabled]
  · simpa [answer, h.down] using h.closings

theorem Idle.handleConnectWritable (hfd : c.connectingFd = some fd)
    (h : Idle w (some fd) { c with connectingFd := none, connectChannel := none })
    (henabled : c.retryEnabled = true) (err : Bool) :
    (w.answer (c.handleConnectWritable err)).Inv := by
  rw [TcpClient.handleConnectWritable, hfd]
  dsimp only
  split
  · exact h.closeFd.scheduleRetry
  · exact h.established henabled

theorem Idle.startConnect (h : Idle w none c) (d : Dial) :
    (w.answer (c.startConnect d)).Inv := by
  rw [TcpClient.startConnect]
  split
  · next hoff => exact h.off hoff
  · next hon =>
      have henabled : c.retryEnabled = true := by simpa using hon
      have hopened := h.openSocket
      cases d with
      | noSocket => exact h.scheduleRetry
      | blocking => exact hopened.closeFd.scheduleRetry
      | refused => exact hopened.closeFd.scheduleRetry
      | inProgress => exact hopened.inProgress henabled _
      | immediate err =>
          have hdialled : Idle w (some c.sockets) { c.openSocket.2 with
              connectingFd := none
              state := .kConnecting
              connectChannel := none } :=
            ⟨rfl, rfl, h.connection, h.down, h.frames, h.backoff,
              hopened.sockets, h.closings⟩
          exact Idle.handleConnectWritable (c := { c.openSocket.2 with
            connectingFd := some c.sockets
            state := .kConnecting }) rfl hdialled henabled err

/-! ## The calls -/

theorem Inv.frames (hw : w.Inv) (h : w.closing = none) :
    ∀ fd, .closed fd ∉ w.frames := by
  intro fd hmem
  have htail := hw.beneath fd
  rw [closing] at h
  split at h
  · cases h
  · next hhead =>
      cases hf : w.frames with
      | nil => simp [hf] at hmem
      | cons f fs =>
          rw [hf] at hmem htail
          rcases List.mem_cons.mp hmem with rfl | hin
          · exact hhead fd fs hf
          · exact htail hin

theorem Inv.notClosing (hw : w.Inv) (h : w.client.state ≠ .kConnected) :
    w.closing = none := by
  cases hc : w.closing with
  | none => rfl
  | some fd =>
      refine absurd (hw.connected.mpr ?_) h
      rw [(hw.told fd hc).1]
      rfl

/-- A client that is not connected has no connection, and nobody else has. -/
theorem Inv.unconnected (hw : w.Inv) (h : w.client.state ≠ .kConnected) :
    w.client.connection = none ∧ ∀ fd, w.conns fd = .kDisconnected := by
  have hconnection : w.client.connection = none := by
    simpa using fun hsome => h (hw.connected.mpr hsome)
  refine ⟨hconnection, fun fd => Decidable.of_not_not fun hne => ?_⟩
  have := hw.sole fd hne
  rw [hconnection] at this
  cases this

/-- A client that is waiting or off. -/
theorem Inv.idle (hw : w.Inv) (hconnecting : w.client.state ≠ .kConnecting)
    (hconnected : w.client.state ≠ .kConnected) : Idle w none w.client := by
  obtain ⟨hconnection, hdown⟩ := hw.unconnected hconnected
  have hfd : w.client.connectingFd = none := by
    simpa using fun h => hconnecting (hw.connecting.mpr h)
  refine ⟨hfd, ?_, hconnection, hdown, hw.frames (hw.notClosing hconnected),
    hw.backoff, ?_, ?_⟩
  · simpa using fun h => hconnecting (hw.channel h)
  · simpa [hfd] using hw.sockets
  · simpa [hdown] using hw.closings

/-- A client that is dialling, with the socket taken off it. -/
theorem Inv.dialling (hw : w.Inv) (hstate : w.client.state = .kConnecting) :
    ∃ fd, w.client.connectingFd = some fd ∧ Idle w (some fd)
      { w.client with connectingFd := none, connectChannel := none } := by
  obtain ⟨fd, hfd⟩ := Option.isSome_iff_exists.mp (hw.connecting.mp hstate)
  have hconnected : w.client.state ≠ .kConnected := by simp [hstate]
  obtain ⟨hconnection, hdown⟩ := hw.unconnected hconnected
  refine ⟨fd, hfd, rfl, rfl, hconnection, hdown,
    hw.frames (hw.notClosing hconnected), hw.backoff, ?_, ?_⟩
  · simpa [hfd] using hw.sockets
  · simpa [hdown] using hw.closings

theorem Inv.connect (hw : w.Inv) (d : Dial) : (w.connect d).Inv := by
  have hnoted := hw.note (.call .connect)
  rw [ClientLoop.connect]
  split
  · next hdials =>
      have hfree : w.client.state ≠ .kConnecting ∧
          w.client.state ≠ .kConnected := by
        simpa [ClientLoop.note] using hdials
      have hidle := (hnoted.note (.dial true w.now)).idle hfree.1 hfree.2
      have hstart : Idle ((w.note (.call .connect)).note (.dial true w.now))
          none { w.client with
            retryEnabled := true
            backoffMs := kInitialBackoffMs } :=
        ⟨hidle.connectingFd, hidle.connectChannel, hidle.connection,
          hidle.down, hidle.frames, backoff_initial,
          hidle.sockets, hidle.closings⟩
      show Inv (answer _ (w.client.connectInLoop d))
      rw [connectInLoop, if_neg (by simpa using hfree)]
      exact hstart.startConnect d
  · next hdials =>
      have hbusy : w.client.state = .kConnecting ∨
          w.client.state = .kConnected := by
        rw [Bool.and_eq_true, bne_iff_ne, bne_iff_ne] at hdials
        by_cases h : w.client.state = .kConnecting
        · exact .inl h
        · exact .inr (Decidable.of_not_not fun h' => hdials ⟨h, h'⟩)
      show Inv (answer _ (w.client.connectInLoop d))
      rw [connectInLoop, if_pos hbusy]
      exact hnoted

/-- A connection that is up is the client's, and is closed with the client in
whichever mind about dialling again. -/
theorem Inv.closeConn (hw : w.Inv) (hup : w.conns fd ≠ .kDisconnected)
    (retry : Bool) : ({ w with
      client := { w.client with retryEnabled := retry } }.closeConn fd).Inv := by
  have hconn := hw.sole fd hup
  have hstate : w.client.state = .kConnected :=
    hw.connected.mpr (by simp [hconn])
  have hclosing : w.closing = none := by
    cases h : w.closing with
    | none => rfl
    | some i =>
        obtain ⟨hi, hdown⟩ := hw.told i h
        rw [hconn] at hi
        cases hi
        exact absurd hdown hup
  have hclosed : ∀ i, (if i = fd then ConnState.kDisconnected
      else w.conns i) = .kDisconnected := by
    intro i
    split
    · rfl
    · next hne =>
        refine Decidable.of_not_not fun h => hne ?_
        have := hw.sole i h
        rw [hconn] at this
        exact (Option.some.inj this).symm
  rw [ClientLoop.closeConn, if_neg hup]
  refine ⟨hw.connecting, hw.channel, hw.connected, ?_, ?_, ?_, ?_, ?_, ?_,
    hw.backoff, hw.sockets, ?_⟩
  · intro i hi
    exact absurd (hclosed i) hi
  · intro i hi
    refine ⟨(hw.up i hi).1, fun hnone => ?_⟩
    simp [closing, setConn] at hnone
  · intro i hi
    obtain rfl : fd = i := by simpa [closing, setConn] using hi
    exact ⟨hconn, hclosed fd⟩
  · exact hw.frames hclosing
  · intro _
    simp [setConn, hstate]
  · intro _
    exact .inr (by simp [closing, setConn])
  · intro i
    have hi := hw.closings i
    show (w.connClosed ++ [fd]).count i = if i ∈ w.built ∧ (if i = fd then
      ConnState.kDisconnected else w.conns i) = .kDisconnected then 1 else 0
    rw [List.count_append, hi, List.count_singleton]
    by_cases heq : i = fd
    · subst heq
      simp [hup, (hw.up i hconn).1]
    · simp [heq, Ne.symm heq]

theorem disconnect_none (h : w.client.disconnectInLoop = (c, none)) :
    w.disconnect = { w.note (.call .disconnect) with client := c } := by
  have hnoted : (w.note (.call .disconnect)).client.disconnectInLoop =
      (c, none) := h
  rw [ClientLoop.disconnect, hnoted]

theorem disconnect_some (h : w.client.disconnectInLoop = (c, some fd)) :
    w.disconnect = closeConn { w.note (.call .disconnect) with
      client := c } fd := by
  have hnoted : (w.note (.call .disconnect)).client.disconnectInLoop =
      (c, some fd) := h
  rw [ClientLoop.disconnect, hnoted]

theorem Inv.disconnect (hw : w.Inv) : w.disconnect.Inv := by
  have hnoted := hw.note (.call .disconnect)
  cases hstate : w.client.state with
  | kDisconnected =>
      have heq : w.client.disconnectInLoop =
          ({ w.client with retryEnabled := false }, none) := by
        simp [disconnectInLoop, hstate]
      have hidle := hnoted.idle (by simp [ClientLoop.note, hstate])
        (by simp [ClientLoop.note, hstate])
      have hoff : Idle (w.note (.call .disconnect)) none
          { w.client with retryEnabled := false } :=
        ⟨hidle.connectingFd, hidle.connectChannel, hidle.connection,
          hidle.down, hidle.frames, hidle.backoff, hidle.sockets,
          hidle.closings⟩
      rw [disconnect_none heq]
      exact hoff.inv _ _ (by simp [hstate]) (by simp [hstate])
  | kConnecting =>
      obtain ⟨fd, hfd, hidle⟩ := hnoted.dialling hstate
      have hfd : w.client.connectingFd = some fd := hfd
      have heq : w.client.disconnectInLoop =
          ({ w.client with
            retryEnabled := false
            connectChannel := none
            connectingFd := none
            closedFds := w.client.closedFds ++ [fd]
            state := .kDisconnected }, none) := by
        simp [disconnectInLoop, TcpClient.abandonDial, TcpClient.closeFd,
          hstate, hfd]
      have hclosed := hidle.closeFd
      have hoff : Idle (w.note (.call .disconnect)) none
          { w.client with
            retryEnabled := false
            connectChannel := none
            connectingFd := none
            closedFds := w.client.closedFds ++ [fd]
            state := .kDisconnected } :=
        ⟨rfl, rfl, hclosed.connection, hclosed.down, hclosed.frames,
          hclosed.backoff, hclosed.sockets, hclosed.closings⟩
      rw [disconnect_none heq]
      exact hoff.inv _ _ (by simp) (by simp)
  | kConnected =>
      obtain ⟨fd, hconn⟩ := Option.isSome_iff_exists.mp
        (hw.connected.mp hstate)
      have heq : w.client.disconnectInLoop =
          ({ w.client with retryEnabled := false }, some fd) := by
        simp [disconnectInLoop, hstate, hconn]
      rw [disconnect_some heq]
      by_cases hup : w.conns fd = .kDisconnected
      · -- The user is being told of the close already.
        have hclosing : w.closing.isSome = true := by
          cases hc : w.closing with
          | none => exact absurd hup ((hw.up fd hconn).2 hc)
          | some _ => rfl
        rw [ClientLoop.closeConn]
        show Inv (if w.conns fd = .kDisconnected then _ else _)
        rw [if_pos hup]
        exact ⟨hnoted.connecting, hnoted.channel, hnoted.connected,
          hnoted.sole, hnoted.up, hnoted.told, hnoted.beneath,
          by simp, fun _ => .inr hclosing,
          hnoted.backoff, hnoted.sockets, hnoted.closings⟩
      · exact hnoted.closeConn hup false
  | kRetrying =>
      have heq : w.client.disconnectInLoop =
          ({ w.client with
            retryEnabled := false
            state := .kDisconnected }, none) := by
        simp [disconnectInLoop, hstate]
      have hidle := hnoted.idle (by simp [ClientLoop.note, hstate])
        (by simp [ClientLoop.note, hstate])
      have hoff : Idle (w.note (.call .disconnect)) none
          { w.client with retryEnabled := false, state := .kDisconnected } :=
        ⟨hidle.connectingFd, hidle.connectChannel, hidle.connection,
          hidle.down, hidle.frames, hidle.backoff, hidle.sockets,
          hidle.closings⟩
      rw [disconnect_none heq]
      exact hoff.inv _ _ (by simp) (by simp)

/-- The innermost connection callback returns. -/
theorem Inv.ret {w' : ClientLoop} (hw : w.Inv)
    (h : Stepped w .ret w') : w'.Inv := by
  cases h with
  | established i fs hframes =>
      have hclosing : w.closing = none := by simp [closing, hframes]
      have hrest : ∀ fd, .closed fd ∉ fs := by
        simpa [hframes] using hw.beneath
      have hnone : closing { w with frames := fs } = none :=
        closing_none hrest
      refine ⟨hw.connecting, hw.channel, hw.connected, hw.sole, ?_, ?_, ?_,
        hw.enabled, ?_, hw.backoff, hw.sockets, hw.closings⟩
      · intro fd hfd
        exact ⟨(hw.up fd hfd).1, fun _ => (hw.up fd hfd).2 hclosing⟩
      · intro fd hfd
        rw [hnone] at hfd
        cases hfd
      · intro fd hmem
        exact hrest fd (List.mem_of_mem_tail hmem)
      · intro hoff
        have := hw.disabled hoff
        rw [hclosing] at this
        exact .inl (by simpa using this)
  | closed i fs hframes =>
      obtain ⟨hconn, hdown⟩ := hw.told i (by simp [closing, hframes])
      have hstate : w.client.state = .kConnected :=
        hw.connected.mpr (by simp [hconn])
      have hall : ∀ fd, w.conns fd = .kDisconnected := by
        intro fd
        refine Decidable.of_not_not fun hne => ?_
        have := hw.sole fd hne
        rw [hconn] at this
        cases this
        exact hne hdown
      have hidle : Idle { w with frames := fs } none
          { w.client with connection := none } := by
        refine ⟨?_, ?_, rfl, hall, ?_, hw.backoff, ?_, ?_⟩
        · simpa [hstate] using hw.connecting
        · simpa [hstate] using hw.channel
        · simpa [hframes] using hw.beneath
        · have hfd : w.client.connectingFd = none := by
            simpa [hstate] using hw.connecting
          simpa [hfd] using hw.sockets
        · simpa [hall] using hw.closings
      exact hidle.scheduleRetry

theorem Inv.retry (hw : w.Inv) (d : Dial) : (w.retry d).Inv := by
  rw [ClientLoop.retry]
  by_cases hstate : w.client.state = .kRetrying
  · have hdial : ∀ v : ClientLoop, v.Inv → v.client = w.client →
        (v.answer (v.client.retry d)).Inv := by
      intro v hv hclient
      have hidle := hv.idle (by simp [hclient, hstate])
        (by simp [hclient, hstate])
      rw [TcpClient.retry, if_neg (by simp [hclient, hstate])]
      exact hidle.startConnect d
    split
    · exact hdial _ (hw.note _) rfl
    · exact hdial w hw rfl
  · have hnot : ¬ (w.client.state == .kRetrying && w.client.retryEnabled) =
        true := by simp [hstate]
    rw [if_neg hnot, TcpClient.retry, if_pos hstate]
    exact hw

/-- A client that is dialling or waiting tries again. -/
theorem Inv.enabled_of (hw : w.Inv) (hclosing : w.closing = none)
    (hstate : w.client.state ≠ .kDisconnected) :
    w.client.retryEnabled = true := by
  cases h : w.client.retryEnabled with
  | true => rfl
  | false => simpa [hstate, hclosing] using hw.disabled h

theorem Inv.handshake (hw : w.Inv) (hframes : w.frames = [])
    (hch : w.client.connectChannel.isSome = true) (err : Bool) :
    (w.answer (w.client.handleConnectWritable err)).Inv := by
  have hstate := hw.channel hch
  obtain ⟨fd, hfd, hidle⟩ := hw.dialling hstate
  have henabled := hw.enabled_of (by simp [closing, hframes])
    (by simp [hstate])
  exact hidle.handleConnectWritable hfd henabled err

/-- The timers and the clock are nobody's. -/
theorem Inv.times (hw : w.Inv) (now : Nat) (timers : List Nat) :
    Inv { w with now := now, timers := timers } :=
  ⟨hw.connecting, hw.channel, hw.connected, hw.sole, hw.up, hw.told,
    hw.beneath, hw.enabled, hw.disabled, hw.backoff, hw.sockets, hw.closings⟩

theorem Inv.shutdownConn (hw : w.Inv) (hup : w.conns fd = .kConnected) :
    (w.setConn fd .kDisconnecting).Inv := by
  have hsame : ∀ i, (if i = fd then ConnState.kDisconnecting
      else w.conns i) = .kDisconnected ↔ w.conns i = .kDisconnected := by
    intro i
    split
    · next heq => simp [heq, hup]
    · exact .rfl
  refine ⟨hw.connecting, hw.channel, hw.connected, fun i hi => ?_,
    fun i hi => ?_, fun i hi => ?_, hw.beneath, hw.enabled, hw.disabled,
    hw.backoff, hw.sockets, fun i => ?_⟩
  · exact hw.sole i fun h => hi ((hsame i).mpr h)
  · exact ⟨(hw.up i hi).1, fun hc h => (hw.up i hi).2 hc ((hsame i).mp h)⟩
  · exact ⟨(hw.told i hi).1, (hsame i).mpr (hw.told i hi).2⟩
  · have hi := hw.closings i
    simp only [setConn, hsame]
    exact hi

theorem Inv.step {w' : ClientLoop} {l : Label} (hw : w.Inv)
    (h : w.step l = some w') : w'.Inv := by
  have h := step_stepped h
  cases h with
  | elapse ms => exact hw.times _ _
  | connect d => exact hw.connect d
  | disconnect => exact hw.disconnect
  | handshake err hframes hch => exact hw.handshake hframes hch err
  | closeConn fd _ hup => exact hw.closeConn hup w.client.retryEnabled
  | closedAlready => exact hw
  | shutdownConn fd hup => exact hw.shutdownConn hup
  | established fd fs hframes => exact hw.ret (.established fd fs hframes)
  | closed fd fs hframes => exact hw.ret (.closed fd fs hframes)
  | fire due d => exact (hw.times w.now _).retry d

theorem run_inv {ls : List Label}
    (hrun : Machine.run ClientLoop.step {} ls = some w) : w.Inv :=
  Machine.run_preserves Inv.step inv_init hrun

/-! ## Back at the loop -/

/-- How often a socket has been closed, by the client or by its connection. -/
def closes (w : ClientLoop) (fd : Nat) : Nat :=
  w.client.closedFds.count fd + w.connClosed.count fd

/-- At every return to the loop the fields of the client are those of its
state, and every socket it has opened has been closed once, or is being
dialled, or belongs to the one connection that was built on it. -/
theorem client_agrees {ls : List Label}
    (hrun : Machine.run ClientLoop.step {} ls = some w) (hback : w.frames = []) :
    (w.client.state = .kConnecting ↔ w.client.connectingFd.isSome = true) ∧
    (w.client.connectChannel.isSome = true → w.client.state = .kConnecting) ∧
    (w.client.state = .kConnected ↔ w.client.connection.isSome = true) ∧
    (∀ fd, w.client.connection = some fd → w.conns fd ≠ .kDisconnected) ∧
    (w.client.backoffMs = 0 ∨
      500 ≤ w.client.backoffMs ∧ w.client.backoffMs ≤ 30000) ∧
    ∀ fd < w.client.sockets,
      (w.closes fd = 1 ∧ w.client.connectingFd ≠ some fd ∧
        w.conns fd = .kDisconnected) ∨
      (w.closes fd = 0 ∧ w.client.connectingFd = some fd ∧ fd ∉ w.built) ∨
      (w.closes fd = 0 ∧ w.client.connectingFd ≠ some fd ∧
        w.built.count fd = 1 ∧ w.conns fd ≠ .kDisconnected ∧
        w.client.connection = some fd) := by
  have hw := run_inv hrun
  have hclosing : w.closing = none := by simp [closing, hback]
  refine ⟨hw.connecting, hw.channel, hw.connected,
    fun fd hfd => (hw.up fd hfd).2 hclosing, hw.backoff, fun fd hlt => ?_⟩
  have hsocket := hw.sockets fd
  rw [if_pos hlt] at hsocket
  by_cases hdial : w.client.connectingFd = some fd
  · -- It is being dialled.
    rw [if_pos hdial] at hsocket
    have hnot : fd ∉ w.built := by
      rw [← List.count_eq_zero]
      omega
    refine .inr (.inl ⟨?_, hdial, hnot⟩)
    have := hw.closings fd
    rw [if_neg fun h => hnot h.1] at this
    rw [closes]
    omega
  · rw [if_neg hdial] at hsocket
    by_cases hbuilt : fd ∈ w.built
    · have hpos := List.count_pos_iff.mpr hbuilt
      by_cases hdown : w.conns fd = .kDisconnected
      · -- Its connection has closed it.
        refine .inl ⟨?_, hdial, hdown⟩
        have := hw.closings fd
        rw [if_pos ⟨hbuilt, hdown⟩] at this
        rw [closes]
        omega
      · -- Its connection has it.
        refine .inr (.inr ⟨?_, hdial, by omega, hdown, hw.sole fd hdown⟩)
        have := hw.closings fd
        rw [if_neg fun h => hdown h.2] at this
        rw [closes]
        omega
    · -- The client has closed it.
      have hzero := List.count_eq_zero.mpr hbuilt
      have hdown : w.conns fd = .kDisconnected := by
        refine Decidable.of_not_not fun hne => hbuilt ?_
        exact (hw.up fd (hw.sole fd hne)).1
      refine .inl ⟨?_, hdial, hdown⟩
      have := hw.closings fd
      rw [if_neg fun h => hbuilt h.1] at this
      rw [closes]
      omega

/-- A connection that its own connection callback closes, with a `connect()`
from inside the second notification and another behind it. -/
def closedAtOnce : List Label :=
  [.connect .inProgress, .handshake false, .closeConn 0, .connect .refused,
    .ret, .connect .inProgress, .ret]

theorem client_agrees_nested :
    ∃ w, Machine.run ClientLoop.step {} closedAtOnce = some w ∧
      w.client.sockets = 2 ∧ w.closes 0 = 1 ∧
      w.client.connectingFd.isSome = true := by
  have hany : (Machine.run ClientLoop.step {} closedAtOnce).any (fun w =>
      decide (w.frames = [] ∧ w.client.sockets = 2 ∧
        w.client.state = .kConnecting ∧ w.client.connectingFd = some 1 ∧
        w.client.connection = none)) = true := by
    decide +kernel
  obtain ⟨w, hrun, hw⟩ := (Option.any_eq_true _ _).mp hany
  obtain ⟨hback, hsockets, hstate, hfd, hconn⟩ := of_decide_eq_true hw
  obtain ⟨hconnecting, -, -, -, -, hplace⟩ := client_agrees hrun hback
  refine ⟨w, hrun, hsockets, ?_, hconnecting.mp hstate⟩
  have hzero := hplace 0 (by omega)
  rw [hfd, hconn] at hzero
  have hclosed : w.closes 0 = 1 ∧ w.conns 0 = .kDisconnected := by
    simpa using hzero
  exact hclosed.1

end

end GameFrame.ClientLoop
