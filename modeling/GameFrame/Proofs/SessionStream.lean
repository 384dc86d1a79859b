import GameFrame.Net.SessionEvents
import GameFrame.Proofs.ConnectionPrefix
import GameFrame.Proofs.SessionBatches

/-!
# What a session reads, and what it says

Between two calls of the message callback a session only moves: bytes arrive
in its buffer, bytes go to the socket, it is closed (`Moved`). So a property
that relates what the server keeps to the bytes that have arrived so far has
two things to be shown of it, that a move keeps it and that a call does. Every
run keeps it then, whatever the masks of its events are and however they cut
the stream (`run_arrives`).

What comes out at the other end is a beginning of what the callback sent
(`run_prefixed`). That is so of every connection.
-/

namespace GameFrame.Session

open Connection (Silent)

variable {σ : Type _} {α : Type _}

/-- The event gets as far as `handle_read`. -/
def Event.isRead (e : Event) (tied : Bool) : Bool :=
  !(tied && !e.alive) && !Channel.pureHangUp e.revents &&
    hasBits e.revents (EPOLLIN ||| EPOLLRDHUP)

/-- The bytes a step reads. -/
def arrives (s : Session σ) : Label α → List UInt8
  | .event e _ =>
      if e.isRead s.conn.channel.tied then readBytes e.reads else []
  | .close => []

/-- All that is read in a run. -/
def arrived (onMessage : α → Callback σ) :
    Session σ → List (Label α) → List UInt8
  | _, [] => []
  | s, l :: ls =>
      s.arrives l ++
        match step onMessage s l with
        | none => []
        | some s' => arrived onMessage s' ls

/-- Nobody is called from `s` to `t`, and `bytes` have come in. -/
structure Moved (s : Session σ) (bytes : List UInt8) (t : Session σ) :
    Prop where
  own : t.own = s.own
  silent : Silent s.conn t.conn
  input : t.input = s.input ++ bytes
  state : t.conn.state = s.conn.state ∨ t.conn.state = .kDisconnected

theorem moved_close (s : Session σ) : s.Moved [] s.close where
  own := rfl
  silent := Connection.silent_close s.conn
  input := by
    rw [List.append_nil]
    exact congrArg Buffer.readable (Connection.close_inputBuffer s.conn)
  state := .inr (Connection.close_state s.conn)

/-- `handle_write` takes from the other buffer. -/
theorem handleWrite_frame {c c' : Connection} {writes : List WriteRes}
    (h : c.handleWrite writes = some c') :
    c'.inputBuffer = c.inputBuffer ∧
      (c'.state = c.state ∨ c'.state = .kDisconnected) := by
  have hstop : ∀ c : Connection,
      c.stopWriting.inputBuffer = c.inputBuffer := by
    intro c
    rw [Connection.stopWriting]
    split <;> rfl
  cases Connection.handleWrite_flushed h with
  | idle => exact ⟨hstop c, .inl (Connection.stopWriting_state c)⟩
  | full => exact ⟨rfl, .inl rfl⟩
  | failed =>
      exact ⟨Connection.close_inputBuffer _, .inr (Connection.close_state _)⟩
  | taken chunks b =>
      refine ⟨?_, .inl ?_⟩
      · refine Eq.trans ?_ (hstop (c.flushed chunks b))
        rw [Connection.notifyWritten]
        split
        all_goals
          rw [Connection.halfClose]
          split <;> rfl
      · rw [Connection.notifyWritten_state, Connection.halfClose_state,
          Connection.stopWriting_state]
        rfl

/-- `send` leaves what was read alone, and a connection that is not up. -/
theorem send_frame {c c' : Connection} {data : List UInt8}
    {writes : List WriteRes} (h : c.send data writes = some c') :
    c'.inputBuffer = c.inputBuffer ∧
      (c.state ≠ .kConnected → c'.state = c.state) := by
  cases Connection.send_sent h with
  | ignored => exact ⟨rfl, fun _ => rfl⟩
  | behind hup =>
      exact ⟨Connection.sendRest_inputBuffer _ _, fun hdown => absurd hup hdown⟩
  | failed _ hup =>
      exact ⟨Connection.close_inputBuffer _, fun hdown => absurd hup hdown⟩
  | taken _ _ hup =>
      exact ⟨Connection.sendRest_inputBuffer _ _, fun hdown => absurd hup hdown⟩

theorem moved_handleWrite {s s' : Session σ} {writes : List WriteRes}
    (h : s.handleWrite writes = some s') : s.Moved [] s' := by
  obtain ⟨hconn, hown⟩ := handleWrite_conn h
  obtain ⟨hinput, hstate⟩ := handleWrite_frame hconn
  refine ⟨hown, Connection.silent_handleWrite hconn, ?_, hstate⟩
  rw [List.append_nil]
  exact congrArg Buffer.readable hinput

theorem moved_readLoop {s : Session σ} {reads : List ReadRes}
    {c : Connection} {fresh : List UInt8} {e : ReadEnd}
    (h : s.conn.readLoop [] reads = some (c, fresh, e)) :
    s.Moved (readBytes reads) { s with conn := c } := by
  obtain ⟨hbytes, -⟩ := Connection.readLoop_bytes h
  obtain ⟨n, b, rfl, -⟩ := Connection.readLoop_spec h
  refine ⟨rfl, .of_log rfl rfl ?_, hbytes, .inl rfl⟩
  intro ev hev
  rw [(List.mem_replicate.mp hev).2]
  rfl

/-- After an error nobody is called. -/
theorem moved_fatal {onMessage : Callback σ} {s s' : Session σ}
    {reads : List ReadRes} (hstop : readStop reads = some .fatal)
    (h : s.handleRead onMessage reads = some s') :
    s.Moved (readBytes reads) s' := by
  rw [Session.handleRead] at h
  split at h
  · cases h
  · next hloop =>
      obtain ⟨n, b, -, he⟩ := Connection.readLoop_spec hloop
      cases he.symm.trans hstop
  · next c fresh hloop =>
      cases h
      have hread := moved_readLoop hloop
      have hclose := moved_close { s with conn := c }
      refine ⟨rfl, hread.silent.trans hclose.silent, ?_,
        .inr (Connection.close_state c)⟩
      rw [← hread.input, ← List.append_nil (Session.input { s with conn := c })]
      exact hclose.input
  · next hloop =>
      obtain ⟨n, b, -, he⟩ := Connection.readLoop_spec hloop
      cases he.symm.trans hstop

/-- What a move keeps, and a call, every run keeps. -/
structure Keeps (onMessage : α → Callback σ)
    (P : Session σ → List UInt8 → Prop) : Prop where
  moved : ∀ {s t : Session σ} {r bytes : List UInt8}, P s r →
    s.Moved bytes t → P t (r ++ bytes)
  call : ∀ {answers : α} {s u : Session σ} {r : List UInt8}, P s r →
    onMessage answers s = some u → P u r

section

variable {onMessage : α → Callback σ} {P : Session σ → List UInt8 → Prop}
  {s s' t : Session σ} {r : List UInt8}

theorem Keeps.still (hP : Keeps onMessage P) (hs : P s r)
    (h : s.Moved [] t) : P t r := by
  rw [← List.append_nil r]
  exact hP.moved hs h

theorem Keeps.deliver (hP : Keeps onMessage P) {answers : α}
    {fresh : List UInt8} (hs : P s r)
    (h : deliver (onMessage answers) s fresh = some s') : P s' r := by
  rw [Session.deliver] at h
  split at h
  · have hnoted :
        s.Moved [] { s with conn := s.conn.note (.message fresh) } := by
      refine ⟨rfl, .of_log rfl rfl fun ev hev => ?_, ?_, .inl rfl⟩
      · rw [List.mem_singleton.mp hev]
        rfl
      · exact (List.append_nil _).symm
    exact hP.call (hP.still hs hnoted) h
  · cases h
    exact hs

theorem Keeps.handleRead (hP : Keeps onMessage P) {answers : α}
    {reads : List ReadRes} (hs : P s r)
    (h : s.handleRead (onMessage answers) reads = some s') :
    P s' (r ++ readBytes reads) := by
  rw [Session.handleRead] at h
  split at h
  · cases h
  · next hloop =>
      obtain ⟨u, hu, rfl⟩ := Option.map_eq_some_iff.mp h
      have hread := hP.moved hs (moved_readLoop hloop)
      exact hP.still (hP.deliver hread hu) (moved_close u)
  · next c fresh hloop =>
      cases h
      have hread := hP.moved hs (moved_readLoop hloop)
      exact hP.still hread (moved_close { s with conn := c })
  · next hloop => exact hP.deliver (hP.moved hs (moved_readLoop hloop)) h

theorem Keeps.step (hP : Keeps onMessage P) {l : Label α} (hs : P s r)
    (h : step onMessage s l = some s') : P s' (r ++ s.arrives l) := by
  have hclose : ∀ {s s' : Session σ} {r}, P s r → some s.close = some s' →
      P s' r := by
    intro s s' r hs h
    cases h
    exact hP.still hs (moved_close s)
  cases l with
  | close =>
      rw [arrives, List.append_nil]
      exact hclose hs h
  | event e answers =>
      have h : s.handleEvent (onMessage answers) e = some s' := h
      rw [Session.handleEvent, Channel.handleEvent] at h
      rw [arrives, Event.isRead]
      split at h
      · next hgone =>
          cases h
          rw [hgone]
          simpa using hs
      · next hthere =>
          rw [Bool.eq_false_iff.mpr hthere]
          rw [Channel.handleEventWithGuard] at h
          split at h
          · next hup =>
              rw [hup]
              simpa using hclose hs h
          · next hdown =>
              rw [Bool.eq_false_iff.mpr hdown]
              obtain ⟨s₀, h₀, h⟩ := Option.bind_eq_some_iff.mp h
              obtain ⟨s₁, h₁, h⟩ := Option.bind_eq_some_iff.mp h
              have hs₀ : P s₀ r := by
                rcases Channel.when_eq_some h₀ with ⟨-, h₀⟩ | ⟨-, rfl⟩
                · exact hclose hs h₀
                · exact hs
              have hs₁ : P s₁ (r ++
                  if hasBits e.revents (EPOLLIN ||| EPOLLRDHUP) then
                    readBytes e.reads else []) := by
                rcases Channel.when_eq_some h₁ with ⟨hbit, h₁⟩ | ⟨hbit, rfl⟩
                · rw [hbit, if_pos rfl]
                  exact hP.handleRead hs₀ h₁
                · rw [hbit, if_neg Bool.false_ne_true, List.append_nil]
                  exact hs₀
              simp only [Bool.not_false, Bool.true_and]
              rcases Channel.when_eq_some h with ⟨-, h⟩ | ⟨-, rfl⟩
              · exact hP.still hs₁ (moved_handleWrite h)
              · exact hs₁

theorem run_arrives (hP : Keeps onMessage P) {ls : List (Label α)}
    (hs : P s r) (h : Machine.run (step onMessage) s ls = some t) :
    P t (r ++ arrived onMessage s ls) := by
  induction ls generalizing s r with
  | nil =>
      obtain rfl : s = t := by simpa using h
      rwa [arrived, List.append_nil]
  | cons l ls ih =>
      obtain ⟨s', hs', h⟩ := Machine.run_cons_some.mp h
      rw [arrived, hs', ← List.append_assoc]
      exact ih (hP.step hs hs') h

theorem run_prefixed (hscript : ∀ answers, Scripted (onMessage answers))
    {ls : List (Label α)} (hs : s.conn.Prefixed)
    (h : Machine.run (step onMessage) s ls = some t) : t.conn.Prefixed := by
  obtain ⟨ms, hms⟩ := run_connection hscript h
  exact Machine.run_preserves
    (fun hc h => Connection.prefixed_step hc (fun _ _ => trivial) h) hs hms

end

end GameFrame.Session
