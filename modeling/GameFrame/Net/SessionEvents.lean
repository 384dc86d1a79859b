import GameFrame.Net.Session

/-!
# A session, event by event

`Channel::handle_event` in `src/channel.cpp`, with the four callbacks that
`Connection` sets, one of which is `handle_read` and calls back into the
server on top. What is said of a batch in `Session` is one bit of the mask: an
event may have others, and the connection may be closed by one of them before
or after the batch is read. Besides its events a connection has only one thing
to come, a close from outside, by a timer or when its server is destroyed.

The system calls a message callback makes itself are answered by a script that
comes with the event.
-/

namespace GameFrame.Session

variable {σ : Type _} {α : Type _}

/-- One event: its mask, whether the tied object is there, and the answers of
the reads and of the writes. -/
structure Event where
  revents : UInt32
  alive : Bool := true
  reads : List ReadRes := []
  writes : List WriteRes := []
  deriving DecidableEq, Repr

/-- `handle_write()`. -/
def handleWrite (s : Session σ) (writes : List WriteRes) :
    Option (Session σ) :=
  (s.conn.handleWrite writes).map fun c => { s with conn := c }

/-- `handle_event(revents)`. -/
def handleEvent (onMessage : Callback σ) (s : Session σ) (e : Event) :
    Option (Session σ) :=
  Channel.handleEvent s.conn.channel.tied e.alive (fun s => some s.close)
    (fun s => some s.close) (fun s => s.handleRead onMessage e.reads)
    (fun s => s.handleWrite e.writes) e.revents s

inductive Label (α : Type _) where
  /-- an event, and what the callback's own system calls answer -/
  | event (e : Event) (answers : α)
  | close
  deriving DecidableEq, Repr

def step (onMessage : α → Callback σ) (s : Session σ) :
    Label α → Option (Session σ)
  | .event e answers => s.handleEvent (onMessage answers) e
  | .close => some s.close

/-! ## What the connection goes through -/

theorem handleWrite_conn {s s' : Session σ} {writes : List WriteRes}
    (h : s.handleWrite writes = some s') :
    s.conn.handleWrite writes = some s'.conn ∧ s'.own = s.own := by
  obtain ⟨c, hc, rfl⟩ := Option.map_eq_some_iff.mp h
  exact ⟨hc, rfl⟩

theorem when_conn {bit : Bool} {cb : Session σ → Option (Session σ)}
    {cb' : Connection → Option Connection} {s s' : Session σ}
    (hcb : cb s = some s' → cb' s.conn = some s'.conn)
    (h : Channel.when bit cb s = some s') :
    Channel.when bit cb' s.conn = some s'.conn := by
  rcases Channel.when_eq_some h with ⟨rfl, h⟩ | ⟨rfl, rfl⟩
  · exact hcb h
  · rfl

/-- An event of the session is one of its connection. -/
theorem handleEvent_scripted {onMessage : Callback σ} (h : Scripted onMessage)
    {s s' : Session σ} {e : Event} (hs : s.handleEvent onMessage e = some s') :
    ∃ cb, s.conn.handleEvent e.revents
      { alive := e.alive, reads := e.reads, cb := cb, writes := e.writes } =
        some s'.conn := by
  simp only [handleEvent, Connection.handleEvent, Channel.handleEvent,
    Channel.handleEventWithGuard] at hs ⊢
  split at hs
  · next hgone =>
      cases hs
      exact ⟨[], if_pos hgone⟩
  · next hthere =>
      split at hs
      · next hup =>
          cases hs
          refine ⟨[], ?_⟩
          rw [if_neg hthere]
          exact if_pos hup
      · next hdown =>
          obtain ⟨s₀, hs₀, hs⟩ := Option.bind_eq_some_iff.mp hs
          obtain ⟨s₁, hs₁, hs⟩ := Option.bind_eq_some_iff.mp hs
          have herror : Channel.when (hasBits e.revents EPOLLERR)
              (fun c => some c.close) s.conn = some s₀.conn := by
            refine when_conn (fun h => ?_) hs₀
            cases h
            rfl
          have hread : ∃ cb, Channel.when
              (hasBits e.revents (EPOLLIN ||| EPOLLRDHUP))
              (fun c => Connection.handleRead c e.reads cb) s₀.conn =
                some s₁.conn := by
            rcases Channel.when_eq_some hs₁ with ⟨-, h₁⟩ | ⟨hbit, rfl⟩
            · obtain ⟨cb, hcb⟩ := handleRead_scripted h h₁
              exact ⟨cb, when_conn (fun _ => hcb) hs₁⟩
            · refine ⟨[], ?_⟩
              rw [hbit]
              rfl
          have hwrite : Channel.when (hasBits e.revents EPOLLOUT)
              (fun c => Connection.handleWrite c e.writes) s₁.conn =
                some s'.conn :=
            when_conn (fun h => (handleWrite_conn h).1) hs
          obtain ⟨cb, hread⟩ := hread
          refine ⟨cb, ?_⟩
          rw [if_neg hthere, if_neg hdown, herror, Option.bind_some, hread]
          exact hwrite

/-- A run of a session is a run of its connection. -/
theorem run_connection {onMessage : α → Callback σ}
    (h : ∀ answers, Scripted (onMessage answers)) {s t : Session σ}
    {ls : List (Label α)} (hrun : Machine.run (step onMessage) s ls = some t) :
    ∃ ms, Machine.run Connection.step s.conn ms = some t.conn := by
  refine Machine.run_simulates (f := Session.conn) ?_ hrun
  intro s l s' hs
  cases l with
  | event e answers =>
      obtain ⟨cb, hcb⟩ := handleEvent_scripted (h answers) hs
      exact ⟨[.event e.revents _], Machine.run_cons_some.mpr ⟨_, hcb, rfl⟩⟩
  | close =>
      cases hs
      exact ⟨[.op .close], rfl⟩

end GameFrame.Session
