import GameFrame.Net.ConnectDispatch
import GameFrame.Proofs.ClientState

/-!
# A dial is settled once

What epoll reports of a connect channel is any of three bits. A hang-up goes to
one callback and the dispatch ends there. Without one, an error goes to a
callback, and then the dispatch goes on to look at the bit for writing: if it
is set as well, it reads a callback of a channel that has been destroyed
(`handleEvent_mask`). So a dial is settled once, and nothing of its channel is
read afterwards, if and only if that combination is not reported
(`settled_once_iff`).
-/

namespace GameFrame.ConnectDispatch

/-- What epoll can report of the channel. -/
def connectMask (out err hup : Bool) : UInt32 :=
  (if out then EPOLLOUT else 0) ||| (if err then EPOLLERR else 0) |||
    if hup then EPOLLHUP else 0

theorem connectMask_bits (out err hup : Bool) :
    Channel.pureHangUp (connectMask out err hup) = hup ∧
      hasBits (connectMask out err hup) EPOLLERR = err ∧
      hasBits (connectMask out err hup) (EPOLLIN ||| EPOLLRDHUP) = false ∧
      hasBits (connectMask out err hup) EPOLLOUT = out := by
  cases out <;> cases err <;> cases hup <;> decide

/-- The dispatch, bit by bit. -/
theorem handleEvent_mask (soError : Bool)
    (connectionCb : TcpClient → TcpClient) (out err hup : Bool)
    (s : ConnectDispatch) :
    handleEvent soError connectionCb (connectMask out err hup) s =
      if hup then member (handleConnectWritable soError connectionCb) s
      else
        (Channel.when err
          (member (handleConnectWritable soError connectionCb)) s).bind
          (Channel.when out
            (member (handleConnectWritable soError connectionCb))) := by
  obtain ⟨hhup, herr, hin, hout⟩ := connectMask_bits out err hup
  rw [handleEvent, Channel.handleEvent, if_neg (by decide), Channel.handleEventWithGuard,
    hhup, herr, hin, hout]
  rfl

/-- A connection, one retry, or none. -/
inductive Settles : ClientState × ClientAsk → Prop where
  | connection (fd : Nat) : Settles (.kConnected, .established fd)
  | retry (ms : Nat) : Settles (.kRetrying, .runAfter ms)
  | disconnected : Settles (.kDisconnected, .nothing)

theorem settles_scheduleRetry (c : TcpClient) :
    Settles (c.scheduleRetry.1.state, c.scheduleRetry.2) := by
  rw [TcpClient.scheduleRetry]
  split
  · exact .disconnected
  · exact .retry _

theorem settles_handleConnectWritable (c : TcpClient) (soError : Bool) :
    Settles ((c.handleConnectWritable soError).1.state,
      (c.handleConnectWritable soError).2) := by
  rw [TcpClient.handleConnectWritable]
  split
  · exact settles_scheduleRetry _
  · split
    · exact settles_scheduleRetry _
    · exact .connection _

/-- The dispatch comes to its end without reading anything of a channel that is
gone, and `handle_connect_writable` has run once in it and has come to one of
the three. -/
def SettledOnce (client : TcpClient) (soError : Bool)
    (connectionCb : TcpClient → TcpClient) (revents : UInt32) : Prop :=
  ∃ s' r, handleEvent soError connectionCb revents { client } = some s' ∧
    s'.alive = false ∧ s'.settled = [r] ∧ Settles r

variable {client : TcpClient} (soError : Bool)
  (connectionCb : TcpClient → TcpClient)

/-- The first settling takes the channel away. -/
theorem member_settle (hchannel : client.connectChannel.isSome = true) :
    ∃ s', member (handleConnectWritable soError connectionCb) { client } =
        some s' ∧
      s'.alive = false ∧
      s'.settled = [((client.handleConnectWritable soError).1.state,
        (client.handleConnectWritable soError).2)] := by
  refine ⟨_, rfl, ?_, rfl⟩
  rw [handleConnectWritable, ← Option.not_isSome, hchannel]
  rfl

theorem settledOnce_mask (hchannel : client.connectChannel.isSome = true)
    (out err hup : Bool) :
    SettledOnce client soError connectionCb (connectMask out err hup) ↔
      hup = true ∨ out ≠ err := by
  obtain ⟨s₁, hfirst, hgone, hsettled⟩ :=
    member_settle soError connectionCb hchannel
  have honce : SettledOnce client soError connectionCb
      (connectMask out err hup) ↔ ∃ s' r,
      (if hup then some s₁
        else (if err then some s₁ else some { client }).bind
          (Channel.when out
            (member (handleConnectWritable soError connectionCb)))) =
        some s' ∧ s'.alive = false ∧ s'.settled = [r] ∧ Settles r := by
    rw [SettledOnce, handleEvent_mask, Channel.when, hfirst]
  have hdone : ∃ s' r, some s₁ = some s' ∧ s'.alive = false ∧
      s'.settled = [r] ∧ Settles r :=
    ⟨s₁, _, rfl, hgone, hsettled, settles_handleConnectWritable _ _⟩
  rw [honce]
  cases hup with
  | true => exact iff_of_true hdone (.inl rfl)
  | false =>
      cases err with
      | true =>
          cases out with
          | true =>
              -- The channel is gone when its `write_cb_` is read.
              have hread : member
                  (handleConnectWritable soError connectionCb) s₁ = none := by
                rw [member, hgone]
                rfl
              refine iff_of_false ?_ (by decide)
              rintro ⟨s', r, h, -⟩
              cases hread.symm.trans h
          | false => exact iff_of_true hdone (.inr (by decide))
      | false =>
          cases out with
          | true =>
              refine iff_of_true ?_ (.inr (by decide))
              obtain ⟨s', r, hsome, hrest⟩ := hdone
              exact ⟨s', r, hfirst.trans hsome, hrest⟩
          | false =>
              refine iff_of_false ?_ (by decide)
              rintro ⟨s', r, h, halive, -⟩
              cases h
              cases halive

/-- A socket that has an error and can be written to. -/
theorem settled_twice :
    ¬ ∀ (ls : List ClientLoop.Label) (w : ClientLoop) (soError : Bool)
      (connectionCb : TcpClient → TcpClient) (out err hup : Bool),
      Machine.run ClientLoop.step {} ls = some w →
      w.client.connectChannel.isSome = true →
      connectMask out err hup ≠ 0 →
      SettledOnce w.client soError connectionCb (connectMask out err hup) := by
  intro hall
  have h := hall [.connect .inProgress]
    (({} : ClientLoop).connect .inProgress) true id true true false rfl rfl
    (by decide)
  rw [settledOnce_mask _ _ rfl] at h
  exact absurd h (by decide)

/-- A client that is dialling settles the dial once, and leaves the channel
alone that it has destroyed, if and only if the channel reports a hang-up, or
an error or room for writing but not both. -/
theorem settled_once_iff {ls : List ClientLoop.Label} {w : ClientLoop}
    (hrun : Machine.run ClientLoop.step {} ls = some w)
    (hchannel : w.client.connectChannel.isSome = true)
    (soError : Bool) (connectionCb : TcpClient → TcpClient)
    (out err hup : Bool) :
    w.client.state = .kConnecting ∧
      (SettledOnce w.client soError connectionCb (connectMask out err hup) ↔
        hup = true ∨ out ≠ err) :=
  ⟨(ClientLoop.run_inv hrun).channel hchannel,
    settledOnce_mask soError connectionCb hchannel out err hup⟩

/-- A dial that has failed, with all three bits. -/
theorem settled_once_iff_refused :
    ∃ w : ClientLoop, Machine.run ClientLoop.step {} [.connect .inProgress] =
        some w ∧
      SettledOnce w.client true id (connectMask true true true) := by
  have hrun : Machine.run ClientLoop.step {} [.connect .inProgress] =
      some (({} : ClientLoop).connect .inProgress) := rfl
  exact ⟨_, hrun,
    (settled_once_iff hrun rfl true id true true true).2.mpr (.inl rfl)⟩

end GameFrame.ConnectDispatch
