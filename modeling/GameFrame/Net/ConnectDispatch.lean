import GameFrame.Net.ClientLoop

/-!
# An event of the connect channel

`start_connect` puts the same function behind three of the callbacks of
`connect_channel_`, and that function destroys the channel that is calling it.
So here it is part of the state whether the channel is still there
(`alive`), and a dispatch that reads a callback of one that is not has no
outcome. The channel is not tied.

`connection_cb_` is the user's, and runs in the middle of a settling that has
succeeded. It may call anything of the client, and is a function on it.
-/

namespace GameFrame

/-- The client, and the channel whose event is being dispatched. -/
structure ConnectDispatch where
  client : TcpClient
  alive : Bool := true
  /-- what each run of `handle_connect_writable` has come to: the state it sets
  and what it asks for -/
  settled : List (ClientState × ClientAsk) := []
  deriving DecidableEq, Repr

namespace ConnectDispatch

/-- `handle_connect_writable()`, called by the channel. -/
def handleConnectWritable (err : Bool) (connectionCb : TcpClient → TcpClient)
    (s : ConnectDispatch) : ConnectDispatch :=
  let r := s.client.handleConnectWritable err
  { client :=
      match r.2 with
      | .established _ => connectionCb r.1
      | .runAfter _ | .nothing => r.1
    -- `connect_channel_.reset()`
    alive := s.alive && s.client.connectChannel.isNone
    settled := s.settled ++ [(r.1.state, r.2)] }

/-- `if (cb_) cb_();` of a channel that may be gone. -/
def member (cb : ConnectDispatch → ConnectDispatch) (s : ConnectDispatch) :
    Option ConnectDispatch :=
  if s.alive then some (cb s) else none

/-- `handle_event(revents)` of the connect channel. It has no `read_cb_`. -/
def handleEvent (err : Bool) (connectionCb : TcpClient → TcpClient)
    (revents : UInt32) (s : ConnectDispatch) : Option ConnectDispatch :=
  let settle := member (handleConnectWritable err connectionCb)
  Channel.handleEvent false true settle settle (member id) settle revents s

end ConnectDispatch

end GameFrame
