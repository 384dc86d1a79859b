import GameFrame.Echo.EchoLoop
import GameFrame.LogSender.Logging

/-!
# What the echo server logs

The statements of `src/main.cpp`, with what `vsnprintf` makes of them. In one of
them there is what a client has sent. It is cut down to a line of some two
hundred bytes before (`preview`), and is passed as a C string, so that it ends
at the first zero.
-/

namespace GameFrame

/-- A connection, as far as the log names it. -/
structure EchoClient where
  fd : Int
  /-- `sin_addr`, and `sin_port` in the order of the host -/
  addr : UInt8 × UInt8 × UInt8 × UInt8
  port : UInt16
  deriving DecidableEq, Repr

def decimal (n : Nat) : List UInt8 := literal (toString n)

/-- `format_peer(addr)`. -/
def EchoClient.peer (c : EchoClient) : List UInt8 :=
  decimal c.addr.1.toNat ++ literal "." ++ decimal c.addr.2.1.toNat ++
    literal "." ++ decimal c.addr.2.2.1.toNat ++ literal "." ++
    decimal c.addr.2.2.2.toNat ++ literal ":" ++ decimal c.port.toNat

/-- What `%s` prints of `c_str()`. -/
def cString (s : List UInt8) : List UInt8 := s.takeWhile (· != 0)

/-- `kPreviewMax`. -/
def kPreviewMax : Nat := 200

/-- `preview` of the message callback. -/
def preview (data : List UInt8) : List UInt8 :=
  let preview := data.map fun c => if c = 10 ∨ c = 13 then 32 else c
  if preview.length > kPreviewMax then
    preview.take kPreviewMax ++ literal "..."
  else preview

/-- Whether `find(word)` finds it. -/
def found (word : List UInt8) : List UInt8 → Bool
  | [] => word.isEmpty
  | c :: s => word.isPrefixOf (c :: s) || found word s

/-- What the echo server has something to say about. -/
inductive EchoEvent where
  | connected
  | disconnected
  | message (data : List UInt8)
  | idleKick
  deriving DecidableEq, Repr

/-- `fd=%d peer=%s`. -/
def EchoClient.who (c : EchoClient) : List UInt8 :=
  literal "fd=" ++ literal (toString c.fd) ++ literal " peer=" ++ c.peer

/-- The statements an event comes to, each with its level and its body. -/
def EchoEvent.logs (c : EchoClient) : EchoEvent → List (LogLevel × List UInt8)
  | .connected => [(.INFO, literal "connected " ++ c.who)]
  | .disconnected => [(.INFO, literal "disconnected " ++ c.who)]
  | .message data =>
      let recv := literal "recv " ++ decimal data.length ++
        literal " bytes from " ++ c.who ++ literal " | \"" ++
        cString (preview data) ++ literal "\""
      let boom := literal "business error triggered by client " ++ c.who ++
        literal " (payload had 'BOOM')"
      if found (literal "BOOM") data then [(.DEBUG, recv), (.ERROR, boom)]
      else [(.DEBUG, recv)]
  | .idleKick =>
      [(.WARN, literal "idle kick " ++ c.who ++ literal " after " ++
        literal (toString kIdleTimeoutMs) ++ literal "ms idle")]

/-- A statement of `main.cpp`, on any of its lines. -/
def LogStatement.OfEcho (st : LogStatement) : Prop :=
  basenameOf st.file = literal "main.cpp" ∧
    ∃ (c : EchoClient) (e : EchoEvent), (st.level, st.body) ∈ e.logs c

end GameFrame
