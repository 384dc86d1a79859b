import GameFrame.Lib.Run
import GameFrame.Net.Connection

/-!
# `TcpServer`, connections that come and go over several loops

`src/server.h`, `src/server.cpp`, and `next_loop` of the thread pool. The main
loop accepts, keeps the table of connections by descriptor number, and deals
the connections out to its sub-loops. A connection lives on its own loop. It
is closed there, and the close travels: the close callback sends a functor to
the main loop, which takes the connection off the table and sends another one
back, and that one tells the user.

Loop `0` is the main loop and loop `i + 1` the `i`-th sub-loop; with no
sub-loops every connection is on the main loop. A loop runs its functors in
the order they were queued. A functor for the loop one is on is not queued but
run on the spot, so with no sub-loops a close is off the table and reported
before it returns.

Of a connection only its state is kept, and what moves it: the user, the peer
and errors, at any time from the moment the user is told of it (before that
nobody has it). `close()` is two steps, for between them the number it has
closed is the kernel's again, and the main loop may accept. The kernel gives
out any number that is not open.
-/

namespace GameFrame

inductive ServerFunctor where
  /-- of `handle_accept`: tell the user, and start the connection -/
  | established (id : Nat)
  /-- of the close callback: `remove_connection_in_loop` -/
  | remove (id : Nat)
  /-- of `remove_connection_in_loop`: tell the user -/
  | destroyed (id : Nat)
  deriving DecidableEq, Repr

/-- A connection as the server sees it, its `ConnectionPtr` being its place in
the order of accepts. -/
structure ServerConn where
  fd : Nat := 0
  loop : Nat := 0
  state : ConnState := .kConnected
  /-- the user has been told of it -/
  known : Bool := false
  deriving DecidableEq, Repr

structure TcpServer where
  numThreads : Nat
  /-- `next_` of the thread pool -/
  next : Nat := 0
  /-- whether `connection_cb_` is set -/
  connectionCb : Bool := true
  connections : Nat → Option Nat := fun _ => none
  conns : Nat → ServerConn := fun _ => {}
  accepted : Nat := 0
  queues : Nat → List ServerFunctor := fun _ => []
  /-- connections whose descriptor is closed and whose close callback has not
  been called, `close()` being in between -/
  closing : List Nat := []
  /-- the calls of `connection_cb_`, with the state it was called in -/
  callbacks : List (Nat × ConnState) := []

namespace TcpServer

def setConn (w : TcpServer) (id : Nat) (c : ServerConn) : TcpServer :=
  { w with conns := fun i => if i = id then c else w.conns i }

def setQueue (w : TcpServer) (l : Nat) (q : List ServerFunctor) : TcpServer :=
  { w with queues := fun i => if i = l then q else w.queues i }

def queueInLoop (w : TcpServer) (l : Nat) (f : ServerFunctor) : TcpServer :=
  w.setQueue l (w.queues l ++ [f])

/-- `next_loop()`. -/
def nextLoop (w : TcpServer) : Nat × TcpServer :=
  if w.numThreads = 0 then (0, w)
  else (w.next + 1, { w with next := (w.next + 1) % w.numThreads })

/-- A call of `connection_cb_`, if it is set. -/
def connectionCallback (w : TcpServer) (id : Nat) : TcpServer :=
  if w.connectionCb then
    { w with callbacks := w.callbacks ++ [(id, (w.conns id).state)] }
  else w

/-- The functor `handle_accept` sends to the connection's loop. -/
def establish (w : TcpServer) (id : Nat) : TcpServer :=
  (w.connectionCallback id).setConn id { w.conns id with known := true }

/-- One turn of `handle_accept`, `accept` having returned `fd`. -/
def handleAccept (w : TcpServer) (fd : Nat) : TcpServer :=
  let id := w.accepted
  let (l, w) := w.nextLoop
  let w := { w with
    accepted := id + 1
    connections := fun k => if k = fd then some id else w.connections k }
  let w := w.setConn id { fd := fd, loop := l }
  if l = 0 then w.establish id else w.queueInLoop l (.established id)

/-- What ends the loop of `handle_accept`: nobody is left in the queue of the
listening socket, or `accept(2)` failed otherwise. -/
inductive AcceptEnd where
  | eagain
  | failed
  deriving DecidableEq, Repr

/-- An answer of `accept(2)`, with that of the `set_nonblocking` behind it. -/
inductive AcceptRes where
  | conn (fd : Nat) (nonblocking : Bool)
  | eintr
  | stop (e : AcceptEnd)
  deriving DecidableEq, Repr

/-- The kernel may give out `fd`: no connection has it open. -/
def fdFree (w : TcpServer) (fd : Nat) : Bool :=
  (List.range w.accepted).all fun id =>
    (w.conns id).fd != fd || (w.conns id).state == .kDisconnected

/-- `handle_accept()`, on the answers it gets. -/
def acceptLoop : TcpServer → List AcceptRes → Option (TcpServer × AcceptEnd)
  | _, [] => none
  | w, r :: rs =>
      match r with
      | .conn fd nonblocking =>
          if w.fdFree fd then
            acceptLoop (if nonblocking then w.handleAccept fd else w) rs
          else none
      | .eintr => acceptLoop w rs
      | .stop e => if rs = [] then some (w, e) else none

/-- `remove_connection_in_loop(conn)`. -/
def removeConnectionInLoop (w : TcpServer) (id : Nat) : TcpServer :=
  let fd := (w.conns id).fd
  let l := (w.conns id).loop
  match w.connections fd with
  | none => w
  | some id' =>
      if id' ≠ id then w
      else
        let w := { w with
          connections := fun k => if k = fd then none else w.connections k }
        if w.connectionCb then
          if l = 0 then w.connectionCallback id
          else w.queueInLoop l (.destroyed id)
        else w

/-- `close()`, up to the `::close`. -/
def closeFd (w : TcpServer) (id : Nat) : TcpServer :=
  if (w.conns id).state = .kDisconnected then w
  else
    { w.setConn id { w.conns id with state := .kDisconnected } with
      closing := id :: w.closing }

/-- The close callback: `remove_connection_in_loop`, on the main loop. -/
def closeCallback (w : TcpServer) (id : Nat) : TcpServer :=
  if (w.conns id).loop = 0 then w.removeConnectionInLoop id
  else w.queueInLoop 0 (.remove id)

/-- `close()` without anything in between. -/
def close (w : TcpServer) (id : Nat) : TcpServer :=
  if (w.conns id).state = .kDisconnected then w
  else
    let w := w.closeFd id
    { w with closing := w.closing.erase id }.closeCallback id

def runFunctor (w : TcpServer) : ServerFunctor → TcpServer
  | .established id => w.establish id
  | .remove id => w.removeConnectionInLoop id
  | .destroyed id => w.connectionCallback id

/-! ## Steps -/

inductive Label where
  | accept (fd : Nat)
  /-- loop `l` runs its next functor -/
  | functor (l : Nat)
  /-- `shutdown()` of a connection -/
  | shutdown (id : Nat)
  /-- `close()` of a connection, up to the `::close` -/
  | closeFd (id : Nat)
  /-- and from there on -/
  | closeCb (id : Nat)
  deriving DecidableEq, Repr

/-- The thread of loop `l` is inside a `close()`. -/
def busy (w : TcpServer) (l : Nat) : Bool :=
  w.closing.any fun id => (w.conns id).loop == l

/-- Somebody can act on the connection: it has been announced, and its loop
is not inside a `close()`. -/
def reachable (w : TcpServer) (id : Nat) : Bool :=
  decide (id < w.accepted) && (w.conns id).known && !w.busy (w.conns id).loop

def shutdown (w : TcpServer) (id : Nat) : TcpServer :=
  if (w.conns id).state = .kConnected then
    w.setConn id { w.conns id with state := .kDisconnecting }
  else w

def step (w : TcpServer) : Label → Option TcpServer
  | .accept fd =>
      if !w.busy 0 && w.fdFree fd then some (w.handleAccept fd) else none
  | .functor l =>
      match w.queues l with
      | [] => none
      | f :: fs =>
          if w.busy l then none else some ((w.setQueue l fs).runFunctor f)
  | .shutdown id => if w.reachable id then some (w.shutdown id) else none
  | .closeFd id => if w.reachable id then some (w.closeFd id) else none
  | .closeCb id =>
      if id ∈ w.closing then
        some ({ w with closing := w.closing.erase id }.closeCallback id)
      else none

/-! ## What a step can do -/

inductive Stepped (w : TcpServer) : Label → TcpServer → Prop where
  | accept (fd : Nat) : w.busy 0 = false → w.fdFree fd = true →
      Stepped w (.accept fd) (w.handleAccept fd)
  | functor (l : Nat) (f : ServerFunctor) (fs : List ServerFunctor) :
      w.queues l = f :: fs → w.busy l = false →
      Stepped w (.functor l) ((w.setQueue l fs).runFunctor f)
  | shutdown (id : Nat) : id < w.accepted → (w.conns id).known = true →
      w.busy (w.conns id).loop = false →
      Stepped w (.shutdown id) (w.shutdown id)
  | closeFd (id : Nat) : id < w.accepted → (w.conns id).known = true →
      w.busy (w.conns id).loop = false → Stepped w (.closeFd id) (w.closeFd id)
  | closeCb (id : Nat) : id ∈ w.closing →
      Stepped w (.closeCb id)
        ({ w with closing := w.closing.erase id }.closeCallback id)

theorem step_stepped {w w' : TcpServer} {lb : Label}
    (h : w.step lb = some w') : Stepped w lb w' := by
  have hreach : ∀ {id}, w.reachable id = true → id < w.accepted ∧
      (w.conns id).known = true ∧ w.busy (w.conns id).loop = false := by
    intro id h
    simp only [reachable, Bool.and_eq_true, decide_eq_true_eq,
      Bool.not_eq_true'] at h
    exact ⟨h.1.1, h.1.2, h.2⟩
  cases lb with
  | accept fd =>
      simp only [step] at h
      split at h
      · next hok =>
          cases h
          rw [Bool.and_eq_true, Bool.not_eq_true'] at hok
          exact .accept fd hok.1 hok.2
      · cases h
  | functor l =>
      simp only [step] at h
      split at h
      · cases h
      · next f fs hq =>
          split at h
          · cases h
          · next hbusy =>
              cases h
              exact .functor l f fs hq (Bool.eq_false_iff.mpr hbusy)
  | shutdown id =>
      simp only [step] at h
      split at h
      · next hok =>
          cases h
          obtain ⟨hid, hknown, hbusy⟩ := hreach hok
          exact .shutdown id hid hknown hbusy
      · cases h
  | closeFd id =>
      simp only [step] at h
      split at h
      · next hok =>
          cases h
          obtain ⟨hid, hknown, hbusy⟩ := hreach hok
          exact .closeFd id hid hknown hbusy
      · cases h
  | closeCb id =>
      simp only [step] at h
      split at h
      · next hin =>
          cases h
          exact .closeCb id hin
      · cases h

/-! ## Where the connections are

Only an accept places a connection. -/

/-- Every connection is where it was, and the next will go where it would. -/
structure SamePlaces (s s' : TcpServer) : Prop where
  threads : s'.numThreads = s.numThreads
  next : s'.next = s.next
  accepted : s'.accepted = s.accepted
  fd : ∀ id, (s'.conns id).fd = (s.conns id).fd
  loop : ∀ id, (s'.conns id).loop = (s.conns id).loop

section

variable {s s' s'' : TcpServer}

theorem SamePlaces.refl : SamePlaces s s :=
  ⟨rfl, rfl, rfl, fun _ => rfl, fun _ => rfl⟩

theorem SamePlaces.trans (h : SamePlaces s s') (h' : SamePlaces s' s'') :
    SamePlaces s s'' where
  threads := h'.threads.trans h.threads
  next := h'.next.trans h.next
  accepted := h'.accepted.trans h.accepted
  fd := fun id => (h'.fd id).trans (h.fd id)
  loop := fun id => (h'.loop id).trans (h.loop id)

theorem samePlaces_queue (l : Nat) (q : List ServerFunctor) :
    SamePlaces s (s.setQueue l q) :=
  ⟨rfl, rfl, rfl, fun _ => rfl, fun _ => rfl⟩

theorem samePlaces_conn {id : Nat} {c : ServerConn}
    (hfd : c.fd = (s.conns id).fd) (hloop : c.loop = (s.conns id).loop) :
    SamePlaces s (s.setConn id c) := by
  refine ⟨rfl, rfl, rfl, fun i => ?_, fun i => ?_⟩
  · show (if i = id then c else s.conns i).fd = _
    split
    · next hi => rw [hi, hfd]
    · rfl
  · show (if i = id then c else s.conns i).loop = _
    split
    · next hi => rw [hi, hloop]
    · rfl

theorem samePlaces_callback (id : Nat) :
    SamePlaces s (s.connectionCallback id) := by
  unfold connectionCallback
  split
  · exact ⟨rfl, rfl, rfl, fun _ => rfl, fun _ => rfl⟩
  · exact .refl

theorem samePlaces_establish (id : Nat) : SamePlaces s (s.establish id) := by
  have hcb : SamePlaces s (s.connectionCallback id) := samePlaces_callback id
  exact hcb.trans (samePlaces_conn (hcb.fd id).symm (hcb.loop id).symm)

theorem samePlaces_remove (id : Nat) :
    SamePlaces s (s.removeConnectionInLoop id) := by
  unfold removeConnectionInLoop
  simp only
  split
  · exact .refl
  · split
    · exact .refl
    · have herased : SamePlaces s { s with connections := fun k =>
          if k = (s.conns id).fd then none else s.connections k } :=
        ⟨rfl, rfl, rfl, fun _ => rfl, fun _ => rfl⟩
      split
      · split
        · exact herased.trans (samePlaces_callback id)
        · exact herased.trans (samePlaces_queue _ _)
      · exact herased

theorem samePlaces_closeFd (id : Nat) : SamePlaces s (s.closeFd id) := by
  unfold closeFd
  split
  · exact .refl
  · have hconn : SamePlaces s (s.setConn id
        { s.conns id with state := .kDisconnected }) :=
      samePlaces_conn rfl rfl
    exact hconn.trans ⟨rfl, rfl, rfl, fun _ => rfl, fun _ => rfl⟩

theorem samePlaces_closeCallback (id : Nat) :
    SamePlaces s (s.closeCallback id) := by
  unfold closeCallback
  split
  · exact samePlaces_remove id
  · exact samePlaces_queue _ _

theorem samePlaces_close (id : Nat) : SamePlaces s (s.close id) := by
  unfold close
  split
  · exact .refl
  · have hleft : SamePlaces (s.closeFd id)
        { s.closeFd id with closing := (s.closeFd id).closing.erase id } :=
      ⟨rfl, rfl, rfl, fun _ => rfl, fun _ => rfl⟩
    exact (samePlaces_closeFd id).trans
      (hleft.trans (samePlaces_closeCallback id))

theorem samePlaces_shutdown (id : Nat) : SamePlaces s (s.shutdown id) := by
  unfold shutdown
  split
  · exact samePlaces_conn rfl rfl
  · exact .refl

theorem samePlaces_functor (f : ServerFunctor) :
    SamePlaces s (s.runFunctor f) := by
  cases f with
  | established id => exact samePlaces_establish id
  | remove id => exact samePlaces_remove id
  | destroyed id => exact samePlaces_callback id

/-- The server behind an accept, before anything is told: the connection is on
the loop whose turn it is. -/
def placed (s : TcpServer) (fd : Nat) : TcpServer :=
  { s.nextLoop.2 with accepted := s.accepted + 1 }.setConn s.accepted
    { fd := fd, loop := s.nextLoop.1 }

theorem samePlaces_handleAccept (s : TcpServer) (fd : Nat) :
    SamePlaces (s.placed fd) (s.handleAccept fd) := by
  have hentered : SamePlaces (s.placed fd) { s.placed fd with
      connections := fun k =>
        if k = fd then some s.accepted else s.nextLoop.2.connections k } :=
    ⟨rfl, rfl, rfl, fun _ => rfl, fun _ => rfl⟩
  unfold handleAccept
  dsimp only
  split
  · exact hentered.trans (samePlaces_establish _)
  · exact hentered.trans (samePlaces_queue _ _)

theorem handleAccept_places (s : TcpServer) (fd : Nat) :
    (s.handleAccept fd).accepted = s.accepted + 1 ∧
      ((s.handleAccept fd).conns s.accepted).fd = fd ∧
      ∀ i, i ≠ s.accepted →
        ((s.handleAccept fd).conns i).fd = (s.conns i).fd ∧
          ((s.handleAccept fd).conns i).loop = (s.conns i).loop := by
  have hsame := samePlaces_handleAccept s fd
  have hconns : s.nextLoop.2.conns = s.conns := by
    rw [nextLoop]
    split <;> rfl
  have hnew : (s.placed fd).conns s.accepted =
      { fd := fd, loop := s.nextLoop.1 } := if_pos rfl
  have hold : ∀ i, i ≠ s.accepted → (s.placed fd).conns i = s.conns i :=
    fun i hi => (if_neg hi).trans (congrFun hconns i)
  refine ⟨hsame.accepted, ?_, fun i hi => ⟨?_, ?_⟩⟩
  · rw [hsame.fd, hnew]
  · rw [hsame.fd, hold i hi]
  · rw [hsame.loop, hold i hi]

end

/-! ## What `close()` does -/

section

variable {s : TcpServer}

/-- The state of one connection, and nothing else of any. -/
theorem closeFd_conns (s : TcpServer) (id i : Nat) :
    ((s.closeFd id).conns i).fd = (s.conns i).fd ∧
      ((s.closeFd id).conns i).loop = (s.conns i).loop ∧
      ((s.closeFd id).conns i).state =
        if i = id then .kDisconnected else (s.conns i).state := by
  rw [closeFd]
  split
  · next hclosed =>
      refine ⟨rfl, rfl, ?_⟩
      split
      · next heq => rw [heq, hclosed]
      · rfl
  · show ((if i = id then _ else s.conns i : ServerConn)).fd = _ ∧
      ((if i = id then _ else s.conns i : ServerConn)).loop = _ ∧
      ((if i = id then _ else s.conns i : ServerConn)).state = _
    by_cases heq : i = id
    · rw [if_pos heq, if_pos heq, heq]
      exact ⟨rfl, rfl, rfl⟩
    · rw [if_neg heq, if_neg heq]
      exact ⟨rfl, rfl, rfl⟩

theorem closeFd_rest (s : TcpServer) (id : Nat) :
    (s.closeFd id).numThreads = s.numThreads ∧
      (s.closeFd id).accepted = s.accepted ∧
      (s.closeFd id).connections = s.connections := by
  rw [closeFd]
  split
  · exact ⟨rfl, rfl, rfl⟩
  · exact ⟨rfl, rfl, rfl⟩

/-- On a sub-loop the table is left to the main loop. -/
theorem close_queued {id : Nat} (hloop : (s.conns id).loop ≠ 0) :
    (s.close id).numThreads = s.numThreads ∧
      (s.close id).connections = s.connections ∧
      ∀ i, ((s.close id).conns i).loop = (s.conns i).loop := by
  obtain ⟨hthreads, -, hconnections⟩ := closeFd_rest s id
  have hconns := closeFd_conns s id
  rw [close]
  split
  · exact ⟨rfl, rfl, fun _ => rfl⟩
  · simp only [closeCallback, (hconns id).2.1, hloop, if_false, queueInLoop]
    exact ⟨hthreads, hconnections, fun i => (hconns i).2.1⟩

/-- `close()` of a connection that is in the table takes it off, and closes
no other. -/
theorem close_single {id : Nat} (hloop : (s.conns id).loop = 0)
    (htable : s.connections (s.conns id).fd = some id)
    (hopen : (s.conns id).state ≠ .kDisconnected) :
    (s.close id).numThreads = s.numThreads ∧
      (s.close id).accepted = s.accepted ∧
      (∀ i, ((s.close id).conns i).fd = (s.conns i).fd ∧
        ((s.close id).conns i).loop = (s.conns i).loop ∧
        ((s.close id).conns i).state =
          if i = id then .kDisconnected else (s.conns i).state) ∧
      ∀ k, (s.close id).connections k =
        if k = (s.conns id).fd then none else s.connections k := by
  obtain ⟨hthreads, haccepted, hconnections⟩ := closeFd_rest s id
  have hconns := closeFd_conns s id
  have hentry : (s.closeFd id).connections ((s.closeFd id).conns id).fd =
      some id := by rw [hconnections, (hconns id).1, htable]
  rw [close, if_neg hopen]
  simp only [closeCallback, (hconns id).2.1, hloop, if_true,
    removeConnectionInLoop, hentry, ne_eq, not_true, if_false,
    connectionCallback]
  split
  · refine ⟨hthreads, haccepted, hconns, fun k => ?_⟩
    rw [(hconns id).1, hconnections]
  · refine ⟨hthreads, haccepted, hconns, fun k => ?_⟩
    rw [(hconns id).1, hconnections]

/-- A connection that is accepted on the main loop is announced at once. -/
theorem handleAccept_single (h : s.numThreads = 0) (fd : Nat) :
    (s.handleAccept fd).numThreads = 0 ∧
      (s.handleAccept fd).accepted = s.accepted + 1 ∧
      (∀ k, (s.handleAccept fd).connections k =
        if k = fd then some s.accepted else s.connections k) ∧
      ∀ i, (s.handleAccept fd).conns i =
        if i = s.accepted then { fd := fd, known := true } else s.conns i := by
  have hnext : s.nextLoop = (0, s) := if_pos h
  rw [handleAccept, hnext]
  simp only [if_true, establish, connectionCallback]
  split
  · refine ⟨h, rfl, fun _ => rfl, fun i => ?_⟩
    simp only [setConn]
    split
    · rfl
    · rfl
  · refine ⟨h, rfl, fun _ => rfl, fun i => ?_⟩
    simp only [setConn]
    split
    · rfl
    · rfl

end

end TcpServer

end GameFrame
