import GameFrame.LogServer.LogFile
import GameFrame.LogServer.LogServer

/-!
# `log_server` with all of its connections

`log_server/main.cpp`. One loop and one `LogFile`, which every message callback
writes to. The loop does one thing at a time, so what one batch of one
connection brings is written before anything else is. `main` makes the `LogFile`
first, and it is destroyed last, behind the connections.

Connections are numbered in the order they are accepted in, over all the
processes that run one after the other on the same directory. What was read from
each, and what was passed to `append_line`, is kept here for the proofs.
-/

namespace GameFrame

/-- What an `append_line` comes upon: the time, and three looks at the day. -/
structure Stamp where
  now : LocalTime
  first : LogFile.Call
  second : LogFile.Call
  third : LogFile.Call
  deriving DecidableEq, Repr

/-- A call of `append_line`, and for which connection. -/
structure LogEntry where
  conn : Nat
  now : LocalTime
  payload : List UInt8
  deriving DecidableEq, Repr

structure LogCollector where
  store : LogDir
  peers : Nat → LogServer.Peer := fun _ => LogServer.newPeer
  count : Nat := 0
  heard : Nat → List (List ReadRes) := fun _ => []
  entries : List LogEntry := []

namespace LogCollector

open LogServer (Peer newPeer)

def new (config : LogConfig) : LogCollector := { store := .new config }

inductive Label where
  /-- `main` begins -/
  | construct (c : LogFile.Call)
  | accept
  /-- one batch of `handle_read`, and its message callback -/
  | batch (k : Nat) (reads : List ReadRes) (stamps : List Stamp)
  | flush (res : FlushRes := .ok)
  /-- `main` returns -/
  | exit (res : CloseRes := {})
  deriving Repr

/-- The loop over `msgs`. -/
def writes (msgs : List (List UInt8)) (stamps : List Stamp) :
    List LogDir.Label :=
  List.zipWith (fun msg s =>
    .appendLine s.now msg s.first s.second s.third) msgs stamps

/-- A batch of connection `k` that leaves it as `s`. -/
def heardFrom (c : LogCollector) (k : Nat) (reads : List ReadRes)
    (stamps : List Stamp) (s : Peer) : LogCollector :=
  { c with
    peers := fun i => if i = k then s else c.peers i
    heard := fun i => if i = k then c.heard i ++ [reads] else c.heard i
    entries := c.entries ++ List.zipWith (fun msg s => ⟨k, s.now, msg⟩)
      (s.own.drop (c.peers k).own.length) stamps }

/-- What is done to the connections, and what is to be done to the log. -/
def turn (c : LogCollector) :
    Label → Option (LogCollector × List LogDir.Label)
  | .construct call => some (c, [.construct call])
  | .accept =>
      if c.store.file.isSome then
        some
          ({ c with
              peers := fun i => if i = c.count then newPeer else c.peers i
              count := c.count + 1 }, [])
      else none
  | .batch k reads stamps =>
      if k < c.count ∧ (c.peers k).conn.state ≠ .kDisconnected then
        match LogServer.receive (c.peers k) reads with
        | none => none
        | some s =>
            let msgs := s.own.drop (c.peers k).own.length
            if stamps.length = msgs.length then
              some (c.heardFrom k reads stamps s, writes msgs stamps)
            else none
      else none
  | .flush res => some (c, [.flush res])
  | .exit res =>
      some
        ({ c with peers := fun i => Session.close (c.peers i) }, [.destroy res])

def step (c : LogCollector) (l : Label) : Option LogCollector :=
  match c.turn l with
  | none => none
  | some (d, ls) =>
      (Machine.run LogDir.step c.store ls).map fun store =>
        { d with store := store }

inductive Stepped (c : LogCollector) : Label → LogCollector → Prop where
  | construct (call : LogFile.Call) (store : LogDir) :
      c.store.step (.construct call) = some store →
      Stepped c (.construct call) { c with store := store }
  | accept : c.store.file.isSome = true →
      Stepped c .accept
        { c with
          peers := fun i => if i = c.count then newPeer else c.peers i
          count := c.count + 1 }
  | batch (k : Nat) (reads : List ReadRes) (stamps : List Stamp) (s : Peer)
      (msgs : List (List UInt8)) (store : LogDir) : k < c.count →
      (c.peers k).conn.state ≠ .kDisconnected →
      LogServer.receive (c.peers k) reads = some s →
      s.own.drop (c.peers k).own.length = msgs →
      stamps.length = msgs.length →
      Machine.run LogDir.step c.store (writes msgs stamps) = some store →
      Stepped c (.batch k reads stamps)
        { c.heardFrom k reads stamps s with store := store }
  | flush (res : FlushRes) (store : LogDir) :
      c.store.step (.flush res) = some store →
      Stepped c (.flush res) { c with store := store }
  | exit (res : CloseRes) (store : LogDir) :
      c.store.step (.destroy res) = some store →
      Stepped c (.exit res)
        { c with
          peers := fun i => Session.close (c.peers i), store := store }

theorem step_stepped {c d : LogCollector} {l : Label} (h : c.step l = some d) :
    Stepped c l d := by
  have hone : ∀ {m : LogDir.Label} {e : LogCollector},
      (Machine.run LogDir.step c.store [m]).map
        (fun store => { e with store := store }) = some d →
      ∃ store, c.store.step m = some store ∧ d = { e with store := store } := by
    intro m e h
    obtain ⟨store, hrun, rfl⟩ := Option.map_eq_some_iff.mp h
    obtain ⟨store', hstep, hnil⟩ := Machine.run_cons_some.mp hrun
    obtain rfl : store' = store := by simpa using hnil
    exact ⟨store', hstep, rfl⟩
  rw [step] at h
  cases l with
  | construct call =>
      obtain ⟨store, hstore, rfl⟩ := hone h
      exact .construct call store hstore
  | accept =>
      rw [turn] at h
      by_cases hsome : c.store.file.isSome = true
      · rw [if_pos hsome] at h
        cases h
        exact .accept hsome
      · rw [if_neg hsome] at h
        cases h
  | batch k reads stamps =>
      rw [turn] at h
      by_cases hopen : k < c.count ∧ (c.peers k).conn.state ≠ .kDisconnected
      · rw [if_pos hopen] at h
        cases hs : LogServer.receive (c.peers k) reads with
        | none =>
            rw [hs] at h
            cases h
        | some s =>
            rw [hs] at h
            by_cases hlen : stamps.length =
                (s.own.drop (c.peers k).own.length).length
            · simp only [if_pos hlen] at h
              obtain ⟨store, hrun, rfl⟩ := Option.map_eq_some_iff.mp h
              exact .batch k reads stamps s _ store hopen.1 hopen.2 hs rfl hlen
                hrun
            · simp only [if_neg hlen] at h
              cases h
      · rw [if_neg hopen] at h
        cases h
  | flush res =>
      obtain ⟨store, hstore, rfl⟩ := hone h
      exact .flush res store hstore
  | exit res =>
      obtain ⟨store, hstore, rfl⟩ := hone h
      exact .exit res store hstore

end LogCollector

end GameFrame
