import GameFrame.Net.Connection

/-!
# What the functions of a connection do

Three loops, one that reads and two that write, and for each the one thing
everybody needs to know about it. They touch one buffer and the log. Where
they stop is written in their script: it is the answer that is not data and
not an interruption, if there is one (`readStop`, `writeStop`). For the two
that write, the bytes accepted and the bytes left are the bytes there were,
in that order.
-/

namespace GameFrame

/-- The answer a loop of reads ends at. -/
def readStop : List ReadRes → Option ReadEnd
  | [] => none
  | .stop e :: _ => some e
  | .data _ :: rs | .eintr :: rs => readStop rs

/-- The bytes a loop of reads gets. -/
def readBytes : List ReadRes → List UInt8
  | [] => []
  | .data bytes :: rs => bytes ++ readBytes rs
  | .eintr :: rs | .stop _ :: rs => readBytes rs

/-- Whatever the peer sends can be read, if only byte by byte. -/
def byteReads (data : List UInt8) : List ReadRes :=
  data.map (fun byte => ReadRes.data [byte]) ++ [ReadRes.stop .eagain]

theorem readBytes_byteReads (data : List UInt8) :
    readBytes (byteReads data) = data := by
  induction data with
  | nil => rfl
  | cons byte data ih => exact congrArg (byte :: ·) ih

theorem readStop_byteReads (data : List UInt8) :
    readStop (byteReads data) = some .eagain := by
  induction data with
  | nil => rfl
  | cons byte data ih => exact ih

/-- The answer a loop of writes ends at, if it does not run out of data. -/
def writeStop : List WriteRes → Option WriteEnd
  | [] => none
  | .stop e :: _ => some e
  | .accepted _ :: ws | .eintr :: ws => writeStop ws

namespace Connection

@[simp] theorem note_outputBuffer (c : Connection) (e : Ev) :
    (c.note e).outputBuffer = c.outputBuffer := rfl

@[simp] theorem note_log (c : Connection) (e : Ev) :
    (c.note e).log = c.log ++ [e] := rfl

theorem sendLoop_spec {ws : List WriteRes} : ∀ {c c' : Connection}
    {rem rem' : List UInt8} {e : Option WriteEnd},
    c.sendLoop rem ws = some (c', rem', e) →
    ∃ chunks : List (List UInt8),
      c' = { c with log := c.log ++ chunks.map Ev.write } ∧
      chunks.flatten ++ rem' = rem ∧ e = writeStop ws ∧
      (rem' = [] ↔ e = none) := by
  induction ws with
  | nil =>
      intro c c' rem rem' e h
      rw [sendLoop] at h
      split at h
      · next hrem =>
          cases h
          exact ⟨[], by rw [List.map_nil, List.append_nil], rfl, rfl,
            ⟨fun _ => rfl, fun _ => hrem⟩⟩
      · cases h
  | cons w ws ih =>
      intro c c' rem rem' e h
      cases w <;> rw [sendLoop] at h <;> split at h <;> try cases h
      case accepted.isFalse n hrem =>
          split at h
          · obtain ⟨chunks, rfl, hbytes, he, hiff⟩ := ih h
            refine ⟨rem.take n :: chunks, ?_, ?_, he, hiff⟩
            · simp only [note, List.map_cons, List.append_assoc,
                List.singleton_append]
            · rw [List.flatten_cons, List.append_assoc, hbytes,
                List.take_append_drop]
          · cases h
      case eintr.isFalse hrem =>
          obtain ⟨chunks, rfl, hbytes, he, hiff⟩ := ih h
          refine ⟨[] :: chunks, ?_, hbytes, he, hiff⟩
          simp only [note, List.map_cons, List.append_assoc,
            List.singleton_append]
      case stop.isFalse e hrem =>
          split at h
          · cases h
            exact ⟨[[]], rfl, rfl, rfl, ⟨fun h => absurd h hrem, nofun⟩⟩
          · cases h

theorem drainLoop_spec {ws : List WriteRes} : ∀ {c c' : Connection}
    {e : Option WriteEnd}, c.drainLoop ws = some (c', e) →
    ∃ (chunks : List (List UInt8)) (b : Buffer),
      c' = { c with
        outputBuffer := b, log := c.log ++ chunks.map Ev.write } ∧
      chunks.flatten ++ b.readable = c.outputBuffer.readable ∧
      e = writeStop ws ∧ (b.readable = [] ↔ e = none) := by
  induction ws with
  | nil =>
      intro c c' e h
      rw [drainLoop] at h
      split at h
      · next hempty =>
          cases h
          have hnil := (Buffer.empty_eq_true _).mp hempty
          exact ⟨[], _, by rw [List.map_nil, List.append_nil], rfl, rfl,
            ⟨fun _ => rfl, fun _ => hnil⟩⟩
      · cases h
  | cons w ws ih =>
      intro c c' e h
      cases w <;> rw [drainLoop] at h <;> split at h <;> try cases h
      case accepted.isFalse n hempty =>
          split at h
          · obtain ⟨chunks, b, rfl, hbytes, he, hiff⟩ := ih h
            refine ⟨c.outputBuffer.readable.take n :: chunks, b, ?_, ?_,
              he, hiff⟩
            · simp only [note, List.map_cons, List.append_assoc,
                List.singleton_append]
            · rw [List.flatten_cons, List.append_assoc, hbytes,
                Buffer.readable_retrieve, List.take_append_drop]
          · cases h
      case eintr.isFalse hempty =>
          obtain ⟨chunks, b, rfl, hbytes, he, hiff⟩ := ih h
          refine ⟨[] :: chunks, b, ?_, hbytes, he, hiff⟩
          simp only [note, List.map_cons, List.append_assoc,
            List.singleton_append]
      case stop.isFalse e hempty =>
          split at h
          · cases h
            have hne : c.outputBuffer.readable ≠ [] := fun hnil =>
              hempty ((Buffer.empty_eq_true _).mpr hnil)
            exact ⟨[[]], _, rfl, rfl, rfl, ⟨fun h => absurd h hne, nofun⟩⟩
          · cases h

theorem readLoop_spec {rs : List ReadRes} : ∀ {c c' : Connection}
    {fresh fresh' : List UInt8} {e : ReadEnd},
    c.readLoop fresh rs = some (c', fresh', e) →
    ∃ (n : Nat) (b : Buffer),
      c' = { c with
        inputBuffer := b, log := c.log ++ List.replicate n Ev.read } ∧
      readStop rs = some e := by
  induction rs with
  | nil => intro c c' fresh fresh' e h; cases h
  | cons r rs ih =>
      intro c c' fresh fresh' e h
      cases r with
      | data bytes =>
          rw [readLoop] at h
          split at h
          · obtain ⟨n, b, rfl, he⟩ := ih h
            refine ⟨n + 1, b, ?_, he⟩
            simp only [note, List.replicate_succ, List.append_assoc,
              List.singleton_append]
          · cases h
      | eintr =>
          obtain ⟨n, b, rfl, he⟩ := ih h
          refine ⟨n + 1, b, ?_, he⟩
          simp only [note, List.replicate_succ, List.append_assoc,
            List.singleton_append]
      | stop e =>
          rw [readLoop] at h
          split at h
          · cases h
            exact ⟨1, _, rfl, rfl⟩
          · cases h

/-- All that was read goes behind what was there. -/
theorem readLoop_bytes {rs : List ReadRes} : ∀ {c c' : Connection}
    {fresh fresh' : List UInt8} {e : ReadEnd},
    c.readLoop fresh rs = some (c', fresh', e) →
    c'.inputBuffer.readable = c.inputBuffer.readable ++ readBytes rs ∧
      fresh' = fresh ++ readBytes rs := by
  induction rs with
  | nil => intro c c' fresh fresh' e h; cases h
  | cons r rs ih =>
      intro c c' fresh fresh' e h
      cases r with
      | data bytes =>
          rw [readLoop] at h
          split at h
          · obtain ⟨hbuf, hfresh⟩ := ih h
            rw [hbuf, hfresh, readBytes]
            simp
          · cases h
      | eintr =>
          obtain ⟨hbuf, hfresh⟩ := ih h
          rw [hbuf, hfresh, readBytes]
          simp
      | stop e =>
          rw [readLoop] at h
          split at h
          · next hnil =>
              cases h
              rw [hnil, readBytes, readBytes]
              simp
          · cases h

theorem readLoop_byteReads (c : Connection) (fresh data : List UInt8) :
    ∃ c' fresh', c.readLoop fresh (byteReads data) =
      some (c', fresh', .eagain) := by
  induction data generalizing c fresh with
  | nil => exact ⟨_, _, rfl⟩
  | cons byte data ih =>
      have hroom := c.inputBuffer.le_writableBytes_ensureWritable 4096
      have hfits : 0 < [byte].length ∧ [byte].length ≤
          (c.inputBuffer.ensureWritable 4096).writableBytes := by
        rw [List.length_singleton]
        omega
      rw [byteReads, List.map_cons, List.cons_append, readLoop]
      rw [dif_pos hfits]
      exact ih _ _

/-! ## `send`

Four things can happen to a call: it is ignored, its data goes behind what is
buffered already, the socket fails under it, or the socket takes some of it
and the rest is buffered. -/

/-- The log of a call that got as far as writing. -/
def wrote (c : Connection) (data : List UInt8) (chunks : List (List UInt8)) :
    Connection :=
  { c with log := c.log ++ .sendCall c.state data :: chunks.map Ev.write }

inductive Sent (c : Connection) (data : List UInt8)
    (writes : List WriteRes) : Connection → Prop where
  | ignored : c.state ≠ .kConnected ∨ data = [] →
      Sent c data writes (c.note (.sendCall c.state data))
  | behind : c.state = .kConnected → data ≠ [] →
      c.outputBuffer.readable ≠ [] →
      Sent c data writes ((c.wrote data []).sendRest data)
  | failed (chunks : List (List UInt8)) : c.state = .kConnected →
      data ≠ [] → c.outputBuffer.readable = [] →
      writeStop writes = some .fatal →
      Sent c data writes (c.wrote data chunks).close
  | taken (chunks : List (List UInt8)) (rem : List UInt8) :
      c.state = .kConnected → data ≠ [] → c.outputBuffer.readable = [] →
      chunks.flatten ++ rem = data →
      (rem = [] ∧ writeStop writes = none ∨
        rem ≠ [] ∧ writeStop writes = some .eagain) →
      Sent c data writes ((c.wrote data chunks).sendRest rem)

theorem send_sent {c c' : Connection} {data : List UInt8}
    {writes : List WriteRes} (h : c.send data writes = some c') :
    Sent c data writes c' := by
  rw [send] at h
  split at h
  · next hskip =>
      split at h
      · cases h
        exact .ignored hskip
      · cases h
  · next hskip =>
      have hstate : c.state = .kConnected :=
        Decidable.of_not_not fun hne => hskip (.inl hne)
      have hdata : data ≠ [] := fun hnil => hskip (.inr hnil)
      split at h
      · next hempty =>
          have hnil := (Buffer.empty_eq_true _).mp hempty
          split at h
          · next hloop =>
              obtain ⟨chunks, rfl, hbytes, he, -⟩ := sendLoop_spec hloop
              cases h
              have := Sent.failed chunks hstate hdata hnil he.symm
              rwa [wrote, ← List.singleton_append, ← List.append_assoc] at this
          · next rem e hfatal hloop =>
              obtain ⟨chunks, rfl, hbytes, he, hiff⟩ := sendLoop_spec hloop
              cases h
              have hrem : rem = [] ∧ writeStop writes = none ∨
                  rem ≠ [] ∧ writeStop writes = some .eagain := by
                rw [← he]
                rcases e with _ | _ | _
                · exact .inl ⟨hiff.mpr rfl, rfl⟩
                · exact (hfatal rfl).elim
                · exact .inr ⟨fun hnil => Option.some_ne_none _ (hiff.mp hnil),
                    rfl⟩
              have := Sent.taken chunks rem hstate hdata hnil hbytes hrem
              rwa [wrote, ← List.singleton_append, ← List.append_assoc] at this
          · cases h
      · next hempty =>
          split at h
          · cases h
            refine .behind hstate hdata fun hnil => ?_
            exact hempty ((Buffer.empty_eq_true _).mpr hnil)
          · cases h

/-- Buffering: the bytes go to the end, and the log is not touched. -/
theorem sendRest_spec (c : Connection) (rem : List UInt8) :
    (c.sendRest rem).state = c.state ∧ (c.sendRest rem).log = c.log ∧
      (c.sendRest rem).shutdownPending = c.shutdownPending ∧
      (c.sendRest rem).outputBuffer.readable =
        c.outputBuffer.readable ++ rem ∧
      ((c.sendRest rem).pending = c.pending ∨
        (c.sendRest rem).pending =
          c.pending ++ [ConnFunctor.highWaterMark]) := by
  rw [sendRest]
  split
  · next hnil => exact ⟨rfl, rfl, rfl, by rw [hnil, List.append_nil], .inl rfl⟩
  · have happend := Buffer.readable_append c.outputBuffer rem
    dsimp only
    repeat' split
    · exact ⟨rfl, rfl, rfl, happend, .inr rfl⟩
    · exact ⟨rfl, rfl, rfl, happend, .inr rfl⟩
    · exact ⟨rfl, rfl, rfl, happend, .inl rfl⟩
    · exact ⟨rfl, rfl, rfl, happend, .inl rfl⟩

/-! ## `close` and the end of `handle_write` -/

@[simp] theorem close_state (c : Connection) :
    c.close.state = .kDisconnected := by
  rw [close]
  split
  · next h => exact h
  · dsimp only; split <;> rfl

@[simp] theorem close_outputBuffer (c : Connection) :
    c.close.outputBuffer = c.outputBuffer := by
  rw [close]
  split
  · rfl
  · dsimp only; split <;> rfl

theorem close_log {c : Connection} (h : c.state ≠ .kDisconnected) :
    c.close.log =
      c.log ++ Ev.closeFd :: if c.closeCb then [Ev.closeCb] else [] := by
  rw [close, if_neg h]
  dsimp only
  split
  · next hcb => simp [note]
  · rfl

@[simp] theorem stopWriting_state (c : Connection) :
    c.stopWriting.state = c.state := by
  rw [stopWriting]; split <;> rfl

@[simp] theorem stopWriting_outputBuffer (c : Connection) :
    c.stopWriting.outputBuffer = c.outputBuffer := by
  rw [stopWriting]; split <;> rfl

@[simp] theorem halfClose_state (c : Connection) :
    c.halfClose.state = c.state := by
  rw [halfClose]; split <;> rfl

@[simp] theorem notifyWritten_state (c : Connection) :
    c.notifyWritten.state = c.state := by
  rw [notifyWritten]; split <;> rfl

theorem halfClose_spec (c : Connection) :
    c.halfClose.channel = c.channel ∧
      c.halfClose.outputBuffer = c.outputBuffer ∧
      c.halfClose.shutdownPending = false := by
  rw [halfClose]
  split
  · exact ⟨rfl, rfl, rfl⟩
  · next hpending => exact ⟨rfl, rfl, by simpa using hpending⟩

@[simp] theorem notifyWritten_outputBuffer (c : Connection) :
    c.notifyWritten.outputBuffer = c.outputBuffer := by
  rw [notifyWritten]; split <;> rfl

/-! ## `handle_read` and `handle_write`

The loop of reads has nothing more for now, or the stream is at its end, or
there was an error. The buffer that is to be written is empty already, or the
socket is full, or it fails, or it takes all of it. -/

/-- Behind the loop of reads. -/
def heard (c : Connection) (n : Nat) (b : Buffer) : Connection :=
  { c with inputBuffer := b, log := c.log ++ List.replicate n Ev.read }

inductive Heard (c : Connection) (reads : List ReadRes) (cb : List UserOp) :
    Connection → Prop where
  | more (n : Nat) (b : Buffer) (fresh : List UInt8) (c' : Connection) :
      readStop reads = some .eagain →
      (c.heard n b).deliver fresh cb = some c' → Heard c reads cb c'
  | ended (n : Nat) (b : Buffer) (fresh : List UInt8) (c' : Connection) :
      readStop reads = some .eof →
      (c.heard n b).deliver fresh cb = some c' → Heard c reads cb c'.close
  | failed (n : Nat) (b : Buffer) : readStop reads = some .fatal → cb = [] →
      Heard c reads cb (c.heard n b).close

theorem handleRead_heard {c c' : Connection} {reads : List ReadRes}
    {cb : List UserOp} (h : c.handleRead reads cb = some c') :
    Heard c reads cb c' := by
  rw [handleRead] at h
  split at h
  · cases h
  · next hloop =>
      obtain ⟨n, b, rfl, hstop⟩ := readLoop_spec hloop
      obtain ⟨c₂, hdeliver, rfl⟩ := Option.map_eq_some_iff.mp h
      exact .ended n b _ c₂ hstop hdeliver
  · next hloop =>
      obtain ⟨n, b, rfl, hstop⟩ := readLoop_spec hloop
      split at h
      · next hcb =>
          cases h
          exact .failed n b hstop hcb
      · cases h
  · next hloop =>
      obtain ⟨n, b, rfl, hstop⟩ := readLoop_spec hloop
      exact .more n b _ c' hstop h

/-- Behind the loop of writes. -/
def flushed (c : Connection) (chunks : List (List UInt8)) (b : Buffer) :
    Connection :=
  { c with outputBuffer := b, log := c.log ++ chunks.map Ev.write }

inductive Flushed (c : Connection) (writes : List WriteRes) :
    Connection → Prop where
  | idle : c.outputBuffer.readable = [] → writes = [] →
      Flushed c writes c.stopWriting
  | full (chunks : List (List UInt8)) (b : Buffer) :
      c.outputBuffer.readable ≠ [] →
      chunks.flatten ++ b.readable = c.outputBuffer.readable →
      b.readable ≠ [] → writeStop writes = some .eagain →
      Flushed c writes (c.flushed chunks b)
  | failed (chunks : List (List UInt8)) (b : Buffer) :
      c.outputBuffer.readable ≠ [] → writeStop writes = some .fatal →
      Flushed c writes (c.flushed chunks b).close
  | taken (chunks : List (List UInt8)) (b : Buffer) :
      c.outputBuffer.readable ≠ [] →
      chunks.flatten ++ b.readable = c.outputBuffer.readable →
      b.readable = [] → writeStop writes = none →
      Flushed c writes
        (c.flushed chunks b).stopWriting.halfClose.notifyWritten

theorem handleWrite_flushed {c c' : Connection} {writes : List WriteRes}
    (h : c.handleWrite writes = some c') : Flushed c writes c' := by
  rw [handleWrite] at h
  split at h
  · next hempty =>
      split at h
      · next hwrites =>
          cases h
          exact .idle ((Buffer.empty_eq_true _).mp hempty) hwrites
      · cases h
  · next hempty =>
      have hne : c.outputBuffer.readable ≠ [] := fun hnil =>
        hempty ((Buffer.empty_eq_true _).mpr hnil)
      split at h
      · cases h
      · next hloop =>
          obtain ⟨chunks, b, rfl, hbytes, hstop, hiff⟩ := drainLoop_spec hloop
          cases h
          refine .full chunks b hne hbytes (fun hnil => ?_) hstop.symm
          cases hiff.mp hnil
      · next hloop =>
          obtain ⟨chunks, b, rfl, -, hstop, -⟩ := drainLoop_spec hloop
          cases h
          exact .failed chunks b hne hstop.symm
      · next hloop =>
          obtain ⟨chunks, b, rfl, hbytes, hstop, hiff⟩ := drainLoop_spec hloop
          cases h
          exact .taken chunks b hne hbytes (hiff.mpr rfl) hstop.symm

/-- What each call of a script preserves, the script preserves. -/
theorem userOps_preserves {P : Connection → Prop}
    (hop : ∀ {c o c'}, P c → c.userOp o = some c' → P c')
    {c c' : Connection} {ops : List UserOp} (hc : P c)
    (h : c.userOps ops = some c') : P c' := by
  have hrun : Machine.run userOp c ops = some c' := h
  exact Machine.run_preserves hop hc hrun

theorem userOps_cons {c c' : Connection} {o : UserOp} {ops : List UserOp} :
    c.userOps (o :: ops) = some c' ↔
      ∃ c₁, c.userOp o = some c₁ ∧ c₁.userOps ops = some c' := by
  rw [userOps, List.foldlM_cons]
  exact Option.bind_eq_some_iff

end Connection

end GameFrame
