import GameFrame.Net.Session
import GameFrame.Proofs.ConnectionLoops

/-!
# A batch is a call

One batch of reads is over when there is nothing more for now or nothing more
at all, and then the callback is called once, on a buffer that has the batch
behind what it had before (`handleRead_batch`). An error is the exception: the
connection is closed, and what the batch had read is not looked at.
-/

namespace GameFrame.Session

variable {σ : Type _} {onMessage : Callback σ}

/-- The bytes that wait for the callback. -/
def input (s : Session σ) : List UInt8 := s.conn.inputBuffer.readable

/-- The session when the callback is called, if it is. -/
structure Read (s : Session σ) (reads : List ReadRes) (t : Session σ) :
    Prop where
  own : t.own = s.own
  state : t.conn.state = s.conn.state
  messageCb : t.conn.messageCb = s.conn.messageCb
  input : t.input = s.input ++ readBytes reads

/-- Every batch is followed by a call, and only the last can be the last of
the stream. -/
def Answered : List (List ReadRes) → Prop
  | [] => True
  | [reads] => readStop reads ≠ some .fatal
  | reads :: batches => readStop reads = some .eagain ∧ Answered batches

theorem Answered.head {reads : List ReadRes} {batches : List (List ReadRes)}
    (h : Answered (reads :: batches)) : readStop reads ≠ some .fatal := by
  cases batches with
  | nil => exact h
  | cons next batches =>
      rw [h.1]
      simp

theorem Answered.tail {reads : List ReadRes} {batches : List (List ReadRes)}
    (h : Answered (reads :: batches)) : Answered batches := by
  cases batches with
  | nil => trivial
  | cons next batches => exact h.2

theorem answered_of_eagain {batches : List (List ReadRes)}
    (h : ∀ reads ∈ batches, readStop reads = some .eagain) :
    Answered batches := by
  induction batches with
  | nil => trivial
  | cons reads batches ih =>
      have hreads := h reads List.mem_cons_self
      cases batches with
      | nil =>
          show readStop reads ≠ some .fatal
          rw [hreads]
          simp
      | cons next batches =>
          exact ⟨hreads, ih fun rs hrs => h rs (List.mem_cons_of_mem _ hrs)⟩

/-- Behind the end of the stream there is no other batch. -/
theorem Answered.last {reads : List ReadRes} {batches : List (List ReadRes)}
    (h : Answered (reads :: batches)) (hne : batches ≠ []) :
    readStop reads = some .eagain := by
  cases batches with
  | nil => exact absurd rfl hne
  | cons next batches => exact h.1

/-- What was read is delivered, if there is anything, and a connection at the
end of its stream is closed behind that. -/
theorem handleRead_batch {s s' : Session σ} {reads : List ReadRes}
    (hcb : s.conn.messageCb = true) (hstop : readStop reads ≠ some .fatal)
    (h : handleRead onMessage s reads = some s') :
    ∃ t u, s.Read reads t ∧
      (t.input ≠ [] ∧ onMessage t = some u ∨ t.input = [] ∧ u = t) ∧
      (readStop reads = some .eagain ∧ s' = u ∨
        readStop reads = some .eof ∧ s' = u.close) := by
  have hdeliver : ∀ {c : Connection} {fresh : List UInt8} {e : ReadEnd}
      {u : Session σ}, s.conn.readLoop [] reads = some (c, fresh, e) →
      deliver onMessage { s with conn := c } fresh = some u →
      ∃ t, s.Read reads t ∧
        (t.input ≠ [] ∧ onMessage t = some u ∨ t.input = [] ∧ u = t) := by
    intro c fresh e u hloop hu
    have hread : ∀ log, s.Read reads
        { s with conn := { c with log := log } } := by
      obtain ⟨hbuf, -⟩ := Connection.readLoop_bytes hloop
      obtain ⟨n, b, rfl, -⟩ := Connection.readLoop_spec hloop
      exact fun log => ⟨rfl, rfl, rfl, hbuf⟩
    have hset := (hread c.log).messageCb.trans hcb
    rw [deliver, hset, Bool.true_and] at hu
    split at hu
    · next hsee =>
        refine ⟨_, hread _, .inl ⟨?_, hu⟩⟩
        intro hnil
        have hzero : c.inputBuffer.readableBytes = 0 := by
          rw [← Buffer.readable_length]
          exact List.length_eq_zero_iff.mpr hnil
        simp [hzero] at hsee
    · next hsee =>
        cases hu
        refine ⟨_, hread c.log, .inr ⟨?_, rfl⟩⟩
        refine List.length_eq_zero_iff.mp ?_
        show c.inputBuffer.readable.length = 0
        rw [Buffer.readable_length]
        simpa using hsee
  rw [handleRead] at h
  split at h
  · cases h
  · next hloop =>
      obtain ⟨u, hu, rfl⟩ := Option.map_eq_some_iff.mp h
      obtain ⟨t, hread, hcall⟩ := hdeliver hloop hu
      obtain ⟨n, b, -, he⟩ := Connection.readLoop_spec hloop
      exact ⟨t, u, hread, hcall, .inr ⟨he, rfl⟩⟩
  · next hloop =>
      obtain ⟨n, b, -, he⟩ := Connection.readLoop_spec hloop
      exact absurd he hstop
  · next hloop =>
      obtain ⟨t, hread, hcall⟩ := hdeliver hloop h
      obtain ⟨n, b, -, he⟩ := Connection.readLoop_spec hloop
      exact ⟨t, s', hread, hcall, .inl ⟨he, rfl⟩⟩

/-- After an error nobody is called. -/
theorem handleRead_fatal {s s' : Session σ} {reads : List ReadRes}
    (hstop : readStop reads = some .fatal)
    (h : handleRead onMessage s reads = some s') :
    s'.own = s.own ∧ s'.conn.state = .kDisconnected := by
  cases hloop : s.conn.readLoop [] reads with
  | none => simp [handleRead, hloop] at h
  | some out =>
      obtain ⟨c, fresh, e⟩ := out
      obtain ⟨n, b, -, he⟩ := Connection.readLoop_spec hloop
      obtain rfl : e = .fatal := Option.some.inj (he.symm.trans hstop)
      rw [handleRead, hloop] at h
      cases h
      exact ⟨rfl, Connection.close_state c⟩

/-- What a call of the callback can do to what the server keeps, a batch can
do, or nothing. -/
theorem handleRead_own {R : σ → σ → Prop} (hrefl : ∀ own, R own own)
    (hcall : ∀ {t u : Session σ}, onMessage t = some u → R t.own u.own)
    {s s' : Session σ} {reads : List ReadRes}
    (h : handleRead onMessage s reads = some s') : R s.own s'.own := by
  have hdeliver : ∀ {c : Connection} {fresh : List UInt8} {u : Session σ},
      deliver onMessage { s with conn := c } fresh = some u →
      R s.own u.own := by
    intro c fresh u hu
    rw [deliver] at hu
    split at hu
    · have hown := hcall hu
      exact hown
    · cases hu
      exact hrefl s.own
  rw [handleRead] at h
  split at h
  · cases h
  · obtain ⟨u, hu, rfl⟩ := Option.map_eq_some_iff.mp h
    have hown := hdeliver hu
    exact hown
  · cases h
    exact hrefl s.own
  · exact hdeliver h

end GameFrame.Session
