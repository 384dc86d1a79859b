import GameFrame.Proofs.ConnectionLoops

/-!
# Who calls `send`

The log of a connection has every call of `send`, with the state it was made
in. A connection whose owner has set no message callback does not call itself,
whatever events it gets (`silent_handleEvent`), and a call is in the log once,
whether it was ignored, failed, buffered or written (`calls_send`).
-/

namespace GameFrame

def Ev.call : Ev → Option (ConnState × List UInt8)
  | .sendCall s data => some (s, data)
  | .read | .write _ | .shutWr | .closeFd | .message _ | .closeCb => none

namespace Connection

/-- The calls of `send`: the state each was made in, and its data. -/
def calls (c : Connection) : List (ConnState × List UInt8) :=
  c.log.filterMap Ev.call

/-- Nothing is sent from `c` to `c'`. -/
structure Silent (c c' : Connection) : Prop where
  messageCb : c'.messageCb = c.messageCb
  calls : c'.calls = c.calls

theorem Silent.refl (c : Connection) : Silent c c := ⟨rfl, rfl⟩

theorem Silent.trans {c₁ c₂ c₃ : Connection} (h : Silent c₁ c₂)
    (h' : Silent c₂ c₃) : Silent c₁ c₃ :=
  ⟨h'.messageCb.trans h.messageCb, h'.calls.trans h.calls⟩

theorem Silent.of_log {c c' : Connection} {new : List Ev}
    (hcb : c'.messageCb = c.messageCb) (hlog : c'.log = c.log ++ new)
    (hnew : ∀ e ∈ new, e.call = none) : Silent c c' := by
  refine ⟨hcb, ?_⟩
  show c'.log.filterMap Ev.call = c.log.filterMap Ev.call
  rw [hlog, List.filterMap_append, List.filterMap_eq_nil_iff.mpr hnew,
    List.append_nil]

@[simp] theorem close_messageCb (c : Connection) :
    c.close.messageCb = c.messageCb := by
  rw [close]
  split
  · rfl
  · dsimp only; split <;> rfl

@[simp] theorem close_inputBuffer (c : Connection) :
    c.close.inputBuffer = c.inputBuffer := by
  rw [close]
  split
  · rfl
  · dsimp only; split <;> rfl

theorem silent_close (c : Connection) : Silent c c.close := by
  by_cases hopen : c.state = .kDisconnected
  · rw [close, if_pos hopen]
    exact .refl c
  · refine .of_log (close_messageCb c) (close_log hopen) ?_
    split
    · simp [Ev.call]
    · simp [Ev.call]

theorem silent_shutdownInLoop (c : Connection) :
    Silent c c.shutdownInLoop := by
  rw [shutdownInLoop]
  split
  · exact .refl c
  · split
    · exact .of_log rfl (note_log c _) (by simp [Ev.call])
    · exact ⟨rfl, rfl⟩

theorem deliver_quiet {c c' : Connection} {fresh : List UInt8}
    {cb : List UserOp} (hquiet : c.messageCb = false)
    (h : c.deliver fresh cb = some c') : c' = c := by
  rw [deliver, hquiet] at h
  split at h
  · next hcb => simp at hcb
  · split at h
    · cases h
      rfl
    · cases h

/-- Without a callback nothing comes of reading but what was read. -/
theorem handleRead_quiet {c c' : Connection} {reads : List ReadRes}
    {cb : List UserOp} (hquiet : c.messageCb = false)
    (h : c.handleRead reads cb = some c') :
    ∃ n b, c' = c.heard n b ∨ c' = (c.heard n b).close := by
  have hdeliver : ∀ {n b fresh c₁},
      (c.heard n b).deliver fresh cb = some c₁ → c₁ = c.heard n b :=
    fun h => deliver_quiet (c := c.heard _ _) hquiet h
  cases handleRead_heard h with
  | more n b fresh c₁ hstop hc₁ => exact ⟨n, b, .inl (hdeliver hc₁)⟩
  | ended n b fresh c₁ hstop hc₁ =>
      rw [hdeliver hc₁]
      exact ⟨n, b, .inr rfl⟩
  | failed n b => exact ⟨n, b, .inr rfl⟩

theorem silent_handleRead {c c' : Connection} {reads : List ReadRes}
    {cb : List UserOp} (hquiet : c.messageCb = false)
    (h : c.handleRead reads cb = some c') : Silent c c' := by
  have hheard : ∀ n b, Silent c (c.heard n b) := by
    intro n b
    refine .of_log rfl rfl fun e he => ?_
    rw [(List.mem_replicate.mp he).2]
    rfl
  obtain ⟨n, b, rfl | rfl⟩ := handleRead_quiet hquiet h
  · exact hheard n b
  · exact (hheard n b).trans (silent_close _)

theorem silent_stopWriting (c : Connection) : Silent c c.stopWriting := by
  rw [stopWriting]
  split
  · exact ⟨rfl, rfl⟩
  · exact .refl c

theorem silent_halfClose (c : Connection) : Silent c c.halfClose := by
  rw [halfClose]
  split
  · exact .of_log rfl (note_log _ .shutWr) (by simp [Ev.call])
  · exact .refl c

theorem silent_notifyWritten (c : Connection) : Silent c c.notifyWritten := by
  rw [notifyWritten]
  split
  · exact ⟨rfl, rfl⟩
  · exact .refl c

theorem silent_handleWrite {c c' : Connection} {writes : List WriteRes}
    (h : c.handleWrite writes = some c') : Silent c c' := by
  have hflushed : ∀ chunks b, Silent c (c.flushed chunks b) := by
    intro chunks b
    refine .of_log rfl rfl fun e he => ?_
    obtain ⟨bytes, -, rfl⟩ := List.mem_map.mp he
    rfl
  cases handleWrite_flushed h with
  | idle => exact silent_stopWriting c
  | full chunks b => exact hflushed chunks b
  | failed chunks b => exact (hflushed chunks b).trans (silent_close _)
  | taken chunks b =>
      exact (hflushed chunks b).trans ((silent_stopWriting _).trans
        ((silent_halfClose _).trans (silent_notifyWritten _)))

theorem silent_handleEvent {c c' : Connection} {revents : UInt32}
    {d : Dispatch} (hquiet : c.messageCb = false)
    (h : c.handleEvent revents d = some c') : Silent c c' := by
  have hclose : ∀ {s s' : Connection}, Silent c s → some s.close = some s' →
      Silent c s' := by
    intro s s' hs h
    cases h
    exact hs.trans (silent_close s)
  rw [handleEvent] at h
  exact Channel.handleEvent_preserves hclose hclose
    (fun hs h => hs.trans (silent_handleRead (hs.messageCb.trans hquiet) h))
    (fun hs h => hs.trans (silent_handleWrite h)) (.refl c) h

theorem sendRest_messageCb (c : Connection) (rem : List UInt8) :
    (c.sendRest rem).messageCb = c.messageCb := by
  rw [sendRest]
  split
  · rfl
  · dsimp only
    repeat' split
    all_goals rfl

@[simp] theorem sendRest_inputBuffer (c : Connection) (rem : List UInt8) :
    (c.sendRest rem).inputBuffer = c.inputBuffer := by
  rw [sendRest]
  split
  · rfl
  · dsimp only
    repeat' split
    all_goals rfl

theorem calls_wrote (c : Connection) (data : List UInt8)
    (chunks : List (List UInt8)) :
    (c.wrote data chunks).calls = c.calls ++ [(c.state, data)] := by
  have hchunks : (chunks.map Ev.write).filterMap Ev.call = [] := by
    refine List.filterMap_eq_nil_iff.mpr fun e he => ?_
    obtain ⟨bytes, -, rfl⟩ := List.mem_map.mp he
    rfl
  simp only [calls, wrote, List.filterMap_append, List.filterMap_cons,
    Ev.call, hchunks]

/-- Whatever becomes of it, a call of `send` is one call of `send`. -/
theorem calls_send {c c' : Connection} {data : List UInt8}
    {writes : List WriteRes} (h : c.send data writes = some c') :
    c'.messageCb = c.messageCb ∧ c'.calls = c.calls ++ [(c.state, data)] := by
  have hrest : ∀ chunks rem,
      ((c.wrote data chunks).sendRest rem).messageCb = c.messageCb ∧
      ((c.wrote data chunks).sendRest rem).calls =
        c.calls ++ [(c.state, data)] := by
    intro chunks rem
    obtain ⟨-, hlog, -⟩ := sendRest_spec (c.wrote data chunks) rem
    refine ⟨sendRest_messageCb _ _, ?_⟩
    rw [← calls_wrote, calls, hlog]
    rfl
  cases send_sent h with
  | ignored => exact ⟨rfl, calls_wrote c data []⟩
  | behind => exact hrest [] data
  | failed chunks =>
      have hclose := silent_close (c.wrote data chunks)
      exact ⟨hclose.messageCb, hclose.calls.trans (calls_wrote c data chunks)⟩
  | taken chunks rem => exact hrest chunks rem

end Connection

end GameFrame
