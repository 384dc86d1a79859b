import GameFrame.Proofs.SenderLinks

/-!
# Calls of `send` in a row

`send_batch` calls `send` once for each message, and what the calls do adds
up: the bytes that are left are the bytes there were and the bytes handed in,
less those the kernel took; what is written is their beginning; and the
high-water callback is queued once at most, by the call that passes the mark.
`Passed` says this of any number of calls whose writes do not fail, and two of
these make one (`Passed.trans`).
-/

namespace GameFrame

/-- The bytes the kernel takes. -/
def acceptedBytes : List WriteRes → Nat
  | [] => 0
  | .accepted n :: ws => n + acceptedBytes ws
  | .eintr :: ws | .stop _ :: ws => acceptedBytes ws

/-- The event ends what can be written. -/
def Ev.endsWriting : Ev → Bool
  | .shutWr | .closeFd => true
  | .read | .write _ | .message _ | .sendCall _ _ | .closeCb => false

def Ev.written : Ev → List UInt8
  | .write bytes => bytes
  | .read | .shutWr | .closeFd | .message _ | .sendCall _ _ | .closeCb => []

/-- The bytes written before the write side or the descriptor is closed. -/
def writtenBytes (log : List Ev) : List UInt8 :=
  (log.takeWhile fun e => !e.endsWriting).flatMap Ev.written

namespace Connection

theorem sendLoop_accepts {ws : List WriteRes} : ∀ {c c' : Connection}
    {rem rem' : List UInt8} {e : Option WriteEnd},
    c.sendLoop rem ws = some (c', rem', e) →
    rem'.length + acceptedBytes ws = rem.length := by
  induction ws with
  | nil =>
      intro c c' rem rem' e h
      rw [sendLoop] at h
      split at h
      · cases h
        rfl
      · cases h
  | cons w ws ih =>
      intro c c' rem rem' e h
      cases w <;> rw [sendLoop] at h <;> split at h <;> try cases h
      case accepted.isFalse n hrem =>
          split at h
          · next hle =>
              have hrest := ih h
              rw [List.length_drop] at hrest
              rw [acceptedBytes]
              omega
          · cases h
      case eintr.isFalse hrem => exact ih h
      case stop.isFalse e hrem =>
          split at h
          · next hnil =>
              cases h
              rw [hnil]
              rfl
          · cases h

/-- What `sendRest` queues: the callback, if the mark is passed. -/
theorem sendRest_pending (c : Connection) (rem : List UInt8) :
    (c.sendRest rem).pending = c.pending ++
      if c.highWaterCb = true ∧
        c.outputBuffer.readable.length < c.highWaterMark ∧
        c.highWaterMark ≤ c.outputBuffer.readable.length + rem.length
      then [.highWaterMark] else [] := by
  have hlen : (c.outputBuffer.append rem).readableBytes =
      c.outputBuffer.readable.length + rem.length := by
    rw [← Buffer.readable_length, Buffer.readable_append, List.length_append]
  rw [sendRest]
  split
  · next hnil =>
      rw [if_neg, List.append_nil]
      rintro ⟨-, hlt, hle⟩
      rw [hnil, List.length_nil] at hle
      omega
  · dsimp only
    rw [hlen, ← Buffer.readable_length]
    generalize hmark : (decide (c.highWaterMark > 0) && c.highWaterCb &&
      decide (c.outputBuffer.readable.length < c.highWaterMark) &&
      decide (c.outputBuffer.readable.length + rem.length ≥
        c.highWaterMark)) = mark
    have hiff : (c.highWaterCb = true ∧
        c.outputBuffer.readable.length < c.highWaterMark ∧
        c.highWaterMark ≤ c.outputBuffer.readable.length + rem.length) ↔
          mark = true := by
      rw [← hmark]
      simp only [Bool.and_eq_true, decide_eq_true_eq, gt_iff_lt, ge_iff_le]
      constructor
      · rintro ⟨hcb, hlt, hle⟩
        exact ⟨⟨⟨by omega, hcb⟩, hlt⟩, hle⟩
      · rintro ⟨⟨⟨-, hcb⟩, hlt⟩, hle⟩
        exact ⟨hcb, hlt, hle⟩
    simp only [hiff]
    cases mark with
    | true =>
        simp only [if_true]
        split
        · rfl
        · rfl
    | false =>
        simp only [Bool.false_eq_true, if_false, List.append_nil]
        split
        · rfl
        · rfl

/-- From `c` to `c'`, with functors `fs` queued, the data of some calls of
`send` were written or buffered, and no write failed. -/
structure Passed (c : Connection) (data : List UInt8)
    (scripts : List (List WriteRes)) (c' : Connection)
    (fs : List ConnFunctor) : Prop where
  state : c'.state = c.state
  highWaterCb : c'.highWaterCb = c.highWaterCb
  highWaterMark : c'.highWaterMark = c.highWaterMark
  size : c'.outputBuffer.readable.length + acceptedBytes scripts.flatten =
    c.outputBuffer.readable.length + data.length
  grows : c.outputBuffer.readable.length ≤ c'.outputBuffer.readable.length
  empty : c'.outputBuffer.readable = [] ↔ c.outputBuffer.readable = [] ∧
    ∀ ws ∈ scripts, writeStop ws = none
  bytes : ∃ new, c'.log = c.log ++ new ∧
    (∀ e ∈ new, e.endsWriting = false) ∧
    new.flatMap Ev.written ++ c'.outputBuffer.readable =
      c.outputBuffer.readable ++ data
  functors : fs =
    if c.highWaterCb = true ∧
      c.outputBuffer.readable.length < c.highWaterMark ∧
      c.highWaterMark ≤ c'.outputBuffer.readable.length
    then [.highWaterMark] else []

theorem Passed.refl (c : Connection) : Passed c [] [] c [] where
  state := rfl
  highWaterCb := rfl
  highWaterMark := rfl
  size := rfl
  grows := Nat.le_refl _
  empty := by simp
  bytes := ⟨[], (List.append_nil _).symm, by simp, (List.append_nil _).symm⟩
  functors := by
    rw [if_neg]
    omega

theorem acceptedBytes_append (ws ws' : List WriteRes) :
    acceptedBytes (ws ++ ws') = acceptedBytes ws + acceptedBytes ws' := by
  induction ws with
  | nil => exact (Nat.zero_add _).symm
  | cons w ws ih =>
      cases w with
      | accepted n =>
          show n + acceptedBytes (ws ++ ws') = n + acceptedBytes ws + _
          omega
      | eintr | stop _ => exact ih

theorem Passed.trans {c c₁ c₂ : Connection} {d₁ d₂ : List UInt8}
    {s₁ s₂ : List (List WriteRes)} {f₁ f₂ : List ConnFunctor}
    (h : Passed c d₁ s₁ c₁ f₁) (h' : Passed c₁ d₂ s₂ c₂ f₂) :
    Passed c (d₁ ++ d₂) (s₁ ++ s₂) c₂ (f₁ ++ f₂) where
  state := h'.state.trans h.state
  highWaterCb := h'.highWaterCb.trans h.highWaterCb
  highWaterMark := h'.highWaterMark.trans h.highWaterMark
  size := by
    have hs := h.size
    have hs' := h'.size
    rw [List.flatten_append, acceptedBytes_append, List.length_append]
    omega
  grows := Nat.le_trans h.grows h'.grows
  empty := by
    rw [h'.empty, h.empty, and_assoc]
    refine and_congr_right fun _ => ⟨?_, ?_⟩
    · rintro ⟨hs₁, hs₂⟩ ws hws
      exact (List.mem_append.mp hws).elim (hs₁ ws) (hs₂ ws)
    · intro hall
      exact ⟨fun ws hws => hall ws (List.mem_append_left _ hws),
        fun ws hws => hall ws (List.mem_append_right _ hws)⟩
  bytes := by
    obtain ⟨n₁, hlog₁, hopen₁, hbytes₁⟩ := h.bytes
    obtain ⟨n₂, hlog₂, hopen₂, hbytes₂⟩ := h'.bytes
    refine ⟨n₁ ++ n₂, ?_, fun e he => ?_, ?_⟩
    · rw [hlog₂, hlog₁, List.append_assoc]
    · exact (List.mem_append.mp he).elim (hopen₁ e) (hopen₂ e)
    · rw [List.flatMap_append, List.append_assoc, hbytes₂, ← List.append_assoc,
        hbytes₁, List.append_assoc]
  functors := by
    have hgrows := h.grows
    have hgrows' := h'.grows
    rw [h.functors, h'.functors, h.highWaterCb, h.highWaterMark]
    by_cases hcb : c.highWaterCb = true
    · simp only [hcb, true_and]
      split
      · rw [if_neg (by omega), if_pos (by omega)]
        rfl
      · split
        · rw [if_pos (by omega)]
          rfl
        · rw [if_neg (by omega)]
          rfl
    · simp [hcb]

/-- Behind some writes the rest is buffered. -/
theorem passed_sendRest {c : Connection} {data rem : List UInt8}
    {ws : List WriteRes} (chunks : List (List UInt8))
    (hstate : c.state = .kConnected) (hpending : c.pending = [])
    (hbytes : chunks.flatten ++ (c.outputBuffer.readable ++ rem) =
      c.outputBuffer.readable ++ data)
    (hsize : ((c.wrote data chunks).sendRest rem).outputBuffer.readable.length +
      acceptedBytes ws = c.outputBuffer.readable.length + data.length)
    (hempty : c.outputBuffer.readable ++ rem = [] ↔
      c.outputBuffer.readable = [] ∧ writeStop ws = none) :
    Passed c data [ws]
      { (c.wrote data chunks).sendRest rem with pending := [] }
      ((c.wrote data chunks).sendRest rem).pending := by
  have hwrote : Lives c (c.wrote data chunks) := (Lives.refl hstate).same rfl
  have hlives := hwrote.sendRest hstate rem
  obtain ⟨hkeep, hlog, -, hbuffer, -⟩ := sendRest_spec (c.wrote data chunks) rem
  have hout : ((c.wrote data chunks).sendRest rem).outputBuffer.readable =
      c.outputBuffer.readable ++ rem := hbuffer
  refine ⟨hkeep, hlives.highWaterCb, hlives.highWaterMark, ?_, ?_, ?_, ?_, ?_⟩
  · rw [List.flatten_singleton]
    exact hsize
  · show _ ≤ (sendRest _ rem).outputBuffer.readable.length
    rw [hout, List.length_append]
    exact Nat.le_add_right _ _
  · show (sendRest _ rem).outputBuffer.readable = [] ↔ _
    rw [hout, hempty]
    simp
  · refine ⟨.sendCall c.state data :: chunks.map Ev.write, hlog, ?_, ?_⟩
    · intro e he
      rcases List.mem_cons.mp he with rfl | he
      · rfl
      · obtain ⟨bytes, -, rfl⟩ := List.mem_map.mp he
        rfl
    · show _ ++ (sendRest _ rem).outputBuffer.readable = _
      have hchunks : (chunks.map Ev.write).flatMap Ev.written =
          chunks.flatten := by
        rw [List.flatMap_map]
        exact List.flatMap_id'
      rw [List.flatMap_cons, hchunks, hout]
      exact hbytes
  · rw [sendRest_pending]
    show c.pending ++ _ = _
    rw [hpending, hout, List.length_append, List.nil_append]
    rfl

theorem close_pending (c : Connection) : c.close.pending = c.pending := by
  rw [close]
  split
  · rfl
  · dsimp only; split <;> rfl

/-- One call whose writes do not fail. -/
theorem send_passed {c c' : Connection} {data : List UInt8}
    {ws : List WriteRes} (hstate : c.state = .kConnected) (hdata : data ≠ [])
    (hpending : c.pending = []) (hgood : writeStop ws ≠ some .fatal)
    (h : c.send data ws = some c') :
    Passed c data [ws] { c' with pending := [] } c'.pending := by
  have hsize : c'.outputBuffer.readable.length + acceptedBytes ws =
      c.outputBuffer.readable.length + data.length ∧
      (c.outputBuffer.readable ≠ [] → ws = []) := by
    rw [send, if_neg (by simp [hstate, hdata])] at h
    split at h
    · next hempty =>
        have hnil := (Buffer.empty_eq_true _).mp hempty
        split at h
        · next hloop =>
            obtain ⟨-, -, -, hstop, -⟩ := sendLoop_spec hloop
            exact absurd hstop.symm hgood
        · next rem e _ hloop =>
            have hleft := sendLoop_accepts hloop
            obtain ⟨chunks, rfl, -⟩ := sendLoop_spec hloop
            cases h
            refine ⟨?_, fun hne => absurd hnil hne⟩
            rw [(sendRest_spec _ rem).2.2.2.1]
            show (c.outputBuffer.readable ++ rem).length + _ = _
            rw [hnil, List.nil_append, List.length_nil, Nat.zero_add]
            exact hleft
        · cases h
    · split at h
      · next hnil =>
          cases h
          refine ⟨?_, fun _ => hnil⟩
          rw [(sendRest_spec _ data).2.2.2.1, List.length_append, hnil]
          rfl
      · cases h
  cases send_sent h with
  | ignored hskip =>
      rcases hskip with hskip | hskip
      · exact absurd hstate hskip
      · exact absurd hskip hdata
  | behind _ _ hne =>
      refine passed_sendRest [] hstate hpending rfl hsize.1 ?_
      simp [hne]
  | failed chunks _ _ _ hstop => exact absurd hstop hgood
  | taken chunks rem _ _ hnil hbytes hrem =>
      refine passed_sendRest chunks hstate hpending ?_ hsize.1 ?_
      · rw [hnil]
        exact hbytes
      · rw [hnil]
        rcases hrem with ⟨hrem, hstop⟩ | ⟨hrem, hstop⟩
        · simp [hrem, hstop]
        · simp [hrem, hstop]

end Connection

end GameFrame
