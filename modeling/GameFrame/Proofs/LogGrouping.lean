import GameFrame.LogServer.LogServer
import GameFrame.Proofs.Framing
import GameFrame.Proofs.SessionBatches

/-!
# What a bad length takes with it

`decode` hands back the frames it found and a verdict on the stream, and the
message callback looks at the verdict first. If the stream is bad it closes the
connection and returns, and the frames that were found by the same call are
never written. Which frames these are is decided by the batches: a frame that
came in an earlier one is written, and a frame that came in one with the bad
length is not.

So the frames in front of a bad length are all written if and only if a batch
ends behind the last of them and before the four bytes of the length are
complete (`written_iff`). The codec itself does not see the cuts, and a stream
without a bad length is written the same way whatever they are.
-/

namespace GameFrame.LogServer

open LengthPrefixedCodec Feed Session

/-- `kMaxFrameSize`, as a number. -/
def maxLen : Nat := kMaxFrameSize.toNat

theorem maxLen_le : kMaxFrameSize.toNat ≤ 16 * 1024 * 1024 := by decide

theorem maxLen_lt : maxLen < 2 ^ 32 := by decide

/-- The bytes of some batches. -/
def bytes (batches : List (List ReadRes)) : List UInt8 :=
  batches.flatMap readBytes

theorem bytes_append (bs cs : List (List ReadRes)) :
    bytes (bs ++ cs) = bytes bs ++ bytes cs := List.flatMap_append

/-- Where the frames of the stream end some batch ends, or it does before the
length behind them is complete, if that is a bad one. -/
def CutBefore (frames : List (List UInt8)) (rest : List UInt8)
    (batches : List (List ReadRes)) : Prop :=
  BadHeader maxLen rest → ∃ k ≤ batches.length,
    (frames.map record).flatten.length ≤ (bytes (batches.take k)).length ∧
    (bytes (batches.take k)).length < (frames.map record).flatten.length + 4

instance (frames : List (List UInt8)) (rest : List UInt8)
    (batches : List (List ReadRes)) :
    Decidable (CutBefore frames rest batches) :=
  have : Decidable (BadHeader maxLen rest) :=
    inferInstanceAs (Decidable (_ ∧ (_ ∨ _)))
  inferInstanceAs (Decidable (_ → ∃ k ≤ _, _ ∧ _))

/-- A batch that is read at once. -/
def batch (data : List UInt8) : List ReadRes := [.data data, .stop .eagain]

/-- A frame of one byte and a length of zero, in one batch, and in two. -/
theorem frame_dropped :
    ¬ ∀ (bs cs : List (List ReadRes)) (s t : Peer), Answered bs →
      Answered cs → bytes bs = bytes cs →
      Machine.run receive newPeer bs = some s →
      Machine.run receive newPeer cs = some t → s.own = t.own := by
  intro hall
  have hone : (Machine.run receive newPeer
      [batch [0, 0, 0, 1, 7, 0, 0, 0, 0]]).any
        (fun s => s.own == []) = true := by decide +kernel
  have htwo : (Machine.run receive newPeer
      [batch [0, 0, 0, 1, 7], batch [0, 0, 0, 0]]).any
        (fun s => s.own == [[7]]) = true := by decide +kernel
  obtain ⟨s, hs, hnone⟩ := (Option.any_eq_true _ _).mp hone
  obtain ⟨t, ht, hframe⟩ := (Option.any_eq_true _ _).mp htwo
  have hsame := hall _ _ s t (by simp [Answered, batch, readStop])
    (by simp [Answered, batch, readStop]) (by decide) hs ht
  rw [eq_of_beq hnone, eq_of_beq hframe] at hsame
  cases hsame

/-! ## One batch -/

/-- The connection is up, and the callback set. -/
structure Up (s : Peer) : Prop where
  state : s.conn.state = .kConnected
  messageCb : s.conn.messageCb = true

theorem up_newPeer : Up newPeer := ⟨rfl, rfl⟩

theorem onMessage_parse (s : Peer) :
    ∃ b : Buffer, b.readable = (parse maxLen s.input).rest ∧
      onMessage s =
        if (parse maxLen s.input).ok then
          some
            { conn := { s.conn with inputBuffer := b }
              own := s.own ++ (parse maxLen s.input).frames }
        else
          some { s with conn := { s.conn with inputBuffer := b }.close } := by
  obtain ⟨b, hdecode, hrest⟩ :=
    decode_eq_parse maxLen_le s.conn.inputBuffer []
  refine ⟨b, hrest, ?_⟩
  rw [onMessage, hdecode]
  show _ = if (parse kMaxFrameSize.toNat s.conn.inputBuffer.readable).ok then _
    else _
  cases (parse kMaxFrameSize.toNat s.conn.inputBuffer.readable).ok with
  | true => rfl
  | false => rfl

/-- A batch is taken, and with it what could not be used before; or it closes
the connection, and nothing of it is written. -/
inductive Taken (s : Peer) (reads : List ReadRes) (s' : Peer) : Prop where
  | all : (parse maxLen (s.input ++ readBytes reads)).ok = true →
      s'.own = s.own ++ (parse maxLen (s.input ++ readBytes reads)).frames →
      (readStop reads = some .eagain → Up s' ∧
        s'.input = (parse maxLen (s.input ++ readBytes reads)).rest) →
      Taken s reads s'
  | none : (parse maxLen (s.input ++ readBytes reads)).ok = false →
      s'.own = s.own → s'.conn.state = .kDisconnected → Taken s reads s'

theorem receive_taken {s s' : Peer} {reads : List ReadRes} (hs : Up s)
    (hstop : readStop reads ≠ some .fatal) (h : receive s reads = some s') :
    Taken s reads s' := by
  rw [receive, Session.receive, if_neg (by simp [hs.state])] at h
  obtain ⟨t, u, hread, hcall, hend⟩ := handleRead_batch hs.messageCb hstop h
  have hup : Up t := ⟨hread.state.trans hs.state,
    hread.messageCb.trans hs.messageCb⟩
  have hown : s'.own = u.own := by
    rcases hend with ⟨-, rfl⟩ | ⟨-, rfl⟩
    · rfl
    · rfl
  have hlive : readStop reads = some .eagain → s' = u := by
    intro hstop
    rcases hend with ⟨-, rfl⟩ | ⟨heof, -⟩
    · rfl
    · cases hstop.symm.trans heof
  rcases hcall with ⟨-, hu⟩ | ⟨hnil, rfl⟩
  · obtain ⟨b, hrest, heq⟩ := onMessage_parse t
    rw [heq] at hu
    split at hu
    · next hok =>
        cases hu
        refine .all (hread.input ▸ hok) ?_ fun hstop => ?_
        · rw [hown, hread.own, hread.input]
        · rw [hlive hstop, ← hread.input]
          exact ⟨⟨hup.state, hup.messageCb⟩, hrest⟩
    · next hok =>
        cases hu
        refine .none ?_ (hown.trans hread.own) ?_
        · rw [← hread.input]
          simpa using hok
        · rcases hend with ⟨-, rfl⟩ | ⟨-, rfl⟩
          · exact Connection.close_state _
          · exact Connection.close_state _
  · have hparse : parse maxLen (s.input ++ readBytes reads) =
        ⟨true, [], []⟩ := by
      rw [← hread.input, hnil]
      exact parse_short (by decide)
    refine .all (by rw [hparse]) ?_ fun hstop => ?_
    · rw [hparse, hown, hread.own, List.append_nil]
    · rw [hlive hstop, hparse]
      exact ⟨hup, hnil⟩

theorem receive_closed {s : Peer} (h : s.conn.state = .kDisconnected)
    (batches : List (List ReadRes)) :
    Machine.run receive s batches = some s := by
  induction batches with
  | nil => rfl
  | cons reads batches ih =>
      refine Machine.run_cons_some.mpr ⟨s, ?_, ih⟩
      rw [receive, Session.receive, if_pos h]

/-- The callback never reads past the end. -/
theorem exists_onMessage (s : Peer) : ∃ s', onMessage s = some s' := by
  obtain ⟨b, -, heq⟩ := onMessage_parse s
  rw [heq]
  split
  · exact ⟨_, rfl⟩
  · exact ⟨_, rfl⟩

/-- Whatever the peer sends is received, and cut in any way. -/
theorem exists_receive (s : Peer) (data : List UInt8) :
    ∃ s', receive s (byteReads data) = some s' := by
  rw [receive, Session.receive]
  split
  · exact ⟨s, rfl⟩
  · obtain ⟨c, fresh, hloop⟩ := Connection.readLoop_byteReads s.conn [] data
    rw [handleRead, hloop]
    show ∃ s', deliver onMessage _ _ = some s'
    rw [deliver]
    split
    · exact exists_onMessage _
    · exact ⟨_, rfl⟩

theorem exists_run (s : Peer) (datas : List (List UInt8)) :
    ∃ t, Machine.run receive s (datas.map byteReads) = some t := by
  induction datas generalizing s with
  | nil => exact ⟨s, rfl⟩
  | cons data datas ih =>
      obtain ⟨s', hs'⟩ := exists_receive s data
      obtain ⟨t, ht⟩ := ih s'
      exact ⟨t, Machine.run_cons_some.mpr ⟨s', hs', ht⟩⟩

/-! ## All of them -/

/-- All batches are taken, or all those before the one that completes a bad
length. -/
inductive Written (s : Peer) (batches : List (List ReadRes)) (t : Peer) :
    Prop where
  | all : (parse maxLen (s.input ++ bytes batches)).ok = true →
      t.own = s.own ++ (parse maxLen (s.input ++ bytes batches)).frames →
      ((∀ reads ∈ batches, readStop reads = some .eagain) → Up t ∧
        t.input = (parse maxLen (s.input ++ bytes batches)).rest) →
      Written s batches t
  | upTo (pre : List (List ReadRes)) (reads : List ReadRes)
      (post : List (List ReadRes)) : batches = pre ++ reads :: post →
      (parse maxLen (s.input ++ bytes pre)).ok = true →
      (parse maxLen (s.input ++ bytes (pre ++ [reads]))).ok = false →
      t.own = s.own ++ (parse maxLen (s.input ++ bytes pre)).frames →
      Written s batches t

theorem parse_nothing {s : Peer} (h : Drained (parse maxLen) s.input) :
    parse maxLen (s.input ++ bytes []) = ⟨true, [], s.input⟩ := by
  rw [show bytes [] = [] from rfl, List.append_nil]
  exact h

theorem run_written {batches : List (List ReadRes)} : ∀ {s t : Peer}, Up s →
    Drained (parse maxLen) s.input → Answered batches →
    Machine.run receive s batches = some t → Written s batches t := by
  induction batches with
  | nil =>
      intro s t hs hdrained _ hrun
      obtain rfl : s = t := by simpa using hrun
      refine .all (by rw [parse_nothing hdrained]) ?_ fun _ => ⟨hs, ?_⟩
      · rw [parse_nothing hdrained, List.append_nil]
      · rw [parse_nothing hdrained]
  | cons reads batches ih =>
      intro s t hs hdrained hbatches hrun
      obtain ⟨s', hs', hrest⟩ := Machine.run_cons_some.mp hrun
      have hbytes : ∀ bs, s.input ++ bytes (reads :: bs) =
          s.input ++ readBytes reads ++ bytes bs := by
        intro bs
        rw [List.append_assoc]
        rfl
      have hfirst : s.input ++ bytes [reads] = s.input ++ readBytes reads := by
        rw [hbytes]
        exact List.append_nil _
      cases receive_taken hs hbatches.head hs' with
      | none hbad hown hclosed =>
          obtain rfl : s' = t :=
            Option.some.inj ((receive_closed hclosed batches).symm.trans hrest)
          refine .upTo [] reads batches rfl ?_ ?_ ?_
          · rw [parse_nothing hdrained]
          · rw [List.nil_append, hfirst]
            exact hbad
          · rw [parse_nothing hdrained, List.append_nil]
            exact hown
      | all hok hown hup =>
          by_cases hnil : batches = []
          · subst hnil
            obtain rfl : s' = t := by simpa using hrest
            refine .all (by rw [hfirst]; exact hok) ?_ fun hall => ?_
            · rw [hfirst]
              exact hown
            · rw [hfirst]
              exact hup (hall reads List.mem_cons_self)
          · obtain ⟨hs'up, hinput⟩ := hup (hbatches.last hnil)
            -- A later call goes on where this one stopped.
            have hgo : ∀ bs, parse maxLen (s.input ++ bytes (reads :: bs)) =
                (parse maxLen (s'.input ++ bytes bs)).after
                  (parse maxLen (s.input ++ readBytes reads)).frames := by
              intro bs
              rw [hbytes, hinput]
              exact (parse_resumable maxLen).resume _ _ hok
            have hdrained' : Drained (parse maxLen) s'.input := by
              rw [hinput]
              exact (parse_resumable maxLen).drained pushes_append hok
            cases ih hs'up hdrained' hbatches.tail hrest with
            | all hok' hown' hup' =>
                refine .all (by rw [hgo]; exact hok') ?_ fun hall => ?_
                · rw [hgo, hown', hown, List.append_assoc]
                  rfl
                · rw [hgo]
                  exact hup' fun rs hrs => hall rs (List.mem_cons_of_mem _ hrs)
            | upTo pre last post heq hpre hbad hown' =>
                refine .upTo (reads :: pre) last post ?_ ?_ ?_ ?_
                · rw [heq]
                  rfl
                · rw [hgo]
                  exact hpre
                · rw [List.cons_append, hgo]
                  exact hbad
                · rw [hgo, hown', hown, List.append_assoc]
                  rfl

/-! ## Where the batches have to end -/

/-- The first part of a stream that the codec accepts. -/
theorem parse_prefix {p u : List UInt8} (hok : (parse maxLen p).ok = true) :
    ∃ fs, (parse maxLen (p ++ u)).frames = (parse maxLen p).frames ++ fs := by
  rw [(parse_resumable maxLen).resume p u hok]
  exact ⟨_, rfl⟩

theorem parse_refused {p : List UInt8} (u : List UInt8)
    (hbad : (parse maxLen p).ok = false) :
    (parse maxLen (p ++ u)).ok = false := by
  rw [(parse_resumable maxLen).refuse p u hbad]
  exact hbad

/-- A part that ends before four bytes of what is behind the frames. -/
theorem parse_part {frames : List (List UInt8)} {q : List UInt8}
    (hsizes : ∀ f ∈ frames, Admissible maxLen f) (hq : q.length < 4) :
    (parse maxLen ((frames.map record).flatten ++ q)).ok = true ∧
      (parse maxLen ((frames.map record).flatten ++ q)).frames = frames := by
  have href : IsReferenceParse maxLen ((frames.map record).flatten ++ q)
      frames q := by
    refine ⟨rfl, hsizes, ?_⟩
    rintro ⟨f, t, heq, -⟩
    rw [heq, List.length_append, record_length] at hq
    omega
  obtain ⟨hframes, hrest⟩ :=
    reference_unique maxLen_lt href (parse_reference maxLen_lt _)
  refine ⟨?_, hframes⟩
  cases hok : (parse maxLen ((frames.map record).flatten ++ q)).ok with
  | true => rfl
  | false =>
      have hbad := ((parse_stop maxLen _).1 hok).1
      rw [hrest] at hbad
      omega

theorem bytes_take (batches : List (List ReadRes)) (k : Nat) :
    bytes batches = bytes (batches.take k) ++ bytes (batches.drop k) := by
  rw [← bytes_append, List.take_append_drop]

/-- The batches up to one that ends there. -/
theorem parse_cut {batches : List (List ReadRes)}
    {frames : List (List UInt8)} {rest : List UInt8}
    (href : IsReferenceParse maxLen (bytes batches) frames rest) (k : Nat)
    (hle : (frames.map record).flatten.length ≤
      (bytes (batches.take k)).length)
    (hlt : (bytes (batches.take k)).length <
      (frames.map record).flatten.length + 4) :
    (parse maxLen (bytes (batches.take k))).ok = true ∧
      (parse maxLen (bytes (batches.take k))).frames = frames := by
  have hstream := href.stream
  rw [bytes_take batches k] at hstream
  have hfront : (bytes (batches.take k)).take
      (frames.map record).flatten.length = (frames.map record).flatten := by
    have htake := congrArg
      (List.take (frames.map record).flatten.length) hstream
    rw [List.take_append_of_le_length hle, List.take_left] at htake
    exact htake
  have hq : ((bytes (batches.take k)).drop
      (frames.map record).flatten.length).length < 4 := by
    rw [List.length_drop]
    omega
  have hcut := List.take_append_drop (frames.map record).flatten.length
    (bytes (batches.take k))
  rw [hfront] at hcut
  have h := parse_part href.sizes hq
  rw [hcut] at h
  exact h

/-- The frames in front of a bad length are all written if and only if some
batch ends between the last of them and the length. -/
theorem own_eq_iff {batches : List (List ReadRes)} {t : Peer}
    (hbatches : Answered batches)
    (hrun : Machine.run receive newPeer batches = some t)
    {frames : List (List UInt8)} {rest : List UInt8}
    (href : IsReferenceParse maxLen (bytes batches) frames rest) :
    t.own = frames ↔ CutBefore frames rest batches := by
  have hwritten := run_written up_newPeer (parse_short (by decide)) hbatches
    hrun
  obtain ⟨hframes, hrest⟩ :=
    reference_unique maxLen_lt href (parse_reference maxLen_lt _)
  cases hwritten with
  | all hok hown _ =>
      have hown : t.own = frames := hown.trans hframes
      refine iff_of_true hown fun hbad => ?_
      have hgood := ((parse_stop maxLen _).2 hok).2
      rw [show (parse maxLen (newPeer.input ++ bytes batches)).rest = rest
        from hrest] at hgood
      exact absurd hbad hgood
  | upTo pre reads post heq hok hbad hown =>
      have hown : t.own = (parse maxLen (bytes pre)).frames := hown
      have hok : (parse maxLen (bytes pre)).ok = true := hok
      have hbad : (parse maxLen (bytes (pre ++ [reads]))).ok = false := hbad
      have hsplit : bytes batches = bytes pre ++ bytes (reads :: post) := by
        rw [heq, bytes_append]
      have hstream := href.stream
      rw [hown]
      constructor
      · intro hall hbadrest
        have hpre := (parse_reference maxLen_lt (bytes pre)).stream
        rw [hall] at hpre
        have hlen := congrArg List.length hpre
        rw [List.length_append] at hlen
        have htake : batches.take pre.length = pre := by
          rw [heq, List.take_left]
        refine ⟨pre.length, by rw [heq]; simp, ?_, ?_⟩
        · rw [htake]
          omega
        · rw [htake]
          -- Otherwise the bad length is complete, and is not accepted.
          refine Decidable.byContradiction fun hlong => ?_
          have h4 : 4 ≤ (parse maxLen (bytes pre)).rest.length := by omega
          have hbehind : rest = (parse maxLen (bytes pre)).rest ++
              bytes (reads :: post) := by
            rw [hsplit, hpre, List.append_assoc] at hstream
            exact (List.append_cancel_left hstream).symm
          rw [hbehind, badHeader_append _ h4] at hbadrest
          exact ((parse_stop maxLen _).2 hok).2 hbadrest
      · intro hcut
        have hwhole : (parse maxLen (bytes batches)).ok = false := by
          rw [heq, List.append_cons, bytes_append]
          exact parse_refused _ hbad
        have hbadrest := (parse_stop maxLen _).1 hwhole
        rw [show (parse maxLen (bytes batches)).rest = rest from hrest]
          at hbadrest
        obtain ⟨k, -, hle, hlt⟩ := hcut hbadrest
        obtain ⟨hokk, hframesk⟩ := parse_cut href k hle hlt
        -- The cut is in front of the batch that closes the connection.
        have hk : k ≤ pre.length := by
          refine Decidable.byContradiction fun hlate => ?_
          have htake : batches.take k =
              pre ++ [reads] ++ post.take (k - (pre.length + 1)) := by
            have hlen : (pre ++ [reads]).length = pre.length + 1 := by simp
            rw [heq, List.append_cons, List.take_append, hlen,
              List.take_of_length_le (by omega)]
          rw [htake, bytes_append, parse_refused _ hbad] at hokk
          cases hokk
        have htake : batches.take k = pre.take k := by
          rw [heq, List.take_append_of_le_length hk]
        rw [htake] at hokk hframesk
        obtain ⟨fs, hfs⟩ := parse_prefix (u := bytes (pre.drop k)) hokk
        rw [← bytes_take, hframesk] at hfs
        obtain ⟨gs, hgs⟩ := parse_prefix (u := bytes (reads :: post)) hok
        rw [← hsplit, hframes, hfs, List.append_assoc] at hgs
        obtain ⟨rfl, -⟩ : fs = [] ∧ gs = [] :=
          List.append_eq_nil_iff.mp (List.self_eq_append_right.mp hgs)
        rw [hfs, List.append_nil]

/-- Two ways of cutting up one stream: the same is written, and it is all there
is in front of a bad length, if and only if both have the cut. -/
theorem written_iff {bs cs : List (List ReadRes)} (hbs : Answered bs)
    (hcs : Answered cs) (hsame : bytes bs = bytes cs)
    {frames : List (List UInt8)} {rest : List UInt8}
    (href : IsReferenceParse maxLen (bytes bs) frames rest) {s t : Peer}
    (hs : Machine.run receive newPeer bs = some s)
    (ht : Machine.run receive newPeer cs = some t) :
    s.own = t.own ∧ s.own = frames ↔
      CutBefore frames rest bs ∧ CutBefore frames rest cs := by
  have hleft := own_eq_iff hbs hs href
  have hright := own_eq_iff hcs ht (hsame ▸ href)
  rw [← hleft, ← hright]
  constructor
  · rintro ⟨hst, hall⟩
    exact ⟨hall, hst.symm.trans hall⟩
  · rintro ⟨hall, hall'⟩
    exact ⟨hall.trans hall'.symm, hall⟩

/-- A frame and a length of zero. The one cut is in the middle of the length,
the other in the middle of the frame as well as right behind it. -/
theorem written_iff_cut :
    ∃ s t : Peer,
      Machine.run receive newPeer
        ([[0, 0, 0, 1, 7, 0, 0], [0, 0, 9]].map byteReads) = some s ∧
      Machine.run receive newPeer
        ([[0, 0], [0, 1, 7], [0, 0, 0, 0, 9]].map byteReads) = some t ∧
      s.own = t.own ∧ s.own = [[7]] := by
  obtain ⟨s, hs⟩ := exists_run newPeer [[0, 0, 0, 1, 7, 0, 0], [0, 0, 9]]
  obtain ⟨t, ht⟩ := exists_run newPeer [[0, 0], [0, 1, 7], [0, 0, 0, 0, 9]]
  have href : IsReferenceParse maxLen
      (bytes ([[0, 0, 0, 1, 7, 0, 0], [0, 0, 9]].map byteReads)) [[7]]
      [0, 0, 0, 0, 9] := by
    refine ⟨by decide, ?_, ?_⟩
    · intro f hf
      rw [List.mem_singleton.mp hf]
      exact ⟨by decide, by decide⟩
    · rintro ⟨f, u, heq, hf⟩
      have h := (header_of_record maxLen_lt u hf).1
      rw [← heq] at h
      exact h ⟨by decide, by decide⟩
  exact ⟨s, t, hs, ht, (written_iff (by simp [Answered, readStop_byteReads])
    (by simp [Answered, readStop_byteReads]) (by decide) href hs ht).mpr
    ⟨by decide, by decide⟩⟩

end GameFrame.LogServer
