import GameFrame.Net.TcpServer

/-!
# How the connections are dealt out

`next_loop` goes round the sub-loops, and only an accept moves it. So the
connections are on the loops in the order they were accepted, whatever else
happens in between and however they end (`Dealt`), and no sub-loop is ever given
two connections more than another (`shares_even`).
-/

namespace GameFrame.TcpServer

/-- How many connections loop `l` has been given. -/
def share (w : TcpServer) (l : Nat) : Nat :=
  (List.range w.accepted).countP fun id => (w.conns id).loop = l

/-- The connections so far are on the loops by turns, and the next is to go
where the last was not. -/
structure Dealt (n : Nat) (w : TcpServer) : Prop where
  threads : w.numThreads = n
  next : w.next = if n = 0 then 0 else w.accepted % n
  loop : ∀ id < w.accepted,
    (w.conns id).loop = if n = 0 then 0 else id % n + 1

/-- The sub-loops in front of the next have one connection more than the
others. -/
structure Even (n : Nat) (w : TcpServer) : Prop where
  next : 0 < n → w.next < n
  shares : ∃ c, ∀ i < n, w.share (i + 1) = if i < w.next then c + 1 else c

theorem dealt_init (n : Nat) (b : Bool) :
    Dealt n { numThreads := n, connectionCb := b } where
  threads := rfl
  next := by
    split
    · rfl
    · exact (Nat.zero_mod n).symm
  loop _ h := absurd h (Nat.not_lt_zero _)

theorem even_init (n : Nat) (b : Bool) :
    Even n { numThreads := n, connectionCb := b } where
  next h := h
  shares := ⟨0, fun _ _ => rfl⟩

section

variable {n : Nat} {w w' : TcpServer}

theorem SamePlaces.share (h : SamePlaces w w') (l : Nat) :
    w'.share l = w.share l := by
  simp only [TcpServer.share, h.accepted, h.loop]

theorem Dealt.same (hw : Dealt n w) (h : SamePlaces w w') : Dealt n w' where
  threads := h.threads.trans hw.threads
  next := by rw [h.next, h.accepted, hw.next]
  loop id hid := by
    rw [h.loop]
    rw [h.accepted] at hid
    exact hw.loop id hid

theorem Even.same (hw : Even n w) (h : SamePlaces w w') : Even n w' where
  next hn := by
    rw [h.next]
    exact hw.next hn
  shares := by
    obtain ⟨c, hc⟩ := hw.shares
    refine ⟨c, fun i hi => ?_⟩
    rw [h.share, h.next, hc i hi]

/-- What an accept does before anything is told: nothing to the connections
that are there. -/
theorem placed_loop (w : TcpServer) (fd : Nat) :
    ((w.placed fd).conns w.accepted).loop = w.nextLoop.1 ∧
      ∀ id < w.accepted,
        ((w.placed fd).conns id).loop = (w.conns id).loop := by
  have hconns : w.nextLoop.2.conns = w.conns := by
    rw [nextLoop]
    split <;> rfl
  constructor
  · show (if w.accepted = w.accepted then _ else _ : ServerConn).loop = _
    rw [if_pos rfl]
  · intro id hid
    show (if id = w.accepted then _ else w.nextLoop.2.conns id :
      ServerConn).loop = _
    rw [if_neg (by omega), hconns]

theorem share_placed (w : TcpServer) (fd l : Nat) :
    (w.placed fd).share l =
      w.share l + if w.nextLoop.1 = l then 1 else 0 := by
  obtain ⟨hnew, hold⟩ := w.placed_loop fd
  have haccepted : (w.placed fd).accepted = w.accepted + 1 := rfl
  rw [share, haccepted, List.range_succ, List.countP_append, share]
  congr 1
  · refine List.countP_congr fun id hid => ?_
    rw [hold id (List.mem_range.mp hid)]
  · rw [List.countP_singleton, hnew]
    simp

theorem dealt_placed (hw : Dealt n w) (fd : Nat) : Dealt n (w.placed fd) := by
  obtain ⟨hnew, hold⟩ := w.placed_loop fd
  have haccepted : (w.placed fd).accepted = w.accepted + 1 := rfl
  by_cases hn : n = 0
  · have hnext : w.nextLoop = (0, w) := if_pos (hw.threads.trans hn)
    have hplaced : (w.placed fd).numThreads = w.numThreads ∧
        (w.placed fd).next = w.next := by
      rw [placed, hnext]
      exact ⟨rfl, rfl⟩
    refine ⟨hplaced.1.trans hw.threads, hplaced.2.trans ?_, fun id hid => ?_⟩
    · rw [hw.next, if_pos hn, if_pos hn]
    · rw [if_pos hn]
      rw [haccepted] at hid
      rcases Nat.lt_succ_iff_lt_or_eq.mp hid with hid | rfl
      · rw [hold id hid, hw.loop id hid, if_pos hn]
      · rw [hnew, hnext]
  · have hthreads : w.numThreads ≠ 0 := by rwa [hw.threads]
    have hnext : w.nextLoop =
        (w.next + 1, { w with next := (w.next + 1) % w.numThreads }) :=
      if_neg hthreads
    have hplaced : (w.placed fd).numThreads = w.numThreads ∧
        (w.placed fd).next = (w.next + 1) % w.numThreads := by
      rw [placed, hnext]
      exact ⟨rfl, rfl⟩
    have hturn : w.next = w.accepted % n := by rw [hw.next, if_neg hn]
    refine ⟨hplaced.1.trans hw.threads, hplaced.2.trans ?_, fun id hid => ?_⟩
    · rw [if_neg hn, haccepted, hw.threads, hturn, Nat.mod_add_mod]
    · rw [if_neg hn]
      rw [haccepted] at hid
      rcases Nat.lt_succ_iff_lt_or_eq.mp hid with hid | rfl
      · rw [hold id hid, hw.loop id hid, if_neg hn]
      · rw [hnew, hnext, hturn]

theorem even_placed (hthreads : w.numThreads = n) (hw : Even n w) (fd : Nat) :
    Even n (w.placed fd) := by
  by_cases hn : n = 0
  · exact ⟨fun h => absurd hn (by omega), 0, fun i hi => by omega⟩
  have hlt := hw.next (by omega)
  have hnext : w.nextLoop =
      (w.next + 1, { w with next := (w.next + 1) % w.numThreads }) :=
    if_neg (by rwa [hthreads])
  have hplaced : (w.placed fd).next = (w.next + 1) % n := by
    rw [placed, hnext, ← hthreads]
    rfl
  obtain ⟨c, hc⟩ := hw.shares
  have hshare : ∀ i < n, (w.placed fd).share (i + 1) =
      if i < w.next + 1 then c + 1 else c := by
    intro i hi
    have hturn : w.nextLoop.1 = w.next + 1 := congrArg Prod.fst hnext
    rw [share_placed, hturn, hc i hi]
    split <;> split <;> split <;> omega
  refine ⟨fun h => hplaced ▸ Nat.mod_lt _ h, ?_⟩
  -- The round is over when it comes to the last loop.
  by_cases hlast : w.next + 1 = n
  · refine ⟨c + 1, fun i hi => ?_⟩
    rw [hshare i hi, hplaced, hlast, Nat.mod_self, if_pos hi,
      if_neg (Nat.not_lt_zero i)]
  · refine ⟨c, fun i hi => ?_⟩
    rw [hshare i hi, hplaced, Nat.mod_eq_of_lt (by omega)]

theorem dealt_step {l : Label} (hw : Dealt n w ∧ Even n w)
    (h : w.step l = some w') : Dealt n w' ∧ Even n w' := by
  have hsame : SamePlaces w w' → Dealt n w' ∧ Even n w' :=
    fun h => ⟨hw.1.same h, hw.2.same h⟩
  cases step_stepped h with
  | accept fd =>
      have hplaced := samePlaces_handleAccept w fd
      exact ⟨(dealt_placed hw.1 fd).same hplaced,
        (even_placed hw.1.threads hw.2 fd).same hplaced⟩
  | functor l f fs =>
      exact hsame ((samePlaces_queue l fs).trans (samePlaces_functor f))
  | shutdown id => exact hsame (samePlaces_shutdown id)
  | closeFd id => exact hsame (samePlaces_closeFd id)
  | closeCb id =>
      have hleft : SamePlaces w { w with closing := w.closing.erase id } :=
        ⟨rfl, rfl, rfl, fun _ => rfl, fun _ => rfl⟩
      exact hsame (hleft.trans (samePlaces_closeCallback id))

/-- In every run the connections are on the sub-loops by turns, in the order
they were accepted, and on the main loop if there are no others; and what two
sub-loops have been given differs by one connection at most. -/
theorem shares_even {b : Bool} {ls : List Label}
    (hrun : Machine.run step { numThreads := n, connectionCb := b } ls =
      some w) :
    (∀ id < w.accepted,
      (w.conns id).loop = if n = 0 then 0 else id % n + 1) ∧
    ∀ i < n, ∀ j < n, w.share (i + 1) ≤ w.share (j + 1) + 1 := by
  have hw : Dealt n w ∧ Even n w :=
    Machine.run_preserves (fun hw h => dealt_step hw h)
      ⟨dealt_init n b, even_init n b⟩ hrun
  refine ⟨hw.1.loop, fun i hi j hj => ?_⟩
  obtain ⟨c, hc⟩ := hw.2.shares
  rw [hc i hi, hc j hj]
  split <;> split <;> omega

end

/-- Three connections on two sub-loops, one of which is closed in between. -/
def threeOnTwo : List Label :=
  [.accept 7, .accept 8, .functor 1, .closeFd 0, .closeCb 0, .accept 9,
    .functor 0]

theorem shares_even_threeOnTwo :
    ∃ w, Machine.run step { numThreads := 2, connectionCb := true }
        threeOnTwo = some w ∧
      w.accepted = 3 ∧ w.share 1 = 2 ∧ w.share 2 = 1 ∧
      ∀ i < 2, ∀ j < 2, w.share (i + 1) ≤ w.share (j + 1) + 1 := by
  have hany : (Machine.run step { numThreads := 2, connectionCb := true }
      threeOnTwo).any (fun w =>
        decide (w.accepted = 3 ∧ w.share 1 = 2 ∧ w.share 2 = 1)) = true := by
    decide +kernel
  obtain ⟨w, hrun, hw⟩ := (Option.any_eq_true _ _).mp hany
  obtain ⟨hthree, hone, htwo⟩ := of_decide_eq_true hw
  exact ⟨w, hrun, hthree, hone, htwo, (shares_even hrun).2⟩

end GameFrame.TcpServer
