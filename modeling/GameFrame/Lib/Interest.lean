/-!
# Descriptor numbers and interest lists

What a kernel keeps of descriptor numbers: which of them are open, and what is
registered for them in each of a family of interest lists, like those of
epoll. A number is registered in a list at most once, and closing it takes it
off every list. It can be opened again at once, and whoever still goes by the
old number then means the new one.

A program that is careful about this keeps objects with a number each, of
which an object is the only owner for as long as it is `live`. `Sound` is that
discipline, and a rule for each of the calls keeps it. What it is good for is
`Sound.entry_sole`: what is registered is open, and for one object.
-/

structure Interest (ι : Type _) where
  opened : Nat → Bool := fun _ => false
  /-- by list and number -/
  entry : Nat → Nat → Option ι := fun _ _ => none

namespace Interest

variable {ι : Type _}

def openFd (k : Interest ι) (fd : Nat) : Interest ι :=
  { k with opened := fun n => if n = fd then true else k.opened n }

def closeFd (k : Interest ι) (fd : Nat) : Interest ι where
  opened := fun n => if n = fd then false else k.opened n
  entry := fun l n => if n = fd then none else k.entry l n

def setEntry (k : Interest ι) (l fd : Nat) (e : Option ι) : Interest ι :=
  { k with entry := fun i n => if i = l ∧ n = fd then e else k.entry i n }

def add (k : Interest ι) (l fd : Nat) (p : ι) : Interest ι :=
  k.setEntry l fd (some p)

def del (k : Interest ι) (l fd : Nat) : Interest ι := k.setEntry l fd none

/-- Whether the list takes a call about `fd` from `p`: the number is open, and
not registered for anybody else. -/
def accepts [DecidableEq ι] (k : Interest ι) (l fd : Nat) (p : ι) : Bool :=
  k.opened fd && (k.entry l fd == none || k.entry l fd == some p)

/-- Closing a number takes it off every list. -/
theorem closeFd_del (k : Interest ι) (l fd : Nat) :
    (k.del l fd).closeFd fd = k.closeFd fd := by
  rw [closeFd, closeFd, mk.injEq]
  refine ⟨rfl, funext fun i => funext fun n => ?_⟩
  split
  · rfl
  · next hn => exact if_neg fun h => hn h.2

/-! ## Objects with a number -/

/-- An object's list and number, whether it has the number open, and whether
it takes itself to be registered. -/
structure Slot where
  list : Nat := 0
  fd : Nat := 0
  live : Bool := false
  added : Bool := false
  deriving DecidableEq, Repr

structure Sound (k : Interest ι) (slots : ι → Slot) : Prop where
  opened : ∀ p, (slots p).live = true → k.opened (slots p).fd = true
  sole : ∀ p q, (slots p).live = true → (slots q).live = true →
    (slots p).fd = (slots q).fd → p = q
  live : ∀ p, (slots p).added = true → (slots p).live = true
  entry : ∀ l n p, k.entry l n = some p ↔
    (slots p).added = true ∧ (slots p).list = l ∧ (slots p).fd = n

theorem sound_empty : Sound ({} : Interest ι) fun _ => {} where
  opened := nofun
  sole := nofun
  live := nofun
  entry := fun _ _ _ => ⟨nofun, nofun⟩

section

variable {k : Interest ι} {slots slots' : ι → Slot} {p q : ι} {l n : Nat}

/-- What is registered is open, and registered for the one object that takes
itself to be. -/
theorem Sound.entry_sole (h : Sound k slots) (he : k.entry l n = some p) :
    k.opened n = true ∧ (slots p).added = true ∧ (slots p).list = l ∧
      (slots p).fd = n ∧
      ∀ q, (slots q).added = true → (slots q).fd = n → q = p := by
  obtain ⟨hadded, hlist, hfd⟩ := (h.entry l n p).mp he
  have hlive := h.live p hadded
  refine ⟨hfd ▸ h.opened p hlive, hadded, hlist, hfd, fun q hq hn => ?_⟩
  exact h.sole q p (h.live q hq) hlive (hn.trans hfd.symm)

/-- Whoever has closed his number is not registered. -/
theorem Sound.not_entry (h : Sound k slots) (hp : (slots p).live = false) :
    k.entry l n ≠ some p := by
  intro he
  have hlive := h.live p ((h.entry l n p).mp he).1
  exact absurd hlive (by rw [hp]; exact Bool.false_ne_true)

/-- A number that is closed again at once. -/
theorem Sound.closeFd_openFd (h : Sound k slots) (hn : k.opened n = false) :
    (k.openFd n).closeFd n = k := by
  obtain ⟨opened, entry⟩ := k
  rw [Interest.closeFd, mk.injEq]
  refine ⟨funext fun m => ?_, funext fun l => funext fun m => ?_⟩
  · show (if m = n then false else if m = n then true else opened m) = _
    split
    · next hm => rw [hm]; exact hn.symm
    · rfl
  · split
    · next hm =>
        refine Eq.symm ((Option.eq_none_iff_forall_ne_some).mpr fun p he => ?_)
        have hopened := (h.entry_sole he).1
        rw [hm] at hopened
        exact nomatch hopened.symm.trans hn
    · rfl

/-- Whoever has no number open may be given another. -/
theorem Sound.congr (h : Sound k slots)
    (hs : ∀ i, slots' i = slots i ∨ (slots i).live = false ∧
      (slots' i).live = false ∧ (slots' i).added = false) :
    Sound k slots' := by
  have hlive : ∀ i, (slots' i).live = true → slots' i = slots i := fun i hi =>
    (hs i).resolve_right fun hd => nomatch hi.symm.trans hd.2.1
  have hadded : ∀ i, (slots' i).added = true → slots' i = slots i := fun i hi =>
    (hs i).resolve_right fun hd => nomatch hi.symm.trans hd.2.2
  refine ⟨fun i hi => ?_, fun i j hi hj heq => ?_, fun i hi => ?_,
    fun l n i => ⟨fun he => ?_, fun he => ?_⟩⟩
  · have hsame := hlive i hi
    rw [hsame] at hi ⊢
    exact h.opened i hi
  · have hi' := hlive i hi
    have hj' := hlive j hj
    rw [hi'] at hi heq
    rw [hj'] at hj heq
    exact h.sole i j hi hj heq
  · have hsame := hadded i hi
    rw [hsame] at hi ⊢
    exact h.live i hi
  · have hin := (h.entry l n i).mp he
    have hsame : slots' i = slots i := (hs i).resolve_right fun hd =>
      nomatch (h.live i hin.1).symm.trans hd.1
    rw [hsame]
    exact hin
  · rw [hadded i he.1] at he
    exact (h.entry l n i).mpr he

/-- The owner of a number is the only one the list has it for. -/
theorem Sound.entry_owner (h : Sound k slots) (hp : (slots p).live = true)
    (he : k.entry l (slots p).fd = some q) :
    q = p ∧ (slots p).added = true ∧ (slots p).list = l := by
  obtain ⟨hq, hlist, hfd⟩ := (h.entry _ _ _).mp he
  obtain rfl := h.sole q p (h.live q hq) hp hfd
  exact ⟨rfl, hq, hlist⟩

theorem Sound.accepts [DecidableEq ι] (h : Sound k slots)
    (hp : (slots p).live = true) :
    k.accepts (slots p).list (slots p).fd p = true := by
  rw [Interest.accepts, h.opened p hp, Bool.true_and, Bool.or_eq_true,
    beq_iff_eq, beq_iff_eq]
  cases he : k.entry (slots p).list (slots p).fd with
  | none => exact .inl rfl
  | some q => exact .inr (by rw [(h.entry_owner hp he).1])

/-- A call on behalf of one object: the others have what they had. -/
theorem Sound.change {k' : Interest ι} (h : Sound k slots)
    (hrest : ∀ i, i ≠ p → slots' i = slots i)
    (hopened : ∀ i, i ≠ p → (slots i).live = true →
      k'.opened (slots i).fd = true)
    (hown : (slots' p).live = true → k'.opened (slots' p).fd = true ∧
      ∀ i, i ≠ p → (slots i).live = true → (slots i).fd ≠ (slots' p).fd)
    (hadded : (slots' p).added = true → (slots' p).live = true)
    (hself : ∀ l n, k'.entry l n = some p ↔
      (slots' p).added = true ∧ (slots' p).list = l ∧ (slots' p).fd = n)
    (hother : ∀ l n i, i ≠ p →
      (k'.entry l n = some i ↔ k.entry l n = some i)) : Sound k' slots' := by
  refine ⟨fun i hi => ?_, fun i j hi hj hfd => ?_, fun i hi => ?_,
    fun l n i => ?_⟩
  · by_cases hip : i = p
    · exact hip ▸ (hown (hip ▸ hi)).1
    · rw [hrest i hip] at hi ⊢
      exact hopened i hip hi
  · by_cases hip : i = p
    · by_cases hjp : j = p
      · exact hip.trans hjp.symm
      · rw [hrest j hjp] at hj hfd
        exact absurd (hip ▸ hfd.symm) ((hown (hip ▸ hi)).2 j hjp hj)
    · rw [hrest i hip] at hi hfd
      by_cases hjp : j = p
      · exact absurd (hjp ▸ hfd) ((hown (hjp ▸ hj)).2 i hip hi)
      · rw [hrest j hjp] at hj hfd
        exact h.sole i j hi hj hfd
  · by_cases hip : i = p
    · exact hip ▸ hadded (hip ▸ hi)
    · rw [hrest i hip] at hi ⊢
      exact h.live i hi
  · by_cases hip : i = p
    · rw [hip]
      exact hself l n
    · rw [hrest i hip, hother l n i hip]
      exact h.entry l n i

/-- A number is opened by somebody who had none. -/
theorem Sound.openFd (h : Sound k slots)
    (hrest : ∀ i, i ≠ p → slots' i = slots i)
    (hp : (slots p).live = false) (hfree : k.opened n = false)
    (hfd : (slots' p).fd = n) (hadded : (slots' p).added = false) :
    Sound (k.openFd n) slots' := by
  refine h.change hrest (fun i _ hi => ?_) (fun _ => ⟨if_pos hfd, ?_⟩)
    (fun ha => ?_) (fun l n => ?_) (fun _ _ _ _ => Iff.rfl)
  · show (if (slots i).fd = n then true else _) = true
    split
    · rfl
    · exact h.opened i hi
  · intro i _ hi heq
    have hopened := h.opened i hi
    rw [heq, hfd, hfree] at hopened
    cases hopened
  · rw [hadded] at ha
    cases ha
  · rw [hadded]
    exact ⟨fun he => absurd he (h.not_entry hp), fun he => nomatch he.1⟩

/-- Whoever has a number open has it registered. -/
theorem Sound.add (h : Sound k slots)
    (hrest : ∀ i, i ≠ p → slots' i = slots i) (hp : (slots p).live = true)
    (hlive : (slots' p).live = true) (hadded : (slots' p).added = true)
    (hlist : (slots' p).list = (slots p).list)
    (hfd : (slots' p).fd = (slots p).fd) (hnew : (slots p).added = false) :
    Sound (k.add (slots p).list (slots p).fd p) slots' := by
  refine h.change hrest (fun i _ hi => h.opened i hi)
    (fun _ => ⟨hfd ▸ h.opened p hp, fun i hi hl heq => ?_⟩) (fun _ => hlive)
    (fun l n => ?_) (fun l n i hi => ?_)
  · exact hi (h.sole i p hl hp (heq.trans hfd))
  · show (if l = (slots p).list ∧ n = (slots p).fd then some p
      else k.entry l n) = some p ↔ _
    rw [hadded, hlist, hfd]
    split
    · next heq => exact ⟨fun _ => ⟨rfl, heq.1.symm, heq.2.symm⟩, fun _ => rfl⟩
    · next hne =>
        refine ⟨fun he => ?_, fun he => ?_⟩
        · exact absurd ((h.entry l n p).mp he).1 (by rw [hnew]; nofun)
        · exact absurd ⟨he.2.1.symm, he.2.2.symm⟩ hne
  · show (if l = (slots p).list ∧ n = (slots p).fd then some p
      else k.entry l n) = some i ↔ _
    split
    · next heq =>
        refine ⟨fun he => absurd (Option.some.inj he).symm hi, fun he => ?_⟩
        rw [heq.1, heq.2] at he
        exact absurd (h.entry_owner hp he).1 hi
    · exact Iff.rfl

/-- Whoever has a number open has it taken off his list. -/
theorem Sound.del (h : Sound k slots)
    (hrest : ∀ i, i ≠ p → slots' i = slots i) (hp : (slots p).live = true)
    (hadded : (slots' p).added = false)
    (hfd : (slots' p).fd = (slots p).fd) :
    Sound (k.del (slots p).list (slots p).fd) slots' := by
  refine h.change hrest (fun i _ hi => h.opened i hi)
    (fun _ => ⟨hfd ▸ h.opened p hp, fun i hi hl heq => ?_⟩)
    (fun ha => by rw [hadded] at ha; cases ha) (fun l n => ?_)
    (fun l n i hi => ?_)
  · exact hi (h.sole i p hl hp (heq.trans hfd))
  · show (if l = (slots p).list ∧ n = (slots p).fd then none
      else k.entry l n) = some p ↔ _
    rw [hadded]
    refine ⟨fun he => ?_, fun he => nomatch he.1⟩
    split at he
    · cases he
    · next hne =>
        have hin := (h.entry l n p).mp he
        exact absurd ⟨hin.2.1.symm, hin.2.2.symm⟩ hne
  · show (if l = (slots p).list ∧ n = (slots p).fd then none
      else k.entry l n) = some i ↔ _
    split
    · next heq =>
        refine ⟨nofun, fun he => ?_⟩
        rw [heq.1, heq.2] at he
        exact absurd (h.entry_owner hp he).1 hi
    · exact Iff.rfl

/-- Whoever has a number open closes it. -/
theorem Sound.closeFd (h : Sound k slots)
    (hrest : ∀ i, i ≠ p → slots' i = slots i) (hp : (slots p).live = true)
    (hlive : (slots' p).live = false) (hadded : (slots' p).added = false) :
    Sound (k.closeFd (slots p).fd) slots' := by
  have hne : ∀ i, i ≠ p → (slots i).live = true →
      (slots i).fd ≠ (slots p).fd := fun i hi hl heq =>
    hi (h.sole i p hl hp heq)
  refine h.change hrest (fun i hi hl => ?_)
    (fun hl => by rw [hlive] at hl; cases hl)
    (fun ha => by rw [hadded] at ha; cases ha) (fun l n => ?_)
    (fun l n i hi => ?_)
  · exact (if_neg (hne i hi hl)).trans (h.opened i hl)
  · show (if n = (slots p).fd then none else k.entry l n) = some p ↔ _
    rw [hadded]
    refine ⟨fun he => ?_, fun he => nomatch he.1⟩
    split at he
    · cases he
    · next hn => exact absurd ((h.entry l n p).mp he).2.2.symm hn
  · show (if n = (slots p).fd then none else k.entry l n) = some i ↔ _
    split
    · next hn =>
        refine ⟨nofun, fun he => ?_⟩
        obtain ⟨ha, -, hfd⟩ := (h.entry l n i).mp he
        exact absurd (hfd.trans hn) (hne i hi (h.live i ha))
    · exact Iff.rfl

/-- A number that is not registered goes from one object to another. -/
theorem Sound.handOver (h : Sound k slots)
    (hrest : ∀ i, i ≠ p → i ≠ q → slots' i = slots i)
    (hp : (slots p).live = true) (hnew : (slots p).added = false)
    (hq : (slots q).live = false) (hdead : (slots' p).live = false)
    (hadded : (slots' p).added = false ∧ (slots' q).added = false)
    (hfd : (slots' q).fd = (slots p).fd) : Sound k slots' := by
  have hqa : (slots q).added = false := by
    cases ha : (slots q).added with
    | false => rfl
    | true => exact (h.live q ha).symm.trans hq
  -- whoever has a number now is `q`, with that of `p`, or had it before
  have hlive : ∀ i, (slots' i).live = true → i = q ∨
      i ≠ p ∧ i ≠ q ∧ slots' i = slots i ∧ (slots i).fd ≠ (slots' q).fd := by
    intro i hi
    by_cases hip : i = p
    · rw [hip, hdead] at hi
      cases hi
    · by_cases hiq : i = q
      · exact .inl hiq
      · have hsame := hrest i hip hiq
        rw [hsame] at hi
        exact .inr ⟨hip, hiq, hsame, fun heq =>
          hip (h.sole i p hi hp (heq.trans hfd))⟩
  have hentry : ∀ i, (slots' i).added = true → slots' i = slots i := by
    intro i hi
    refine hrest i (fun hip => ?_) (fun hiq => ?_)
    · rw [hip, hadded.1] at hi
      cases hi
    · rw [hiq, hadded.2] at hi
      cases hi
  refine ⟨fun i hi => ?_, fun i j hi hj heq => ?_, fun i hi => ?_,
    fun l n i => ⟨fun he => ?_, fun he => ?_⟩⟩
  · rcases hlive i hi with rfl | ⟨-, -, hsame, -⟩
    · exact hfd ▸ h.opened p hp
    · rw [hsame] at hi ⊢
      exact h.opened i hi
  · rcases hlive i hi with rfl | ⟨-, -, hsame, hne⟩
    · rcases hlive j hj with rfl | ⟨-, -, hsame, hne⟩
      · rfl
      · exact absurd (hsame ▸ heq.symm) hne
    · rcases hlive j hj with rfl | ⟨-, -, hsame', -⟩
      · exact absurd (hsame ▸ heq) hne
      · rw [hsame] at hi heq
        rw [hsame'] at hj heq
        exact h.sole i j hi hj heq
  · have hsame := hentry i hi
    rw [hsame] at hi ⊢
    exact h.live i hi
  · have hin := (h.entry l n i).mp he
    have hsame : slots' i = slots i := by
      refine hrest i (fun hip => ?_) (fun hiq => ?_)
      · exact absurd (hip ▸ hin.1) (by rw [hnew]; nofun)
      · exact absurd (hiq ▸ hin.1) (by rw [hqa]; nofun)
    rw [hsame]
    exact hin
  · rw [hentry i he.1] at he
    exact (h.entry l n i).mpr he

end

end Interest
