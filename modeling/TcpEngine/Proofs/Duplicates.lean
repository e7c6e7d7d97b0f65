import TcpEngine.Proofs.Attendance

/-!
Old duplicates of a SYN. A SYN outside the receive window should do no more than have the connection say
what it expects. But a segment is taken for one inside the window if its last number is inside, whatever
its first, and then the flag alone ends the connection.
-/
namespace TcpEngine

def Header.last (h : Header) : SeqNumber := h.seq.advance (h.sequenceLength - 1)

theorem Header.long_of_syn {h : Header} (syn : h.flags.has .syn = true) : 0 < h.sequenceLength := by
  rw [sequenceLength, Flags.sequenceLength, syn, Bool.toNat_true]
  omega

namespace Connection

variable {c : Connection} {s : Segment} {h : Header} {iss : SeqNumber} {now : Instant}

def InWindow (c : Connection) (a : SeqNumber) : Prop := a.ahead c.receive.next < c.window

instance (c : Connection) (a : SeqNumber) : Decidable (c.InWindow a) :=
  inferInstanceAs (Decidable (_ < _))

theorem Limited.window (limited : Limited c) : c.window < SeqNumber.halfCircle := by
  have room := limited.room
  simp only [Connection.window, Ring.window, SeqNumber.halfCircle]
  omega

/-- Whether a segment fits that takes at least one number and begins outside the window. -/
theorem acceptable_outside (limited : Limited c) (takes : 0 < h.sequenceLength)
    (outside : ¬ c.InWindow h.seq) :
    c.acceptable h = if c.window = 0 then .ok false
      else if h.sequenceLength ≤ SeqNumber.halfCircle then .ok (decide (c.InWindow h.last))
      else .error .sequenceAddOverflow := by
  have small := limited.window
  have first : h.seq.inWindow c.receive.next c.window = .ok false := by
    rw [SeqNumber.inWindow_eq small]
    exact congrArg Except.ok (decide_eq_false outside)
  unfold acceptable
  rw [if_neg (Nat.ne_of_gt takes)]
  by_cases shut : c.window = 0
  · rw [if_pos shut, if_pos shut]
  · rw [if_neg shut, if_neg shut, first]
    by_cases short : h.sequenceLength ≤ SeqNumber.halfCircle
    · have sum : h.seq.add (h.sequenceLength - 1) = .ok h.last :=
        SeqNumber.add_ok.mpr ⟨by omega, rfl⟩
      rw [if_pos short, sum]
      exact SeqNumber.inWindow_eq small
    · rw [if_neg short, SeqNumber.add, if_neg (by omega)]
      rfl

/-- The segment is answered by an acknowledgment. It changes nothing but the time of waiting, and that
    only in TIME-WAIT. -/
def Shrugs (c : Connection) (act : Act Arrival) : Prop :=
  ∃ answer waitingSince, c.control [.ack] = some answer ∧
    act.Ends [] ⟨{ c with waitingSince }, [answer]⟩ ∧
    (c.state = .timeWait ∨ waitingSince = c.waitingSince)

theorem arrivesSynchronized_unfit (coherent : Coherent c) (live : c.state.isSynchronized = true)
    (calm : s.header.flags.has .rst = false) (unfit : c.acceptable s.header = .ok false) :
    c.Shrugs (c.arrivesSynchronized s now) := by
  obtain ⟨peer, known⟩ := Option.isSome_iff_exists.mp (coherent.peer live)
  obtain ⟨answer, sent⟩ : ∃ answer, c.control [.ack] = some answer := by
    rw [control, segment, known]
    exact ⟨_, rfl⟩
  unfold arrivesSynchronized
  dsimp only
  rw [unfit, Act.lift_bind, calm]
  simp only [Bool.false_eq_true, if_false]
  split
  · rename_i waits
    refine ⟨answer, now, sent, ?_, Or.inl waits.1⟩
    have same : Connection.control { c with waitingSince := now } [.ack] = some answer := sent
    rw [same]
    exact Act.ends_pure.mpr ⟨rfl, rfl⟩
  · refine ⟨answer, c.waitingSince, sent, ?_, Or.inr rfl⟩
    rw [sent]
    exact Act.ends_pure.mpr ⟨rfl, rfl⟩

theorem arrivesSynchronized_syn (calm : s.header.flags.has .rst = false)
    (syn : s.header.flags.has .syn = true) (fits : c.acceptable s.header = .ok true) :
    (c.arrivesSynchronized s now).Ends (c.waiting.map (.fails .connectionReset))
      (.answered c.shut (c.control [.rst])) := by
  have ends : (c.terminate .connectionReset).Ends _ c.shut := terminate_ends.mpr ⟨rfl, rfl⟩
  unfold arrivesSynchronized
  dsimp only
  rw [fits, Act.lift_bind, calm, syn]
  simp only [if_true, Bool.false_eq_true, if_false]
  exact ends.silently rfl

end Connection

namespace Stack

variable {k : Stack} {σ : List Signal} {history : List (Event × Instant)} {here : Endpoint}
  {c : Connection} {s : Segment} {iss : SeqNumber} {now : Instant}

/-- In every history that begins with an empty table, a SYN whose own number lies outside the receive
    window of a synchronized connection is answered by an acknowledgment and changes nothing, exactly if
    its last number lies outside as well, or the window is closed. -/
theorem old_syn_shrugged_iff {config : Config} {generator : SeqGenerator}
    (ends : ((Stack.empty config generator).run 0 history).Ends σ k)
    (found : k.table.get? here = some c) (live : c.state.isSynchronized = true)
    (syn : s.header.flags.has .syn = true) (calm : s.header.flags.has .rst = false)
    (outside : ¬ c.InWindow s.header.seq) :
    c.Shrugs (c.arrives s iss now) ↔ c.window = 0 ∨
      s.header.sequenceLength ≤ SeqNumber.halfCircle ∧ ¬ c.InWindow s.header.last := by
  have sound := run_sound (sound_empty config generator) ends
  have coherent := sound.proper.found found
  have fits := Connection.acceptable_outside (sound.limited c (Table.get?_some found).1)
    (Header.long_of_syn syn) outside
  rw [Connection.arrives_synchronized live]
  constructor
  · intro shrugs
    obtain ⟨answer, waitingSince, _, quiet, _⟩ := shrugs
    by_cases shut : c.window = 0
    · exact Or.inl shut
    · rw [if_neg shut] at fits
      split at fits
      · rename_i short
        refine Or.inr ⟨short, fun inside => ?_⟩
        rw [decide_eq_true inside] at fits
        have ended : (c.arrivesSynchronized s now).Ends _ _ :=
          Connection.arrivesSynchronized_syn calm syn fits
        have same := (quiet.eq_result ⟨c, []⟩).trans (ended.eq_result ⟨c, []⟩).symm
        have state : c.state = .closed := congrArg (fun a : Arrival => a.connection.state) same
        rw [state] at live
        cases live
      · unfold Connection.arrivesSynchronized at quiet
        obtain ⟨_, _, _, tested, _⟩ := Act.ends_bind.mp quiet
        cases fits.symm.trans (Act.ends_lift.mp tested).2
  · rintro (shut | ⟨short, beyond⟩)
    · rw [if_pos shut] at fits
      exact Connection.arrivesSynchronized_unfit coherent live calm fits
    · refine Connection.arrivesSynchronized_unfit coherent live calm ?_
      rw [fits, decide_eq_false beyond, if_pos short, ite_self]

theorem greeting_shrugged : ∃ σ k c s,
    ((Stack.empty { receiveWindow := 8 } (.ofKey 1 2)).run 0
      (greeted ++ [(welcome, .start)])).Ends σ k ∧
    k.table.get? ⟨⟨10, 0, 0, 1⟩, 80⟩ = some c ∧ greeting.segment? = some s ∧
    (c.Shrugs (c.arrives s ⟨0⟩ .start) ↔ c.window = 0 ∨
      s.header.sequenceLength ≤ SeqNumber.halfCircle ∧ ¬ c.InWindow s.header.last) ∧
    ¬ c.InWindow s.header.last := by
  let start := Stack.empty { receiveWindow := 8 } (.ofKey 1 2)
  let k := (start.run 0 (greeted ++ [(welcome, .start)])).result start
  let c := (k.table.get? ⟨⟨10, 0, 0, 1⟩, 80⟩).getD (.bound ⟨⟨10, 0, 0, 1⟩, 80⟩ {})
  let s := greeting.segment?.get (by decide +kernel)
  have ends : (start.run 0 (greeted ++ [(welcome, .start)])).Ends _ k :=
    Act.ends_result start (by decide +kernel)
  have found : k.table.get? ⟨⟨10, 0, 0, 1⟩, 80⟩ = some c := by decide +kernel
  have live : c.state.isSynchronized = true := by decide +kernel
  have syn : s.header.flags.has .syn = true := by decide +kernel
  have calm : s.header.flags.has .rst = false := by decide +kernel
  have outside : ¬ c.InWindow s.header.seq := by decide +kernel
  exact ⟨_, k, c, s, ends, found, Option.some_get _ |>.symm,
    old_syn_shrugged_iff ends found live syn calm outside, by decide +kernel⟩

def halfRead : List (Event × Instant) :=
  expecting.take 2 ++
    [(greeting, .start),
     -- There is room for half of the text only, which is read by now.
     (.ingress [19, 136, 0, 80, 0, 0, 3, 237, 198, 236, 74, 6, 80, 16, 1, 244, 113, 38, 0, 0]
       ⟨10, 0, 0, 2⟩ ⟨10, 0, 0, 1⟩, .start),
     (.receive ⟨⟨10, 0, 0, 1⟩, 80⟩ 4, .start)]

/-- A duplicate of the SYN that opened the connection ends it. -/
theorem greeting_resets : ∃ σ k c s a,
    ((Stack.empty { receiveWindow := 4 } (.ofKey 1 2)).run 0 halfRead).Ends σ k ∧
    k.table.get? ⟨⟨10, 0, 0, 1⟩, 80⟩ = some c ∧ c.state = .established ∧
    greeting.segment? = some s ∧ s.header.seq = c.receive.initial ∧
    s.header.flags.has .syn = true ∧ s.header.flags.has .rst = false ∧
    ¬ c.InWindow s.header.seq ∧ (c.arrives s ⟨0⟩ .start).Ends [] a ∧ a.connection.state = .closed := by
  let start := Stack.empty { receiveWindow := 4 } (.ofKey 1 2)
  let k := (start.run 0 halfRead).result start
  let c := (k.table.get? ⟨⟨10, 0, 0, 1⟩, 80⟩).getD (.bound ⟨⟨10, 0, 0, 1⟩, 80⟩ {})
  let s := greeting.segment?.get (by decide +kernel)
  have ends : (start.run 0 halfRead).Ends _ k := Act.ends_result start (by decide +kernel)
  let act := c.arrives s ⟨0⟩ .start
  have silent : act.signals = [] := by decide +kernel
  have resets : act.Ends act.signals (act.result ⟨c, []⟩) := Act.ends_result _ (by decide +kernel)
  rw [silent] at resets
  exact ⟨_, k, c, s, _, ends, by decide +kernel, by decide +kernel, Option.some_get _ |>.symm,
    by decide +kernel, by decide +kernel, by decide +kernel, by decide +kernel, resets,
    by decide +kernel⟩

end Stack
end TcpEngine
