import TcpEngine.Proofs.Faultless
import TcpEngine.Proofs.RightEdge

/-!
Text that goes on where the text before it ended. A segment with such text is read if it begins just there,
or ends inside the window, and then as much of its text is taken in as there is room for. If it begins
earlier and ends behind the window, none of it is taken in.
-/
namespace TcpEngine
namespace Connection

variable {c : Connection} {s : Segment}

structure Continues (c : Connection) (s : Segment) : Prop where
  calm : s.header.flags.has .rst = false
  plain : s.header.flags.has .syn = false
  sent : ∃ ack ∈ s.header.ack, ack.after c.send.next = false
  reaches : c.receive.next.ahead s.header.seq < s.text.length

/-- Such a segment fits just if it begins at the next number expected or ends inside the window. -/
theorem Continues.fits_iff (continues : c.Continues s) (limited : Limited c) (sized : s.Sized)
    (wide : 0 < c.window) : c.Fits s.header ↔ s.header.seq = c.receive.next ∨ c.InWindow s.header.last := by
  have reaches := continues.reaches
  have room := limited.room
  have long := sized.long
  have short := sized.short
  have takes : 0 < s.header.sequenceLength := by
    simp only [Header.sequenceLength]
    omega
  have narrow : c.window ≤ 65535 := Nat.le_trans (Nat.sub_le _ _) room
  have first : c.InWindow s.header.seq ↔ s.header.seq = c.receive.next := by
    constructor
    · intro inside
      have back := SeqNumber.ahead_from s.header.seq c.receive.next s.header.seq
      rw [SeqNumber.ahead_self] at back
      unfold InWindow at inside
      exact SeqNumber.eq_iff_ahead.mpr (by omega)
    · intro same
      rw [InWindow, same, SeqNumber.ahead_self]
      exact wide
  simp only [Fits, first, takes, Nat.ne_of_gt takes, Nat.ne_of_gt wide, true_and, false_and, or_false]

theorem Continues.looks (continues : c.Continues s) (receives : c.state.receivesText = true)
    (fits : c.acceptable s.header = .ok true) : c.LooksAt s := by
  obtain ⟨ack, given, sent⟩ := continues.sent
  exact ⟨⟨fits, continues.calm, continues.plain⟩, ack, given, Or.inl ⟨receives, sent⟩⟩

end Connection

namespace Stack

variable {k : Stack} {here : Endpoint} {history : List (Event × Instant)} {σ : List Signal} {c : Connection}
  {generator : SeqGenerator} {s : Segment} {config : Config}

/-- In every history that begins with an empty table, a segment whose text goes on at the next number
    expected brings a connection forward if it begins at that number or ends inside the window: at least as
    much of the text as fits into the window is handed out or put into the buffer. Under settings in range
    nothing stops the arrival. Otherwise the segment is shrugged off. -/
theorem in_order_text_taken (ends : ((Stack.empty config generator).run 0 history).Ends σ k)
    (found : k.table.get? here = some c) (state : c.state ∈ [.established, .finWait1, .finWait2])
    (wide : 0 < c.window) (sized : s.Sized) (continues : c.Continues s) (iss : SeqNumber) (now : Instant) :
    (s.header.seq = c.receive.next ∨ c.InWindow s.header.last →
      (∀ τ a, (c.arrives s iss now).Ends τ a → ∃ more fins,
        more <+: s.text.drop (c.receive.next.ahead s.header.seq) ∧
        min c.window (s.text.length - c.receive.next.ahead s.header.seq) ≤ more.length ∧
        fins ≤ (s.header.flags.has .fin).toNat ∧ Connection.Gains more fins τ c a.connection) ∧
      (config.Sane → (c.arrives s iss now).Succeeds)) ∧
    (¬ (s.header.seq = c.receive.next ∨ c.InWindow s.header.last) → c.Shrugs (c.arrives s iss now)) := by
  have there := (Table.get?_some found).1
  have sound := run_sound (sound_empty config generator) ends
  have limited := sound.limited c there
  have coherent := sound.proper.coherent c there
  have kinds : c.state.isSynchronized = true ∧ c.state.receivesText = true := by
    simp only [List.mem_cons, List.not_mem_nil, or_false] at state
    rcases state with state | state | state <;> rw [state] <;> exact ⟨rfl, rfl⟩
  obtain ⟨live, receives⟩ := kinds
  have short := sized.short
  have reaches := continues.reaches
  have tested := Connection.acceptable_eq limited (Nat.le_trans sized.brief (by decide))
  simp only [continues.fits_iff limited sized wide] at tested
  constructor
  · intro fits
    rw [decide_eq_true fits] at tested
    refine ⟨fun τ a arrives => ?_, fun sane => ?_⟩
    · have filled : s.text ≠ [] := List.ne_nil_of_length_pos (by omega)
      obtain ⟨room, fins, enough, few, gains⟩ := Connection.arrives_advances limited live
        (continues.looks receives tested) filled (SeqNumber.advance_ahead _ _).symm
        (by simp only [SeqNumber.halfCircle]; omega) arrives
      refine ⟨_, fins, List.take_prefix _ _, ?_, few, gains⟩
      rw [List.length_take, List.length_drop]
      omega
    · have able := (run_going (going_empty sane generator) ends).able.each c there
      exact Connection.arrives_succeeds sized limited able.measurable
  · intro outside
    rw [decide_eq_false outside] at tested
    rw [Connection.arrives_synchronized live]
    exact Connection.arrivesSynchronized_unfit coherent live continues.calm tested

def spanning (seq : SeqNumber) : Segment where
  header := ⟨80, 49152, .ofList [.ack], seq, some ⟨171842749⟩, 500, 0, 10⟩
  text := List.replicate 10 97
  src := ⟨10, 0, 0, 2⟩
  dst := ⟨10, 0, 0, 1⟩

theorem spanning_taken : ∃ σ k c τ a more fins,
    ((Stack.empty { receiveWindow := 8 } (.ofKey 1 2)).run 0 (asking ++ [(agreement, .start)])).Ends σ k ∧
    k.table.get? ⟨⟨10, 0, 0, 1⟩, 49152⟩ = some c ∧ c.state = .established ∧
    (c.arrives (spanning ⟨1001⟩) ⟨0⟩ .start).Ends τ a ∧ 8 ≤ more.length ∧
    Connection.Gains more fins τ c a.connection := by
  let start := Stack.empty { receiveWindow := 8 } (.ofKey 1 2)
  let k := (start.run 0 (asking ++ [(agreement, .start)])).result start
  let c := (k.table.get? ⟨⟨10, 0, 0, 1⟩, 49152⟩).getD (.bound ⟨⟨10, 0, 0, 1⟩, 49152⟩ {})
  have ends : (start.run 0 (asking ++ [(agreement, .start)])).Ends _ k :=
    Act.ends_result start (by decide +kernel)
  have found : k.table.get? ⟨⟨10, 0, 0, 1⟩, 49152⟩ = some c := by decide +kernel
  have state : c.state = .established := by decide +kernel
  have window : c.window = 8 := by decide +kernel
  have next : c.receive.next = ⟨1001⟩ := by decide +kernel
  have continues : c.Continues (spanning ⟨1001⟩) :=
    ⟨by decide, by decide, ⟨⟨171842749⟩, rfl, by decide +kernel⟩, by decide +kernel⟩
  have sane : Config.Sane { receiveWindow := 8 } := ⟨by decide, by decide, by decide, by decide⟩
  obtain ⟨taken, _⟩ := in_order_text_taken ends found (by rw [state]; decide) (by rw [window]; decide)
    (by decide) continues ⟨0⟩ .start
  obtain ⟨gains, succeeds⟩ := taken (Or.inl next.symm)
  obtain ⟨τ, a, arrives⟩ := succeeds sane
  obtain ⟨more, fins, _, enough, _, gains⟩ := gains τ a arrives
  rw [window, next] at enough
  exact ⟨_, k, c, τ, a, more, fins, ends, found, state, arrives, enough, gains⟩

/-- None of them is taken if they begin one number earlier. -/
theorem spanning_dropped : ∃ σ k c answer,
    ((Stack.empty { receiveWindow := 8 } (.ofKey 1 2)).run 0 (asking ++ [(agreement, .start)])).Ends σ k ∧
    k.table.get? ⟨⟨10, 0, 0, 1⟩, 49152⟩ = some c ∧ c.state = .established ∧ 0 < c.window ∧
    (spanning ⟨1000⟩).Sized ∧ c.Continues (spanning ⟨1000⟩) ∧
    (c.arrives (spanning ⟨1000⟩) ⟨0⟩ .start).Ends [] ⟨c, [answer]⟩ := by
  let start := Stack.empty { receiveWindow := 8 } (.ofKey 1 2)
  let k := (start.run 0 (asking ++ [(agreement, .start)])).result start
  let c := (k.table.get? ⟨⟨10, 0, 0, 1⟩, 49152⟩).getD (.bound ⟨⟨10, 0, 0, 1⟩, 49152⟩ {})
  let answer := (c.control [.ack]).get (by decide +kernel)
  have ends : (start.run 0 (asking ++ [(agreement, .start)])).Ends _ k :=
    Act.ends_result start (by decide +kernel)
  have continues : c.Continues (spanning ⟨1000⟩) :=
    ⟨by decide, by decide, ⟨⟨171842749⟩, rfl, by decide +kernel⟩, by decide +kernel⟩
  exact ⟨_, k, c, answer, ends, by decide +kernel, by decide +kernel, by decide +kernel, by decide, continues,
    by decide +kernel⟩

end Stack
end TcpEngine
