import TcpEngine.Proofs.Connection.Success
import TcpEngine.Proofs.Acknowledgment

/-!
Sequence numbers as integers modulo `2 ^ 32`. Seen from one number, the order, the sums and the
differences of others are those of integers as long as less than half the circle is spanned. A window
needs no such care about the number that is looked for, and so the test of acceptance is a table of
distances modulo `2 ^ 32`.
-/
namespace TcpEngine
namespace SeqNumber

def gap (a b : SeqNumber) : Int := ((a.val.toNat : Int) - b.val.toNat) % 4294967296

variable {a b s : SeqNumber} {x y n : Nat}

theorem ahead_eq_gap (a b : SeqNumber) : (a.ahead b : Int) = a.gap b := by
  have first := a.val.toNat_lt
  have second := b.val.toNat_lt
  simp only [ahead, gap, UInt32.toNat_sub]
  omega

theorem gap_eq_zero : a.gap b = 0 ↔ a = b := by
  rw [← ahead_eq_gap, Int.natCast_eq_zero, ← eq_iff_ahead, eq_comm]

theorem gap_advance (a b : SeqNumber) (n : Nat) :
    (a.advance n).gap b = (a.gap b + n) % 4294967296 := by
  simp only [gap, advance, UInt32.toNat_add, UInt32.toNat_ofNat']
  omega

theorem advance_toNat (a : SeqNumber) (n : Nat) :
    (a.advance n).val.toNat = (a.val.toNat + n) % 4294967296 := by
  simp only [advance, UInt32.toNat_add, UInt32.toNat_ofNat']
  omega

theorem add_within (b : SeqNumber) (near : x < halfCircle) : b.add x = .ok (b.advance x) :=
  add_ok.mpr ⟨near, rfl⟩

theorem distance_advance (first : x < halfCircle) (second : y < halfCircle) :
    (b.advance y).distance (b.advance x) = if x ≤ y then .ok (y - x) else .error .sequenceUnderflow := by
  simp only [halfCircle] at first second
  unfold distance
  split
  · rename_i near
    by_cases order : x ≤ y
    · rw [if_pos order, ahead_advance_of_le order (by omega)]
    · rw [ahead_advance_of_lt (Nat.not_le.mp order) (by omega), halfCircle] at near
      omega
  · rename_i far
    by_cases order : x ≤ y
    · rw [ahead_advance_of_le order (by omega), halfCircle] at far
      omega
    · rw [if_neg order]

theorem sub_advance (near : x < halfCircle) : (b.advance x).sub x = .ok b := by
  unfold sub
  rw [if_pos near]
  simp [advance]

theorem inWindow_gap (a s : SeqNumber) (short : n < halfCircle) :
    a.inWindow s n = .ok (decide (a.gap s < n)) := by
  rw [inWindow_eq short, Except.ok.injEq, decide_eq_decide, ← ahead_eq_gap]
  omega

end SeqNumber

/-- Whether a segment is admitted that begins at `seq` and takes so many numbers, into a window of such
    a size from `next` on. One that takes numbers may reach into the window with the first of them or
    with the last. -/
def Admits (next seq : SeqNumber) : Nat → Nat → Prop
  | 0, 0 => seq.gap next = 0
  | 0, window + 1 => seq.gap next < window + 1
  | _ + 1, 0 => False
  | length + 1, window + 1 =>
    seq.gap next < window + 1 ∨ (seq.gap next + length) % 4294967296 < window + 1

instance (next seq : SeqNumber) : (length window : Nat) → Decidable (Admits next seq length window)
  | 0, 0 => inferInstanceAs (Decidable (_ = _))
  | 0, _ + 1 => inferInstanceAs (Decidable (_ < _))
  | _ + 1, 0 => inferInstanceAs (Decidable False)
  | _ + 1, _ + 1 => inferInstanceAs (Decidable (_ ∨ _))

theorem Header.sequenceLength_le (h : Header) : h.sequenceLength ≤ h.textLength + 2 := by
  have syn := Bool.toNat_le (h.flags.has .syn)
  have fin := Bool.toNat_le (h.flags.has .fin)
  simp only [sequenceLength, Flags.sequenceLength]
  omega

theorem Connection.acceptable_admits {c : Connection} {h : Header} (room : c.window < SeqNumber.halfCircle)
    (short : h.sequenceLength ≤ SeqNumber.halfCircle) :
    c.acceptable h = .ok (decide (Admits c.receive.next h.seq h.sequenceLength c.window)) := by
  unfold acceptable
  generalize h.sequenceLength = length at short
  generalize c.window = window at room
  match length, window with
  | 0, 0 =>
    rw [if_pos rfl, if_pos rfl]
    refine congrArg Except.ok (Bool.eq_iff_iff.mpr ?_)
    rw [beq_iff_eq, decide_eq_true_iff]
    exact SeqNumber.gap_eq_zero.symm
  | 0, window + 1 =>
    rw [if_pos rfl, if_neg (Nat.succ_ne_zero window), SeqNumber.inWindow_gap _ _ room]
    exact congrArg Except.ok (decide_eq_decide.mpr Iff.rfl)
  | length + 1, 0 => rfl
  | length + 1, window + 1 =>
    have last : h.seq.add length = .ok (h.seq.advance length) := SeqNumber.add_within _ (by omega)
    rw [if_neg (Nat.succ_ne_zero length), if_neg (Nat.succ_ne_zero window), Nat.add_sub_cancel, last,
      SeqNumber.inWindow_gap _ _ room]
    by_cases first : h.seq.gap c.receive.next < (window + 1 : Nat)
    · rw [decide_eq_true first]
      exact congrArg Except.ok (decide_eq_true (Or.inl first)).symm
    · rw [decide_eq_false first]
      change (h.seq.advance length).inWindow c.receive.next (window + 1) = _
      rw [SeqNumber.inWindow_gap _ _ room, SeqNumber.gap_advance]
      exact congrArg Except.ok (decide_eq_decide.mpr (or_iff_right first).symm)

/-- Numbers less than half the circle behind another one are ordered, subtracted and taken back like
    integers, and the difference is refused where it would be negative. A window holds exactly the numbers
    whose distance from its start is less than its length. A segment as long as a datagram allows is
    acceptable exactly if the table admits it, at any connection whose buffer has the room that every
    connection is bound with. -/
theorem sequence_numbers_like_integers :
    (∀ (b : SeqNumber) {x y : Nat}, x < 2147483648 → y < 2147483648 →
      ∃ p q, b.add x = .ok p ∧ b.add y = .ok q ∧
        p.val.toNat = (b.val.toNat + x) % 4294967296 ∧ p.order q = compare x y ∧
        (p.atOrBefore q = true ↔ x ≤ y) ∧
        q.distance p = (if x ≤ y then .ok (y - x) else .error .sequenceUnderflow) ∧
        p.sub x = .ok b) ∧
    (∀ (a s : SeqNumber) {n : Nat}, n ≤ 2147483647 →
      a.inWindow s n = .ok (decide (((a.val.toNat : Int) - s.val.toNat) % 4294967296 < n))) ∧
    (∀ (c : Connection) (h : Header), c.buffer.capacity ≤ 65535 → h.textLength ≤ 65535 →
      c.acceptable h = .ok (decide (Admits c.receive.next h.seq h.sequenceLength c.window))) ∧
    ∀ {config : Config} {generator : SeqGenerator} {history : List (Event × Instant)} {σ : List Signal}
      {k : Stack}, ((Stack.empty config generator).run 0 history).Ends σ k →
      ∀ c ∈ k.table.connections, c.buffer.capacity ≤ 65535 := by
  refine ⟨?_, ?_, ?_, ?_⟩
  · intro b x y first second
    have near : SeqNumber.Near x y := by
      constructor <;> simp only [SeqNumber.halfCircle] <;> omega
    exact ⟨_, _, SeqNumber.add_within b first, SeqNumber.add_within b second,
      SeqNumber.advance_toNat b x, SeqNumber.order_advance near, SeqNumber.atOrBefore_advance near,
      SeqNumber.distance_advance first second, SeqNumber.sub_advance first⟩
  · intro a s n short
    exact SeqNumber.inWindow_gap a s (Nat.lt_succ_of_le short)
  · intro c h room short
    have brief := h.sequenceLength_le
    apply Connection.acceptable_admits
    · simp only [Connection.window, Ring.window, SeqNumber.halfCircle]
      omega
    · simp only [SeqNumber.halfCircle]
      omega
  · intro config generator history σ k ends c member
    exact ((Stack.run_sound (Stack.sound_empty config generator) ends).limited c member).room

theorem wrapped_like_integers :
    (∃ p q, SeqNumber.add ⟨0xffffffff⟩ 1 = .ok p ∧ SeqNumber.add ⟨0xffffffff⟩ 3 = .ok q ∧
      p.atOrBefore q = true ∧ q.distance p = .ok 2 ∧ p.distance q = .error .sequenceUnderflow) ∧
    SeqNumber.inWindow ⟨0x80000000⟩ ⟨0⟩ 2147483647 = .ok false ∧
    (Connection.bound ⟨⟨10, 0, 0, 1⟩, 49152⟩ { receiveWindow := 8 }).acceptable
      ⟨80, 49152, ⟨1⟩, ⟨0xfffffffe⟩, none, 0, 0, 2⟩ = .ok true ∧
    ∃ σ k, ((Stack.empty { receiveWindow := 8 } (.ofKey 1 2)).run 0 Stack.asking).Ends σ k ∧
      ∀ c ∈ k.table.connections, c.buffer.capacity ≤ 65535 := by
  obtain ⟨integers, windows, table, bound⟩ := sequence_numbers_like_integers
  obtain ⟨p, q, first, second, _, _, order, apart, _⟩ :=
    integers ⟨0xffffffff⟩ (show 1 < 2147483648 by decide) (show 3 < 2147483648 by decide)
  obtain ⟨q', p', second', first', _, _, _, crossed, _⟩ :=
    integers ⟨0xffffffff⟩ (show 3 < 2147483648 by decide) (show 1 < 2147483648 by decide)
  obtain rfl := Except.ok.inj (first.symm.trans first')
  obtain rfl := Except.ok.inj (second.symm.trans second')
  have ends : ((Stack.empty { receiveWindow := 8 } (.ofKey 1 2)).run 0 Stack.asking).Ends _ _ :=
    Act.ends_result (.empty {} (.ofKey 1 2)) (by decide +kernel)
  refine ⟨⟨p, q, first, second, order.mpr (by decide), apart, crossed⟩, ?_, ?_, _, _, ends, bound ends⟩
  · exact (windows ⟨0x80000000⟩ ⟨0⟩ (Nat.le_refl _)).trans (by decide)
  · exact (table _ _ (by decide) (by decide)).trans (by decide +kernel)

end TcpEngine
