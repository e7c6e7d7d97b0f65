import TcpEngine.Sequence

/-!
The circle of sequence numbers, unrolled. Numbers are written as places behind a fixed one; as long
as two places are less than half the circle apart, the order of the numbers is that of the places.
-/
namespace TcpEngine
namespace SeqNumber

theorem advance_zero (a : SeqNumber) : a.advance 0 = a := by
  cases a
  simp [advance]

theorem advance_advance (a : SeqNumber) (m n : Nat) :
    (a.advance m).advance n = a.advance (m + n) := by
  simp [advance, UInt32.add_assoc]

theorem add_ok {a b : SeqNumber} {n : Nat} :
    a.add n = .ok b ↔ n < halfCircle ∧ b = a.advance n := by
  unfold add
  split
  · rename_i near
    rw [Except.ok.injEq]
    exact ⟨fun same => ⟨near, same.symm⟩, fun h => h.2.symm⟩
  · rename_i far
    constructor
    · intro h
      cases h
    · intro h
      exact absurd h.1 far

theorem advance_ahead (a b : SeqNumber) : b.advance (a.ahead b) = a := by
  cases a; cases b
  simp only [advance, ahead, UInt32.ofNat_toNat, mk.injEq]
  rw [UInt32.add_comm, UInt32.sub_add_cancel]

theorem ahead_lt (a b : SeqNumber) : a.ahead b < 0x100000000 := UInt32.toNat_lt _

theorem ahead_advance_of_le {a : SeqNumber} {m n : Nat} (order : n ≤ m) (near : m < n + 0x100000000) :
    (a.advance m).ahead (a.advance n) = m - n := by
  have bound := a.val.toNat_lt
  simp only [ahead, advance, UInt32.toNat_sub, UInt32.toNat_add, UInt32.toNat_ofNat']
  omega

theorem ahead_advance_of_lt {a : SeqNumber} {m n : Nat} (order : m < n) (near : n < m + 0x100000000) :
    (a.advance m).ahead (a.advance n) = 0x100000000 - (n - m) := by
  have bound := a.val.toNat_lt
  simp only [ahead, advance, UInt32.toNat_sub, UInt32.toNat_add, UInt32.toNat_ofNat']
  omega

theorem ahead_advance {a : SeqNumber} {n : Nat} (near : n < 0x100000000) :
    (a.advance n).ahead a = n := by
  have h := ahead_advance_of_le (a := a) (Nat.zero_le n) (by omega)
  rwa [advance_zero] at h

theorem ahead_advance_self (a : SeqNumber) (n : Nat) : (a.advance n).ahead a = n % 0x100000000 := by
  have bound := a.val.toNat_lt
  simp only [ahead, advance, UInt32.toNat_sub, UInt32.toNat_add, UInt32.toNat_ofNat']
  omega

def Near (m n : Nat) : Prop := m < n + halfCircle ∧ n < m + halfCircle

theorem order_advance {a : SeqNumber} {m n : Nat} (near : Near m n) :
    (a.advance m).order (a.advance n) = compare m n := by
  obtain ⟨above, below⟩ := near
  simp only [halfCircle] at above below
  unfold order
  rcases Nat.lt_trichotomy m n with less | same | more
  · have apart := ahead_advance_of_lt (a := a) less (by omega)
    rw [apart, if_neg (by omega), if_neg (by simp only [halfCircle]; omega)]
    exact (Nat.compare_eq_lt.mpr less).symm
  · subst same
    rw [ahead_advance_of_le (Nat.le_refl m) (by omega), if_pos (by omega)]
    exact (Nat.compare_eq_eq.mpr rfl).symm
  · have apart := ahead_advance_of_le (a := a) (Nat.le_of_lt more) (by omega)
    rw [apart, if_neg (by omega), if_pos (by simp only [halfCircle]; omega)]
    exact (Nat.compare_eq_gt.mpr more).symm

theorem after_advance {a : SeqNumber} {m n : Nat} (near : Near m n) :
    (a.advance m).after (a.advance n) = true ↔ n < m := by
  rw [after, order_advance near, beq_iff_eq, Nat.compare_eq_gt]

theorem atOrBefore_advance {a : SeqNumber} {m n : Nat} (near : Near m n) :
    (a.advance m).atOrBefore (a.advance n) = true ↔ m ≤ n := by
  rw [atOrBefore, order_advance near, bne_iff_ne, ne_eq, Nat.compare_eq_gt, Nat.not_lt]

theorem advance_eq_iff {a : SeqNumber} {m n : Nat} (above : m < n + 0x100000000)
    (below : n < m + 0x100000000) : a.advance m = a.advance n ↔ m = n := by
  constructor
  · intro same
    have none : (a.advance m).ahead (a.advance n) = 0 := by
      rw [same, ahead_advance_of_le (Nat.le_refl n) (by omega)]
      omega
    rcases Nat.lt_or_ge m n with less | more
    · rw [ahead_advance_of_lt less below] at none
      omega
    · rw [ahead_advance_of_le more above] at none
      omega
  · intro same
    rw [same]

/- The order of numbers, in terms of how far one is ahead of the other. -/

theorem ahead_from (a b origin : SeqNumber) :
    a.ahead b = (a.ahead origin + 0x100000000 - b.ahead origin) % 0x100000000 := by
  have bound := b.val.toNat_lt
  have bound' := origin.val.toNat_lt
  simp only [ahead, UInt32.toNat_sub]
  omega

theorem ahead_self (a : SeqNumber) : a.ahead a = 0 := by
  simp [ahead]

theorem eq_iff_ahead {a b : SeqNumber} : b = a ↔ a.ahead b = 0 := by
  constructor
  · rintro rfl
    exact ahead_self b
  · intro h
    have back := advance_ahead a b
    rw [h, advance_zero] at back
    exact back

/-- At half the circle a number is before the other, and the other before it. -/
theorem before_iff {a b : SeqNumber} :
    a.before b = true ↔ 0 < b.ahead a ∧ b.ahead a ≤ halfCircle := by
  have back := ahead_from a b a
  have bound := ahead_lt b a
  rw [ahead_self] at back
  unfold before order
  split
  · simp
    omega
  · split
    · rename_i near
      simp only [halfCircle] at near ⊢
      simp
      omega
    · rename_i far
      simp only [halfCircle] at far ⊢
      simp
      omega

theorem after_iff {a b : SeqNumber} :
    a.after b = true ↔ 0 < a.ahead b ∧ a.ahead b < halfCircle := by
  unfold after order
  split
  · simp
    omega
  · split
    · simp
      omega
    · simp
      omega

/-- Seen from anywhere, a number is after another if it is farther away, by less than half the circle, or
    if it is so much nearer that the way around the circle is shorter. -/
theorem after_iff_from (a b origin : SeqNumber) : a.after b = true ↔
    b.ahead origin < a.ahead origin ∧ a.ahead origin < b.ahead origin + halfCircle ∨
      a.ahead origin + halfCircle < b.ahead origin := by
  have apart := ahead_from a b origin
  have bound := ahead_lt a origin
  have bound' := ahead_lt b origin
  rw [after_iff]
  simp only [halfCircle]
  omega

theorem atOrBefore_iff {a b : SeqNumber} : a.atOrBefore b = true ↔ a.after b = false := by
  rw [atOrBefore, after, bne_iff_ne, beq_eq_false_iff_ne]

/-- Where less than half the circle waits for acknowledgment, a number that passes for an
    acknowledgment of something sent is one, except for a single number when nothing waits. -/
theorem acknowledges_iff {unacked next ack : SeqNumber} (room : next.ahead unacked < halfCircle) :
    unacked.before ack = true ∧ ack.after next = false ↔
      0 < ack.ahead unacked ∧ ack.ahead unacked ≤ next.ahead unacked ∨
        unacked = next ∧ ack.ahead unacked = halfCircle := by
  have apart := ahead_from ack next unacked
  have bound := ahead_lt ack unacked
  rw [eq_iff_ahead, ← Bool.not_eq_true, after_iff, before_iff]
  simp only [halfCircle] at room ⊢
  omega

theorem distance_ok {a b : SeqNumber} {n : Nat} (h : a.distance b = .ok n) :
    n < halfCircle ∧ a = b.advance n := by
  unfold distance at h
  split at h
  · rename_i near
    cases h
    exact ⟨near, (advance_ahead a b).symm⟩
  · cases h

theorem inWindow_eq {a start : SeqNumber} {n : Nat} (small : n < halfCircle) :
    a.inWindow start n = .ok (decide (a.ahead start < n)) := by
  have bound := ahead_lt a start
  have back := ahead_from start a start
  rw [ahead_self] at back
  have past := ahead_from (start.advance n) a start
  simp only [halfCircle] at small
  rw [ahead_advance (by omega)] at past
  unfold inWindow
  split
  · rename_i empty
    simp [empty]
  · rename_i wide
    split
    · rename_i from'
      rw [atOrBefore_iff, ← Bool.not_eq_true, after_iff] at from'
      have sum : start.add n = .ok (start.advance n) := add_ok.mpr ⟨by simp only [halfCircle]; omega, rfl⟩
      rw [sum]
      change Except.ok (a.before (start.advance n)) = _
      congr 1
      rw [Bool.eq_iff_iff, before_iff, decide_eq_true_iff]
      simp only [halfCircle] at from' ⊢
      omega
    · rename_i before'
      rw [atOrBefore_iff, Bool.not_eq_false, after_iff] at before'
      simp only [halfCircle] at before'
      congr 1
      rw [eq_comm, decide_eq_false_iff_not]
      omega

end SeqNumber
end TcpEngine
