import Mathlib.Algebra.Group.Nat.Defs
import TcpEngine.Proofs.Act
import TcpEngine.RoundTrip

/-!
The arithmetic of durations. Rounding to 53 significant bits adds at most one part in `2 ^ 52`, so that
a scaled duration is hardly longer than the exact product, and an estimate of the round trip that was in
the range of clock readings stays there.
-/
namespace TcpEngine
namespace Rounding

theorem nearest_le (n d : Nat) : nearest n d ≤ n / d + 1 := by
  unfold nearest
  split
  · omega
  · split <;> omega

theorem place_le (n : Nat) : 1 <<< (n.log2 - 52) ≤ n / 2 ^ 52 + 1 := by
  rw [Nat.one_shiftLeft]
  by_cases short : n.log2 ≤ 52
  · simp [Nat.sub_eq_zero_of_le short]
  · have large : 2 ^ n.log2 ≤ n := Nat.log2_self_le (by rintro rfl; simp at short)
    have parts : 2 ^ (n.log2 - 52) * 2 ^ 52 = 2 ^ n.log2 := by
      rw [← Nat.pow_add]
      congr 1
      omega
    have fits : 2 ^ (n.log2 - 52) ≤ n / 2 ^ 52 :=
      (Nat.le_div_iff_mul_le (by decide)).mpr (parts ▸ large)
    omega

theorem significant_le (n d : Nat) : significant n d ≤ n / d + n / d / 2 ^ 52 + 1 := by
  unfold significant
  have place := place_le (n / d)
  generalize 1 <<< ((n / d).log2 - 52) = p at place ⊢
  calc nearest n (d * p) * p
    _ ≤ (n / (d * p) + 1) * p := Nat.mul_le_mul_right p (nearest_le n (d * p))
    _ = n / d / p * p + p := by rw [Nat.add_mul, Nat.one_mul, Nat.div_div_eq_div_mul]
    _ ≤ n / d + (n / d / 2 ^ 52 + 1) := Nat.add_le_add (Nat.div_mul_le_self _ _) place
    _ = n / d + n / d / 2 ^ 52 + 1 := by omega

end Rounding

namespace Duration

def span : Nat := 2 ^ 64 * 1000000

theorem seconds53_le (d : Duration) :
    d.seconds53 * (second * 2 ^ 50) ≤ d.nanos * (Rounding.unit * (2 ^ 50 + 1)) + 2 ^ 90 := by
  have whole := Rounding.significant_le (d.wholeSeconds * Rounding.unit) 1
  have fraction := Rounding.significant_le (d.nanos % second * Rounding.unit) second
  unfold seconds53
  dsimp only
  generalize Rounding.significant (d.wholeSeconds * Rounding.unit) 1 = a at whole ⊢
  generalize Rounding.significant (d.nanos % second * Rounding.unit) second = b at fraction ⊢
  have sum := Rounding.significant_le (a + b) 1
  generalize Rounding.significant (a + b) 1 = c at sum ⊢
  simp only [wholeSeconds, second, show Rounding.unit = 2 ^ 192 by decide] at *
  omega

/-- The nanoseconds of a product of seconds, of which the exact one would be `exact / 2 ^ 53`. -/
theorem product_near {product exact : Nat}
    (near : product * (second * 2 ^ 50) ≤ exact * (Rounding.unit * (2 ^ 50 + 1)) + 2 ^ 144)
    (short : exact ≤ span * 2 ^ 54) :
    Rounding.significant product (1 <<< 53) < UInt64.size * Rounding.unit ∧
      Rounding.nearest (Rounding.significant product (1 <<< 53) * second) Rounding.unit * 2 ^ 53
        ≤ exact + 2 ^ 95 := by
  have rounded := Rounding.significant_le product (1 <<< 53)
  generalize Rounding.significant product (1 <<< 53) = q at rounded ⊢
  have whole := Rounding.nearest_le (q * second) Rounding.unit
  generalize Rounding.nearest (q * second) Rounding.unit = r at whole ⊢
  simp only [show Rounding.unit = 2 ^ 192 by decide, second, span, UInt64.size,
    Nat.one_shiftLeft] at *
  omega

/-- A scaled duration is within the range, and hardly longer than the exact product. -/
theorem scale_near {d : Duration} (factor : Nat) (short : d.nanos ≤ span) (small : factor ≤ 2 ^ 54) :
    ∃ e, d.scale factor = .ok e ∧ e.nanos * 2 ^ 53 ≤ d.nanos * factor + 2 ^ 95 := by
  have near : d.seconds53 * factor * (second * 2 ^ 50)
      ≤ d.nanos * factor * (Rounding.unit * (2 ^ 50 + 1)) + 2 ^ 144 := calc
    _ = d.seconds53 * (second * 2 ^ 50) * factor := Nat.mul_right_comm _ _ _
    _ ≤ (d.nanos * (Rounding.unit * (2 ^ 50 + 1)) + 2 ^ 90) * factor :=
      Nat.mul_le_mul_right factor d.seconds53_le
    _ = d.nanos * factor * (Rounding.unit * (2 ^ 50 + 1)) + 2 ^ 90 * factor := by
      rw [Nat.add_mul, Nat.mul_right_comm]
    _ ≤ _ := Nat.add_le_add_left (Nat.mul_le_mul_left (2 ^ 90) small) _
  have exact' : d.nanos * factor ≤ span * 2 ^ 54 := Nat.mul_le_mul short small
  obtain ⟨inside, bound⟩ := product_near near exact'
  unfold scale ofNanos
  dsimp only
  rw [if_pos inside, if_pos]
  · exact ⟨_, rfl, bound⟩
  · simp only [limit, second, UInt64.size, span] at *
    omega

theorem clamp_succeeds {lower upper : Duration} (d : Duration) (ordered : lower.nanos ≤ upper.nanos) :
    ∃ e, d.clamp lower upper = .ok e := by
  unfold clamp
  rw [if_neg (Nat.not_lt.mpr ordered)]
  split
  · exact ⟨lower, rfl⟩
  · split
    · exact ⟨upper, rfl⟩
    · exact ⟨d, rfl⟩

end Duration

theorem Instant.since_short (t s : Instant) : (t.since s).nanos * 2 ≤ Duration.span := by
  simp only [since, nearest, Duration.ofMillis, first, last, Duration.span]
  omega

namespace RoundTrip

/-- A round trip that can be measured again: its bounds are in order, and the estimate is a time that
    clocks can count. -/
structure Measurable (r : RoundTrip) : Prop where
  ordered : r.lower.nanos ≤ r.upper.nanos
  short : r.smoothed.nanos ≤ Duration.span

/-- The new estimate is part of the old one and part of the measured time, so it stays short. -/
theorem Measurable.sample {r : RoundTrip} {measured : Duration} (h : r.Measurable)
    (short : measured.nanos * 2 ≤ Duration.span) :
    ∃ r', r.sample measured = .ok r' ∧ r'.Measurable := by
  have old := h.short
  obtain ⟨kept, scaled, keeps⟩ := Duration.scale_near keep old (by decide)
  obtain ⟨gained, scaled', gains⟩ :=
    Duration.scale_near gain (Nat.le_trans (Nat.le_mul_of_pos_right _ (by decide)) short) (by decide)
  have sum : kept.nanos + gained.nanos ≤ Duration.span := by
    simp only [keep, gain, Duration.span, Nat.one_shiftLeft] at *
    omega
  have inside : kept.nanos + gained.nanos < Duration.limit :=
    Nat.lt_of_le_of_lt sum (by decide)
  have added : kept.add gained = .ok ⟨kept.nanos + gained.nanos⟩ := if_pos inside
  obtain ⟨longer, scaled'', _⟩ :=
    Duration.scale_near (d := ⟨kept.nanos + gained.nanos⟩) margin sum (by decide)
  obtain ⟨timeout, clamped⟩ := Duration.clamp_succeeds longer h.ordered
  refine ⟨{ r with smoothed := ⟨kept.nanos + gained.nanos⟩, timeout }, ?_, h.ordered, sum⟩
  simp only [RoundTrip.sample, except_bind_ok]
  exact ⟨kept, scaled, gained, scaled', _, added, longer, scaled'', timeout, clamped, rfl⟩

end RoundTrip
end TcpEngine
