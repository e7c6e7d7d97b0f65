import Mathlib.Algebra.Group.Nat.Defs
import TcpEngine.Proofs.Stack.Among

/-!
The retransmission timeout of a connection. It starts from the settings and is then measured, and each
measured value is brought between the bounds of the settings. Nothing but the release of acknowledged
segments measures it.
-/
namespace TcpEngine

theorem Duration.clamp_between {d lower upper e : Duration} (ok : d.clamp lower upper = .ok e) :
    lower.nanos ≤ e.nanos ∧ e.nanos ≤ upper.nanos := by
  unfold clamp at ok
  split at ok
  · cases ok
  · rename_i ordered
    split at ok
    · cases ok
      omega
    · split at ok
      · cases ok
        omega
      · cases ok
        omega

namespace RoundTrip

structure Bounded (config : Config) (r : RoundTrip) : Prop where
  lower : r.lower = config.minTimeout
  upper : r.upper = config.maxTimeout
  above : min config.minTimeout.nanos config.initialTimeout.nanos ≤ r.timeout.nanos
  below : r.timeout.nanos ≤ max config.maxTimeout.nanos config.initialTimeout.nanos

theorem bounded_start (config : Config) : Bounded config (.start config) where
  lower := rfl
  upper := rfl
  above := Nat.min_le_right _ _
  below := Nat.le_max_right _ _

def Keeps (P : RoundTrip → Prop) : Prop :=
  ∀ {r r' : RoundTrip} {now before : Instant}, P r → r.sample (now.since before) = .ok r' → P r'

theorem bounded_keeps (config : Config) : Keeps (Bounded config) := by
  intro r r' now before h ok
  simp only [RoundTrip.sample, except_bind_ok] at ok
  obtain ⟨_, _, _, _, _, _, _, _, timeout, clamped, same⟩ := ok
  cases same
  obtain ⟨above, below⟩ := Duration.clamp_between clamped
  rw [h.lower] at above
  rw [h.upper] at below
  exact ⟨h.lower, h.upper, Nat.le_trans (Nat.min_le_left _ _) above,
    Nat.le_trans below (Nat.le_max_left _ _)⟩

/-- The timeout doubles each time, as far as 32 bits can count. -/
theorem backoff_eq (r : RoundTrip) (retries : Nat) :
    r.backoff retries = r.timeout.timesOrLongest (min (2 ^ retries) (2 ^ 32 - 1)) := by
  unfold backoff
  congr 1
  split
  · rename_i short
    have small : 2 ^ retries ≤ 2 ^ 31 := Nat.pow_le_pow_right (by decide) (by omega)
    rw [Nat.one_shiftLeft, Nat.min_eq_left (by omega)]
  · rename_i long
    have large : 2 ^ 32 ≤ 2 ^ retries := Nat.pow_le_pow_right (by decide) (by omega)
    have cut : min (2 ^ retries) (2 ^ 32 - 1) = UInt32.size - 1 :=
      Nat.min_eq_right (Nat.le_trans (by decide) large)
    exact cut.symm

end RoundTrip

namespace Connection

variable {c c' : Connection} {config : Config} {timer : Option Config} {s : Segment} {iss acked : SeqNumber}
  {now : Instant} {σ : List Signal} {event : Event} {call : CallId} {ds : List Datagram}
  {queue rest : List Unacked} {r r' : RoundTrip}

variable {P : RoundTrip → Prop}

theorem release_keeps (keeps : RoundTrip.Keeps P) (h : P r)
    (ends : (release acked now queue r).Ends σ (rest, r')) : P r' := by
  induction queue generalizing r σ with
  | nil =>
    obtain ⟨_, same⟩ := Act.ends_pure.mp ends
    obtain ⟨_, rfl⟩ := Prod.mk.inj same
    exact h
  | cons e queue ih =>
    simp only [release, Act.ends_bind, Act.ends_lift] at ends
    obtain ⟨_, stop, _, _, ends, _⟩ := ends
    split at ends
    · obtain ⟨_, same⟩ := Act.ends_pure.mp ends
      obtain ⟨_, rfl⟩ := Prod.mk.inj same
      exact h
    · simp only [Act.ends_bind, Act.ends_lift] at ends
      obtain ⟨_, measured, _, ⟨_, sampled⟩, ⟨_, _, _, _, ends, _⟩, _⟩ := ends
      exact ih (keeps h sampled) ends

theorem deliver_roundTrip (ends : c.deliver.Ends σ c') : c'.roundTrip = c.roundTrip := by
  rcases deliver_ends ends with ⟨_, rfl, _⟩ | ⟨_, _, _, _, rfl⟩ <;> rfl

theorem acceptText_roundTrip {seq : SeqNumber} {text : Octets} (ok : c.acceptText seq text = .ok c') :
    c'.roundTrip = c.roundTrip := by
  rcases acceptText_ok ok with rfl | ⟨_, _, _, _, _, _, rfl⟩ <;> rfl

theorem turn_keeps (keeps : RoundTrip.Keeps P) (h : P c.roundTrip) (turn : Turn timer now c σ c') :
    P c'.roundTrip := by
  cases turn with
  | deliver ends => exact (deliver_roundTrip ends).symm ▸ h
  | release ends => exact release_keeps keeps h ends
  | review => exact h
  | terminate ends =>
    obtain ⟨_, rfl⟩ := terminate_ends.mp ends
    exact h

theorem move_keeps (keeps : RoundTrip.Keeps P) (h : P c.roundTrip) (move : Move s iss now c σ c') :
    P c'.roundTrip := by
  cases move with
  | turn turn => exact turn_keeps keeps h turn
  | note _ _ _ _ _ same =>
    subst same
    exact h
  | greet _ _ _ _ _ ends | advance _ _ _ _ ends => exact release_keeps keeps h ends
  | acceptFirst _ _ ok | accept _ _ ok => exact (acceptText_roundTrip ok).symm ▸ h
  | finish _ _ _ ends =>
    obtain ⟨_, _, rfl⟩ := countFin_counts ends
    exact h
  | takeUp | cross | establish | halfClose | wait => exact h

theorem called_keeps (h : P c.roundTrip) (called : Called iss now call event c σ ds c') :
    P c'.roundTrip := by
  cases called with
  | receive _ _ ends => exact (deliver_roundTrip ends).symm ▸ h
  | quit _ ends | abort _ ends =>
    obtain ⟨_, rfl⟩ := terminate_ends.mp ends
    exact h
  | told | timed | listen | fail | idle | ask | send | finish => exact h

theorem bounded_turn (h : c.roundTrip.Bounded config) (turn : Turn timer now c σ c') :
    c'.roundTrip.Bounded config :=
  turn_keeps (RoundTrip.bounded_keeps config) h turn

end Connection

variable {config : Config} {now : Instant} {call : CallId} {event : Event} {c c' : Connection}
  {σ : List Signal} {ds : List Datagram}

theorem befalls_keeps {P : RoundTrip → Prop} (keeps : RoundTrip.Keeps P) (coherent : c.Coherent)
    (h : P c.roundTrip) (befalls : Befalls config now call event c σ ds c') : P c'.roundTrip := by
  cases befalls with
  | spared => exact h
  | called _ _ called => exact Connection.called_keeps h called
  | arrived _ _ _ arrives =>
    have moves := (Connection.arrives_handled coherent.fresh arrives).1
    exact moves.keeps (P := fun d => P d.roundTrip) (Connection.move_keeps keeps) h
  | timed ends =>
    have turns := (Connection.onTimer_turns ends).1
    exact turns.keeps (P := fun d => P d.roundTrip) (Connection.turn_keeps keeps) h

theorem befalls_bounded {bounds : Config} (coherent : c.Coherent) (h : c.roundTrip.Bounded bounds)
    (befalls : Befalls config now call event c σ ds c') : c'.roundTrip.Bounded bounds :=
  befalls_keeps (RoundTrip.bounded_keeps bounds) coherent h befalls

end TcpEngine
