import Mathlib.Tactic.Linarith
import TcpEngine.Proofs.Link.Unrest

/-!
What becomes of a link whose users are silent. In whatever order the datagrams are delivered, it is quiet
in the end, unless deliveries come to nothing but a bounce: two connections that refuse each other's
acknowledgments go on to send them.
-/
namespace TcpEngine
namespace Link

variable {l l' : Link} {i : Nat} {now : Instant} {order : Nat → Nat} {clock : Nat → Instant}
  {d e f g : Datagram}

/-- The datagram is an acknowledgment that is refused, and so is the one that comes back for it, for
    which it comes back itself. -/
def Bounces (l : Link) (d : Datagram) : Prop := (l.echo? d).bind l.echo? = some d

instance (l : Link) : DecidablePred l.Bounces := fun _ => inferInstanceAs (Decidable (_ = _))

theorem bounces_echo (bounces : l.Bounces d) : ∃ e, l.echo? d = some e ∧ l.Bounces e := by
  obtain ⟨e, echo, back⟩ := Option.bind_eq_some_iff.mp bounces
  refine ⟨e, echo, ?_⟩
  rw [Bounces, back, Option.bind_some, echo]

/-- An acknowledgment that comes back goes to where the first of them came from, so the echo of its
    echo is the same again. -/
theorem echo?_returns (first : l.echo? d = some e) (second : l.echo? e = some f)
    (third : l.echo? f = some g) : g = e := by
  have meets {c : Connection} {s t : Segment} (claims : c.claims s = true)
      (sent : c.control [.ack] = some t) : t.receiver = s.sender ∧ t.sender = s.receiver := by
    obtain ⟨here, peer⟩ := Connection.claims_iff.mp claims
    obtain ⟨foreign, known, rfl⟩ := Option.map_eq_some_iff.mp sent
    rw [known, Option.all_some, decide_eq_true_eq] at peer
    exact ⟨peer, here.symm⟩
  obtain ⟨s, c, t, reads, found, claims, _, _, sent, posted⟩ := Stack.echo?_iff.mp first
  obtain ⟨s', c', t', reads', _, claims', _, _, sent', posted'⟩ := Stack.echo?_iff.mp second
  obtain ⟨s'', c'', t'', reads'', found'', _, _, _, sent'', posted''⟩ := Stack.echo?_iff.mp third
  obtain rfl := reads_datagram (Connection.segment_formed sent).1 posted reads'
  obtain rfl := reads_datagram (Connection.segment_formed sent').1 posted' reads''
  have receiver : s''.receiver = s.receiver := (meets claims' sent').1.trans (meets claims sent).2
  have home : f.dst = d.dst := by
    obtain ⟨_, _, _, _, rfl⟩ := reads
    obtain ⟨_, _, _, _, rfl⟩ := reads''
    exact congrArg Endpoint.address receiver
  rw [home, receiver, found, Option.some.injEq] at found''
  subst found''
  cases sent.symm.trans sent''
  cases posted.symm.trans posted''
  rfl

/-- How often another acknowledgment comes back for the datagram until it bounces, or is not refused. -/
def lag (l : Link) (d : Datagram) : Nat :=
  if l.Bounces d then 0
  else match l.echo? d with
    | none => 0
    | some e => if l.Bounces e ∨ l.echo? e = none then 1 else 2

theorem lag_le (l : Link) (d : Datagram) : l.lag d ≤ 2 := by
  unfold lag
  split
  · decide
  · split
    · decide
    · split <;> decide

theorem lag_bounces (bounces : l.Bounces d) : l.lag d = 0 := if_pos bounces

theorem lag_echo (straight : ¬ l.Bounces d) (echo : l.echo? d = some e) : l.lag e < l.lag d := by
  have first : l.lag d = if l.Bounces e ∨ l.echo? e = none then 1 else 2 := by
    rw [lag, if_neg straight, echo]
  by_cases bounces : l.Bounces e
  · rw [first, if_pos (Or.inl bounces), lag_bounces bounces]
    decide
  rw [lag, if_neg bounces]
  cases again : l.echo? e with
  | none =>
    rw [first, if_pos (Or.inr again)]
    exact Nat.one_pos
  | some f =>
    have third : l.echo? f = none := by
      by_contra goes
      obtain ⟨g, third⟩ := Option.ne_none_iff_exists'.mp goes
      obtain rfl := echo?_returns echo again third
      exact bounces (by rw [Bounces, again, Option.bind_some, third])
    rw [first, if_neg (by simp [bounces, again])]
    simp [third]

theorem Still.bounces (still : l.Still l') : l'.Bounces d ↔ l.Bounces d := by
  unfold Bounces
  rw [still.echo?]

theorem Still.lag (still : l.Still l') : l'.lag = l.lag := by
  funext d
  simp only [Link.lag, still.bounces, still.echo?]

/-- What is left to do: it gets less by every delivery but a bounce. -/
def potential (l : Link) : Nat := l.unrest ^ 2 + (l.flight.map l.lag).sum

theorem lag_sum_le (l : Link) : (l.flight.map l.lag).sum ≤ 2 * l.unrest := by
  have each := List.sum_le_card_nsmul (l.flight.map l.lag) 2 (by simpa using fun d _ => l.lag_le d)
  have size := l.flight_unrest
  rw [List.length_map, Nat.nsmul_eq_mul] at each
  omega

theorem potential_lt (l : Link) : l.potential < (l.unrest + 1) ^ 2 := by
  have lags := l.lag_sum_le
  unfold potential
  nlinarith

theorem lag_sum_echoed (reliable : l.Reliable) (next : l.next? i = some d)
    (echo : l.echo? d = some e) (now : Instant) :
    ((l.deliver i now).flight.map (l.deliver i now).lag).sum + l.lag d
      = (l.flight.map l.lag).sum + l.lag e := by
  obtain ⟨still, flight⟩ := deliver_echoed reliable next echo now
  have sum := next?_sum next l.lag
  simp only [still.lag, flight, List.map_append, List.map_cons, List.map_nil, List.sum_append, List.sum_cons,
    List.sum_nil]
  omega

theorem deliver_bounce (reliable : l.Reliable) (next : l.next? i = some d) (bounces : l.Bounces d)
    (now : Instant) : l.Still (l.deliver i now) ∧ (l.deliver i now).potential ≤ l.potential := by
  obtain ⟨e, echo, back⟩ := bounces_echo bounces
  have less := Nat.pow_le_pow_left (echoed_unrest reliable next echo now) 2
  have sum := lag_sum_echoed reliable next echo now
  rw [lag_bounces bounces, lag_bounces back] at sum
  refine ⟨(deliver_echoed reliable next echo now).1, ?_⟩
  unfold potential
  omega

theorem deliver_straight (reliable : l.Reliable) (next : l.next? i = some d) (straight : ¬ l.Bounces d)
    (now : Instant) : (l.deliver i now).potential < l.potential := by
  cases echo : l.echo? d with
  | none =>
    have drops := deliver_calms reliable next echo now
    have below := (l.deliver i now).potential_lt
    have square : ((l.deliver i now).unrest + 1) ^ 2 ≤ l.unrest ^ 2 := Nat.pow_le_pow_left drops 2
    have least : l.unrest ^ 2 ≤ l.potential := Nat.le_add_right _ _
    omega
  | some e =>
    have less := Nat.pow_le_pow_left (echoed_unrest reliable next echo now) 2
    have sum := lag_sum_echoed reliable next echo now
    have drops := lag_echo straight echo
    unfold potential
    omega

def stirred (l : Link) (order : Nat → Nat) (clock : Nat → Instant) : Nat → Nat
  | 0 => 0
  | n + 1 => (if (l.next? (order 0)).any fun d => ¬ l.Bounces d then 1 else 0)
      + (l.deliver (order 0) (clock 0)).stirred (fun i => order (i + 1)) (fun i => clock (i + 1)) n

theorem stirred_le (reliable : l.Reliable) (order : Nat → Nat) (clock : Nat → Instant) (n : Nat) :
    l.stirred order clock n + (l.after order clock n).potential ≤ l.potential := by
  induction n generalizing l order clock with
  | zero => simp [stirred, after]
  | succ n ih =>
    have later := ih (deliver_reliable reliable (order 0) (clock 0)) (fun i => order (i + 1))
      fun i => clock (i + 1)
    rw [stirred, after]
    cases next : l.next? (order 0) with
    | none =>
      have same : l.deliver (order 0) (clock 0) = l := deliver_empty (next?_none.mp next)
      rw [same] at later ⊢
      simpa using later
    | some d =>
      by_cases bounces : l.Bounces d
      · have less := (deliver_bounce reliable next bounces (clock 0)).2
        simp only [Option.any_some, bounces, not_true_eq_false, decide_false, Bool.false_eq_true, if_false]
        omega
      · have less := deliver_straight reliable next bounces (clock 0)
        simp only [Option.any_some, bounces, not_false_eq_true, decide_true, if_true]
        omega

theorem stirred_le_size (reliable : l.Reliable) (order : Nat → Nat) (clock : Nat → Instant) (n : Nat) :
    l.stirred order clock n ≤ (l.size + 1) ^ 2 := by
  have spent := stirred_le reliable order clock n
  have most := l.potential_lt
  have size : (l.unrest + 1) ^ 2 ≤ (l.size + 1) ^ 2 :=
    Nat.pow_le_pow_left (Nat.succ_le_succ l.unrest_le_size) 2
  omega

theorem stirred_straight {n : Nat} (straight : ∀ m < n, ∀ d ∈ (l.after order clock m).next? (order m),
    ¬ (l.after order clock m).Bounces d) :
    (l.after order clock n).flight = [] ∨ l.stirred order clock n = n := by
  induction n generalizing l order clock with
  | zero => exact Or.inr rfl
  | succ n ih =>
    cases next : l.next? (order 0) with
    | none =>
      have empty := next?_none.mp next
      left
      rw [after_empty empty]
      exact empty
    | some d =>
      have first : ¬ l.Bounces d := straight 0 (Nat.succ_pos n) d next
      refine (ih fun m early => straight (m + 1) (Nat.succ_lt_succ early)).imp id ?_
      intro later
      simp only [stirred, next, later, Option.any_some, first, not_false_eq_true, decide_true, if_true]
      exact Nat.add_comm 1 n

theorem pump_settles {limit n : Nat} (reliable : l.Reliable) (high : (l.size + 1) ^ 2 < limit)
    (straight : ∀ m < limit, ∀ d ∈ (l.after (fun _ => 0) (fun _ => now) m).next? 0,
      ¬ (l.after (fun _ => 0) (fun _ => now) m).Bounces d)
    (pumped : l.pump now limit = (l', .ok n)) : l'.flight = [] := by
  obtain ⟨rfl, most, early⟩ := pump_after pumped
  rw [launch_ready reliable.ready] at early ⊢
  by_cases less : n < limit
  · exact early less
  · obtain rfl : n = limit := by omega
    rcases stirred_straight straight with empty | all
    · exact empty
    · have bound := stirred_le_size reliable (fun _ => 0) (fun _ => now) n
      omega

/-- Deliveries in whatever order come to an end, or to nothing but a bounce. -/
theorem after_settles (reliable : l.Reliable) (order : Nat → Nat) (clock : Nat → Instant) :
    ∃ n, (l.after order clock n).flight = [] ∨ ∀ m,
      ∃ d ∈ (l.after order clock (n + m)).next? (order (n + m)),
        (l.after order clock (n + m)).Bounces d := by
  -- Each delivery that is not of a bounce leaves less potential, so there is a last one.
  induction bound : l.potential using Nat.strong_induction_on generalizing l order clock with
  | _ P ih =>
    by_cases ever : ∀ m, ∃ d ∈ (l.after order clock m).next? (order m), (l.after order clock m).Bounces d
    · exact ⟨0, Or.inr (by simpa using ever)⟩
    obtain ⟨m, straight⟩ := not_forall.mp ever
    cases next : (l.after order clock m).next? (order m) with
    | none => exact ⟨m, Or.inl (next?_none.mp next)⟩
    | some d =>
      have other : ¬ (l.after order clock m).Bounces d := by
        intro bounces
        exact straight ⟨d, next, bounces⟩
      have spent := stirred_le reliable order clock m
      have drops := deliver_straight (after_reliable reliable order clock m) next other (clock m)
      rw [← after_succ] at drops
      obtain ⟨n, settled⟩ := ih _ (by omega) (after_reliable reliable order clock (m + 1))
        (fun i => order (m + 1 + i)) (fun i => clock (m + 1 + i)) rfl
      simp only [← after_add, ← Nat.add_assoc] at settled
      exact ⟨m + 1 + n, settled⟩

/-- As long as there is nothing but a bounce, the connections are the same. -/
theorem after_bounces (reliable : l.Reliable) (order : Nat → Nat) (clock : Nat → Instant)
    (bounces : ∀ m, ∃ d ∈ (l.after order clock m).next? (order m), (l.after order clock m).Bounces d)
    (m : Nat) : l.Still (l.after order clock m) := by
  induction m with
  | zero => exact still_refl l
  | succ m ih =>
    obtain ⟨d, next, bounces⟩ := bounces m
    rw [after_succ]
    exact ih.trans (deliver_bounce (after_reliable reliable order clock m) next bounces (clock m)).1

def Reachable (l : Link) : Prop := ∃ config config' generator generator' home turns,
  l = (fresh config config' generator generator' home).play turns

theorem Reachable.play (h : l.Reachable) (turns : List Turn) : (l.play turns).Reachable := by
  obtain ⟨config, config', generator, generator', home, before, rfl⟩ := h
  refine ⟨config, config', generator, generator', home, before ++ turns, ?_⟩
  exact (List.foldl_append ..).symm

theorem Reachable.ready (h : l.Reachable) : l.Ready := by
  obtain ⟨config, config', generator, generator', home, turns, rfl⟩ := h
  exact play_ready (fresh_ready config config' generator generator' home) turns

/-- When the users are silent, the datagrams may be delivered in any order. All but a bounded number of the
    deliveries are of acknowledgments that bounce, and in the end nothing is in flight, unless nothing
    but a bounce is left. That goes on for good, between connections that do not change. -/
theorem settles_or_bounces (reachable : l.Reachable) (willing : l.Willing) (order : Nat → Nat)
    (clock : Nat → Instant) :
    (∀ n, l.stirred order clock n ≤ (l.size + 1) ^ 2) ∧
      ∃ n, (∀ m, (l.after order clock (n + m)).flight = []) ∨
        ∀ m, (l.after order clock n).Still (l.after order clock (n + m)) ∧
          ∃ d ∈ (l.after order clock (n + m)).next? (order (n + m)),
            (l.after order clock (n + m)).Bounces d := by
  have reliable : l.Reliable := ⟨reachable.ready, willing⟩
  constructor
  · exact stirred_le_size reliable order clock
  · obtain ⟨n, settled⟩ := after_settles reliable order clock
    refine ⟨n, ?_⟩
    rcases settled with empty | bounces
    · left
      intro m
      rw [after_add, after_empty empty]
      exact empty
    · right
      intro m
      refine ⟨?_, bounces m⟩
      rw [after_add]
      refine after_bounces (after_reliable reliable order clock n) _ _ ?_ m
      simpa only [after_add] using bounces

def greetings (window : Nat) : Link :=
  let near : Endpoint := ⟨⟨10, 0, 0, 1⟩, 80⟩
  let far : Endpoint := ⟨⟨10, 0, 0, 2⟩, 80⟩
  (fresh { receiveWindow := window } { receiveWindow := window } (.ofKey 1 2) (.ofKey 3 4)
    near.address).play
    [.event .near (.bind near) .start 0, .event .far (.bind far) .start 1,
      .event .far (.openConnection far (.passive none) none) .start 2,
      .event .near (.openConnection near (.active (some far)) none) .start 3,
      .delivery 0 .start, .delivery 0 .start, .delivery 0 .start,
      .event .near (.send near [104, 101, 121, 33]) .start 4,
      .event .far (.send far [104, 101, 121, 33]) .start 5,
      .event .near (.close near) .start 6, .event .far (.close far) .start 7]

theorem greetings_reachable (window : Nat) : (greetings window).Reachable :=
  ⟨_, _, _, _, _, _, rfl⟩

theorem greetings_settle : (greetings 8).Reachable ∧ (greetings 8).Willing ∧
    (∀ n, (greetings 8).stirred (fun _ => 0) (fun _ => .start) n ≤ ((greetings 8).size + 1) ^ 2) ∧
    ∃ n, ∀ m, ((greetings 8).after (fun _ => 0) (fun _ => .start) (n + m)).flight = [] := by
  have reachable := greetings_reachable 8
  have willing : (greetings 8).Willing := by decide +kernel
  have quiet : ((greetings 8).after (fun _ => 0) (fun _ => .start) 12).flight = [] := by decide +kernel
  obtain ⟨most, n, settled⟩ := settles_or_bounces reachable willing (fun _ => 0) fun _ => .start
  refine ⟨reachable, willing, most, n, ?_⟩
  rcases settled with empty | bounces
  · exact empty
  · obtain ⟨d, next, _⟩ := (bounces 12).2
    have still : ((greetings 8).after (fun _ => 0) (fun _ => .start) (n + 12)).flight = [] := by
      rw [Nat.add_comm, after_add, after_empty quiet]
      exact quiet
    rw [next?_none.mpr still] at next
    cases next

def Storm (l : Link) : Prop := l.flight ≠ [] ∧ ∀ d ∈ l.flight, l.Bounces d

instance (l : Link) : Decidable l.Storm := inferInstanceAs (Decidable (_ ∧ _))

theorem deliver_storm (reliable : l.Reliable) (storm : l.Storm) (i : Nat) (now : Instant) :
    (l.deliver i now).Storm := by
  obtain ⟨blown, bounces⟩ := storm
  cases next : l.next? i with
  | none => exact absurd (next?_none.mp next) blown
  | some d =>
    obtain ⟨e, echo, back⟩ := bounces_echo (bounces d (next?_mem next))
    obtain ⟨still, flight⟩ := deliver_echoed reliable next echo now
    obtain ⟨before, behind, split, remains⟩ := next?_split next
    refine ⟨by simp [flight], ?_⟩
    intro x member
    rw [still.bounces]
    rw [flight, remains, List.mem_append, List.mem_singleton] at member
    rcases member with member | rfl
    · apply bounces
      rw [split]
      exact List.perm_middle.mem_iff.mpr (List.mem_cons_of_mem _ member)
    · exact back

/-- A storm goes on, in whatever order its datagrams are delivered. -/
theorem after_storm (reliable : l.Reliable) (storm : l.Storm) (order : Nat → Nat)
    (clock : Nat → Instant) (n : Nat) : (l.after order clock n).Storm := by
  induction n generalizing l order clock with
  | zero => exact storm
  | succ n ih => exact ih (deliver_reliable reliable _ _) (deliver_storm reliable storm _ _) _ _

/-- Where the greetings fill the windows, the FINs behind them are refused. -/
def overfilled : Link := (greetings 4).play (List.replicate 4 (.delivery 0 .start))

/-- From then on nothing but acknowledgments goes back and forth. -/
theorem overfilled_storms : overfilled.Reachable ∧ overfilled.Willing ∧
    ∀ order clock n, (overfilled.after order clock n).flight ≠ [] := by
  have reachable : overfilled.Reachable := (greetings_reachable 4).play _
  have willing : overfilled.Willing := by decide +kernel
  have storm : overfilled.Storm := by decide +kernel
  refine ⟨reachable, willing, ?_⟩
  intro order clock n
  exact (after_storm ⟨reachable.ready, willing⟩ storm order clock n).1

end Link
end TcpEngine
