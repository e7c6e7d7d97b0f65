import TcpEngine.Proofs.Connection.Closing
import TcpEngine.Proofs.Connection.Success

/-!
Acknowledgments that overtake each other. Of two segments that acknowledge and do nothing else, the one
that was sent later decides: what the earlier one would do, the later one does as well, and after it the
earlier one does nothing. So it makes no difference in which order they come.
-/
namespace TcpEngine

namespace SeqNumber

def Arc (numbers : List SeqNumber) : Prop := ∃ start, ∀ n ∈ numbers, n.ahead start < halfCircle

variable {a b o : SeqNumber}

section
variable (near : a.ahead o < halfCircle) (near' : b.ahead o < halfCircle)
include near near'

theorem after_arc : a.after b = true ↔ b.ahead o < a.ahead o := by
  have apart : Near (a.ahead o) (b.ahead o) := ⟨by omega, by omega⟩
  have order := after_advance (a := o) apart
  rwa [advance_ahead, advance_ahead] at order

theorem atOrBefore_arc : a.atOrBefore b = true ↔ a.ahead o ≤ b.ahead o := by
  rw [atOrBefore_iff, ← Bool.not_eq_true, after_arc near near', Nat.not_lt]

theorem before_arc : a.before b = true ↔ a.ahead o < b.ahead o := by
  have apart := ahead_from b a o
  have bound := ahead_lt b a
  rw [before_iff]
  simp only [halfCircle] at near near' ⊢
  omega

end

theorem eq_of_ahead (same : a.ahead o = b.ahead o) : a = b := by
  rw [← advance_ahead a o, same, advance_ahead]

theorem Arc.mono {numbers fewer : List SeqNumber} (arc : Arc numbers) (less : fewer ⊆ numbers) :
    Arc fewer := by
  obtain ⟨start, near⟩ := arc
  exact ⟨start, fun n member => near n (less member)⟩

end SeqNumber

namespace SendVars

open SeqNumber

def raise (v : SendVars) (ack : SeqNumber) : SendVars :=
  { v with unacked := if v.unacked.before ack then ack else v.unacked }

def take (v : SendVars) (h : Header) (ack : SeqNumber) : SendVars :=
  { v with unacked := ack, window := h.window, windowSeq := h.seq, windowAck := ack }

def heed (v : SendVars) (h : Header) (ack : SeqNumber) : SendVars :=
  if (v.raise ack).unacked = ack
      ∧ (v.windowSeq.before h.seq ∨ v.windowSeq = h.seq ∧ v.windowAck.atOrBefore ack) then
    v.take h ack
  else v.raise ack

def Counts (v : SendVars) (h : Header) (ack : SeqNumber) : Prop :=
  v.unacked.atOrBefore ack = true
    ∧ (v.windowSeq.before h.seq = true ∨ v.windowSeq = h.seq ∧ v.windowAck.atOrBefore ack = true)

instance (v : SendVars) (h : Header) (ack : SeqNumber) : Decidable (v.Counts h ack) :=
  inferInstanceAs (Decidable (_ ∧ _))

/-- The second of two acknowledgments was sent after the first, and both for what was sent to them. -/
structure Successive (v : SendVars) (h h' : Header) (ack ack' : SeqNumber) : Prop where
  seqs : Arc [h.seq, h'.seq, v.windowSeq]
  acks : Arc [ack, ack', v.unacked, v.next, v.windowAck]
  later : h.seq.atOrBefore h'.seq = true
  onward : ack.atOrBefore ack' = true
  sent : ack'.atOrBefore v.next = true
  apart : (h.seq, ack) ≠ (h'.seq, ack')

/-- The numbers as places behind the start of an arc: `p` for the numbers of the peer, `o` for those that
    are acknowledged. -/
structure Unrolled (v : SendVars) (h h' : Header) (ack ack' p o : SeqNumber) : Prop where
  seq : h.seq.ahead p < halfCircle
  seq' : h'.seq.ahead p < halfCircle
  windowSeq : v.windowSeq.ahead p < halfCircle
  number : ack.ahead o < halfCircle
  number' : ack'.ahead o < halfCircle
  unacked : v.unacked.ahead o < halfCircle
  next : v.next.ahead o < halfCircle
  windowAck : v.windowAck.ahead o < halfCircle
  later : h.seq.ahead p ≤ h'.seq.ahead p
  onward : ack.ahead o ≤ ack'.ahead o
  sent : ack'.ahead o ≤ v.next.ahead o

structure Placed (p o : SeqNumber) (v : SendVars) (u w l : Nat) : Prop where
  unacked : v.unacked.ahead o = u
  windowAck : v.windowAck.ahead o = w
  windowSeq : v.windowSeq.ahead p = l
  nearUnacked : u < halfCircle
  nearAck : w < halfCircle
  nearSeq : l < halfCircle

def Fresh (u w l x a : Nat) : Prop := u ≤ a ∧ (l < x ∨ l = x ∧ w ≤ a)

variable {v : SendVars} {h h' : Header} {ack ack' p o : SeqNumber} {u w l x a : Nat}

theorem Successive.unroll (successive : v.Successive h h' ack ack') :
    ∃ p o, v.Unrolled h h' ack ack' p o := by
  obtain ⟨⟨p, seqs⟩, ⟨o, acks⟩, later, onward, sent, -⟩ := successive
  simp only [List.forall_mem_cons, List.not_mem_nil, false_imp_iff, implies_true, and_true] at seqs acks
  obtain ⟨seq, seq', windowSeq⟩ := seqs
  obtain ⟨number, number', unacked, next, windowAck⟩ := acks
  rw [atOrBefore_arc seq seq'] at later
  rw [atOrBefore_arc number number'] at onward
  rw [atOrBefore_arc number' next] at sent
  exact ⟨p, o, seq, seq', windowSeq, number, number', unacked, next, windowAck, later, onward, sent⟩

theorem Unrolled.placed (places : v.Unrolled h h' ack ack' p o) :
    v.Placed p o (v.unacked.ahead o) (v.windowAck.ahead o) (v.windowSeq.ahead p) :=
  ⟨rfl, rfl, rfl, places.unacked, places.windowAck, places.windowSeq⟩

theorem Successive.sent_first (successive : v.Successive h h' ack ack') : ack.atOrBefore v.next = true := by
  obtain ⟨p, o, places⟩ := successive.unroll
  exact (atOrBefore_arc places.number places.next).mpr (Nat.le_trans places.onward places.sent)

section
variable (placed : v.Placed p o u w l) (seq : h.seq.ahead p = x) (number : ack.ahead o = a)
  (nearSeq : x < halfCircle) (near : a < halfCircle)
include placed seq number nearSeq near

theorem Placed.counts_iff : v.Counts h ack ↔ Fresh u w l x a := by
  obtain ⟨rfl, rfl, rfl, nearUnacked, nearAck, nearWindow⟩ := placed
  subst seq number
  have same : v.windowSeq = h.seq ↔ v.windowSeq.ahead p = h.seq.ahead p :=
    ⟨congrArg (ahead · p), eq_of_ahead⟩
  rw [Counts, Fresh, atOrBefore_arc nearUnacked near, before_arc nearWindow nearSeq,
    atOrBefore_arc nearAck near, same]

theorem Placed.raise_unacked : (v.raise ack).unacked.ahead o = max u a := by
  obtain ⟨rfl, rfl, rfl, nearUnacked, nearAck, nearWindow⟩ := placed
  subst seq number
  rw [raise]
  dsimp only
  split
  next forward =>
    have := (before_arc nearUnacked near).mp forward
    omega
  next still =>
    have := mt (before_arc nearUnacked near).mpr still
    omega

theorem Placed.heed_fresh (fresh : Fresh u w l x a) :
    v.heed h ack = v.take h ack ∧ (v.take h ack).Placed p o a a x := by
  refine ⟨?_, ⟨number, number, seq, near, near, nearSeq⟩⟩
  have counts := (placed.counts_iff seq number nearSeq near).mpr fresh
  have raised : (v.raise ack).unacked = ack := by
    refine eq_of_ahead (o := o) ?_
    rw [placed.raise_unacked seq number nearSeq near, number]
    exact Nat.max_eq_right fresh.1
  exact if_pos ⟨raised, counts.2⟩

theorem Placed.heed_stale (stale : ¬ Fresh u w l x a) :
    v.heed h ack = v.raise ack ∧ (v.raise ack).Placed p o (max u a) w l := by
  have raised := placed.raise_unacked seq number nearSeq near
  constructor
  · refine if_neg ?_
    rintro ⟨same, newer⟩
    have onward : max u a = a := by
      rw [← raised, same, number]
    refine stale ((placed.counts_iff seq number nearSeq near).mp ⟨?_, newer⟩)
    refine (atOrBefore_arc (o := o) ?_ ?_).mpr ?_
    all_goals have := placed.unacked; have := placed.nearUnacked; omega
  · exact ⟨raised, placed.windowAck, placed.windowSeq, by have := placed.nearUnacked; omega,
      placed.nearAck, placed.nearSeq⟩

end

theorem take_take (v : SendVars) (h h' : Header) (ack ack' : SeqNumber) :
    (v.take h ack).take h' ack' = v.take h' ack' := rfl

theorem raise_take (v : SendVars) (h : Header) (ack ack' : SeqNumber) :
    (v.raise ack').take h ack = v.take h ack := rfl

theorem raise_still (still : v.unacked.before ack = false) : v.raise ack = v := by
  rw [raise, still]
  rfl

theorem raise_raise {ack'' : SeqNumber}
    (same : ((v.raise ack).raise ack').unacked = (v.raise ack'').unacked) :
    (v.raise ack).raise ack' = v.raise ack'' :=
  congrArg (fun unacked => { v with unacked }) same

section
variable (places : v.Unrolled h h' ack ack' p o)
include places

theorem Unrolled.absorbs_fresh (distinct : ¬ (h.seq.ahead p = h'.seq.ahead p ∧ ack.ahead o = ack'.ahead o))
    (fresh' : Fresh (v.unacked.ahead o) (v.windowAck.ahead o) (v.windowSeq.ahead p) (h'.seq.ahead p)
      (ack'.ahead o)) :
    (v.heed h ack).heed h' ack' = v.heed h' ack' ∧ (v.heed h' ack').heed h ack = v.heed h' ack' := by
  have placed := places.placed
  obtain ⟨seq, seq', -, number, number', -, -, -, later, onward, -⟩ := places
  obtain ⟨taken', placed'⟩ := placed.heed_fresh rfl rfl seq' number' fresh'
  rw [taken']
  constructor
  · by_cases fresh : Fresh (v.unacked.ahead o) (v.windowAck.ahead o) (v.windowSeq.ahead p) (h.seq.ahead p)
        (ack.ahead o)
    · obtain ⟨taken, placed⟩ := placed.heed_fresh rfl rfl seq number fresh
      rw [taken, (placed.heed_fresh rfl rfl seq' number' ⟨onward, by omega⟩).1, take_take]
    · obtain ⟨raised, placed⟩ := placed.heed_stale rfl rfl seq number fresh
      have still := fresh'.1
      rw [raised, (placed.heed_fresh rfl rfl seq' number' ⟨by omega, fresh'.2⟩).1, raise_take]
  · have stale : ¬ Fresh (ack'.ahead o) (ack'.ahead o) (h'.seq.ahead p) (h.seq.ahead p) (ack.ahead o) := by
      unfold Fresh
      omega
    have still : ack'.before ack = false := by
      rw [← Bool.not_eq_true, before_arc number' number]
      omega
    rw [(placed'.heed_stale rfl rfl seq number stale).1]
    exact raise_still still

theorem Unrolled.absorbs_stale
    (stale' : ¬ Fresh (v.unacked.ahead o) (v.windowAck.ahead o) (v.windowSeq.ahead p) (h'.seq.ahead p)
      (ack'.ahead o)) :
    (v.heed h ack).heed h' ack' = v.heed h' ack' ∧ (v.heed h' ack').heed h ack = v.heed h' ack' := by
  have placed := places.placed
  obtain ⟨seq, seq', -, number, number', -, -, -, later, onward, -⟩ := places
  have stale : ¬ Fresh (v.unacked.ahead o) (v.windowAck.ahead o) (v.windowSeq.ahead p) (h.seq.ahead p)
      (ack.ahead o) := by
    unfold Fresh at stale' ⊢
    omega
  obtain ⟨raised, placed₁⟩ := placed.heed_stale rfl rfl seq number stale
  obtain ⟨raised', placed₂⟩ := placed.heed_stale rfl rfl seq' number' stale'
  have stale₁ : ¬ Fresh (max (v.unacked.ahead o) (ack.ahead o)) (v.windowAck.ahead o)
      (v.windowSeq.ahead p) (h'.seq.ahead p) (ack'.ahead o) := by
    unfold Fresh at stale' ⊢
    omega
  have stale₂ : ¬ Fresh (max (v.unacked.ahead o) (ack'.ahead o)) (v.windowAck.ahead o)
      (v.windowSeq.ahead p) (h.seq.ahead p) (ack.ahead o) := by
    unfold Fresh at stale' ⊢
    omega
  obtain ⟨again, twice⟩ := placed₁.heed_stale rfl rfl seq' number' stale₁
  obtain ⟨again', twice'⟩ := placed₂.heed_stale rfl rfl seq number stale₂
  rw [raised, raised', again, again']
  constructor
  · refine raise_raise (eq_of_ahead (o := o) ?_)
    rw [twice.unacked, placed₂.unacked]
    omega
  · refine raise_raise (eq_of_ahead (o := o) ?_)
    rw [twice'.unacked, placed₂.unacked]
    omega

end

/-- The later one of two acknowledgments decides, in either order. -/
theorem Successive.absorbs (successive : v.Successive h h' ack ack') :
    (v.heed h ack).heed h' ack' = v.heed h' ack' ∧ (v.heed h' ack').heed h ack = v.heed h' ack' := by
  obtain ⟨p, o, places⟩ := successive.unroll
  have distinct : ¬ (h.seq.ahead p = h'.seq.ahead p ∧ ack.ahead o = ack'.ahead o) := by
    rintro ⟨same, same'⟩
    exact successive.apart (Prod.ext (eq_of_ahead same) (eq_of_ahead same'))
  by_cases fresh' : Fresh (v.unacked.ahead o) (v.windowAck.ahead o) (v.windowSeq.ahead p) (h'.seq.ahead p)
      (ack'.ahead o)
  · exact places.absorbs_fresh distinct fresh'
  · exact places.absorbs_stale fresh'

theorem Successive.heed_window (successive : v.Successive h h' ack ack') :
    let left := v.heed h' ack'
    (left.window, left.windowSeq, left.windowAck) = if v.Counts h' ack' then (h'.window, h'.seq, ack')
      else (v.window, v.windowSeq, v.windowAck) := by
  obtain ⟨p, o, places⟩ := successive.unroll
  have placed := places.placed
  have counts := placed.counts_iff rfl rfl places.seq' places.number'
  dsimp only
  split
  next new => rw [(placed.heed_fresh rfl rfl places.seq' places.number' (counts.mp new)).1, take]
  next old => rw [(placed.heed_stale rfl rfl places.seq' places.number' (mt counts.mpr old)).1, raise]

theorem heed_unacked (v : SendVars) (h : Header) (ack : SeqNumber) :
    (v.heed h ack).unacked = (v.raise ack).unacked := by
  unfold heed
  split
  next newer => exact newer.1.symm
  next => rfl

theorem heed_fixed (v : SendVars) (h : Header) (ack : SeqNumber) :
    (v.heed h ack).next = v.next ∧ (v.heed h ack).fin = v.fin := by
  unfold heed
  split <;> exact ⟨rfl, rfl⟩

theorem Successive.last_acked (successive : v.Successive h h' ack ack') {fin : SeqNumber}
    (last : v.next = fin.advance 1) (acked : (v.heed h ack).unacked.after fin = true) :
    (v.heed h ack).unacked = (v.heed h' ack').unacked := by
  obtain ⟨p, o, places⟩ := successive.unroll
  have placed := places.placed
  obtain ⟨seq, seq', -, number, number', unacked, next, -, -, onward, sent⟩ := places
  rw [heed_unacked] at acked ⊢
  rw [heed_unacked]
  have raised := placed.raise_unacked rfl rfl seq number
  have raised' := placed.raise_unacked rfl rfl seq' number'
  have beyond := ahead_from (v.raise ack).unacked fin o
  have step := ahead_from v.next fin o
  have bound := ahead_lt fin o
  rw [last, ahead_advance (by decide), ← last] at step
  rw [after_iff] at acked
  refine eq_of_ahead (o := o) ?_
  simp only [halfCircle] at *
  omega

def finAcked (v : SendVars) : Bool := v.fin.any fun fin => v.unacked.after fin

theorem Successive.finAcked_later (successive : v.Successive h h' ack ack')
    (last : ∀ fin, v.fin = some fin → v.next = fin.advance 1)
    (acked : (v.heed h ack).finAcked = true) : (v.heed h' ack').finAcked = true := by
  rw [finAcked, Option.any_eq_true, (v.heed_fixed h ack).2] at acked
  obtain ⟨fin, raised, acked⟩ := acked
  rw [finAcked, Option.any_eq_true, (v.heed_fixed h' ack').2]
  exact ⟨fin, raised, successive.last_acked (last fin raised) acked ▸ acked⟩

end SendVars

structure Segment.Reports (s : Segment) (ack : SeqNumber) : Prop where
  given : s.header.ack = some ack
  bare : s.Bare
  calm : s.header.flags.has .rst = false
  plain : s.header.flags.has .urg = false

namespace State

def heeds : State → Bool
  | .established | .finWait1 | .finWait2 | .closeWait => true
  | _ => false

def settled (state : State) (finAcked : Bool) : State :=
  if state = .finWait1 ∧ finAcked = true then .finWait2 else state

theorem settled_settled {state : State} {first later : Bool} (onward : first = true → later = true) :
    (state.settled first).settled later = state.settled later := by
  cases first with
  | false =>
    rw [show state.settled false = state from if_neg fun h => Bool.false_ne_true h.2]
  | true =>
    rw [onward rfl]
    cases state <;> rfl

end State

def Unacked.limit (e : Unacked) : SeqNumber := e.seq.advance e.size

theorem Unacked.stop_limit {e : Unacked} (brief : e.text.length ≤ 65535) : e.stop = .ok e.limit :=
  Unacked.stop_ok.mpr ⟨by simp only [SeqNumber.halfCircle]; omega, rfl⟩

namespace Connection

open SeqNumber

variable {c : Connection} {s s' : Segment} {h h' : Header} {ack ack' acked acked' iss : SeqNumber}
  {now : Instant} {queue : List Unacked} {r : RoundTrip}

def informed (c : Connection) (h : Header) (ack : SeqNumber) : Connection :=
  { c with send := c.send.heed h ack, state := c.state.settled (c.send.heed h ack).finAcked }

def drain (c : Connection) (ack : SeqNumber) (now : Instant) : Act (List Unacked × RoundTrip) :=
  if c.send.unacked.before ack then release ack now c.queue c.roundTrip else return (c.queue, c.roundTrip)

def holding (c : Connection) (left : List Unacked × RoundTrip) : Connection :=
  { c with queue := left.1, roundTrip := left.2 }

theorem finAcked_send (c : Connection) : c.finAcked = c.send.finAcked := by
  unfold finAcked SendVars.finAcked
  cases c.send.fin <;> rfl

theorem informed_informed (successive : c.send.Successive h h' ack ack') (last : c.FinLast) :
    (c.informed h ack).informed h' ack' = c.informed h' ack' ∧
      (c.informed h' ack').informed h ack = c.informed h' ack' := by
  obtain ⟨forth, back⟩ := successive.absorbs
  simp only [informed, forth, back]
  rw [State.settled_settled (successive.finAcked_later last), State.settled_settled id]
  exact ⟨rfl, rfl⟩

theorem drain_informed (c : Connection) (h : Header) (ack : SeqNumber) (left : List Unacked × RoundTrip) :
    ((c.informed h ack).holding left).drain ack' now
      = if (c.send.raise ack).unacked.before ack' then release ack' now left.1 left.2 else return left := by
  rw [drain, ← SendVars.heed_unacked c.send h ack]
  rfl

/-- What two acknowledgments release one after the other, the later one releases at once, if it covers
    all that the earlier one does. -/
theorem release_release (brief : ∀ e ∈ queue, e.text.length ≤ 65535)
    (covers : ∀ e ∈ queue, e.limit.after acked = false → e.limit.after acked' = false) :
    (do let left ← release acked now queue r; release acked' now left.1 left.2)
      = release acked' now queue r := by
  induction queue generalizing r with
  | nil => exact pure_bind _ _
  | cons e rest ih =>
    have ih {r : RoundTrip} := ih (r := r) (fun d member => brief d (List.mem_cons_of_mem e member))
      fun d member => covers d (List.mem_cons_of_mem e member)
    have stop := Unacked.stop_limit (brief e List.mem_cons_self)
    cases waits : e.limit.after acked with
    | true =>
      rw [release, stop, Act.lift_bind, if_pos waits, pure_bind]
    | false =>
      have covered := covers e List.mem_cons_self waits
      rw [release, stop, Act.lift_bind, if_neg (by rw [waits]; exact Bool.false_ne_true), release, stop,
        Act.lift_bind, if_neg (by rw [covered]; exact Bool.false_ne_true)]
      simp only [bind_assoc, ih]

theorem drain_drain (successive : c.send.Successive h h' ack ack')
    (brief : ∀ e ∈ c.queue, e.text.length ≤ 65535)
    (covers : ∀ e ∈ c.queue, e.limit.after ack = false → e.limit.after ack' = false) :
    (do let left ← c.drain ack now; ((c.informed h ack).holding left).drain ack' now) = c.drain ack' now := by
  obtain ⟨-, o, -, -, -, number, number', unacked, -, -, -, onward, -⟩ := successive.unroll
  have forward := before_arc unacked number
  have forward' := before_arc unacked number'
  have between := before_arc number number'
  simp only [drain_informed]
  unfold drain SendVars.raise
  dsimp only
  by_cases first : c.send.unacked.before ack = true
  · have second : c.send.unacked.before ack' = true := by
      rw [forward']
      have := forward.mp first
      omega
    rw [if_pos first, if_pos first, if_pos second]
    by_cases apart : ack.before ack' = true
    · simp only [if_pos apart]
      exact release_release brief covers
    · have same : ack = ack' := by
        refine eq_of_ahead (o := o) ?_
        have := mt between.mpr apart
        omega
      simp only [if_neg apart]
      rw [bind_pure, same]
  · rw [if_neg first, if_neg first, pure_bind]

theorem drain_after (successive : c.send.Successive h h' ack ack') (left : List Unacked × RoundTrip) :
    ((c.informed h' ack').holding left).drain ack now = return left := by
  obtain ⟨-, o, -, -, -, number, number', unacked, -, -, -, onward, -⟩ := successive.unroll
  rw [drain_informed, SendVars.raise]
  refine if_neg ?_
  dsimp only
  split
  next => rw [before_arc number' number]; omega
  next still =>
    have := mt (before_arc unacked number').mpr still
    rw [before_arc unacked number]
    omega

/- The handlers do just that. -/

theorem receiveContent_nothing (plain : s.Reports ack) :
    c.receiveContent s now = return .silent c := by
  have noted : c.noteUrgent s.header = .ok c := by
    rw [noteUrgent, plain.plain]
    rfl
  have unfinished : c.receiveFin s now = return (c, false) := by
    rw [receiveFin_eq, plain.bare.2.2]
    rfl
  rw [receiveContent, noted, Act.lift_bind, plain.bare.1]
  simp only [List.isEmpty_nil, Bool.not_true, Bool.false_and, Bool.false_eq_true, if_false, pure_bind,
    unfinished, Bool.or_false]

theorem progress_heeds (plain : s.Reports ack) (state : c.state.heeds = true) :
    c.progress s now = return .silent { c with state := c.state.settled c.send.finAcked } := by
  unfold progress
  rw [finAcked_send]
  split
  next waits =>
    rw [receiveContent_nothing plain, State.settled, waits]
    split
    next acked => rw [if_pos ⟨rfl, acked⟩]
    next not => rw [if_neg fun h => not h.2, ← waits]
  next closing =>
    rw [closing] at state
    cases state
  next last =>
    rw [last] at state
    cases state
  next other _ _ =>
    rw [receiveContent_nothing plain, State.settled, if_neg fun h => other h.1]

theorem refreshWindow_raised (c : Connection) (h : Header) (ack : SeqNumber)
    (left : List Unacked × RoundTrip) :
    refreshWindow ({ c with send := c.send.raise ack }.holding left) h ack
      = { c with send := c.send.heed h ack }.holding left := by
  by_cases newer : (c.send.raise ack).unacked = ack
      ∧ (c.send.windowSeq.before h.seq ∨ c.send.windowSeq = h.seq ∧ c.send.windowAck.atOrBefore ack)
  · have taken : c.send.heed h ack = c.send.take h ack := if_pos newer
    rw [taken]
    unfold refreshWindow
    refine (if_pos newer).trans ?_
    exact congrArg (fun unacked => { c with send := { c.send.take h ack with unacked } }.holding left) newer.1
  · have raised : c.send.heed h ack = c.send.raise ack := if_neg newer
    rw [raised]
    exact if_neg newer

theorem released_raised (c : Connection) (ack : SeqNumber) (now : Instant) :
    (if c.send.unacked.before ack then releaseAcked { c with send := { c.send with unacked := ack } } now
      else pure c) = (do
        let left ← c.drain ack now
        return { c with send := c.send.raise ack }.holding left) := by
  unfold drain SendVars.raise
  split
  next forward => rfl
  next still => rw [pure_bind]; rfl

theorem arrives_reports (plain : s.Reports ack) (state : c.state.heeds = true)
    (taken : c.acceptable s.header = .ok true) (sent : ack.after c.send.next = false) :
    c.arrives s iss now = (do
      let left ← c.drain ack now
      return .silent ((c.informed s.header ack).holding left)) := by
  have live : c.state.isSynchronized = true := by
    cases before : c.state <;> first | rfl | (rw [before] at state; cases state)
  have agreed : c.state ≠ .synReceived := by
    intro before
    rw [before] at state
    cases state
  rw [arrives_synchronized live, arrivesSynchronized]
  dsimp only
  rw [taken, Act.lift_bind, if_pos rfl, plain.calm, plain.bare.2.1, plain.given]
  dsimp only
  rw [if_neg Bool.false_ne_true, if_neg Bool.false_ne_true, arrivesWithAck, if_neg agreed, acknowledge_eq,
    if_neg (by rw [sent]; exact Bool.false_ne_true)]
  refine (apply_ite (fun act => act >>= fun d => (refreshWindow d s.header ack).progress s now)
    _ _ _).symm.trans ?_
  dsimp only
  rw [released_raised, bind_assoc]
  refine congrArg _ (funext fun left => ?_)
  rw [pure_bind, refreshWindow_raised]
  exact progress_heeds plain state

def arrivesBoth (c : Connection) (s s' : Segment) (iss : SeqNumber) (now : Instant) : Act Arrival := do
  let first ← c.arrives s iss now
  let second ← first.connection.arrives s' iss now
  return ⟨second.connection, first.answers ++ second.answers⟩

theorem settled_heeds {state : State} (heeds : state.heeds = true) (acked : Bool) :
    (state.settled acked).heeds = true := by
  cases acked <;> cases state <;> first | rfl | cases heeds

theorem arrives_again (plain : s.Reports ack) (state : c.state.heeds = true)
    (taken : c.acceptable s.header = .ok true) (sent : ack.after c.send.next = false)
    (left : List Unacked × RoundTrip) :
    ((c.informed h' ack').holding left).arrives s iss now = (do
      let left' ← ((c.informed h' ack').holding left).drain ack now
      return .silent (((c.informed h' ack').informed s.header ack).holding left')) := by
  refine arrives_reports plain (settled_heeds state _) taken ?_
  change ack.after (c.send.heed h' ack').next = false
  rwa [(c.send.heed_fixed h' ack').1]

section
variable (state : c.state.heeds = true) (last : c.FinLast) (plain : s.Reports ack)
  (plain' : s'.Reports ack') (taken : c.acceptable s.header = .ok true)
  (taken' : c.acceptable s'.header = .ok true) (successive : c.send.Successive s.header s'.header ack ack')
include state last plain plain' taken taken' successive

theorem arrivesBoth_in_order (brief : ∀ e ∈ c.queue, e.text.length ≤ 65535)
    (covers : ∀ e ∈ c.queue, e.limit.after ack = false → e.limit.after ack' = false) :
    c.arrivesBoth s s' iss now = c.arrives s' iss now := by
  have sent' := atOrBefore_iff.mp successive.sent
  have sent := atOrBefore_iff.mp successive.sent_first
  have later : c.arrives s' iss now = _ := arrives_reports plain' state taken' sent'
  have earlier : c.arrives s iss now = _ := arrives_reports plain state taken sent
  rw [arrivesBoth, earlier, later, ← drain_drain successive brief covers, bind_assoc, bind_assoc]
  refine congrArg _ (funext fun left => ?_)
  rw [pure_bind]
  dsimp only [Arrival.silent]
  rw [arrives_again plain' state taken' sent', bind_assoc, (informed_informed successive last).1]
  rfl

/-- An acknowledgment that was overtaken by a later one does nothing. -/
theorem arrivesBoth_overtaken : c.arrivesBoth s' s iss now = c.arrives s' iss now := by
  have sent' := atOrBefore_iff.mp successive.sent
  have sent := atOrBefore_iff.mp successive.sent_first
  have later : c.arrives s' iss now = _ := arrives_reports plain' state taken' sent'
  rw [arrivesBoth, later, bind_assoc]
  refine congrArg _ (funext fun left => ?_)
  rw [pure_bind]
  dsimp only [Arrival.silent]
  rw [arrives_again plain state taken sent, drain_after successive, pure_bind, pure_bind,
    (informed_informed successive last).2]
  rfl

end

end Connection
end TcpEngine
