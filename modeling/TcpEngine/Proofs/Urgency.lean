import TcpEngine.Proofs.Connection.Success
import TcpEngine.Proofs.Finality
import TcpEngine.Proofs.RightEdge

/-!
The urgent pointer of a connection. RCV.UP should be the largest that its peer has sent, but it is not
begun anew with the numbers of an incarnation: what it holds when the first pointer comes may lie anywhere.
Beside the stack it is written down what each pointer met. As the pointers all lie near the window, one
that was taken is only passed by a larger one, and the largest stands there if it was taken itself.
-/
namespace TcpEngine

/-- An urgent pointer that was looked at, and RCV.UP as it was before. -/
structure Mark where
  value : SeqNumber
  met : SeqNumber
deriving DecidableEq, Repr

namespace Mark

def left (m : Mark) : SeqNumber := if m.value.after m.met then m.value else m.met

def Tops (m : Mark) : Prop := m.value = m.met ∨ m.value.after m.met = true

instance (m : Mark) : Decidable m.Tops := inferInstanceAs (Decidable (_ ∨ _))

def place (m : Mark) (origin : SeqNumber) : Nat := m.value.ahead origin

variable {origin : SeqNumber} {m m' : Mark}

theorem eq_of_place (origin : SeqNumber) (same : m.place origin = m'.place origin) : m.value = m'.value := by
  rw [← SeqNumber.advance_ahead m.value origin, ← SeqNumber.advance_ahead m'.value origin]
  exact congrArg origin.advance same

theorem left_of_after (later : m.value.after m.met = true) : m.left = m.value := if_pos later

theorem left_of_not_after (behind : ¬ m.value.after m.met = true) : m.left = m.met := if_neg behind

theorem place_advance {place : Nat} (value : m.value = origin.advance place)
    (small : place < 0x100000000) : m.place origin = place := by
  rw [Mark.place, value, SeqNumber.ahead_advance small]

theorem left_of_tops (tops : m.Tops) : m.left = m.value := by
  by_cases later : m.value.after m.met = true
  · exact left_of_after later
  · rw [left_of_not_after later]
    exact (tops.resolve_right later).symm

theorem met_le_left (near : m.met.ahead origin ≤ m.place origin + SeqNumber.halfCircle) :
    m.met.ahead origin ≤ m.left.ahead origin := by
  by_cases later : m.value.after m.met = true
  · have order := (SeqNumber.after_iff_from m.value m.met origin).mp later
    rw [left_of_after later]
    simp only [place] at near
    omega
  · rw [left_of_not_after later]

theorem stays {top place : Nat} (above : top ≤ place) (near : place ≤ top + 196605)
    (value : m.value = origin.advance place) (short : top + 196605 < 0x100000000)
    (under : m.met.ahead origin ≤ top + 196605) : m.met.ahead origin ≤ m.left.ahead origin := by
  apply met_le_left
  rw [place_advance value (by omega)]
  simp only [SeqNumber.halfCircle]
  omega

theorem place_le_left (near : m.place origin < m.met.ahead origin + SeqNumber.halfCircle) :
    m.place origin ≤ m.left.ahead origin := by
  by_cases later : m.value.after m.met = true
  · rw [left_of_after later]
    exact Nat.le_refl _
  · have order := mt (SeqNumber.after_iff_from m.value m.met origin).mpr later
    rw [left_of_not_after later]
    simp only [place] at near ⊢
    omega

end Mark

/-- The pointers of an incarnation, oldest first, and RCV.UP behind them. Each has met what the one before
    it has left, and lies near the number that was expected when it came. `top` is the place of that
    number, which never goes back. -/
inductive Urged (origin : SeqNumber) : Nat → List Mark → SeqNumber → Prop where
  | unmarked (top : Nat) (urgent : SeqNumber) : Urged origin top [] urgent
  | raise {top top' : Nat} {ms : List Mark} {urgent : SeqNumber} (before : Urged origin top ms urgent)
      (more : top ≤ top') : Urged origin top' ms urgent
  -- A segment begins between 2^16 numbers before the next one expected and the end of the window, and
  -- points at most 2^16 - 1 numbers further.
  | mark {top place : Nat} {ms : List Mark} {m : Mark} (before : Urged origin top ms m.met)
      (above : top ≤ place) (near : place ≤ top + 196605) (value : m.value = origin.advance place) :
      Urged origin top (ms ++ [m]) m.left

namespace Urged

variable {origin urgent : SeqNumber} {top : Nat} {ms : List Mark} {m m' : Mark}

theorem place_le (urged : Urged origin top ms urgent) (short : top + 196605 < 0x100000000) :
    ∀ m ∈ ms, m.place origin ≤ top + 196605 := by
  induction urged with
  | unmarked => exact fun _ member => absurd member List.not_mem_nil
  | raise _ more ih =>
    intro m member
    exact Nat.le_trans (ih (by omega) m member) (by omega)
  | mark _ _ near value ih =>
    intro m member
    rcases List.mem_append.mp member with old | new
    · exact ih short m old
    · rw [List.mem_singleton.mp new, Mark.place_advance value (by omega)]
      exact near

theorem topped (urged : Urged origin top ms urgent) :
    ∀ m ∈ ms, m.value = urgent → ∃ m' ∈ ms, m'.value = m.value ∧ m'.Tops := by
  induction urged with
  | unmarked => exact fun _ member => absurd member List.not_mem_nil
  | raise _ _ ih => exact ih
  | @mark _ _ ms n _ _ _ _ ih =>
    intro m member same
    by_cases later : n.value.after n.met = true
    · rw [Mark.left_of_after later] at same
      exact ⟨n, List.mem_append_right _ List.mem_cons_self, same.symm, Or.inr later⟩
    · rw [Mark.left_of_not_after later] at same
      rcases List.mem_append.mp member with old | new
      · obtain ⟨m', there, equal, tops⟩ := ih m old same
        exact ⟨m', List.mem_append_left _ there, equal, tops⟩
      · obtain rfl := List.mem_singleton.mp new
        exact ⟨m, member, rfl, Or.inl same⟩

theorem taken (urged : Urged origin top ms urgent) (any : ∃ m ∈ ms, m.Tops) :
    ∃ m ∈ ms, m.value = urgent := by
  induction urged with
  | unmarked =>
    obtain ⟨_, member, _⟩ := any
    exact absurd member List.not_mem_nil
  | raise _ _ ih => exact ih any
  | @mark _ _ ms n _ _ _ _ ih =>
    obtain ⟨m, member, tops⟩ := any
    by_cases later : n.value.after n.met = true
    · exact ⟨n, List.mem_append_right _ List.mem_cons_self, (Mark.left_of_after later).symm⟩
    · rw [Mark.left_of_not_after later]
      rcases List.mem_append.mp member with old | new
      · obtain ⟨m', there, same⟩ := ih ⟨m, old, tops⟩
        exact ⟨m', List.mem_append_left _ there, same⟩
      · obtain rfl := List.mem_singleton.mp new
        exact ⟨m, member, tops.resolve_right later⟩

/-- RCV.UP is near the window once a pointer was taken. -/
theorem near (urged : Urged origin top ms urgent) (short : top + 196605 < 0x100000000)
    (any : ∃ m ∈ ms, m.Tops) : urgent.ahead origin ≤ top + 196605 := by
  obtain ⟨m, member, rfl⟩ := urged.taken any
  exact urged.place_le short m member

/-- A pointer that was taken is not ahead of RCV.UP. -/
theorem passed (urged : Urged origin top ms urgent) (short : top + 196605 < 0x100000000) :
    ∀ m ∈ ms, m.Tops → m.place origin ≤ urgent.ahead origin := by
  induction urged with
  | unmarked => exact fun _ member => absurd member List.not_mem_nil
  | raise _ more ih => exact ih (by omega)
  | @mark top place ms n before above near value ih =>
    intro m member tops
    rcases List.mem_append.mp member with old | new
    · have under := before.near short ⟨m, old, tops⟩
      exact Nat.le_trans (ih short m old tops) (Mark.stays above near value short under)
    · rw [List.mem_singleton.mp new] at tops ⊢
      rw [Mark.left_of_tops tops]
      exact Nat.le_refl _

/-- If the first pointer was taken, and all are less than half the circle apart, none is ahead of
    RCV.UP. -/
theorem led (urged : Urged origin top ms urgent) (short : top + 196605 < 0x100000000)
    (first : ∀ m ∈ ms.head?, m.Tops)
    (spread : ∀ m ∈ ms, ∀ m' ∈ ms, m.place origin < m'.place origin + SeqNumber.halfCircle) :
    ∀ m ∈ ms, m.place origin ≤ urgent.ahead origin := by
  induction urged with
  | unmarked => exact fun _ member => absurd member List.not_mem_nil
  | raise _ more ih => exact ih (by omega) first spread
  | @mark top place ms n before above near value ih =>
    have last : n ∈ ms ++ [n] := List.mem_append_right _ List.mem_cons_self
    cases ms with
    | nil =>
      intro m member
      rw [List.mem_singleton.mp member, Mark.left_of_tops (first n rfl)]
      exact Nat.le_refl _
    | cons head rest =>
      have any : ∃ m ∈ head :: rest, m.Tops := ⟨head, List.mem_cons_self, first head rfl⟩
      have under := before.near short any
      obtain ⟨m', member', same⟩ := before.taken any
      intro m member
      rcases List.mem_append.mp member with old | new
      · have below := ih short first
          (fun a old b old' => spread a (List.mem_append_left _ old) b (List.mem_append_left _ old')) m old
        exact Nat.le_trans below (Mark.stays above near value short under)
      · have apart := spread n last m' (List.mem_append_left _ member')
        rw [List.mem_singleton.mp new]
        refine Mark.place_le_left ?_
        rw [← same]
        exact apart

theorem eq_iff (urged : Urged origin top ms urgent) (short : top + 196605 < 0x100000000)
    (member : m ∈ ms) (largest : ∀ m' ∈ ms, m'.place origin ≤ m.place origin) :
    urgent = m.value ↔ ∃ m' ∈ ms, m'.value = m.value ∧ m'.Tops := by
  constructor
  · intro same
    exact urged.topped m member same.symm
  · rintro ⟨m', member', same, tops⟩
    obtain ⟨n, there, rfl⟩ := urged.taken ⟨m', member', tops⟩
    have above := urged.passed short m' member' tops
    refine Mark.eq_of_place origin (Nat.le_antisymm (largest n there) ?_)
    rwa [Mark.place, same] at above

theorem eq_of_led (urged : Urged origin top ms urgent) (short : top + 196605 < 0x100000000)
    (first : ∀ m ∈ ms.head?, m.Tops)
    (spread : ∀ m ∈ ms, ∀ m' ∈ ms, m.place origin < m'.place origin + SeqNumber.halfCircle)
    (member : m ∈ ms) (largest : ∀ m' ∈ ms, m'.place origin ≤ m.place origin) : urgent = m.value := by
  have any : ∃ m ∈ ms, m.Tops := by
    cases ms with
    | nil => exact absurd member List.not_mem_nil
    | cons head rest => exact ⟨head, List.mem_cons_self, first head rfl⟩
  obtain ⟨n, there, rfl⟩ := urged.taken any
  exact Mark.eq_of_place origin
    (Nat.le_antisymm (largest n there) (urged.led short first spread m member))

end Urged

namespace Connection

variable {s : Segment} {h : Header} {iss : SeqNumber} {now : Instant} {σ : List Signal} {a : Arrival}
  {c c' : Connection} {m : Mark} {received : Octets} {urgent : SeqNumber}

instance (c : Connection) (s : Segment) : Decidable (c.LooksAt s) :=
  decidable_of_iff (c.Processes s ∧ s.header.ack.any (fun ack =>
      decide (c.state.receivesText = true ∧ ack.after c.send.next = false ∨
        c.state = .synReceived ∧ c.send.unacked.before ack = true ∧
          ack.atOrBefore c.send.next = true)) = true) <| by
    simp only [LooksAt, Option.any_eq_true, decide_eq_true_eq, Option.mem_def]

def pointed (c : Connection) (h : Header) : Mark := ⟨h.seq.advance h.urgent.toNat, c.receive.urgent⟩

def mark? (c : Connection) (s : Segment) : Option Mark :=
  if c.LooksAt s ∧ s.header.flags.has .urg = true then some (c.pointed s.header) else none

theorem mark?_eq_some : c.mark? s = some m ↔
    (c.LooksAt s ∧ s.header.flags.has .urg = true) ∧ c.pointed s.header = m := by
  unfold mark?
  split <;> simp_all

theorem LooksAt.going (looks : c.LooksAt s) :
    c.state.isSynchronized = true ∧ c.state.peerDone = false := by
  obtain ⟨_, _, _, ⟨receives, _⟩ | ⟨state, _⟩⟩ := looks
  · cases state : c.state <;> rw [state] at receives <;> first | exact ⟨rfl, rfl⟩ | cases receives
  · rw [state]
    exact ⟨rfl, rfl⟩

theorem mark?_none (deaf : ¬ c.LooksAt s) : c.mark? s = none := if_neg fun looked => deaf looked.1

def origin (c : Connection) : SeqNumber := c.receive.initial.advance 0xffff0000

/- What an arrival makes of RCV.UP. -/

theorem noteUrgent_urgent (ok : c.noteUrgent h = .ok (c.noted urgent)) :
    urgent = if h.flags.has .urg && c.state.receivesText then (c.pointed h).left
      else c.receive.urgent := by
  unfold noteUrgent at ok
  split at ok
  · rename_i noted
    simp only [except_bind_ok, except_pure_ok, SeqNumber.add_ok] at ok
    obtain ⟨_, ⟨_, rfl⟩, same⟩ := ok
    have same := congrArg (fun d : Connection => d.receive.urgent) same
    rw [if_pos noted]
    split at same
    · rename_i later
      exact same.trans (Mark.left_of_after (m := c.pointed h) later).symm
    · rename_i behind
      exact same.trans (Mark.left_of_not_after (m := c.pointed h) behind).symm
  · rename_i none
    rw [if_neg none]
    exact congrArg (fun d : Connection => d.receive.urgent) (Except.ok.inj ok).symm

theorem receiveContent_urgent (ends : (c.receiveContent s now).Ends σ a) : a.connection.receive.urgent
    = if s.header.flags.has .urg && c.state.receivesText then (c.pointed s.header).left
      else c.receive.urgent := by
  obtain ⟨urgent, c₁, _, _, _, noted, _, _, fin, text⟩ := receiveContent_steps ends
  rw [← noteUrgent_urgent noted]
  have before : c₁.receive.urgent = urgent := by
    rcases text with ⟨_, _, kept, accepted, served⟩ | ⟨_, _, rfl⟩
    · have same : c₁.receive = kept.receive := (untaken_deliver served).receive
      rw [same]
      rcases acceptText_ok accepted with rfl | ⟨_, _, _, _, _, _, rfl⟩ <;> rfl
    · rfl
  rw [← before]
  rcases receiveFin_ends fin with ⟨_, same⟩ | ⟨_, _, counted⟩
  · rw [(Prod.mk.inj same).1]
  · obtain ⟨_, _, same⟩ := countFin_counts counted
    rw [same]
    rfl

theorem arrives_urgent (live : c.state.isSynchronized = true)
    (live' : a.connection.state.isSynchronized = true) (ends : (c.arrives s iss now).Ends σ a) :
    a.connection.receive.urgent = ((c.mark? s).map Mark.left).getD c.receive.urgent := by
  rw [arrives_synchronized live] at ends
  cases arrivesSynchronized_looks live ends with
  | shut _ closed =>
    rw [closed] at live'
    cases live'
  | idle unread untaken =>
    rw [mark?_none unread, untaken.receive]
    rfl
  | @content d _ _ _ before _ reads later =>
    have same : d.pointed s.header = c.pointed s.header := by
      rw [pointed, before.receive]
      rfl
    rw [receiveContent_urgent later, same, before.receive]
    by_cases looked : c.LooksAt s ∧ s.header.flags.has .urg = true
    · rw [mark?_eq_some.mpr ⟨looked, rfl⟩, looked.2, reads.mp looked.1]
      rfl
    · have idle : ¬ (s.header.flags.has .urg && d.state.receivesText) = true := by
        rw [Bool.and_eq_true, ← reads]
        exact fun both => looked both.symm
      rw [if_neg idle, mark?, if_neg looked]
      rfl

theorem fits_near (limited : Limited c) (brief : h.sequenceLength ≤ 65537) (fits : c.Fits h) :
    ∃ n, n ≤ 131070 ∧ h.seq = c.receive.next.advance (0xffff0000 + n) := by
  have room := limited.room
  have narrow : c.window ≤ 65535 := Nat.le_trans (Nat.sub_le _ _) room
  have bound := SeqNumber.ahead_lt h.seq c.receive.next
  suffices near : (h.seq.ahead c.receive.next + 0x10000) % 0x100000000 ≤ 131070 by
    refine ⟨_, near, ?_⟩
    have there := SeqNumber.ahead_advance_self c.receive.next
      (0xffff0000 + (h.seq.ahead c.receive.next + 0x10000) % 0x100000000)
    have same : (0xffff0000 + (h.seq.ahead c.receive.next + 0x10000) % 0x100000000) % 0x100000000
        = h.seq.ahead c.receive.next := by omega
    rw [same] at there
    conv_lhs => rw [← SeqNumber.advance_ahead h.seq c.receive.next, ← there]
    exact SeqNumber.advance_ahead _ _
  rcases fits with first | ⟨takes, last⟩ | ⟨_, _, same⟩
  · unfold InWindow at first
    omega
  · have place := SeqNumber.ahead_advance_self c.receive.next
      (h.seq.ahead c.receive.next + (h.sequenceLength - 1))
    rw [← SeqNumber.advance_advance, SeqNumber.advance_ahead] at place
    rw [InWindow, Header.last, place] at last
    omega
  · rw [same, SeqNumber.ahead_self]
    decide

theorem mark?_near (limited : Limited c) (short : s.text.length ≤ 65535)
    (long : s.header.textLength = s.text.length) (counted : c.Counted received 0)
    (marked : c.mark? s = some m) : m.met = c.receive.urgent ∧
      ∃ place, 1 + (received ++ c.buffer.toList).length ≤ place ∧
        place ≤ 1 + (received ++ c.buffer.toList).length + 196605 ∧
        m.value = c.origin.advance place := by
  obtain ⟨⟨⟨⟨tested, _⟩, _⟩, _⟩, rfl⟩ := mark?_eq_some.mp marked
  have sized : s.Sized := ⟨long.symm, short⟩
  have pointer := s.header.urgent.toNat_lt
  rw [acceptable_eq limited (Nat.le_trans sized.brief (by decide)), Except.ok.injEq,
    decide_eq_true_iff] at tested
  obtain ⟨n, near, place⟩ := fits_near limited sized.brief tested
  refine ⟨rfl, 1 + (received ++ c.buffer.toList).length + (n + s.header.urgent.toNat),
    Nat.le_add_right _ _, by omega, ?_⟩
  unfold Counted at counted
  rw [pointed, place, counted, origin]
  simp only [SeqNumber.advance_advance]
  congr 1
  omega

/-- A pointer is written down behind those that came before. -/
theorem arrives_urged {ms : List Mark} (limited : Limited c) (live : c.state.isSynchronized = true)
    (live' : a.connection.state.isSynchronized = true) (short : s.text.length ≤ 65535)
    (long : s.header.textLength = s.text.length)
    (counted : c.state.peerDone = false → c.Counted received 0)
    (urged : Urged c.origin (1 + (received ++ c.buffer.toList).length) ms c.receive.urgent)
    (ends : (c.arrives s iss now).Ends σ a) :
    Urged c.origin (1 + (received ++ c.buffer.toList).length) (ms ++ (c.mark? s).toList)
      a.connection.receive.urgent := by
  rw [arrives_urgent live live' ends]
  cases marked : c.mark? s with
  | none =>
    rw [Option.toList_none, List.append_nil]
    exact urged
  | some m =>
    have looks := (mark?_eq_some.mp marked).1.1
    obtain ⟨met, place, above, near, value⟩ := mark?_near limited short long (counted looks.going.2) marked
    rw [← met] at urged
    exact .mark urged above near value

end Connection

def Event.marks (event : Event) (c : Connection) : List Mark := (event.bringsTo c).filterMap c.mark?

/-- What is known of an incarnation, its pointers and its connection. Until the peer has finished, RCV.NXT
    stands just behind what was received, so the pointers are near to that. -/
structure Marked (l : Life) (ms : List Mark) (c : Connection) : Prop where
  asking : c.state = .synSent → l.received = [] ∧ ms = []
  counted : c.state.isSynchronized = true → c.state.peerDone = false → c.Counted l.received 0
  urged : c.state.isSynchronized = true → (∀ s ∈ l.arrived, s.text.length ≤ 65535) →
    Urged c.origin (1 + (l.received ++ c.buffer.toList).length) ms c.receive.urgent

section Befalls

variable {config : Config} {now : Instant} {call : CallId} {event : Event} {s : Segment} {c c' : Connection}
  {σ : List Signal} {ds : List Datagram} {l : Life} {ms : List Mark} {unacked : SeqNumber}

theorem marks_dead (dead : c.state.isSynchronized = false) : event.marks c = [] := by
  refine List.filterMap_eq_nil_iff.mpr fun s _ => Connection.mark?_none fun looks => ?_
  rw [looks.going.1] at dead
  cases dead

theorem befalls_receive (busy : ¬ c.Free) (none : event.bringsTo c = [])
    (h : Befalls config now call event c σ ds c') : c'.receive = c.receive := by
  cases h with
  | spared => rfl
  | called _ _ called => exact (Connection.called_fixed busy called).2.1
  | arrived _ brings claims =>
    rw [Event.bringsTo_claimed brings claims] at none
    cases none
  | timed ends => exact Connection.turns_receive (Connection.onTimer_turns ends).1

theorem befalls_marked_first (coherent : c.Coherent) (dead : c.state.isSynchronized = false)
    (silent : l.received = []) (h : Befalls config now call event c σ ds c') :
    Marked (l.goOn event σ ds unacked c c') [] c' := by
  have received : (l.goOn event σ ds unacked c c').received = handed σ := by
    rw [Life.goOn, silent, List.nil_append]
  rcases befalls_first coherent dead h with ⟨dead', quiet⟩ | ⟨live', fins, _, undone, counted⟩
  · refine ⟨fun _ => ⟨received.trans quiet, rfl⟩, fun live => ?_, fun _ _ => .unmarked _ _⟩
    rw [dead'] at live
    cases live
  · refine ⟨fun asks => ?_, fun _ going => ?_, fun _ _ => .unmarked _ _⟩
    · exact absurd asks (Connection.not_asking live')
    · rw [received, ← undone going]
      exact counted

theorem befalls_undone (coherent : c.Coherent) (limited : c.Limited) (busy : ¬ c'.Free)
    (h : Befalls config now call event c σ ds c') (going : c'.state.peerDone = false) :
    c.state.peerDone = false := by
  rw [befalls_counts coherent limited busy h, Bool.or_eq_false_iff] at going
  exact going.1

theorem befalls_counted (coherent : c.Coherent) (limited : c.Limited) (live : c.state.isSynchronized = true)
    (marked : Marked l ms c) (h : Befalls config now call event c σ ds c')
    (live' : c'.state.isSynchronized = true) (going : c'.state.peerDone = false) :
    c'.Counted (l.goOn event σ ds unacked c c').received 0 := by
  obtain ⟨_, fins, _, _, undone, gains⟩ := befalls_gains live live' h
  have before := befalls_undone coherent limited (Connection.not_free_of_live live') h going
  have counted := gains.counted (marked.counted live before)
  rwa [undone going] at counted

end Befalls

namespace Stack

variable {k k' : Stack} {here : Endpoint} {place : Nat} {event : Event} {now : Instant} {answer : Answer}
  {σ : List Signal} {c c' : Connection} {l : Life} {ms : List Mark} {history : List (Event × Instant)}

def remark (k k' : Stack) (here : Endpoint) (event : Event) (ms : List Mark) : List Mark :=
  match k.table.get? here, k'.table.get? here with
  | some c, some c' => if c.Free then if c'.Free then ms else [] else ms ++ event.marks c
  | _, _ => ms

def marked (k : Stack) (here : Endpoint) (ms : List Mark) (place : Nat) :
    List (Event × Instant) → List Mark
  | [] => ms
  | (event, now) :: rest =>
    match (k.handle event now place).outcome with
    | .ok (k', _) => k'.marked here (k.remark k' here event ms) (place + 1) rest
    | .error _ => ms

theorem marked_cons {rest : List (Event × Instant)}
    (ends : (k.handle event now place).Ends σ (k', answer)) :
    k.marked here ms place ((event, now) :: rest)
      = k'.marked here (k.remark k' here event ms) (place + 1) rest := by
  rw [marked, ends]

/-- One event writes down the pointer that it brings, if it brings one. -/
theorem handle_urged (sound : Sound place k) (found : k.table.get? here = some c)
    (live : c.state.isSynchronized = true) (found' : k'.table.get? here = some c')
    (live' : c'.state.isSynchronized = true) (short : ∀ s ∈ event.bringsTo c, s.text.length ≤ 65535)
    (counted : c.state.peerDone = false → c.Counted l.received 0)
    (urged : Urged c.origin (1 + (l.received ++ c.buffer.toList).length) ms c.receive.urgent)
    (ends : (k.handle event now place).Ends σ (k', answer)) :
    Urged c.origin (1 + (l.received ++ c.buffer.toList).length) (ms ++ event.marks c)
      c'.receive.urgent := by
  have limited := sound.limited c (Table.get?_some found).1
  cases brought : event.bringsTo c with
  | nil =>
    rcases handle_befalls sound found ends with ⟨_, none⟩ | ⟨d, _, found'', _, befalls⟩
    · cases none.symm.trans found'
    · obtain rfl := Option.some.inj (found''.symm.trans found')
      rw [befalls_receive (Connection.not_free_of_live live) brought befalls, Event.marks, brought,
        List.filterMap_nil, List.append_nil]
      exact urged
  | cons s rest =>
    have member : s ∈ event.bringsTo c := brought ▸ List.mem_cons_self
    obtain ⟨brings, claims⟩ := Event.brings_of_mem member
    obtain ⟨iss, _, a, arrives, found''⟩ := handle_arrives sound found brings claims ends
    obtain rfl := Option.some.inj (found''.symm.trans found')
    have marks : event.marks c = (c.mark? s).toList := by
      rw [Event.marks, Event.bringsTo_claimed brings claims]
      cases marked : c.mark? s <;> simp [marked]
    rw [marks]
    exact Connection.arrives_urged limited live live' (short s member) (Event.long_of_segment? brings)
      counted urged arrives

theorem handle_marked_live (sound : Sound place k) (found : k.table.get? here = some c)
    (live : c.state.isSynchronized = true) (found' : k'.table.get? here = some c') (busy' : ¬ c'.Free)
    (marked : Marked l ms c) (ends : (k.handle event now place).Ends σ (k', answer)) :
    Marked (l.after here event place σ k k') (ms ++ event.marks c) c' := by
  obtain ⟨there, _⟩ := Table.get?_some found
  have coherent := sound.proper.coherent c there
  have limited := sound.limited c there
  have busy := Connection.not_free_of_live live
  rcases handle_befalls sound found ends with ⟨_, none⟩ | ⟨d, ds, found'', log, befalls⟩
  · cases none.symm.trans found'
  obtain rfl := Option.some.inj (found''.symm.trans found')
  have live' := (befalls_receives coherent limited live busy' befalls).1
  have after : l.after here event place σ k k' = l.goOn event
      (σ.filter fun signal => c.expects event place signal.call) ds c.send.unacked c d := by
    rw [Life.after, found, found', log, List.drop_left]
    exact Life.observe_onward busy
  obtain ⟨more, fins, _, _, _, gains⟩ := befalls_gains live live' befalls
  rw [after]
  refine ⟨fun asks => absurd asks (Connection.not_asking live'),
    fun _ => befalls_counted coherent limited live marked befalls live', fun _ short => ?_⟩
  have origin : d.origin = c.origin := congrArg (SeqNumber.advance · 0xffff0000) gains.initial
  have text := congrArg List.length gains.text
  rw [origin]
  have urged := handle_urged sound found live found' live'
    (fun s brought => short s (List.mem_append_right _ brought)) (marked.counted live)
    (marked.urged live fun s came => short s (List.mem_append_left _ came)) ends
  refine .raise urged ?_
  simp only [Life.goOn, List.length_append] at text ⊢
  omega

theorem handle_marked (sound : Sound place k)
    (marked : ∀ c, k.table.get? here = some c → ¬ c.Free → Marked l ms c)
    (ends : (k.handle event now place).Ends σ (k', answer)) :
    ∀ c', k'.table.get? here = some c' → ¬ c'.Free →
      Marked (l.after here event place σ k k') (k.remark k' here event ms) c' := by
  intro c' found' busy'
  rcases handle_origin sound ends found' with ⟨_, rfl⟩ | ⟨c, ds, found, log, befalls⟩
  · exact absurd (Or.inl rfl) busy'
  have coherent := sound.proper.coherent c (Table.get?_some found).1
  rw [remark, found, found']
  dsimp only
  by_cases free : c.Free
  · rw [if_pos free, if_neg busy', Life.after, found, found', log, List.drop_left]
    dsimp only
    rw [Life.observe_begun free busy']
    exact befalls_marked_first coherent (Connection.dead_of_free free) rfl befalls
  · rw [if_neg free]
    cases live : c.state.isSynchronized with
    | true => exact handle_marked_live sound found live found' busy' (marked c found free) ends
    | false =>
      have asks : c.state = .synSent := by
        by_contra off
        rw [Connection.live_of_busy free off] at live
        cases live
      obtain ⟨silent, none⟩ := (marked c found free).asking asks
      rw [none, marks_dead live, List.append_nil, Life.after, found, found', log, List.drop_left]
      dsimp only
      rw [Life.observe_onward free]
      exact befalls_marked_first coherent live silent befalls

theorem run_marked (sound : Sound place k)
    (marked : ∀ c, k.table.get? here = some c → ¬ c.Free → Marked l ms c)
    (ends : (k.run place history).Ends σ k') : ∀ c, k'.table.get? here = some c → ¬ c.Free →
      Marked (k.lived here l place history) (k.marked here ms place history) c := by
  induction history generalizing k place σ l ms with
  | nil =>
    obtain ⟨_, rfl⟩ := Act.ends_pure.mp ends
    exact marked
  | cons head rest ih =>
    obtain ⟨event, now⟩ := head
    obtain ⟨_, _, _, _, first, later, _⟩ := run_cons_ends.mp ends
    rw [lived_cons first, marked_cons first]
    exact ih (handle_sound sound first) (handle_marked sound marked first) later

/-- In every history that begins with an empty table, let no segment of an incarnation have more text than a
    datagram can carry, and let fewer octets have been received than half the circle, less 2^16. Then the
    pointers that were looked at do not reach around the circle, and the largest of them is the one with
    the largest place. RCV.UP is that one exactly if it, or one with the same number, was not behind RCV.UP
    when it came. So it is if the first pointer was not behind what it met, and all are less than half the
    circle apart. -/
theorem urgent_largest_iff {config : Config} {generator : SeqGenerator} {m : Mark}
    (ends : ((Stack.empty config generator).run 0 history).Ends σ k)
    (life : (Stack.empty config generator).lived here .unborn 0 history = l)
    (marked : (Stack.empty config generator).marked here [] 0 history = ms)
    (found : k.table.get? here = some c) (busy : ¬ c.Free)
    (short : ∀ s ∈ l.arrived, s.text.length ≤ 65535)
    (few : (l.received ++ c.buffer.toList).length + 65536 < SeqNumber.halfCircle)
    (member : m ∈ ms) (largest : ∀ m' ∈ ms, m'.place c.origin ≤ m.place c.origin) :
    (∀ m' ∈ ms, m'.place c.origin ≤ 1 + (l.received ++ c.buffer.toList).length + 196605) ∧
    (c.receive.urgent = m.value ↔ ∃ m' ∈ ms, m'.value = m.value ∧ m'.Tops) ∧
    ((∀ m' ∈ ms.head?, m'.Tops) →
      (∀ m₁ ∈ ms, ∀ m₂ ∈ ms, m₁.place c.origin < m₂.place c.origin + SeqNumber.halfCircle) →
      c.receive.urgent = m.value) := by
  have known : Marked l ms c := by
    rw [← life, ← marked]
    exact run_marked (sound_empty config generator)
      (fun _ none => by cases none) ends c found busy
  have live : c.state.isSynchronized = true := by
    refine Connection.live_of_busy busy fun asks => ?_
    rw [(known.asking asks).2] at member
    exact absurd member List.not_mem_nil
  have urged := known.urged live short
  have bound : 1 + (l.received ++ c.buffer.toList).length + 196605 < 0x100000000 := by
    simp only [SeqNumber.halfCircle] at few
    omega
  exact ⟨urged.place_le bound, urged.eq_iff bound member largest,
    fun first spread => urged.eq_of_led bound first spread member largest⟩

def pointed : List (Event × Instant) :=
  asking ++
    [(agreement, .start),
     -- Two urgent pointers, the larger one first.
     (.ingress [0, 80, 192, 0, 0, 0, 3, 233, 10, 62, 28, 189, 80, 48, 1, 244, 174, 132, 0, 5]
       ⟨10, 0, 0, 2⟩ ⟨10, 0, 0, 1⟩, .start),
     (.ingress [0, 80, 192, 0, 0, 0, 3, 233, 10, 62, 28, 189, 80, 48, 1, 244, 174, 134, 0, 3]
       ⟨10, 0, 0, 2⟩ ⟨10, 0, 0, 1⟩, .start)]

theorem pointed_largest : ∃ σ k l ms c m,
    ((Stack.empty { receiveWindow := 8 } (.ofKey 1 2)).run 0 pointed).Ends σ k ∧
    (Stack.empty { receiveWindow := 8 } (.ofKey 1 2)).lived ⟨⟨10, 0, 0, 1⟩, 49152⟩ .unborn 0 pointed = l ∧
    (Stack.empty { receiveWindow := 8 } (.ofKey 1 2)).marked ⟨⟨10, 0, 0, 1⟩, 49152⟩ [] 0 pointed = ms ∧
    k.table.get? ⟨⟨10, 0, 0, 1⟩, 49152⟩ = some c ∧ ¬ c.Free ∧
    (∀ s ∈ l.arrived, s.text.length ≤ 65535) ∧
    (l.received ++ c.buffer.toList).length + 65536 < SeqNumber.halfCircle ∧
    ms = [m, ⟨⟨1004⟩, ⟨1006⟩⟩] ∧ m.Tops ∧ (∀ m' ∈ ms, m'.place c.origin ≤ m.place c.origin) ∧
    c.receive.urgent = m.value ∧ m.value = ⟨1006⟩ := by
  let here : Endpoint := ⟨⟨10, 0, 0, 1⟩, 49152⟩
  let start := Stack.empty { receiveWindow := 8 } (.ofKey 1 2)
  let k := (start.run 0 pointed).result start
  let c := (k.table.get? here).getD (.bound here {})
  let m : Mark := ⟨⟨1006⟩, ⟨0⟩⟩
  have ends : (start.run 0 pointed).Ends (start.run 0 pointed).signals k :=
    Act.ends_result start (by decide +kernel)
  have found : k.table.get? here = some c := by decide +kernel
  have busy : ¬ c.Free := by decide +kernel
  have short : ∀ s ∈ (start.lived here .unborn 0 pointed).arrived, s.text.length ≤ 65535 := by
    decide +kernel
  have few : ((start.lived here .unborn 0 pointed).received ++ c.buffer.toList).length + 65536
      < SeqNumber.halfCircle := by decide +kernel
  have marked : start.marked here [] 0 pointed = [m, ⟨⟨1004⟩, ⟨1006⟩⟩] := by decide +kernel
  have largest : ∀ m' ∈ [m, ⟨⟨1004⟩, ⟨1006⟩⟩], m'.place c.origin ≤ m.place c.origin := by
    decide +kernel
  obtain ⟨_, _, led⟩ :=
    urgent_largest_iff ends rfl marked found busy short few List.mem_cons_self largest
  exact ⟨_, k, _, _, c, m, ends, rfl, marked, found, busy, short, few, rfl, by decide +kernel, largest,
    led (by decide +kernel) (by decide +kernel), rfl⟩

def distant : List (Event × Instant) :=
  asking ++
    -- The numbers of the peer begin half the circle behind zero.
    [(.ingress [0, 80, 192, 0, 144, 0, 0, 0, 10, 62, 28, 189, 80, 18, 1, 244, 34, 144, 0, 0]
       ⟨10, 0, 0, 2⟩ ⟨10, 0, 0, 1⟩, .start),
     (.ingress [0, 80, 192, 0, 144, 0, 0, 1, 10, 62, 28, 189, 80, 48, 1, 244, 34, 108, 0, 5]
       ⟨10, 0, 0, 2⟩ ⟨10, 0, 0, 1⟩, .start)]

/-- It does not come up to the zero that RCV.UP began with. -/
theorem distant_overlooked : ∃ σ k l c m,
    ((Stack.empty { receiveWindow := 8 } (.ofKey 1 2)).run 0 distant).Ends σ k ∧
    (Stack.empty { receiveWindow := 8 } (.ofKey 1 2)).lived ⟨⟨10, 0, 0, 1⟩, 49152⟩ .unborn 0 distant = l ∧
    (Stack.empty { receiveWindow := 8 } (.ofKey 1 2)).marked ⟨⟨10, 0, 0, 1⟩, 49152⟩ [] 0 distant = [m] ∧
    k.table.get? ⟨⟨10, 0, 0, 1⟩, 49152⟩ = some c ∧ c.state = .established ∧ l.received = [] ∧
    c.buffer.toList = [] ∧ c.receive.initial = ⟨2415919104⟩ ∧ m.value = ⟨2415919110⟩ ∧
    c.receive.urgent = ⟨0⟩ := by
  let here : Endpoint := ⟨⟨10, 0, 0, 1⟩, 49152⟩
  let start := Stack.empty { receiveWindow := 8 } (.ofKey 1 2)
  let k := (start.run 0 distant).result start
  let c := (k.table.get? here).getD (.bound here {})
  have ends : (start.run 0 distant).Ends (start.run 0 distant).signals k :=
    Act.ends_result start (by decide +kernel)
  exact ⟨_, k, _, c, ⟨⟨2415919110⟩, ⟨0⟩⟩, ends, rfl, by decide +kernel, by decide +kernel,
    by decide +kernel, by decide +kernel, by decide +kernel, by decide +kernel, rfl, by decide +kernel⟩

end Stack
end TcpEngine
