import TcpEngine.Proofs.Connection.Coherence

/-!
The send window, unrolled. The segments that wait lie one behind the other between the number that
is not yet acknowledged and the next one to use, and no move but an acknowledgment of something sent
changes that.
-/
namespace TcpEngine

def Unacked.size (e : Unacked) : Nat := e.text.length + e.flags.sequenceLength

theorem Unacked.size_sent (seq : SeqNumber) (text : Octets) (now : Instant) (call : CallId) :
    size ⟨seq, .ofList [.ack, .psh], text, now, now, 0, some call⟩ = text.length := by
  have none : (Flags.ofList [.ack, .psh]).sequenceLength = 0 := by decide
  rw [size, none, Nat.add_zero]

theorem Unacked.size_finished (seq : SeqNumber) (now : Instant) (call : CallId) :
    size ⟨seq, .ofList [.fin, .ack], [], now, now, 0, some call⟩ = 1 := by
  have one : (Flags.ofList [.fin, .ack]).sequenceLength = 1 := by decide
  rw [size, one, List.length_nil]

/-- What of a waiting segment no step changes as long as it waits. -/
def Unacked.shape (e : Unacked) : SeqNumber × Octets × Nat × Option CallId :=
  (e.seq, e.text, e.flags.sequenceLength, e.call)

structure Unacked.At (origin : SeqNumber) (unacked next start : Nat) (e : Unacked) : Prop where
  seq : e.seq = origin.advance start
  filled : 0 < e.size
  waits : unacked < start + e.size
  sent : start + e.size ≤ next
  plain : e.flags.has .syn = true → e.flags.has .fin = false

theorem Unacked.at_next {origin : SeqNumber} {unacked next : Nat} {e : Unacked}
    (seq : e.seq = origin.advance next) (order : unacked ≤ next) (filled : 0 < e.size)
    (plain : e.flags.has .syn = true → e.flags.has .fin = false) :
    e.At origin unacked (next + e.size) next :=
  ⟨seq, filled, by omega, Nat.le_refl _, plain⟩

theorem Unacked.At.syn {iss : SeqNumber} {e : Unacked} (flags : Flags) (seq : e.seq = iss)
    (same : e.flags = flags) (text : e.text = [])
    (plain : flags.sequenceLength = 1 ∧ flags.has .fin = false) : e.At iss 0 1 0 := by
  have size : e.size = 1 := by rw [Unacked.size, text, same, plain.1, List.length_nil]
  have there : e.At iss 0 (0 + e.size) 0 :=
    Unacked.at_next (seq.trans (SeqNumber.advance_zero iss).symm) (Nat.le_refl 0) (by omega)
      fun _ => same ▸ plain.2
  rwa [size] at there

inductive Laid (origin : SeqNumber) (unacked next : Nat) : Nat → List Unacked → Prop where
  | nil {low : Nat} : Laid origin unacked next low []
  | cons {low start : Nat} {e : Unacked} {rest : List Unacked} (behind : low ≤ start)
      (first : e.At origin unacked next start)
      (later : Laid origin unacked next (start + e.size) rest) :
      Laid origin unacked next low (e :: rest)

namespace Laid
variable {origin : SeqNumber} {unacked next low : Nat} {queue : List Unacked}

theorem lower {low' : Nat} (h : Laid origin unacked next low queue) (less : low' ≤ low) :
    Laid origin unacked next low' queue := by
  cases h with
  | nil => exact .nil
  | cons behind first later => exact .cons (Nat.le_trans less behind) first later

theorem mem {e : Unacked} (h : Laid origin unacked next low queue) (member : e ∈ queue) :
    ∃ start, low ≤ start ∧ e.At origin unacked next start := by
  induction h with
  | nil => exact absurd member List.not_mem_nil
  | cons behind first _ ih =>
    rcases List.mem_cons.mp member with rfl | member
    · exact ⟨_, behind, first⟩
    · obtain ⟨start, more, there⟩ := ih member
      exact ⟨start, by omega, there⟩

theorem apart (h : Laid origin unacked next low queue) : queue.Pairwise fun e e' =>
    ∃ start start', e.At origin unacked next start ∧ e'.At origin unacked next start' ∧
      start + e.size ≤ start' := by
  induction h with
  | nil => exact .nil
  | cons _ first later ih =>
    refine List.pairwise_cons.mpr ⟨?_, ih⟩
    intro e' member
    obtain ⟨start', behind, there⟩ := later.mem member
    exact ⟨_, start', first, there, behind⟩

theorem sublist {kept : List Unacked} (h : Laid origin unacked next low queue)
    (sublist : (kept.map Unacked.content).Sublist (queue.map Unacked.content)) :
    Laid origin unacked next low kept := by
  induction h generalizing kept with
  | nil =>
    rw [List.map_eq_nil_iff.mp (List.sublist_nil.mp sublist)]
    exact .nil
  | @cons _ _ e _ behind first later ih =>
    rw [List.map_cons, List.sublist_cons_iff] at sublist
    rcases sublist with fewer | ⟨rest, split, fewer⟩
    · exact (ih fewer).lower (by omega)
    · obtain ⟨e', others, rfl, same, rfl⟩ := List.map_eq_cons_iff.mp split
      simp only [Unacked.content, Prod.mk.injEq] at same
      obtain ⟨seq, flags, text, _⟩ := same
      have size : e'.size = e.size := by rw [Unacked.size, Unacked.size, flags, text]
      refine .cons behind ⟨seq.trans first.seq, ?_, ?_, ?_, ?_⟩ ?_
      · exact size ▸ first.filled
      · exact size ▸ first.waits
      · exact size ▸ first.sent
      · rw [flags]
        exact first.plain
      · rw [size]
        exact ih fewer

theorem append {e : Unacked} {next' : Nat} (h : Laid origin unacked next low queue)
    (under : low ≤ next) (more : next ≤ next') (last : e.At origin unacked next' next) :
    Laid origin unacked next' low (queue ++ [e]) := by
  induction h with
  | nil => exact .cons under last .nil
  | cons behind first _ ih =>
    exact .cons behind ⟨first.seq, first.filled, first.waits, by have := first.sent; omega,
      first.plain⟩ (ih first.sent)

theorem raise {acked : Nat} (h : Laid origin unacked next low queue) (under : acked ≤ low) :
    Laid origin acked next low queue := by
  induction h with
  | nil => exact .nil
  | cons behind first _ ih =>
    have filled := first.filled
    exact .cons behind ⟨first.seq, filled, by omega, first.sent, first.plain⟩ (ih (by omega))

theorem acknowledge {done : List Unacked} {acked : Nat}
    (h : Laid origin unacked next low (done ++ queue))
    (waits : ∀ e start, queue.head? = some e → e.At origin unacked next start →
      acked < start + e.size) :
    Laid origin acked next low queue := by
  induction done generalizing low with
  | nil =>
    cases h with
    | nil => exact .nil
    | cons behind first later =>
      have here := waits _ _ rfl first
      exact .cons behind ⟨first.seq, first.filled, here, first.sent, first.plain⟩
        (later.raise (by omega))
  | cons d done ih =>
    cases h with
    | cons behind first later => exact (ih later).lower (by omega)

theorem both (h : Laid origin unacked next low queue) :
    Laid origin unacked next low (queue.map fun e =>
      if e.flags.has .syn then { e with flags := .ofList [.syn, .ack] } else e) := by
  induction h with
  | nil => exact .nil
  | @cons _ _ e _ behind first _ ih =>
    rw [List.map_cons]
    split
    · rename_i syn
      have same : Unacked.size { e with flags := .ofList [.syn, .ack] } = e.size := by
        simp only [Unacked.size, Flags.sequenceLength, syn, first.plain syn]
        rfl
      have plain : (Flags.ofList [.syn, .ack]).has .fin = false := by decide
      refine .cons behind ⟨first.seq, ?_, ?_, ?_, fun _ => plain⟩ ?_
      · exact same ▸ first.filled
      · exact same ▸ first.waits
      · exact same ▸ first.sent
      · rw [same]
        exact ih
    · exact .cons behind first ih

theorem both_shapes (h : Laid origin unacked next low queue) :
    (queue.map fun e => if e.flags.has .syn then { e with flags := .ofList [.syn, .ack] } else e).map
      Unacked.shape = queue.map Unacked.shape := by
  rw [List.map_map]
  refine List.map_congr_left fun e member => ?_
  obtain ⟨_, _, there⟩ := h.mem member
  simp only [Function.comp_apply]
  split
  · rename_i syn
    simp only [Unacked.shape, Flags.sequenceLength, syn, there.plain syn]
    rfl
  · rfl

end Laid

namespace Connection

/-- All that was sent and not acknowledged lies between `unacked` and `next`, counted from `origin`,
    and is less than half the circle. -/
structure Window (origin : SeqNumber) (unacked next : Nat) (c : Connection) : Prop where
  start : c.send.unacked = origin.advance unacked
  stop : c.send.next = origin.advance next
  order : unacked ≤ next
  room : next < unacked + SeqNumber.halfCircle
  laid : Laid origin unacked next 0 c.queue

/-- What a step does to the window of a connection: it moves on to an acknowledgment that was given
    or stays, and only calls whose segments end before that acknowledgment are done. -/
structure Slides (origin : SeqNumber) (unacked next : Nat) (ack : Option SeqNumber)
    (c : Connection) (σ : List Signal) (unacked' : Nat) (c' : Connection) : Prop where
  window : Window origin unacked' next c'
  forward : unacked ≤ unacked'
  given : unacked' ≠ unacked → ack = some (origin.advance unacked')
  done : ∀ call, Signal.tellsDone call ∈ σ → ∃ e ∈ c.queue, e.call = some call ∧
    ∃ stop, e.stop = .ok (origin.advance stop) ∧ unacked < stop ∧ stop ≤ unacked'
  kept : (c'.queue.map Unacked.shape).Sublist (c.queue.map Unacked.shape)

variable {origin : SeqNumber} {unacked next : Nat} {ack : Option SeqNumber} {c c' : Connection}
  {σ : List Signal} {timer : Option Config} {now : Instant}

theorem Window.ahead (h : Window origin unacked next c) :
    c.send.next.ahead c.send.unacked = next - unacked := by
  have room := h.room
  simp only [SeqNumber.halfCircle] at room
  rw [h.start, h.stop, SeqNumber.ahead_advance_of_le h.order (by omega)]

theorem Window.stays (h : Window origin unacked next c)
    (sent : c'.send.unacked = c.send.unacked ∧ c'.send.next = c.send.next)
    (queue : c'.queue = c.queue) (silent : ∀ call, Signal.tellsDone call ∉ σ) :
    Slides origin unacked next ack c σ unacked c' where
  window := ⟨sent.1.trans h.start, sent.2.trans h.stop, h.order, h.room, queue ▸ h.laid⟩
  forward := Nat.le_refl _
  given := fun moved => absurd rfl moved
  done := fun call told => absurd told (silent call)
  kept := queue ▸ List.Sublist.refl _

theorem Slides.trans {c₁ c₂ : Connection} {unacked₁ unacked₂ : Nat} {τ : List Signal}
    (first : Slides origin unacked next ack c σ unacked₁ c₁)
    (later : Slides origin unacked₁ next ack c₁ τ unacked₂ c₂) :
    Slides origin unacked next ack c (σ ++ τ) unacked₂ c₂ where
  window := later.window
  forward := Nat.le_trans first.forward later.forward
  given := by
    intro moved
    by_cases still : unacked₂ = unacked₁
    · rw [still] at moved ⊢
      exact first.given moved
    · exact later.given still
  done := by
    intro call told
    have onward := first.forward
    have onward' := later.forward
    rcases List.mem_append.mp told with told | told
    · obtain ⟨e, member, waits, stop, ends, above, under⟩ := first.done call told
      exact ⟨e, member, waits, stop, ends, above, by omega⟩
    · obtain ⟨e, member, waits, stop, ends, above, under⟩ := later.done call told
      have shape := first.kept.subset (List.mem_map_of_mem member)
      obtain ⟨e₀, member₀, same⟩ := List.mem_map.mp shape
      simp only [Unacked.shape, Prod.mk.injEq] at same
      obtain ⟨seq, text, size, call'⟩ := same
      refine ⟨e₀, member₀, call'.trans waits, stop, ?_, by omega, under⟩
      rw [Unacked.stop_ok] at ends ⊢
      rw [seq, text, size]
      exact ends
  kept := later.kept.trans first.kept

theorem fails_silent (error : CallError) (calls : List CallId) (call : CallId) :
    Signal.tellsDone call ∉ calls.map (Signal.fails error) := by
  intro member
  obtain ⟨_, _, same⟩ := List.mem_map.mp member
  cases same

theorem Window.release (h : Window origin unacked next c) {acked : Nat} (forward : unacked ≤ acked)
    (sent : acked ≤ next) {queue : List Unacked} {roundTrip : RoundTrip}
    (given : acked ≠ unacked → ack = some (origin.advance acked))
    (ends : (Connection.release (origin.advance acked) now c.queue c.roundTrip).Ends σ
      (queue, roundTrip))
    (queue' : c'.queue = queue) (unacked' : c'.send.unacked = origin.advance acked)
    (next' : c'.send.next = c.send.next) :
    Slides origin unacked next ack c σ acked c' := by
  obtain ⟨done, released, rfl⟩ := release_ends ends
  have room := h.room
  have laid := h.laid
  rw [released.split] at laid
  have order {e : Unacked} {start : Nat} {stop : SeqNumber}
      (there : e.At origin unacked next start) (stops : e.stop = .ok stop) :
      stop = origin.advance (start + e.size) ∧
        (stop.after (origin.advance acked) = true ↔ acked < start + e.size) := by
    obtain ⟨_, place⟩ := Unacked.stop_ok.mp stops
    rw [there.seq, SeqNumber.advance_advance] at place
    have waits := there.waits
    have within := there.sent
    refine ⟨place, ?_⟩
    rw [place]
    exact SeqNumber.after_advance ⟨by unfold Unacked.size at *; omega, by unfold Unacked.size at *; omega⟩
  refine ⟨⟨unacked', next'.trans h.stop, sent, by omega, ?_⟩, forward, given, ?_, ?_⟩
  · rw [queue']
    refine laid.acknowledge ?_
    intro e start head there
    obtain ⟨stop, stops, behind⟩ := released.uncovered e head
    exact (order there stops).2.mp behind
  · intro call told
    obtain ⟨call', listed, same⟩ := List.mem_map.mp told
    cases same
    obtain ⟨e, member, waits⟩ := List.mem_filterMap.mp listed
    obtain ⟨stop, stops, early⟩ := released.covered e member
    obtain ⟨start, _, there⟩ := laid.mem (List.mem_append_left _ member)
    obtain ⟨place, after⟩ := order there stops
    refine ⟨e, ?_, waits, start + e.size, place ▸ stops, there.waits, ?_⟩
    · rw [released.split]
      exact List.mem_append_left _ member
    · rw [← Bool.not_eq_true, after] at early
      omega
  · rw [queue', released.split, List.map_append]
    exact List.sublist_append_right _ _

theorem window_turn (h : Window origin unacked next c) (turn : Turn timer now c σ c') :
    Slides origin unacked next ack c σ unacked c' := by
  cases turn with
  | deliver ends =>
    rcases deliver_ends ends with ⟨rfl, rfl, _⟩ | ⟨_, _, _, rfl, rfl⟩
    · exact h.stays ⟨rfl, rfl⟩ rfl (by simp)
    · exact h.stays ⟨rfl, rfl⟩ rfl (by simp [Signal.tellsDone])
  | release ends =>
    rw [h.start] at ends
    exact h.release (Nat.le_refl _) h.order (absurd rfl) ends rfl h.start rfl
  | review _ looked =>
    obtain ⟨givenUp, reviewed, rfl⟩ := review_ends looked
    refine ⟨⟨h.start, h.stop, h.order, h.room, h.laid.sublist reviewed.kept⟩, Nat.le_refl _,
      absurd rfl, fun call told => absurd told (fails_silent _ _ call), ?_⟩
    have kept := reviewed.kept.map fun content : SeqNumber × Flags × Octets × Option CallId =>
      (content.1, content.2.2.1, content.2.1.sequenceLength, content.2.2.2)
    rw [List.map_map, List.map_map] at kept
    exact kept
  | terminate ends =>
    obtain ⟨rfl, rfl⟩ := terminate_ends.mp ends
    exact ⟨⟨h.start, h.stop, h.order, h.room, .nil⟩, Nat.le_refl _, absurd rfl,
      fun call told => absurd told (fails_silent _ _ call), List.nil_sublist _⟩

theorem Window.place (h : Window origin unacked next c) {number : SeqNumber}
    (above : 0 < number.ahead c.send.unacked)
    (under : number.ahead c.send.unacked ≤ c.send.next.ahead c.send.unacked) :
    ∃ acked, number = origin.advance acked ∧ unacked < acked ∧ acked ≤ next := by
  have order := h.order
  rw [h.ahead] at under
  refine ⟨unacked + number.ahead c.send.unacked, ?_, by omega, by omega⟩
  rw [← SeqNumber.advance_advance, ← h.start, SeqNumber.advance_ahead]

def Straight (s : Segment) (c : Connection) : Prop :=
  c.state.isSynchronized = true → ∀ ack, s.header.ack = some ack →
    c.send.unacked = c.send.next → ack.ahead c.send.unacked ≠ SeqNumber.halfCircle

variable {s : Segment} {iss : SeqNumber}

theorem straight_of_unacked {number : SeqNumber} (given : s.header.ack = some number)
    (reached : c.send.unacked = number) : Straight s c := by
  intro _ ack given' _
  rw [given, Option.some.injEq] at given'
  rw [reached, given', SeqNumber.ahead_self]
  decide

theorem Straight.slides {unacked' : Nat} (h : Straight s c) (before : Window origin unacked next c)
    (live : c.state.isSynchronized = true)
    (slides : Slides origin unacked next s.header.ack c σ unacked' c') : Straight s c' := by
  intro later ack given same
  by_cases still : unacked' = unacked
  · have start : c'.send.unacked = c.send.unacked := by
      rw [slides.window.start, before.start, still]
    have stop : c'.send.next = c.send.next := by rw [slides.window.stop, before.stop]
    rw [start] at same ⊢
    exact h live ack given (same.trans stop)
  · exact straight_of_unacked (slides.given still) slides.window.start later ack given same

theorem Window.advance (h : Window origin unacked next c) {number : SeqNumber}
    (given : s.header.ack = some number) (above : c.send.unacked.before number = true)
    (sent : number.after c.send.next = false)
    (straight : c.send.unacked = c.send.next →
      number.ahead c.send.unacked ≠ SeqNumber.halfCircle)
    {queue : List Unacked} {roundTrip : RoundTrip}
    (ends : (Connection.release number now c.queue c.roundTrip).Ends σ (queue, roundTrip)) :
    ∃ acked, unacked < acked ∧ number = origin.advance acked ∧ ∀ c' : Connection,
      c'.queue = queue → c'.send.unacked = number → c'.send.next = c.send.next →
        Slides origin unacked next s.header.ack c σ acked c' := by
  have order := h.order
  have room := h.room
  have small : c.send.next.ahead c.send.unacked < SeqNumber.halfCircle := by
    rw [h.ahead]
    omega
  rcases (SeqNumber.acknowledges_iff small).mp ⟨above, sent⟩ with ⟨forward, under⟩ | ⟨same, half⟩
  · obtain ⟨acked, rfl, less, within⟩ := h.place forward under
    exact ⟨acked, less, rfl, fun _ => h.release (Nat.le_of_lt less) within (fun _ => given) ends⟩
  · exact absurd half (straight same)

structure Fresh (s : Segment) (c : Connection) (σ : List Signal) (c' : Connection) : Prop where
  listening : c.state = .listen
  unasked : s.header.ack = none
  silent : σ = []
  window : ∃ iss, Window iss 0 1 c'

theorem Window.extend (h : Window origin unacked next c) {e : Unacked}
    (seq : e.seq = c.send.next) (filled : 0 < e.size)
    (plain : e.flags.has .syn = true → e.flags.has .fin = false)
    (unacked' : c'.send.unacked = c.send.unacked)
    (next' : c'.send.next = c.send.next.advance e.size) (queue' : c'.queue = c.queue ++ [e])
    (room : next + e.size < unacked + SeqNumber.halfCircle) :
    Window origin unacked (next + e.size) c' where
  start := unacked'.trans h.start
  stop := by rw [next', h.stop, SeqNumber.advance_advance]
  order := Nat.le_trans h.order (Nat.le_add_right _ _)
  room := room
  laid := by
    rw [queue']
    exact h.laid.append (Nat.zero_le next) (Nat.le_add_right _ _)
      (Unacked.at_next (seq.trans h.stop) h.order filled plain)

theorem window_fresh {call : Option CallId} (flags : Flags)
    (plain : flags.sequenceLength = 1 ∧ flags.has .fin = false)
    (unacked' : c.send.unacked = iss) (next' : c.send.next = iss.advance 1)
    (queue' : c.queue = [⟨iss, flags, [], now, now, 0, call⟩]) : Window iss 0 1 c where
  start := unacked'.trans (SeqNumber.advance_zero iss).symm
  stop := next'
  order := Nat.zero_le 1
  room := by decide
  laid := by
    rw [queue']
    exact .cons (Nat.le_refl 0) (Unacked.At.syn flags rfl rfl rfl plain) .nil

theorem window_move (coherent : Coherent c) (straight : Straight s c)
    (h : Window origin unacked next c) (move : Move s iss now c σ c') :
    (∃ unacked', Slides origin unacked next s.header.ack c σ unacked' c' ∧ Straight s c') ∨
      Fresh s c σ c' := by
  -- All but three moves leave what was sent and what is acknowledged as it is.
  have stays (sent : c'.send.unacked = c.send.unacked ∧ c'.send.next = c.send.next)
      (queue : c'.queue = c.queue) (silent : ∀ call, Signal.tellsDone call ∉ σ)
      (live : c'.state.isSynchronized = true → c.state.isSynchronized = true) :
      (∃ unacked', Slides origin unacked next s.header.ack c σ unacked' c' ∧ Straight s c') ∨
        Fresh s c σ c' := by
    refine Or.inl ⟨unacked, h.stays sent queue silent, ?_⟩
    intro later ack given same
    rw [sent.1, sent.2] at same
    rw [sent.1]
    exact straight (live later) ack given same
  cases move with
  | turn turn =>
    have slides : Slides origin unacked next s.header.ack c σ unacked c' := window_turn h turn
    refine Or.inl ⟨unacked, slides, ?_⟩
    cases live : c.state.isSynchronized with
    | true => exact straight.slides h live slides
    | false =>
      intro later
      rw [turn_dead live turn] at later
      cases later
  | note _ _ _ _ _ same =>
    subst same
    exact stays ⟨rfl, rfl⟩ rfl (by simp) id
  | takeUp takes =>
    have alone : (c.takenUp s iss now).queue = _ := takenUp_queue coherent takes
    obtain ⟨listening, _, unasked, _⟩ := takesUp_iff.mp takes
    exact Or.inr ⟨listening, unasked, rfl, iss,
      window_fresh (.ofList [.syn, .ack]) (by decide) rfl rfl alone⟩
  | greet asked syn given above sent ends =>
    obtain ⟨start, _⟩ := coherent.asking asked
    obtain ⟨forward, less⟩ := SeqNumber.after_iff.mp above
    rw [← start] at forward less
    have before := SeqNumber.before_iff.mpr ⟨forward, Nat.le_of_lt less⟩
    obtain ⟨acked, _, _, slides⟩ := h.advance given before (SeqNumber.atOrBefore_iff.mp sent)
      (fun _ => Nat.ne_of_lt less) ends
    exact Or.inl ⟨acked, slides _ rfl rfl rfl, straight_of_unacked given rfl⟩
  | cross asked =>
    obtain ⟨start, stop⟩ := coherent.asking asked
    refine Or.inl ⟨unacked, ⟨⟨h.start, h.stop, h.order, h.room, h.laid.both⟩, Nat.le_refl _,
      absurd rfl, by simp, h.laid.both_shapes ▸ List.Sublist.refl _⟩, ?_⟩
    intro _ _ _ same
    rw [show c.send.unacked = c.send.next from same] at start
    rw [stop, ← SeqNumber.advance_zero c.send.initial, SeqNumber.advance_advance] at start
    cases (SeqNumber.advance_eq_iff (by omega) (by omega)).mp start
  | acceptFirst _ _ ok =>
    rcases acceptText_ok ok with rfl | ⟨_, _, _, _, _, _, rfl⟩
    · exact stays ⟨rfl, rfl⟩ rfl (by simp) id
    · exact stays ⟨rfl, rfl⟩ rfl (by simp) id
  | establish state =>
    exact stays ⟨rfl, rfl⟩ rfl (by simp) fun _ => by rw [state]; rfl
  | advance live given sent above ends =>
    have live := synchronized_of_past live
    obtain ⟨acked, _, _, slides⟩ := h.advance given above sent (straight live _ given) ends
    exact Or.inl ⟨acked, slides _ rfl rfl rfl, straight.slides h live (slides _ rfl rfl rfl)⟩
  | halfClose state =>
    exact stays ⟨rfl, rfl⟩ rfl (by simp) fun _ => by rw [state]; rfl
  | wait state =>
    exact stays ⟨rfl, rfl⟩ rfl (by simp) fun _ => by rw [state]; rfl
  | accept _ _ ok =>
    rcases acceptText_ok ok with rfl | ⟨_, _, _, _, _, _, rfl⟩
    · exact stays ⟨rfl, rfl⟩ rfl (by simp) id
    · exact stays ⟨rfl, rfl⟩ rfl (by simp) id
  | finish live _ _ ends =>
    obtain ⟨rfl, _⟩ := countFin_ends ends
    obtain ⟨_, _, rfl⟩ := countFin_counts ends
    exact stays ⟨rfl, rfl⟩ rfl (fails_silent _ _) fun _ => synchronized_of_past live

end Connection
end TcpEngine
