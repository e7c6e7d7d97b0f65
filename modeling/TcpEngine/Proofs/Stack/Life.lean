import TcpEngine.Proofs.Connection.Outcome
import TcpEngine.Proofs.Connection.Telling
import TcpEngine.Proofs.Stack.Among

/-!
The life of a connection, from the event with which it leaves CLOSED or LISTEN for a handshake to the
one with which it is closed. What is seen of a life is written down beside the stack, and a fact about
it is kept by a history if it is kept by whatever may befall the connection.
-/
namespace TcpEngine

/-- What was seen of the last incarnation at an endpoint. -/
structure Life where
  /-- How many incarnations there were, with this one. -/
  number : Nat
  /-- The number of our SYN, the text of all send calls whose segment was handed to the network, and
      whether that of a close call was. -/
  said : Stream
  /-- How far SND.UNA has moved. -/
  acknowledged : Nat
  /-- What the stack has handed to the network, for this connection or others. -/
  posted : List Datagram
  /-- The segments that came for the connection. -/
  arrived : List Segment
  /-- The text that receive calls were answered with. -/
  received : Octets
  /-- The FIN of the peer was counted. -/
  finished : Bool
deriving DecidableEq, Repr

namespace Event

def bringsTo (event : Event) (c : Connection) : List Segment :=
  event.segment?.toList.filter c.claims

def tells (event : Event) (c : Connection) (ds : List Datagram) (st : Stream) : Stream :=
  if event.callee? = some c.here then st.after event ds else st

variable {event : Event} {c : Connection}

theorem tells_called (callee : event.callee? = some c.here) (ds : List Datagram) (st : Stream) :
    event.tells c ds st = st.after event ds := if_pos callee

theorem tells_uncalled (uncalled : event.callee? ≠ some c.here) (ds : List Datagram) (st : Stream) :
    event.tells c ds st = st := if_neg uncalled

theorem uncalled_of_segment? {s : Segment} (brings : event.segment? = some s) :
    event.callee? ≠ some c.here := by
  have uncalled : event.callee? = none := by
    cases event <;> first | rfl | cases brings
  rw [uncalled]
  exact Option.some_ne_none _ |>.symm

end Event

namespace Life

def unborn : Life := ⟨0, ⟨⟨0⟩, [], false⟩, 0, [], [], [], false⟩

def begun (number : Nat) (initial : SeqNumber) : Life :=
  ⟨number, ⟨initial, [], false⟩, 0, [], [], [], false⟩

def goOn (l : Life) (event : Event) (σ : List Signal) (ds : List Datagram) (unacked : SeqNumber)
    (c c' : Connection) : Life where
  number := l.number
  said := event.tells c ds l.said
  acknowledged := l.acknowledged + c'.send.unacked.ahead unacked
  posted := l.posted ++ ds
  arrived := l.arrived ++ event.bringsTo c
  received := l.received ++ handed σ
  finished := l.finished || (event.bringsTo c).any fun s => s.finCounted c c'

def observe (l : Life) (event : Event) (σ : List Signal) (ds : List Datagram) (c c' : Connection) :
    Life :=
  if c.Free then
    if c'.Free then l
    else (begun (l.number + 1) c'.send.initial).goOn event σ ds c'.send.initial c c'
  else l.goOn event σ ds c.send.unacked c c'

variable {l : Life} {event : Event} {σ : List Signal} {ds : List Datagram} {c c' : Connection}

theorem observe_idle (free : c.Free) (free' : c'.Free) : l.observe event σ ds c c' = l := by
  rw [observe, if_pos free, if_pos free']

theorem observe_begun (free : c.Free) (busy : ¬ c'.Free) : l.observe event σ ds c c'
    = (begun (l.number + 1) c'.send.initial).goOn event σ ds c'.send.initial c c' := by
  rw [observe, if_pos free, if_neg busy]

theorem observe_onward (busy : ¬ c.Free) :
    l.observe event σ ds c c' = l.goOn event σ ds c.send.unacked c c' := by
  rw [observe, if_neg busy]

def after (l : Life) (here : Endpoint) (event : Event) (call : CallId) (σ : List Signal)
    (k k' : Stack) : Life :=
  match k.table.get? here, k'.table.get? here with
  | some c, some c' =>
    l.observe event (σ.filter fun signal => c.expects event call signal.call)
      (k'.log.drop k.log.length) c c'
  | _, _ => l

end Life

namespace Stack

/-- The life at an endpoint after a history, if it was `l` before. -/
def lived (k : Stack) (here : Endpoint) (l : Life) (place : Nat) : List (Event × Instant) → Life
  | [] => l
  | (event, now) :: rest =>
    let act := k.handle event now place
    match act.outcome with
    | .ok (k', _) => k'.lived here (l.after here event place act.signals k k') (place + 1) rest
    | .error _ => l

variable {k k' : Stack} {here : Endpoint} {l : Life} {place : Nat} {event : Event} {now : Instant}
  {σ : List Signal} {answer : Answer} {history rest : List (Event × Instant)}

theorem lived_cons (ends : (k.handle event now place).Ends σ (k', answer)) :
    k.lived here l place ((event, now) :: rest)
      = k'.lived here (l.after here event place σ k k') (place + 1) rest := by
  rw [lived, ends]

theorem sound_empty (config : Config) (generator : SeqGenerator) :
    Sound 0 (.empty config generator) where
  proper := proper_empty config generator
  alone := List.nodup_nil
  early := fun _ waits => absurd waits List.not_mem_nil
  limited := fun _ member => absurd member List.not_mem_nil

theorem get?_none_of {here : Endpoint} (absent : here ∉ k.table.connections.map Connection.here) :
    k.table.get? here = none := by
  apply Option.eq_none_iff_forall_ne_some.mpr
  intro c found
  obtain ⟨member, same⟩ := Table.get?_some found
  exact absent (same ▸ List.mem_map_of_mem member)

theorem handle_absent (proper : Proper k) (missing : k.table.get? here = none)
    (ends : (k.handle event now place).Ends σ (k', answer)) :
    k'.table.get? here = none ∨ k'.table.get? here = some (.bound here k.table.config) := by
  have absent := Table.get?_none missing
  have replaced {c : Connection} (table : k'.table.connections = (k.table.put c).connections) :
      k'.table.get? here = none := by
    apply get?_none_of
    rw [table, Table.put_here]
    exact absent
  have kept (table : k'.table.connections = k.table.connections) : k'.table.get? here = none := by
    apply get?_none_of
    rw [table]
    exact absent
  have proper' := handle_proper proper ends
  cases handle_happens proper.distinct ends with
  | kept _ table => exact Or.inl (kept table)
  | @bound target _ _ table =>
    by_cases mine : target = here
    · subst mine
      have there : Connection.bound target k.table.config ∈ k'.table.connections := by
        rw [table]
        exact Table.mem_insert.mpr (Or.inl rfl)
      exact Or.inr (get?_of_there proper' there)
    · refine Or.inl (get?_none_of ?_)
      intro member
      obtain ⟨c, there, same⟩ := List.mem_map.mp member
      rw [table] at there
      rcases Table.mem_insert.mp there with rfl | there
      · exact mine same
      · exact absent (same ▸ List.mem_map_of_mem there)
  | removed _ _ table =>
    refine Or.inl (get?_none_of ?_)
    intro member
    rw [table] at member
    exact absent ((List.filter_sublist.map _).subset member)
  | called _ calls =>
    cases calls with
    | absent _ table => exact Or.inl (kept table)
    | present _ _ _ table => exact Or.inl (replaced table)
  | taken _ takes =>
    cases takes with
    | unclaimed table => exact Or.inl (kept table)
    | claimed _ _ _ _ table => exact Or.inl (replaced table)
  | swept swept =>
    refine Or.inl (get?_none_of ?_)
    rw [(swept_proper swept proper.coherent).1]
    exact absent

/-- A connection that there is after an event was bound by it, or the event has befallen it. -/
theorem handle_origin {c' : Connection} (sound : Sound place k)
    (ends : (k.handle event now place).Ends σ (k', answer))
    (there : k'.table.get? here = some c') :
    k.table.get? here = none ∧ c' = .bound here k.table.config ∨
      ∃ c ds, k.table.get? here = some c ∧ k'.log = k.log ++ ds ∧ Befalls k.table.config now place event c
        (σ.filter fun signal => c.expects event place signal.call) ds c' := by
  cases found : k.table.get? here with
  | none =>
    rcases handle_absent sound.proper found ends with none | fresh
    · cases none.symm.trans there
    · rw [there, Option.some.injEq] at fresh
      exact Or.inl ⟨rfl, fresh⟩
  | some c =>
    rcases handle_befalls sound found ends with ⟨_, none⟩ | ⟨d, ds, found', log, befalls⟩
    · cases none.symm.trans there
    · rw [there, Option.some.injEq] at found'
      subst found'
      exact Or.inr ⟨c, ds, rfl, log, befalls⟩

end Stack

inductive Begins (now : Instant) (call : CallId) :
    Event → Connection → List Signal → List Datagram → Connection → Prop where
  | asks {here : Endpoint} {timeout : Option Duration} {c : Connection} {d : Datagram}
      (iss : SeqNumber) (foreign : Endpoint) (userTimeout : Duration)
      (called : Called iss now call (.openConnection here (.active (some foreign)) timeout) c [] [d]
        ((c.starting foreign iss userTimeout).asked iss now call)) :
      Begins now call (.openConnection here (.active (some foreign)) timeout) c [] [d]
        ((c.starting foreign iss userTimeout).asked iss now call)
  | takes {event : Event} {c : Connection} {ds : List Datagram} (s : Segment) (iss : SeqNumber)
      (arrival : Arrival) (brings : event.segment? = some s) (claims : c.claims s = true)
      (takes : c.takesUp s = true) (arrives : (c.arrives s iss now).Ends [] arrival)
      (moves : Chain (Move s iss now) (c.takenUp s iss now) [] arrival.connection)
      (state : arrival.connection.state = .synReceived)
      (holds : ∀ d ∈ ds, ∃ answer ∈ arrival.answers, Stack.datagram answer = .ok d) :
      Begins now call event c [] ds arrival.connection

theorem befalls_begins {config : Config} {now : Instant} {call : CallId} {event : Event} {c c' : Connection}
    {σ : List Signal} {ds : List Datagram} (free : c.Free) (busy : ¬ c'.Free)
    (h : Befalls config now call event c σ ds c') : Begins now call event c σ ds c' := by
  cases h with
  | spared => exact absurd free busy
  | called _ _ called =>
    rcases Connection.called_free free called with ⟨free', _⟩ |
      ⟨foreign, userTimeout, _, rfl, rfl, rfl, _, _, _, rfl⟩
    · exact absurd free' busy
    · exact .asks _ foreign userTimeout called
  | arrived _ brings claims arrives holds =>
    obtain ⟨rfl, same | ⟨takes, handled, state⟩⟩ := Connection.arrives_free free arrives
    · exact absurd (same ▸ free) busy
    · exact .takes _ _ _ brings claims takes arrives handled.moves state holds
  | timed ends =>
    have turns := (Connection.onTimer_turns ends).1
    exact absurd (turns.keeps (P := Connection.Free) Connection.turn_free free) busy

theorem Connection.takenUp_away (c : Connection) (s : Segment) (iss : SeqNumber) (now : Instant) :
    (c.takenUp s iss now).state ≠ .listen := by
  intro listen
  cases listen

theorem befalls_limited {config : Config} {now : Instant} {call : CallId} {event : Event} {c c' : Connection}
    {σ : List Signal} {ds : List Datagram} (coherent : c.Coherent) (limited : c.Limited)
    (h : Befalls config now call event c σ ds c') : c'.Limited := by
  cases h with
  | spared => exact limited
  | called _ _ called => exact Connection.limited_called limited called
  | arrived _ _ _ arrives =>
    exact Connection.limited_moves coherent limited
      (Connection.arrives_handled coherent.fresh arrives).1
  | timed ends => exact Connection.limited_turns limited (Connection.onTimer_turns ends).1

namespace Stack

variable {k k' : Stack} {here : Endpoint} {l : Life} {place : Nat} {event : Event} {now : Instant}
  {σ : List Signal} {answer : Answer} {history rest : List (Event × Instant)}

theorem handle_sound (sound : Sound place k)
    (ends : (k.handle event now place).Ends σ (k', answer)) : Sound (place + 1) k' := by
  have proper := handle_proper sound.proper ends
  have balanced := handle_balances sound.proper ends
  have made {call : CallId} (member : call ∈ event.made place) : call = place := by
    unfold Event.made at member
    split at member
    · exact List.mem_singleton.mp member
    · exact absurd member List.not_mem_nil
  have once : (k.waiting ++ event.made place).Nodup := by
    refine List.nodup_append.mpr ⟨sound.alone, ?_, ?_⟩
    · unfold Event.made
      split
      · exact List.pairwise_singleton _ place
      · exact List.nodup_nil
    · rintro call waits _ member rfl
      rw [made member] at waits
      exact Nat.lt_irrefl place (sound.early place waits)
  refine ⟨proper, ?_, ?_, ?_⟩
  · exact (List.nodup_append.mp (balanced.nodup_iff.mpr once)).2.1
  · intro call waits
    rcases List.mem_append.mp (balanced.subset (List.mem_append_right _ waits)) with old | new
    · exact Nat.lt_succ_of_lt (sound.early call old)
    · rw [made new]
      exact Nat.lt_succ_self place
  · intro c' member
    rcases handle_origin sound ends (get?_of_there proper member) with
      ⟨_, fresh⟩ | ⟨c, _, found, _, befalls⟩
    · rw [fresh]
      exact Connection.limited_bound _ _
    · have old := (Table.get?_some found).1
      exact befalls_limited (sound.proper.coherent c old) (sound.limited c old) befalls

theorem run_sound (sound : Sound place k) (ends : (k.run place history).Ends σ k') :
    Sound (place + history.length) k' := by
  induction history generalizing k place σ with
  | nil =>
    obtain ⟨_, rfl⟩ := Act.ends_pure.mp ends
    exact sound
  | cons head rest ih =>
    obtain ⟨event, now⟩ := head
    obtain ⟨_, _, _, _, first, after, _⟩ := run_cons_ends.mp ends
    rw [List.length_cons, show place + (rest.length + 1) = place + 1 + rest.length by omega]
    exact ih (handle_sound sound first) after

/-- A fact about the life at an endpoint, and one about the connection there as long as an incarnation
    is on. They are kept by all histories that fit, if what begins an incarnation brings them about, and
    whatever may befall it keeps them. -/
structure Lasting (here : Endpoint) (Fits : Stack → Nat → List (Event × Instant) → Prop)
    (P : Life → Prop) (Q : Life → Connection → Prop) : Prop where
  onward : ∀ {k k' place event now rest σ answer}, Fits k place ((event, now) :: rest) →
    (k.handle event now place).Ends σ (k', answer) → Fits k' (place + 1) rest
  begins : ∀ {place event now l c c' σ ds}, c.here = here → c.Coherent → c.Limited → c.Free →
    Begins now place event c σ ds c' → P l →
    let l' := (Life.begun (l.number + 1) c'.send.initial).goOn event σ ds c'.send.initial c c'
    P l' ∧ Q l' c'
  goes : ∀ {k k' : Stack} {place event now rest l c c' σ ds}, Sound place k →
    Fits k place ((event, now) :: rest) → Fits k' (place + 1) rest →
    k.table.get? here = some c → k'.table.get? here = some c' → ¬ c.Free →
    Befalls k.table.config now place event c σ ds c' → P l → Q l c →
    let l' := l.goOn event σ ds c.send.unacked c c'
    P l' ∧ (¬ c'.Free → Q l' c')

structure Lasts (P : Life → Prop) (Q : Life → Connection → Prop) (l : Life) (o : Option Connection) :
    Prop where
  life : P l
  goes : ∀ c, o = some c → ¬ c.Free → Q l c

variable {Fits : Stack → Nat → List (Event × Instant) → Prop} {P : Life → Prop}
  {Q : Life → Connection → Prop}

theorem lasts_none (life : P l) : Lasts P Q l none where
  life := life
  goes := by
    intro c same
    cases same

theorem lasts_free {c : Connection} (life : P l) (free : c.Free) : Lasts P Q l (some c) where
  life := life
  goes := fun _ same busy => absurd (Option.some.inj same ▸ free) busy

theorem lasts_some {c : Connection} (life : P l) (goes : ¬ c.Free → Q l c) :
    Lasts P Q l (some c) where
  life := life
  goes := by
    intro d same busy
    obtain rfl := Option.some.inj same
    exact goes busy

theorem Lasting.handle (lasting : Lasting here Fits P Q) (sound : Sound place k)
    (fits : Fits k place ((event, now) :: rest)) (h : Lasts P Q l (k.table.get? here))
    (ends : (k.handle event now place).Ends σ (k', answer)) :
    Lasts P Q (l.after here event place σ k k') (k'.table.get? here) := by
  have fits' := lasting.onward fits ends
  unfold Life.after
  cases found : k.table.get? here with
  | none =>
    rcases handle_absent sound.proper found ends with none | fresh
    · rw [none]
      exact lasts_none h.life
    · rw [fresh]
      exact lasts_free h.life (Or.inl rfl)
  | some c =>
    rcases handle_befalls sound found ends with ⟨_, none⟩ | ⟨c', ds, found', log, befalls⟩
    · rw [none]
      exact lasts_none h.life
    · rw [found', log, List.drop_left]
      by_cases free : c.Free
      · by_cases free' : c'.Free
        · simp only [Life.observe_idle free free']
          exact lasts_free h.life free'
        · obtain ⟨there, same⟩ := Table.get?_some found
          simp only [Life.observe_begun free free']
          obtain ⟨life, goes⟩ := lasting.begins same (sound.proper.coherent c there)
            (sound.limited c there) free (befalls_begins free free' befalls) h.life
          exact lasts_some life fun _ => goes
      · simp only [Life.observe_onward free]
        obtain ⟨life, goes⟩ :=
          lasting.goes sound fits fits' found found' free befalls h.life (h.goes c found free)
        exact lasts_some life goes

theorem Lasting.run (later : List (Event × Instant)) (lasting : Lasting here Fits P Q)
    (sound : Sound place k) (fits : Fits k place (history ++ later))
    (h : Lasts P Q l (k.table.get? here)) (ends : (k.run place history).Ends σ k') :
    Sound (place + history.length) k' ∧ Fits k' (place + history.length) later ∧
      Lasts P Q (k.lived here l place history) (k'.table.get? here) := by
  induction history generalizing k place σ l with
  | nil =>
    obtain ⟨_, rfl⟩ := Act.ends_pure.mp ends
    exact ⟨sound, fits, h⟩
  | cons head rest ih =>
    obtain ⟨event, now⟩ := head
    obtain ⟨_, _, _, _, first, after, _⟩ := run_cons_ends.mp ends
    rw [lived_cons first, List.length_cons, show place + (rest.length + 1) = place + 1 + rest.length by
      omega]
    exact ih (handle_sound sound first) (lasting.onward fits first)
      (lasting.handle sound fits h first) after

end Stack
end TcpEngine
