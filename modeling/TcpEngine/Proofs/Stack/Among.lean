import TcpEngine.Proofs.Completion
import TcpEngine.Proofs.Connection.Limits
import TcpEngine.Proofs.Wire

/-!
One connection of a stack among others. An event befalls it as a call, a segment or its timer, or
spares it. What is signalled to its own calls comes from what befell it, and of the datagrams handed
to the network meanwhile the others take no place in its sequence.
-/
namespace TcpEngine

def Event.segment? : Event → Option Segment
  | .ingress octets src dst =>
    match Packet.ofOctets octets with
    | .error _ => none
    | .ok p =>
      match Header.read p (.verify src dst) with
      | .ok (.ok header) => some ⟨header, p.text, src, dst⟩
      | _ => none
  | _ => none

theorem Event.segment?_ingress {octets : Octets} {src dst : Address} {s : Segment}
    (reads : Reads octets src dst s) : (Event.ingress octets src dst).segment? = some s := by
  obtain ⟨p, header, whole, read, rfl⟩ := reads
  simp only [segment?, whole, read]

theorem Event.reads_of_segment? {event : Event} {s : Segment} (brings : event.segment? = some s) :
    ∃ octets src dst, event = .ingress octets src dst ∧ Reads octets src dst s := by
  unfold segment? at brings
  split at brings
  · rename_i octets src dst
    split at brings
    · cases brings
    · rename_i p whole
      split at brings
      · rename_i header read
        cases brings
        exact ⟨octets, src, dst, rfl, p, header, whole, read, rfl⟩
      · cases brings
  · cases brings

theorem Event.long_of_segment? {event : Event} {s : Segment} (brings : event.segment? = some s) :
    s.header.textLength = s.text.length := by
  unfold segment? at brings
  split at brings
  · split at brings
    · cases brings
    · split at brings
      · rename_i read
        cases brings
        rw [Header.read_ofPacket read]
        rfl
      · cases brings
  · cases brings

def Connection.claims (c : Connection) (s : Segment) : Bool :=
  s.receiver = c.here && c.foreign.all fun peer => peer = s.sender

def Connection.expects (c : Connection) (event : Event) (call other : CallId) : Bool :=
  c.waiting.contains other || event.callee? == some c.here && other == call

/-- A datagram that says nothing in the name of an endpoint but that a segment was not expected. -/
def Alien (here : Endpoint) (d : Datagram) : Prop :=
  ∃ s, s.Formed ∧ Stack.datagram s = .ok d ∧
    (s.Bare ∧ s.header.flags.has .rst = true ∨ s.sender ≠ here)

/-- What an event does to one connection of a stack, what it signals to the calls of this connection,
    and what the whole stack hands to the network. -/
inductive Befalls (config : Config) (now : Instant) (call : CallId) :
    Event → Connection → List Signal → List Datagram → Connection → Prop where
  | spared {event : Event} {c : Connection} {ds : List Datagram} (uncalled : event.callee? ≠ some c.here)
      (alien : ∀ d ∈ ds, Alien c.here d) (awake : event ≠ .sweep) :
      Befalls config now call event c [] ds c
  | called {event : Event} {c c' : Connection} {σ : List Signal} {ds : List Datagram}
      (iss : SeqNumber) (callee : event.callee? = some c.here)
      (h : Called iss now call event c σ ds c') : Befalls config now call event c σ ds c'
  | arrived {event : Event} {s : Segment} {c : Connection} {σ : List Signal} {arrival : Arrival}
      {ds : List Datagram} (iss : SeqNumber) (brings : event.segment? = some s)
      (claims : c.claims s = true) (arrives : (c.arrives s iss now).Ends σ arrival)
      (holds : ∀ d ∈ ds, ∃ answer ∈ arrival.answers, Stack.datagram answer = .ok d) :
      Befalls config now call event c σ ds arrival.connection
  | timed {c c' : Connection} {σ : List Signal} {segments : List Segment} {ds : List Datagram}
      (ends : (c.onTimer now config).Ends σ (c', segments))
      (holds : ∀ d ∈ ds, Alien c.here d ∨ ∃ s ∈ segments, Stack.datagram s = .ok d) :
      Befalls config now call .sweep c σ ds c'

variable {config : Config} {now : Instant} {call : CallId} {event : Event} {c c' : Connection}
  {σ : List Signal} {ds : List Datagram}

theorem Connection.segment_sender {flags : Flags} {seq : SeqNumber} {text : Octets} {s : Segment}
    (sent : c.segment flags seq text = some s) : s.sender = c.here := by
  obtain ⟨_, _, rfl⟩ := Option.map_eq_some_iff.mp sent
  rfl

theorem alien_of_segment {here : Endpoint} {flags : Flags} {seq : SeqNumber} {text : Octets}
    {d : Datagram} (other : c.here ≠ here) (holds : Holds d (c.segment flags seq text)) :
    Alien here d := by
  obtain ⟨s, sent, posted⟩ := holds
  refine ⟨s, (Connection.segment_formed sent).1, posted, Or.inr ?_⟩
  rw [Connection.segment_sender sent]
  exact other

theorem befalls_here (coherent : c.Coherent) (h : Befalls config now call event c σ ds c') :
    c'.here = c.here := by
  cases h with
  | spared => rfl
  | called _ _ called => exact Connection.called_here called
  | arrived _ _ _ arrives =>
    exact Connection.moves_here (Connection.arrives_handled coherent.fresh arrives).1
  | timed ends => exact Connection.turns_here (Connection.onTimer_turns ends).1

theorem alien_of_reset {here : Endpoint} {s answer : Segment} {d : Datagram}
    (reset : s.resetReply = .ok (some answer)) (posted : Stack.datagram answer = .ok d) :
    Alien here d :=
  ⟨answer, (resetReply_formed reset).1, posted,
    Or.inl ⟨resetReply_bare reset, (resetReply_formed reset).2⟩⟩

theorem called_alien {here : Endpoint} {iss : SeqNumber} (other : c.here ≠ here)
    (called : Called iss now call event c σ ds c') : ∀ d ∈ ds, Alien here d := by
  intro d member
  cases called with
  | told | timed | listen | fail | quit | idle => exact absurd member List.not_mem_nil
  | @ask _ foreign _ _ _ free userTimeout holds =>
    rw [List.mem_singleton.mp member]
    have same : (c.starting foreign iss userTimeout).here = c.here := rfl
    exact alien_of_segment (same ▸ other) holds
  | send _ _ _ holds | finish _ holds =>
    rw [List.mem_singleton.mp member]
    exact alien_of_segment other holds
  | receive idle live ends holds =>
    have same : c'.here = c.here := by
      rcases Connection.deliver_ends ends with ⟨_, rfl, _⟩ | ⟨_, _, _, _, rfl⟩ <;> rfl
    exact alien_of_segment (same ▸ other) (holds d member).2
  | abort _ _ holds => exact alien_of_segment other (holds d member)

theorem arrived_alien {here : Endpoint} {s : Segment} {iss : SeqNumber} {arrival : Arrival}
    (coherent : c.Coherent) (other : c.here ≠ here)
    (arrives : (c.arrives s iss now).Ends σ arrival)
    (holds : ∀ d ∈ ds, ∃ answer ∈ arrival.answers, Stack.datagram answer = .ok d) :
    ∀ d ∈ ds, Alien here d := by
  intro d member
  obtain ⟨moves, answers⟩ := Connection.arrives_handled coherent.fresh arrives
  have same := Connection.moves_here moves
  obtain ⟨answer, given, posted⟩ := holds d member
  rcases answers answer given with kind | rst
  · cases kind with
    | reset reset => exact alien_of_reset reset posted
    | ack _ sent => exact alien_of_segment (same ▸ other) ⟨answer, sent, posted⟩
    | syn _ sent => exact alien_of_segment (same ▸ other) ⟨answer, sent, posted⟩
  · exact alien_of_segment other ⟨answer, rst, posted⟩

theorem timed_alien {here : Endpoint} {segments : List Segment}
    (other : c.here ≠ here) (ends : (c.onTimer now config).Ends σ (c', segments)) {s : Segment}
    {d : Datagram} (member : s ∈ segments) (posted : Stack.datagram s = .ok d) : Alien here d := by
  obtain ⟨turns, resent⟩ := Connection.onTimer_turns ends
  have same := Connection.turns_here turns
  obtain ⟨e, _, sent⟩ := resent s member
  exact alien_of_segment (same ▸ other) ⟨s, sent, posted⟩

/- Whose calls are signalled. -/

theorem filter_expected (calls : ∀ other ∈ answered σ, c.expects event call other = true) :
    (σ.filter fun signal => c.expects event call signal.call) = σ :=
  List.filter_eq_self.mpr fun _ member => calls _ (List.mem_map_of_mem member)

theorem filter_unexpected (calls : ∀ other ∈ answered σ, c.expects event call other = false) :
    (σ.filter fun signal => c.expects event call signal.call) = [] :=
  List.filter_eq_nil_iff.mpr fun _ member => by simp [calls _ (List.mem_map_of_mem member)]

theorem Connection.expects_waiting {other : CallId} (waits : other ∈ c.waiting) :
    c.expects event call other = true := by
  simp [expects, waits]

theorem Connection.not_expects {other : CallId} (absent : other ∉ c.waiting)
    (uncalled : event.callee? ≠ some c.here) : c.expects event call other = false := by
  simp [expects, absent, uncalled]

theorem called_expects {iss : SeqNumber} (callee : event.callee? = some c.here)
    (called : Called iss now call event c σ ds c') :
    ∀ other ∈ answered σ, c.expects event call other = true := by
  intro other member
  have there := (called_balances called).subset (List.mem_append_left _ member)
  rcases List.mem_append.mp there with waits | made
  · exact Connection.expects_waiting waits
  · unfold Event.made at made
    split at made
    · simp [Connection.expects, callee, List.mem_singleton.mp made]
    · exact absurd made List.not_mem_nil

theorem waits_of_balanced (balanced : (answered σ ++ c'.waiting).Perm c.waiting) :
    ∀ other ∈ answered σ, other ∈ c.waiting :=
  fun _ member => balanced.subset (List.mem_append_left _ member)

namespace Stack

/-- What every event keeps of a stack. The calls that wait were made before `place`, each at one
    connection. -/
structure Sound (place : Nat) (k : Stack) : Prop where
  proper : Proper k
  alone : k.waiting.Nodup
  early : ∀ call ∈ k.waiting, call < place
  limited : ∀ c ∈ k.table.connections, c.Limited

variable {k k' : Stack} {here : Endpoint} {answer : Answer} {d : Connection}

theorem mem_waiting {other : CallId} (member : c ∈ k.table.connections) (waits : other ∈ c.waiting) :
    other ∈ k.waiting :=
  List.mem_flatMap.mpr ⟨c, member, waits⟩

/-- No call waits at two connections. -/
theorem Sound.apart {place : Nat} (sound : Sound place k) (there : c ∈ k.table.connections)
    (member : d ∈ k.table.connections) (other : d.here ≠ c.here) :
    ∀ waits ∈ d.waiting, waits ∉ c.waiting := by
  intro call waits waits'
  obtain ⟨before, behind, parts, _⟩ :=
    Table.split_at sound.proper.distinct (Table.get?_of_mem sound.proper.distinct there)
  have alone := sound.alone
  have elsewhere : d ∈ before ++ behind := by
    rw [parts] at member
    simp only [List.mem_append, List.mem_cons] at member ⊢
    rcases member with first | rfl | last
    · exact Or.inl first
    · exact absurd rfl other
    · exact Or.inr last
  have once : (c.waiting ++ (before ++ behind).flatMap Connection.waiting).Nodup := by
    refine List.Perm.nodup ?_ alone
    simp only [Stack.waiting, Table.waiting, parts, List.flatMap_append, List.flatMap_cons]
    exact List.perm_append_comm_assoc _ _ _
  exact (List.nodup_append.mp once).2.2 call waits' call (List.mem_flatMap.mpr ⟨d, elsewhere, waits⟩) rfl

theorem Sound.unmade {place : Nat} (sound : Sound place k) (there : c ∈ k.table.connections) :
    place ∉ c.waiting :=
  fun waits => Nat.lt_irrefl place (sound.early place (mem_waiting there waits))

theorem Sound.deaf {place : Nat} (sound : Sound place k) (there : c ∈ k.table.connections)
    (member : d ∈ k.table.connections) (other : d.here ≠ c.here)
    (uncalled : event.callee? ≠ some c.here)
    (balanced : (answered σ ++ c'.waiting).Perm (d.waiting ++ event.made place)) :
    (σ.filter fun signal => c.expects event place signal.call) = [] := by
  apply filter_unexpected
  intro call told
  refine Connection.not_expects ?_ uncalled
  rcases List.mem_append.mp (balanced.subset (List.mem_append_left _ told)) with waits | made
  · exact sound.apart there member other call waits
  · unfold Event.made at made
    split at made
    · rw [List.mem_singleton.mp made]
      exact sound.unmade there
    · exact absurd made List.not_mem_nil

theorem get?_of_there (proper : Proper k) (there : c ∈ k.table.connections) :
    k.table.get? c.here = some c :=
  Table.get?_of_mem proper.distinct there

theorem only_one (proper : Proper k) (member : d ∈ k.table.connections)
    (there : c ∈ k.table.connections) (same : d.here = c.here) : d = c := by
  have again := get?_of_there proper member
  rw [same, get?_of_there proper there] at again
  exact (Option.some.inj again).symm

theorem there_of_put (distinct : k.table.Distinct) (found : k.table.get? here = some d)
    (same : c'.here = d.here) (table : k'.table.connections = (k.table.put c').connections)
    (there : c ∈ k.table.connections) (other : d.here ≠ c.here) : c ∈ k'.table.connections := by
  obtain ⟨before, behind, parts, replaced⟩ := Table.split_at distinct found
  rw [table, replaced c' same]
  rw [parts] at there
  simp only [List.mem_append, List.mem_cons] at there ⊢
  rcases there with first | rfl | last
  · exact Or.inl first
  · exact absurd rfl other
  · exact Or.inr (Or.inr last)

end Stack

theorem Swept.split {before behind connections' : List Connection}
    {segments : List Segment}
    (swept : Swept now config (before ++ c :: behind) σ connections' segments) :
    ∃ before' c' behind' σ₁ τ σ₂ first own last,
      Swept now config before σ₁ before' first ∧ (c.onTimer now config).Ends τ (c', own) ∧
      Swept now config behind σ₂ behind' last ∧ connections' = before' ++ c' :: behind' ∧
      σ = σ₁ ++ (τ ++ σ₂) ∧ segments = first ++ (own ++ last) := by
  induction before generalizing σ connections' segments with
  | nil =>
    cases swept with
    | cons ends later => exact ⟨[], _, _, [], _, _, [], _, _, .nil, ends, later, rfl, rfl, rfl⟩
  | cons d before ih =>
    cases swept with
    | cons ends later =>
      obtain ⟨before', c', behind', σ₁, τ, σ₂, first, own, last, others, mine, rest, rfl, rfl, rfl⟩ :=
        ih later
      refine ⟨_ :: before', c', behind', _ ++ σ₁, τ, σ₂, _ ++ first, own, last, .cons ends others,
        mine, rest, rfl, ?_, ?_⟩
      · rw [List.append_assoc]
      · rw [List.append_assoc]

theorem swept_alien {connections connections' : List Connection}
    {segments : List Segment} {here : Endpoint}
    (swept : Swept now config connections σ connections' segments)
    (others : ∀ d ∈ connections, d.here ≠ here) {s : Segment} {d : Datagram} (member : s ∈ segments)
    (posted : Stack.datagram s = .ok d) : Alien here d := by
  induction swept with
  | nil => exact absurd member List.not_mem_nil
  | cons first _ ih =>
    rcases List.mem_append.mp member with mine | later
    · exact timed_alien (others _ List.mem_cons_self) first mine posted
    · exact ih (fun e there => others e (List.mem_cons_of_mem _ there)) later

namespace Stack

variable {k k' : Stack} {here : Endpoint} {answer : Answer} {d : Connection}

theorem befalls_other (sound : Sound call k) (there : c ∈ k.table.connections)
    (found : k.table.get? here = some d) (other : d.here ≠ c.here)
    (uncalled : event.callee? ≠ some c.here) (same : c'.here = d.here)
    (table : k'.table.connections = (k.table.put c').connections)
    (balanced : (answered σ ++ c'.waiting).Perm (d.waiting ++ event.made call))
    (alien : ∀ x ∈ ds, Alien c.here x) (awake : event ≠ .sweep) :
    c ∈ k'.table.connections ∧
      Befalls k.table.config now call event c
        (σ.filter fun signal => c.expects event call signal.call) ds c := by
  refine ⟨there_of_put sound.proper.distinct found same table there other, ?_⟩
  rw [sound.deaf there (Table.get?_some found).1 other uncalled balanced]
  exact .spared uncalled alien awake

theorem called_befalls {target : Endpoint} (sound : Sound call k) (there : c ∈ k.table.connections)
    (callee : event.callee? = some target) (calls : Calls k now call event target σ k') :
    ∃ c' ds, c' ∈ k'.table.connections ∧ k'.log = k.log ++ ds ∧
      Befalls k.table.config now call event c
        (σ.filter fun signal => c.expects event call signal.call) ds c' := by
  have distinct := sound.proper.distinct
  have awake : event ≠ .sweep := by
    rintro rfl
    cases callee
  cases calls with
  | absent missing table log =>
    have other : target ≠ c.here := by
      rintro rfl
      cases missing.symm.trans (get?_of_there sound.proper there)
    have uncalled : event.callee? ≠ some c.here := by
      rw [callee]
      exact fun same => other (Option.some.inj same)
    have deaf : ((if event.isCall then [Signal.fails .connectionDoesNotExist call] else []).filter
        fun signal => c.expects event call signal.call) = [] := by
      apply filter_unexpected
      intro told member
      split at member
      · rw [List.mem_singleton.mp member]
        exact Connection.not_expects (sound.unmade there) uncalled
      · exact absurd member List.not_mem_nil
    refine ⟨c, [], table ▸ there, by rw [log, List.append_nil], ?_⟩
    rw [deaf]
    exact .spared uncalled (fun _ member => absurd member List.not_mem_nil) awake
  | @present _ d c' _ ds iss found called table log =>
    have same := Connection.called_here called
    by_cases mine : d.here = c.here
    · obtain rfl : d = c := only_one sound.proper (Table.get?_some found).1 there mine
      have callee : event.callee? = some d.here := by rw [callee, (Table.get?_some found).2]
      refine ⟨c', ds, mem_of_put distinct found same table, log, ?_⟩
      rw [filter_expected (called_expects callee called)]
      exact .called iss callee called
    · have uncalled : event.callee? ≠ some c.here := by
        rw [callee, ← (Table.get?_some found).2]
        exact fun equal => mine (Option.some.inj equal)
      obtain ⟨member, befalls⟩ := befalls_other sound there found mine uncalled same table
        (called_balances called) (called_alien mine called) awake
      exact ⟨c, ds, member, log, befalls⟩

theorem taken_befalls {octets : Octets} {src dst : Address} {s : Segment} (sound : Sound call k)
    (there : c ∈ k.table.connections) (reads : Reads octets src dst s) (takes : Takes k now s σ k') :
    ∃ c' ds, c' ∈ k'.table.connections ∧ k'.log = k.log ++ ds ∧
      Befalls k.table.config now call (.ingress octets src dst) c
        (σ.filter fun signal => c.expects (.ingress octets src dst) call signal.call) ds c' := by
  have uncalled : (Event.ingress octets src dst).callee? ≠ some c.here := by
    intro callee
    cases callee
  cases takes with
  | unclaimed table log holds =>
    refine ⟨c, _, table ▸ there, log, .spared uncalled ?_ nofun⟩
    intro d member
    obtain ⟨_, reset, sent, rfl, posted⟩ := holds d member
    exact alien_of_reset reset posted
  | @claimed _ d arrival _ ds iss found peer arrives table log holds =>
    have coherent := sound.proper.found found
    have moves := (Connection.arrives_handled coherent.fresh arrives).1
    have same := Connection.moves_here moves
    have balanced := Connection.chain_balances Connection.move_balances moves
    by_cases mine : d.here = c.here
    · obtain rfl : d = c := only_one sound.proper (Table.get?_some found).1 there mine
      have claims : d.claims s = true := by
        simp only [Connection.claims, peer, Bool.and_true, decide_eq_true_eq]
        exact (Table.get?_some found).2.symm
      refine ⟨arrival.connection, ds, mem_of_put sound.proper.distinct found same table, log, ?_⟩
      rw [filter_expected fun other told =>
        Connection.expects_waiting (waits_of_balanced balanced other told)]
      exact .arrived iss (Event.segment?_ingress reads) claims arrives holds
    · obtain ⟨member, befalls⟩ := befalls_other sound there found mine uncalled same table
        ((List.append_nil d.waiting).symm ▸ balanced)
        (arrived_alien coherent mine arrives holds) nofun
      exact ⟨c, ds, member, log, befalls⟩

theorem swept_befalls {segments : List Segment} (sound : Sound call k)
    (there : c ∈ k.table.connections)
    (swept : Swept now k.table.config k.table.connections σ k'.table.connections segments)
    (log : k'.log = k.log ++ ds) (holds : ∀ d ∈ ds, ∃ s ∈ segments, datagram s = .ok d) :
    ∃ c' ds, c' ∈ k'.table.connections ∧ k'.log = k.log ++ ds ∧
      Befalls k.table.config now call .sweep c
        (σ.filter fun signal => c.expects .sweep call signal.call) ds c' := by
  have uncalled : Event.sweep.callee? ≠ some c.here := by
    intro callee
    cases callee
  obtain ⟨before, behind, parts, _⟩ :=
    Table.split_at sound.proper.distinct (get?_of_there sound.proper there)
  have apart := sound.proper.distinct
  unfold Table.Distinct at apart
  rw [parts, List.map_append, List.map_cons, List.perm_middle.nodup_iff, List.nodup_cons,
    ← List.map_append] at apart
  have others : ∀ d ∈ before ++ behind, d.here ≠ c.here := by
    intro d member same
    exact apart.1 (same ▸ List.mem_map_of_mem member)
  rw [parts] at swept
  obtain ⟨before', c', behind', σ₁, τ, σ₂, first, own, last, early, ends, late, table, rfl, rfl⟩ :=
    swept.split
  have deaf {connections connections' : List Connection} {ρ : List Signal} {resent : List Segment}
      (swept : Swept now k.table.config connections ρ connections' resent)
      (inside : ∀ d ∈ connections, d ∈ before ++ behind) :
      (ρ.filter fun signal => c.expects .sweep call signal.call) = [] := by
    apply filter_unexpected
    intro other told
    have left := (swept_balances swept).subset (List.mem_append_left _ told)
    obtain ⟨d, member, waits⟩ := List.mem_flatMap.mp left
    refine Connection.not_expects ?_ uncalled
    refine sound.apart there ?_ (others d (inside d member)) other waits
    have listed := inside d member
    rw [parts]
    simp only [List.mem_append, List.mem_cons] at listed ⊢
    exact listed.imp id Or.inr
  have mine : (τ.filter fun signal => c.expects .sweep call signal.call) = τ :=
    filter_expected fun other told => Connection.expects_waiting (waits_of_balanced
      (Connection.chain_balances Connection.turn_balances (Connection.onTimer_turns ends).1) other told)
  refine ⟨c', ds, ?_, log, ?_⟩
  · rw [table]
    exact List.mem_append_right _ List.mem_cons_self
  · rw [List.filter_append, List.filter_append,
      deaf early fun d member => List.mem_append_left _ member,
      deaf late fun d member => List.mem_append_right _ member, mine, List.append_nil,
      List.nil_append]
    refine .timed ends ?_
    intro d member
    obtain ⟨s, sent, posted⟩ := holds d member
    simp only [List.mem_append] at sent
    rcases sent with other | mine | other
    · exact Or.inl (swept_alien early (fun e there => others e (List.mem_append_left _ there)) other
        posted)
    · exact Or.inr ⟨s, mine, posted⟩
    · exact Or.inl (swept_alien late (fun e there => others e (List.mem_append_right _ there)) other
        posted)

/-- Whatever event happens to a stack befalls each of its connections, unless it removes a closed
    one. -/
theorem handle_befalls (sound : Sound call k) (found : k.table.get? here = some c)
    (ends : (k.handle event now call).Ends σ (k', answer)) :
    ((c.state = .closed ∧ σ = []) ∧ k'.table.get? here = none) ∨
      ∃ c' ds, k'.table.get? here = some c' ∧ k'.log = k.log ++ ds ∧
        Befalls k.table.config now call event c
          (σ.filter fun signal => c.expects event call signal.call) ds c' := by
  obtain ⟨there, rfl⟩ := Table.get?_some found
  have proper := handle_proper sound.proper ends
  have stays (same : c ∈ k'.table.connections) (log : k'.log = k.log)
      (uncalled : event.callee? ≠ some c.here) (awake : event ≠ .sweep) :
      ∃ c' ds, k'.table.get? c.here = some c' ∧ k'.log = k.log ++ ds ∧
        Befalls k.table.config now call event c [] ds c' :=
    ⟨c, [], get?_of_there proper same, by rw [log, List.append_nil],
      .spared uncalled (fun _ member => absurd member List.not_mem_nil) awake⟩
  have lands (goes : ∃ c' ds, c' ∈ k'.table.connections ∧ k'.log = k.log ++ ds ∧
      Befalls k.table.config now call event c
        (σ.filter fun signal => c.expects event call signal.call) ds c') :
      ∃ c' ds, k'.table.get? c.here = some c' ∧ k'.log = k.log ++ ds ∧
        Befalls k.table.config now call event c
          (σ.filter fun signal => c.expects event call signal.call) ds c' := by
    obtain ⟨c', ds, member, log, befalls⟩ := goes
    refine ⟨c', ds, ?_, log, befalls⟩
    rw [← befalls_here (sound.proper.coherent c there) befalls]
    exact get?_of_there proper member
  cases handle_happens sound.proper.distinct ends with
  | kept silent table log awake => exact Or.inr (stays (table ▸ there) log (by simp [silent]) awake)
  | bound _ table log =>
    refine Or.inr (stays ?_ log ?_ nofun)
    · rw [table]
      exact Table.mem_insert.mpr (Or.inr there)
    · intro callee
      cases callee
  | @removed target d _ found' closed table log =>
    by_cases mine : target = c.here
    · subst mine
      rw [found, Option.some.injEq] at found'
      refine Or.inl ⟨⟨found' ▸ closed, rfl⟩, ?_⟩
      unfold Table.get?
      rw [table, List.find?_eq_none]
      intro e member
      have kept := (List.mem_filter.mp member).2
      simpa using kept
    · refine Or.inr (stays ?_ log ?_ nofun)
      · rw [table]
        exact List.mem_filter.mpr ⟨there, by simpa using fun same => mine same.symm⟩
      · intro callee
        cases callee
  | called callee calls => exact Or.inr (lands (called_befalls sound there callee calls))
  | taken reads takes => exact Or.inr (lands (taken_befalls sound there reads takes))
  | swept swept log holds => exact Or.inr (lands (swept_befalls sound there swept log holds))

end Stack
end TcpEngine
