import TcpEngine.Proofs.Attendance
import TcpEngine.Proofs.Stack.Offering

/-!
What the peer was last told of the receive window. A peer does not probe a window that it was told is
closed, so it has to be told when that opens. The one place where that is missed is the end of the
handshake, if text that came with the SYN of the peer fills the buffer and a receive call waits for it.
-/
namespace TcpEngine

variable {here : Endpoint} {d : Datagram} {ds : List Datagram} {s : Segment} {iss : SeqNumber}
  {now : Instant} {call : CallId} {event : Event} {σ : List Signal} {a : Arrival}
  {c c' : Connection} {config : Config}

def Datagram.segment? (d : Datagram) : Option Segment :=
  match Packet.ofOctets d.octets with
  | .ok p => some ⟨.ofPacket p, p.text, d.src, d.dst⟩
  | .error _ => none

def Datagram.window? (here : Endpoint) (d : Datagram) : Option UInt16 :=
  d.segment?.bind fun s =>
    if s.sender = here ∧ s.header.flags.has .rst = false then some s.header.window else none

def Connection.told (c : Connection) : UInt16 := UInt16.ofNat (min c.window 65535)

theorem segment?_posted (formed : s.Formed) (posted : Stack.datagram s = .ok d) :
    d.segment? = some s := by
  obtain ⟨octets, encoded, rfl⟩ := except_map_ok.mp posted
  obtain ⟨long, first, second, written⟩ := Header.encode_ok encoded
  have whole : Packet.Whole octets := written ▸ Packet.whole_headerOctets _ _ _ _
  obtain ⟨header, text⟩ := Header.ofPacket_headerOctets (p := ⟨octets, whole⟩) written long formed
  simp only [Datagram.segment?, Packet.ofOctets_whole whole, header, text]

theorem window?_alien (alien : Alien here d) : d.window? here = none := by
  obtain ⟨s, formed, posted, kind⟩ := alien
  rw [Datagram.window?, segment?_posted formed posted]
  rcases kind with ⟨_, rst⟩ | other
  · simp [rst]
  · simp [other]

namespace Connection

theorem told_zero : c.told = 0 ↔ c.window = 0 := by
  rw [told, ← UInt16.toNat_inj, UInt16.toNat_ofNat', UInt16.toNat_zero]
  omega

theorem window?_segment {flags : Flags} {seq : SeqNumber} {text : Octets}
    (holds : Holds d (c.segment flags seq text)) :
    d.window? c.here = if flags.has .rst = false then some c.told else none := by
  obtain ⟨s, sent, posted⟩ := holds
  rw [Datagram.window?, segment?_posted (segment_formed sent).1 posted]
  obtain ⟨foreign, _, rfl⟩ := Option.map_eq_some_iff.mp sent
  simp [Segment.sender, told]

theorem told_of_segment {flags : Flags} {seq : SeqNumber} {text : Octets} (same : c.here = here)
    (holds : Holds d (c.segment flags seq text)) :
    ∀ w, d.window? here = some w → w = c.told := by
  intro w told
  rw [← same, window?_segment holds] at told
  split at told
  · exact (Option.some.inj told).symm
  · cases told

/- Whatever a connection says, it tells its window. -/

theorem called_tells (called : Called iss now call event c σ ds c') :
    ∀ d ∈ ds, ∀ w, d.window? c.here = some w → w = c'.told := by
  intro d member
  cases called with
  | told | timed | listen | fail | quit | idle => exact absurd member List.not_mem_nil
  | ask _ _ holds | send _ _ _ holds | finish _ holds =>
    rw [List.mem_singleton.mp member]
    exact told_of_segment rfl holds
  | receive _ _ ends holds =>
    have same : c'.here = c.here := by
      rcases deliver_ends ends with ⟨_, rfl, _⟩ | ⟨_, _, _, _, rfl⟩ <;> rfl
    exact told_of_segment same (holds d member).2
  | abort _ _ holds =>
    intro w told
    rw [window?_segment (holds d member)] at told
    simp [show (Flags.ofList [.rst]).has .rst = true by decide] at told

theorem arrived_tells (coherent : Coherent c) (arrives : (c.arrives s iss now).Ends σ a)
    (holds : ∀ d ∈ ds, ∃ answer ∈ a.answers, Stack.datagram answer = .ok d) :
    ∀ d ∈ ds, ∀ w, d.window? c.here = some w → w = a.connection.told := by
  intro d member
  obtain ⟨moves, answers⟩ := arrives_handled coherent.fresh arrives
  have same := moves_here moves
  obtain ⟨answer, given, posted⟩ := holds d member
  rcases answers answer given with kind | rst
  · cases kind with
    | reset reset =>
      intro w told
      rw [window?_alien (alien_of_reset reset posted)] at told
      cases told
    | ack _ sent => exact told_of_segment same ⟨answer, sent, posted⟩
    | syn _ sent => exact told_of_segment same ⟨answer, sent, posted⟩
  · intro w told
    rw [window?_segment (c := c) ⟨answer, rst, posted⟩] at told
    simp [show (Flags.ofList [.rst]).has .rst = true by decide] at told

theorem befalls_tells_window (coherent : Coherent c) (befalls : Befalls config now call event c σ ds c') :
    ∀ d ∈ ds, ∀ w, d.window? c.here = some w → w = c'.told := by
  cases befalls with
  | spared _ alien =>
    intro d member w told
    rw [window?_alien (alien d member)] at told
    cases told
  | called _ _ called => exact called_tells called
  | arrived _ _ _ arrives holds => exact arrived_tells coherent arrives holds
  | timed ends holds =>
    intro d member w told
    obtain ⟨turns, resent⟩ := onTimer_turns ends
    rcases holds d member with alien | ⟨s, sent, posted⟩
    · rw [window?_alien alien] at told
      cases told
    · obtain ⟨e, _, same⟩ := resent s sent
      exact told_of_segment (turns_here turns) ⟨s, same, posted⟩ w told

/- When a window opens. -/

/-- The connection was synchronized before, and its window was closed if it is closed now. -/
def Level (c c' : Connection) : Prop :=
  c.state.isSynchronized = true ∧ (c'.window = 0 ↔ c.window = 0)

theorem deliver_opens (h : c.deliver.Ends σ c') : c.window ≤ c'.window := by
  rcases deliver_ends h with ⟨_, rfl, _⟩ | ⟨reception, _, _, _, rfl⟩
  · exact Nat.le_refl _
  · have left : ((c.buffer.dequeue reception.capacity).1.toList).length = _ :=
      congrArg List.length (c.buffer.toList_dequeue reception.capacity)
    simp only [List.length_drop, Ring.length_toList] at left
    simp only [window, Ring.window, served, Ring.dequeue_capacity, left]
    omega

theorem turns_level (live : c.state.isSynchronized = true) (still : c'.buffer = c.buffer) :
    Level c c' := by
  refine ⟨live, ?_⟩
  simp [window, still]

theorem onTimer_level {config : Config} {segments : List Segment}
    (live : c'.state.isSynchronized = true) (ends : (c.onTimer now config).Ends σ (c', segments)) :
    Level c c' := by
  have ended {d : Connection} {error : CallError} {τ : List Signal}
      (h : (d.terminate error).Ends τ c') : Level c c' := by
    obtain ⟨_, rfl⟩ := terminate_ends.mp h
    cases live
  rcases onTimer_ends ends with ⟨_, ⟨_, rfl⟩ | shut⟩ |
    ⟨_, _, _, _, _, _, _, _, _, ⟨_, shut⟩ | ⟨_, rfl, _⟩⟩
  · exact turns_level live rfl
  · exact ended shut
  · exact ended shut
  · exact turns_level live rfl

theorem called_level (live : c'.state.isSynchronized = true)
    (other : ∀ here capacity, event ≠ .receive here capacity)
    (called : Called iss now call event c σ ds c') : Level c c' := by
  cases called with
  | told | timed | send | idle => exact turns_level live rfl
  | listen | ask => cases live
  | fail free =>
    have dead := dead_of_free free
    rw [show c.state.isSynchronized = true from live] at dead
    cases dead
  | receive => exact absurd rfl (other _ _)
  | quit _ ends | abort _ ends =>
    obtain ⟨_, rfl⟩ := terminate_ends.mp ends
    cases live
  | finish states =>
    refine turns_level ?_ rfl
    rcases states with ⟨state | state, _⟩ | ⟨state, _⟩ <;> rw [state] <;> rfl

theorem processes_bare (closed : c.window = 0) (processed : c.Processes s) :
    s.header.sequenceLength = 0 := by
  obtain ⟨fits, _⟩ := processed
  by_contra length
  simp [acceptable, length, closed] at fits

def Acks (a : Arrival) : Prop :=
  ∃ flags seq answer, a.connection.segment flags seq [] = some answer ∧ a.answers = [answer] ∧
    flags.has .ack = true ∧ flags.has .rst = false

theorem acks_segment {flags : Flags} {seq : SeqNumber} (known : c.foreign.isSome = true)
    (ack : flags.has .ack = true) (calm : flags.has .rst = false) :
    Acks (.answered c (c.segment flags seq [])) := by
  obtain ⟨foreign, same⟩ := Option.isSome_iff_exists.mp known
  cases sent : c.segment flags seq [] with
  | none =>
    rw [segment, same] at sent
    cases sent
  | some answer => exact ⟨flags, seq, answer, sent, rfl, ack, calm⟩

theorem acks_control (known : c.foreign.isSome = true) : Acks (.answered c (c.control [.ack])) :=
  acks_segment known (by decide) (by decide)

theorem receiveFin_foreign {finished : Bool} (h : (c.receiveFin s now).Ends σ (c', finished)) :
    c'.foreign = c.foreign := by
  rcases receiveFin_ends h with ⟨_, same⟩ | ⟨_, _, ends⟩
  · rw [(Prod.mk.inj same).1]
  · obtain ⟨_, _, rfl⟩ := countFin_counts ends
    rfl

theorem deliver_foreign (h : c.deliver.Ends σ c') : c'.foreign = c.foreign := by
  rcases deliver_ends h with ⟨_, rfl, _⟩ | ⟨_, _, _, _, rfl⟩ <;> rfl

theorem content_acks (known : c.foreign.isSome = true) (content : Content s now c a) :
    Acks a ∨ ∃ urgent, a = .silent (c.noted urgent) := by
  cases content with
  | quiet urgent => exact Or.inr ⟨urgent, rfl⟩
  | fin urgent ends =>
    refine Or.inl (acks_control ?_)
    rw [receiveFin_foreign ends]
    exact known
  | text urgent _ _ taken served ends =>
    refine Or.inl (acks_control ?_)
    rw [receiveFin_foreign ends, deliver_foreign served, acceptText_foreign taken]
    exact known

theorem content_bare (bare : s.header.sequenceLength = 0)
    (long : s.header.textLength = s.text.length) (content : Content s now c a) : a.answers = [] := by
  simp only [Header.sequenceLength, Flags.sequenceLength, Nat.add_eq_zero_iff] at bare
  obtain ⟨none, _, plain⟩ := bare
  cases content with
  | quiet => rfl
  | fin _ ends =>
    rcases receiveFin_ends ends with ⟨_, same⟩ | ⟨fin, _⟩
    · cases (Prod.mk.inj same).2
    · rw [fin] at plain
      cases plain
  | text _ _ filled =>
    rw [long] at none
    exact absurd (List.length_eq_zero_iff.mp none) filled

def Unveils (c c' : Connection) : Prop :=
  c.state = .synReceived ∧ c.window = 0 ∧ c'.state.pastHandshake = true ∧ 0 < c'.window

instance (c c' : Connection) : Decidable (Unveils c c') := inferInstanceAs (Decidable (_ ∧ _))

/-- After an arrival the window is closed as before, or the peer was told of it, unless the handshake
    has ended. -/
theorem arrives_acks (coherent : Coherent c) (live : a.connection.state.isSynchronized = true)
    (h : (c.arrives s iss now).Ends σ a) : Level c a.connection ∨ Acks a ∨ Unveils c a.connection := by
  cases arrives_course coherent h with
  | refused | unsent | unfit => exact Or.inl (turns_level live rfl)
  | shut => cases live
  | meets _ _ _ _ known => exact Or.inr (Or.inl (acks_segment known (by decide) (by decide)))
  | greets asked _ _ _ known _ ends =>
    refine Or.inr (Or.inl (acks_control ?_))
    rw [receiveFin_foreign ends, known]
    exact coherent.known (by simp [asked]) (by simp [asked])
  | acknowledged past kept => exact Or.inl (turns_level (synchronized_of_past past) kept.buffer)
  | content past _ kept content =>
    have before := synchronized_of_past past
    rcases content_acks (kept.foreign ▸ coherent.peer before) content with acks | ⟨_, rfl⟩
    · exact Or.inr (Or.inl acks)
    · exact Or.inl (turns_level before kept.buffer)
  | @establish c₁ d _ _ state _ served kept content =>
    have before : c.state.isSynchronized = true := by
      rw [state]
      rfl
    have known : d.foreign.isSome = true := by
      rw [kept.foreign, deliver_foreign served]
      exact coherent.peer before
    rcases content_acks known content with acks | ⟨urgent, rfl⟩
    · exact Or.inr (Or.inl acks)
    · have opens : c.window ≤ c₁.window := (deliver_opens served :)
      have equal : (d.noted urgent).window = c₁.window := congrArg Ring.window kept.buffer
      rw [← equal] at opens
      by_cases closed : c.window = 0
      · by_cases still : (d.noted urgent).window = 0
        · exact Or.inl ⟨before, by simp [Arrival.silent, closed, still]⟩
        · exact Or.inr (Or.inr ⟨state, closed, kept.past, Nat.pos_of_ne_zero still⟩)
      · exact Or.inl ⟨before, by simp only [Arrival.silent]; omega⟩

theorem unveils_silent (coherent : Coherent c) (long : s.header.textLength = s.text.length)
    (unveils : Unveils c a.connection) (h : (c.arrives s iss now).Ends σ a) : a.answers = [] := by
  obtain ⟨state, closed, past, _⟩ := unveils
  have early : c.state.pastHandshake = false := by
    rw [state]
    rfl
  cases arrives_course coherent h with
  | refused | unfit => exact absurd past (by simp [Arrival.answered, early])
  | shut => cases past
  | meets begins => rcases begins with listens | asked <;> simp_all
  | greets asked => simp_all
  | unsent before | acknowledged before | content before =>
    rw [early] at before
    cases before
  | establish _ processed _ _ content => exact content_bare (processes_bare closed processed) long content

end Connection

namespace Stack

variable {k k' : Stack} {answer : Answer} {τ : List Signal} {place : Nat}
  {history : List (Event × Instant)}

def shown? (k : Stack) (here : Endpoint) : Option UInt16 :=
  (k.log.filterMap (Datagram.window? here)).getLast?

def Announces (k : Stack) (here : Endpoint) (k' : Stack) : Prop :=
  ∃ ds, k'.log = k.log ++ ds ∧ ∃ d ∈ ds, ∃ s, d.segment? = some s ∧ s.sender = here ∧
    s.header.flags.has .ack = true ∧ s.header.window ≠ 0

/-- The event ends the handshake of a connection with a closed window, and opens that. -/
def Overlooks (k : Stack) (here : Endpoint) (event : Event) (k' : Stack) : Prop :=
  ∃ s ∈ event.segment?, ∃ c ∈ k.table.get? here, c.claims s = true ∧
    ∃ c' ∈ k'.table.get? here, c.Unveils c'

instance (k : Stack) (here : Endpoint) (event : Event) (k' : Stack) :
    Decidable (k.Overlooks here event k') :=
  inferInstanceAs (Decidable (∃ s ∈ event.segment?, ∃ c ∈ k.table.get? here, c.claims s = true ∧
    ∃ c' ∈ k'.table.get? here, c.Unveils c'))

/-- The network takes every datagram, and no event of the history overlooks that a window has opened. -/
def Announcing (here : Endpoint) (k : Stack) (place : Nat) : List (Event × Instant) → Prop
  | [] => True
  | (event, now) :: rest => k.Willing ∧ match (k.handle event now place).outcome with
    | .ok (k', _) => ¬ k.Overlooks here event k' ∧ Announcing here k' (place + 1) rest
    | .error _ => True

instance decidableAnnouncing (here : Endpoint) : (k : Stack) → (place : Nat) →
    (history : List (Event × Instant)) → Decidable (Announcing here k place history)
  | _, _, [] => inferInstanceAs (Decidable True)
  | k, place, (event, now) :: rest =>
    have : Decidable (match (k.handle event now place).outcome with
        | .ok (k', _) => ¬ k.Overlooks here event k' ∧ Announcing here k' (place + 1) rest
        | .error _ => True) :=
      match (k.handle event now place).outcome with
      | .ok (k', _) =>
        have := decidableAnnouncing here k' (place + 1) rest
        inferInstanceAs (Decidable (_ ∧ _))
      | .error _ => inferInstanceAs (Decidable True)
    inferInstanceAs (Decidable (_ ∧ _))

def Shows (k : Stack) (c : Connection) : Prop :=
  ∃ w, k.shown? c.here = some w ∧ (w = 0 ↔ c.window = 0)

theorem getLast?_told {w : UInt16} (tells : ∀ d ∈ ds, ∀ v, d.window? here = some v → v = w) :
    (ds.filterMap (Datagram.window? here)).getLast? = some w ∨
      ds.filterMap (Datagram.window? here) = [] := by
  by_cases none : ds.filterMap (Datagram.window? here) = []
  · exact Or.inr none
  · left
    rw [List.getLast?_eq_some_getLast none]
    obtain ⟨d, member, told⟩ := List.mem_filterMap.mp (List.getLast_mem none)
    rw [tells d member _ told]

theorem shown?_append (log : k'.log = k.log ++ ds) : k'.shown? here
    = (ds.filterMap (Datagram.window? here)).getLast?.or (k.shown? here) := by
  rw [shown?, log, List.filterMap_append, List.getLast?_append]
  rfl

theorem acks_posted (acks : Connection.Acks a) (post : Post a.answers ds) :
    ∃ d s, ds = [d] ∧ d.segment? = some s ∧ s.sender = a.connection.here ∧
      s.header.flags.has .ack = true ∧ s.header.window = a.connection.told ∧
      d.window? a.connection.here = some a.connection.told := by
  obtain ⟨flags, seq, answer, sent, only, ack, calm⟩ := acks
  rw [only] at post
  cases post with
  | cons posted rest =>
    cases rest
    have tells := Connection.window?_segment ⟨answer, sent, posted⟩
    rw [if_pos calm] at tells
    have read := segment?_posted (Connection.segment_formed sent).1 posted
    have sender := Connection.segment_sender sent
    obtain ⟨foreign, _, rfl⟩ := Option.map_eq_some_iff.mp sent
    exact ⟨_, _, rfl, read, sender, ack, rfl, tells⟩

inductive Opens (k : Stack) (event : Event) (k' : Stack) (c' : Connection) : Prop where
  | level {c : Connection} (found : k.table.get? c'.here = some c) (level : c.Level c')
  | acked {ds : List Datagram} {d : Datagram} {s : Segment} (log : k'.log = k.log ++ ds)
      (member : d ∈ ds) (read : d.segment? = some s) (sender : s.sender = c'.here)
      (ack : s.header.flags.has .ack = true) (window : s.header.window = c'.told)
      (told : d.window? c'.here = some c'.told)
  | overlooked (overlooks : k.Overlooks c'.here event k')

theorem opens_acked (acks : Connection.Acks a) (post : Post a.answers ds)
    (log : k'.log = k.log ++ ds) : Opens k event k' a.connection := by
  obtain ⟨d, s, rfl, read, sender, ack, window, told⟩ := acks_posted acks post
  exact .acked log List.mem_cons_self read sender ack window told

theorem arrived_opens {octets : Octets} {src dst : Address} (sound : Sound place k)
    (willing : k.Willing) (reads : Reads octets src dst s) (found : k.table.get? s.receiver = some c)
    (claims : c.claims s = true) (there : k'.table.get? c.here = some c')
    (live : c'.state.isSynchronized = true)
    (ends : (k.handle (.ingress octets src dst) now place).Ends σ (k', answer)) :
    Opens k (.ingress octets src dst) k' c' := by
  have here := (Table.get?_some found).2
  have brings := Event.segment?_ingress reads
  have coherent := sound.proper.found found
  obtain ⟨iss, a, ds, arrives, table, post, log⟩ := ingress_offers willing reads found claims ends
  have same := Connection.moves_here (Connection.arrives_handled coherent.fresh arrives).1
  obtain rfl : a.connection = c' := by
    have last := found_of_put sound.proper.distinct found same table
    rw [← here, there] at last
    exact (Option.some.inj last).symm
  rcases Connection.arrives_acks coherent live arrives with level | acks | unveils
  · refine .level ?_ level
    rw [same, here]
    exact found
  · exact opens_acked acks post log
  · refine .overlooked ⟨s, brings, c, ?_, claims, a.connection, ?_, unveils⟩
    · rw [same, here]
      exact found
    · rw [same]
      exact there

theorem received_opens {capacity : Nat} (sound : Sound place k) (willing : k.Willing)
    (found : k.table.get? here = some c) (there : k'.table.get? here = some c')
    (live : c'.state.isSynchronized = true)
    (ends : (k.handle (.receive here capacity) now place).Ends σ (k', answer)) :
    Opens k (.receive here capacity) k' c' := by
  have same := (Table.get?_some there).2
  have coherent := sound.proper.found found
  rcases receive_offers willing found coherent.peer ends with still | ⟨d, τ, served, table, told⟩
  · rw [still, found, Option.some.injEq] at there
    subst there
    exact .level (same ▸ found) (Connection.turns_level live rfl)
  · have kept : d.here = c.here := by
      rcases Connection.deliver_ends served with ⟨_, rfl, _⟩ | ⟨_, _, _, _, rfl⟩ <;> rfl
    obtain rfl : d = c' := by
      have last := found_of_put sound.proper.distinct found kept table
      rw [there] at last
      exact (Option.some.inj last).symm
    have state : d.state = c.state := (Connection.deliver_state served :)
    have opens : c.window ≤ d.window := (Connection.deliver_opens served :)
    by_cases opened : c.window = 0 ∧ 0 < d.window
    · obtain ⟨s, x, sent, posted, log⟩ := told opened.1 opened.2 live
      have acks : Connection.Acks (.answered d (d.control [.ack])) :=
        ⟨_, _, s, sent, by rw [sent]; rfl, by decide, by decide⟩
      have post : Post (Arrival.answered d (d.control [.ack])).answers [x] := by
        rw [sent]
        exact .cons posted .nil
      exact opens_acked acks post log
    · refine .level (same ▸ found) ⟨?_, by omega⟩
      rw [← state]
      exact live

theorem handle_opens (sound : Sound place k) (willing : k.Willing)
    (there : k'.table.get? here = some c') (live : c'.state.isSynchronized = true)
    (ends : (k.handle event now place).Ends σ (k', answer)) : Opens k event k' c' := by
  have same := (Table.get?_some there).2
  rcases handle_origin sound ends there with ⟨_, rfl⟩ | ⟨c, ds, found, log, befalls⟩
  · cases live
  · have mine := (Table.get?_some found).2
    have level (h : c.Level c') : Opens k event k' c' := .level (same ▸ found) h
    generalize σ.filter _ = own at befalls
    cases befalls with
    | spared => exact level (Connection.turns_level live rfl)
    | timed timed => exact level (Connection.onTimer_level live timed)
    | arrived iss brings claims =>
      obtain ⟨octets, src, dst, rfl, reads⟩ := Event.reads_of_segment? brings
      have target := (Connection.claims_iff.mp claims).1
      refine arrived_opens sound willing reads ?_ claims ?_ live ends
      · rw [target, mine]
        exact found
      · rw [mine]
        exact there
    | called iss callee called =>
      by_cases receives : ∃ target capacity, event = .receive target capacity
      · obtain ⟨target, capacity, rfl⟩ := receives
        obtain rfl : target = here := by
          rw [← mine]
          exact Option.some.inj callee
        exact received_opens sound willing found there live ends
      · refine level (Connection.called_level live ?_ called)
        intro target capacity receive
        exact receives ⟨target, capacity, receive⟩

/-- The window that was last told stays right, unless an event overlooks that it has opened. -/
theorem handle_shows (sound : Sound place k) (willing : k.Willing)
    (shows : ∀ c, k.table.get? here = some c → c.state.isSynchronized = true → k.Shows c)
    (ends : (k.handle event now place).Ends σ (k', answer)) (straight : ¬ k.Overlooks here event k') :
    ∀ c', k'.table.get? here = some c' → c'.state.isSynchronized = true → k'.Shows c' := by
  intro c' there live
  have same := (Table.get?_some there).2
  have opens := handle_opens sound willing there live ends
  rcases handle_origin sound ends there with ⟨_, rfl⟩ | ⟨c, ds, found, log, befalls⟩
  · cases live
  · have mine := (Table.get?_some found).2
    have tells := Connection.befalls_tells_window (sound.proper.found found) befalls
    rw [mine, ← same] at tells
    have shown : k'.shown? c'.here = (ds.filterMap (Datagram.window? c'.here)).getLast?.or
        (k.shown? c'.here) := shown?_append log
    rcases getLast?_told tells with last | none
    · refine ⟨c'.told, ?_, Connection.told_zero⟩
      rw [shown, last]
      rfl
    · have kept : k'.shown? c'.here = k.shown? c'.here := by
        rw [shown, none]
        rfl
      cases opens with
      | level found' level =>
        rw [same, found, Option.some.injEq] at found'
        subst found'
        obtain ⟨w, told, zero⟩ := shows c found level.1
        refine ⟨w, ?_, zero.trans level.2.symm⟩
        rw [kept, same, ← mine]
        exact told
      | acked log' member _ _ _ _ told =>
        obtain rfl := List.append_cancel_left (log.symm.trans log')
        have listed := List.mem_filterMap.mpr ⟨_, member, told⟩
        rw [none] at listed
        cases listed
      | overlooked overlooks =>
        rw [same] at overlooks
        exact absurd overlooks straight

theorem overlooks_silent (sound : Sound place k) (willing : k.Willing)
    (ends : (k.handle event now place).Ends σ (k', answer)) (overlooks : k.Overlooks here event k') :
    k'.log = k.log := by
  obtain ⟨s, brings, c, found, claims, c', there, unveils⟩ := overlooks
  rw [Option.mem_def] at brings found there
  obtain ⟨octets, src, dst, rfl, reads⟩ := Event.reads_of_segment? brings
  have coherent := sound.proper.found found
  have target : s.receiver = here := (Connection.claims_iff.mp claims).1.trans (Table.get?_some found).2
  subst target
  obtain ⟨iss, a, ds, arrives, table, post, log⟩ := ingress_offers willing reads found claims ends
  have same := Connection.moves_here (Connection.arrives_handled coherent.fresh arrives).1
  obtain rfl : a.connection = c' := by
    have last := found_of_put sound.proper.distinct found same table
    rw [there] at last
    exact (Option.some.inj last).symm
  rw [Connection.unveils_silent coherent (Event.long_of_segment? brings) unveils arrives] at post
  cases post
  rw [log, List.append_nil]

theorem not_announces (silent : k'.log = k.log) : ¬ k.Announces here k' := by
  rintro ⟨ds, log, d, member, _⟩
  rw [silent] at log
  rw [List.self_eq_append_right.mp log] at member
  cases member

theorem handle_announces (sound : Sound place k) (willing : k.Willing)
    (shows : ∀ c, k.table.get? here = some c → c.state.isSynchronized = true → k.Shows c)
    (ends : (k.handle event now place).Ends σ (k', answer)) (closed : k.shown? here = some 0)
    (there : k'.table.get? here = some c') (live : c'.state.isSynchronized = true)
    (opened : 0 < c'.window) : k.Announces here k' ↔ ¬ k.Overlooks here event k' := by
  have same := (Table.get?_some there).2
  constructor
  · intro announces overlooks
    exact not_announces (overlooks_silent sound willing ends overlooks) announces
  · intro straight
    cases handle_opens sound willing there live ends with
    | @level c found level =>
      obtain ⟨w, told, zero⟩ := shows c (same ▸ found) level.1
      rw [(Table.get?_some found).2, same, closed, Option.some.injEq] at told
      have before := zero.mp told.symm
      have after := level.2.mpr before
      omega
    | acked log member read sender ack window =>
      refine ⟨_, log, _, member, _, read, sender.trans same, ack, ?_⟩
      rw [window, ne_eq, Connection.told_zero]
      omega
    | overlooked overlooks =>
      rw [same] at overlooks
      exact absurd overlooks straight

theorem run_shows (sound : Sound place k)
    (shows : ∀ c, k.table.get? here = some c → c.state.isSynchronized = true → k.Shows c)
    (announcing : Announcing here k place history) (ends : (k.run place history).Ends σ k') :
    ∀ c, k'.table.get? here = some c → c.state.isSynchronized = true → k'.Shows c := by
  induction history generalizing k place σ with
  | nil =>
    obtain ⟨_, rfl⟩ := Act.ends_pure.mp ends
    exact shows
  | cons head rest ih =>
    obtain ⟨event, now⟩ := head
    obtain ⟨_, _, _, _, first, after, _⟩ := run_cons_ends.mp ends
    rw [Announcing, first] at announcing
    obtain ⟨willing, straight, later⟩ := announcing
    exact ih (handle_sound sound first) (handle_shows sound willing shows first straight) later after

/-- Where the network takes every datagram and no end of a handshake has overlooked it, the peer of each
    synchronized connection was last told that its window is closed exactly if it is. And if an event
    opens a window that was last told to be closed, it hands over an acknowledgment that says so, unless
    it overlooks it just now. -/
theorem window_announced_iff_not_overlooked {config : Config} {generator : SeqGenerator}
    (announcing : Announcing here (.empty config generator) 0 history)
    (ends : ((Stack.empty config generator).run 0 history).Ends σ k) (willing : k.Willing)
    (last : (k.handle event now history.length).Ends τ (k', answer)) :
    (∀ c, k.table.get? here = some c → c.state.isSynchronized = true → k.Shows c) ∧
      ∀ c', k.shown? here = some 0 → k'.table.get? here = some c' →
        c'.state.isSynchronized = true → 0 < c'.window →
          (k.Announces here k' ↔ ¬ k.Overlooks here event k') := by
  have start := sound_empty config generator
  have sound := run_sound start ends
  rw [Nat.zero_add] at sound
  have nobody : ∀ c, (Stack.empty config generator).table.get? here = some c →
      c.state.isSynchronized = true → (Stack.empty config generator).Shows c := by
    intro c found
    cases found
  have shows := run_shows start nobody announcing ends
  exact ⟨shows, fun c' closed there live opened =>
    handle_announces sound willing shows last closed there live opened⟩

def filled : List (Event × Instant) :=
  [(.bind ⟨⟨10, 0, 0, 1⟩, 80⟩, .start),
   (.openConnection ⟨⟨10, 0, 0, 1⟩, 80⟩ (.passive none) none, .start),
   (greeting, .start), (welcome, .start)]

theorem filled_announced : ∃ σ k τ k' answer c',
    Announcing ⟨⟨10, 0, 0, 1⟩, 80⟩ (.empty { receiveWindow := 8 } (.ofKey 1 2)) 0 filled ∧
    ((Stack.empty { receiveWindow := 8 } (.ofKey 1 2)).run 0 filled).Ends σ k ∧ k.Willing ∧
    (k.handle (.receive ⟨⟨10, 0, 0, 1⟩, 80⟩ 5) .start 4).Ends τ (k', answer) ∧
    k.shown? ⟨⟨10, 0, 0, 1⟩, 80⟩ = some 0 ∧ k'.table.get? ⟨⟨10, 0, 0, 1⟩, 80⟩ = some c' ∧
    c'.state.isSynchronized = true ∧ 0 < c'.window ∧ k.Announces ⟨⟨10, 0, 0, 1⟩, 80⟩ k' := by
  let here : Endpoint := ⟨⟨10, 0, 0, 1⟩, 80⟩
  let start := Stack.empty { receiveWindow := 8 } (.ofKey 1 2)
  let k := (start.run 0 filled).result start
  let r := (k.handle (.receive here 5) .start 4).result (k, .accepted)
  let c' := (r.1.table.get? here).getD (.bound here {})
  have announcing : Announcing here start 0 filled := by decide +kernel
  have ends : (start.run 0 filled).Ends _ k := Act.ends_result start (by decide +kernel)
  have willing : k.Willing := by decide +kernel
  have succeeds : (k.handle (.receive here 5) .start 4).outcome.isOk = true := by decide +kernel
  have whole := Act.ends_result (k, Answer.accepted) succeeds
  have last : (k.handle (.receive here 5) .start 4).Ends _ (r.1, r.2) := whole.pair
  have closed : k.shown? here = some 0 := by decide +kernel
  have there : r.1.table.get? here = some c' := by decide +kernel
  have live : c'.state.isSynchronized = true := by decide +kernel
  have opened : 0 < c'.window := by decide +kernel
  have straight : ¬ k.Overlooks here (.receive here 5) r.1 := by decide +kernel
  have announces := (window_announced_iff_not_overlooked announcing ends willing last).2 c' closed
    there live opened
  exact ⟨_, k, _, r.1, r.2, c', announcing, ends, willing, last, closed, there, live, opened,
    announces.mpr straight⟩

/-- Where a receive call waits for the text, the end of the handshake opens the window, and nobody is
    told. -/
theorem welcome_unannounced : ∃ σ k τ k' answer c',
    ((Stack.empty { receiveWindow := 8 } (.ofKey 1 2)).run 0 greeted).Ends σ k ∧ k.Willing ∧
    (k.handle welcome .start 4).Ends τ (k', answer) ∧
    k.shown? ⟨⟨10, 0, 0, 1⟩, 80⟩ = some 0 ∧ k'.table.get? ⟨⟨10, 0, 0, 1⟩, 80⟩ = some c' ∧
    c'.state.isSynchronized = true ∧ 0 < c'.window ∧ ¬ k.Announces ⟨⟨10, 0, 0, 1⟩, 80⟩ k' := by
  let here : Endpoint := ⟨⟨10, 0, 0, 1⟩, 80⟩
  let start := Stack.empty { receiveWindow := 8 } (.ofKey 1 2)
  let k := (start.run 0 greeted).result start
  let r := (k.handle welcome .start 4).result (k, .accepted)
  let c' := (r.1.table.get? here).getD (.bound here {})
  have ends : (start.run 0 greeted).Ends _ k := Act.ends_result start (by decide +kernel)
  have willing : k.Willing := by decide +kernel
  have succeeds : (k.handle welcome .start 4).outcome.isOk = true := by decide +kernel
  have whole := Act.ends_result (k, Answer.accepted) succeeds
  have last : (k.handle welcome .start 4).Ends _ (r.1, r.2) := whole.pair
  have closed : k.shown? here = some 0 := by decide +kernel
  have there : r.1.table.get? here = some c' := by decide +kernel
  have live : c'.state.isSynchronized = true := by decide +kernel
  have opened : 0 < c'.window := by decide +kernel
  have silent : r.1.log = k.log := by decide +kernel
  exact ⟨_, k, _, r.1, r.2, c', ends, willing, last, closed, there, live, opened,
    not_announces silent⟩

end Stack
end TcpEngine
