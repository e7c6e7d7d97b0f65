import TcpEngine.Proofs.Refusal

/-!
How long the datagrams are that a stack hands to the network. A pseudo header counts their octets in 16
bits, and of the 65535 that it can tell the header takes 20. Text that is longer than the rest comes into
the queue by a send call only, which is held against the window of the peer and nothing else.
-/
namespace TcpEngine

variable {k k' : Stack} {here : Endpoint} {text : Octets} {now : Instant} {call : CallId}
  {σ : List Signal} {c c' : Connection} {s : Segment} {event : Event} {answer : Answer}
  {place bound : Nat} {d : Datagram} {ds : List Datagram} {config : Config} {iss : SeqNumber}
  {history : List (Event × Instant)}

structure Datagram.Fits (d : Datagram) : Prop where
  short : d.octets.length ≤ 65535
  told : (UInt16.ofNat d.octets.length).toNat = d.octets.length

theorem Datagram.fits_iff : d.Fits ↔ d.octets.length ≤ 65535 := by
  refine ⟨Fits.short, fun short => ⟨short, ?_⟩⟩
  rw [UInt16.toNat_ofNat']
  omega

theorem Checksum.pseudoHeader_low (src dst : Address) (protocol : Protocol) (length : Nat) :
    pseudoHeader src dst protocol length
      = pseudoHeader src dst protocol (UInt16.ofNat length).toNat := by
  rw [pseudoHeader, pseudoHeader, UInt16.ofNat_toNat]

theorem length_datagram (posted : Stack.datagram s = .ok d) : d.octets.length = 20 + s.text.length := by
  obtain ⟨octets, encoded, rfl⟩ := except_map_ok.mp posted
  obtain ⟨_, _, _, rfl⟩ := Header.encode_ok encoded
  rw [List.length_append, Packet.length_headerOctets, Packet.fixedLength]

theorem length_segment {flags : Flags} {seq : SeqNumber}
    (holds : Holds d (c.segment flags seq text)) : d.octets.length = 20 + text.length := by
  obtain ⟨s, sent, posted⟩ := holds
  obtain ⟨_, _, rfl⟩ := Option.map_eq_some_iff.mp sent
  exact length_datagram posted

theorem datagram_within (posted : Stack.datagram s = .ok d) (short : s.text.length ≤ bound) :
    d.octets.length ≤ 20 + bound := by
  rw [length_datagram posted]
  exact Nat.add_le_add_left short 20

theorem segment_within {flags : Flags} {seq : SeqNumber}
    (holds : Holds d (c.segment flags seq text)) (short : text.length ≤ bound) :
    d.octets.length ≤ 20 + bound := by
  rw [length_segment holds]
  exact Nat.add_le_add_left short 20

theorem reset_within {reply : Segment} (reset : s.resetReply = .ok (some reply))
    (posted : Stack.datagram reply = .ok d) : d.octets.length ≤ 20 + bound := by
  refine datagram_within posted ?_
  rw [(resetReply_bare reset).1]
  exact Nat.zero_le bound

/- A network that takes every datagram takes the first attempt. -/

namespace Outlet

variable {outlet outlet' : Outlet} {attempts : Nat} {result : Except DeliveryError Unit}

theorem transmit_taken (willing : outlet.Willing) (d : Datagram) :
    (outlet.transmit d).2 = .ok () := by
  have grown := outlet.transmit_log d
  rw [(transmit_willing willing d).2, List.append_cancel_left_eq] at grown
  cases taken : (outlet.transmit d).2 with
  | ok => rfl
  | error e =>
    rw [taken] at grown
    cases grown

theorem Tries.willing (willing : outlet.Willing) (tries : outlet.Tries d attempts outlet' result) :
    result = .ok () ∧ outlet'.outbox.datagrams = outlet.outbox.datagrams ++ [d] := by
  have taken := transmit_taken willing d
  have never {e : DeliveryError} {rest : List DeliveryError} {other : Outlet} :
      ¬ outlet.Refuses d (e :: rest) other := by
    rintro ⟨_, refused, _⟩
    rw [refused] at taken
    cases taken
  cases tries with
  | @taken reasons _ _ refuses _ takes =>
    cases reasons with
    | nil =>
      obtain rfl : _ = outlet := refuses
      have grown := (transmit_willing willing d).2
      rw [takes] at grown
      exact ⟨rfl, grown⟩
    | cons => exact absurd refuses never
  | @givenUp reasons _ _ refuses =>
    cases reasons with
    | nil | cons => exact absurd refuses never

end Outlet

namespace Stack

def Hands (k : Stack) (event : Event) (now : Instant) (call : CallId) (d : Datagram) : Prop :=
  ∃ outlet σ k' answer ds, ({ k with outlet }.handle event now call).Ends σ (k', answer) ∧
    k'.log = outlet.outbox.datagrams ++ ds ∧ d ∈ ds

/-- A send call that the window of the peer allows has no more text than this. -/
def Sparing (bound : Nat) (k : Stack) : Event → Prop
  | .send here text =>
    ∀ c, k.Sends here c → text.length ≤ c.send.window.toNat → text.length ≤ bound
  | _ => True

instance (bound : Nat) (k : Stack) : DecidablePred (Sparing bound k)
  | .send here text =>
    decidable_of_iff (∀ c ∈ k.table.get? here, (c.state = .established ∨ c.state = .closeWait) →
        text.length ≤ c.send.window.toNat → text.length ≤ bound)
      ⟨fun spares c sends => spares c sends.1 sends.2, fun spares c found live => spares c ⟨found, live⟩⟩
  | .bind _ | .remove _ | .openConnection .. | .receive .. | .close _ | .abort _ | .ingress .. | .sweep
  | .verdicts _ => inferInstanceAs (Decidable True)

def Throughout (P : Stack → Event → Instant → CallId → Prop) (k : Stack) (place : Nat) :
    List (Event × Instant) → Prop
  | [] => True
  | (event, now) :: rest => P k event now place ∧ match (k.handle event now place).outcome with
    | .ok (k', _) => k'.Throughout P (place + 1) rest
    | .error _ => True

instance decidableThroughout {P : Stack → Event → Instant → CallId → Prop}
    [∀ k event now call, Decidable (P k event now call)] : (k : Stack) → (place : Nat) →
    (history : List (Event × Instant)) → Decidable (k.Throughout P place history)
  | _, _, [] => inferInstanceAs (Decidable True)
  | k, place, (event, now) :: rest =>
    have : Decidable (match (k.handle event now place).outcome with
        | .ok (k', _) => k'.Throughout P (place + 1) rest
        | .error _ => True) :=
      match (k.handle event now place).outcome with
      | .ok (k', _) => decidableThroughout k' (place + 1) rest
      | .error _ => inferInstanceAs (Decidable True)
    inferInstanceAs (Decidable (_ ∧ _))

/-- Two properties that are the same wherever an invariant holds, which one of them keeps. -/
theorem throughout_congr {P Q : Stack → Event → Instant → CallId → Prop} (I : Stack → Prop)
    (same : ∀ {k event now call}, I k → (P k event now call ↔ Q k event now call))
    (kept : ∀ {k event now call σ k' answer}, I k → Q k event now call →
      (k.handle event now call).Ends σ (k', answer) → I k')
    (start : I k) : k.Throughout P place history ↔ k.Throughout Q place history := by
  induction history generalizing k place with
  | nil => exact Iff.rfl
  | cons head rest ih =>
    obtain ⟨event, now⟩ := head
    unfold Throughout
    rw [same start]
    refine and_congr_right fun here => ?_
    cases handled : k.handle event now place with
    | mk σ outcome =>
      cases outcome with
      | error => exact Iff.rfl
      | ok result =>
        obtain ⟨k', answer⟩ := result
        exact ih (kept start here handled)

theorem throughout_always {P : Stack → Event → Instant → CallId → Prop}
    (always : ∀ k event now call, P k event now call) : k.Throughout P place history := by
  induction history generalizing k place with
  | nil => trivial
  | cons head rest ih =>
    obtain ⟨event, now⟩ := head
    refine ⟨always _ _ _ _, ?_⟩
    split
    · exact ih
    · trivial

/- What is handed over has no more text than what waits, or is sent now. -/

theorem called_within (short : ∀ here text, event = .send here text →
      (c.state = .established ∨ c.state = .closeWait) → text.length ≤ c.send.window.toNat →
        text.length ≤ bound)
    (called : Called iss now call event c σ ds c') : ∀ d ∈ ds, d.octets.length ≤ 20 + bound := by
  intro d member
  cases called with
  | told | timed | listen | fail | quit | idle => exact absurd member List.not_mem_nil
  | ask _ _ holds | finish _ holds =>
    rw [List.mem_singleton.mp member]
    exact segment_within holds (Nat.zero_le bound)
  | send live _ fits holds =>
    rw [List.mem_singleton.mp member]
    exact segment_within holds (short _ _ rfl live fits)
  | receive _ _ _ holds => exact segment_within (holds d member).2 (Nat.zero_le bound)
  | abort _ _ holds => exact segment_within (holds d member) (Nat.zero_le bound)

theorem answer_within {a : Arrival} {answer : Segment} (coherent : c.Coherent)
    (arrives : (c.arrives s iss now).Ends σ a) (given : answer ∈ a.answers)
    (posted : datagram answer = .ok d) : d.octets.length ≤ 20 + bound := by
  rcases (Connection.arrives_handled coherent.fresh arrives).2 answer given with kind | rst
  · cases kind with
    | reset reset => exact reset_within reset posted
    | ack _ sent | syn _ sent => exact segment_within ⟨answer, sent, posted⟩ (Nat.zero_le bound)
  · exact segment_within ⟨answer, rst, posted⟩ (Nat.zero_le bound)

theorem swept_brief {connections connections' : List Connection} {segments : List Segment}
    (swept : Swept now config connections σ connections' segments)
    (brief : ∀ c ∈ connections, c.Brief bound) :
    (∀ c ∈ connections', c.Brief bound) ∧ ∀ s ∈ segments, s.text.length ≤ bound := by
  induction swept with
  | nil => simp
  | @cons c c' _ _ _ _ _ _ first _ ih =>
    obtain ⟨turns, resent⟩ := Connection.onTimer_turns first
    have mine := Connection.brief_turns (brief c List.mem_cons_self) turns
    obtain ⟨others, later⟩ := ih fun d member => brief d (List.mem_cons_of_mem _ member)
    constructor
    · exact List.forall_mem_cons.mpr ⟨mine, others⟩
    · intro s member
      rcases List.mem_append.mp member with own | other
      · obtain ⟨e, waits, sent⟩ := resent s own
        obtain ⟨_, _, rfl⟩ := Option.map_eq_some_iff.mp sent
        exact mine e waits
      · exact later s other

theorem put_brief (brief : ∀ c ∈ k.table.connections, c.Brief bound) (changed : c'.Brief bound)
    (table : k'.table.connections = (k.table.put c').connections) :
    ∀ c ∈ k'.table.connections, c.Brief bound := by
  intro c member
  rw [table] at member
  rcases Table.mem_put member with rfl | member
  · exact changed
  · exact brief c member

theorem happens_within (proper : Proper k) (brief : ∀ c ∈ k.table.connections, c.Brief bound)
    (sparing : k.Sparing bound event) (happens : Happens k now call event σ k') :
    (∀ c ∈ k'.table.connections, c.Brief bound) ∧
      ∃ ds, k'.log = k.log ++ ds ∧ ∀ d ∈ ds, d.octets.length ≤ 20 + bound := by
  have nothing (log : k'.log = k.log) :
      ∃ ds, k'.log = k.log ++ ds ∧ ∀ d ∈ ds, d.octets.length ≤ 20 + bound :=
    ⟨[], by rw [log, List.append_nil], fun _ member => absurd member List.not_mem_nil⟩
  cases happens with
  | kept _ table log => exact ⟨table ▸ brief, nothing log⟩
  | bound _ table log =>
    refine ⟨?_, nothing log⟩
    intro c member
    rw [table] at member
    rcases Table.mem_insert.mp member with rfl | member
    · exact fun _ waits => absurd waits List.not_mem_nil
    · exact brief c member
  | removed _ _ table log =>
    refine ⟨?_, nothing log⟩
    intro c member
    rw [table] at member
    exact brief c (List.mem_filter.mp member).1
  | called callee calls =>
    cases calls with
    | absent _ table log => exact ⟨table ▸ brief, nothing log⟩
    | @present _ c _ _ _ _ found called table log =>
      have mine := brief c (Table.get?_some found).1
      have short : ∀ here text, event = .send here text →
          (c.state = .established ∨ c.state = .closeWait) →
            text.length ≤ c.send.window.toNat → text.length ≤ bound := by
        rintro there text rfl live fits
        cases callee
        exact sparing c ⟨found, live⟩ fits
      exact ⟨put_brief brief (Connection.brief_called mine short called) table, _, log,
        called_within short called⟩
  | taken _ takes =>
    cases takes with
    | unclaimed table log holds =>
      refine ⟨table ▸ brief, _, log, ?_⟩
      intro d member
      obtain ⟨_, reset, _, rfl, posted⟩ := holds d member
      exact reset_within reset posted
    | claimed _ found _ arrives table log holds =>
      have coherent := proper.found found
      have moves := (Connection.arrives_handled coherent.fresh arrives).1
      have mine := brief _ (Table.get?_some found).1
      refine ⟨put_brief brief (Connection.brief_moves mine moves) table, _, log, ?_⟩
      intro d member
      obtain ⟨answer, given, posted⟩ := holds d member
      exact answer_within coherent arrives given posted
  | swept swept log holds =>
    obtain ⟨brief', short⟩ := swept_brief swept brief
    refine ⟨brief', _, log, ?_⟩
    intro d member
    obtain ⟨s, sent, posted⟩ := holds d member
    exact datagram_within posted (short s sent)

theorem send_hands (proper : Proper k) (willing : k.Willing) (sends : k.Sends here c)
    (filled : text ≠ []) (fits : text.length ≤ c.send.window.toNat) (now : Instant) (call : CallId) :
    ∃ σ k' d, (k.handle (.send here text) now call).Ends σ (k', .accepted) ∧
      k'.log = k.log ++ [d] ∧ d.octets.length = 20 + text.length := by
  obtain ⟨s, given⟩ := (proper.found sends.1).sends
    (by rcases sends.2 with state | state <;> simp [state])
    (by rcases sends.2 with state | state <;> simp [state]) (.ofList [.ack, .psh]) c.send.next text
  obtain ⟨σ, k', sent⟩ : (k.send here text now call).Succeeds := k.send_succeeds text
  have accepted : (k.handle (.send here text) now call).Ends σ (k', .accepted) :=
    sent.silently rfl
  cases send_handsOver sends filled fits given sent with
  | @taken d _ posted tries =>
    exact ⟨_, k', d, accepted, (tries.willing willing).2, length_segment ⟨s, given, posted⟩⟩
  | givenUp _ tries => cases (tries.willing willing).1

/- One event, and a history. -/

structure Light (bound : Nat) (k : Stack) : Prop where
  proper : Proper k
  brief : ∀ c ∈ k.table.connections, c.Brief bound

theorem light_empty (config : Config) (generator : SeqGenerator) : Light bound (.empty config generator) where
  proper := proper_empty config generator
  brief := fun _ member => absurd member List.not_mem_nil

theorem handle_light (light : Light bound k) (sparing : k.Sparing bound event)
    (ends : (k.handle event now call).Ends σ (k', answer)) : Light bound k' where
  proper := handle_proper light.proper ends
  brief := (happens_within light.proper light.brief sparing
    (handle_happens light.proper.distinct ends)).1

theorem hands_within_iff (light : Light bound k) :
    (∀ d, k.Hands event now call d → d.octets.length ≤ 20 + bound) ↔ k.Sparing bound event := by
  have other (outlet : Outlet) : Proper { k with outlet } := light.proper.kept rfl
  constructor
  · intro within
    cases event with
    | send here text =>
      intro c sends fits
      by_cases filled : text = []
      · rw [filled]
        exact Nat.zero_le _
      · have willing : Willing { k with outlet := .empty } := ⟨by simp [Outlet.empty], rfl⟩
        obtain ⟨σ, k', d, ends, log, long⟩ :=
          send_hands (other .empty) willing sends filled fits now call
        have short := within d ⟨.empty, σ, k', _, [d], ends, log, List.mem_singleton_self d⟩
        omega
    | _ => trivial
  · rintro sparing d ⟨outlet, σ, k', answer, ds, ends, log, member⟩
    have happens := handle_happens (other outlet).distinct ends
    have sparing' : Sparing bound { k with outlet } event := by
      cases event <;> exact sparing
    obtain ⟨_, grown, log', within⟩ := happens_within (other outlet) light.brief sparing' happens
    have same : ds = grown := List.append_cancel_left (log.symm.trans log')
    exact within d (same ▸ member)

theorem sparing_widest (k : Stack) (event : Event) : k.Sparing 65535 event := by
  cases event with
  | send here text =>
    intro c _ fits
    exact Nat.le_trans fits (Nat.le_of_lt_succ c.send.window.toNat_lt)
  | _ => trivial

/-- With every history, datagrams stay within a bound exactly if the texts of the send calls do. -/
theorem run_within_iff (config : Config) (generator : SeqGenerator) (bound : Nat) :
    (Stack.empty config generator).Throughout
        (fun k event now call => ∀ d, k.Hands event now call d → d.octets.length ≤ 20 + bound) 0 history
      ↔ (Stack.empty config generator).Throughout (fun k event _ _ => k.Sparing bound event) 0 history :=
  throughout_congr (Light bound) hands_within_iff handle_light (light_empty config generator)

/-- Whatever happens to a stack, no datagram that it hands to the network is longer than 65555 octets. All
    of them fit, so that their pseudo headers tell how long they are, exactly if no send call passes on
    more than 65515 octets of text, be the window of the peer as wide as it may. -/
theorem datagrams_fit_iff_sparing {config : Config} {generator : SeqGenerator}
    {history : List (Event × Instant)} :
    (Stack.empty config generator).Throughout
        (fun k event now call => ∀ d, k.Hands event now call d → d.octets.length ≤ 65555) 0 history ∧
      ((Stack.empty config generator).Throughout
          (fun k event now call => ∀ d, k.Hands event now call d → d.Fits) 0 history
        ↔ (Stack.empty config generator).Throughout (fun k event _ _ => k.Sparing 65515 event) 0 history) := by
  constructor
  · exact (run_within_iff config generator 65535).mpr
      (throughout_always fun k event _ _ => k.sparing_widest event)
  · simp only [Datagram.fits_iff]
    exact run_within_iff config generator 65515

def generous : List (Event × Instant) :=
  asking ++
    -- The widest window there is.
    [(.ingress [0, 80, 192, 0, 0, 0, 3, 232, 10, 62, 28, 189, 80, 18, 255, 255, 176, 156, 0, 0]
       ⟨10, 0, 0, 2⟩ ⟨10, 0, 0, 1⟩, .start)]

theorem generous_spared : (Stack.empty { receiveWindow := 8 } (.ofKey 1 2)).Throughout
    (fun k event now call => ∀ d, k.Hands event now call d → d.Fits) 0
    (generous ++ [(.send ⟨⟨10, 0, 0, 1⟩, 49152⟩ [104, 105], .start), (.sweep, ⟨20000⟩)]) :=
  datagrams_fit_iff_sparing.2.mpr (by decide +kernel)

/-- One octet of text too many: the pseudo header tells that there is nothing at all. -/
theorem generous_overstepped : ∃ σ k τ k' d,
    ((Stack.empty { receiveWindow := 8 } (.ofKey 1 2)).run 0 generous).Ends σ k ∧
    (k.handle (.send ⟨⟨10, 0, 0, 1⟩, 49152⟩ (List.replicate 65516 0)) .start 3).Ends τ (k', .accepted) ∧
    k'.log = k.log ++ [d] ∧ d.octets.length = 65536 ∧ ¬ d.Fits ∧
    Checksum.pseudoHeader d.src d.dst .tcp d.octets.length
      = Checksum.pseudoHeader d.src d.dst .tcp 0 := by
  let start := Stack.empty { receiveWindow := 8 } (.ofKey 1 2)
  let k := (start.run 0 generous).result start
  let c := (k.table.get? ⟨⟨10, 0, 0, 1⟩, 49152⟩).getD (.bound ⟨⟨10, 0, 0, 1⟩, 49152⟩ {})
  have ends : (start.run 0 generous).Ends _ k := Act.ends_result start (by decide +kernel)
  have proper : Proper k := run_proper (proper_empty _ _) ends
  have found : k.table.get? ⟨⟨10, 0, 0, 1⟩, 49152⟩ = some c := by decide +kernel
  have state : c.state = .established := by decide +kernel
  have window : c.send.window.toNat = 65535 := by decide +kernel
  have filled : List.replicate 65516 (0 : UInt8) ≠ [] := by
    rw [List.replicate_succ]
    exact List.cons_ne_nil _ _
  have fits : (List.replicate 65516 (0 : UInt8)).length ≤ c.send.window.toNat := by
    rw [window, List.length_replicate]
    decide
  obtain ⟨τ, k', d, sent, log, long⟩ :=
    send_hands proper (by decide +kernel) ⟨found, .inl state⟩ filled fits .start 3
  rw [List.length_replicate] at long
  refine ⟨_, k, τ, k', d, ends, sent, log, long, ?_, ?_⟩
  · rw [Datagram.fits_iff, long]
    decide
  · rw [Checksum.pseudoHeader_low, long]
    rfl

end Stack
end TcpEngine
