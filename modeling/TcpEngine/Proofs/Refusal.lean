import TcpEngine.Proofs.Faultless
import TcpEngine.Proofs.FlowControl

/-!
Calls that fail. A call that is refused at once changes no connection, and neither does one whose segment
the network does not take: it is tried as often as the settings allow, and the connection goes on only
once an attempt has succeeded.
-/
namespace TcpEngine

namespace Outlet

def Refuses (d : Datagram) : Outlet → List DeliveryError → Outlet → Prop
  | outlet, [], outlet' => outlet' = outlet
  | outlet, e :: rest, outlet' =>
    ∃ tried, outlet.transmit d = (tried, .error e) ∧ Refuses d tried rest outlet'

/-- A datagram is tried until the outlet takes it, and at most as often as there are attempts. Where it
    is refused each time, the last reason counts. -/
inductive Tries (d : Datagram) (attempts : Nat) (outlet : Outlet) :
    Outlet → Except DeliveryError Unit → Prop where
  | taken {reasons : List DeliveryError} {tried outlet' : Outlet}
      (refuses : outlet.Refuses d reasons tried) (spare : reasons.length < attempts)
      (takes : tried.transmit d = (outlet', .ok ())) : Tries d attempts outlet outlet' (.ok ())
  | givenUp {reasons : List DeliveryError} {last : DeliveryError} {outlet' : Outlet}
      (refuses : outlet.Refuses d (reasons ++ [last]) outlet')
      (spent : reasons.length + 1 = attempts) : Tries d attempts outlet outlet' (.error last)

variable {d : Datagram} {outlet outlet' tried : Outlet} {attempts : Nat}

theorem Tries.after {result : Except DeliveryError Unit} {e : DeliveryError}
    (first : outlet.transmit d = (tried, .error e)) (tries : tried.Tries d attempts outlet' result) :
    outlet.Tries d (attempts + 1) outlet' result := by
  cases tries with
  | @taken reasons _ _ refuses spare takes =>
    have refuses : outlet.Refuses d (e :: reasons) _ := ⟨tried, first, refuses⟩
    exact .taken refuses (Nat.succ_lt_succ spare) takes
  | @givenUp reasons last _ refuses spent =>
    have refuses : outlet.Refuses d (e :: reasons ++ [last]) outlet' := ⟨tried, first, refuses⟩
    exact .givenUp refuses (congrArg (· + 1) spent)

theorem transmitWithin_tries (outlet : Outlet) (d : Datagram) (more : Nat) :
    outlet.Tries d (more + 1) (outlet.transmitWithin d more).1 (outlet.transmitWithin d more).2 := by
  have none (outlet : Outlet) : outlet.Refuses d [] outlet := rfl
  induction more generalizing outlet with
  | zero =>
    rw [transmitWithin]
    cases first : outlet.transmit d with
    | mk tried result =>
      cases result with
      | ok => exact .taken (none outlet) Nat.one_pos first
      | error e =>
        have once : outlet.Refuses d ([] ++ [e]) tried := ⟨tried, first, none tried⟩
        exact .givenUp once rfl
  | succ more ih =>
    rw [transmitWithin]
    cases first : outlet.transmit d with
    | mk tried result =>
      cases result with
      | ok => exact .taken (none outlet) (Nat.succ_pos _) first
      | error e => exact (ih tried).after first

end Outlet

structure Connection.Queues (c : Connection) (s : Segment) (now : Instant) (call : CallId)
    (c' : Connection) : Prop where
  queue : c'.queue = c.queue ++ [⟨s.header.seq, s.header.flags, s.text, now, now, 0, some call⟩]
  next : c'.send.next = c.send.next.advance s.header.sequenceLength

namespace Connection

variable {c : Connection} {text : Octets} {s : Segment} {now : Instant} {call : CallId}

theorem sent_queues (given : c.segment (.ofList [.ack, .psh]) c.send.next text = some s) :
    c.Queues s now call (c.sent text now call) := by
  have plain : (Flags.ofList [.ack, .psh]).sequenceLength = 0 := by decide
  obtain ⟨foreign, _, rfl⟩ := Option.map_eq_some_iff.mp given
  refine ⟨rfl, ?_⟩
  rw [Header.sequenceLength, plain]
  rfl

theorem finished_queues (given : c.control [.fin, .ack] = some s) (after : State) :
    c.Queues s now call (c.finished after now call) := by
  have final : (Flags.ofList [.fin, .ack]).sequenceLength = 1 := by decide
  obtain ⟨foreign, _, rfl⟩ := Option.map_eq_some_iff.mp given
  refine ⟨rfl, ?_⟩
  rw [Header.sequenceLength, final]
  rfl

theorem Coherent.sends (coherent : c.Coherent) (closed : c.state ≠ .closed) (listen : c.state ≠ .listen)
    (flags : Flags) (seq : SeqNumber) (text : Octets) : ∃ s, c.segment flags seq text = some s := by
  obtain ⟨foreign, known⟩ := Option.isSome_iff_exists.mp (coherent.known closed listen)
  exact ⟨_, by rw [segment, known]; rfl⟩

end Connection

namespace Stack

variable {k k' : Stack} {here : Endpoint} {text : Octets} {now : Instant} {call : CallId}
  {σ τ : List Signal} {c c' : Connection} {s : Segment} {event : Event} {answer : Answer}
  {place : Nat}

/-- What comes of a call that has a segment to hand over. Either the network takes it, and the call
    waits at the changed connection; or it does not, the call has its reply and no connection is changed. -/
inductive HandsOver (k : Stack) (s : Segment) (c' : Connection) (call : CallId) :
    List Signal → Stack → Prop where
  | taken {d : Datagram} {k' : Stack} (posted : datagram s = .ok d)
      (tries : k.outlet.Tries d (max 1 k.table.config.transmitAttempts) k'.outlet (.ok ()))
      (table : k'.table = k.table.put c') : HandsOver k s c' call [] k'
  | givenUp {d : Datagram} {last : DeliveryError} {k' : Stack} (posted : datagram s = .ok d)
      (tries : k.outlet.Tries d (max 1 k.table.config.transmitAttempts) k'.outlet (.error last))
      (table : k'.table = k.table) : HandsOver k s c' call [.fails (.transmit last) call] k'

theorem transmit_tries {tried : Stack} {result : Except DeliveryError Unit}
    (sent : k.transmit s = .ok (tried, result)) : tried.table = k.table ∧
      ∃ d, datagram s = .ok d ∧
        k.outlet.Tries d (max 1 k.table.config.transmitAttempts) tried.outlet result := by
  simp only [transmit, except_bind_ok, except_pure_ok, Prod.mk.injEq] at sent
  obtain ⟨d, posted, rfl, rfl⟩ := sent
  have attempts : max 1 k.table.config.transmitAttempts
      = k.table.config.transmitAttempts - 1 + 1 := by omega
  exact ⟨rfl, d, posted, attempts ▸ k.outlet.transmitWithin_tries d _⟩

theorem transmit_handsOver {next : Stack × Except DeliveryError Unit → Act Stack}
    (taken : ∀ tried, (next (tried, .ok ())).Ends [] (tried.put c'))
    (givenUp : ∀ tried e, next (tried, .error e) = tried.refuse call (.transmit e))
    (h : (liftM (k.transmit s) >>= next).Ends σ k') : HandsOver k s c' call σ k' := by
  rw [Act.ends_bind] at h
  obtain ⟨_, ⟨tried, result⟩, τ, lifted, h, rfl⟩ := h
  obtain ⟨rfl, sent⟩ := Act.ends_lift.mp lifted
  obtain ⟨table, d, posted, tries⟩ := transmit_tries sent
  cases result with
  | ok =>
    have same := (taken tried).symm.trans h
    cases same
    exact .taken posted tries (congrArg (Table.put · c') table)
  | error e =>
    rw [givenUp] at h
    obtain ⟨rfl, rfl⟩ := refuse_ends.mp h
    exact .givenUp posted tries table

/- The two calls that hand a segment over. -/

theorem send_handsOver (sends : k.Sends here c) (filled : text ≠ [])
    (fits : text.length ≤ c.send.window.toNat)
    (given : c.segment (.ofList [.ack, .psh]) c.send.next text = some s)
    (h : (k.send here text now call).Ends σ k') :
    HandsOver k s (c.sent text now call) call σ k' := by
  have near : text.length < SeqNumber.halfCircle :=
    Nat.lt_of_le_of_lt fits (Nat.lt_trans c.send.window.toNat_lt (by decide))
  have entry : s.header.seq = c.send.next ∧ s.header.flags = .ofList [.ack, .psh]
      ∧ s.text = text := by
    obtain ⟨foreign, _, rfl⟩ := Option.map_eq_some_iff.mp given
    exact ⟨rfl, rfl, rfl⟩
  rw [send_live sends.1 sends.2, if_neg (Nat.not_lt.mpr fits), if_neg (by simpa using filled),
    given] at h
  refine transmit_handsOver (fun tried => ?_) (fun _ _ => rfl) h
  simp only [SeqNumber.add_ok.mpr ⟨near, rfl⟩, Act.lift_bind, Connection.enqueue, entry]
  exact Act.ends_pure.mpr ⟨rfl, rfl⟩

theorem finish_handsOver {after : State} (given : c.control [.fin, .ack] = some s)
    (h : (k.finish c after now call).Ends σ k') :
    HandsOver k s (c.finished after now call) call σ k' := by
  have entry : s.header.seq = c.send.next ∧ s.header.flags = .ofList [.fin, .ack]
      ∧ s.text = [] := by
    obtain ⟨foreign, _, rfl⟩ := Option.map_eq_some_iff.mp given
    exact ⟨rfl, rfl, rfl⟩
  unfold finish at h
  rw [given] at h
  refine transmit_handsOver (fun tried => ?_) (fun _ _ => rfl) h
  simp only [Connection.add_one, Act.lift_bind, Connection.enqueue, entry]
  exact Act.ends_pure.mpr ⟨rfl, rfl⟩

theorem close_finish {after : State} (found : k.table.get? here = some c)
    (states : Connection.Finishes c.state after) :
    k.close here now call = k.finish c after now call := by
  unfold close
  rw [found]
  rcases states with ⟨state | state, rfl⟩ | ⟨state, rfl⟩ <;> simp only [state]

/- Failures at once. -/

theorem abort_refused {e : CallError} (h : (k.abort here).Ends σ (k', .error e)) : k' = k := by
  unfold abort at h
  split at h
  · exact (Prod.mk.inj (Act.ends_pure.mp h).2).1
  · split at h
    · exact (Prod.mk.inj (Act.ends_pure.mp h).2).1
    · simp only [Act.ends_bind, Act.ends_pure, Prod.mk.injEq, reduceCtorEq, and_false, false_and,
        exists_false] at h

theorem orRefuse_refused {changed : Except CallError Stack} {e : CallError}
    (h : (k', Answer.refused e) = k.orRefuse changed) : k' = k := by
  cases changed with
  | ok => cases h
  | error => exact (Prod.mk.inj h).1

/-- An event that is refused at once leaves the stack as it is. -/
theorem refused_still {e : CallError} (h : (k.handle event now call).Ends σ (k', .refused e)) :
    k' = k := by
  unfold handle at h
  cases event with
  | bind here | remove here => exact orRefuse_refused (Act.ends_pure.mp h).2
  | abort here =>
    simp only [Act.ends_bind, Act.ends_pure, Prod.mk.injEq] at h
    obtain ⟨_, ⟨_, result⟩, _, aborted, ⟨_, rfl, refused⟩, _⟩ := h
    cases result with
    | ok => cases refused
    | error => exact abort_refused aborted
  | ingress octets src dst =>
    simp only [Act.ends_bind, Act.ends_pure, Prod.mk.injEq] at h
    obtain ⟨_, ⟨_, result⟩, _, _, ⟨_, _, refused⟩, _⟩ := h
    cases result <;> cases refused
  | _ => simp only [Act.ends_bind, Act.ends_pure, Prod.mk.injEq, reduceCtorEq, and_false, false_and,
      exists_false] at h

/-- A call that fails at once has changed no connection, unless it was to open one. -/
theorem failed_still {e : CallError} (sound : Sound place k)
    (opens : ∀ here opening timeout, event ≠ .openConnection here opening timeout)
    (h : (k.handle event now place).Ends τ (k', answer)) (failed : .fails e place ∈ τ) :
    k'.table.connections = k.table.connections := by
  have distinct := sound.proper.distinct
  cases callee : event.callee? with
  | none =>
    have told : place ∈ answered τ := List.mem_map.mpr ⟨_, failed, rfl⟩
    have made : event.made place = [] := by
      cases event <;> first | rfl | cases callee
    have waits := (handle_balances sound.proper h).subset (List.mem_append_left _ told)
    rw [made, List.append_nil] at waits
    exact absurd (sound.early place waits) (Nat.lt_irrefl place)
  | some here =>
    cases handle_calls distinct callee h with
    | absent _ table _ => exact table
    | @present _ c c' _ _ iss found called table _ =>
      have unmade : ∀ error, .fails e place ∉ c.waiting.map (Signal.fails error) := by
        intro error member
        obtain ⟨call, waits, same⟩ := List.mem_map.mp member
        cases same
        exact sound.unmade (Table.get?_some found).1 waits
      cases called with
      | told | idle => exact table.trans (Table.put_same distinct found)
      | timed | listen | fail | ask => exact absurd rfl (opens _ _ _)
      | send | finish => cases failed
      | receive _ _ delivered =>
        rcases Connection.deliver_ends delivered with ⟨rfl, _⟩ | ⟨_, _, _, rfl, _⟩
        · cases failed
        · cases List.mem_singleton.mp failed
      | quit _ terminated =>
        obtain ⟨rfl, _⟩ := Connection.terminate_ends.mp terminated
        rcases List.mem_append.mp failed with waits | done
        · exact absurd waits (unmade _)
        · cases List.mem_singleton.mp done
      | abort _ terminated =>
        obtain ⟨rfl, _⟩ := Connection.terminate_ends.mp terminated
        exact absurd failed (unmade _)

/-- Failed calls leave no trace. What is refused at once leaves the whole stack as it is, and a call
    other than to open a connection that fails at once leaves all connections as they are. A call that has
    text or a FIN to hand over tries it until the network takes it, and then the connection counts it and
    waits for its acknowledgment; or it has failed as often as the settings allow, for the last reason. -/
theorem failures_leave_no_trace {config : Config} {generator : SeqGenerator}
    {history : List (Event × Instant)}
    (ends : ((Stack.empty config generator).run 0 history).Ends σ k) :
    (∀ {event now τ k' answer}, (k.handle event now history.length).Ends τ (k', answer) →
      (∀ e, answer = .refused e → k' = k) ∧
      ((∀ here opening timeout, event ≠ .openConnection here opening timeout) →
        ∀ e, ⟨history.length, .failed e⟩ ∈ τ → k'.table.connections = k.table.connections)) ∧
    (∀ {here c text} now, k.Sends here c → text ≠ [] → text.length ≤ c.send.window.toNat →
      ∃ s τ k', c.segment (.ofList [.ack, .psh]) c.send.next text = some s ∧
        c.Queues s now history.length (c.sent text now history.length) ∧
        (k.handle (.send here text) now history.length).Ends τ (k', .accepted) ∧
        HandsOver k s (c.sent text now history.length) history.length τ k') ∧
    ∀ {here c after} now, k.table.get? here = some c → Connection.Finishes c.state after →
      ∃ s τ k', c.control [.fin, .ack] = some s ∧
        c.Queues s now history.length (c.finished after now history.length) ∧
        (k.handle (.close here) now history.length).Ends τ (k', .accepted) ∧
        HandsOver k s (c.finished after now history.length) history.length τ k' := by
  have sound : Sound history.length k := by
    have sound := run_sound (sound_empty config generator) ends
    rwa [Nat.zero_add] at sound
  have accepted {act : Act Stack} {τ : List Signal} {k' : Stack} (h : act.Ends τ k') :
      Act.Ends (do return (← act, Answer.accepted)) τ (k', .accepted) :=
    Act.ends_bind.mpr ⟨τ, k', [], h, Act.ends_pure.mpr ⟨rfl, rfl⟩, (List.append_nil τ).symm⟩
  refine ⟨fun {event now τ k' answer} handled => ⟨?_, ?_⟩, ?_, ?_⟩
  · rintro e rfl
    exact refused_still handled
  · exact fun opens e failed => failed_still sound opens handled failed
  · intro here c text now sends filled fits
    have coherent := sound.proper.coherent c (Table.get?_some sends.1).1
    obtain ⟨s, given⟩ := coherent.sends
      (by rcases sends.2 with state | state <;> simp [state])
      (by rcases sends.2 with state | state <;> simp [state])
      (.ofList [.ack, .psh]) c.send.next text
    obtain ⟨τ, k', sent⟩ := k.send_succeeds text
    exact ⟨s, τ, k', given, Connection.sent_queues given, accepted sent,
      send_handsOver sends filled fits given sent⟩
  · intro here c after now found states
    have coherent := sound.proper.coherent c (Table.get?_some found).1
    obtain ⟨s, given⟩ := coherent.sends
      (by rcases states with ⟨state | state, _⟩ | ⟨state, _⟩ <;> simp [state])
      (by rcases states with ⟨state | state, _⟩ | ⟨state, _⟩ <;> simp [state])
      (.ofList [.fin, .ack]) c.send.next []
    obtain ⟨τ, k', finished⟩ := k.finish_succeeds c after
    exact ⟨s, τ, k', given, Connection.finished_queues given after,
      accepted ((close_finish found states).symm ▸ finished), finish_handsOver given finished⟩

def disturbed : List (Event × Instant) :=
  cautious ++ [(.verdicts [some .unreachable, some .exhausted], .start)]

theorem disturbed_no_trace :
    let here : Endpoint := ⟨⟨10, 0, 0, 1⟩, 49152⟩
    ∃ σ k c, ((Stack.empty { receiveWindow := 8, transmitAttempts := 2 } (.ofKey 1 2)).run 0
        disturbed).Ends σ k ∧ k.table.get? here = some c ∧
      (∃ k', (k.handle (.bind here) .start 4).Ends [] (k', .refused .addressInUse) ∧ k' = k) ∧
      (∃ k' answer, (k.handle (.send here [104, 105]) .start 4).Ends
          [⟨4, .failed (.transmit .exhausted)⟩] (k', answer) ∧
        k'.table.connections = k.table.connections) ∧
      (∃ s τ k', HandsOver k s (c.sent [104, 105] .start 4) 4 τ k') ∧
      ∃ s τ k', HandsOver k s (c.finished .finWait1 .start 4) 4 τ k' := by
  intro here
  let start := Stack.empty { receiveWindow := 8, transmitAttempts := 2 } (.ofKey 1 2)
  let k := (start.run 0 disturbed).result start
  let c := (k.table.get? here).getD (.bound here {})
  have ends : (start.run 0 disturbed).Ends _ k := Act.ends_result start (by decide +kernel)
  have found : k.table.get? here = some c := by decide +kernel
  have state : c.state = .established := by decide +kernel
  have filled : ([104, 105] : Octets) ≠ [] := by decide
  have fits : ([104, 105] : Octets).length ≤ c.send.window.toNat := by decide +kernel
  obtain ⟨still, sends, closes⟩ := failures_leave_no_trace ends
  have bound : (k.handle (.bind here) .start 4).Ends [] (k, .refused .addressInUse) := by
    decide +kernel
  obtain ⟨⟨k', answer⟩, failed⟩ : ∃ result, (k.handle (.send here [104, 105]) .start 4).Ends
      [⟨4, .failed (.transmit .exhausted)⟩] result :=
    ⟨_, (by decide +kernel : (k.handle (.send here [104, 105]) .start 4).Ends _
      ((k.handle (.send here [104, 105]) .start 4).result (k, .accepted)))⟩
  have sending : ∀ here' opening timeout,
      Event.send here [104, 105] ≠ .openConnection here' opening timeout := by
    intro _ _ _ same
    cases same
  refine ⟨_, k, c, ends, found, ⟨k, bound, (still bound).1 _ rfl⟩, ?_, ?_, ?_⟩
  · exact ⟨k', answer, failed, (still failed).2 sending _ (List.mem_singleton_self _)⟩
  · obtain ⟨s, τ, k', _, _, _, hands⟩ := sends .start ⟨found, .inl state⟩ filled fits
    exact ⟨s, τ, k', hands⟩
  · obtain ⟨s, τ, k', _, _, _, hands⟩ := closes .start found (.inl ⟨.inr state, rfl⟩)
    exact ⟨s, τ, k', hands⟩

end Stack
end TcpEngine
