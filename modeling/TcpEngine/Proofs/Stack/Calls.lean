import TcpEngine.Event
import TcpEngine.Proofs.Connection.Parts
import TcpEngine.Proofs.Stack.Posting
import TcpEngine.Proofs.Table

/-!
What a call does to a stack: it changes at most the connection that it is made at, in one of a few
ways, and hands at most one datagram to the network.
-/
namespace TcpEngine

def Event.callee? : Event → Option Endpoint
  | .openConnection here .. | .send here _ | .receive here _ | .close here | .abort here => some here
  | _ => none

def Event.text : Event → Octets
  | .send _ text => text
  | _ => []

namespace Connection

def starting (c : Connection) (foreign : Endpoint) (iss : SeqNumber) (userTimeout : Duration) :
    Connection :=
  { c with
    userTimeout
    foreign := some foreign
    send := { unacked := iss, next := iss, urgent := iss, initial := iss }
    receive := {} }

def asked (c : Connection) (iss : SeqNumber) (now : Instant) (call : CallId) : Connection :=
  { c with
    state := .synSent
    send := { c.send with next := iss.advance 1 }
    queue := c.queue ++ [⟨iss, .ofList [.syn], [], now, now, 0, some call⟩] }

def sent (c : Connection) (text : Octets) (now : Instant) (call : CallId) : Connection :=
  { c with
    send := { c.send with next := c.send.next.advance text.length }
    queue := c.queue ++ [⟨c.send.next, .ofList [.ack, .psh], text, now, now, 0, some call⟩] }

def finished (c : Connection) (after : State) (now : Instant) (call : CallId) : Connection :=
  { c with
    state := after
    send := { c.send with fin := some c.send.next, next := c.send.next.advance 1 }
    queue := c.queue ++ [⟨c.send.next, .ofList [.fin, .ack], [], now, now, 0, some call⟩] }

def Finishes (before after : State) : Prop :=
  (before = .synReceived ∨ before = .established) ∧ after = .finWait1 ∨
    before = .closeWait ∧ after = .lastAck

end Connection

/-- What a call does to the connection that it is made at, what it signals, and what it hands to the
    network. A new incarnation starts from `iss`. -/
inductive Called (iss : SeqNumber) (now : Instant) (call : CallId) :
    Event → Connection → List Signal → List Datagram → Connection → Prop where
  | told {event : Event} {c : Connection} (asks : event.isCall = true) (reply : Reply)
      (plain : ∀ octets, reply = .received octets → octets = []) :
      Called iss now call event c [⟨call, reply⟩] [] c
  | timed {here : Endpoint} {opening : Opening} {timeout : Option Duration} {c : Connection}
      (userTimeout : Duration) (error : CallError) :
      Called iss now call (.openConnection here opening timeout) c [.fails error call] []
        { c with userTimeout }
  | listen {here : Endpoint} {foreign : Option Endpoint} {timeout : Option Duration}
      {c : Connection} (free : c.state = .closed ∨ c.state = .listen) (userTimeout : Duration) :
      Called iss now call (.openConnection here (.passive foreign) timeout) c [.tellsDone call] []
        { c with userTimeout, foreign, state := .listen }
  | fail {here foreign : Endpoint} {timeout : Option Duration} {c : Connection}
      (free : c.state = .closed ∨ c.state = .listen) (userTimeout : Duration) (error : CallError) :
      Called iss now call (.openConnection here (.active (some foreign)) timeout) c
        [.fails error call] [] { c.starting foreign iss userTimeout with foreign := c.foreign }
  | ask {here foreign : Endpoint} {timeout : Option Duration} {c : Connection} {d : Datagram}
      (free : c.state = .closed ∨ c.state = .listen) (userTimeout : Duration)
      (holds : Holds d ((c.starting foreign iss userTimeout).control [.syn])) :
      Called iss now call (.openConnection here (.active (some foreign)) timeout) c [] [d]
        ((c.starting foreign iss userTimeout).asked iss now call)
  | send {here : Endpoint} {text : Octets} {c : Connection} {d : Datagram}
      (live : c.state = .established ∨ c.state = .closeWait) (filled : text ≠ [])
      (fits : text.length ≤ c.send.window.toNat)
      (holds : Holds d (c.segment (.ofList [.ack, .psh]) c.send.next text)) :
      Called iss now call (.send here text) c [] [d] (c.sent text now call)
  | receive {here : Endpoint} {capacity : Nat} {c c' : Connection} {σ : List Signal}
      {ds : List Datagram} (idle : c.reception = none) (live : c.state ≠ .closed)
      (h : (Connection.deliver { c with reception := some ⟨capacity, call⟩ }).Ends σ c')
      (holds : ∀ d ∈ ds, c'.state.isSynchronized = true ∧ Holds d (c'.control [.ack]))
      (due : ¬ (c.state = .closing ∨ c.state = .lastAck ∨ c.state = .timeWait ∨
        c.state = .closeWait ∧ c.buffer.length = 0)) :
      Called iss now call (.receive here capacity) c σ ds c'
  | quit {here : Endpoint} {c c' : Connection} {σ : List Signal}
      (early : c.state = .listen ∨ c.state = .synSent)
      (h : (c.terminate .connectionClosing).Ends σ c') :
      Called iss now call (.close here) c (σ ++ [.tellsDone call]) [] c'
  | finish {here : Endpoint} {c : Connection} {after : State} {d : Datagram}
      (states : Connection.Finishes c.state after) (holds : Holds d (c.control [.fin, .ack])) :
      Called iss now call (.close here) c [] [d] (c.finished after now call)
  | idle {here : Endpoint} {c : Connection} : Called iss now call (.abort here) c [] [] c
  | abort {here : Endpoint} {c c' : Connection} {σ : List Signal} {ds : List Datagram}
      (live : c.state ≠ .closed) (h : (c.terminate .connectionReset).Ends σ c')
      (holds : ∀ d ∈ ds, Holds d (c.control [.rst])) :
      Called iss now call (.abort here) c σ ds c'

namespace Stack

inductive Calls (k : Stack) (now : Instant) (call : CallId) (event : Event) (here : Endpoint) :
    List Signal → Stack → Prop where
  | absent {k' : Stack} (missing : k.table.get? here = none)
      (table : k'.table.connections = k.table.connections) (log : k'.log = k.log) :
      Calls k now call event here
        (if event.isCall then [.fails .connectionDoesNotExist call] else []) k'
  | present {k' : Stack} {c c' : Connection} {σ : List Signal} {ds : List Datagram}
      (iss : SeqNumber) (found : k.table.get? here = some c)
      (called : Called iss now call event c σ ds c')
      (table : k'.table.connections = (k.table.put c').connections) (log : k'.log = k.log ++ ds) :
      Calls k now call event here σ k'

variable {k k' : Stack} {here : Endpoint} {now : Instant} {call : CallId} {σ : List Signal}

theorem answer_ends {reply : Reply} :
    (k.answer call reply).Ends σ k' ↔ σ = [⟨call, reply⟩] ∧ k' = k := by
  change (⟨[⟨call, reply⟩], .ok k⟩ : Act Stack) = ⟨σ, .ok k'⟩ ↔ _
  rw [Act.mk.injEq, Except.ok.injEq, eq_comm, @eq_comm _ k]

theorem refuse_ends {error : CallError} :
    (k.refuse call error).Ends σ k' ↔ σ = [Signal.fails error call] ∧ k' = k :=
  answer_ends

theorem calls_told {event : Event} {c : Connection} {reply : Reply} (distinct : k.table.Distinct)
    (found : k.table.get? here = some c) (asks : event.isCall = true)
    (plain : ∀ octets, reply = .received octets → octets = [])
    (table : k'.table.connections = k.table.connections) (log : k'.log = k.log) :
    Calls k now call event here [⟨call, reply⟩] k' := by
  refine .present ⟨0⟩ found (.told asks reply plain) ?_ ?_
  · rw [table, Table.put_same distinct found]
  · rw [log, List.append_nil]

theorem calls_refused {event : Event} {c : Connection} {error : CallError}
    (distinct : k.table.Distinct) (found : k.table.get? here = some c)
    (asks : event.isCall = true) (h : (k.refuse call error).Ends σ k') :
    Calls k now call event here σ k' := by
  obtain ⟨rfl, rfl⟩ := refuse_ends.mp h
  exact calls_told distinct found asks (fun _ same => by cases same) rfl rfl

theorem openActive_calls {c : Connection} {foreign : Endpoint} {iss : SeqNumber}
    {timeout : Option Duration} {userTimeout : Duration} {drawn : Stack}
    (free : c.state = .closed ∨ c.state = .listen) (found : k.table.get? here = some c)
    (table : drawn.table.connections = k.table.connections) (log : drawn.log = k.log)
    (h : (drawn.openActive { c with userTimeout } foreign iss now call).Ends σ k') :
    Calls k now call (.openConnection here (.active (some foreign)) timeout) here σ k' := by
  have replaced (d : Connection) : (drawn.table.put d).connections
      = (k.table.put d).connections := by
    simp only [Table.put, table]
  unfold openActive at h
  dsimp only at h
  split at h
  · rename_i missing
    cases missing
  · rename_i syn given
    have entry : syn.header.seq = iss ∧ syn.header.flags = .ofList [.syn] ∧ syn.text = [] := by
      cases given
      exact ⟨rfl, rfl, rfl⟩
    rcases transmit_ends h with ⟨tried, d, same, posted, grown, h⟩ | ⟨tried, e, same, kept, h⟩
    · dsimp only at h
      rw [Act.ends_bind] at h
      obtain ⟨_, next, _, added, h, rfl⟩ := h
      obtain ⟨rfl, sum⟩ := Act.ends_lift.mp added
      obtain ⟨_, rfl⟩ := SeqNumber.add_ok.mp sum
      obtain ⟨rfl, rfl⟩ := Act.ends_pure.mp h
      refine .present iss found (.ask free userTimeout ⟨syn, given, posted⟩) ?_ ?_
      · simp only [put, same, replaced, Connection.enqueue, entry, Connection.asked,
          Connection.starting]
      · rw [← log]
        exact grown
    · obtain ⟨rfl, rfl⟩ := refuse_ends.mp h
      refine .present iss found (.fail free userTimeout (.transmit e)) ?_ ?_
      · simp only [put, same, replaced, Connection.starting]
      · rw [List.append_nil, ← log]
        exact kept

theorem openConnection_calls {opening : Opening} {timeout : Option Duration}
    (distinct : k.table.Distinct)
    (h : (k.openConnection here opening timeout now call).Ends σ k') :
    Calls k now call (.openConnection here opening timeout) here σ k' := by
  unfold openConnection at h
  dsimp only at h
  have table (draws : Bool) : (if draws then { k with table := k.table.draw } else k).table.connections
      = k.table.connections := by cases draws <;> rfl
  have log (draws : Bool) : (if draws then { k with table := k.table.draw } else k).log = k.log := by
    cases draws <;> rfl
  split at h
  · rename_i missing
    obtain ⟨rfl, rfl⟩ := refuse_ends.mp h
    exact .absent missing (table _) (log _)
  · rename_i c found
    split at h
    · rename_i free
      split at h
      · rename_i foreign
        obtain ⟨rfl, rfl⟩ := answer_ends.mp h
        refine .present ⟨0⟩ found (.listen free (timeout.getD k.table.config.userTimeout)) ?_ ?_
        · simp only [put, Table.put, table]
        · rw [List.append_nil]
          exact log _
      · obtain ⟨rfl, rfl⟩ := refuse_ends.mp h
        refine .present ⟨0⟩ found (.timed (timeout.getD k.table.config.userTimeout) _) ?_ ?_
        · simp only [put, Table.put, table]
        · rw [List.append_nil]
          exact log _
      · exact openActive_calls free found (table _) (log _) h
    · obtain ⟨rfl, rfl⟩ := refuse_ends.mp h
      exact calls_told distinct found rfl (fun _ same => by cases same) (table _) (log _)

theorem send_live {c : Connection} {text : Octets} (found : k.table.get? here = some c)
    (live : c.state = .established ∨ c.state = .closeWait) :
    k.send here text now call =
      (if c.send.window.toNat < text.length then k.refuse call .insufficientResources
      else if text.isEmpty then k.answer call .done
      else match c.segment (.ofList [.ack, .psh]) c.send.next text with
        | none => k.refuse call .connectionDoesNotExist
        | some s => do
          match ← k.transmit s with
          | (k, .ok ()) =>
            let next ← c.send.next.add text.length
            let sent : Connection := { c with send := { c.send with next } }
            return k.put (sent.enqueue s call now)
          | (k, .error e) => k.refuse call (.transmit e)) := by
  unfold send
  rw [found]
  dsimp only
  split
  · rfl
  · rfl
  -- The call is not taken in any other state.
  all_goals simp_all

theorem send_calls {text : Octets} (distinct : k.table.Distinct)
    (h : (k.send here text now call).Ends σ k') : Calls k now call (.send here text) here σ k' := by
  cases found : k.table.get? here with
  | none =>
    unfold send at h
    rw [found] at h
    obtain ⟨rfl, rfl⟩ := refuse_ends.mp h
    exact .absent found rfl rfl
  | some c =>
    by_cases live : c.state = .established ∨ c.state = .closeWait
    · rw [send_live found live] at h
      split at h
      · exact calls_refused distinct found rfl h
      · rename_i fits
        split at h
        · obtain ⟨rfl, rfl⟩ := answer_ends.mp h
          exact calls_told distinct found rfl (fun _ same => by cases same) rfl rfl
        · rename_i filled
          split at h
          · exact calls_refused distinct found rfl h
          · rename_i s given
            rcases transmit_ends h with ⟨tried, d, same, posted, grown, h⟩ | ⟨tried, e, same, kept, h⟩
            · dsimp only at h
              rw [Act.ends_bind] at h
              obtain ⟨_, next, _, added, h, rfl⟩ := h
              obtain ⟨rfl, sum⟩ := Act.ends_lift.mp added
              obtain ⟨_, rfl⟩ := SeqNumber.add_ok.mp sum
              obtain ⟨rfl, rfl⟩ := Act.ends_pure.mp h
              have entry : s.header.seq = c.send.next ∧ s.header.flags = .ofList [.ack, .psh]
                  ∧ s.text = text := by
                obtain ⟨foreign, _, rfl⟩ := Option.map_eq_some_iff.mp given
                exact ⟨rfl, rfl, rfl⟩
              refine .present ⟨0⟩ found
                (.send live (by simpa using filled) (Nat.not_lt.mp fits) ⟨s, given, posted⟩) ?_ grown
              simp only [put, same, Connection.enqueue, entry, Connection.sent]
            · obtain ⟨rfl, rfl⟩ := refuse_ends.mp h
              exact calls_told distinct found rfl (fun _ same => by cases same)
                (congrArg _ same) kept
    · unfold send at h
      rw [found] at h
      dsimp only at h
      split at h
      · exact absurd (Or.inl ‹_›) live
      · exact absurd (Or.inr ‹_›) live
      · split at h
        · exact calls_refused distinct found rfl h
        · exact calls_refused distinct found rfl h
      · exact calls_refused distinct found rfl h
      · exact calls_refused distinct found rfl h

theorem receive_calls {capacity : Nat} (distinct : k.table.Distinct)
    (h : (k.receive here capacity call).Ends σ k') :
    Calls k now call (.receive here capacity) here σ k' := by
  unfold receive at h
  split at h
  · rename_i missing
    obtain ⟨rfl, rfl⟩ := refuse_ends.mp h
    exact .absent missing rfl rfl
  · rename_i c found
    split at h
    · exact calls_refused distinct found rfl h
    · rename_i idle
      split at h
      · exact calls_refused distinct found rfl h
      · rename_i live
        split at h
        · exact calls_refused distinct found rfl h
        · rename_i due
          split at h
          · obtain ⟨rfl, rfl⟩ := answer_ends.mp h
            refine calls_told distinct found rfl ?_ rfl rfl
            intro octets same
            cases same
            rfl
          · rw [Act.ends_bind] at h
            obtain ⟨σ₁, served, σ₂, ends, h, rfl⟩ := h
            have idle : c.reception = none := by simpa using idle
            split at h
            · rename_i opens
              obtain ⟨rfl, emitted⟩ := Act.ends_lift.mp h
              obtain ⟨table, ds, log, held⟩ := emitAll_optional emitted
              rw [List.append_nil]
              refine .present ⟨0⟩ found
                (.receive idle live ends (fun d member => ⟨opens.2.2, held d member⟩) due) ?_ log
              rw [table]
              rfl
            · obtain ⟨rfl, rfl⟩ := Act.ends_pure.mp h
              rw [List.append_nil]
              exact .present ⟨0⟩ found
                (.receive idle live ends (fun _ member => absurd member List.not_mem_nil) due) rfl
                (List.append_nil _).symm

theorem finish_calls {c : Connection} {after : State} (distinct : k.table.Distinct)
    (found : k.table.get? here = some c) (states : Connection.Finishes c.state after)
    (h : (k.finish c after now call).Ends σ k') : Calls k now call (.close here) here σ k' := by
  unfold finish at h
  split at h
  · exact calls_refused distinct found rfl h
  · rename_i fin given
    have entry : fin.header.seq = c.send.next ∧ fin.header.flags = .ofList [.fin, .ack]
        ∧ fin.text = [] := by
      obtain ⟨foreign, _, rfl⟩ := Option.map_eq_some_iff.mp given
      exact ⟨rfl, rfl, rfl⟩
    rcases transmit_ends h with ⟨tried, d, same, posted, grown, h⟩ | ⟨tried, e, same, kept, h⟩
    · dsimp only at h
      rw [Act.ends_bind] at h
      obtain ⟨_, next, _, added, h, rfl⟩ := h
      obtain ⟨rfl, sum⟩ := Act.ends_lift.mp added
      obtain ⟨_, rfl⟩ := SeqNumber.add_ok.mp sum
      obtain ⟨rfl, rfl⟩ := Act.ends_pure.mp h
      refine .present ⟨0⟩ found (.finish states ⟨fin, given, posted⟩) ?_ grown
      simp only [put, same, Connection.enqueue, entry, Connection.finished]
    · obtain ⟨rfl, rfl⟩ := refuse_ends.mp h
      exact calls_told distinct found rfl (fun _ same => by cases same) (congrArg _ same) kept

theorem quit_calls {c : Connection} (found : k.table.get? here = some c)
    (early : c.state = .listen ∨ c.state = .synSent)
    (h : Act.Ends (do (k.put (← c.terminate .connectionClosing)).answer call .done) σ k') :
    Calls k now call (.close here) here σ k' := by
  rw [Act.ends_bind] at h
  obtain ⟨σ₁, c', σ₂, ends, h, rfl⟩ := h
  obtain ⟨rfl, rfl⟩ := answer_ends.mp h
  exact .present ⟨0⟩ found (.quit early ends) rfl (List.append_nil _).symm

theorem close_calls (distinct : k.table.Distinct) (h : (k.close here now call).Ends σ k') :
    Calls k now call (.close here) here σ k' := by
  unfold close at h
  split at h
  · rename_i missing
    obtain ⟨rfl, rfl⟩ := refuse_ends.mp h
    exact .absent missing rfl rfl
  · rename_i c found
    split at h
    · exact calls_refused distinct found rfl h
    · exact quit_calls found (Or.inl ‹_›) h
    · exact quit_calls found (Or.inr ‹_›) h
    · exact finish_calls distinct found (Or.inl ⟨Or.inl ‹_›, rfl⟩) h
    · exact finish_calls distinct found (Or.inl ⟨Or.inr ‹_›, rfl⟩) h
    · exact finish_calls distinct found (Or.inr ⟨‹_›, rfl⟩) h
    all_goals exact calls_refused distinct found rfl h

theorem abort_calls {result : Except CallError Unit} (distinct : k.table.Distinct)
    (h : (k.abort here).Ends σ (k', result)) : Calls k now call (.abort here) here σ k' := by
  unfold abort at h
  split at h
  · rename_i missing
    obtain ⟨rfl, same⟩ := Act.ends_pure.mp h
    obtain ⟨rfl, _⟩ := Prod.mk.inj same
    exact .absent missing rfl rfl
  · rename_i c found
    split at h
    · obtain ⟨rfl, same⟩ := Act.ends_pure.mp h
      obtain ⟨rfl, _⟩ := Prod.mk.inj same
      exact .present ⟨0⟩ found .idle (Table.put_same distinct found).symm
        (List.append_nil _).symm
    · rename_i live
      simp only [Act.ends_bind, Act.ends_lift, Act.ends_pure, Prod.mk.injEq] at h
      obtain ⟨σ₁, c', _, ends, ⟨_, after, _, ⟨rfl, emitted⟩, ⟨rfl, rfl, rfl⟩, rfl⟩, rfl⟩ := h
      obtain ⟨table, ds, log, held⟩ := emitAll_optional emitted
      rw [List.append_nil, List.append_nil]
      refine .present ⟨0⟩ found (.abort live ends held) ?_ log
      rw [table]
      rfl

theorem handle_calls {event : Event} {answer : Answer} (distinct : k.table.Distinct)
    (callee : event.callee? = some here)
    (h : (k.handle event now call).Ends σ (k', answer)) : Calls k now call event here σ k' := by
  have told {act : Act Stack} (h : Act.Ends (do return (← act, Answer.accepted)) σ (k', answer)) :
      act.Ends σ k' := by
    simp only [Act.ends_bind, Act.ends_pure, Prod.mk.injEq] at h
    obtain ⟨σ₁, _, _, ends, ⟨rfl, rfl, _⟩, rfl⟩ := h
    rw [List.append_nil]
    exact ends
  unfold handle at h
  cases event with
  | openConnection here' opening timeout =>
    cases callee
    exact openConnection_calls distinct (told h)
  | send here' text =>
    cases callee
    exact send_calls distinct (told h)
  | receive here' capacity =>
    cases callee
    exact receive_calls distinct (told h)
  | close here' =>
    cases callee
    exact close_calls distinct (told h)
  | abort here' =>
    cases callee
    simp only [Act.ends_bind, Act.ends_pure, Prod.mk.injEq] at h
    obtain ⟨σ₁, ⟨_, _⟩, _, ends, ⟨rfl, rfl, _⟩, rfl⟩ := h
    rw [List.append_nil]
    exact abort_calls distinct ends
  | _ => cases callee

end Stack
end TcpEngine
