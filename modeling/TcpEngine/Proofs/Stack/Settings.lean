import TcpEngine.Proofs.Stack.History

/-!
The settings of a table. They are the same after every event, and so over every history.
-/
namespace TcpEngine

namespace Act

def Always (P : α → Prop) (act : Act α) : Prop := ∀ a, act.outcome = .ok a → P a

variable {P : α → Prop} {Q : β → Prop}

theorem always_pure {a : α} (h : P a) : Always P (pure a) := by
  intro b same
  cases same
  exact h

theorem always_bind {act : Act α} {next : α → Act β} (first : Always P act)
    (later : ∀ a, P a → Always Q (next a)) : Always Q (act >>= next) := by
  intro b same
  cases outcome : act.outcome with
  | error fault =>
    rw [bind_of_fault outcome] at same
    cases same
  | ok a =>
    rw [bind_of_ok outcome] at same
    exact later a (first a outcome) b same

theorem always_after {act : Act α} {next : α → Act β} (later : ∀ a, Always Q (next a)) :
    Always Q (act >>= next) :=
  always_bind (P := fun _ => True) (fun _ _ => trivial) fun a _ => later a

theorem always_lift {outcome : Except Fault α} (h : ∀ a, outcome = .ok a → P a) :
    Always P (liftM outcome : Act α) := h

theorem Always.ends {act : Act α} {σ : List Signal} {a : α} (h : Always P act) (ends : act.Ends σ a) :
    P a := by
  apply h
  rw [ends]

end Act

namespace Stack

def Alike (k k' : Stack) : Prop := k'.table.config = k.table.config

variable {k d : Stack} {here : Endpoint} {now : Instant} {call : CallId}

theorem answer_alike (reply : Reply) (same : k.Alike d) : Act.Always k.Alike (d.answer call reply) :=
  Act.always_after fun _ => Act.always_pure same

theorem transmit_alike {s : Segment} {next : Stack × Except DeliveryError Unit → Act Stack}
    (same : k.Alike d) (later : ∀ tried result, k.Alike tried → Act.Always k.Alike (next (tried, result))) :
    Act.Always k.Alike (liftM (d.transmit s) >>= next) := by
  refine Act.always_bind (P := fun sent => k.Alike sent.1) (Act.always_lift ?_) fun sent alike =>
    later sent.1 sent.2 alike
  rintro ⟨tried, result⟩ sent
  cases result with
  | ok => exact (congrArg Table.config (transmit_ok sent).1).trans same
  | error => exact (congrArg Table.config (transmit_error sent).1).trans same

theorem emitAll_alike {segments : List Segment} (same : k.Alike d) :
    Act.Always k.Alike (liftM (d.emitAll segments)) :=
  Act.always_lift fun _ emitted => (congrArg Table.config (emitAll_ok emitted).1).trans same

theorem openActive_alike {c : Connection} {foreign : Endpoint} {iss : SeqNumber} (same : k.Alike d) :
    Act.Always k.Alike (d.openActive c foreign iss now call) := by
  unfold openActive
  dsimp only
  split
  · exact answer_alike _ same
  · refine transmit_alike same fun tried result alike => ?_
    cases result with
    | ok => exact Act.always_after fun _ => Act.always_pure alike
    | error => exact answer_alike _ alike

theorem openConnection_alike (opening : Opening) (timeout : Option Duration) :
    Act.Always k.Alike (k.openConnection here opening timeout now call) := by
  have drawn (draws : Bool) : k.Alike (if draws then { k with table := k.table.draw } else k) := by
    cases draws <;> rfl
  unfold openConnection
  dsimp only
  split
  · exact answer_alike _ (drawn _)
  · split
    · split
      · exact answer_alike _ (drawn _)
      · exact answer_alike _ (drawn _)
      · exact openActive_alike (drawn _)
    · exact answer_alike _ (drawn _)

theorem refuse_alike (error : CallError) : Act.Always k.Alike (k.refuse call error) :=
  answer_alike _ rfl

theorem send_alike (text : Octets) : Act.Always k.Alike (k.send here text now call) := by
  cases found : k.table.get? here with
  | none =>
    unfold send
    rw [found]
    exact refuse_alike _
  | some c =>
    by_cases live : c.state = .established ∨ c.state = .closeWait
    · rw [send_live found live]
      split
      · exact refuse_alike _
      · split
        · exact answer_alike _ rfl
        · split
          · exact refuse_alike _
          · refine transmit_alike rfl fun tried result alike => ?_
            cases result with
            | ok => exact Act.always_after fun _ => Act.always_pure alike
            | error => exact answer_alike _ alike
    · unfold send
      rw [found]
      dsimp only
      split
      · exact absurd (Or.inl ‹_›) live
      · exact absurd (Or.inr ‹_›) live
      · split <;> exact refuse_alike _
      · exact refuse_alike _
      · exact refuse_alike _

theorem receive_alike (capacity : Nat) : Act.Always k.Alike (k.receive here capacity call) := by
  unfold receive
  split
  · exact refuse_alike _
  · split
    · exact refuse_alike _
    · split
      · exact refuse_alike _
      · split
        · exact refuse_alike _
        · split
          · exact answer_alike _ rfl
          · refine Act.always_after fun served => ?_
            dsimp only
            split
            · exact emitAll_alike rfl
            · exact Act.always_pure rfl

theorem finish_alike {c : Connection} {after : State} :
    Act.Always k.Alike (k.finish c after now call) := by
  unfold finish
  split
  · exact refuse_alike _
  · refine transmit_alike rfl fun tried result alike => ?_
    cases result with
    | ok => exact Act.always_after fun _ => Act.always_pure alike
    | error => exact answer_alike _ alike

theorem close_alike : Act.Always k.Alike (k.close here now call) := by
  unfold close
  split
  · exact refuse_alike _
  · split
    · exact refuse_alike _
    · exact Act.always_after fun _ => answer_alike _ rfl
    · exact Act.always_after fun _ => answer_alike _ rfl
    · exact finish_alike
    · exact finish_alike
    · exact finish_alike
    all_goals exact refuse_alike _

theorem abort_alike : Act.Always (fun result => k.Alike result.1) (k.abort here) := by
  unfold abort
  split
  · exact Act.always_pure rfl
  · split
    · exact Act.always_pure rfl
    · refine Act.always_after fun _ => ?_
      dsimp only
      exact Act.always_bind (emitAll_alike rfl) fun _ alike => Act.always_pure alike

theorem arrives_alike (s : Segment) :
    Act.Always (fun result => result.1.config = k.table.config) (k.table.arrives s now) := by
  unfold Table.arrives
  split
  · exact Act.always_after fun _ => Act.always_pure rfl
  · split
    · refine Act.always_after fun arrival => Act.always_pure ?_
      dsimp only
      split <;> rfl
    · exact Act.always_after fun _ => Act.always_pure rfl

theorem ingress_alike (octets : Octets) (src dst : Address) :
    Act.Always (fun result => k.Alike result.1) (k.ingress octets src dst now) := by
  unfold ingress
  split
  · exact Act.always_pure rfl
  · refine Act.always_after fun read => ?_
    split
    · exact Act.always_pure rfl
    · refine Act.always_bind (arrives_alike _) fun result same => ?_
      exact Act.always_bind (emitAll_alike same) fun _ alike => Act.always_pure alike

theorem sweep_alike : Act.Always k.Alike (k.sweep now) := by
  unfold sweep
  refine Act.always_bind (P := fun result : Table × List Segment => result.1.config = k.table.config)
    ?_ fun result same => emitAll_alike same
  unfold Table.sweep
  exact Act.always_after fun _ => Act.always_pure rfl

theorem handle_alike (event : Event) :
    Act.Always (fun result => k.Alike result.1) (k.handle event now call) := by
  have accepted {act : Act Stack} (h : Act.Always k.Alike act) :
      Act.Always (fun result => k.Alike result.1) (do return (← act, Answer.accepted)) :=
    Act.always_bind h fun _ alike => Act.always_pure alike
  cases event with
  | bind target =>
    refine Act.always_pure ?_
    unfold Stack.bind Table.bind
    split <;> rfl
  | remove target =>
    refine Act.always_pure ?_
    unfold Stack.remove Table.remove
    split
    · rfl
    · split <;> rfl
  | openConnection => exact accepted (openConnection_alike _ _)
  | send => exact accepted (send_alike _)
  | receive => exact accepted (receive_alike _)
  | close => exact accepted close_alike
  | abort => exact Act.always_bind abort_alike fun _ alike => Act.always_pure alike
  | ingress => exact Act.always_bind (ingress_alike _ _ _) fun _ alike => Act.always_pure alike
  | sweep => exact accepted sweep_alike
  | verdicts => exact Act.always_pure rfl

variable {k' : Stack} {place : Nat} {history : List (Event × Instant)} {σ : List Signal}

theorem run_alike (ends : (k.run place history).Ends σ k') : k.Alike k' := by
  induction history generalizing k place σ with
  | nil =>
    obtain ⟨_, rfl⟩ := Act.ends_pure.mp ends
    rfl
  | cons head rest ih =>
    obtain ⟨event, now⟩ := head
    obtain ⟨_, _, _, _, first, later, _⟩ := run_cons_ends.mp ends
    exact (ih later).trans ((handle_alike event).ends first)

end Stack
end TcpEngine
