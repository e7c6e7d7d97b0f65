import TcpEngine.Proofs.Completion
import TcpEngine.Proofs.Connection.Settling
import TcpEngine.Proofs.Exchange.Invariant

/-!
What is written down of both sides is right. The account of a side tells how far it has heard the
other one, and a segment counts as completed only if the other side has heard all of it.
-/
namespace TcpEngine

open Connection

/- One event at a connection. -/

variable {now : Instant} {call : CallId} {event : Event} {c c' : Connection} {σ : List Signal}
  {ds : List Datagram}

theorem undergoes_balances (coherent : c.Coherent) (h : Undergoes now call event c σ ds c') :
    (answered σ ++ c'.waiting).Perm (c.waiting ++ event.made call) := by
  cases h with
  | kept silent =>
    have uncalled : event.made call = [] := by
      cases event <;> first | rfl | cases silent
    rw [uncalled, List.append_nil]
    exact List.Perm.refl _
  | unclaimed => exact List.Perm.of_eq (List.append_nil c.waiting).symm
  | called _ called => exact called_balances called
  | arrived _ _ _ arrives =>
    have moves := (arrives_handled coherent.fresh arrives).1
    exact (List.append_nil c.waiting).symm ▸ chain_balances move_balances moves
  | timed ends =>
    exact (List.append_nil c.waiting).symm ▸ chain_balances turn_balances (onTimer_turns ends).1

structure Connection.Awaits (c : Connection) (count : CallId) : Prop where
  distinct : c.waiting.Nodup
  before : ∀ call ∈ c.waiting, call < count

theorem Connection.Awaits.undergoes (h : c.Awaits call) (coherent : c.Coherent)
    (undergoes : Undergoes now call event c σ ds c') : c'.Awaits (call + 1) := by
  have balanced := undergoes_balances coherent undergoes
  have made : event.made call = [] ∨ event.made call = [call] := by
    unfold Event.made
    split
    · exact Or.inr rfl
    · exact Or.inl rfl
  have distinct : (c.waiting ++ event.made call).Nodup := by
    rcases made with none | one
    · rw [none, List.append_nil]
      exact h.distinct
    · rw [one]
      refine List.nodup_append.mpr ⟨h.distinct,
        List.nodup_cons.mpr ⟨List.not_mem_nil, List.nodup_nil⟩, fun other waits own member => ?_⟩
      rw [List.mem_singleton.mp member]
      exact Nat.ne_of_lt (h.before other waits)
  refine ⟨(List.nodup_append.mp (balanced.nodup_iff.mpr distinct)).2.1, fun other waits => ?_⟩
  rcases List.mem_append.mp (balanced.subset (List.mem_append_right _ waits)) with waits | own
  · exact Nat.lt_succ_of_lt (h.before other waits)
  · rcases made with none | one
    · rw [none] at own
      cases own
    · rw [one, List.mem_singleton] at own
      exact own ▸ Nat.lt_succ_self call

theorem Connection.Awaits.only (h : c.Awaits call) {e d : Unacked} {done : CallId}
    (member : e ∈ c.queue) (member' : d ∈ c.queue) (waits : e.call = some done)
    (waits' : d.call = some done) : e = d := by
  have distinct : (c.queue.filterMap Unacked.call).Nodup :=
    (List.nodup_append.mp (waiting_eq c ▸ h.distinct)).1
  have pairs := List.pairwise_filterMap.mp distinct
  exact List.Pairwise.forall_of_forall_of_flip
    (R := fun e d => e.call = some done → d.call = some done → e = d) (fun _ _ _ _ => rfl)
    (pairs.imp fun apart waits waits' => absurd rfl (apart done waits done waits'))
    (pairs.imp fun apart waits waits' => absurd rfl (apart done waits' done waits))
    member member' waits waits'

theorem undergoes_settled (coherent : c.Coherent) (h : Undergoes now call event c σ ds c')
    (quiet : event.asks = false) : Settled c c' := by
  have delivered {d d' : Connection} {τ : List Signal} (ends : d.deliver.Ends τ d') :
      d'.receive = d.receive := by
    rcases deliver_ends ends with ⟨_, rfl, _⟩ | ⟨_, _, _, _, rfl⟩ <;> rfl
  cases h with
  | called _ called =>
    cases called with
    | fail => cases quiet
    | ask => cases quiet
    | receive _ _ ends =>
      have same := delivered ends
      exact Or.inr same
    | quit _ ends => exact settled_terminate ends
    | abort _ ends => exact settled_terminate ends
    | _ => exact Or.inr rfl
  | arrived _ _ _ arrives => exact arrives_settled coherent.fresh arrives
  | timed ends =>
    refine Or.inr ((onTimer_turns ends).1.keeps (P := fun d => d.receive = c.receive)
      (fun same turn => ?_) rfl)
    rw [← same]
    cases turn with
    | deliver ends => exact delivered ends
    | terminate ends =>
      obtain ⟨_, rfl⟩ := terminate_ends.mp ends
      rfl
    | _ => rfl
  | _ => exact Or.inr rfl

/- All events of an exchange. -/

structure Account.Tells (account : Account) (st : Stream) (reach : Nat) : Prop where
  initial : account.receive.initial = st.initial
  next : account.receive.next = st.initial.advance reach
  heard : ∃ fin, st.Heard account.text fin ∧ reach = Stream.places account.text fin

theorem Account.Tells.grows {account : Account} {st st' : Stream} {reach : Nat}
    (h : account.Tells st reach) (grows : st.Grows st') : account.Tells st' reach where
  initial := by rw [grows.initial, h.initial]
  next := by rw [grows.initial, h.next]
  heard := by
    obtain ⟨fin, heard, place⟩ := h.heard
    exact ⟨fin, heard.grows grows, place⟩

theorem Connection.Confirmed.follows {mine mine' : Option Stream} {reached reached' : Nat}
    {e : Unacked} (h : Confirmed mine reached e) (follows : Stream.Follows mine mine')
    (forward : reached ≤ reached') : Confirmed mine' reached' e := by
  obtain ⟨st, stop, said, carries, stops, above, under⟩ := h
  obtain ⟨st', said', grows⟩ := follows st said
  exact ⟨st', stop, said', carries.grows grows, by rw [grows.initial, stops], above,
    Nat.le_trans under forward⟩

structure Party.Noted (p : Party) (mine theirs : Option Stream) (reach reached : Nat)
    (count : CallId) (c : Connection) : Prop where
  awaits : c.Awaits count
  account : 0 < reach → ∃ st account, theirs = some st ∧ p.account = some account ∧
    account.Tells st reach
  shown : ∀ account, p.account = some account → p.reopened = false → c.receive = account.receive
  completed : ∀ done ∈ p.completed, ∃ st, mine = some st ∧ done.initial = st.initial ∧
    Confirmed mine reached done.entry

variable {p p' q : Party} {mine theirs mine' theirs' : Option Stream} {reach reached reached' : Nat}
  {count : CallId} {k : Stack}

theorem Party.Noted.follows (h : p.Noted mine theirs reach reached count c)
    (follows : Stream.Follows theirs theirs') (forward : reached ≤ reached') :
    p.Noted mine theirs' reach reached' (count + 1) c where
  awaits := ⟨h.awaits.distinct, fun call waits => Nat.lt_succ_of_lt (h.awaits.before call waits)⟩
  account := by
    intro begun
    obtain ⟨st, account, said, noted, tells⟩ := h.account begun
    obtain ⟨st', said', grows⟩ := follows st said
    exact ⟨st', account, said', noted, tells.grows grows⟩
  shown := h.shown
  completed := by
    intro done member
    obtain ⟨st, said, initial, confirmed⟩ := h.completed done member
    exact ⟨st, said, initial, confirmed.follows (.refl mine) forward⟩

theorem Party.Noted.completes {done : Completion} (h : p.Noted mine theirs reach reached call c)
    (standing : Standing q.here mine theirs reach reached p.received c)
    (evolved : Evolved q.here mine theirs reach reached p.received c call σ ds c' mine')
    (member : done ∈ (c.queue.filter (·.isDone σ)).map (⟨c.send.initial, ·⟩)) :
    ∃ st, mine = some st ∧ done.initial = st.initial ∧ Confirmed mine reached done.entry := by
  obtain ⟨e, there, rfl⟩ := List.mem_map.mp member
  obtain ⟨waits, finished⟩ := List.mem_filter.mp there
  obtain ⟨other, known, told⟩ := (Option.any_eq_true _ _).mp finished
  have asked : other ∈ c.waiting := by
    rw [waiting_eq]
    exact List.mem_append_left _ (List.mem_filterMap.mpr ⟨e, waits, known⟩)
  have busy : ¬ c.Free := by
    intro free
    rw [standing.coherent.unsent free] at waits
    cases waits
  obtain ⟨st, _, said, _, speaking⟩ := standing.speaking busy
  rcases evolved.done other (by simpa using told) with same | ⟨d, waits', known', confirmed⟩
  · exact absurd (h.awaits.before other asked) (same ▸ Nat.lt_irrefl call)
  · obtain rfl := h.awaits.only waits waits' known known'
    exact ⟨st, said, speaking.initial, confirmed⟩

theorem Party.observe_live (live : c'.state.isSynchronized = true) :
    (p.observe event σ k c c').account
        = some ⟨c'.receive, p.received ++ handed σ ++ c'.buffer.toList⟩ ∧
      (p.observe event σ k c c').reopened = false :=
  ⟨if_pos live, if_pos live⟩

theorem Party.observe_dead (dead : c'.state.isSynchronized = false) :
    (p.observe event σ k c c').account = p.account ∧
      (p.observe event σ k c c').reopened = (p.reopened || event.asks) := by
  have never : ¬ c'.state.isSynchronized = true := by
    rw [dead]
    exact Bool.false_ne_true
  exact ⟨if_neg never, if_neg never⟩

theorem Party.Noted.observe (h : p.Noted mine theirs reach reached call c)
    (standing : Standing q.here mine theirs reach reached p.received c)
    (undergoes : Undergoes now call event c σ ds c')
    (evolved : Evolved q.here mine theirs reach reached p.received c call σ ds c' mine') :
    (p.observe event σ k c c').Noted mine' theirs (c'.heardTo (p.received ++ handed σ) reach) reached
      (call + 1) c' where
  awaits := h.awaits.undergoes standing.coherent undergoes
  account := by
    intro begun
    cases live : c'.state.isSynchronized with
    | true =>
      obtain ⟨st, said, receiving, _⟩ := evolved.standing.expects live
      refine ⟨st, _, said, (Party.observe_live live).1, receiving.initial, ?_, _, receiving.heard, ?_⟩
      · rw [heardTo, live]
        exact receiving.next
      · rw [heardTo, live]
        rfl
    | false =>
      rw [heardTo, live] at begun ⊢
      obtain ⟨st, account, said, noted, tells⟩ := h.account begun
      exact ⟨st, account, said, (Party.observe_dead live).1.trans noted, tells⟩
  shown := by
    intro account noted quiet
    cases live : c'.state.isSynchronized with
    | true =>
      rw [(Party.observe_live live).1] at noted
      cases noted
      rfl
    | false =>
      rw [(Party.observe_dead live).1] at noted
      rw [(Party.observe_dead live).2] at quiet
      obtain ⟨before, unasked⟩ := Bool.or_eq_false_iff.mp quiet
      rcases undergoes_settled standing.coherent undergoes unasked with settled | same
      · cases live.symm.trans settled
      · exact same.trans (h.shown account noted before)
  completed := by
    intro done member
    rcases List.mem_append.mp member with before | now
    · obtain ⟨st, said, initial, confirmed⟩ := h.completed done before
      obtain ⟨st', said', grows⟩ := evolved.follows st said
      exact ⟨st', said', initial.trans grows.initial.symm,
        confirmed.follows evolved.follows (Nat.le_refl reached)⟩
    · obtain ⟨st, said, initial, confirmed⟩ := h.completes standing evolved now
      obtain ⟨st', said', grows⟩ := evolved.follows st said
      exact ⟨st', said', initial.trans grows.initial.symm,
        confirmed.follows evolved.follows (Nat.le_refl reached)⟩

namespace Exchange

def Recorded (count : CallId) (p q : Party) : Prop :=
  ∃ mine theirs reach reached c d, Paired p q mine theirs reach reached c d ∧
    p.Noted mine theirs reach reached count c ∧ q.Noted theirs mine reached reach count d

theorem recorded_kept : Kept Recorded where
  swap := by
    rintro _ _ _ ⟨_, _, _, _, _, _, paired, noted, noted'⟩
    exact ⟨_, _, _, _, _, _, paired.swap, noted', noted⟩
  later := by
    rintro _ _ _ ⟨_, _, _, _, _, _, paired, noted, noted'⟩
    exact ⟨_, _, _, _, _, _, paired, noted.follows (.refl _) (Nat.le_refl _),
      noted'.follows (.refl _) (Nat.le_refl _)⟩
  handles := by
    rintro _ _ _ _ _ _ ⟨_, _, _, _, _, _, paired, noted, noted'⟩ allowed handled once small small'
    obtain ⟨_, _, _, _, _, rfl, undergoes, evolved, paired'⟩ :=
      paired.handles allowed handled once small small'
    exact ⟨_, _, _, _, _, _, paired', noted.observe paired.own.standing undergoes evolved,
      noted'.follows evolved.follows evolved.forward⟩

theorem noted_start (here : Endpoint) (config : Config) (generator : SeqGenerator) :
    (Party.start here config generator).Noted none none 0 0 0 (.bound here config) where
  awaits := ⟨List.nodup_nil, fun _ waits => absurd waits List.not_mem_nil⟩
  account := fun some => absurd some (Nat.lt_irrefl 0)
  shown := fun _ noted => by cases noted
  completed := fun _ member => absurd member List.not_mem_nil

end Exchange
end TcpEngine
