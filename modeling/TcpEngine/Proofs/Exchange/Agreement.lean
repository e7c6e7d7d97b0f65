import TcpEngine.Proofs.Exchange.Records

/-!
Both sides of an exchange agree. A call that is done was heard by the other side in full, and while
both sides are synchronized, each expects what the other one has sent or is about to send.
-/
namespace TcpEngine

open Connection

/-- An account covers a segment of a side that has sent `sent`: RCV.NXT stands at its end or behind
    it, its text was taken in at its place, and before its FIN all text was. -/
structure Account.Covers (account : Account) (sent : Octets) (done : Completion) : Prop where
  initial : account.receive.initial = done.initial
  stops : ∃ stop, done.entry.stop = .ok stop ∧
    stop.ahead done.initial ≤ account.receive.next.ahead done.initial
  heard : account.text <+: sent
  text : done.entry.text ≠ [] → ∃ place, done.entry.seq = done.initial.advance (1 + place) ∧
    done.entry.text <+: account.text.drop place
  fin : done.entry.flags.has .fin = true → account.text = sent

/-- The peer of a side has an account of a segment, and shows it unless an active opening was tried
    since. -/
def Completion.HeardBy (done : Completion) (own other : Party) (d : Connection) : Prop :=
  ∃ account, other.account = some account ∧ account.Covers own.sent done ∧
    (other.reopened = false → d.receive = account.receive)

/-- A side agrees with the other one: it names it, it knows its initial number, and the other one
    expects a number between SND.UNA and SND.NXT. -/
structure Connection.Agrees (own other : Connection) : Prop where
  foreign : own.foreign = some other.here
  initial : own.receive.initial = other.send.initial
  between : own.send.unacked.atOrBefore other.receive.next = true ∧
    other.receive.next.atOrBefore own.send.next = true
  /-- It is so counted from the initial number, and not only within half the circle. -/
  places : own.send.unacked.ahead own.send.initial ≤ other.receive.next.ahead own.send.initial ∧
    other.receive.next.ahead own.send.initial ≤ own.send.next.ahead own.send.initial

variable {p q : Party} {mine theirs : Option Stream} {reach reached : Nat} {count : CallId}
  {c d : Connection} {st : Stream} {account : Account} {done : Completion}

theorem covers_of_confirmed (tells : account.Tells st reached) (initial : done.initial = st.initial)
    (confirmed : Confirmed (some st) reached done.entry)
    (small : st.length < SeqNumber.halfCircle) : account.Covers st.text done := by
  obtain ⟨_, stop, same, carries, stops, _, under⟩ := confirmed
  cases same
  obtain ⟨fin, heard, place⟩ := tells.heard
  have within : reached ≤ st.length := place ▸ heard.le_length
  have far := (Unacked.stop_ok.mp stops).2
  have count : done.entry.flags.sequenceLength ≤ 2 := by
    have syn := Bool.toNat_le (done.entry.flags.has .syn)
    have fin := Bool.toNat_le (done.entry.flags.has .fin)
    unfold Flags.sequenceLength
    omega
  have long : st.text.length < st.length := by
    unfold Stream.length Stream.places
    omega
  simp only [SeqNumber.halfCircle] at small
  refine ⟨tells.initial.trans initial.symm, ⟨_, stops, ?_⟩, heard.text, fun filled => ?_, fun raised => ?_⟩
  · rw [initial, tells.next, SeqNumber.ahead_advance (by omega), SeqNumber.ahead_advance (by omega)]
    exact under
  · obtain ⟨start, here, part⟩ := carries.speaks filled
    refine ⟨start, initial ▸ here, ?_⟩
    have fits := part.length_le
    have some := List.length_pos_iff.mpr filled
    rw [List.length_drop] at fits
    rw [here, SeqNumber.advance_advance, SeqNumber.advance_eq_iff (by omega) (by omega)] at far
    have enough : start + done.entry.text.length ≤ account.text.length := by
      cases fin with
      | true =>
        rw [(heard.whole rfl).2]
        omega
      | false =>
        simp only [Stream.places, Bool.toNat_false] at place
        omega
    refine List.prefix_of_prefix_length_le part (List.IsPrefix.drop heard.text start) ?_
    rw [List.length_drop]
    omega
  · obtain ⟨_, here⟩ := carries.ends raised
    have one : 1 ≤ done.entry.flags.sequenceLength := by
      unfold Flags.sequenceLength
      rw [raised]
      exact Nat.le_add_left 1 _
    rw [← SeqNumber.advance_advance, here, SeqNumber.advance_advance,
      SeqNumber.advance_eq_iff (by omega) (by omega)] at far
    cases fin with
    | true => exact (heard.whole rfl).2
    | false =>
      have short := heard.text.length_le
      simp only [Stream.places, Bool.toNat_false] at place
      omega

theorem Paired.heard (paired : Paired p q mine theirs reach reached c d)
    (noted : p.Noted mine theirs reach reached count c)
    (noted' : q.Noted theirs mine reached reach count d) (small : p.sent.length < shortText)
    (member : done ∈ p.completed) : done.HeardBy p q d := by
  obtain ⟨st, rfl, initial, confirmed⟩ := noted.completed done member
  have ⟨_, _, _, _, _, above, under⟩ := confirmed
  obtain ⟨_, account, same, known, tells⟩ := noted'.account (Nat.lt_of_lt_of_le above under)
  cases same
  have said : p.sent = st.text := paired.own.said
  refine ⟨account, known, ?_, noted'.shown account known⟩
  rw [said] at small ⊢
  exact covers_of_confirmed tells initial confirmed (Stream.length_lt_of_short small)

theorem Paired.agrees (paired : Paired p q mine theirs reach reached c d)
    (small : p.sent.length < shortText) (live : c.state.isSynchronized = true)
    (live' : d.state.isSynchronized = true) : c.Agrees d := by
  have own := paired.own.standing
  have other := paired.other.standing
  obtain ⟨st, unacked, said, known, speaking⟩ := own.speaking (not_free_of_live live)
  obtain ⟨st', _, said', _, speaking'⟩ := other.speaking (not_free_of_live live')
  obtain ⟨_, there, receiving, _⟩ := own.expects live
  cases said'.symm.trans there
  obtain ⟨_, here, _, next⟩ := other.expects live'
  cases said.symm.trans here
  have bound := other.bound st (Or.inr said)
  have short : st.length < SeqNumber.halfCircle := by
    apply Stream.length_lt_of_short
    rw [paired.own.said, said] at small
    exact small
  simp only [SeqNumber.halfCircle] at short
  have near {m n : Nat} (low : m < 0x80000000) (low' : n < 0x80000000) : SeqNumber.Near m n :=
    ⟨Nat.lt_add_left n low, Nat.lt_add_left m low'⟩
  refine ⟨?_, receiving.initial.trans speaking'.initial.symm, ?_, ?_⟩
  · obtain ⟨foreign, known⟩ := Option.isSome_iff_exists.mp (own.coherent.peer live)
    rw [known, own.towards foreign known, paired.other.place]
  · rw [speaking.window.start, speaking.window.stop, next]
    exact ⟨(SeqNumber.atOrBefore_advance (near (by omega) (by omega))).mpr known,
      (SeqNumber.atOrBefore_advance (near (by omega) (by omega))).mpr bound⟩
  · rw [speaking.initial, speaking.window.start, speaking.window.stop, next,
      SeqNumber.ahead_advance (by omega), SeqNumber.ahead_advance (by omega),
      SeqNumber.ahead_advance (by omega)]
    exact ⟨known, bound⟩

theorem Party.Stands.connection (h : p.Stands q.here mine theirs reach reached c) :
    p.connection? = some c := by
  unfold Party.connection?
  rw [← h.place]
  exact Stack.get?_single h.one

namespace Exchange

/-- In every exchange of two sides, all calls that are done were heard by the other side, and the
    sides agree while both are synchronized. -/
theorem completed_heard_and_sides_agree {here there : Endpoint} {config config' : Config}
    {generator generator' : SeqGenerator} {deeds : List Deed} {x : Exchange} (apart : here ≠ there)
    (runs : (start here there config config' generator generator').run deeds = .ok x)
    (modest : x.Modest) :
    ∃ c d, x.near.connection? = some c ∧ x.far.connection? = some d ∧
      (∀ done ∈ x.near.completed, done.HeardBy x.near x.far d) ∧
      (∀ done ∈ x.far.completed, done.HeardBy x.far x.near c) ∧
      (c.state.isSynchronized = true → d.state.isSynchronized = true → c.Agrees d ∧ d.Agrees c) := by
  have begun : Recorded 0 (start here there config config' generator generator').near
      (start here there config config' generator generator').far :=
    ⟨_, _, _, _, _, _, paired_start apart config config' generator generator',
      noted_start here config generator, noted_start there config' generator'⟩
  obtain ⟨_, _, _, _, c, d, paired, noted, noted'⟩ := recorded_kept.run begun runs modest
  have near := modest.short .near
  have far := modest.short .far
  refine ⟨c, d, paired.own.connection, paired.other.connection, fun done member => ?_,
    fun done member => ?_, fun live live' => ⟨?_, ?_⟩⟩
  · exact paired.heard noted noted' near member
  · exact paired.swap.heard noted' noted far member
  · exact paired.agrees near live live'
  · exact paired.swap.agrees far live' live

def farewell : List Deed :=
  handshake ++
    [⟨.near, .send [104, 105], .start⟩,
     ⟨.near, .close, .start⟩,
     ⟨.far, .deliver .near 2, .start⟩,
     ⟨.far, .deliver .near 3, .start⟩,
     ⟨.near, .deliver .far 2, .start⟩]

theorem farewell_heard : ∃ x d, clientServer.run farewell = .ok x ∧
    x.near.completed.map (·.entry.text) = [[], [104, 105], []] ∧
      ∀ done ∈ x.near.completed, done.HeardBy x.near x.far d := by
  have seen : (clientServer.run farewell).map
      (fun x => (x.near.completed.map (·.entry.text), decide x.Modest))
        = .ok ([[], [104, 105], []], true) := by decide +kernel
  obtain ⟨x, runs, same⟩ := except_map_ok.mp seen
  obtain ⟨completed, modest⟩ := Prod.mk.inj same
  obtain ⟨_, d, _, _, heard, _⟩ :=
    completed_heard_and_sides_agree (by decide) runs (of_decide_eq_true modest.symm)
  exact ⟨x, d, runs, completed.symm, heard⟩

/-- The far side has heard the text, resets the connection, and fails to open it again. The
    acknowledgment of the text arrives behind that. -/
def forgetting : List Deed :=
  handshake ++
    [⟨.near, .send [104, 105], .start⟩,
     ⟨.far, .deliver .near 2, .start⟩,
     ⟨.far, .abort, .start⟩,
     ⟨.far, .verdicts [some .unresolved, some .unresolved, some .unresolved], .start⟩,
     ⟨.far, .openConnection true true none, .start⟩,
     ⟨.near, .deliver .far 1, .start⟩]

/-- The call of the text is done, and the far side has forgotten the initial number of the near one. -/
theorem forgetting_forgets : ∃ x, clientServer.run forgetting = .ok x ∧ x.Modest ∧
    ∃ done ∈ x.near.completed, done.entry.text = [104, 105] ∧
      ∃ d, x.far.connection? = some d ∧ d.receive.initial ≠ done.initial := by
  have seen : (clientServer.run forgetting).map (fun x => decide (x.Modest ∧
      ∃ done ∈ x.near.completed, done.entry.text = [104, 105] ∧
        x.far.connection?.any (fun d => d.receive.initial ≠ done.initial) = true))
          = .ok true := by decide +kernel
  obtain ⟨x, runs, same⟩ := except_map_ok.mp seen
  obtain ⟨modest, done, member, text, differs⟩ := of_decide_eq_true same.symm
  obtain ⟨d, shown, differs⟩ := (Option.any_eq_true _ _).mp differs
  exact ⟨x, runs, modest, done, member, text, d, shown, of_decide_eq_true differs⟩

end Exchange
end TcpEngine
