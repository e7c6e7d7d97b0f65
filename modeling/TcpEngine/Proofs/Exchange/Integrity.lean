import TcpEngine.Proofs.Exchange.Invariant

/-!
Streams arrive as they were sent. Whatever the network does to the datagrams of an exchange, text is
neither lost, nor doubled, nor put in another order.
-/
namespace TcpEngine

open Connection

theorem Paired.received {p q : Party} {mine theirs : Option Stream} {reach reached : Nat}
    {c d : Connection} (h : Paired p q mine theirs reach reached c d) : p.received <+: q.sent := by
  rw [h.other.said]
  cases said : theirs with
  | none => exact (h.own.standing.hearing ⟨⟨0⟩, [], false⟩ (Or.inl said)).text
  | some st => exact (h.own.standing.hearing st (Or.inr said)).text

namespace Exchange

/-- In every exchange of two sides, what either side has received is a beginning of what the other one
    has sent. -/
theorem received_prefix_sent {here there : Endpoint} {config config' : Config}
    {generator generator' : SeqGenerator} {deeds : List Deed} {x : Exchange} (apart : here ≠ there)
    (runs : (start here there config config' generator generator').run deeds = .ok x)
    (modest : x.Modest) : x.near.received <+: x.far.sent ∧ x.far.received <+: x.near.sent := by
  have begun : Sound (start here there config config' generator generator').near
      (start here there config config' generator generator').far :=
    ⟨_, _, _, _, _, _, paired_start apart config config' generator generator'⟩
  obtain ⟨_, _, _, _, _, _, paired⟩ := sound_kept.run begun runs modest
  exact ⟨paired.received, paired.swap.received⟩

def greeting : List Deed :=
  handshake ++
    [⟨.far, .receive 5, .start⟩,
     ⟨.near, .send [104, 105], .start⟩,
     ⟨.near, .send [33], .start⟩,
     ⟨.far, .deliver .near 2, .start⟩,
     ⟨.far, .receive 5, .start⟩,
     ⟨.far, .deliver .near 2, .start⟩]

theorem greeting_received : ∃ x, clientServer.run greeting = .ok x ∧ x.far.received = [104, 105] ∧
    x.near.sent = [104, 105, 33] ∧ x.far.received <+: x.near.sent := by
  have seen : (clientServer.run greeting).map
      (fun x => (x.far.received, x.near.sent, decide x.Modest))
        = .ok ([104, 105], [104, 105, 33], true) := by decide +kernel
  obtain ⟨x, runs, same⟩ := except_map_ok.mp seen
  simp only [Prod.mk.injEq] at same
  obtain ⟨received, sent, modest⟩ := same
  have intact := received_prefix_sent (by decide) runs (of_decide_eq_true modest.symm)
  exact ⟨x, runs, received.symm, sent.symm, intact.2⟩

end Exchange
end TcpEngine
