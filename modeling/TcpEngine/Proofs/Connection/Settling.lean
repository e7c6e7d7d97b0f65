import TcpEngine.Proofs.Acknowledgment

/-!
What is left of the receive variables. A connection that was left alone, or is over, keeps those from
when it was last synchronized. Only an active opening forgets them.
-/
namespace TcpEngine
namespace Connection

variable {s : Segment} {iss : SeqNumber} {now : Instant} {σ : List Signal} {a : Arrival}
  {c c' : Connection}

def Settled (c c' : Connection) : Prop :=
  c'.state.isSynchronized = true ∨ c'.receive = c.receive

theorem settled_terminate {error : CallError} (ends : (c.terminate error).Ends σ c') :
    Settled c c' := by
  obtain ⟨_, rfl⟩ := terminate_ends.mp ends
  exact Or.inr rfl

theorem receiveContent_settled (live : c.state.isSynchronized = true)
    (h : (c.receiveContent s now).Ends σ a) : a.connection.state.isSynchronized = true := by
  obtain ⟨_, _, _, _, rfl | ⟨kept, _, taken, served⟩, fin⟩ := receiveContent_ends h
  · exact receiveFin_state (by exact live) fin
  · refine receiveFin_state ?_ fin
    rw [deliver_state served, acceptText_state taken]
    exact live

theorem progress_settled (live : c.state.isSynchronized = true)
    (h : (c.progress s now).Ends σ a) : Settled c a.connection := by
  unfold progress at h
  split at h
  · refine Or.inl (receiveContent_settled ?_ h)
    split
    · rfl
    · exact live
  · split at h
    · exact Or.inl (receiveContent_settled rfl h)
    · obtain ⟨_, rfl⟩ := Act.ends_pure.mp h
      exact Or.inl live
  · split at h
    · rw [Act.ends_bind] at h
      obtain ⟨_, _, _, ends, h, rfl⟩ := h
      obtain ⟨_, rfl⟩ := Act.ends_pure.mp h
      exact settled_terminate ends
    · obtain ⟨_, rfl⟩ := Act.ends_pure.mp h
      exact Or.inl live
  · exact Or.inl (receiveContent_settled live h)

theorem acknowledge_settled {ack : SeqNumber} (live : c.state.isSynchronized = true)
    (h : (c.acknowledge s ack now).Ends σ a) : Settled c a.connection := by
  have refreshed (d : Connection) : (d.refreshWindow s.header ack).receive = d.receive := by
    obtain ⟨_, _, _, same⟩ := refreshWindow_eq d s.header ack
    rw [same]
  rw [acknowledge_eq] at h
  split at h
  · obtain ⟨_, rfl⟩ := Act.ends_pure.mp h
    exact Or.inl live
  · split at h
    · rw [Act.ends_bind] at h
      obtain ⟨_, _, _, ends, h, rfl⟩ := h
      obtain ⟨_, _, _, rfl⟩ := releaseAcked_ends ends
      refine (progress_settled ?_ h).imp id fun kept => kept.trans (refreshed _)
      rw [refreshWindow_state]
      exact live
    · rw [pure_bind] at h
      refine (progress_settled ?_ h).imp id fun kept => kept.trans (refreshed c)
      rw [refreshWindow_state]
      exact live

theorem arrivesWithAck_settled {ack : SeqNumber} (live : c.state.isSynchronized = true)
    (h : (c.arrivesWithAck s ack now).Ends σ a) : Settled c a.connection := by
  unfold arrivesWithAck at h
  split at h
  · split at h
    · rw [Act.ends_bind] at h
      obtain ⟨_, c₁, _, served, h, rfl⟩ := h
      have live₁ : c₁.state.isSynchronized = true := by
        rw [deliver_state served]
        rfl
      have same : c₁.receive = c.receive := by
        rcases deliver_ends served with ⟨_, rfl, _⟩ | ⟨_, _, _, _, rfl⟩ <;> rfl
      exact (acknowledge_settled live₁ h).imp id fun kept => kept.trans same
    · simp only [Act.ends_bind, Act.ends_lift, Act.ends_pure] at h
      obtain ⟨_, _, _, _, ⟨_, rfl⟩, _⟩ := h
      exact Or.inl live
  · exact acknowledge_settled live h

theorem arrivesSynSent_settled (asked : c.state = .synSent)
    (fresh : c.send.unacked = c.send.initial) (h : (c.arrivesSynSent s now).Ends σ a) :
    Settled c a.connection := by
  unfold arrivesSynSent at h
  dsimp only at h
  split at h
  · simp only [Act.ends_bind, Act.ends_lift, Act.ends_pure] at h
    obtain ⟨_, _, _, _, ⟨_, rfl⟩, _⟩ := h
    exact Or.inr rfl
  · rename_i valid
    split at h
    · split at h
      · rw [Act.ends_bind] at h
        obtain ⟨_, _, _, ends, h, rfl⟩ := h
        obtain ⟨_, rfl⟩ := Act.ends_pure.mp h
        exact settled_terminate ends
      · obtain ⟨_, rfl⟩ := Act.ends_pure.mp h
        exact Or.inr rfl
    · split at h
      · rename_i syn
        obtain ⟨_, live⟩ : Handled s ⟨0⟩ now c σ a ∧ _ := meet_handled asked fresh syn
          (fun ack given => by simpa [given] using valid) h
        exact Or.inl live
      · obtain ⟨_, rfl⟩ := Act.ends_pure.mp h
        exact Or.inr rfl

theorem arrives_settled (fresh : c.state = .synSent → c.send.unacked = c.send.initial)
    (h : (c.arrives s iss now).Ends σ a) : Settled c a.connection := by
  by_cases free : c.state = .closed ∨ c.state = .listen
  · rcases (arrives_free free h).2 with same | ⟨_, _, state⟩
    · exact Or.inr (by rw [same])
    · exact Or.inl (by rw [state]; rfl)
  unfold arrives at h
  split at h
  · rename_i state
    exact absurd (Or.inl state) free
  · rename_i state
    exact absurd (Or.inr state) free
  · rename_i asked
    exact arrivesSynSent_settled asked (fresh asked) h
  · rename_i closed listen asked
    have live : c.state.isSynchronized = true := by
      cases state : c.state <;> first | rfl | contradiction
    by_cases processed : c.Processes s
    · cases given : s.header.ack with
      | some ack =>
        rw [arrivesSynchronized_processed processed given] at h
        exact arrivesWithAck_settled live h
      | none =>
        rcases arrivesSynchronized_idle h (Or.inr given) with ⟨_, ends⟩ | ⟨_, _, same⟩
        · exact settled_terminate ends
        · exact Or.inl (by rw [same]; exact live)
    · rcases arrivesSynchronized_idle h (Or.inl processed) with ⟨_, ends⟩ | ⟨_, _, same⟩
      · exact settled_terminate ends
      · exact Or.inl (by rw [same]; exact live)

end Connection
end TcpEngine
