import TcpEngine.Proofs.Acknowledgment

/-!
Sending and the window of the peer. The text of each call by itself is held against the window; what is
already on its way is not counted.
-/
namespace TcpEngine
namespace Stack

variable {k k' : Stack} {here : Endpoint} {text : Octets} {now : Instant} {call : CallId}
  {σ τ : List Signal} {c : Connection} {answer : Answer}

def Sends (k : Stack) (here : Endpoint) (c : Connection) : Prop :=
  k.table.get? here = some c ∧ (c.state = .established ∨ c.state = .closeWait)

structure Transmits (k : Stack) (here : Endpoint) (text : Octets) (now : Instant) (call : CallId)
    (c : Connection) (k' : Stack) : Prop where
  sends : k.Sends here c
  filled : text ≠ []
  fits : text.length ≤ c.send.window.toNat
  log : ∃ d, Holds d (c.segment (.ofList [.ack, .psh]) c.send.next text) ∧ k'.log = k.log ++ [d]
  table : k'.table = k.table.put (c.sent text now call)

/-- The call has its reply at once, and nothing was handed over. It is refused for the window exactly if
    its text by itself exceeds that, and then nothing at all is changed. -/
structure Declines (k : Stack) (here : Endpoint) (text : Octets) (call : CallId) (σ : List Signal)
    (reply : Reply) (k' : Stack) : Prop where
  told : σ = [⟨call, reply⟩]
  log : k'.log = k.log
  table : k'.table = k.table
  exceeds : reply = .failed .insufficientResources ↔
    ∃ c, k.Sends here c ∧ c.send.window.toNat < text.length
  still : reply = .failed .insufficientResources → k' = k

theorem declines_for {reply : Reply} (other : reply ≠ .failed .insufficientResources)
    (within : ∀ c, k.Sends here c → ¬ c.send.window.toNat < text.length) (log : k'.log = k.log)
    (table : k'.table = k.table) : Declines k here text call [⟨call, reply⟩] reply k' where
  told := rfl
  log := log
  table := table
  exceeds := by
    constructor
    · intro same
      exact absurd same other
    · rintro ⟨c, sends, exceeds⟩
      exact absurd exceeds (within c sends)
  still := fun same => absurd same other

theorem declines_refused {error : CallError} (other : error ≠ .insufficientResources)
    (within : ∀ c, k.Sends here c → ¬ c.send.window.toNat < text.length)
    (h : (k.refuse call error).Ends σ k') : ∃ reply, Declines k here text call σ reply k' := by
  obtain ⟨rfl, rfl⟩ := refuse_ends.mp h
  exact ⟨_, declines_for (by simpa using other) within rfl rfl⟩

theorem send_live_ends (sends : k.Sends here c) (h : (k.send here text now call).Ends σ k') :
    Transmits k here text now call c k' ∧ σ = [] ∨ ∃ reply, Declines k here text call σ reply k' := by
  obtain ⟨found, live⟩ := sends
  have only {d : Connection} (sends : k.Sends here d) : d = c := by
    rw [Sends, found] at sends
    exact (Option.some.inj sends.1).symm
  rw [send_live found live] at h
  split at h
  · rename_i exceeds
    obtain ⟨rfl, rfl⟩ := refuse_ends.mp h
    refine Or.inr ⟨_, rfl, rfl, rfl, ?_, fun _ => rfl⟩
    simpa using ⟨c, ⟨found, live⟩, exceeds⟩
  · rename_i fits
    have within : ∀ d, k.Sends here d → ¬ d.send.window.toNat < text.length := by
      intro d sends
      rw [only sends]
      exact fits
    split at h
    · obtain ⟨rfl, rfl⟩ := answer_ends.mp h
      exact Or.inr ⟨_, declines_for (by simp) within rfl rfl⟩
    · rename_i filled
      split at h
      · exact Or.inr (declines_refused (by simp) within h)
      · rename_i s given
        rcases transmit_ends h with ⟨tried, d, same, posted, grown, h⟩ | ⟨tried, e, same, kept, h⟩
        · dsimp only at h
          rw [Act.ends_bind] at h
          obtain ⟨_, next, _, added, h, rfl⟩ := h
          obtain ⟨rfl, sum⟩ := Act.ends_lift.mp added
          obtain ⟨_, rfl⟩ := SeqNumber.add_ok.mp sum
          obtain ⟨rfl, rfl⟩ := Act.ends_pure.mp h
          have entry : s.header.seq = c.send.next ∧ s.header.flags = .ofList [.ack, .psh]
              ∧ s.text = text := by
            obtain ⟨foreign, _, rfl⟩ := Option.map_eq_some_iff.mp given
            exact ⟨rfl, rfl, rfl⟩
          refine Or.inl ⟨⟨⟨found, live⟩, by simpa using filled, Nat.not_lt.mp fits, ?_, ?_⟩, rfl⟩
          · exact ⟨d, ⟨s, given, posted⟩, grown⟩
          · simp only [put, same, Connection.enqueue, entry, Connection.sent]
        · obtain ⟨rfl, rfl⟩ := refuse_ends.mp h
          exact Or.inr ⟨_, declines_for (by simp) within kept same⟩

theorem send_dead_ends (dead : ∀ c, ¬ k.Sends here c)
    (h : (k.send here text now call).Ends σ k') : ∃ reply, Declines k here text call σ reply k' := by
  have within : ∀ c, k.Sends here c → ¬ c.send.window.toNat < text.length :=
    fun c sends => absurd sends (dead c)
  unfold send at h
  split at h
  · exact declines_refused (by simp) within h
  · rename_i c found
    split at h
    · exact absurd ⟨found, Or.inl ‹_›⟩ (dead c)
    · exact absurd ⟨found, Or.inr ‹_›⟩ (dead c)
    · split at h
      · exact declines_refused (by simp) within h
      · exact declines_refused (by simp) within h
    · exact declines_refused (by simp) within h
    · exact declines_refused (by simp) within h

/-- What comes of a send call: it hands its text over and waits, or it has its reply at once. -/
theorem send_ends (h : (k.send here text now call).Ends σ k') :
    (∃ c, Transmits k here text now call c k') ∧ σ = [] ∨
      ∃ reply, Declines k here text call σ reply k' := by
  by_cases sends : ∃ c, k.Sends here c
  · obtain ⟨c, sends⟩ := sends
    rcases send_live_ends sends h with ⟨transmits, silent⟩ | declines
    · exact Or.inl ⟨⟨c, transmits⟩, silent⟩
    · exact Or.inr declines
  · exact Or.inr (send_dead_ends (fun c live => sends ⟨c, live⟩) h)

theorem Transmits.found (h : Transmits k here text now call c k') (distinct : k.table.Distinct) :
    k'.table.get? here = some (c.sent text now call) :=
  found_of_put distinct h.sends.1 rfl (congrArg _ h.table)

theorem ahead_sent (c : Connection) (text : Octets) (now : Instant) (call : CallId) :
    (c.sent text now call).send.next.ahead (c.sent text now call).send.unacked
      = (c.send.next.ahead c.send.unacked + text.length) % 0x100000000 := by
  have place := SeqNumber.advance_ahead c.send.next c.send.unacked
  change (c.send.next.advance text.length).ahead c.send.unacked = _
  rw [← SeqNumber.ahead_advance_self c.send.unacked, ← SeqNumber.advance_advance, place]

/-- A send call hands over at most as much text as SND.WND says, from SND.NXT on, and leaves SND.UNA and
    SND.WND as they are. What was on its way before is not counted against the window. Where the text
    alone exceeds the window, the call is refused and nothing changes. -/
theorem sent_within_window {config : Config} {generator : SeqGenerator}
    {history : List (Event × Instant)}
    (ends : ((Stack.empty config generator).run 0 history).Ends σ k)
    (last : (k.handle (.send here text) now history.length).Ends τ (k', answer)) :
    (∃ c c', Transmits k here text now history.length c k' ∧ τ = [] ∧
      k'.table.get? here = some c' ∧
      c'.send = { c.send with next := c.send.next.advance text.length } ∧
      c'.send.next.ahead c'.send.unacked
        = (c.send.next.ahead c.send.unacked + text.length) % 0x100000000 ∧
      (c.send.next = c.send.unacked →
        c'.send.next.ahead c'.send.unacked ≤ c'.send.window.toNat)) ∨
      ∃ reply, Declines k here text history.length τ reply k' := by
  have distinct := (run_proper (proper_empty config generator) ends).distinct
  simp only [handle, Act.ends_bind, Act.ends_pure, Prod.mk.injEq] at last
  obtain ⟨τ₁, _, _, sent, ⟨rfl, rfl, _⟩, rfl⟩ := last
  rw [List.append_nil]
  rcases send_ends sent with ⟨⟨c, transmits⟩, rfl⟩ | declines
  · have ahead := ahead_sent c text now history.length
    refine Or.inl ⟨c, _, transmits, rfl, transmits.found distinct, rfl, ahead, ?_⟩
    intro idle
    rw [ahead, idle, SeqNumber.ahead_self, Nat.zero_add]
    exact Nat.le_trans (Nat.mod_le _ _) transmits.fits
  · exact Or.inr declines

def cautious : List (Event × Instant) :=
  asking ++
    -- A window of four octets.
    [(.ingress [0, 80, 192, 0, 0, 0, 3, 232, 10, 62, 28, 189, 80, 18, 0, 4, 176, 152, 0, 0]
       ⟨10, 0, 0, 2⟩ ⟨10, 0, 0, 1⟩, .start)]

theorem cautious_within_window : ∃ σ k τ k' answer,
    ((Stack.empty { receiveWindow := 8 } (.ofKey 1 2)).run 0 cautious).Ends σ k ∧
    (k.handle (.send ⟨⟨10, 0, 0, 1⟩, 49152⟩ [104, 105]) .start 3).Ends τ (k', answer) ∧
    ∃ c c', Transmits k ⟨⟨10, 0, 0, 1⟩, 49152⟩ [104, 105] .start 3 c k' ∧
      k'.table.get? ⟨⟨10, 0, 0, 1⟩, 49152⟩ = some c' ∧
      c'.send.next.ahead c'.send.unacked
        = (c.send.next.ahead c.send.unacked + 2) % 0x100000000 := by
  let start := Stack.empty { receiveWindow := 8 } (.ofKey 1 2)
  let k := (start.run 0 cautious).result start
  have ends : (start.run 0 cautious).Ends _ k := Act.ends_result start (by decide +kernel)
  have silent : (k.handle (.send ⟨⟨10, 0, 0, 1⟩, 49152⟩ [104, 105]) .start 3).signals = [] := by
    decide +kernel
  obtain ⟨⟨k', answer⟩, last⟩ : ∃ result,
      (k.handle (.send ⟨⟨10, 0, 0, 1⟩, 49152⟩ [104, 105]) .start 3).Ends [] result :=
    ⟨_, silent ▸ Act.ends_result (k, Answer.accepted) (by decide +kernel)⟩
  rcases sent_within_window ends last with ⟨c, c', transmits, _, found, _, ahead, _⟩ | ⟨_, declines⟩
  · exact ⟨_, k, _, k', answer, ends, last, c, c', transmits, found, ahead⟩
  · cases declines.told

/-- Two calls with as much text each as the window allows: together they exceed it. -/
theorem twice_beyond_window : ∃ σ k c,
    ((Stack.empty { receiveWindow := 8 } (.ofKey 1 2)).run 0
      (cautious ++ [(.send ⟨⟨10, 0, 0, 1⟩, 49152⟩ [1, 2, 3, 4], .start),
        (.send ⟨⟨10, 0, 0, 1⟩, 49152⟩ [5, 6, 7, 8], .start)])).Ends σ k ∧
    k.log.length = 4 ∧ c ∈ k.table.connections ∧
    c.send.window.toNat < c.send.next.ahead c.send.unacked := by
  let start := Stack.empty { receiveWindow := 8 } (.ofKey 1 2)
  let k := (start.run 0 (cautious ++ [(.send ⟨⟨10, 0, 0, 1⟩, 49152⟩ [1, 2, 3, 4], .start),
    (.send ⟨⟨10, 0, 0, 1⟩, 49152⟩ [5, 6, 7, 8], .start)])).result start
  let c := (k.table.get? ⟨⟨10, 0, 0, 1⟩, 49152⟩).getD (.bound ⟨⟨10, 0, 0, 1⟩, 49152⟩ {})
  have ends : (start.run 0 _).Ends _ k := Act.ends_result start (by decide +kernel)
  exact ⟨_, k, c, ends, by decide +kernel, by decide +kernel, by decide +kernel⟩

end Stack
end TcpEngine
