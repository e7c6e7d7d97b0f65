import TcpEngine.Proofs.Completion

/-!
The queue of a connection is one: what comes to wait is put at its end, and what is done is taken off its
front. Calls are told as their segments are taken off, in this order. The timer alone also takes segments
out of the middle, and only it tells a segment that it was sent again.
-/
namespace TcpEngine

/-- A segment that waits, but for its flags. Those of our SYN change when the SYN of the peer crosses it. -/
def Unacked.plain (e : Unacked) : Unacked := { e with flags := .ofList [] }

namespace Connection

variable {c c' d : Connection} {s : Segment} {iss : SeqNumber} {now : Instant} {σ τ : List Signal}
  {a : Arrival} {new new' : List Unacked} {call : CallId} {event : Event} {ds : List Datagram}

def queued (c : Connection) : List CallId := c.queue.filterMap Unacked.call

theorem plain_calls (queue : List Unacked) :
    (queue.map Unacked.plain).filterMap Unacked.call = queue.filterMap Unacked.call := by
  rw [List.filterMap_map]
  rfl

/-- What waited and what has come to wait, less some that were taken off the front, waits now. The calls
    of those were told one after the other. -/
def Passes (c : Connection) (new : List Unacked) (σ : List Signal) (c' : Connection) : Prop :=
  ∃ off, (c.queue ++ new).map Unacked.plain = off ++ c'.queue.map Unacked.plain ∧
    (off.filterMap Unacked.call).Sublist (answered σ)

theorem passes_kept (same : c'.queue = c.queue) : Passes c [] σ c' :=
  ⟨[], by rw [same, List.append_nil]; rfl, List.nil_sublist _⟩

theorem passes_added (same : c'.queue = c.queue ++ new) : Passes c new σ c' :=
  ⟨[], by rw [same]; rfl, List.nil_sublist _⟩

theorem Passes.trans (first : Passes c new σ d) (later : Passes d new' τ c') :
    Passes c (new ++ new') (σ ++ τ) c' := by
  obtain ⟨off, split, told⟩ := first
  obtain ⟨off', split', told'⟩ := later
  refine ⟨off ++ off', ?_, ?_⟩
  · rw [← List.append_assoc, List.map_append, split, List.append_assoc, ← List.map_append, split',
      List.append_assoc]
  · rw [List.filterMap_append, answered_append]
    exact told.append told'

theorem passes_shut (c : Connection) (error : CallError) :
    Passes c [] (c.waiting.map (Signal.fails error)) c.shut := by
  refine ⟨c.queue.map Unacked.plain, by simp [shut], ?_⟩
  rw [plain_calls, answered_fails, waiting_eq]
  exact List.sublist_append_left _ _

theorem passes_released {unacked : SeqNumber} {queue : List Unacked} {roundTrip : RoundTrip}
    (ends : (release unacked now c.queue c.roundTrip).Ends σ (queue, roundTrip))
    (same : c'.queue = queue) : Passes c [] σ c' := by
  obtain ⟨done, released, rfl⟩ := release_ends ends
  refine ⟨done.map Unacked.plain, ?_, ?_⟩
  · rw [List.append_nil, released.split, List.map_append, same]
  · have calls := (plain_calls done).trans (answered_done _).symm
    exact calls ▸ List.Sublist.refl _

theorem acceptText_queue {seq : SeqNumber} {text : Octets} (ok : c.acceptText seq text = .ok c') :
    c'.queue = c.queue := by
  rcases acceptText_ok ok with rfl | ⟨_, _, _, _, _, _, rfl⟩ <;> rfl

theorem deliver_queue (ends : c.deliver.Ends σ c') : c'.queue = c.queue := by
  rcases deliver_ends ends with ⟨_, rfl, _⟩ | ⟨_, _, _, _, rfl⟩ <;> rfl

theorem passes_turn (turn : Turn none now c σ c') : Passes c [] σ c' := by
  cases turn with
  | deliver ends => exact passes_kept (deliver_queue ends)
  | release ends => exact passes_released ends rfl
  | review runs => cases runs
  | terminate ends =>
    obtain ⟨rfl, rfl⟩ := terminate_ends.mp ends
    exact passes_shut c _

theorem passes_move (away : c.state ≠ .listen) (move : Move s iss now c σ c') : Passes c [] σ c' := by
  cases move with
  | turn turn => exact passes_turn turn
  | note _ _ _ _ _ same =>
    subst same
    exact passes_kept rfl
  | takeUp takes => exact absurd (takesUp_iff.mp takes).1 away
  | greet _ _ _ _ _ ends => exact passes_released ends rfl
  | cross =>
    refine ⟨[], ?_, List.nil_sublist _⟩
    rw [List.append_nil, List.nil_append, List.map_map]
    refine List.map_congr_left fun e _ => ?_
    simp only [Function.comp_apply]
    split <;> rfl
  | acceptFirst _ _ ok | accept _ _ ok => exact passes_kept (acceptText_queue ok)
  | advance _ _ _ _ ends => exact passes_released ends rfl
  | finish _ _ _ ends =>
    obtain ⟨_, _, rfl⟩ := countFin_counts ends
    exact passes_kept rfl
  | establish | halfClose | wait => exact passes_kept rfl

theorem passes_moves (away : c.state ≠ .listen) (moves : Chain (Move s iss now) c σ c') :
    Passes c [] σ c' := by
  have start : c.state ≠ .listen ∧ Passes c [] [] c := ⟨away, passes_kept rfl⟩
  have all := moves.carries (P := fun ρ d => d.state ≠ .listen ∧ Passes c [] ρ d)
    (fun before move => ⟨move_away before.1 move, before.2.trans (passes_move before.1 move)⟩) start
  exact all.2

inductive Adds (now : Instant) (call : CallId) (c : Connection) (σ : List Signal) :
    List Unacked → Prop where
  | nothing : Adds now call c σ []
  | called {e : Unacked} (silent : σ = []) (fresh : e.retries = 0 ∧ e.lastSent = now)
      (mine : e.call = some call) : Adds now call c σ [e]
  | answer {e : Unacked} (silent : σ = []) (fresh : e.retries = 0 ∧ e.lastSent = now)
      (none : e.call = none) (alone : c.queue = []) : Adds now call c σ [e]

theorem arrives_passes (call : CallId) (coherent : Coherent c) (arrives : (c.arrives s iss now).Ends σ a) :
    ∃ new, Passes c new σ a.connection ∧ Adds now call c σ new := by
  by_cases free : c.Free
  · obtain ⟨rfl, same | ⟨_, handled, _⟩⟩ := arrives_free free arrives
    · exact ⟨[], passes_kept (by rw [same]), .nothing⟩
    · have first : Passes c _ [] (c.takenUp s iss now) := passes_added rfl
      exact ⟨_, first.trans (passes_moves (by simp [takenUp]) handled.moves),
        .answer rfl ⟨rfl, rfl⟩ rfl (coherent.unsent free)⟩
  · have away : c.state ≠ .listen := fun listen => free (Or.inr listen)
    exact ⟨[], passes_moves away (arrives_handled coherent.fresh arrives).1, .nothing⟩

theorem called_passes (called : Called iss now call event c σ ds c') :
    ∃ new, Passes c new σ c' ∧ Adds now call c σ new := by
  cases called with
  | told | timed | listen | fail | idle => exact ⟨[], passes_kept rfl, .nothing⟩
  | ask | send | finish => exact ⟨_, passes_added rfl, .called rfl ⟨rfl, rfl⟩ rfl⟩
  | receive _ _ ends =>
    have same := deliver_queue ends
    exact ⟨[], passes_kept same, .nothing⟩
  | quit _ ends =>
    obtain ⟨rfl, rfl⟩ := terminate_ends.mp ends
    have told : Passes c.shut [] [.tellsDone call] c.shut := passes_kept rfl
    exact ⟨[], (passes_shut c _).trans told, .nothing⟩
  | abort _ ends =>
    obtain ⟨rfl, rfl⟩ := terminate_ends.mp ends
    exact ⟨[], passes_shut c _, .nothing⟩

end Connection
end TcpEngine
