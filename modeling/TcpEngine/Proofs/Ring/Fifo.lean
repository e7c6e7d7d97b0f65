import TcpEngine.Proofs.Ring.Copying

/-!
A ring is a bounded queue: to whoever calls it, it cannot be told from a plain list of octets that is
never longer than the capacity. This is so of any requests in any order, and of the loops that copy
octets as of the ring.
-/
namespace TcpEngine
namespace Ring

inductive Request
  | enqueue (data : Octets)
  | dequeueInto (buffer : Octets)
  | dequeue (count : Nat)
  | clear
deriving DecidableEq, Repr

inductive Answer
  | appended (count : Nat)
  | filled (buffer : Octets) (count : Nat)
  | taken (octets : Octets)
  | cleared
deriving DecidableEq, Repr

def serve (r : Ring) : Request → Ring × Answer
  | .enqueue data => ((r.enqueue data).1, .appended (r.enqueue data).2)
  | .dequeueInto buffer =>
    ((r.dequeueInto buffer).1, .filled (r.dequeueInto buffer).2.1 (r.dequeueInto buffer).2.2)
  | .dequeue count => ((r.dequeue count).1, .taken (r.dequeue count).2)
  | .clear => (r.clear, .cleared)

def Layout.serve (passes : Nat) (l : Layout) : Request → Checked (Layout × Answer)
  | .enqueue data => do
    let (l, count) ← l.enqueue data passes
    return (l, .appended count)
  | .dequeueInto buffer => do
    let (l, buffer, count) ← l.dequeueInto buffer passes
    return (l, .filled buffer count)
  | .dequeue count => do
    let (l, octets) ← l.dequeue count passes
    return (l, .taken octets)
  | .clear => return (l.clear, .cleared)

def Layout.new (capacity : Nat) : Layout := ⟨List.replicate capacity 0, 0, 0⟩

/-- What a list of at most `capacity` octets answers, and what it is afterwards. -/
def Fifo.serve (capacity : Nat) (held : Octets) : Request → Octets × Answer
  | .enqueue data =>
    (held ++ data.take (capacity - held.length),
      .appended (min data.length (capacity - held.length)))
  | .dequeueInto buffer =>
    (held.drop buffer.length,
      .filled (held.take buffer.length ++ buffer.drop held.length) (min buffer.length held.length))
  | .dequeue count => (held.drop count, .taken (held.take count))
  | .clear => ([], .cleared)

section
variable {σ : Type} {m : Type → Type} [Monad m]

def serveAll (serve : σ → Request → m (σ × Answer)) (s : σ) : List Request → m (σ × List Answer)
  | [] => return (s, [])
  | request :: rest => do
    let (s, answer) ← serve s request
    let (s, answers) ← serveAll serve s rest
    return (s, answer :: answers)

end

def run (r : Ring) (requests : List Request) : Ring × List Answer :=
  serveAll (m := Id) serve r requests

def Layout.run (passes : Nat) (l : Layout) (requests : List Request) :
    Checked (Layout × List Answer) :=
  serveAll (Layout.serve passes) l requests

def Fifo.run (capacity : Nat) (held : Octets) (requests : List Request) : Octets × List Answer :=
  serveAll (m := Id) (Fifo.serve capacity) held requests

variable (r : Ring) (passes : Nat)

theorem serve_fifo (request : Request) :
    Fifo.serve r.capacity r.toList request = ((r.serve request).1.toList, (r.serve request).2) := by
  have size := r.length_toList
  cases request with
  | enqueue data => rw [Fifo.serve, serve, toList_enqueue, enqueue_snd, window, size]
  | dequeueInto buffer =>
    rw [Fifo.serve, serve, toList_dequeueInto, dequeueInto_buffer, size]
    rfl
  | dequeue count => rw [Fifo.serve, serve, toList_dequeue, dequeue_octets]
  | clear => rw [Fifo.serve, serve, toList_clear]

theorem serve_capacity (request : Request) : (r.serve request).1.capacity = r.capacity := by
  cases request with
  | enqueue data => exact r.enqueue_capacity data
  | dequeueInto buffer => exact r.dequeueInto_capacity buffer
  | dequeue count => exact r.dequeue_capacity count
  | clear => rfl

theorem layout_serve (request : Request) :
    r.layout.serve (passes + 2) request = pure ((r.serve request).1.layout, (r.serve request).2) := by
  cases request with
  | enqueue data => rw [Layout.serve, layout_enqueue, pure_bind, serve]
  | dequeueInto buffer => rw [Layout.serve, layout_dequeueInto, pure_bind, serve]
  | dequeue count => rw [Layout.serve, layout_dequeue, pure_bind, serve]
  | clear => rw [Layout.serve, layout_clear, serve]

variable (request : Request) (requests : List Request)

theorem run_cons : r.run (request :: requests) =
    (((r.serve request).1.run requests).1,
      (r.serve request).2 :: ((r.serve request).1.run requests).2) := rfl

theorem Fifo.run_cons (capacity : Nat) (held : Octets) :
    Fifo.run capacity held (request :: requests) =
      ((Fifo.run capacity (Fifo.serve capacity held request).1 requests).1,
        (Fifo.serve capacity held request).2 ::
          (Fifo.run capacity (Fifo.serve capacity held request).1 requests).2) := rfl

theorem run_fifo :
    Fifo.run r.capacity r.toList requests = ((r.run requests).1.toList, (r.run requests).2) := by
  induction requests generalizing r with
  | nil => rfl
  | cons request rest ih =>
    have later := ih (r.serve request).1
    rw [serve_capacity] at later
    rw [Fifo.run_cons, serve_fifo, run_cons, later]

theorem run_capacity : (r.run requests).1.capacity = r.capacity := by
  induction requests generalizing r with
  | nil => rfl
  | cons request rest ih => exact (ih (r.serve request).1).trans (r.serve_capacity request)

theorem layout_run :
    r.layout.run (passes + 2) requests = pure ((r.run requests).1.layout, (r.run requests).2) := by
  induction requests generalizing r with
  | nil => rfl
  | cons request rest ih =>
    have later := ih (r.serve request).1
    rw [Layout.run] at later ⊢
    rw [serveAll, layout_serve, pure_bind]
    dsimp only
    rw [later, pure_bind, run_cons]

/-- Whatever is asked of a ring, and however often its octets have gone on at the front of its storage, it
    answers like a list and holds the same. The loops that copy its octets come to the same, with no check
    that fails, and none of them makes more than two passes. -/
theorem ring_is_bounded_fifo (capacity : Nat) (requests : List Request) :
    let r := ((empty capacity).run requests).1
    let answers := ((empty capacity).run requests).2
    let held := (Fifo.run capacity [] requests).1
    answers = (Fifo.run capacity [] requests).2 ∧ r.toList = held ∧
    held.length ≤ capacity ∧ r.length = held.length ∧ r.window = capacity - held.length ∧
    (∀ passes, (Layout.new capacity).run (passes + 2) requests = pure (r.layout, answers)) ∧
    r.layout.window = pure r.window := by
  intro r answers held
  have same : Fifo.run capacity [] requests = (r.toList, answers) := by
    rw [← toList_empty capacity]
    exact run_fifo (empty capacity) requests
  have size : r.capacity = capacity := run_capacity (empty capacity) requests
  have seen : held = r.toList := congrArg Prod.fst same
  have count : r.length = held.length := by rw [seen, length_toList]
  refine ⟨(congrArg Prod.snd same).symm, seen.symm, ?_, count, ?_,
    fun passes => layout_run (empty capacity) passes requests, r.layout_window⟩
  · rw [← count, ← size]
    exact r.length_le
  · rw [window, size, count]

end Ring
end TcpEngine
