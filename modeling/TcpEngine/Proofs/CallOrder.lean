import TcpEngine.Proofs.Acknowledgment
import TcpEngine.Proofs.Connection.Passing
import TcpEngine.Proofs.Connection.Reviewing
import TcpEngine.Proofs.Stack.Life
import TcpEngine.Proofs.Stack.Settings

/-!
The order in which calls are told. An acknowledgment takes segments off the front of the queue, and the
end of a connection all of them in their order. The timer gives up segments wherever they stand. But a
segment in front of another was sent again at least as often, and if as often then no later; so where the
timer of one is out for the last time, those of all segments in front of it are.
-/
namespace TcpEngine

theorem Instant.later_mono {s t : Instant} (h : s.millis ≤ t.millis) (d : Duration) :
    (s.later d).millis ≤ (t.later d).millis := by
  simp only [later, nearest]
  omega

def ClockRuns (history : List (Event × Instant)) : Prop :=
  (history.map Prod.snd).Pairwise fun s t => s.millis ≤ t.millis

instance (history : List (Event × Instant)) : Decidable (ClockRuns history) :=
  inferInstanceAs (Decidable (List.Pairwise _ _))

namespace Unacked

def Elder (e e' : Unacked) : Prop :=
  e'.retries < e.retries ∨ e'.retries = e.retries ∧ e.lastSent.millis ≤ e'.lastSent.millis

variable {c : Connection} {now : Instant} {config : Config} {e e' : Unacked}

theorem due_iff : e.due c now = true ↔
    (e.lastSent.later (c.roundTrip.backoff e.retries)).millis ≤ now.millis :=
  decide_eq_true_iff

theorem Elder.due (same : e'.retries = e.retries) (early : e.lastSent.millis ≤ e'.lastSent.millis)
    (due : e'.due c now = true) : e.due c now = true := by
  rw [due_iff, same] at due
  rw [due_iff]
  exact Int.le_trans (Instant.later_mono early _) due

theorem Elder.givenUp (elder : e.Elder e') (spared : e.Spared config)
    (spent : e'.givenUp c now config = true) : e.givenUp c now config = true := by
  have due := givenUp_due spent
  simp only [Unacked.givenUp, Bool.and_eq_true, decide_eq_true_eq] at spent ⊢
  have often := spent.2
  rcases elder with more | ⟨same, early⟩
  · rcases spared with fresh | below
    · omega
    · omega
  · exact ⟨Elder.due same early due, same ▸ often⟩

/-- The look of the timer keeps who is elder. -/
theorem Elder.looked (elder : e.Elder e') (past : e.lastSent.millis ≤ now.millis) :
    (e.looked c now).Elder (e'.looked c now) := by
  cases due : e.due c now with
  | true =>
    rw [looked_due due]
    cases due' : e'.due c now with
    | true =>
      rw [looked_due due']
      rcases elder with more | ⟨same, _⟩
      · exact Or.inl (Nat.succ_lt_succ more)
      · exact Or.inr ⟨congrArg (· + 1) same, Int.le_refl _⟩
    | false =>
      rw [looked_early due']
      refine Or.inl (Nat.lt_succ_of_le ?_)
      rcases elder with more | ⟨same, _⟩
      · exact Nat.le_of_lt more
      · exact Nat.le_of_eq same
  | false =>
    rw [looked_early due]
    cases due' : e'.due c now with
    | true =>
      rw [looked_due due']
      rcases elder with more | ⟨same, early⟩
      · rcases Nat.lt_or_eq_of_le (Nat.succ_le_of_lt more) with more | level
        · exact Or.inl more
        · exact Or.inr ⟨level, past⟩
      · rw [Elder.due same early due'] at due
        cases due
    | false =>
      rw [looked_early due']
      exact elder

theorem looked_past (past : e.lastSent.millis ≤ now.millis) :
    (e.looked c now).lastSent.millis ≤ now.millis := by
  unfold looked
  split
  · exact Int.le_refl _
  · exact past

end Unacked

/-- What waits in a queue at this time, elder segments first. -/
structure Orderly (config : Config) (clock : Instant) (queue : List Unacked) : Prop where
  past : ∀ e ∈ queue, e.lastSent.millis ≤ clock.millis
  spared : ∀ e ∈ queue, e.Spared config
  elder : queue.Pairwise Unacked.Elder

/-- Calls are told from the front of a queue, one after the other, and are not in it any more. -/
def Leaves (queue : List CallId) (σ : List Signal) (queue' : List CallId) : Prop :=
  ∃ told, queue = told ++ queue' ∧ told.Sublist (answered σ)

section Leaving

variable {queue queue' queue'' : List CallId} {σ τ : List Signal}

theorem leaves_still (queue : List CallId) (σ : List Signal) : Leaves queue σ queue :=
  ⟨[], rfl, List.nil_sublist _⟩

theorem Leaves.trans (first : Leaves queue σ queue') (later : Leaves queue' τ queue'') :
    Leaves queue (σ ++ τ) queue'' := by
  obtain ⟨told, rfl, order⟩ := first
  obtain ⟨told', rfl, order'⟩ := later
  refine ⟨told ++ told', (List.append_assoc ..).symm, ?_⟩
  rw [answered_append]
  exact order.append order'

theorem Leaves.behind (leaves : Leaves queue σ queue') (new : List CallId) :
    Leaves (queue ++ new) σ (queue' ++ new) := by
  obtain ⟨told, rfl, order⟩ := leaves
  exact ⟨told, List.append_assoc .., order⟩

theorem Leaves.among (leaves : Leaves queue σ queue') (part : σ.Sublist τ) : Leaves queue τ queue' := by
  obtain ⟨told, same, order⟩ := leaves
  exact ⟨told, same, order.trans (part.map _)⟩

theorem Leaves.mem {call : CallId} (leaves : Leaves queue σ queue') (waits : call ∈ queue') :
    call ∈ queue := by
  obtain ⟨told, rfl, _⟩ := leaves
  exact List.mem_append_right _ waits

end Leaving

section Queues

variable {config : Config} {clock now : Instant} {queue queue' : List Unacked} {e : Unacked}

theorem orderly_nil (config : Config) (clock : Instant) : Orderly config clock [] where
  past := by simp
  spared := by simp
  elder := .nil

theorem Orderly.sublist (orderly : Orderly config clock queue) (part : queue'.Sublist queue) :
    Orderly config clock queue' where
  past := fun e member => orderly.past e (part.subset member)
  spared := fun e member => orderly.spared e (part.subset member)
  elder := orderly.elder.sublist part

theorem Orderly.later (orderly : Orderly config clock queue) (onward : clock.millis ≤ now.millis) :
    Orderly config now queue where
  past := fun e member => Int.le_trans (orderly.past e member) onward
  spared := orderly.spared
  elder := orderly.elder

theorem Orderly.behind (orderly : Orderly config now queue) (fresh : e.retries = 0 ∧ e.lastSent = now) :
    Orderly config now (queue ++ [e]) where
  past := by
    intro d member
    rcases List.mem_append.mp member with old | new
    · exact orderly.past d old
    · rw [List.mem_singleton.mp new]
      exact Int.le_of_eq (congrArg Instant.millis fresh.2)
  spared := by
    intro d member
    rcases List.mem_append.mp member with old | new
    · exact orderly.spared d old
    · rw [List.mem_singleton.mp new]
      exact Or.inl fresh.1
  elder := by
    refine List.pairwise_append.mpr ⟨orderly.elder, List.pairwise_singleton _ _, ?_⟩
    intro d old e' new
    rw [List.mem_singleton.mp new]
    rcases Nat.eq_zero_or_pos d.retries with none | some
    · exact Or.inr ⟨fresh.1.trans none.symm, fresh.2 ▸ orderly.past d old⟩
    · exact Or.inl (fresh.1 ▸ some)

theorem orderly_plain : Orderly config clock (queue.map Unacked.plain) ↔ Orderly config clock queue := by
  constructor
  · intro orderly
    refine ⟨?_, ?_, (List.pairwise_map (f := Unacked.plain)).mp orderly.elder⟩
    · exact fun e member => orderly.past e.plain (List.mem_map_of_mem member)
    · exact fun e member => orderly.spared e.plain (List.mem_map_of_mem member)
  · intro orderly
    refine ⟨?_, ?_, List.pairwise_map.mpr orderly.elder⟩
    · exact List.forall_mem_map.mpr orderly.past
    · exact List.forall_mem_map.mpr orderly.spared

end Queues

theorem filter_first {p : α → Bool} {l : List α}
    (first : l.Pairwise fun a b => p b = true → p a = true) :
    l = l.filter p ++ l.filter fun a => !p a := by
  induction l with
  | nil => rfl
  | cons a rest ih =>
    obtain ⟨early, later⟩ := List.pairwise_cons.mp first
    cases has : p a with
    | true =>
      rw [List.filter_cons_of_pos has, List.filter_cons_of_neg (by simp [has]), List.cons_append,
        ← ih later]
    | false =>
      have none : rest.filter p = [] := by
        refine List.filter_eq_nil_iff.mpr fun b member has' => ?_
        rw [early b member has'] at has
        cases has
      have all : (rest.filter fun a => !p a) = rest := by
        rw [none] at ih
        exact (ih later).symm
      rw [List.filter_cons_of_neg (by simp [has]), List.filter_cons_of_pos (by simp [has]), none, all]
      rfl

theorem pair_sublist {l : List Nat} {a b : Nat} (sorted : l.Pairwise (· < ·)) (first : a ∈ l)
    (second : b ∈ l) (before : a < b) : [a, b].Sublist l := by
  obtain ⟨front, back, rfl⟩ := List.append_of_mem first
  obtain ⟨_, _, across⟩ := List.pairwise_append.mp sorted
  have behind : b ∈ back := by
    rcases List.mem_append.mp second with early | late
    · exact absurd (across b early a List.mem_cons_self) (Nat.lt_asymm before)
    · exact (List.mem_cons.mp late).resolve_left (Nat.ne_of_gt before)
  exact ((List.singleton_sublist.mpr behind).cons_cons a).trans (List.sublist_append_right _ _)

namespace Connection

variable {c c' d : Connection} {config : Config} {clock now : Instant} {σ : List Signal}
  {new front back : List Unacked} {call : CallId} {segments : List Segment}

theorem Passes.leaves (passes : Passes c new σ c') :
    Leaves (c.queued ++ new.filterMap Unacked.call) σ c'.queued := by
  obtain ⟨off, split, told⟩ := passes
  refine ⟨off.filterMap Unacked.call, ?_, told⟩
  have calls := congrArg (List.filterMap Unacked.call) split
  rw [plain_calls, List.filterMap_append, List.filterMap_append, plain_calls] at calls
  exact calls

theorem Passes.leaves_old (passes : Passes c [] σ c') : Leaves c.queued σ c'.queued := by
  have leaves := passes.leaves
  rw [List.filterMap_nil, List.append_nil] at leaves
  exact leaves

theorem Passes.orderly (passes : Passes c new σ c') (orderly : Orderly config now (c.queue ++ new)) :
    Orderly config now c'.queue := by
  obtain ⟨off, split, _⟩ := passes
  rw [← orderly_plain, split] at orderly
  exact orderly_plain.mp (orderly.sublist (List.sublist_append_right _ _))

theorem Adds.orderly (adds : Adds now call c σ new) (orderly : Orderly config now c.queue) :
    Orderly config now (c.queue ++ new) := by
  cases adds with
  | nothing =>
    rw [List.append_nil]
    exact orderly
  | called _ fresh | answer _ fresh => exact orderly.behind fresh

def joins (c' : Connection) (call : CallId) : List CallId :=
  if call ∈ c'.queued then [call] else []

theorem joins_not (absent : call ∉ c'.queued) : c'.joins call = [] := if_neg absent

theorem Adds.leaves (adds : Adds now call c σ new) (passes : Passes c new σ c')
    (unmade : call ∉ c.queued) : Leaves (c.queued ++ c'.joins call) σ c'.queued := by
  have leaves := passes.leaves
  have uncalled (none : new.filterMap Unacked.call = []) :
      Leaves (c.queued ++ c'.joins call) σ c'.queued := by
    rw [none, List.append_nil] at leaves
    rw [joins_not fun waits => unmade (leaves.mem waits), List.append_nil]
    exact leaves
  cases adds with
  | nothing => exact uncalled rfl
  | answer _ _ none => exact uncalled (by rw [List.filterMap_cons_none none, List.filterMap_nil])
  | called silent _ mine =>
    subst silent
    rw [List.filterMap_cons_some mine, List.filterMap_nil] at leaves
    -- Nothing is told meanwhile, so the call just made is still in the queue.
    have waits : call ∈ c'.queued := by
      obtain ⟨told, split, order⟩ := leaves
      rw [List.sublist_nil.mp order, List.nil_append] at split
      rw [← split]
      exact List.mem_append_right _ List.mem_cons_self
    rw [joins, if_pos waits]
    exact leaves

theorem passes_releaseAcked (released : (c.releaseAcked now).Ends σ d) : Passes c [] σ d := by
  obtain ⟨queue, roundTrip, ends, rfl⟩ := releaseAcked_ends released
  exact passes_released ends rfl

/-- What the timer gives up of the segments that it looks at is a front part. -/
theorem givenUp_first (orderly : Orderly config now front) :
    front = front.filter (Unacked.givenUp c now config) ++
      front.filter fun e => !e.givenUp c now config := by
  refine filter_first (orderly.elder.imp_of_mem ?_)
  intro e e' member _ elder spent
  exact elder.givenUp (orderly.spared e member) spent

theorem abandoned_first (c : Connection) (orderly : Orderly config now front) :
    front.filterMap Unacked.call = c.abandoned now config front ++
      ((front.filter fun e => !e.givenUp c now config).map (Unacked.looked c now)).filterMap
        Unacked.call := by
  have same : Unacked.call ∘ Unacked.looked c now = Unacked.call :=
    funext fun e => Unacked.looked_call e
  rw [List.filterMap_map, same, abandoned, ← List.filterMap_append, ← givenUp_first orderly]

theorem abandoned_leaves (c : Connection) (back : List Unacked) (orderly : Orderly config now front) :
    Leaves ((front ++ back).filterMap Unacked.call)
      ((c.abandoned now config front).map (Signal.fails .retransmissionTimeout))
      ((c.looksAt now config front back).queue.filterMap Unacked.call) := by
  refine ⟨c.abandoned now config front, ?_, ?_⟩
  · rw [looksAt, List.filterMap_append, List.filterMap_append, abandoned_first c orderly,
      List.append_assoc]
  · rw [answered_fails]

theorem ticked_orderly (orderly : Orderly config now d.queue) :
    Orderly config now (d.ticked now config).queue where
  past := by
    intro e member
    obtain ⟨e₀, kept, rfl⟩ := List.mem_map.mp member
    exact Unacked.looked_past (orderly.past e₀ (List.mem_filter.mp kept).1)
  spared := by
    intro e member
    obtain ⟨e₀, kept, rfl⟩ := List.mem_map.mp member
    obtain ⟨there, kept⟩ := List.mem_filter.mp kept
    exact Unacked.looked_spared (orderly.spared e₀ there) (by simpa using kept)
  elder := by
    refine List.pairwise_map.mpr ((orderly.elder.sublist List.filter_sublist).imp_of_mem ?_)
    intro e e' member _ elder
    exact elder.looked (orderly.past e (List.mem_filter.mp member).1)

/-- Under the timer calls are told in the order of the queue, and the queue stays orderly. -/
theorem timer_leaves (orderly : Orderly config now c.queue)
    (ends : (c.onTimer now config).Ends σ (c', segments)) :
    Leaves c.queued σ c'.queued ∧ Orderly config now c'.queue := by
  obtain ⟨ticks, _⟩ := onTimer_ticks ends
  generalize c.repeats now config = again at ticks
  cases ticks with
  | rests => exact ⟨leaves_still _ _, orderly⟩
  | leaves => exact ⟨(passes_shut c _).leaves_old, orderly_nil _ _⟩
  | @looks d _ _ released _ =>
    have passes := passes_releaseAcked released
    have orderly := passes.orderly (by rwa [List.append_nil])
    refine ⟨passes.leaves_old.trans ?_, ticked_orderly orderly⟩
    have given := abandoned_leaves d [] orderly
    rw [List.append_nil, looksAt, List.append_nil] at given
    exact given
  | @lapses d _ front back _ released split _ _ =>
    have passes := passes_releaseAcked released
    have orderly := passes.orderly (by rwa [List.append_nil])
    refine ⟨passes.leaves_old.trans ?_, orderly_nil _ _⟩
    rw [split] at orderly
    have given := abandoned_leaves d back (orderly.sublist (List.sublist_append_left _ _))
    have closed := passes_shut { d with queue := (d.looksAt now config front back).queue } .userTimeout
    rw [queued, split]
    exact given.trans closed.leaves_old

end Connection

section Events

variable {c c' : Connection} {config : Config} {clock now : Instant} {σ : List Signal} {call : CallId}
  {event : Event} {ds : List Datagram}

theorem befalls_leaves (coherent : c.Coherent) (unmade : call ∉ c.queued)
    (orderly : Orderly config now c.queue) (h : Befalls config now call event c σ ds c') :
    Leaves (c.queued ++ c'.joins call) σ c'.queued ∧ Orderly config now c'.queue := by
  cases h with
  | spared =>
    rw [Connection.joins_not unmade, List.append_nil]
    exact ⟨leaves_still _ _, orderly⟩
  | called _ _ called =>
    obtain ⟨new, passes, adds⟩ := Connection.called_passes called
    exact ⟨adds.leaves passes unmade, passes.orderly (adds.orderly orderly)⟩
  | arrived _ _ _ arrives =>
    obtain ⟨new, passes, adds⟩ := Connection.arrives_passes call coherent arrives
    exact ⟨adds.leaves passes unmade, passes.orderly (adds.orderly orderly)⟩
  | timed ends =>
    obtain ⟨leaves, orderly'⟩ := Connection.timer_leaves orderly ends
    rw [Connection.joins_not fun waits => unmade (leaves.mem waits), List.append_nil]
    exact ⟨leaves, orderly'⟩

end Events

namespace Stack

variable {k k' : Stack} {here : Endpoint} {place : Nat} {event : Event} {clock now : Instant}
  {σ : List Signal} {answer : Answer} {history rest : List (Event × Instant)} {c : Connection}
  {call : CallId}

def queuedAt (k : Stack) (here : Endpoint) : List CallId :=
  match k.table.get? here with
  | some c => c.queued
  | none => []

/-- All calls of a history whose segment was put on the queue at an endpoint, in the order in which they
    were made. -/
def enqueued (k : Stack) (here : Endpoint) (place : Nat) : List (Event × Instant) → List CallId
  | [] => []
  | (event, now) :: rest =>
    match (k.handle event now place).outcome with
    | .ok (k', _) =>
      (if place ∈ k'.queuedAt here then [place] else []) ++ k'.enqueued here (place + 1) rest
    | .error _ => []

theorem enqueued_cons (ends : (k.handle event now place).Ends σ (k', answer)) :
    k.enqueued here place ((event, now) :: rest)
      = (if place ∈ k'.queuedAt here then [place] else []) ++ k'.enqueued here (place + 1) rest := by
  rw [enqueued, ends]

theorem queuedAt_found (found : k.table.get? here = some c) : k.queuedAt here = c.queued := by
  rw [queuedAt, found]

theorem queuedAt_missing (missing : k.table.get? here = none) : k.queuedAt here = [] := by
  rw [queuedAt, missing]

theorem waiting_of_queuedAt (queued : call ∈ k.queuedAt here) : call ∈ k.waiting := by
  cases found : k.table.get? here with
  | none =>
    rw [queuedAt_missing found] at queued
    exact absurd queued List.not_mem_nil
  | some c =>
    rw [queuedAt_found found] at queued
    exact mem_waiting (Table.get?_some found).1 (List.mem_append_left _ queued)

def OrderlyAt (k : Stack) (here : Endpoint) (clock : Instant) : Prop :=
  ∀ c, k.table.get? here = some c → Orderly k.table.config clock c.queue

theorem handle_leaves (sound : Sound place k) (orderly : k.OrderlyAt here clock)
    (onward : clock.millis ≤ now.millis) (ends : (k.handle event now place).Ends σ (k', answer)) :
    Leaves (k.queuedAt here ++ if place ∈ k'.queuedAt here then [place] else []) σ
      (k'.queuedAt here) ∧ k'.OrderlyAt here now := by
  have alike : k'.table.config = k.table.config := (handle_alike event).ends ends
  have empty (none : k'.queuedAt here = []) :
      Leaves (k.queuedAt here ++ if place ∈ k'.queuedAt here then [place] else []) σ
        (k'.queuedAt here) ↔ Leaves (k.queuedAt here) σ [] := by
    rw [none, if_neg List.not_mem_nil, List.append_nil]
  cases found : k.table.get? here with
  | none =>
    rcases handle_absent sound.proper found ends with missing | fresh
    · refine ⟨(empty (queuedAt_missing missing)).mpr ?_, ?_⟩
      · rw [queuedAt_missing found]
        exact leaves_still _ _
      · intro c there
        cases missing.symm.trans there
    · refine ⟨(empty (queuedAt_found fresh)).mpr ?_, ?_⟩
      · rw [queuedAt_missing found]
        exact leaves_still _ _
      · intro c there
        obtain rfl := Option.some.inj (fresh.symm.trans there)
        exact orderly_nil _ _
  | some c =>
    have member := (Table.get?_some found).1
    have coherent := sound.proper.coherent c member
    rcases handle_befalls sound found ends with ⟨⟨closed, _⟩, missing⟩ | ⟨c', _, found', _, befalls⟩
    · refine ⟨(empty (queuedAt_missing missing)).mpr ?_, ?_⟩
      · rw [queuedAt_found found, Connection.queued, coherent.unsent (Or.inl closed)]
        exact leaves_still _ _
      · intro c there
        cases missing.symm.trans there
    · have unmade : place ∉ c.queued :=
        fun queued => sound.unmade member (List.mem_append_left _ queued)
      obtain ⟨leaves, orderly'⟩ := befalls_leaves coherent unmade ((orderly c found).later onward) befalls
      rw [queuedAt_found found, queuedAt_found found']
      refine ⟨leaves.among List.filter_sublist, ?_⟩
      intro d there
      obtain rfl := Option.some.inj (found'.symm.trans there)
      rw [alike]
      exact orderly'

theorem run_leaves (sound : Sound place k) (orderly : k.OrderlyAt here clock)
    (onward : ∀ now ∈ history.map Prod.snd, clock.millis ≤ now.millis) (runs : ClockRuns history)
    (ends : (k.run place history).Ends σ k') :
    Leaves (k.queuedAt here ++ k.enqueued here place history) σ (k'.queuedAt here) := by
  induction history generalizing k place σ clock with
  | nil =>
    obtain ⟨rfl, rfl⟩ := Act.ends_pure.mp ends
    rw [enqueued, List.append_nil]
    exact leaves_still _ _
  | cons head rest ih =>
    obtain ⟨event, now⟩ := head
    obtain ⟨σ₁, k₁, answer, σ₂, first, later, rfl⟩ := run_cons_ends.mp ends
    obtain ⟨onward', runs'⟩ := List.pairwise_cons.mp runs
    obtain ⟨leaves, orderly'⟩ := handle_leaves sound orderly (onward now List.mem_cons_self) first
    rw [enqueued_cons first, ← List.append_assoc]
    exact (leaves.behind _).trans (ih (handle_sound sound first) orderly' onward' runs' later)

theorem le_of_enqueued (queued : call ∈ k.enqueued here place history) : place ≤ call := by
  induction history generalizing k place with
  | nil => exact absurd queued List.not_mem_nil
  | cons head rest ih =>
    unfold enqueued at queued
    split at queued
    · rcases List.mem_append.mp queued with first | later
      · split at first
        · exact Nat.le_of_eq (List.mem_singleton.mp first).symm
        · exact absurd first List.not_mem_nil
      · exact Nat.le_of_succ_le (ih later)
    · exact absurd queued List.not_mem_nil

theorem enqueued_sorted : (k.enqueued here place history).Pairwise (· < ·) := by
  induction history generalizing k place with
  | nil => exact .nil
  | cons head rest ih =>
    unfold enqueued
    split
    · refine List.pairwise_append.mpr ⟨?_, ih, ?_⟩
      · split
        · exact List.pairwise_singleton _ _
        · exact .nil
      · intro call first call' later
        split at first
        · rw [List.mem_singleton.mp first]
          exact le_of_enqueued later
        · exact absurd first List.not_mem_nil
    · exact .nil

theorem madeFrom_nodup : (madeFrom place history).Nodup := by
  induction history generalizing place with
  | nil => exact .nil
  | cons head rest ih =>
    refine List.nodup_append.mpr ⟨?_, ih, ?_⟩
    · unfold Event.made
      split
      · exact List.pairwise_singleton _ _
      · exact .nil
    · rintro call first _ later rfl
      unfold Event.made at first
      split at first
      · have behind := mem_madeFrom later
        rw [List.mem_singleton.mp first] at behind
        exact Nat.not_succ_le_self place behind
      · exact absurd first List.not_mem_nil

/-- Of the calls that were made, those that still wait are the last, and the others were told in the order
    in which they were made. -/
structure ToldInOrder (made : List CallId) (σ : List Signal) (queued : List CallId) : Prop where
  sorted : made.Pairwise (· < ·)
  front : ∃ told, made = told ++ queued ∧ told.Sublist (answered σ)
  untold : ∀ call ∈ queued, call ∉ answered σ
  earlier : ∀ first ∈ made, ∀ later ∈ made, first < later → later ∈ answered σ →
    [first, later].Sublist (answered σ)

theorem toldInOrder_of_leaves {made queued : List CallId} (sorted : made.Pairwise (· < ·))
    (leaves : Leaves made σ queued) (untold : ∀ call ∈ queued, call ∉ answered σ) :
    ToldInOrder made σ queued := by
  obtain ⟨told, split, order⟩ := leaves
  refine ⟨sorted, ⟨told, split, order⟩, untold, ?_⟩
  intro earlier first later second before known
  rw [split] at sorted first second
  have second : later ∈ told :=
    (List.mem_append.mp second).resolve_right fun queued => untold later queued known
  have first : earlier ∈ told := by
    refine (List.mem_append.mp first).resolve_right fun queued => ?_
    exact Nat.lt_asymm before ((List.pairwise_append.mp sorted).2.2 later second earlier queued)
  have pair := pair_sublist (List.pairwise_append.mp sorted).1 first second before
  exact pair.trans order

/-- Calls are told in order from a stack on which none waits, at an endpoint that is not bound yet. -/
theorem run_tells_in_order (here : Endpoint) (sound : Sound place k)
    (missing : k.table.get? here = none) (idle : k.waiting = []) (runs : ClockRuns history)
    (ends : (k.run place history).Ends σ k') :
    ToldInOrder (k.enqueued here place history) σ (k'.queuedAt here) := by
  have leaves : Leaves (k.enqueued here place history) σ (k'.queuedAt here) := by
    have orderly : ∀ clock, k.OrderlyAt here clock := by
      intro clock c found
      cases missing.symm.trans found
    have onward : ∃ clock : Instant, ∀ now ∈ history.map Prod.snd, clock.millis ≤ now.millis := by
      cases history with
      | nil => exact ⟨.start, by simp⟩
      | cons head rest =>
        exact ⟨head.2, List.forall_mem_cons.mpr ⟨Int.le_refl _, (List.pairwise_cons.mp runs).1⟩⟩
    obtain ⟨clock, onward⟩ := onward
    have leaves := run_leaves sound (orderly clock) onward runs ends
    rwa [queuedAt_missing missing, List.nil_append] at leaves
  have once : (answered σ ++ k'.waiting).Nodup := by
    have balanced := run_balances sound.proper ends
    rw [idle, List.nil_append] at balanced
    exact balanced.nodup_iff.mpr madeFrom_nodup
  exact toldInOrder_of_leaves enqueued_sorted leaves fun call queued told =>
    (List.nodup_append.mp once).2.2 call told call (waiting_of_queuedAt queued) rfl

/-- In every history that begins with an empty table and under a clock that does not run backwards, the
    calls whose segment was put on the queue at an endpoint are told in the order in which they were made,
    be it that the segment is acknowledged, that it is given up, or that the connection ends. Those that
    still wait are the last of them, so where one of them was told, every earlier one was told before. -/
theorem calls_told_in_order {config : Config} {generator : SeqGenerator} (here : Endpoint)
    (runs : ClockRuns history) (ends : ((Stack.empty config generator).run 0 history).Ends σ k) :
    let made := (Stack.empty config generator).enqueued here 0 history
    made.Pairwise (· < ·) ∧
    (∃ told, made = told ++ k.queuedAt here ∧ told.Sublist (answered σ)) ∧
    (∀ call ∈ k.queuedAt here, call ∉ answered σ) ∧
    ∀ earlier ∈ made, ∀ later ∈ made, earlier < later → later ∈ answered σ →
      [earlier, later].Sublist (answered σ) := by
  intro made
  have told := run_tells_in_order here (sound_empty config generator) rfl rfl runs ends
  exact ⟨told.sorted, told.front, told.untold, told.earlier⟩

def impatient : List (Event × Instant) :=
  asking ++
    [(agreement, .start), (.send ⟨⟨10, 0, 0, 1⟩, 49152⟩ [97], .start), (.sweep, ⟨12000⟩),
     (.send ⟨⟨10, 0, 0, 1⟩, 49152⟩ [98], ⟨12000⟩), (.sweep, ⟨36000⟩)]

theorem impatient_told_in_order : ∃ σ k,
    ClockRuns impatient ∧
    ((Stack.empty { receiveWindow := 8, maxRetransmits := 2 } (.ofKey 1 2)).run 0 impatient).Ends σ k ∧
    (Stack.empty { receiveWindow := 8, maxRetransmits := 2 } (.ofKey 1 2)).enqueued
      ⟨⟨10, 0, 0, 1⟩, 49152⟩ 0 impatient = [1, 3, 5] ∧
    [1, 3].Sublist (answered σ) ∧ k.queuedAt ⟨⟨10, 0, 0, 1⟩, 49152⟩ = [5] ∧ 5 ∉ answered σ := by
  let start := Stack.empty { receiveWindow := 8, maxRetransmits := 2 } (.ofKey 1 2)
  let k := (start.run 0 impatient).result start
  have runs : ClockRuns impatient := by decide
  have ends : (start.run 0 impatient).Ends _ k := Act.ends_result start (by decide +kernel)
  have made : start.enqueued ⟨⟨10, 0, 0, 1⟩, 49152⟩ 0 impatient = [1, 3, 5] := by decide +kernel
  have queued : k.queuedAt ⟨⟨10, 0, 0, 1⟩, 49152⟩ = [5] := by decide +kernel
  obtain ⟨_, _, untold, ordered⟩ := calls_told_in_order ⟨⟨10, 0, 0, 1⟩, 49152⟩ runs ends
  refine ⟨_, k, runs, ends, made, ?_, queued, untold 5 (by rw [queued]; exact List.mem_singleton_self 5)⟩
  exact ordered 1 (by rw [made]; decide) 3 (by rw [made]; decide) (by decide) (by decide +kernel)

end Stack
end TcpEngine
