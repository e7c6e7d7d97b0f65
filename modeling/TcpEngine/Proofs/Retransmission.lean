import Mathlib.Data.List.Forall2
import Mathlib.Data.List.Nodup
import TcpEngine.Proofs.Acknowledgment
import TcpEngine.Proofs.Connection.Estimate
import TcpEngine.Proofs.Connection.Passing
import TcpEngine.Proofs.Connection.Reviewing
import TcpEngine.Proofs.Stack.Life
import TcpEngine.Proofs.Stack.Settings

/-!
How often and how soon a segment is sent again. Beside the stack it is written down when each segment
that waits was sent, by its call or in answer to a SYN, and then by every sweep. A copy is made only where
there are not enough yet, and where the timeout, doubled for each copy before, has run since the last.
-/
namespace TcpEngine

theorem forall₂_filterMap {R : α → β → Prop} {S : α → γ → Prop} {f : β → Option γ} {as : List α}
    {bs : List β} (each : List.Forall₂ R as bs)
    (step : ∀ a, ∀ b ∈ bs, R a b → ∃ s, f b = some s ∧ S a s) : List.Forall₂ S as (bs.filterMap f) := by
  induction each with
  | nil => exact .nil
  | @cons a b as bs first _ ih =>
    obtain ⟨s, made, fits⟩ := step a b List.mem_cons_self first
    rw [List.filterMap_cons_some made]
    exact .cons fits (ih fun a b member => step a b (List.mem_cons_of_mem _ member))

/-- What was seen of a segment that waits. -/
structure Trail where
  call : Option CallId
  seq : SeqNumber
  text : Octets
  /-- When the segment was sent, the first time and again. -/
  times : List Instant
deriving DecidableEq, Repr

namespace Trail

def follow (trails : List Trail) (again : Trail → Bool) (now : Instant) (e : Unacked) : Trail :=
  match trails.find? fun t => t.call = e.call with
  | none => ⟨e.call, e.seq, e.text, [now]⟩
  | some t => if again t then { t with times := t.times ++ [now] } else t

structure Traces (t : Trail) (e : Unacked) : Prop where
  call : t.call = e.call
  seq : t.seq = e.seq
  text : t.text = e.text
  count : t.times.length = e.retries + 1
  last : t.times.getLast? = some e.lastSent

variable {t : Trail} {trails : List Trail} {again : Trail → Bool} {now : Instant} {e e' : Unacked}
  {queue : List Unacked}

theorem Traces.plain (traces : t.Traces e) (same : e.plain = e'.plain) : t.Traces e' where
  call := traces.call.trans (congrArg Unacked.call same :)
  seq := traces.seq.trans (congrArg Unacked.seq same :)
  text := traces.text.trans (congrArg Unacked.text same :)
  count := traces.count.trans (congrArg (fun e : Unacked => e.retries + 1) same :)
  last := traces.last.trans (congrArg (fun e : Unacked => some e.lastSent) same :)

theorem Traces.resent (traces : t.Traces e) (now : Instant) :
    Traces { t with times := t.times ++ [now] } (e.again now) where
  call := traces.call
  seq := traces.seq
  text := traces.text
  count := by
    rw [List.length_append, traces.count]
    rfl
  last := List.getLast?_concat

theorem follow_new (new : ∀ t ∈ trails, t.call ≠ e.call) :
    follow trails again now e = ⟨e.call, e.seq, e.text, [now]⟩ := by
  have none : (trails.find? fun t => t.call = e.call) = none := by
    rw [List.find?_eq_none]
    intro t member same
    exact new t member (of_decide_eq_true same)
  rw [follow, none]

theorem traces_new (fresh : e.retries = 0 ∧ e.lastSent = now) :
    Traces ⟨e.call, e.seq, e.text, [now]⟩ e where
  call := rfl
  seq := rfl
  text := rfl
  count := by
    rw [fresh.1]
    rfl
  last := congrArg some fresh.2.symm

theorem follow_known (each : List.Forall₂ Traces trails queue)
    (apart : (queue.map Unacked.call).Nodup) (member : e ∈ queue) :
    ∃ t ∈ trails, t.Traces e ∧ ∀ again now e', e'.call = e.call →
      follow trails again now e' = if again t then { t with times := t.times ++ [now] } else t := by
  suffices found : ∃ t ∈ trails, t.Traces e ∧ (trails.find? fun t => t.call = e.call) = some t by
    obtain ⟨t, there, traces, found⟩ := found
    refine ⟨t, there, traces, fun again now e' same => ?_⟩
    rw [follow, same, found]
  induction each with
  | nil => exact absurd member List.not_mem_nil
  | @cons t d trails queue first others ih =>
    rw [List.map_cons, List.nodup_cons] at apart
    rcases List.mem_cons.mp member with rfl | member
    · exact ⟨t, List.mem_cons_self, first, List.find?_cons_of_pos (by simp [first.call])⟩
    · obtain ⟨t', there, traces, found⟩ := ih apart.2 member
      have other : t.call ≠ e.call := by
        rw [first.call]
        exact fun same => apart.1 (same ▸ List.mem_map_of_mem member)
      refine ⟨t', List.mem_cons_of_mem _ there, traces, ?_⟩
      rw [List.find?_cons_of_neg (by simpa using other)]
      exact found

theorem calls_eq (each : List.Forall₂ Traces trails queue) :
    trails.map Trail.call = queue.map Unacked.call := by
  induction each with
  | nil => rfl
  | cons first _ ih => rw [List.map_cons, List.map_cons, first.call, ih]

theorem filter_traces {p : Option CallId → Bool} (each : List.Forall₂ Traces trails queue) :
    List.Forall₂ Traces (trails.filter fun t => p t.call) (queue.filter fun e => p e.call) := by
  induction each with
  | nil => exact .nil
  | cons first _ ih =>
    simp only [List.filter_cons, first.call]
    split
    · exact .cons first ih
    · exact ih

end Trail

/-- The segment `s` is a copy, made at this time, of the segment with this trail. There are fewer before it
    than allowed, and since the last the timeout has run, doubled for each of them. -/
structure Copied (config : Config) (now : Instant) (c : Connection) (t : Trail) (s : Segment) : Prop where
  few : t.times.length < max 1 config.maxRetransmits
  spaced : ∃ previous, t.times.getLast? = some previous ∧
    min Instant.last (previous.millis + Instant.step
      (c.roundTrip.timeout.timesOrLongest (min (2 ^ (t.times.length - 1)) (2 ^ 32 - 1)))) ≤ now.millis
  seq : s.header.seq = t.seq
  text : s.text = t.text
  ack : s.header.flags.has .ack = true → s.header.ack = some c.receive.next

structure Traced (config : Config) (trails : List Trail) (c : Connection) : Prop where
  each : List.Forall₂ Trail.Traces trails c.queue
  apart : (c.queue.map Unacked.call).Nodup
  spared : ∀ e ∈ c.queue, e.Spared config

theorem Traced.unseen {config : Config} {trails : List Trail} {c : Connection} {e : Unacked}
    (traced : Traced config trails c) (unseen : e.call ∉ c.queue.map Unacked.call) :
    ∀ t ∈ trails, t.call ≠ e.call := by
  intro t member same
  rw [← Trail.calls_eq traced.each, ← same] at unseen
  exact unseen (List.mem_map_of_mem member)

theorem Unacked.spared_plain {config : Config} {e e' : Unacked} (same : e.plain = e'.plain) :
    e.Spared config ↔ e'.Spared config :=
  (congrArg (Unacked.Spared config) same).to_iff

namespace Connection

variable {c c' d : Connection} {config : Config} {now : Instant} {σ : List Signal} {again : List Unacked}
  {new : List Unacked} {call : CallId} {trails : List Trail} {t : Trail} {e : Unacked}
  {segments : List Segment}

def sendsAgain (c : Connection) (now : Instant) (config : Config) (t : Trail) : Bool :=
  (c.repeats now config).any fun e => e.call = t.call

def copies (c : Connection) (now : Instant) (config : Config) : List Segment :=
  match (c.onTimer now config).outcome with
  | .ok (_, segments) => segments
  | .error _ => []

theorem copies_eq (ends : (c.onTimer now config).Ends σ (c', segments)) :
    c.copies now config = segments := by
  rw [copies, ends]

theorem traced_nil (apart : c.queue = []) : Traced config [] c where
  each := by
    rw [apart]
    exact .nil
  apart := by
    rw [apart]
    exact .nil
  spared := by
    rw [apart]
    exact fun _ member => absurd member List.not_mem_nil

theorem map_plain (queue : List Unacked) :
    (queue.map Unacked.plain).map Unacked.call = queue.map Unacked.call := by
  rw [List.map_map]
  rfl

theorem Passes.origin (passes : Passes c new σ c') {e' : Unacked} (member : e' ∈ c'.queue) :
    ∃ e, (e ∈ c.queue ∨ e ∈ new) ∧ e.plain = e'.plain := by
  obtain ⟨off, split, _⟩ := passes
  have there : e'.plain ∈ (c.queue ++ new).map Unacked.plain := by
    rw [split]
    exact List.mem_append_right _ (List.mem_map_of_mem member)
  obtain ⟨e, old, same⟩ := List.mem_map.mp there
  exact ⟨e, List.mem_append.mp old, same⟩

theorem Passes.apart (passes : Passes c new σ c')
    (apart : ((c.queue ++ new).map Unacked.call).Nodup) : (c'.queue.map Unacked.call).Nodup := by
  obtain ⟨off, split, _⟩ := passes
  have part : ((c'.queue.map Unacked.plain).map Unacked.call).Sublist
      (((c.queue ++ new).map Unacked.plain).map Unacked.call) := by
    rw [split]
    exact (List.sublist_append_right _ _).map _
  rw [map_plain, map_plain] at part
  exact apart.sublist part

theorem Adds.apart (adds : Adds now call c σ new) (unmade : call ∉ c.queued)
    (apart : (c.queue.map Unacked.call).Nodup) : ((c.queue ++ new).map Unacked.call).Nodup := by
  cases adds with
  | nothing =>
    rw [List.append_nil]
    exact apart
  | called _ _ mine =>
    rw [List.map_append, List.map_singleton, mine, List.nodup_append]
    refine ⟨apart, List.nodup_singleton _, ?_⟩
    rintro _ member _ own rfl
    obtain ⟨e, there, same⟩ := List.mem_map.mp member
    rw [List.mem_singleton.mp own] at same
    exact unmade (List.mem_filterMap.mpr ⟨e, there, same⟩)
  | answer _ _ _ alone =>
    rw [alone]
    exact List.nodup_singleton _

theorem Adds.unseen (adds : Adds now call c σ new) (unmade : call ∉ c.queued) (member : e ∈ new) :
    (e.retries = 0 ∧ e.lastSent = now) ∧ e.call ∉ c.queue.map Unacked.call := by
  cases adds with
  | nothing => exact absurd member List.not_mem_nil
  | called _ fresh mine =>
    rw [List.mem_singleton.mp member]
    refine ⟨fresh, fun there => ?_⟩
    obtain ⟨d, waits, same⟩ := List.mem_map.mp there
    exact unmade (List.mem_filterMap.mpr ⟨d, waits, same.trans mine⟩)
  | answer _ fresh _ alone =>
    rw [List.mem_singleton.mp member, alone]
    exact ⟨fresh, List.not_mem_nil⟩

/-- What a call or a segment does to the queue is seen, where nothing is sent again. -/
theorem traced_passes (traced : Traced config trails c) (unmade : call ∉ c.queued)
    (passes : Passes c new σ c') (adds : Adds now call c σ new) :
    Traced config (c'.queue.map (Trail.follow trails (fun _ => false) now)) c' where
  each := by
    rw [List.forall₂_map_left_iff, List.forall₂_same]
    intro e' member
    obtain ⟨e, old | new, same⟩ := passes.origin member
    · obtain ⟨t, _, traces, known⟩ := Trail.follow_known traced.each traced.apart old
      rw [known _ _ e' (congrArg Unacked.call same :).symm, if_neg Bool.false_ne_true]
      exact traces.plain same
    · obtain ⟨fresh, unseen⟩ := adds.unseen unmade new
      have seen : Trail.follow trails (fun _ => false) now e = Trail.follow trails (fun _ => false) now e' :=
        (congrArg (Trail.follow trails (fun _ => false) now) same :)
      rw [← seen, Trail.follow_new (traced.unseen unseen)]
      exact (Trail.traces_new fresh).plain same
  apart := passes.apart (adds.apart unmade traced.apart)
  spared := by
    intro e' member
    obtain ⟨e, old | new, same⟩ := passes.origin member
    · exact (Unacked.spared_plain same).mp (traced.spared e old)
    · exact (Unacked.spared_plain same).mp (Or.inl (adds.unseen unmade new).1.1)

theorem releaseAcked_split (released : (c.releaseAcked now).Ends σ d) :
    ∃ done, c.queue = done ++ d.queue ∧ σ = (done.filterMap Unacked.call).map Signal.tellsDone ∧
      d.foreign = c.foreign := by
  obtain ⟨queue, roundTrip, ends, rfl⟩ := releaseAcked_ends released
  obtain ⟨done, released, told⟩ := release_ends ends
  exact ⟨done, released.split, told, rfl⟩

theorem left_apart {done : List Unacked} (traced : Traced config trails c)
    (split : c.queue = done ++ d.queue) :
    (d.queue.map Unacked.call).Nodup ∧ ∀ e ∈ done, ∀ e' ∈ d.queue, e.call ≠ e'.call := by
  have apart := traced.apart
  rw [split, List.map_append, List.nodup_append] at apart
  exact ⟨apart.2.1, fun e gone e' kept =>
    apart.2.2 _ (List.mem_map_of_mem gone) _ (List.mem_map_of_mem kept)⟩

theorem repeated_unique {e e' : Unacked} (apart : (d.queue.map Unacked.call).Nodup) (member : e ∈ d.queue)
    (member' : e' ∈ (d.queue.filter (Unacked.repeated d now config)).map (Unacked.again now))
    (same : e'.call = e.call) : e.repeated d now config = true := by
  obtain ⟨e₀, there, rfl⟩ := List.mem_map.mp member'
  obtain ⟨there, due⟩ := List.mem_filter.mp there
  rw [← List.inj_on_of_nodup_map apart there member same]
  exact due

theorem any_repeated (apart : (d.queue.map Unacked.call).Nodup) (member : e ∈ d.queue)
    (again : c.repeats now config
      = (d.queue.filter (Unacked.repeated d now config)).map (Unacked.again now)) :
    ((c.repeats now config).any fun e' => e'.call = e.call) = e.repeated d now config := by
  rw [again, Bool.eq_iff_iff, List.any_eq_true]
  constructor
  · rintro ⟨e', member', same⟩
    exact repeated_unique apart member member' (of_decide_eq_true same)
  · intro due
    exact ⟨e.again now, List.mem_map_of_mem (List.mem_filter.mpr ⟨member, due⟩), decide_eq_true rfl⟩

/-- What the look of the timer does to the queue is seen. -/
theorem traced_ticked {done : List Unacked} (traced : Traced config trails c)
    (split : c.queue = done ++ d.queue)
    (again : c.repeats now config
      = (d.queue.filter (Unacked.repeated d now config)).map (Unacked.again now)) :
    Traced config ((d.ticked now config).queue.map
      (Trail.follow trails (c.sendsAgain now config) now)) (d.ticked now config) := by
  have within {e : Unacked} (member : e ∈ d.queue) : e ∈ c.queue := by
    rw [split]
    exact List.mem_append_right _ member
  have apart := (left_apart traced split).1
  constructor
  · rw [List.forall₂_map_left_iff, List.forall₂_same]
    intro e' member
    obtain ⟨e, kept, rfl⟩ := List.mem_map.mp member
    obtain ⟨there, kept⟩ := List.mem_filter.mp kept
    rw [Bool.not_eq_true'] at kept
    obtain ⟨t, _, traces, known⟩ := Trail.follow_known traced.each traced.apart (within there)
    have often : c.sendsAgain now config t = e.repeated d now config := by
      rw [sendsAgain, traces.call, any_repeated apart there again]
    rw [known _ _ _ (Unacked.looked_call e), often]
    cases due : e.due d now with
    | true =>
      obtain ⟨spent, _⟩ | ⟨_, once⟩ := Unacked.due_cases config due
      · cases kept.symm.trans spent
      · rw [if_pos once, Unacked.looked_due due]
        exact traces.resent now
    | false =>
      rw [(Unacked.repeated_early due).2, if_neg Bool.false_ne_true, Unacked.looked_early due]
      exact traces
  · have calls : (d.ticked now config).queue.map Unacked.call
        = (d.queue.filter fun e => !e.givenUp d now config).map Unacked.call := by
      rw [ticked, List.map_map]
      exact List.map_congr_left fun e _ => Unacked.looked_call e
    rw [calls]
    exact apart.sublist (List.filter_sublist.map _)
  · intro e' member
    obtain ⟨e, kept, rfl⟩ := List.mem_map.mp member
    obtain ⟨there, kept⟩ := List.mem_filter.mp kept
    exact Unacked.looked_spared (traced.spared e (within there)) (by simpa using kept)

/-- What the timer does to the queue is seen. -/
theorem traced_timer (traced : Traced config trails c)
    (ends : (c.onTimer now config).Ends σ (c', segments)) :
    Traced config (c'.queue.map (Trail.follow trails (c.sendsAgain now config) now)) c' := by
  obtain ⟨ticks, _⟩ := onTimer_ticks ends
  generalize again : c.repeats now config = resent at ticks
  cases ticks with
  | rests =>
    refine ⟨?_, traced.apart, traced.spared⟩
    rw [List.forall₂_map_left_iff, List.forall₂_same]
    intro e member
    obtain ⟨t, _, traces, known⟩ := Trail.follow_known traced.each traced.apart member
    rw [known _ _ e rfl, sendsAgain, again, List.any_nil, if_neg Bool.false_ne_true]
    exact traces
  | leaves | lapses => exact traced_nil rfl
  | looks _ released _ =>
    obtain ⟨done, split, _, _⟩ := releaseAcked_split released
    exact traced_ticked traced split again

theorem copied_repeated {s : Segment} (traces : t.Traces e) (due : e.repeated c now config = true)
    (sent : c.segment e.flags e.seq e.text = some s) : Copied config now c t s := by
  simp only [Unacked.repeated, Bool.and_eq_true, Bool.not_eq_true', decide_eq_false_iff_not] at due
  obtain ⟨out, seldom⟩ := due
  obtain ⟨foreign, _, rfl⟩ := Option.map_eq_some_iff.mp sent
  refine ⟨?_, ⟨e.lastSent, traces.last, ?_⟩, traces.seq.symm, traces.text.symm, ?_⟩
  · rw [traces.count]
    omega
  · rw [traces.count, Nat.add_sub_cancel, ← RoundTrip.backoff_eq]
    have reached := of_decide_eq_true out
    simp only [Instant.later, Instant.nearest] at reached
    omega
  · intro acks
    exact if_pos acks

theorem sentAgain_traced {done : List Unacked} (traced : Traced config trails c)
    (split : c.queue = done ++ d.queue)
    (again : c.repeats now config
      = (d.queue.filter (Unacked.repeated d now config)).map (Unacked.again now)) :
    List.Forall₂ Trail.Traces (trails.filter (c.sendsAgain now config))
      (d.queue.filter (Unacked.repeated d now config)) := by
  obtain ⟨apart, others⟩ := left_apart traced split
  have gone : (done.filter fun e => (c.repeats now config).any fun e' => e'.call = e.call) = [] := by
    refine List.filter_eq_nil_iff.mpr fun e member once => ?_
    obtain ⟨e', member', same⟩ := List.any_eq_true.mp once
    rw [again] at member'
    obtain ⟨e₀, there, rfl⟩ := List.mem_map.mp member'
    exact others e member e₀ (List.mem_filter.mp there).1 (of_decide_eq_true same).symm
  have kept : (d.queue.filter fun e => (c.repeats now config).any fun e' => e'.call = e.call)
      = d.queue.filter (Unacked.repeated d now config) :=
    List.filter_congr fun e member => any_repeated apart member again
  have each := Trail.filter_traces (p := fun call => (c.repeats now config).any fun e => e.call = call)
    traced.each
  rw [split, List.filter_append, gone, kept] at each
  exact each

theorem copies_traced (coherent : c.Coherent) (traced : Traced config trails c)
    (ends : (c.onTimer now config).Ends σ (c', segments)) :
    List.Forall₂ (Copied config now c') (trails.filter (c.sendsAgain now config)) segments := by
  obtain ⟨ticks, rfl⟩ := onTimer_ticks ends
  generalize again : c.repeats now config = resent at ticks
  cases ticks with
  | rests | leaves | lapses =>
    have none : trails.filter (c.sendsAgain now config) = [] := by
      refine List.filter_eq_nil_iff.mpr fun t _ => ?_
      rw [sendsAgain, again]
      exact Bool.false_ne_true
    rw [none]
    exact .nil
  | @looks d _ _ released _ =>
    obtain ⟨done, split, _, peer⟩ := releaseAcked_split released
    rw [List.filterMap_map]
    refine forall₂_filterMap (sentAgain_traced traced split again) fun t e member traces => ?_
    obtain ⟨there, due⟩ := List.mem_filter.mp member
    have busy : c.queue ≠ [] := by
      rw [split]
      exact List.append_ne_nil_of_right_ne_nil _ (List.ne_nil_of_mem there)
    obtain ⟨foreign, known⟩ := Option.isSome_iff_exists.mp (coherent.known
      (fun closed => busy (coherent.unsent (Or.inl closed)))
      (fun listen => busy (coherent.unsent (Or.inr listen))))
    obtain ⟨s, sent⟩ : ∃ s, (d.ticked now config).segment e.flags e.seq e.text = some s :=
      Option.isSome_iff_exists.mp (by
        rw [segment, Option.isSome_map]
        exact (congrArg Option.isSome (peer.trans known)).trans rfl)
    exact ⟨s, sent, copied_repeated (c := d.ticked now config) traces due sent⟩

theorem mem_abandoned {front : List Unacked} : call ∈ d.abandoned now config front ↔
    ∃ e ∈ front, e.givenUp d now config = true ∧ e.call = some call := by
  simp only [abandoned, List.mem_filterMap, List.mem_filter, and_assoc]

theorem givenUp_traced (traced : Traced config trails c) (waits : e ∈ c.queue)
    (spent : e.givenUp d now config = true) :
    ∃ t ∈ trails, t.call = e.call ∧ t.times.length = max 1 config.maxRetransmits := by
  obtain ⟨t, seen, traces, _⟩ := Trail.follow_known traced.each traced.apart waits
  refine ⟨t, seen, traces.call, ?_⟩
  have spared := traced.spared e waits
  simp only [Unacked.givenUp, Bool.and_eq_true, decide_eq_true_eq] at spent
  rw [traces.count]
  rcases spared with none | below
  · omega
  · omega

/-- A call fails for the timer once its segment was sent as often as allowed. -/
theorem timeout_traced (traced : Traced config trails c)
    (ends : (c.onTimer now config).Ends σ (c', segments))
    (told : Signal.fails .retransmissionTimeout call ∈ σ) :
    ∃ t ∈ trails, t.call = some call ∧ t.times.length = max 1 config.maxRetransmits := by
  obtain ⟨ticks, _⟩ := onTimer_ticks ends
  have other {error : CallError} {calls : List CallId} (different : error ≠ .retransmissionTimeout) :
      Signal.fails .retransmissionTimeout call ∉ calls.map (Signal.fails error) := by
    rw [List.mem_map]
    rintro ⟨_, _, same⟩
    cases same
    exact different rfl
  have exhausted {d : Connection} {ρ : List Signal} {front back : List Unacked}
      (released : (c.releaseAcked now).Ends ρ d) (parts : d.queue = front ++ back)
      (told : Signal.fails .retransmissionTimeout call
        ∈ ρ ++ (d.abandoned now config front).map (Signal.fails .retransmissionTimeout)) :
      ∃ t ∈ trails, t.call = some call ∧ t.times.length = max 1 config.maxRetransmits := by
    obtain ⟨done, split, rfl, _⟩ := releaseAcked_split released
    rcases List.mem_append.mp told with acked | given
    · obtain ⟨_, _, same⟩ := List.mem_map.mp acked
      cases same
    · obtain ⟨_, member, same⟩ := List.mem_map.mp given
      cases same
      obtain ⟨e, there, spent, mine⟩ := mem_abandoned.mp member
      have waits : e ∈ c.queue := by
        rw [split, parts]
        exact List.mem_append_right _ (List.mem_append_left _ there)
      rw [← mine]
      exact givenUp_traced traced waits spent
  generalize c.repeats now config = again at ticks
  cases ticks with
  | rests => exact absurd told List.not_mem_nil
  | leaves => exact absurd told (other (by decide))
  | looks _ released _ => exact exhausted released (List.append_nil _).symm told
  | lapses _ released parts _ _ =>
    rw [← List.append_assoc, List.mem_append] at told
    exact exhausted released parts (told.resolve_right (other (by decide)))

end Connection

variable {config : Config} {now : Instant} {call : CallId} {event : Event} {c c' : Connection}
  {σ : List Signal} {ds : List Datagram} {connections connections' : List Connection}
  {segments : List Segment}

theorem swept_copies (swept : Swept now config connections σ connections' segments) :
    segments = connections.flatMap fun c => c.copies now config := by
  induction swept with
  | nil => rfl
  | cons first _ ih => rw [List.flatMap_cons, Connection.copies_eq first, ← ih]

theorem swept_told {signal : Signal} (swept : Swept now config connections σ connections' segments)
    (told : signal ∈ σ) : ∃ c ∈ connections, ∃ c' ρ own,
      (c.onTimer now config).Ends ρ (c', own) ∧ signal ∈ ρ := by
  induction swept with
  | nil => exact absurd told List.not_mem_nil
  | cons first _ ih =>
    rcases List.mem_append.mp told with mine | later
    · exact ⟨_, List.mem_cons_self, _, _, _, first, mine⟩
    · obtain ⟨c, member, found⟩ := ih later
      exact ⟨c, List.mem_cons_of_mem _ member, found⟩

namespace Stack

variable {k k' : Stack} {here : Endpoint} {place : Nat} {answer : Answer} {τ : List Signal}
  {history rest : List (Event × Instant)} {seen : List Trail} {table' : Table}

def sendsAgain (k : Stack) (here : Endpoint) (event : Event) (now : Instant) (t : Trail) : Bool :=
  event = .sweep && (k.table.get? here).any fun c => c.sendsAgain now k.table.config t

def trace (k k' : Stack) (here : Endpoint) (event : Event) (now : Instant) (trails : List Trail) :
    List Trail :=
  match k'.table.get? here with
  | some c' => c'.queue.map (Trail.follow trails (k.sendsAgain here event now) now)
  | none => []

/-- The trails of the segments that wait at an endpoint after a history. -/
def trails (k : Stack) (here : Endpoint) (seen : List Trail) (place : Nat) :
    List (Event × Instant) → List Trail
  | [] => seen
  | (event, now) :: rest =>
    match (k.handle event now place).outcome with
    | .ok (k', _) => k'.trails here (k.trace k' here event now seen) (place + 1) rest
    | .error _ => seen

theorem trails_cons (ends : (k.handle event now place).Ends σ (k', answer)) :
    k.trails here seen place ((event, now) :: rest)
      = k'.trails here (k.trace k' here event now seen) (place + 1) rest := by
  rw [trails, ends]

theorem sendsAgain_awake (awake : event ≠ .sweep) :
    k.sendsAgain here event now = fun _ => false := by
  funext t
  rw [sendsAgain, decide_eq_false awake, Bool.false_and]

theorem sendsAgain_sweep (found : k.table.get? here = some c) :
    k.sendsAgain here .sweep now = c.sendsAgain now k.table.config := by
  funext t
  rw [sendsAgain, found]
  rfl

def TracedAt (k : Stack) (here : Endpoint) (seen : List Trail) : Prop :=
  ∀ c, k.table.get? here = some c → Traced k.table.config seen c ∧ c.roundTrip.Bounded k.table.config

theorem befalls_traced (coherent : c.Coherent) (unmade : call ∉ c.queued)
    (found : k.table.get? here = some c) (traced : Traced k.table.config seen c)
    (h : Befalls k.table.config now call event c σ ds c') :
    Traced k.table.config (c'.queue.map (Trail.follow seen (k.sendsAgain here event now) now)) c' := by
  cases h with
  | spared _ _ awake =>
    rw [sendsAgain_awake awake]
    have kept : c.Passes [] [] c := Connection.passes_kept rfl
    exact Connection.traced_passes traced unmade kept .nothing
  | called _ callee called =>
    have awake : event ≠ .sweep := by
      rintro rfl
      cases callee
    rw [sendsAgain_awake awake]
    obtain ⟨new, passes, adds⟩ := Connection.called_passes called
    exact Connection.traced_passes traced unmade passes adds
  | arrived _ brings _ arrives =>
    have awake : event ≠ .sweep := by
      rintro rfl
      cases brings
    rw [sendsAgain_awake awake]
    obtain ⟨new, passes, adds⟩ := Connection.arrives_passes call coherent arrives
    exact Connection.traced_passes traced unmade passes adds
  | timed ends =>
    rw [sendsAgain_sweep found]
    exact Connection.traced_timer traced ends

theorem handle_traced (sound : Sound place k) (traced : k.TracedAt here seen)
    (ends : (k.handle event now place).Ends σ (k', answer)) :
    k'.TracedAt here (k.trace k' here event now seen) := by
  intro c' found'
  rw [show k'.table.config = k.table.config from (handle_alike event).ends ends, trace, found']
  rcases handle_origin sound ends found' with ⟨_, rfl⟩ | ⟨c, _, found, _, befalls⟩
  · exact ⟨Connection.traced_nil rfl, RoundTrip.bounded_start _⟩
  · obtain ⟨traced, bounded⟩ := traced c found
    have member := (Table.get?_some found).1
    have coherent := sound.proper.coherent c member
    have unmade : place ∉ c.queued :=
      fun queued => sound.unmade member (List.mem_append_left _ queued)
    exact ⟨befalls_traced coherent unmade found traced befalls,
      befalls_bounded coherent bounded befalls⟩

theorem run_traced (sound : Sound place k) (traced : k.TracedAt here seen)
    (ends : (k.run place history).Ends σ k') :
    k'.TracedAt here (k.trails here seen place history) := by
  induction history generalizing k place σ seen with
  | nil =>
    obtain ⟨_, rfl⟩ := Act.ends_pure.mp ends
    exact traced
  | cons head rest ih =>
    obtain ⟨event, now⟩ := head
    obtain ⟨_, _, _, _, first, later, _⟩ := run_cons_ends.mp ends
    rw [trails_cons first]
    exact ih (handle_sound sound first) (handle_traced sound traced first) later

theorem run_seen {config : Config} {generator : SeqGenerator} (here : Endpoint)
    (ends : ((Stack.empty config generator).run 0 history).Ends σ k) :
    k.TracedAt here ((Stack.empty config generator).trails here [] 0 history) :=
  run_traced (sound_empty config generator) (fun _ found => by cases found) ends

theorem sweep_swept (sweeps : (k.table.sweep now).Ends τ (table', segments)) :
    Swept now k.table.config k.table.connections τ table'.connections segments := by
  simp only [Table.sweep, Act.ends_bind, Act.ends_pure, Prod.mk.injEq] at sweeps
  obtain ⟨_, _, _, swept, ⟨rfl, rfl, rfl⟩, rfl⟩ := sweeps
  rw [List.append_nil]
  exact sweepAll_ends swept

theorem sweep_timed (proper : Proper k) (found : k.table.get? here = some c)
    (sweeps : (k.table.sweep now).Ends τ (table', segments)) :
    ∃ c' ρ own, table'.get? here = some c' ∧ (c.onTimer now k.table.config).Ends ρ (c', own) := by
  obtain ⟨before, behind, parts, _⟩ := Table.split_at proper.distinct found
  have swept := sweep_swept sweeps
  have heres := (swept_proper swept proper.coherent).1
  have distinct : table'.Distinct := by
    unfold Table.Distinct
    rw [heres]
    exact proper.distinct
  rw [parts] at swept
  obtain ⟨_, c', _, _, ρ, _, _, own, _, _, ends, _, table, _, _⟩ := swept.split
  have there : c' ∈ table'.connections := by
    rw [table]
    exact List.mem_append_right _ List.mem_cons_self
  have same : c'.here = here := by
    rw [Connection.turns_here (Connection.onTimer_turns ends).1]
    exact (Table.get?_some found).2
  exact ⟨c', ρ, own, same ▸ Table.get?_of_mem distinct there, ends⟩

/-- In every history that begins with an empty table, what a sweep sends again are the copies that the timer
    of each connection makes, each of one of the segments that wait. No segment is sent more often than is
    allowed, and none before the timeout, doubled for each copy before, has run since it was sent last. The
    timeout stays between the bounds of the settings, or is the one they begin with. And a call that fails
    for the timer is one whose segment was sent as often as allowed. -/
theorem copies_bounded_and_spaced {config : Config} {generator : SeqGenerator}
    (ends : ((Stack.empty config generator).run 0 history).Ends σ k)
    (sweeps : (k.table.sweep now).Ends τ (table', segments)) :
    (segments = k.table.connections.flatMap fun c => c.copies now config) ∧
    (∀ here c, k.table.get? here = some c → c.roundTrip.Bounded config ∧
      ∃ c', table'.get? here = some c' ∧ c'.roundTrip.Bounded config ∧
        List.Forall₂ (Copied config now c')
          (((Stack.empty config generator).trails here [] 0 history).filter (c.sendsAgain now config))
          (c.copies now config)) ∧
    ∀ call, Signal.fails .retransmissionTimeout call ∈ τ → ∃ here,
      ∃ t ∈ (Stack.empty config generator).trails here [] 0 history,
        t.call = some call ∧ t.times.length = max 1 config.maxRetransmits := by
  have start := sound_empty config generator
  have sound := run_sound start ends
  have same : k.table.config = config := run_alike ends
  have traced here := run_seen here ends
  have swept := sweep_swept sweeps
  refine ⟨?_, ?_, ?_⟩
  · rw [← same]
    exact swept_copies swept
  · intro here c found
    obtain ⟨traced, bounded⟩ := traced here c found
    obtain ⟨c', ρ, own, found', timed⟩ := sweep_timed sound.proper found sweeps
    rw [same] at traced bounded timed
    have turns := (Connection.onTimer_turns timed).1
    have bounded' := turns.keeps (P := fun d => d.roundTrip.Bounded config) Connection.bounded_turn bounded
    refine ⟨bounded, c', found', bounded', ?_⟩
    rw [Connection.copies_eq timed]
    exact Connection.copies_traced (sound.proper.found found) traced timed
  · intro call told
    obtain ⟨c, member, c', ρ, own, timed, told⟩ := swept_told swept told
    obtain ⟨traced, _⟩ := traced c.here c (get?_of_there sound.proper member)
    rw [same] at traced timed
    exact ⟨c.here, Connection.timeout_traced traced timed told⟩

def patient : List (Event × Instant) := asking ++ [(.sweep, ⟨10000⟩)]

theorem opening_spaced : ∃ σ k τ table' segments c' t s,
    ((Stack.empty { receiveWindow := 8 } (.ofKey 1 2)).run 0 patient).Ends σ k ∧
    (k.table.sweep ⟨30000⟩).Ends τ (table', segments) ∧ segments = [s] ∧
    (Stack.empty { receiveWindow := 8 } (.ofKey 1 2)).trails ⟨⟨10, 0, 0, 1⟩, 49152⟩ [] 0 patient = [t] ∧
    t.call = some 1 ∧ t.times = [.start, ⟨10000⟩] ∧
    table'.get? ⟨⟨10, 0, 0, 1⟩, 49152⟩ = some c' ∧ Copied { receiveWindow := 8 } ⟨30000⟩ c' t s := by
  let start := Stack.empty { receiveWindow := 8 } (.ofKey 1 2)
  let k := (start.run 0 patient).result start
  let swept := (k.table.sweep ⟨30000⟩).result (k.table, [])
  let here : Endpoint := ⟨⟨10, 0, 0, 1⟩, 49152⟩
  let c := (k.table.get? here).getD (.bound here {})
  let t := (start.trails here [] 0 patient).headD ⟨none, ⟨0⟩, [], []⟩
  have ends : (start.run 0 patient).Ends _ k := Act.ends_result start (by decide +kernel)
  have sweeps : (k.table.sweep ⟨30000⟩).Ends _ swept := Act.ends_result (k.table, []) (by decide +kernel)
  have found : k.table.get? here = some c := by decide +kernel
  have alone : k.table.connections = [c] := by decide +kernel
  have trails : start.trails here [] 0 patient = [t] := by decide +kernel
  have call : t.call = some 1 := by decide +kernel
  have times : t.times = [.start, ⟨10000⟩] := by decide +kernel
  have again : c.sendsAgain ⟨30000⟩ { receiveWindow := 8 } t = true := by decide +kernel
  clear_value swept c t k
  obtain ⟨made, each, _⟩ := copies_bounded_and_spaced ends sweeps.pair
  obtain ⟨_, c', found', _, copied⟩ := each here c found
  rw [alone, List.flatMap_singleton] at made
  rw [trails, List.filter_cons_of_pos again, List.filter_nil, ← made] at copied
  obtain ⟨s, others, first, rest, segments⟩ := List.forall₂_cons_left_iff.mp copied
  cases rest
  exact ⟨_, k, _, swept.1, _, c', t, s, ends, sweeps.pair, segments, trails, call, times, found', first⟩

end Stack
end TcpEngine
