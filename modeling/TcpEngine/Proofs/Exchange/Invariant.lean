import TcpEngine.Proofs.Exchange.Basic

/-!
What both sides of an exchange keep. Each stands towards the other, and the network holds only what
is so. An event at one side changes that side as its connection evolves, and leaves the other side
standing, as what was said and heard only grows.
-/
namespace TcpEngine

open Connection

theorem Connection.Hearing.grows {st st' : Stream} {low : Nat} {got : Octets} {c : Connection}
    (h : Hearing st low got c) (grows : st.Grows st') : Hearing st' low got c where
  text := h.text.trans grows.text
  early := h.early
  live := fun live => ⟨(h.live live).1.grows grows, (h.live live).2⟩

theorem Connection.Standing.follows {peer : Endpoint} {mine theirs theirs' : Option Stream}
    {reach reached reached' : Nat} {got : Octets} {c : Connection}
    (h : Standing peer mine theirs reach reached got c) (follows : Stream.Follows theirs theirs')
    (forward : reached ≤ reached') : Standing peer mine theirs' reach reached' got c := by
  have before (st' : Stream) (there : theirs' = none ∨ theirs' = some st') :
      theirs = none ∨ ∃ st, theirs = some st ∧ st.Grows st' := by
    cases said : theirs with
    | none => exact Or.inl rfl
    | some st =>
      obtain ⟨later, same, grows⟩ := follows st said
      rcases there with unsaid | there
      · cases unsaid.symm.trans same
      · cases there.symm.trans same
        exact Or.inr ⟨st, rfl, grows⟩
  refine ⟨h.towards, h.coherent, h.unborn, fun busy => ?_, fun st' there => ?_, h.exact',
    fun st' there => ?_⟩
  · obtain ⟨st, unacked, said, known, speaking⟩ := h.speaking busy
    exact ⟨st, unacked, said, Nat.le_trans known forward, speaking⟩
  · rcases before st' there with unsaid | ⟨st, said, grows⟩
    · exact h.hearing st' (Or.inl unsaid)
    · exact (h.hearing st (Or.inr said)).grows grows
  · rcases before st' there with unsaid | ⟨st, said, grows⟩
    · exact h.bound st' (Or.inl unsaid)
    · exact Nat.le_trans (h.bound st (Or.inr said)) (Stream.length_le_of_grows grows)

structure Party.Stands (p : Party) (peer : Endpoint) (mine theirs : Option Stream)
    (reach reached : Nat) (c : Connection) : Prop where
  one : p.stack.table.connections = [c]
  place : c.here = p.here
  standing : Standing peer mine theirs reach reached p.received c
  said : p.sent = Stream.spoken mine
  unborn : mine = none ↔ p.incarnations = 0

structure Paired (p q : Party) (mine theirs : Option Stream) (reach reached : Nat)
    (c d : Connection) : Prop where
  own : p.Stands q.here mine theirs reach reached c
  other : q.Stands p.here theirs mine reached reach d
  apart : p.here ≠ q.here
  network : ∀ sent ∈ p.stack.log ++ q.stack.log, Lawful p.here q.here mine theirs reach reached sent

/-- What may happen to a party: calls at its endpoint, towards the other one, and datagrams that were
    sent. -/
structure Event.Allowed (event : Event) (p q : Party) : Prop where
  lasting : event.lasting = true
  inside : ∀ here, event.callee? = some here → here = p.here
  towards : event.Towards q.here
  genuine : ∀ octets src dst, event = .ingress octets src dst →
    ∃ d ∈ p.stack.log ++ q.stack.log, octets = d.octets ∧ src = d.src ∧ dst = d.dst

variable {p p' q : Party} {mine theirs mine' : Option Stream} {reach reached : Nat}
  {c c' d : Connection} {event : Event} {now : Instant} {call : CallId} {σ : List Signal}

theorem Paired.swap (h : Paired p q mine theirs reach reached c d) :
    Paired q p theirs mine reached reach d c where
  own := h.other
  other := h.own
  apart := h.apart.symm
  network := by
    intro sent member
    exact (h.network sent (List.mem_append.mpr (List.mem_append.mp member).symm)).swap

theorem Paired.reads (h : Paired p q mine theirs reach reached c d) (allowed : event.Allowed p q)
    {octets : Octets} {src dst : Address} {s : Segment} (same : event = .ingress octets src dst)
    (reads : Reads octets src dst s) :
    s.header.textLength = s.text.length ∧ (s.header.flags.has .rst = true ∨
      Said p.here q.here mine theirs reach s ∨ Said q.here p.here theirs mine reached s) := by
  obtain ⟨sent, member, rfl, rfl, rfl⟩ := allowed.genuine octets src dst same
  obtain ⟨s', formed, posted, kind⟩ := h.network sent member
  obtain rfl := reads_datagram formed posted reads
  obtain ⟨_, encoded, _⟩ := except_map_ok.mp posted
  exact ⟨(Header.encode_ok encoded).1.symm, kind⟩

/-- Whatever allowed event the connection of a party undergoes, its side evolves. -/
theorem Paired.evolves (h : Paired p q mine theirs reach reached c d) (allowed : event.Allowed p q)
    {ds : List Datagram} (once : c.Free → ¬ c'.Free → mine = none)
    (small : ∀ st, mine = some st → (st.after event ds).length < SeqNumber.halfCircle)
    (small' : ∀ st, theirs = some st → st.text.length < SeqNumber.halfCircle)
    (undergoes : Undergoes now call event c σ ds c') :
    ∃ mine', Evolved q.here mine theirs reach reached p.received c call σ ds c' mine' ∧
      Stream.spoken mine' = Stream.spoken mine ++ if ds = [] then [] else event.text := by
  have own := h.own.standing
  have unsaid (silent : event.text = []) :
      Stream.spoken mine ++ (if ds = [] then [] else event.text) = Stream.spoken mine := by
    rw [silent, ite_self, List.append_nil]
  cases undergoes with
  | kept =>
    refine ⟨mine, evolved_rest own (fun _ member => absurd member List.not_mem_nil) call, ?_⟩
    rw [if_pos rfl, List.append_nil]
  | unclaimed holds =>
    refine ⟨mine, evolved_rest own (fun sent member => ?_) call, (unsaid rfl).symm⟩
    obtain ⟨answer, reset, s, rfl, posted⟩ := holds sent member
    obtain ⟨formed, raised⟩ := resetReply_formed reset
    exact ⟨s, formed, posted, Or.inl raised⟩
  | called iss called => exact evolved_called own allowed.towards once small called
  | @arrived octets src dst _ _ _ _ _ iss reads target arrives holds =>
    obtain ⟨long, kind⟩ := h.reads allowed rfl reads
    rw [← h.own.place] at kind
    have apart : c.here ≠ q.here := by
      rw [h.own.place]
      exact h.apart
    have short (st : Stream) (said : mine = some st) : st.length < SeqNumber.halfCircle := by
      have same : st.after (.ingress octets src dst) ds = st := by
        unfold Stream.after
        split <;> rfl
      exact same ▸ small st said
    have within (st : Stream) (said : mine = some st) : reached ≤ st.length :=
      h.other.standing.bound st (Or.inr said)
    obtain ⟨mine', evolved, spoken⟩ := evolved_arrived own apart once short within small' long target
      kind arrives holds call
    exact ⟨mine', evolved, spoken.trans (unsaid rfl).symm⟩
  | timed ends holds => exact ⟨mine, evolved_timed own ends holds call, (unsaid rfl).symm⟩

theorem Party.handle_ok (one : p.stack.table.connections = [c])
    (place : c.here = p.here) (coherent : c.Coherent) (lasting : event.lasting = true)
    (inside : ∀ here, event.callee? = some here → here = p.here)
    (h : p.handle event now call = .ok p') :
    ∃ σ k c' ds, k.table.connections = [c'] ∧ c'.here = c.here ∧ k.log = p.stack.log ++ ds ∧
      Undergoes now call event c σ ds c' ∧ p' = p.observe event σ k c c' := by
  obtain ⟨⟨k, answer⟩, outcome, rfl⟩ := except_map_ok.mp h
  have ends : (p.stack.handle event now call).Ends (p.stack.handle event now call).signals
      (k, answer) := by
    cases act : p.stack.handle event now call with
    | mk signals result =>
      rw [act] at outcome
      cases outcome
      rfl
  obtain ⟨c', ds, one', here, log, undergoes⟩ := Stack.handle_undergoes one coherent lasting
    (fun here callee => (inside here callee).trans place.symm) ends
  refine ⟨_, k, c', ds, one', here, log, undergoes, ?_⟩
  have found : p.connection? = some c := by
    unfold Party.connection?
    rw [← place]
    exact Stack.get?_single one
  have found' : k.table.get? p.here = some c' := by
    rw [← place, ← here]
    exact Stack.get?_single one'
  simp only [found, found']

/-- So few octets that no two of them have the same number. -/
def shortText : Nat := SeqNumber.halfCircle - 65536

theorem Stream.length_lt_of_short {st : Stream} (short : st.text.length < shortText) :
    st.length < SeqNumber.halfCircle := by
  have flag := Bool.toNat_le st.ended
  unfold shortText at short
  unfold length places
  simp only [SeqNumber.halfCircle] at short ⊢
  omega

theorem Party.observe_sent {k : Stack} {ds : List Datagram} (log : k.log = p.stack.log ++ ds) :
    (p.observe event σ k c c').sent = p.sent ++ if ds = [] then [] else event.text := by
  change p.sent ++ (if k.log = p.stack.log then [] else event.text) = _
  simp only [log, List.append_right_eq_self]

theorem Paired.evolved {k : Stack} {ds : List Datagram}
    (h : Paired p q mine theirs reach reached c d) (one : k.table.connections = [c'])
    (log : k.log = p.stack.log ++ ds)
    (evolved : Evolved q.here mine theirs reach reached p.received c call σ ds c' mine')
    (spoken : Stream.spoken mine' = Stream.spoken mine ++ if ds = [] then [] else event.text) :
    Paired (p.observe event σ k c c') q mine' theirs (c'.heardTo (p.received ++ handed σ) reach)
      reached c' d where
  own := by
    refine ⟨one, evolved.same.trans h.own.place, evolved.standing, ?_, ?_⟩
    · rw [Party.observe_sent log, spoken, h.own.said]
    · change _ ↔ (if c.Free ∧ ¬ c'.Free then p.incarnations + 1 else p.incarnations) = 0
      rw [evolved.begins, h.own.unborn]
      constructor
      · rintro ⟨never, free⟩
        rw [if_neg fun begins => begins.2 free, never]
      · intro never
        split at never
        · cases never
        · rename_i stays
          have free := (h.own.standing.unborn (h.own.unborn.mpr never)).1
          exact ⟨never, Decidable.byContradiction fun busy => stays ⟨free, busy⟩⟩
  other := by
    obtain ⟨one', place, standing, said, unborn⟩ := h.other
    exact ⟨one', place, standing.follows evolved.follows evolved.forward, said, unborn⟩
  apart := h.apart
  network := by
    intro sent member
    change sent ∈ k.log ++ q.stack.log at member
    change Lawful p.here q.here _ _ _ _ sent
    rw [log, List.append_assoc, List.mem_append, List.mem_append] at member
    rcases member with before | now | other
    · exact (h.network sent (List.mem_append_left _ before)).follows evolved.follows (.refl theirs)
        evolved.forward (Nat.le_refl reached)
    · rw [← h.own.place]
      exact evolved.lawful sent now
    · exact (h.network sent (List.mem_append_right _ other)).follows evolved.follows (.refl theirs)
        evolved.forward (Nat.le_refl reached)

theorem Paired.handles (h : Paired p q mine theirs reach reached c d) (allowed : event.Allowed p q)
    (handled : p.handle event now call = .ok p') (once : p'.incarnations ≤ 1)
    (small : p'.sent.length < shortText) (small' : q.sent.length < shortText) :
    ∃ σ k c' ds mine', p' = p.observe event σ k c c' ∧ Undergoes now call event c σ ds c' ∧
      Evolved q.here mine theirs reach reached p.received c call σ ds c' mine' ∧
      Paired p' q mine' theirs (c'.heardTo p'.received reach) reached c' d := by
  obtain ⟨σ, k, c', ds, one, same, log, undergoes, rfl⟩ := Party.handle_ok h.own.one h.own.place
    h.own.standing.coherent allowed.lasting allowed.inside handled
  have first (free : c.Free) (busy : ¬ c'.Free) : mine = none := by
    have counted : (p.observe event σ k c c').incarnations = p.incarnations + 1 :=
      if_pos ⟨free, busy⟩
    exact h.own.unborn.mpr (by omega)
  rw [Party.observe_sent log, h.own.said] at small
  have short (st : Stream) (begun : mine = some st) :
      (st.after event ds).length < SeqNumber.halfCircle := by
    apply Stream.length_lt_of_short
    rw [Stream.after_text]
    rw [begun] at small
    exact small
  have short' (st : Stream) (begun : theirs = some st) : st.text.length < SeqNumber.halfCircle := by
    rw [h.other.said, begun] at small'
    exact Nat.lt_trans small' (by decide)
  obtain ⟨mine', evolved, spoken⟩ := h.evolves allowed first short short' undergoes
  exact ⟨σ, k, c', ds, mine', rfl, undergoes, evolved, h.evolved one log evolved spoken⟩

theorem Party.handle_grows (h : p.handle event now call = .ok p') :
    p.incarnations ≤ p'.incarnations ∧ p.sent.length ≤ p'.sent.length := by
  obtain ⟨⟨k, answer⟩, _, rfl⟩ := except_map_ok.mp h
  dsimp only
  split
  · constructor
    · unfold observe
      dsimp only
      split
      · exact Nat.le_succ _
      · exact Nat.le_refl _
    · exact (List.prefix_append _ _).length_le
  · exact ⟨Nat.le_refl _, Nat.le_refl _⟩

namespace Exchange

variable {x x' : Exchange} {side : Side} {action : Action} {deed : Deed} {deeds : List Deed}

/-- At most one incarnation at each side, and little text. -/
structure Modest (x : Exchange) : Prop where
  once : ∀ side, (x.party side).incarnations ≤ 1
  short : ∀ side, (x.party side).sent.length < shortText

theorem modest_iff (x : Exchange) : x.Modest ↔
    (x.near.incarnations ≤ 1 ∧ x.near.sent.length < shortText) ∧
      x.far.incarnations ≤ 1 ∧ x.far.sent.length < shortText := by
  constructor
  · intro modest
    exact ⟨⟨modest.once .near, modest.short .near⟩, modest.once .far, modest.short .far⟩
  · rintro ⟨near, far⟩
    constructor
    · rintro (_ | _)
      · exact near.1
      · exact far.1
    · rintro (_ | _)
      · exact near.2
      · exact far.2

instance (x : Exchange) : Decidable x.Modest := decidable_of_iff' _ x.modest_iff

theorem party_setParty (x : Exchange) (p : Party) (side : Side) :
    (x.setParty p side).party side = p ∧
      (x.setParty p side).party side.other = x.party side.other := by
  cases side <;> exact ⟨rfl, rfl⟩

theorem act_ok (h : x.act deed = .ok x') :
    (∀ side, x'.party side = x.party side) ∨
      ∃ event p, x.event? deed.side deed.action = some event ∧
        (x.party deed.side).handle event deed.now x.count = .ok p ∧ x'.party deed.side = p ∧
        x'.party deed.side.other = x.party deed.side.other := by
  unfold act at h
  split at h
  · cases h
    exact Or.inl fun side => by cases side <;> rfl
  · rename_i event happens
    simp only [except_bind_ok, except_pure_ok] at h
    obtain ⟨p, handled, rfl⟩ := h
    have same (side : Side) :
        ({ x.setParty p deed.side with count := x.count + 1 } : Exchange).party side
          = (x.setParty p deed.side).party side := by
      cases side <;> rfl
    obtain ⟨own, other⟩ := party_setParty x p deed.side
    exact Or.inr ⟨event, p, happens, handled, (same _).trans own, (same _).trans other⟩

theorem act_count (h : x.act deed = .ok x') : x'.count = x.count + 1 := by
  unfold act at h
  split at h
  · cases h
    rfl
  · simp only [except_bind_ok, except_pure_ok] at h
    obtain ⟨_, _, rfl⟩ := h
    rfl

theorem event?_allowed (happens : x.event? side action = some event) :
    event.Allowed (x.party side) (x.party side.other) := by
  cases action with
  | openConnection active named timeout =>
    cases happens
    refine ⟨rfl, fun here callee => (Option.some.inj callee).symm, fun foreign known => ?_,
      fun _ _ _ same => (by cases same)⟩
    · cases active <;> cases named <;> cases known <;> rfl
  | deliver source place =>
    obtain ⟨sent, there, rfl⟩ := Option.map_eq_some_iff.mp happens
    refine ⟨rfl, fun here callee => ?_, trivial, fun octets src dst same => ?_⟩
    · cases callee
    cases same
    refine ⟨sent, ?_, rfl, rfl, rfl⟩
    have member := List.mem_of_getElem? there
    cases side <;> cases source
    · exact List.mem_append_left _ member
    · exact List.mem_append_right _ member
    · exact List.mem_append_right _ member
    · exact List.mem_append_left _ member
  | sweep =>
    cases happens
    exact ⟨rfl, fun here callee => (by cases callee), trivial, fun _ _ _ same => (by cases same)⟩
  | verdicts =>
    cases happens
    exact ⟨rfl, fun here callee => (by cases callee), trivial, fun _ _ _ same => (by cases same)⟩
  | _ =>
    cases happens
    exact ⟨rfl, fun here callee => (Option.some.inj callee).symm, trivial,
      fun _ _ _ same => (by cases same)⟩

theorem act_grows (h : x.act deed = .ok x') (side : Side) :
    (x.party side).incarnations ≤ (x'.party side).incarnations ∧
      (x.party side).sent.length ≤ (x'.party side).sent.length := by
  rcases act_ok h with same | ⟨_, p, _, handled, own, other⟩
  · rw [same side]
    exact ⟨Nat.le_refl _, Nat.le_refl _⟩
  · by_cases here : side = deed.side
    · rw [here, own]
      exact Party.handle_grows handled
    · have there : side = deed.side.other := by
        cases side <;> cases turn : deed.side <;> first | rfl | exact absurd turn.symm here
      rw [there, other]
      exact ⟨Nat.le_refl _, Nat.le_refl _⟩

theorem act_modest (h : x.act deed = .ok x') (modest : x'.Modest) : x.Modest where
  once := fun side => Nat.le_trans (act_grows h side).1 (modest.once side)
  short := fun side => Nat.lt_of_le_of_lt (act_grows h side).2 (modest.short side)

theorem run_modest (h : x.run deeds = .ok x') (modest : x'.Modest) : x.Modest := by
  induction deeds generalizing x with
  | nil =>
    cases h
    exact modest
  | cons deed rest ih =>
    obtain ⟨x₁, first, later⟩ := except_bind_ok.mp h
    exact act_modest first (ih later)

/-- A relation that both parties see alike, and that every allowed event at one of them keeps as long
    as all is modest. -/
structure Kept (R : CallId → Party → Party → Prop) : Prop where
  swap : ∀ {count : CallId} {p q : Party}, R count p q → R count q p
  later : ∀ {count : CallId} {p q : Party}, R count p q → R (count + 1) p q
  handles : ∀ {count : CallId} {p q p' : Party} {event : Event} {now : Instant}, R count p q →
    event.Allowed p q → p.handle event now count = .ok p' → p'.incarnations ≤ 1 →
    p'.sent.length < shortText → q.sent.length < shortText → R (count + 1) p' q

variable {R : CallId → Party → Party → Prop}

theorem Kept.act (kept : Kept R) (h : R x.count x.near x.far) (acts : x.act deed = .ok x')
    (modest : x'.Modest) : R x'.count x'.near x'.far := by
  have at_side (side : Side) : R x.count (x.party side) (x.party side.other) :=
    match side with
    | .near => h
    | .far => kept.swap h
  rw [act_count acts]
  rcases act_ok acts with same | ⟨event, p, happens, handled, own, other⟩
  · have near : x'.near = x.near := same .near
    have far : x'.far = x.far := same .far
    rw [near, far]
    exact kept.later h
  · have once := modest.once deed.side
    have short := modest.short deed.side
    have short' := modest.short deed.side.other
    rw [own] at once short
    rw [other] at short'
    have next := kept.handles (at_side deed.side) (event?_allowed happens) handled once short short'
    rw [← own, ← other] at next
    cases turn : deed.side <;> rw [turn] at next
    · exact next
    · exact kept.swap next

/-- Such a relation holds after every run that stays modest. -/
theorem Kept.run (kept : Kept R) (h : R x.count x.near x.far) (runs : x.run deeds = .ok x')
    (modest : x'.Modest) : R x'.count x'.near x'.far := by
  induction deeds generalizing x with
  | nil =>
    cases runs
    exact h
  | cons deed rest ih =>
    obtain ⟨x₁, first, later⟩ := except_bind_ok.mp runs
    exact ih (kept.act h first (run_modest later modest)) later

def Sound (p q : Party) : Prop :=
  ∃ mine theirs reach reached c d, Paired p q mine theirs reach reached c d

theorem sound_kept : Kept fun _ => Sound where
  swap := by
    rintro _ _ _ ⟨_, _, _, _, _, _, paired⟩
    exact ⟨_, _, _, _, _, _, paired.swap⟩
  later := id
  handles := by
    rintro _ _ _ _ _ _ ⟨_, _, _, _, _, _, paired⟩ allowed handled once small small'
    obtain ⟨_, _, _, _, _, _, _, _, paired⟩ := paired.handles allowed handled once small small'
    exact ⟨_, _, _, _, _, _, paired⟩

theorem stands_start (here peer : Endpoint) (config : Config) (generator : SeqGenerator) :
    (Party.start here config generator).Stands peer none none 0 0 (.bound here config) where
  one := rfl
  place := rfl
  standing := by
    have closed : (Connection.bound here config).Free := Or.inl rfl
    refine ⟨fun _ known => (by cases known), coherent_bound here config, fun _ => ⟨closed, rfl, rfl⟩,
      fun busy => absurd closed busy, fun st _ => ?_, fun live => (by cases live), fun _ _ => ?_⟩
    · exact ⟨List.nil_prefix, fun state => (by cases state), fun live => (by cases live)⟩
    · exact Nat.zero_le _
  said := rfl
  unborn := ⟨fun _ => rfl, fun _ => rfl⟩

theorem paired_start {here there : Endpoint} (apart : here ≠ there) (config config' : Config)
    (generator generator' : SeqGenerator) :
    Paired (.start here config generator) (.start there config' generator') none none 0 0
      (.bound here config) (.bound there config') where
  own := stands_start here there config generator
  other := stands_start there here config' generator'
  apart := apart
  network := fun _ member => absurd member List.not_mem_nil

end Exchange

end TcpEngine
