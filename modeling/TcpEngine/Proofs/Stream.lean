import Mathlib.Data.List.Infix
import TcpEngine.Flags
import TcpEngine.Octets
import TcpEngine.Proofs.Circle

/-!
What one side says on a connection, from its SYN to its FIN, and what of it a segment carries. A
stream only grows, so whatever a segment carries of it stays true.
-/
namespace TcpEngine

/-- The number of the SYN, the text sent behind it, and whether the FIN was sent. -/
structure Stream where
  initial : SeqNumber
  text : Octets
  ended : Bool
deriving DecidableEq, Repr

namespace Stream

def places (text : Octets) (ended : Bool) : Nat := 1 + text.length + ended.toNat

def length (st : Stream) : Nat := places st.text st.ended

structure Grows (st st' : Stream) : Prop where
  initial : st'.initial = st.initial
  text : st.text <+: st'.text
  ended : st.ended = true → st' = st

structure Carries (st : Stream) (flags : Flags) (seq : SeqNumber) (octets : Octets) : Prop where
  opens : flags.has .syn = true → seq = st.initial ∧ octets = [] ∧ flags.has .fin = false
  speaks : octets ≠ [] →
    ∃ place, seq = st.initial.advance (1 + place) ∧ octets <+: st.text.drop place
  ends : flags.has .fin = true →
    st.ended = true ∧ seq.advance octets.length = st.initial.advance (1 + st.text.length)

/-- What a segment says agrees with the stream, however the stream was cut. Text may come with the SYN
    and with the FIN. -/
structure Consistent (st : Stream) (flags : Flags) (seq : SeqNumber) (octets : Octets) : Prop where
  opens : flags.has .syn = true → seq = st.initial ∧ octets <+: st.text
  speaks : flags.has .syn = false → octets ≠ [] →
    ∃ place, seq = st.initial.advance (1 + place) ∧ octets <+: st.text.drop place
  ends : flags.has .fin = true → st.ended = true ∧
    (seq.advance (flags.has .syn).toNat).advance octets.length
      = st.initial.advance (1 + st.text.length)

/-- What was heard of a stream is a beginning of it, and all of it once the FIN was heard. -/
structure Heard (st : Stream) (octets : Octets) (fin : Bool) : Prop where
  text : octets <+: st.text
  whole : fin = true → st.ended = true ∧ octets = st.text

theorem Grows.refl (st : Stream) : st.Grows st := ⟨rfl, List.prefix_refl _, fun _ => rfl⟩

theorem Grows.trans {st st' st'' : Stream} (first : st.Grows st') (later : st'.Grows st'') :
    st.Grows st'' where
  initial := later.initial.trans first.initial
  text := first.text.trans later.text
  ended := by
    intro ended
    have same := first.ended ended
    rw [← same] at ended ⊢
    exact later.ended ended

variable {st st' : Stream} {flags : Flags} {seq : SeqNumber} {octets : Octets}

theorem Carries.grows (h : st.Carries flags seq octets) (grows : st.Grows st') :
    st'.Carries flags seq octets where
  opens := by
    intro syn
    rw [grows.initial]
    exact h.opens syn
  speaks := by
    intro some
    obtain ⟨place, start, part⟩ := h.speaks some
    refine ⟨place, by rw [grows.initial, start], ?_⟩
    exact part.trans (List.IsPrefix.drop grows.text place)
  ends := by
    intro fin
    rw [grows.ended (h.ends fin).1]
    exact h.ends fin

theorem Heard.grows {fin : Bool} (h : st.Heard octets fin) (grows : st.Grows st') :
    st'.Heard octets fin where
  text := h.text.trans grows.text
  whole := by
    intro ended
    rw [grows.ended (h.whole ended).1]
    exact h.whole ended

theorem Heard.le_length {fin : Bool} (h : st.Heard octets fin) : places octets fin ≤ st.length := by
  have short := h.text.length_le
  unfold length places
  cases fin with
  | false =>
    simp only [Bool.toNat_false]
    omega
  | true =>
    rw [(h.whole rfl).1, (h.whole rfl).2]

theorem Heard.length_le {octets' : Octets} {fin fin' : Bool} (h : st.Heard octets fin)
    (h' : st.Heard octets' fin') (farther : places octets fin ≤ places octets' fin') :
    octets.length ≤ octets'.length := by
  have short := h.text.length_le
  unfold places at farther
  cases fin' with
  | true =>
    rw [(h'.whole rfl).2]
    exact short
  | false =>
    simp only [Bool.toNat_false] at farther
    omega

theorem length_le_of_grows (grows : st.Grows st') : st.length ≤ st'.length := by
  have short := grows.text.length_le
  unfold length places
  cases ended : st.ended with
  | false =>
    simp only [Bool.toNat_false]
    omega
  | true =>
    rw [grows.ended ended, ended]

/-- The octets of a segment stand in the stream where their numbers say. -/
theorem Carries.octet {i : Nat} {octet : UInt8} (h : st.Carries flags seq octets)
    (there : octets[i]? = some octet) :
    ∃ place, seq.advance i = st.initial.advance (1 + place) ∧ st.text[place]? = some octet := by
  have some : octets ≠ [] := by
    rintro rfl
    cases there
  obtain ⟨place, start, rest, said⟩ := h.speaks some
  refine ⟨place + i, ?_, ?_⟩
  · rw [start, SeqNumber.advance_advance, Nat.add_assoc]
  · have inside := (List.getElem?_eq_some_iff.mp there).1
    rw [← List.getElem?_drop, ← said, List.getElem?_append_left inside]
    exact there

/-- No two segments of a stream have different octets at one number. -/
theorem Carries.agree {flags' : Flags} {seq' : SeqNumber} {octets' : Octets} {i j : Nat}
    {octet octet' : UInt8} (small : st.text.length < SeqNumber.halfCircle)
    (h : st.Carries flags seq octets) (h' : st.Carries flags' seq' octets')
    (there : octets[i]? = some octet) (there' : octets'[j]? = some octet')
    (same : seq.advance i = seq'.advance j) : octet = octet' := by
  obtain ⟨place, here, said⟩ := h.octet there
  obtain ⟨place', here', said'⟩ := h'.octet there'
  have inside := (List.getElem?_eq_some_iff.mp said).1
  have inside' := (List.getElem?_eq_some_iff.mp said').1
  simp only [SeqNumber.halfCircle] at small
  rw [here, here', SeqNumber.advance_eq_iff (by omega) (by omega)] at same
  rw [show place' = place by omega, said, Option.some.injEq] at said'
  exact said'

theorem carries_nothing (syn : flags.has .syn = false) (fin : flags.has .fin = false) :
    st.Carries flags seq [] where
  opens := fun raised => by rw [syn] at raised; cases raised
  speaks := fun some => absurd rfl some
  ends := fun raised => by rw [fin] at raised; cases raised

theorem carries_text {place : Nat} (syn : flags.has .syn = false) (fin : flags.has .fin = false)
    (here : seq = st.initial.advance (1 + place)) (said : octets <+: st.text.drop place) :
    st.Carries flags seq octets where
  opens := fun raised => by rw [syn] at raised; cases raised
  speaks := fun _ => ⟨place, here, said⟩
  ends := fun raised => by rw [fin] at raised; cases raised

theorem carries_fin (syn : flags.has .syn = false) (ended : st.ended = true)
    (here : seq = st.initial.advance (1 + st.text.length)) : st.Carries flags seq [] where
  opens := fun raised => by rw [syn] at raised; cases raised
  speaks := fun some => absurd rfl some
  ends := fun _ => ⟨ended, (SeqNumber.advance_zero seq).trans here⟩

theorem carries_syn (plain : flags.has .fin = false) : st.Carries flags st.initial [] where
  opens := fun _ => ⟨rfl, rfl, plain⟩
  speaks := fun some => absurd rfl some
  ends := fun raised => by rw [plain] at raised; cases raised

theorem Carries.consistent (h : st.Carries flags seq octets) : st.Consistent flags seq octets where
  opens := by
    intro syn
    obtain ⟨start, none, _⟩ := h.opens syn
    exact ⟨start, none ▸ List.nil_prefix⟩
  speaks := fun _ => h.speaks
  ends := by
    intro fin
    have plain : flags.has .syn = false := by
      rw [← Bool.not_eq_true]
      intro syn
      rw [(h.opens syn).2.2] at fin
      cases fin
    rw [plain, Bool.toNat_false, SeqNumber.advance_zero]
    exact h.ends fin

/-- Text that says something stands within the stream, so its place can be searched for. -/
theorem consistent_iff : st.Consistent flags seq octets ↔
    (flags.has .syn = true → seq = st.initial ∧ octets <+: st.text) ∧
    (flags.has .syn = false → octets ≠ [] → ∃ place, place < st.text.length ∧
      seq = st.initial.advance (1 + place) ∧ octets <+: st.text.drop place) ∧
    (flags.has .fin = true → st.ended = true ∧
      (seq.advance (flags.has .syn).toNat).advance octets.length
        = st.initial.advance (1 + st.text.length)) := by
  constructor
  · intro h
    refine ⟨h.opens, fun plain some => ?_, h.ends⟩
    obtain ⟨place, start, said⟩ := h.speaks plain some
    refine ⟨place, ?_, start, said⟩
    rw [← Nat.not_le]
    intro beyond
    rw [List.drop_of_length_le beyond, List.prefix_nil] at said
    exact some said
  · rintro ⟨opens, speaks, ends⟩
    refine ⟨opens, fun plain some => ?_, ends⟩
    obtain ⟨place, _, start, said⟩ := speaks plain some
    exact ⟨place, start, said⟩

instance : Decidable (st.Consistent flags seq octets) := decidable_of_iff _ consistent_iff.symm

theorem Consistent.stands (h : st.Consistent flags seq octets) (some : octets ≠ []) :
    ∃ place, seq.advance (flags.has .syn).toNat = st.initial.advance (1 + place) ∧
      octets <+: st.text.drop place := by
  cases syn : flags.has .syn with
  | true =>
    obtain ⟨start, said⟩ := h.opens syn
    exact ⟨0, by rw [start, Bool.toNat_true], said⟩
  | false =>
    obtain ⟨place, start, said⟩ := h.speaks syn some
    exact ⟨place, by rw [start, Bool.toNat_false, SeqNumber.advance_zero], said⟩

/-- What a segment says behind all that was heard can be heard next. -/
theorem Consistent.hears {known : Nat} {heard taken : Octets}
    (small : st.text.length < SeqNumber.halfCircle)
    (h : st.Consistent flags seq octets) (before : heard <+: st.text)
    (here : st.initial.advance (1 + heard.length)
      = (seq.advance (flags.has .syn).toNat).advance known)
    (near : known < SeqNumber.halfCircle) (part : taken <+: octets.drop known) :
    heard ++ taken <+: st.text := by
  by_cases none : octets = []
  · rw [none, List.drop_nil, List.prefix_nil] at part
    rw [part, List.append_nil]
    exact before
  · obtain ⟨place, start, said⟩ := h.stands none
    have inside : place < st.text.length := by
      rw [← Nat.not_le]
      intro beyond
      rw [List.drop_of_length_le beyond, List.prefix_nil] at said
      exact none said
    have short := before.length_le
    simp only [SeqNumber.halfCircle] at small near
    rw [start, SeqNumber.advance_advance, SeqNumber.advance_eq_iff (by omega) (by omega)] at here
    have rest : taken <+: st.text.drop heard.length := by
      rw [show heard.length = place + known by omega, ← List.drop_drop]
      exact part.trans (List.IsPrefix.drop said known)
    obtain ⟨behind, parts⟩ := before
    rw [← parts, List.drop_left] at rest
    rw [← parts]
    exact (List.prefix_append_right_inj heard).mpr rest

theorem Consistent.finishes {heard : Octets} {fin : Bool}
    (small : st.text.length < SeqNumber.halfCircle) (h : st.Consistent flags seq octets)
    (raised : flags.has .fin = true) (before : st.Heard heard fin)
    (here : (seq.advance (flags.has .syn).toNat).advance octets.length
      = st.initial.advance (places heard fin)) :
    fin = false ∧ st.Heard heard true := by
  obtain ⟨ended, stop⟩ := h.ends raised
  have short := before.text.length_le
  have flag := Bool.toNat_le fin
  simp only [SeqNumber.halfCircle] at small
  rw [stop, SeqNumber.advance_eq_iff (by unfold places; omega) (by unfold places; omega)] at here
  unfold places at here
  cases fin with
  | true =>
    rw [(before.whole rfl).2] at here
    simp only [Bool.toNat_true] at here
    omega
  | false =>
    simp only [Bool.toNat_false] at here
    have all : heard = st.text := before.text.eq_of_length (by omega)
    exact ⟨rfl, before.text, fun _ => ⟨ended, all⟩⟩

end Stream
end TcpEngine
