import TcpEngine.Ring.Lemmas

/-!
The loops that copy octets into and out of a ring, written with every check that indexing, slicing and
unsigned arithmetic make. A loop is given a number of passes, and missteps if it needs more. That the
operations of a ring are these loops therefore also says that no check fails, and that two passes are
always enough.
-/
namespace TcpEngine
namespace Ring

inductive Misstep
  | outOfRange
  | lengthsDiffer
  | remainderByZero
  | underflow
  | unfinished
deriving DecidableEq, Repr

abbrev Checked := Except Misstep

namespace Checked

def minus (a b : Nat) : Checked Nat := if b ≤ a then pure (a - b) else throw .underflow

def remainder (a b : Nat) : Checked Nat := if b = 0 then throw .remainderByZero else pure (a % b)

def slice (source : Octets) (start stop : Nat) : Checked Octets :=
  if start ≤ stop ∧ stop ≤ source.length then pure ((source.drop start).take (stop - start))
  else throw .outOfRange

def overwrite (target : Octets) (start stop : Nat) (value : Octets) : Checked Octets :=
  if start ≤ stop ∧ stop ≤ target.length then
    if value.length = stop - start then pure (target.take start ++ value ++ target.drop stop)
    else throw .lengthsDiffer
  else throw .outOfRange

theorem minus_of_le {a b : Nat} (fits : b ≤ a) : minus a b = pure (a - b) := if_pos fits

theorem remainder_of_pos {a b : Nat} (positive : 0 < b) : remainder a b = pure (a % b) :=
  if_neg (by omega)

theorem slice_within {source : Octets} {start size : Nat} (within : start + size ≤ source.length) :
    slice source start (start + size) = pure ((source.drop start).take size) := by
  rw [slice, if_pos ⟨Nat.le_add_right .., within⟩, Nat.add_sub_cancel_left]

theorem overwrite_within {target value : Octets} {start size : Nat}
    (within : start + size ≤ target.length) (sized : value.length = size) :
    overwrite target start (start + size) value =
      pure (target.take start ++ value ++ target.drop (start + size)) := by
  rw [overwrite, if_pos ⟨Nat.le_add_right .., within⟩, if_pos (by omega)]

end Checked

/-- What a ring keeps, with nothing known about it. -/
structure Layout where
  storage : Octets
  readAt : Nat
  length : Nat
deriving DecidableEq, Repr

def layout (r : Ring) : Layout := ⟨r.storage, r.readAt, r.length⟩

namespace Layout
open Checked

def copyIn (capacity : Nat) (data : Octets) (count : Nat) (l : Layout) (written : Nat) (passes : Nat) :
    Checked Layout := do
  if written < count then
    match passes with
    | 0 => throw .unfinished
    | passes + 1 =>
      let writeAt ← remainder (l.readAt + l.length) capacity
      let toEnd ← minus capacity writeAt
      let left ← minus count written
      let piece := min toEnd left
      let octets ← slice data written (written + piece)
      let storage ← overwrite l.storage writeAt (writeAt + piece) octets
      copyIn capacity data count { l with storage, length := l.length + piece } (written + piece) passes
  else return l

def copyOut (capacity count : Nat) (l : Layout) (buffer : Octets) (read : Nat) (passes : Nat) :
    Checked (Layout × Octets) := do
  if read < count then
    match passes with
    | 0 => throw .unfinished
    | passes + 1 =>
      let toEnd ← minus capacity l.readAt
      let left ← minus count read
      let piece := min toEnd left
      let octets ← slice l.storage l.readAt (l.readAt + piece)
      let buffer ← overwrite buffer read (read + piece) octets
      let readAt ← remainder (l.readAt + piece) capacity
      let length ← minus l.length piece
      copyOut capacity count { l with readAt, length } buffer (read + piece) passes
  else return (l, buffer)

def window (l : Layout) : Checked Nat := minus l.storage.length l.length

def clear (l : Layout) : Layout := { l with readAt := 0, length := 0 }

def enqueue (l : Layout) (data : Octets) (passes : Nat) : Checked (Layout × Nat) := do
  let room ← l.window
  let count := min data.length room
  let l ← copyIn l.storage.length data count l 0 passes
  return (l, count)

def dequeueInto (l : Layout) (buffer : Octets) (passes : Nat) : Checked (Layout × Octets × Nat) := do
  let count := min buffer.length l.length
  let (l, buffer) ← copyOut l.storage.length count l buffer 0 passes
  return (if l.length = 0 then { l with readAt := 0 } else l, buffer, count)

def dequeue (l : Layout) (count passes : Nat) : Checked (Layout × Octets) := do
  let (l, buffer, count) ← l.dequeueInto (List.replicate (min count l.length) 0) passes
  return (l, buffer.take count)

/- One pass of each loop, and with it the rest of the loop. -/

variable {capacity count passes : Nat} {data storage buffer : Octets} {readAt length written read : Nat}

theorem copyIn_done {l : Layout} (done : count ≤ written) :
    copyIn capacity data count l written passes = pure l := by
  rw [copyIn.eq_def, if_neg (by omega)]

theorem copyIn_more {writeAt piece : Nat} (more : written < count) (whole : count ≤ data.length)
    (size : storage.length = capacity) (within : writeAt < capacity)
    (place : (readAt + length) % capacity = writeAt)
    (shorter : min (capacity - writeAt) (count - written) = piece) :
    copyIn capacity data count ⟨storage, readAt, length⟩ written (passes + 1)
      = copyIn capacity data count
        ⟨storage.take writeAt ++ (data.drop written).take piece ++ storage.drop (writeAt + piece),
          readAt, length + piece⟩ (written + piece) passes := by
  have sized : ((data.drop written).take piece).length = piece := by
    rw [List.length_take, List.length_drop]
    omega
  rw [copyIn, if_pos more, remainder_of_pos (by omega), pure_bind, place,
    minus_of_le (by omega), pure_bind, minus_of_le (by omega), pure_bind]
  simp only [shorter]
  rw [slice_within (by omega), pure_bind, overwrite_within (by omega) sized, pure_bind]

theorem copyOut_done {l : Layout} (done : count ≤ read) :
    copyOut capacity count l buffer read passes = pure (l, buffer) := by
  rw [copyOut.eq_def, if_neg (by omega)]

theorem copyOut_more {piece : Nat} (more : read < count) (room : count ≤ buffer.length)
    (size : storage.length = capacity) (within : readAt < capacity) (held : piece ≤ length)
    (shorter : min (capacity - readAt) (count - read) = piece) :
    copyOut capacity count ⟨storage, readAt, length⟩ buffer read (passes + 1)
      = copyOut capacity count ⟨storage, (readAt + piece) % capacity, length - piece⟩
        (buffer.take read ++ (storage.drop readAt).take piece ++ buffer.drop (read + piece))
        (read + piece) passes := by
  have sized : ((storage.drop readAt).take piece).length = piece := by
    rw [List.length_take, List.length_drop]
    omega
  rw [copyOut, if_pos more]
  dsimp only
  rw [minus_of_le (by omega), pure_bind, minus_of_le (by omega), pure_bind]
  simp only [shorter]
  rw [slice_within (by omega), pure_bind, overwrite_within (by omega) sized, pure_bind,
    remainder_of_pos (by omega), pure_bind, minus_of_le held, pure_bind]

end Layout

/- A loop makes one pass where its octets end before the storage does, and two where they go on at the
front of it. -/

variable (r : Ring) (passes : Nat)

theorem copyIn_append (data : Octets) (count : Nat) (whole : count ≤ data.length)
    (room : (data.take count).length ≤ r.window) :
    Layout.copyIn r.capacity data count r.layout 0 (passes + 2) =
      pure (r.append (data.take count) room).layout := by
  have size := r.storage_length
  have bound := r.readAt_le
  have sized : (data.take count).length = count := by rw [List.length_take]; omega
  have limit := room
  rw [sized] at limit
  by_cases none : count = 0
  · rw [Layout.copyIn_done (by omega), append, dif_neg (by omega)]
  have within := r.writeAt_lt (by omega)
  have place := r.writeAt_eq (by omega)
  unfold window at limit
  rw [append, dif_pos (by omega), layout]
  by_cases fits : count ≤ r.capacity - r.writeAt
  · have first : (data.take count).take (r.capacity - r.writeAt) = data.take count := by
      rw [List.take_take, Nat.min_eq_right fits]
    have second : (data.take count).drop (r.capacity - r.writeAt) = [] :=
      List.drop_of_length_le (by omega)
    rw [Layout.copyIn_more (by omega) whole size within rfl (Nat.min_eq_right (by omega)),
      Layout.copyIn_done (by omega)]
    simp [layout, store, first, second, sized]
  · have turn : (r.readAt + (r.length + (r.capacity - r.writeAt))) % r.capacity = 0 := by
      rw [show r.readAt + (r.length + (r.capacity - r.writeAt)) = r.capacity by
        split at place <;> omega]
      exact Nat.mod_self _
    have first : (data.take count).take (r.capacity - r.writeAt)
        = data.take (r.capacity - r.writeAt) := by
      rw [List.take_take, Nat.min_eq_left (by omega)]
    have second : (data.take count).drop (r.capacity - r.writeAt)
        = (data.drop (r.capacity - r.writeAt)).take (count - (r.capacity - r.writeAt)) :=
      List.drop_take ..
    rw [Layout.copyIn_more (by omega) whole size within rfl (Nat.min_eq_left (by omega)),
      Layout.copyIn_more (by omega) whole _ (by omega) turn (Nat.min_eq_right (by omega)),
      Layout.copyIn_done (by omega)]
    · simp only [layout, store, first, second, List.length_take, List.length_drop, List.take_zero,
        List.nil_append, Nat.zero_add, List.drop_zero]
      rw [Nat.min_eq_left (by omega : r.capacity - r.writeAt ≤ data.length),
        Nat.min_eq_left (by omega)]
      rw [show r.length + (r.capacity - r.writeAt) + (count - (r.capacity - r.writeAt))
        = r.length + count by omega, Nat.min_eq_left whole]
    · simp only [List.length_append, List.length_take, List.length_drop]
      omega

theorem copyOut_take (buffer : Octets) (count : Nat) (held : count ≤ r.length)
    (room : count ≤ buffer.length) :
    Layout.copyOut r.capacity count r.layout buffer 0 (passes + 2) =
      pure ((r.take count held).2.layout, (r.take count held).1 ++ buffer.drop count) := by
  have size := r.storage_length
  have bound := r.readAt_le
  have limit := r.length_le
  by_cases none : count = 0
  · rw [Layout.copyOut_done (by omega), take, dif_neg (by omega)]
    simp [none]
  rw [take, dif_pos (by omega), layout]
  by_cases fits : count ≤ r.capacity - r.readAt
  · have second : count - (r.capacity - r.readAt) = 0 := by omega
    rw [Layout.copyOut_more (by omega) room size (by omega) held (Nat.min_eq_right (by omega)),
      Layout.copyOut_done (by omega)]
    simp [layout, second]
  · have turn : (r.readAt + (r.capacity - r.readAt)) % r.capacity = 0 := by
      rw [show r.readAt + (r.capacity - r.readAt) = r.capacity by omega]
      exact Nat.mod_self _
    have place : (r.readAt + count) % r.capacity = (count - (r.capacity - r.readAt)) % r.capacity := by
      rw [show r.readAt + count = r.capacity + (count - (r.capacity - r.readAt)) by omega,
        Nat.add_mod_left]
    have first (more : Nat) (enough : r.capacity - r.readAt ≤ more) :
        (r.storage.drop r.readAt).take more = r.storage.drop r.readAt :=
      List.take_of_length_le (by rw [List.length_drop]; omega)
    have toEnd : (r.storage.drop r.readAt).length = r.capacity - r.readAt := by
      rw [List.length_drop, size]
    have filled : (r.storage.drop r.readAt ++ buffer.drop (r.capacity - r.readAt)).take
        (r.capacity - r.readAt) = r.storage.drop r.readAt := List.take_left' toEnd
    have untouched : (r.storage.drop r.readAt ++ buffer.drop (r.capacity - r.readAt)).drop
        (r.capacity - r.readAt + (count - (r.capacity - r.readAt))) = buffer.drop count := by
      rw [← List.drop_drop, List.drop_left' toEnd, List.drop_drop]
      congr
      omega
    rw [Layout.copyOut_more (by omega) room size (by omega) (by omega) (Nat.min_eq_left (by omega)),
      turn, Layout.copyOut_more (by omega) _ size (by omega) (by omega) (Nat.min_eq_right (by omega)),
      Layout.copyOut_done (by omega)]
    · simp only [first _ (Nat.le_refl _), first count (by omega), filled, untouched, place, layout,
        Nat.zero_add, List.take_zero, List.nil_append, List.drop_zero]
      rw [show r.length - (r.capacity - r.readAt) - (count - (r.capacity - r.readAt))
        = r.length - count by omega]
    · simp only [List.length_append, List.length_take, List.length_drop]
      omega

/- No check of an operation fails. -/

theorem layout_window : r.layout.window = pure r.window :=
  show Checked.minus r.storage.length r.length = _ by
    rw [r.storage_length, Checked.minus_of_le r.length_le, window]

theorem layout_clear : r.layout.clear = r.clear.layout := rfl

theorem layout_enqueue (data : Octets) :
    r.layout.enqueue data (passes + 2) = pure ((r.enqueue data).1.layout, (r.enqueue data).2) := by
  rw [Layout.enqueue, layout_window, pure_bind]
  dsimp only
  rw [show r.layout.storage.length = r.capacity from r.storage_length,
    copyIn_append r passes data _ (Nat.min_le_left ..) (by rw [List.length_take]; omega), pure_bind]
  rfl

theorem layout_rewind :
    (if r.layout.length = 0 then { r.layout with readAt := 0 } else r.layout) = r.rewind.layout := by
  unfold rewind isEmpty
  split <;> simp_all [layout, clear]

theorem layout_dequeueInto (buffer : Octets) :
    r.layout.dequeueInto buffer (passes + 2) =
      pure ((r.dequeueInto buffer).1.layout, (r.dequeueInto buffer).2) := by
  rw [Layout.dequeueInto]
  dsimp only
  rw [show r.layout.storage.length = r.capacity from r.storage_length,
    show r.layout.length = r.length from rfl,
    copyOut_take r passes buffer _ (Nat.min_le_right ..) (Nat.min_le_left ..), pure_bind]
  dsimp only
  rw [layout_rewind]
  rfl

theorem layout_dequeue (count : Nat) :
    r.layout.dequeue count (passes + 2) = pure ((r.dequeue count).1.layout, (r.dequeue count).2) := by
  rw [Layout.dequeue, layout_dequeueInto, pure_bind]
  rfl

end Ring
end TcpEngine
