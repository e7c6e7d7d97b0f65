import TcpEngine.Octets

/-!
A ring: a queue of octets in storage of fixed size. Octets are stored from `readAt` on, and go on at
the front of the storage when its end is reached. What is put in or taken out is therefore copied in
two contiguous pieces, of which the second is at the front.
-/
namespace TcpEngine

structure Ring where
  capacity : Nat
  storage : Octets
  readAt : Nat
  length : Nat
  storage_length : storage.length = capacity
  length_le : length ≤ capacity
  readAt_le : readAt ≤ capacity - 1
deriving DecidableEq, Repr

namespace Ring

def empty (capacity : Nat) : Ring where
  capacity := capacity
  storage := List.replicate capacity 0
  readAt := 0
  length := 0
  storage_length := List.length_replicate
  length_le := Nat.zero_le _
  readAt_le := Nat.zero_le _

def toList (r : Ring) : Octets :=
  (r.storage.drop r.readAt ++ r.storage.take r.readAt).take r.length

def isEmpty (r : Ring) : Bool := r.length == 0

def window (r : Ring) : Nat := r.capacity - r.length

def clear (r : Ring) : Ring :=
  { r with readAt := 0, length := 0, length_le := Nat.zero_le _, readAt_le := Nat.zero_le _ }

def store (storage : Octets) (start : Nat) (value : Octets)
    (_fits : start + value.length ≤ storage.length) : Octets :=
  storage.take start ++ value ++ storage.drop (start + value.length)

theorem length_store (storage : Octets) (start : Nat) (value : Octets)
    (fits : start + value.length ≤ storage.length) :
    (store storage start value fits).length = storage.length := by
  simp [store]
  omega

def writeAt (r : Ring) : Nat := (r.readAt + r.length) % r.capacity

theorem writeAt_lt (r : Ring) (room : 0 < r.window) : r.writeAt < r.capacity :=
  Nat.mod_lt _ (by unfold window at room; omega)

def append (r : Ring) (data : Octets) (room : data.length ≤ r.window) : Ring :=
  if more : 0 < data.length then
    let toEnd := r.capacity - r.writeAt
    have within : r.writeAt < r.capacity := r.writeAt_lt (by omega)
    have fits : r.writeAt + (data.take toEnd).length ≤ r.storage.length := by
      rw [List.length_take, r.storage_length]
      omega
    have fitsFront : 0 + (data.drop toEnd).length
        ≤ (store r.storage r.writeAt (data.take toEnd) fits).length := by
      rw [List.length_drop, length_store, r.storage_length]
      unfold window at room
      omega
    { r with
      storage := store (store r.storage r.writeAt (data.take toEnd) fits) 0 (data.drop toEnd) fitsFront
      length := r.length + data.length
      storage_length := by rw [length_store, length_store, r.storage_length]
      length_le := by unfold window at room; omega }
  else r

/-- Appends as much of `data` as there is room for, and tells how much that was. -/
def enqueue (r : Ring) (data : Octets) : Ring × Nat :=
  let count := min data.length r.window
  (r.append (data.take count) (by rw [List.length_take]; omega), count)

def take (r : Ring) (count : Nat) (held : count ≤ r.length) : Octets × Ring :=
  if more : 0 < count then
    let toEnd := r.capacity - r.readAt
    ((r.storage.drop r.readAt).take count ++ r.storage.take (count - toEnd),
      { r with
        readAt := (r.readAt + count) % r.capacity
        length := r.length - count
        length_le := Nat.le_trans (Nat.sub_le ..) r.length_le
        readAt_le := by
          have positive : 0 < r.capacity := by have := r.length_le; omega
          have := Nat.mod_lt (r.readAt + count) positive
          omega })
  else ([], r)

/-- An empty ring starts again at the front of its storage. -/
def rewind (r : Ring) : Ring := if r.isEmpty then r.clear else r

/-- Takes octets from the front into the start of a buffer, and tells how many they were. -/
def dequeueInto (r : Ring) (buffer : Octets) : Ring × Octets × Nat :=
  let count := min buffer.length r.length
  let taken := r.take count (by omega)
  (taken.2.rewind, taken.1 ++ buffer.drop count, count)

def dequeue (r : Ring) (count : Nat) : Ring × Octets :=
  let filled := r.dequeueInto (List.replicate (min count r.length) 0)
  (filled.1, filled.2.1.take filled.2.2)

end Ring
end TcpEngine
