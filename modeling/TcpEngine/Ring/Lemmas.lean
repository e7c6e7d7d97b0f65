import TcpEngine.Ring

/-!
A ring is a queue of bounded length: seen through `toList`, octets are appended at the end and taken
from the front, wherever they are stored.
-/
namespace TcpEngine
namespace Ring

theorem length_toList (r : Ring) : r.toList.length = r.length := by
  have held := r.length_le
  have size := r.storage_length
  simp only [toList, List.length_take, List.length_append, List.length_drop]
  omega

theorem writeAt_eq (r : Ring) (room : 0 < r.window) :
    r.writeAt = if r.readAt + r.length < r.capacity then r.readAt + r.length
      else r.readAt + r.length - r.capacity := by
  have bound := r.readAt_le
  unfold window at room
  unfold writeAt
  split
  · exact Nat.mod_eq_of_lt ‹_›
  · rw [Nat.mod_eq_sub_mod (by omega), Nat.mod_eq_of_lt (by omega)]

theorem getElem?_toList (r : Ring) (i : Nat) :
    r.toList[i]? = if i < r.length then
      if i < r.capacity - r.readAt then r.storage[r.readAt + i]?
      else r.storage[i - (r.capacity - r.readAt)]?
    else none := by
  have held := r.length_le
  have bound := r.readAt_le
  have size := r.storage_length
  simp only [toList, List.getElem?_take, List.getElem?_append, List.getElem?_drop,
    List.length_drop, size]
  split
  · split
    · rfl
    · rw [if_pos (by omega)]
  · rfl

theorem getElem?_store (storage : Octets) (start : Nat) (value : Octets)
    (fits : start + value.length ≤ storage.length) (i : Nat) :
    (store storage start value fits)[i]? =
      if start ≤ i ∧ i < start + value.length then value[i - start]? else storage[i]? := by
  simp only [store, List.getElem?_append, List.getElem?_take, List.getElem?_drop,
    List.length_append, List.length_take]
  grind

theorem toList_append (r : Ring) (data : Octets) (room : data.length ≤ r.window) :
    (r.append data room).toList = r.toList ++ data := by
  have held := r.length_le
  have bound := r.readAt_le
  have size := r.storage_length
  unfold append
  split
  · rename_i more
    have place := r.writeAt_eq (by omega)
    unfold window at room
    apply List.ext_getElem?
    intro i
    rw [getElem?_toList, List.getElem?_append, getElem?_toList, length_toList]
    simp only [getElem?_store, List.getElem?_take, List.getElem?_drop, List.length_take, List.length_drop]
    grind
  · have : data = [] := List.eq_nil_of_length_eq_zero (by omega)
    simp [this]

theorem take_fst (r : Ring) (count : Nat) (held : count ≤ r.length) :
    (r.take count held).1 = r.toList.take count := by
  have bound := r.readAt_le
  have size := r.storage_length
  have limit := r.length_le
  unfold take
  split
  · apply List.ext_getElem?
    intro i
    rw [List.getElem?_take, getElem?_toList, List.getElem?_append]
    simp only [List.getElem?_take, List.getElem?_drop, List.length_take, List.length_drop]
    grind
  · have : count = 0 := by omega
    simp [this]

theorem toList_take (r : Ring) (count : Nat) (held : count ≤ r.length) :
    (r.take count held).2.toList = r.toList.drop count := by
  have bound := r.readAt_le
  have size := r.storage_length
  have limit := r.length_le
  unfold take
  split
  · apply List.ext_getElem?
    intro i
    have turn : (r.readAt + count) % r.capacity =
        if r.readAt + count < r.capacity then r.readAt + count
        else r.readAt + count - r.capacity := by
      split
      · exact Nat.mod_eq_of_lt ‹_›
      · rw [Nat.mod_eq_sub_mod (by omega), Nat.mod_eq_of_lt (by omega)]
    rw [List.getElem?_drop, getElem?_toList, getElem?_toList]
    simp only
    grind
  · have : count = 0 := by omega
    simp [this]

theorem toList_clear (r : Ring) : r.clear.toList = [] := by
  simp [clear, toList]

theorem toList_empty (capacity : Nat) : (empty capacity).toList = [] := by
  simp [empty, toList]

theorem toList_rewind (r : Ring) : r.rewind.toList = r.toList := by
  unfold rewind
  split
  · rename_i none
    have none : r.length = 0 := by simpa [isEmpty] using none
    rw [toList_clear]
    simp [toList, none]
  · rfl

theorem toList_enqueue (r : Ring) (data : Octets) :
    (r.enqueue data).1.toList = r.toList ++ data.take r.window := by
  simp only [enqueue, toList_append, List.append_cancel_left_eq]
  rw [Nat.min_comm]
  exact List.take_eq_take_min.symm

theorem enqueue_snd (r : Ring) (data : Octets) :
    (r.enqueue data).2 = min data.length r.window := rfl

theorem enqueue_take (r : Ring) (data : Octets) :
    (r.enqueue (data.take r.window)).1 = (r.enqueue data).1 := by
  simp only [enqueue, List.length_take, List.take_take]
  congr 2
  omega

theorem dequeueInto_buffer (r : Ring) (buffer : Octets) :
    (r.dequeueInto buffer).2.1 = r.toList.take buffer.length ++ buffer.drop r.length := by
  have size := r.length_toList
  simp only [dequeueInto, take_fst]
  by_cases fits : buffer.length ≤ r.length
  · simp [Nat.min_eq_left fits, List.drop_of_length_le fits]
  · have longer : r.length ≤ buffer.length := by omega
    rw [Nat.min_eq_right longer, List.take_of_length_le (by omega),
      List.take_of_length_le (by omega)]

theorem toList_dequeueInto (r : Ring) (buffer : Octets) :
    (r.dequeueInto buffer).1.toList = r.toList.drop buffer.length := by
  have size := r.length_toList
  simp only [dequeueInto, toList_rewind, toList_take]
  by_cases fits : buffer.length ≤ r.length
  · rw [Nat.min_eq_left fits]
  · rw [Nat.min_eq_right (by omega), List.drop_of_length_le (by omega),
      List.drop_of_length_le (by omega)]

theorem dequeue_octets (r : Ring) (count : Nat) :
    (r.dequeue count).2 = r.toList.take count := by
  have size := r.length_toList
  simp only [dequeue, dequeueInto_buffer, List.length_replicate]
  simp only [dequeueInto, List.length_replicate]
  rw [List.take_append_of_le_length (by rw [List.length_take]; omega), List.take_take]
  rw [show min (min (min count r.length) r.length) (min count r.length) = min count r.toList.length
    by omega]
  exact List.take_eq_take_min.symm

theorem toList_dequeue (r : Ring) (count : Nat) :
    (r.dequeue count).1.toList = r.toList.drop count := by
  have size := r.length_toList
  simp only [dequeue, toList_dequeueInto, List.length_replicate]
  by_cases fits : count ≤ r.length
  · rw [Nat.min_eq_left fits]
  · rw [Nat.min_eq_right (by omega), List.drop_of_length_le (by omega),
      List.drop_of_length_le (by omega)]

/- A ring keeps its storage, whatever goes in and out. -/

theorem enqueue_capacity (r : Ring) (data : Octets) : (r.enqueue data).1.capacity = r.capacity := by
  simp only [enqueue, append]
  split <;> rfl

theorem take_capacity (r : Ring) (count : Nat) (held : count ≤ r.length) :
    (r.take count held).2.capacity = r.capacity := by
  unfold take
  split <;> rfl

theorem dequeueInto_capacity (r : Ring) (buffer : Octets) :
    (r.dequeueInto buffer).1.capacity = r.capacity := by
  simp only [dequeueInto, rewind]
  split <;> exact take_capacity r _ _

theorem dequeue_capacity (r : Ring) (count : Nat) : (r.dequeue count).1.capacity = r.capacity := by
  rw [dequeue]
  exact dequeueInto_capacity r _

end Ring
end TcpEngine
