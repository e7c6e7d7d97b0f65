import TcpEngine.Table

/-!
Finding and replacing connections in a table whose connections have different endpoints.
-/
namespace TcpEngine
namespace Table

def Distinct (t : Table) : Prop := (t.connections.map Connection.here).Nodup

theorem get?_some {t : Table} {here : Endpoint} {c : Connection} (found : t.get? here = some c) :
    c ∈ t.connections ∧ c.here = here := by
  have same := List.find?_some found
  exact ⟨List.mem_of_find?_eq_some found, by simpa using same⟩

theorem get?_none {t : Table} {here : Endpoint} (missing : t.get? here = none) :
    here ∉ t.connections.map Connection.here := by
  intro member
  obtain ⟨c, there, same⟩ := List.mem_map.mp member
  have other := List.find?_eq_none.mp missing c there
  simp [same] at other

theorem mem_put {t : Table} {c d : Connection} (member : d ∈ (t.put c).connections) :
    d = c ∨ d ∈ t.connections := by
  obtain ⟨old, there, same⟩ := List.mem_map.mp member
  split at same
  · exact Or.inl same.symm
  · exact Or.inr (same ▸ there)

theorem put_here (t : Table) (c : Connection) :
    (t.put c).connections.map Connection.here = t.connections.map Connection.here := by
  simp only [put, List.map_map]
  apply List.map_congr_left
  intro old _
  simp only [Function.comp_apply]
  split
  · rename_i same
    exact same.symm
  · rfl

theorem put_distinct {t : Table} (distinct : t.Distinct) (c : Connection) :
    (t.put c).Distinct := by
  unfold Distinct
  rw [put_here]
  exact distinct

theorem split_at {t : Table} (distinct : t.Distinct) {here : Endpoint} {c : Connection}
    (found : t.get? here = some c) :
    ∃ before behind, t.connections = before ++ c :: behind ∧
      ∀ c', c'.here = c.here → (t.put c').connections = before ++ c' :: behind := by
  obtain ⟨there, _⟩ := get?_some found
  obtain ⟨before, behind, parts⟩ := List.append_of_mem there
  refine ⟨before, behind, parts, ?_⟩
  intro c' same
  have apart : ∀ d ∈ before ++ behind, d.here ≠ c.here := by
    unfold Distinct at distinct
    rw [parts, List.map_append, List.map_cons, List.perm_middle.nodup_iff] at distinct
    intro d member equal
    rw [← List.map_append, ← equal] at distinct
    exact (List.nodup_cons.mp distinct).1 (List.mem_map_of_mem member)
  have others {ds : List Connection} (inside : ∀ d ∈ ds, d.here ≠ c.here) :
      (ds.map fun old => if old.here = c'.here then c' else old) = ds := by
    rw [List.map_congr_left (g := id), List.map_id]
    intro d member
    rw [same, if_neg (inside d member)]
    rfl
  simp only [put, parts, List.map_append, List.map_cons]
  rw [others fun d member => apart d (List.mem_append_left _ member),
    others fun d member => apart d (List.mem_append_right _ member), if_pos same.symm]

theorem get?_of_mem {t : Table} (distinct : t.Distinct) {c : Connection}
    (member : c ∈ t.connections) : t.get? c.here = some c := by
  unfold Distinct at distinct
  unfold get?
  generalize t.connections = connections at distinct member
  induction connections with
  | nil => exact absurd member List.not_mem_nil
  | cons d rest ih =>
    rw [List.map_cons, List.nodup_cons] at distinct
    rcases List.mem_cons.mp member with rfl | member
    · simp
    · have other : d.here ≠ c.here := by
        intro same
        exact distinct.1 (same ▸ List.mem_map_of_mem member)
      rw [List.find?_cons_of_neg (by simpa using other)]
      exact ih distinct.2 member

theorem put_same {t : Table} (distinct : t.Distinct) {here : Endpoint} {c : Connection}
    (found : t.get? here = some c) : (t.put c).connections = t.connections := by
  obtain ⟨before, behind, parts, replaced⟩ := split_at distinct found
  rw [replaced c rfl, parts]

theorem get?_same {t t' : Table} (same : t'.connections = t.connections) (here : Endpoint) :
    t'.get? here = t.get? here := by
  rw [get?, same, get?]

theorem get?_map {t t' : Table} {f : Connection → Connection}
    (kept : ∀ c ∈ t.connections, (f c).here = c.here)
    (table : t'.connections = t.connections.map f) (here : Endpoint) :
    t'.get? here = (t.get? here).map f := by
  unfold get?
  rw [table]
  generalize t.connections = connections at kept
  induction connections with
  | nil => rfl
  | cons c rest ih =>
    rw [List.forall_mem_cons] at kept
    rw [List.map_cons, List.find?_cons, List.find?_cons, kept.1, ih kept.2]
    split <;> rfl

theorem get?_replace (t : Table) (c : Connection) (here : Endpoint) :
    (t.put c).get? here
      = if here = c.here then (t.get? here).map fun _ => c else t.get? here := by
  have kept : ∀ old ∈ t.connections, (if old.here = c.here then c else old).here = old.here := by
    intro old _
    split
    · rename_i same
      exact same.symm
    · rfl
  rw [get?_map kept rfl]
  cases there : t.get? here with
  | none => simp
  | some d =>
    rw [Option.map_some, Option.map_some, (get?_some there).2]
    split <;> rfl

theorem get?_put {t t' : Table} {target : Endpoint} {c c' : Connection}
    (found : t.get? target = some c) (same : c'.here = c.here)
    (table : t'.connections = (t.put c').connections) (here : Endpoint) :
    t'.get? here = if here = target then some c' else t.get? here := by
  rw [get?_same table, get?_replace, same, (get?_some found).2]
  split
  · rename_i equal
    rw [equal, found, Option.map_some]
  · rfl

theorem mem_insert {c d : Connection} {connections : List Connection} :
    d ∈ insert c connections ↔ d = c ∨ d ∈ connections := by
  induction connections with
  | nil => simp [insert]
  | cons e rest ih =>
    unfold insert
    split
    · simp
    · simp only [List.mem_cons, ih]
      exact or_left_comm

theorem insert_perm (c : Connection) (connections : List Connection) :
    (insert c connections).Perm (c :: connections) := by
  induction connections with
  | nil => exact List.Perm.refl _
  | cons e rest ih =>
    unfold insert
    split
    · exact List.Perm.refl _
    · exact (ih.cons e).trans (List.Perm.swap c e rest)

theorem get?_insert {t t' : Table} {c : Connection} (missing : t.get? c.here = none)
    (table : t'.connections = insert c t.connections) (here : Endpoint) :
    t'.get? here = if here = c.here then some c else t.get? here := by
  have absent := get?_none missing
  unfold get?
  rw [table]
  generalize t.connections = connections at absent
  induction connections with
  | nil => by_cases mine : here = c.here <;> simp [insert, mine, eq_comm]
  | cons d rest ih =>
    rw [List.map_cons, List.mem_cons, not_or] at absent
    unfold insert
    split
    · by_cases mine : here = c.here <;> simp [mine, eq_comm]
    · rw [List.find?_cons, List.find?_cons, ih absent.2]
      split
      · rename_i found
        have other : here ≠ c.here := by
          rintro rfl
          exact absent.1 (of_decide_eq_true found).symm
        rw [if_neg other]
      · rfl

theorem get?_filter {t t' : Table} {gone : Endpoint}
    (table : t'.connections = t.connections.filter fun d => d.here ≠ gone) (here : Endpoint) :
    t'.get? here = if here = gone then none else t.get? here := by
  unfold get?
  rw [table, List.find?_filter]
  split
  · rename_i same
    rw [List.find?_eq_none]
    intro d _
    simp [same]
  · rename_i other
    refine congrArg (List.find? · _) (funext fun d => ?_)
    by_cases found : d.here = here <;> simp [found, other]

end Table
end TcpEngine
