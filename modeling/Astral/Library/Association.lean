import Mathlib.Tactic

namespace Astral.Library

open Function

variable {K V : Type} [DecidableEq K]

/-- A list of pairs with different keys is the graph of a partial map. -/
structure Graph (map : K → Option V) (pairs : List (K × V)) : Prop where
  distinct : (pairs.map Prod.fst).Nodup
  exactly : ∀ key value, map key = some value ↔ (key, value) ∈ pairs

variable {map : K → Option V} {pairs other : List (K × V)} {key : K} {value : V}

omit [DecidableEq K] in
theorem Graph.absent (graph : Graph map pairs) (none_bound : map key = none) : key ∉ pairs.map Prod.fst := by
  intro member
  obtain ⟨⟨same, value⟩, inside, rfl⟩ := List.mem_map.mp member
  have bound := (graph.exactly same value).mpr inside
  rw [none_bound] at bound
  cases bound

/-- A new pair binds a key that was free. -/
theorem Graph.insert (graph : Graph map pairs) (none_bound : map key = none)
    (changed : other.Perm ((key, value) :: pairs)) : Graph (update map key (some value)) other where
  distinct := by
    rw [(changed.map Prod.fst).nodup_iff, List.map_cons, List.nodup_cons]
    exact ⟨graph.absent none_bound, graph.distinct⟩
  exactly name bound := by
    rw [changed.mem_iff, List.mem_cons]
    by_cases same : name = key
    · subst same
      have unbound : (name, bound) ∉ pairs := fun member =>
        graph.absent none_bound (List.mem_map.mpr ⟨_, member, rfl⟩)
      simp [unbound, eq_comm]
    · rw [update_of_ne same, graph.exactly]
      simp [same]

/-- Without its pair a key is free. -/
theorem Graph.remove (graph : Graph map pairs) (changed : pairs.Perm ((key, value) :: other)) :
    Graph (update map key none) other := by
  have distinct := graph.distinct
  rw [(changed.map Prod.fst).nodup_iff, List.map_cons, List.nodup_cons] at distinct
  refine ⟨distinct.2, ?_⟩
  intro name bound
  by_cases same : name = key
  · subst same
    have unbound : (name, bound) ∉ other := fun member => distinct.1 (List.mem_map.mpr ⟨_, member, rfl⟩)
    simp [unbound]
  · rw [update_of_ne same, graph.exactly, changed.mem_iff, List.mem_cons]
    simp [same]

end Astral.Library
