import Std.Data.TreeSet.Lemmas

/-!
# Visited names

A `Visited` keeps the names that a walk has visited, in order, together with an index in which a
name is looked up quickly. The index holds the names of the list, so that the list says all about
it: `contains_iff` is about looking up, `names_add` about adding.
-/

namespace SchemaHealth

/-- The names that a walk has visited. -/
structure Visited where
  /-- The names, the last one first. -/
  newestFirst : List String
  index : Std.TreeSet String
  mem_index : ∀ name, name ∈ index ↔ name ∈ newestFirst

namespace Visited

/-- Nothing visited. -/
def empty : Visited := ⟨[], ∅, by simp⟩

/-- The names in the order in which they were visited. -/
def names (v : Visited) : List String := v.newestFirst.reverse

/-- Whether a name was visited. -/
def contains (v : Visited) (name : String) : Bool := v.index.contains name

/-- One more name visited. -/
def add (v : Visited) (name : String) : Visited where
  newestFirst := name :: v.newestFirst
  index := v.index.insert name
  mem_index other := by
    rw [Std.TreeSet.mem_insert, v.mem_index, List.mem_cons, Std.LawfulEqCmp.compare_eq_iff_eq]
    exact or_congr_left eq_comm

@[simp] theorem names_empty : empty.names = [] := rfl

@[simp] theorem names_add (v : Visited) (name : String) : (v.add name).names = v.names ++ [name] :=
  List.reverse_cons

@[simp] theorem contains_iff {v : Visited} {name : String} :
    v.contains name = true ↔ name ∈ v.names := by
  rw [names, List.mem_reverse, ← v.mem_index]
  exact Std.TreeSet.contains_iff_mem

theorem contains_eq_decide (v : Visited) (name : String) :
    v.contains name = decide (name ∈ v.names) := by
  rw [Bool.eq_iff_iff, contains_iff, decide_eq_true_iff]

end Visited

end SchemaHealth
