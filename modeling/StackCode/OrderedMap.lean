import Std.Data.ExtTreeMap

/-!
# Maps that remember the order of insertion

Namespaces, members and instance variables are looked up by name and listed in the order in which
they were first declared. An `OrderedMap` keeps both views: the keys in order of first insertion and
a search tree from keys to values.

## Design Notes

The two views list the same keys, each once; that is part of the type. Inserting at a key that is
already there replaces the value and leaves the key where it stands.
-/

namespace StackCode

/-- A map from names that lists its keys in the order of their first insertion. -/
structure OrderedMap (α : Type) where
  /-- The keys, earliest insertion first. -/
  keys : Array String
  values : Std.ExtTreeMap String α compare
  mem_keys : ∀ k, k ∈ keys.toList ↔ k ∈ values
  nodup_keys : keys.toList.Nodup

namespace OrderedMap

variable {α : Type}

def empty : OrderedMap α where
  keys := #[]
  values := ∅
  mem_keys := by simp
  nodup_keys := List.nodup_nil

instance : Inhabited (OrderedMap α) := ⟨empty⟩

def get? (m : OrderedMap α) (k : String) : Option α := m.values[k]?

def contains (m : OrderedMap α) (k : String) : Bool := m.values.contains k

def size (m : OrderedMap α) : Nat := m.keys.size

/-- Put a value at a key; a new key comes last. -/
def insert (m : OrderedMap α) (k : String) (v : α) : OrderedMap α :=
  if h : k ∈ m.values then
    { keys := m.keys
      values := m.values.insert k v
      mem_keys := fun a => by
        rw [m.mem_keys a, Std.ExtTreeMap.mem_insert]
        constructor
        · exact Or.inr
        · rintro (e | ha)
          · exact Std.LawfulEqCmp.eq_of_compare e ▸ h
          · exact ha
      nodup_keys := m.nodup_keys }
  else
    { keys := m.keys.push k
      values := m.values.insert k v
      mem_keys := fun a => by
        rw [Std.ExtTreeMap.mem_insert, Array.toList_push, List.mem_append, m.mem_keys a,
          List.mem_singleton]
        constructor
        · rintro (ha | rfl)
          · exact Or.inr ha
          · exact Or.inl Std.ReflCmp.compare_self
        · rintro (e | ha)
          · exact Or.inr (Std.LawfulEqCmp.eq_of_compare e).symm
          · exact Or.inl ha
      nodup_keys := by
        rw [Array.toList_push, List.nodup_append]
        refine ⟨m.nodup_keys, by simp, ?_⟩
        rintro a ha b hb rfl
        rw [List.mem_singleton] at hb
        exact h (hb ▸ (m.mem_keys a).1 ha) }

/-- Change the value at a key, if the map has it. -/
def modify (m : OrderedMap α) (k : String) (f : α → α) : OrderedMap α where
  keys := m.keys
  values := m.values.modify k f
  mem_keys := fun a => by rw [m.mem_keys a, Std.ExtTreeMap.mem_modify]
  nodup_keys := m.nodup_keys

def map (m : OrderedMap α) (f : α → α) : OrderedMap α where
  keys := m.keys
  values := m.values.map fun _ v => f v
  mem_keys := fun a => by rw [m.mem_keys a, Std.ExtTreeMap.mem_map]
  nodup_keys := m.nodup_keys

/-- The entries, earliest key first. -/
def toList (m : OrderedMap α) : List (String × α) :=
  m.keys.toList.filterMap fun k => (m.get? k).map fun v => (k, v)

/-- The values, earliest key first. -/
def toValues (m : OrderedMap α) : List α :=
  m.keys.toList.filterMap m.get?

/-! ### What the operations do to the two views -/

@[simp] theorem get?_empty (k : String) : (empty : OrderedMap α).get? k = none := by
  simp [get?, empty]

@[simp] theorem keys_empty : (empty : OrderedMap α).keys = #[] := rfl

@[ext] theorem ext {a b : OrderedMap α} (keys : a.keys = b.keys)
    (get : ∀ k, a.get? k = b.get? k) : a = b := by
  cases a with
  | mk ka va ma na =>
    cases b with
    | mk kb vb mb nb =>
      subst keys
      have : va = vb := Std.ExtTreeMap.ext_getElem? get
      subst this
      rfl

theorem get?_insert (m : OrderedMap α) (k a : String) (v : α) :
    (m.insert k v).get? a = if k = a then some v else m.get? a := by
  unfold insert get?
  split <;> simp [Std.ExtTreeMap.getElem?_insert]

theorem keys_insert (m : OrderedMap α) (k : String) (v : α) :
    (m.insert k v).keys = if k ∈ m.values then m.keys else m.keys.push k := by
  unfold insert
  split <;> rfl

@[simp] theorem keys_modify (m : OrderedMap α) (k : String) (f : α → α) :
    (m.modify k f).keys = m.keys := rfl

@[simp] theorem keys_map (m : OrderedMap α) (f : α → α) : (m.map f).keys = m.keys := rfl

theorem get?_modify (m : OrderedMap α) (k a : String) (f : α → α) :
    (m.modify k f).get? a = if k = a then (m.get? a).map f else m.get? a := by
  unfold modify get?
  rw [Std.ExtTreeMap.getElem?_modify]
  simp only [Std.compare_eq_iff_eq]
  split
  · subst_vars; rfl
  · rfl

@[simp] theorem get?_map (m : OrderedMap α) (a : String) (f : α → α) :
    (m.map f).get? a = (m.get? a).map f := by
  simp [map, get?]

theorem mem_keys_iff (m : OrderedMap α) (k : String) :
    k ∈ m.keys.toList ↔ (m.get? k).isSome := by
  rw [m.mem_keys, get?, Std.ExtTreeMap.mem_iff_isSome_getElem?]

end OrderedMap

end StackCode
