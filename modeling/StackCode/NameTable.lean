import Std.Data.ExtTreeMap

/-!
# Tables of names

The instance variables of an object lie in numbered slots, and the members of a namespace are listed
in the order in which they were declared. Both are tables of distinct names in order. A subclass
starts from the table of its superclass and appends its own names, so the slots it inherits never
move.

## Design Notes

A search tree from names to slots stands beside the list of names; that the two agree is part of the
type, so `index?` is the position in `names` by definition of the type. So is that no name is listed
twice.
-/

namespace StackCode

theorem idxOf?_concat (l : List String) (x n : String) (h : x ∉ l) :
    (l ++ [x]).idxOf? n = if x = n then some l.length else l.idxOf? n := by
  induction l with
  | nil => by_cases e : x = n <;> simp [List.idxOf?, List.findIdx?_cons, e]
  | cons y l ih =>
    have hx : x ∉ l := fun m => h (List.mem_cons_of_mem _ m)
    have hy : ¬ x = y := fun e => h (e ▸ List.mem_cons_self)
    have ih' := ih hx
    simp only [List.idxOf?, List.cons_append, List.findIdx?_cons] at ih' ⊢
    by_cases e : y = n
    · subst e
      simp [hy]
    · have e' : (y == n) = false := by simp [e]
      rw [e', ih']
      by_cases e2 : x = n <;> simp [e2]

structure NameTable where
  /-- The names; a name's position is its slot. -/
  names : Array String
  slots : Std.ExtTreeMap String Nat compare
  slots_spec : ∀ n, slots[n]? = names.toList.idxOf? n
  nodup_names : names.toList.Nodup

namespace NameTable

def empty : NameTable where
  names := #[]
  slots := ∅
  slots_spec := by simp
  nodup_names := by simp

instance : Inhabited NameTable := ⟨empty⟩

def index? (t : NameTable) (name : String) : Option Nat := t.slots[name]?

def contains (t : NameTable) (name : String) : Bool := (t.index? name).isSome

def size (t : NameTable) : Nat := t.names.size

/-- Give a name the next slot, unless it has one. -/
def insert (t : NameTable) (name : String) : NameTable :=
  if h : t.slots[name]? = none then
    have missing : name ∉ t.names.toList := by
      rw [t.slots_spec] at h
      simpa using h
    { names := t.names.push name
      slots := t.slots.insert name t.names.size
      slots_spec := fun n => by
        rw [Array.toList_push, idxOf?_concat _ _ _ missing, Std.ExtTreeMap.getElem?_insert,
          t.slots_spec n]
        simp
      nodup_names := by
        rw [Array.toList_push, List.nodup_append]
        refine ⟨t.nodup_names, by simp, ?_⟩
        rintro a ha b hb rfl
        rw [List.mem_singleton] at hb
        exact missing (hb ▸ ha) }
  else t

/-- The table that lists the given names, each at its first position. -/
def ofList (names : List String) : NameTable := names.foldl insert empty

/-- Give every name of another table a slot, in its order. -/
def append (t other : NameTable) : NameTable := other.names.foldl insert t

/-- Whether every name of `base` sits at the same slot in `t`. -/
def keepsSlots (t base : NameTable) : Bool :=
  base.names.all fun name => t.index? name == base.index? name

/-- Whether two tables list the same names, in whatever order. -/
def sameNames (a b : NameTable) : Bool :=
  a.size == b.size && a.names.all b.contains

/-- A table as it is listed among the constants of a function. -/
def text (t : NameTable) : String :=
  let entries := t.names.toList.zipIdx.map fun (name, slot) => name ++ ": " ++ toString slot
  "IvarIndices\x7b" ++ ", ".intercalate entries ++ "\x7d"

/-! ### What the operations do to the names -/

@[simp] theorem names_empty : empty.names = #[] := rfl

theorem index?_eq (t : NameTable) (n : String) : t.index? n = t.names.toList.idxOf? n :=
  t.slots_spec n

@[ext] theorem ext {a b : NameTable} (h : a.names = b.names) : a = b := by
  cases a with
  | mk names slots spec nodup =>
    cases b with
    | mk names' slots' spec' nodup' =>
      subst h
      have : slots = slots' := Std.ExtTreeMap.ext_getElem? fun n => by rw [spec n, spec' n]
      subst this
      rfl

theorem contains_iff (t : NameTable) (n : String) : t.contains n = true ↔ n ∈ t.names.toList := by
  simp [contains, index?_eq, List.isSome_idxOf?]

theorem names_insert (t : NameTable) (n : String) :
    (t.insert n).names = if n ∈ t.names.toList then t.names else t.names.push n := by
  unfold insert
  by_cases h : n ∈ t.names.toList
  · have : t.slots[n]? ≠ none := by
      rw [t.slots_spec]
      simpa using h
    simp [this, h]
  · have : t.slots[n]? = none := by
      rw [t.slots_spec]
      simpa using h
    simp [this, h]

@[simp] theorem contains_empty (n : String) : empty.contains n = false := by
  rw [Bool.eq_false_iff, Ne, contains_iff]
  exact List.not_mem_nil

theorem contains_insert {t : NameTable} {n m : String} :
    (t.insert n).contains m = true ↔ m = n ∨ t.contains m = true := by
  rw [contains_iff, contains_iff, names_insert]
  split
  · rename_i listed
    refine ⟨.inr, ?_⟩
    rintro (rfl | found)
    · exact listed
    · exact found
  · rw [Array.toList_push, List.mem_append, List.mem_singleton, or_comm]

end NameTable

end StackCode
