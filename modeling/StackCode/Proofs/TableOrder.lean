import Mathlib.Data.List.Perm.Subperm
import Mathlib.Order.Defs.PartialOrder
import StackCode.NameTable

/-!
# The extension order on tables of names

The relation that layouts live on is "this table begins with that one". It is a partial order,
written `a ≤ b`, and it is the same as keeping every slot (`le_iff_index?`). Publication compares
tables by `sameNames`, which is equality up to a permutation, so that slots may have moved
(`sameNames_iff_perm`).
-/

namespace StackCode

namespace NameTable

variable {a b : NameTable}

/-! ## Extension -/

/-- A table is below another that lists the same names in the same order, and then perhaps more. -/
instance : PartialOrder NameTable where
  le a b := a.names.toList <+: b.names.toList
  le_refl _ := List.prefix_rfl
  le_trans _ _ _ ab bc := ab.trans bc
  le_antisymm a b ab ba := by
    apply NameTable.ext
    apply Array.toList_inj.1
    exact ab.eq_of_length_le ba.length_le

theorem le_iff : a ≤ b ↔ a.names.toList <+: b.names.toList := Iff.rfl

theorem empty_le (t : NameTable) : empty ≤ t := by
  simp [le_iff]

theorem le_insert (t : NameTable) (name : String) : t ≤ t.insert name := by
  rw [le_iff, names_insert]
  split
  · exact List.prefix_rfl
  · exact ⟨[name], by simp⟩

theorem le_foldl_insert (t : NameTable) (names : List String) : t ≤ names.foldl insert t := by
  induction names generalizing t with
  | nil => exact le_refl t
  | cons name rest ih => exact (le_insert t name).trans (ih (t.insert name))

theorem le_append (t other : NameTable) : t ≤ t.append other := by
  rw [append, ← Array.foldl_toList]
  exact le_foldl_insert t other.names.toList

theorem eq_of_le_of_size (h : a ≤ b) (small : b.size ≤ a.size) : a = b := by
  apply NameTable.ext
  apply Array.toList_inj.1
  exact (le_iff.1 h).eq_of_length_le (by simpa [size] using small)

/-! ## Slots -/

/-- A slot is the position of its name. Names are listed once, so there is no other position. -/
theorem index?_eq_some_iff (t : NameTable) (x : String) (i : Nat) :
    t.index? x = some i ↔ t.names.toList[i]? = some x := by
  rw [index?_eq, List.idxOf?_eq_some_iff]
  constructor
  · rintro ⟨bound, found, -⟩
    rw [List.getElem?_eq_getElem bound, found]
  · intro found
    obtain ⟨bound, rfl⟩ := List.getElem?_eq_some_iff.1 found
    refine ⟨bound, rfl, ?_⟩
    intro j before same
    have equal := (List.getElem_inj t.nodup_names).1 same
    omega

/-- **Extension is keeping slots.** -/
theorem le_iff_index? :
    a ≤ b ↔ ∀ x i, a.index? x = some i → b.index? x = some i := by
  constructor
  · rintro h x i found
    rw [index?_eq_some_iff] at found ⊢
    obtain ⟨bound, rfl⟩ := List.getElem?_eq_some_iff.1 found
    exact List.prefix_iff_getElem?.1 (le_iff.1 h) i bound
  · intro h
    rw [le_iff, List.prefix_iff_getElem?]
    intro i bound
    have found : a.index? a.names.toList[i] = some i := by
      rw [index?_eq_some_iff, List.getElem?_eq_getElem bound]
    exact (index?_eq_some_iff b _ i).1 (h _ i found)

theorem index?_of_le (h : a ≤ b) {x : String} {i : Nat}
    (found : a.index? x = some i) :
    b.index? x = some i :=
  le_iff_index?.1 h x i found

/-! ## Tables that list the same names -/

/-- **Tables that list the same names are permutations of each other.** -/
theorem sameNames_iff_perm :
    a.sameNames b = true ↔ a.names.toList.Perm b.names.toList := by
  simp only [sameNames, Bool.and_eq_true, beq_iff_eq, Array.all_eq_true', contains_iff]
  constructor
  · rintro ⟨sizes, listed⟩
    have included : a.names.toList ⊆ b.names.toList := by
      intro x mem
      exact listed x (Array.mem_toList_iff.1 mem)
    refine (List.subperm_of_subset a.nodup_names included).perm_of_length_le ?_
    simpa [size] using Nat.le_of_eq sizes.symm
  · intro perm
    refine ⟨by simpa [size] using perm.length_eq, ?_⟩
    intro x mem
    exact perm.subset (Array.mem_toList_iff.2 mem)

theorem sameNames_rfl (t : NameTable) : t.sameNames t = true := sameNames_iff_perm.2 (.refl _)

theorem sameNames_symm (h : a.sameNames b = true) : b.sameNames a = true :=
  sameNames_iff_perm.2 (sameNames_iff_perm.1 h).symm

theorem eq_of_le_of_sameNames (h : a ≤ b) (same : b.sameNames a = true) :
    a = b := by
  apply eq_of_le_of_size h
  have := (sameNames_iff_perm.1 same).length_eq
  simpa [size] using Nat.le_of_eq this

end NameTable

end StackCode
