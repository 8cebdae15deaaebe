import StackCode.Compile.Pool

/-!
# The entries of a pool

A pool has nil first, no two entries with the same key, and at most 65536 entries, and finds the
entry with a key. Adding a constant keeps all of that, and gives an index where the constant is,
also if it was there before. That needs keys to tell constants apart (`Value.eq_of_key?`).
-/

namespace StackCode

/-! ## Keys -/

theorem Double.toBits_inj {x y : Double} (same : x.toBits = y.toBits) : x = y := by
  have p52 : pow2 52 = 4503599627370496 := by decide
  have p63 : pow2 63 = 9223372036854775808 := by decide
  have size : UInt64.size = 18446744073709551616 := rfl
  obtain ⟨sign, e, f⟩ := x
  obtain ⟨sign', e', f'⟩ := y
  have := e.isLt
  have := e'.isLt
  have := f.isLt
  have := f'.isLt
  have nats := congrArg UInt64.toNat same
  simp only [toBits, p52, p63] at nats
  rw [UInt64.toNat_ofNat_of_lt' (by split <;> omega),
    UInt64.toNat_ofNat_of_lt' (by split <;> omega)] at nats
  obtain ⟨rfl, sameExponent, sameFraction⟩ : sign = sign' ∧ e.val = e'.val ∧ f.val = f'.val := by
    cases sign <;> cases sign' <;> simp at nats ⊢ <;> omega
  rw [Fin.ext sameExponent, Fin.ext sameFraction]

theorem Value.eq_of_key? {v w : Value} {key : ValueKey} (isKey : v.key? = some key)
    (isKey' : w.key? = some key) : v = w := by
  cases v <;> cases w <;> cases isKey <;> simp only [key?, Option.some.injEq, reduceCtorEq,
    ValueKey.int.injEq, ValueKey.float.injEq, ValueKey.string.injEq, ValueKey.symbol.injEq]
    at isKey'
  · rfl
  · rw [Int64.toInt_inj.1 isKey']
  · rw [Double.toBits_inj (UInt64.toNat_inj.1 isKey')]
  · rw [isKey']
  · rw [isKey']

/-- The entries of a pool: nil is the first, no two have the same key, and their indices have
16 bits. -/
structure PoolRight (values : List Value) : Prop where
  first : values[0]? = some .nil
  distinct : ∀ {i j : Nat} {v w : Value} {key : ValueKey}, values[i]? = some v →
    values[j]? = some w → v.key? = some key → w.key? = some key → i = j
  small : values.length ≤ 65536

/-! ## Pools -/

theorem getElem?_of_begins {α : Type} {as bs : List α} (grows : as <+: bs) {i : Nat} {a : α}
    (found : as[i]? = some a) : bs[i]? = some a := by
  obtain ⟨more, rfl⟩ := grows
  rw [List.getElem?_append_left (List.getElem?_eq_some_iff.1 found).1]
  exact found

/-- The index of a pool finds its entries. -/
structure Pool.Indexed (p : Pool) : Prop where
  right : PoolRight p.values.toList
  found : ∀ (key : ValueKey) (i : Nat), p.indices[key]? = some i ↔
    ∃ v, p.values.toList[i]? = some v ∧ v.key? = some key

/-- A pool is extended. -/
structure Pool.Grows (p p' : Pool) : Prop where
  values : p.values.toList <+: p'.values.toList
  indexed : p.Indexed → p'.Indexed

namespace Pool

variable {p p' p'' : Pool} {value : Value}

theorem Grows.refl (p : Pool) : p.Grows p := ⟨List.prefix_refl _, id⟩

theorem Grows.trans (first : p.Grows p') (second : p'.Grows p'') : p.Grows p'' :=
  ⟨first.values.trans second.values, second.indexed ∘ first.indexed⟩

theorem toList_push (p : Pool) (value : Value) :
    (p.push value).values.toList = p.values.toList ++ [value] := by
  simp [push]

theorem Indexed.new : Pool.new.Indexed where
  right := by
    refine ⟨rfl, fun {i j v w key} foundI foundJ _ _ => ?_, by decide⟩
    have lower : ∀ {i : Nat} {v : Value}, [Value.nil][i]? = some v → i = 0 := by
      intro i v found
      have := (List.getElem?_eq_some_iff.1 found).1
      simpa using this
    rw [lower foundI, lower foundJ]
  found key i := by
    show ((∅ : Std.ExtTreeMap ValueKey Nat ValueKey.order).insert .nil 0)[key]? = some i ↔ _
    rw [Std.ExtTreeMap.getElem?_insert]
    constructor
    · intro found
      split at found
      · rename_i same
        have same := Std.LawfulEqCmp.eq_of_compare same
        cases found
        exact ⟨.nil, rfl, congrArg some same⟩
      · simp at found
    · rintro ⟨v, found, isKey⟩
      cases i with
      | zero =>
        cases found
        cases isKey
        rfl
      | succ i => simp [Pool.new] at found

theorem Indexed.push (indexed : p.Indexed) (room : p.values.size ≤ maxConstant)
    (missing : p.find? value = none) : (p.push value).Indexed := by
  have values := p.toList_push value
  have length : p.values.toList.length = p.values.size := Array.length_toList
  -- An entry is an old one or the new one, and the new one has a key that no old one has.
  have cases {i : Nat} {v : Value} : (p.values.toList ++ [value])[i]? = some v ↔
      p.values.toList[i]? = some v ∨ i = p.values.size ∧ v = value := by
    rw [List.getElem?_append]
    split
    · rename_i low
      have : i ≠ p.values.size := by omega
      simp [this]
    · rename_i high
      have none : p.values.toList[i]? = none := List.getElem?_eq_none (by omega)
      rw [none, List.getElem?_singleton]
      have same : i - p.values.toList.length = 0 ↔ i = p.values.size := by omega
      simp only [same]
      split <;> rename_i h <;> simp [h, eq_comm]
  have fresh {i : Nat} {v : Value} {key : ValueKey} (found : p.values.toList[i]? = some v)
      (isKey : v.key? = some key) : value.key? ≠ some key := by
    intro same
    have := (indexed.found key i).2 ⟨v, found, isKey⟩
    rw [Pool.find?, same, Option.bind_some, this] at missing
    cases missing
  refine ⟨⟨?_, ?_, ?_⟩, fun key i => ?_⟩
  · rw [values, List.getElem?_append_left]
    · exact indexed.right.first
    · exact (List.getElem?_eq_some_iff.1 indexed.right.first).1
  · intro i j v w key foundI foundJ isKey isKey'
    rw [values, cases] at foundI foundJ
    rcases foundI with foundI | ⟨rfl, rfl⟩ <;> rcases foundJ with foundJ | ⟨rfl, rfl⟩
    · exact indexed.right.distinct foundI foundJ isKey isKey'
    · exact (fresh foundI isKey isKey').elim
    · exact (fresh foundJ isKey' isKey).elim
    · rfl
  · rw [values, List.length_append, length, List.length_singleton]
    unfold maxConstant at room
    omega
  · rw [values]
    simp only [cases]
    have indices : (p.push value).indices[key]? =
        if value.key? = some key then some p.values.size else p.indices[key]? := by
      unfold Pool.push
      cases isKey : value.key? with
      | none => simp
      | some other =>
        dsimp only
        rw [Std.ExtTreeMap.getElem?_insert]
        simp only [Std.LawfulEqCmp.compare_eq_iff_eq, Option.some.injEq]
    rw [indices]
    split
    · rename_i isKey
      constructor
      · rintro ⟨⟩
        exact ⟨value, .inr ⟨rfl, rfl⟩, isKey⟩
      · rintro ⟨v, old | ⟨rfl, rfl⟩, isKey'⟩
        · exact (fresh old isKey' isKey).elim
        · rfl
    · rename_i other
      rw [indexed.found]
      constructor
      · rintro ⟨v, found, isKey⟩
        exact ⟨v, .inl found, isKey⟩
      · rintro ⟨v, found | ⟨rfl, rfl⟩, isKey⟩
        · exact ⟨v, found, isKey⟩
        · exact (other isKey).elim

theorem grows_add (p : Pool) (value : Value) : p.Grows (p.add value).2 := by
  unfold add
  cases missing : p.find? value with
  | some index => exact .refl p
  | none =>
    dsimp only
    split
    · exact .refl p
    · rename_i room
      exact ⟨⟨[value], (p.toList_push value).symm⟩, fun indexed =>
        indexed.push (Nat.not_lt.1 room) missing⟩

/-- **A constant that is added is at its index.** -/
theorem Indexed.add (indexed : p.Indexed) {i : Nat} (added : (p.add value).1 = .ok i) :
    i < 65536 ∧ (p.add value).2.values.toList[i]? = some value := by
  have small := ((p.grows_add value).indexed indexed).right.small
  have there : (p.add value).2.values.toList[i]? = some value := by
    unfold Pool.add at added ⊢
    cases found : p.find? value with
    | some index =>
      rw [found] at added
      cases added
      obtain ⟨key, isKey, atKey⟩ := Option.bind_eq_some_iff.1 found
      obtain ⟨v, there, isKey'⟩ := (indexed.found key i).1 atKey
      rwa [Value.eq_of_key? isKey isKey']
    | none =>
      rw [found] at added
      dsimp only at added ⊢
      split at added
      · cases added
      · rename_i room
        rw [if_neg room]
        cases added
        rw [toList_push]
        exact List.getElem?_concat_length
  exact ⟨Nat.lt_of_lt_of_le (List.getElem?_eq_some_iff.1 there).1 small, there⟩

end Pool

end StackCode
