import Blueprints.Text.Numeral

/-! # New numbers are new

    The number of an id is the number that it ends in, if that is below
    `2 ^ 64`.  The next number of a list of ids is larger than the number of
    every one of them (`lt_nextSequence`).  An id that ends in it is therefore
    none of them, as long as its number counts too: this fails only behind
    the last number, `2 ^ 64 - 1` (`append_nextSequence_not_mem`). -/

namespace Blueprints.Text

/-- The number that an id ends in, if it is below `2 ^ 64`. -/
def number? (id : String) : Option Nat :=
  match trailingDigits id.toList with
  | [] => none
  | digits => if digitsValue digits < Nat.pow 2 64 then some (digitsValue digits) else none

/-- The last number that counts. -/
def lastNumber : Nat := Nat.pow 2 64 - 1

theorem number?_le {id : String} {n : Nat} (h : number? id = some n) : n ≤ lastNumber := by
  rw [number?] at h
  split at h
  · exact nomatch h
  · split at h
    · next hlt =>
      obtain rfl := Option.some.inj h
      exact Nat.le_sub_one_of_lt hlt
    · exact nomatch h

/-! ## The number that is written -/

theorem digitsValue_toDigits (n : Nat) : digitsValue (Nat.toDigits 10 n) = n :=
  Nat.ofDigitChars_toDigits (by decide) (by decide)

/-- The digits at the end are those that are written behind a text that ends in
    none. -/
theorem trailingDigits_append_toDigits {cs : List Char} (h : trailingDigits cs = []) (n : Nat) :
    trailingDigits (cs ++ Nat.toDigits 10 n) = Nat.toDigits 10 n := by
  have hdigits : ∀ c ∈ (Nat.toDigits 10 n).reverse, c.isDigit = true := fun c hc =>
    Nat.isDigit_of_mem_toDigits (by decide) (by decide) (List.mem_reverse.1 hc)
  have hnone : cs.reverse.takeWhile Char.isDigit = [] := List.reverse_eq_nil_iff.1 h
  rw [trailingDigits, List.reverse_append, List.takeWhile_append_of_pos hdigits, hnone,
    List.append_nil, List.reverse_reverse]

/-- **A number at the end of an id is read back**, if it is not too large. -/
theorem number?_append_toString {stem : String} (h : trailingDigits stem.toList = []) (n : Nat) :
    number? (stem ++ toString n) = if n < Nat.pow 2 64 then some n else none := by
  rw [number?, String.toList_append, Nat.toString_eq_ofList_toDigits, String.toList_ofList,
    trailingDigits_append_toDigits h]
  split
  · next hnil => exact absurd hnil Nat.toDigits_ne_nil
  · rw [digitsValue_toDigits]

/-! ## The next number -/

/-- The next number is one more than the largest number, or one if no id has a
    number. -/
theorem nextSequence_cases (ids : List String) :
    (ids.filterMap number? = [] ∧ nextSequence ids = 1)
      ∨ ∃ n, (ids.filterMap number?).max? = some n ∧ nextSequence ids = n + 1 := by
  unfold nextSequence
  dsimp only
  split
  · next hnone => exact Or.inl ⟨hnone, rfl⟩
  · next n ns hnumbers =>
    have hmax : (ids.filterMap number?).max? = some (ns.foldl max n) := by
      rw [show ids.filterMap number? = n :: ns from hnumbers]
      exact List.max?_cons'
    exact Or.inr ⟨_, hmax, rfl⟩

/-- **The next number is larger than the number of every id.** -/
theorem lt_nextSequence {ids : List String} {id : String} {n : Nat} (hid : id ∈ ids)
    (hnumber : number? id = some n) : n < nextSequence ids := by
  have hmem : n ∈ ids.filterMap number? := List.mem_filterMap.2 ⟨id, hid, hnumber⟩
  rcases nextSequence_cases ids with ⟨hnone, -⟩ | ⟨m, hmax, hnext⟩
  · rw [hnone] at hmem
    exact absurd hmem List.not_mem_nil
  · rw [hnext]
    exact Nat.lt_succ_of_le ((List.max?_eq_some_iff.1 hmax).2 n hmem)

/-- The next number is at most one more than a bound on the numbers. -/
theorem nextSequence_le {ids : List String} {k : Nat}
    (h : ∀ id ∈ ids, ∀ n, number? id = some n → n ≤ k) : nextSequence ids ≤ k + 1 := by
  rcases nextSequence_cases ids with ⟨-, hone⟩ | ⟨n, hmax, hnext⟩
  · exact hone ▸ Nat.le_add_left ..
  · obtain ⟨id, hid, hnumber⟩ := List.mem_filterMap.1 (List.max?_eq_some_iff.1 hmax).1
    exact hnext ▸ Nat.succ_le_succ (h id hid n hnumber)

/-- **An id that ends in the next number is new,** whatever the ids look like,
    if the last number has not been used. -/
theorem append_nextSequence_not_mem {stem : String} (hstem : trailingDigits stem.toList = [])
    {ids : List String} (hroom : ∀ id ∈ ids, number? id ≠ some lastNumber) :
    stem ++ toString (nextSequence ids) ∉ ids := by
  have hbound : ∀ id ∈ ids, ∀ n, number? id = some n → n ≤ lastNumber - 1 := by
    intro id hid n hnumber
    have hne : n ≠ lastNumber := fun heq => hroom id hid (heq ▸ hnumber)
    exact Nat.le_sub_one_of_lt (Nat.lt_of_le_of_ne (number?_le hnumber) hne)
  have hlt : nextSequence ids < Nat.pow 2 64 :=
    Nat.lt_of_le_of_lt (nextSequence_le hbound) (by decide)
  intro hmem
  have hnumber := number?_append_toString hstem (nextSequence ids)
  rw [if_pos hlt] at hnumber
  exact Nat.lt_irrefl _ (lt_nextSequence hmem hnumber)

end Blueprints.Text
