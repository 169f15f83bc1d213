import BoundQuery.Value

/-!
# Equality of values

`Value.equals` is an equivalence. Decimals of different scales are compared by cross multiplication,
and a power of ten cancels, so `1.0`, `1.00` and `1` are all equal to each other. Null equals null
alone.
-/

namespace BoundQuery

namespace Decimal

theorem equals_iff (a b : Decimal) :
    a.equals b = true ↔ a.signed * tenTo b.scale = b.signed * tenTo a.scale := by
  simp [equals]

theorem equals_refl (a : Decimal) : a.equals a = true := by
  rw [equals_iff]

theorem equals_symm {a b : Decimal} (h : a.equals b = true) : b.equals a = true := by
  rw [equals_iff] at h ⊢
  exact h.symm

theorem equals_trans {a b c : Decimal} (hFirst : a.equals b = true) (hSecond : b.equals c = true) :
    a.equals c = true := by
  rw [equals_iff] at hFirst hSecond ⊢
  have hPositive : (tenTo b.scale : Int) ≠ 0 := by
    have hPos := tenTo_pos b.scale
    omega
  refine Int.eq_of_mul_eq_mul_right hPositive ?_
  calc a.signed * tenTo c.scale * tenTo b.scale
      = a.signed * tenTo b.scale * tenTo c.scale := by rw [Int.mul_right_comm]
    _ = b.signed * tenTo c.scale * tenTo a.scale := by rw [hFirst, Int.mul_right_comm]
    _ = c.signed * tenTo a.scale * tenTo b.scale := by rw [hSecond, Int.mul_right_comm]

end Decimal

namespace Value

mutual

theorem equals_refl : ∀ value : Value, value.equals value = true
  | .null => rfl
  | .boolean _ => by simp [equals]
  | .integer _ => by simp [equals]
  | .decimal d => d.equals_refl
  | .string _ => by simp [equals]
  | .date _ => by simp [equals]
  | .dateTime _ => by simp [equals]
  | .list items => equalsItems_refl items

theorem equalsItems_refl : ∀ items : List Value, equalsItems items items = true
  | [] => rfl
  | item :: rest => by rw [equalsItems, equals_refl item, equalsItems_refl rest, Bool.and_self]

end

/-- Only lists equal a list. -/
theorem equals_list {items : List Value} {b : Value} (h : (list items).equals b = true) :
    ∃ others, b = list others ∧ equalsItems items others = true := by
  cases b with
  | list others => exact ⟨others, rfl, h⟩
  | null => exact absurd h Bool.false_ne_true
  | boolean b => exact absurd h Bool.false_ne_true
  | integer n => exact absurd h Bool.false_ne_true
  | decimal d => exact absurd h Bool.false_ne_true
  | string s => exact absurd h Bool.false_ne_true
  | date d => exact absurd h Bool.false_ne_true
  | dateTime moment => exact absurd h Bool.false_ne_true

/-- Only decimals equal a decimal. -/
theorem equals_decimal {d : Decimal} {b : Value} (h : (decimal d).equals b = true) :
    ∃ other, b = decimal other ∧ d.equals other = true := by
  cases b with
  | decimal other => exact ⟨other, rfl, h⟩
  | null => exact absurd h Bool.false_ne_true
  | boolean b => exact absurd h Bool.false_ne_true
  | integer n => exact absurd h Bool.false_ne_true
  | list items => exact absurd h Bool.false_ne_true
  | string s => exact absurd h Bool.false_ne_true
  | date d => exact absurd h Bool.false_ne_true
  | dateTime moment => exact absurd h Bool.false_ne_true

/-- Values without numbers to compare or items are equal only if they are the same. -/
def isPlain : Value → Bool
  | .decimal _ | .list _ => false
  | _ => true

theorem eq_of_equals {a b : Value} (hPlain : a.isPlain = true) (h : a.equals b = true) : b = a := by
  cases a with
  | decimal d => exact absurd hPlain Bool.false_ne_true
  | list items => exact absurd hPlain Bool.false_ne_true
  | null => cases b <;> simp_all [equals]
  | boolean value => cases b <;> simp_all [equals]
  | integer n => cases b <;> simp_all [equals]
  | string s => cases b <;> simp_all [equals]
  | date d => cases b <;> simp_all [equals]
  | dateTime moment => cases b <;> simp_all [equals]

mutual

theorem equals_symm : ∀ {a b : Value}, a.equals b = true → b.equals a = true
  | .decimal _, b, h => by
      obtain ⟨other, rfl, hEqual⟩ := equals_decimal h
      exact Decimal.equals_symm hEqual
  | .list items, b, h => by
      obtain ⟨others, rfl, hEqual⟩ := equals_list h
      exact equalsItems_symm hEqual
  | .null, _, h => eq_of_equals rfl h ▸ equals_refl _
  | .boolean _, _, h => eq_of_equals rfl h ▸ equals_refl _
  | .integer _, _, h => eq_of_equals rfl h ▸ equals_refl _
  | .string _, _, h => eq_of_equals rfl h ▸ equals_refl _
  | .date _, _, h => eq_of_equals rfl h ▸ equals_refl _
  | .dateTime _, _, h => eq_of_equals rfl h ▸ equals_refl _

theorem equalsItems_symm :
    ∀ {as bs : List Value}, equalsItems as bs = true → equalsItems bs as = true
  | [], [], _ => rfl
  | a :: as, b :: bs, h => by
      rw [equalsItems, Bool.and_eq_true] at h ⊢
      exact ⟨equals_symm h.1, equalsItems_symm h.2⟩

end

mutual

theorem equals_trans :
    ∀ {a b c : Value}, a.equals b = true → b.equals c = true → a.equals c = true
  | .decimal _, b, c, hFirst, hSecond => by
      obtain ⟨middle, rfl, hFirst⟩ := equals_decimal hFirst
      obtain ⟨last, rfl, hSecond⟩ := equals_decimal hSecond
      exact Decimal.equals_trans hFirst hSecond
  | .list _, b, c, hFirst, hSecond => by
      obtain ⟨middle, rfl, hFirst⟩ := equals_list hFirst
      obtain ⟨last, rfl, hSecond⟩ := equals_list hSecond
      exact equalsItems_trans hFirst hSecond
  | .null, _, _, hFirst, hSecond => eq_of_equals rfl hFirst ▸ hSecond
  | .boolean _, _, _, hFirst, hSecond => eq_of_equals rfl hFirst ▸ hSecond
  | .integer _, _, _, hFirst, hSecond => eq_of_equals rfl hFirst ▸ hSecond
  | .string _, _, _, hFirst, hSecond => eq_of_equals rfl hFirst ▸ hSecond
  | .date _, _, _, hFirst, hSecond => eq_of_equals rfl hFirst ▸ hSecond
  | .dateTime _, _, _, hFirst, hSecond => eq_of_equals rfl hFirst ▸ hSecond

theorem equalsItems_trans :
    ∀ {as bs cs : List Value}, equalsItems as bs = true → equalsItems bs cs = true →
      equalsItems as cs = true
  | [], [], [], _, _ => rfl
  | a :: as, b :: bs, c :: cs, hFirst, hSecond => by
      rw [equalsItems, Bool.and_eq_true] at hFirst hSecond ⊢
      exact ⟨equals_trans hFirst.1 hSecond.1, equalsItems_trans hFirst.2 hSecond.2⟩

end

instance : EquivBEq Value where
  rfl := equals_refl _
  symm := equals_symm
  trans := equals_trans

/-- Null equals null alone. -/
theorem isNull_of_equals {a b : Value} (h : (a == b) = true) : a.isNull = b.isNull := by
  cases a with
  | null => rw [eq_of_equals rfl h]
  | decimal d =>
      obtain ⟨other, rfl, -⟩ := equals_decimal h
      rfl
  | list items =>
      obtain ⟨others, rfl, -⟩ := equals_list h
      rfl
  | boolean value => rw [eq_of_equals rfl h]
  | integer n => rw [eq_of_equals rfl h]
  | string s => rw [eq_of_equals rfl h]
  | date d => rw [eq_of_equals rfl h]
  | dateTime moment => rw [eq_of_equals rfl h]

theorem eq_null_of_isNull {a : Value} (h : a.isNull = true) : a = .null := by
  cases a with
  | null => rfl
  | _ => exact absurd h Bool.false_ne_true

end Value

end BoundQuery
