import Stencil.Function
import Stencil.Proofs.Value.Order

/-!
# The comparison functions

The functions `lt`, `le`, `gt` and `ge` use the order of two strings or two numbers, `eq` and `ne` the
order of all values.

* `Value.Comparable` says which values have a place in the first order: `Value.comparable_iff`.
* `Value.compare?_eq_compare` says that there the two orders are one, but for zeros of opposite signs,
  which are equal in the first order only (`Value.compare?_of_oppositeZeros`).
* `comparisons_agree_iff` says what this means for the six functions.
-/

namespace Stencil

/-! ## Zeros -/

namespace Binary64

variable {x y : Binary64}

theorem isNaN_ofInt (n : Int) : (ofInt n).isNaN = false := by
  by_cases hn : n = 0
  · subst hn
    rfl
  · simp only [isNaN, magnitude_ofInt hn, decide_eq_false_iff_not, Nat.not_lt]
    exact Nat.min_le_right _ _

theorem eq_zero_of_isZero_ofInt {n : Int} (h : (ofInt n).isZero = true) : n = 0 := by
  refine Decidable.byContradiction fun hn => ?_
  have hhidden : 0 < hidden := by decide
  have hinfinite : 0 < infiniteMagnitude := by decide
  have hsignificand := hidden_le_roundedSignificand (n := n.natAbs) (by omega)
  simp only [isZero, magnitude_ofInt hn, decide_eq_true_eq] at h
  rw [ratioMagnitude_one (by omega)] at h
  omega

theorem totalKey_lt_iff (hzeros : ¬ (x.isZero = true ∧ y.isZero = true ∧ x.negative ≠ y.negative)) :
    x.totalKey < y.totalKey ↔ x.numericKey < y.numericKey := by
  simp only [isZero, decide_eq_true_eq] at hzeros
  unfold totalKey numericKey
  split <;> split <;> simp_all <;> omega

/-- The total order tells no more apart than the numeric one, but for zeros of opposite signs. -/
theorem totalCompare_eq (hzeros : ¬ (x.isZero = true ∧ y.isZero = true ∧ x.negative ≠ y.negative)) :
    x.totalCompare y = Ord.compare x.numericKey y.numericKey := by
  have hless := totalKey_lt_iff hzeros
  have hgreater := totalKey_lt_iff (x := y) (y := x) fun h => hzeros ⟨h.2.1, h.1, h.2.2.symm⟩
  unfold totalCompare
  rcases Int.lt_trichotomy x.numericKey y.numericKey with hlt | heq | hgt
  · rw [Int.compare_eq_lt.2 hlt, Int.compare_eq_lt.2 (hless.2 hlt)]
  · rw [Int.compare_eq_eq.2 heq, Int.compare_eq_eq.2 (by omega)]
  · rw [Int.compare_eq_gt.2 hgt, Int.compare_eq_gt.2 (hgreater.2 hgt)]

end Binary64

namespace Value

/-- A zero of a sign; an integer has the positive one. -/
inductive IsZero : Bool → Value → Prop
  | int : IsZero false (.int 0)
  | float (negative : Bool) : IsZero negative (.float { Binary64.zero with negative })

/-- Two zeros, one of them negative. -/
def OppositeZeros (a b : Value) : Prop := ∃ negative, IsZero negative a ∧ IsZero (!negative) b

variable {a b v : Value} {x y : Binary64}

theorem isZero_iff {negative : Bool} (hv : v.toBinary64? = some x) :
    IsZero negative v ↔ x.isZero = true ∧ x.negative = negative := by
  constructor
  · intro h
    cases h with
    | int =>
      cases hv
      exact ⟨rfl, rfl⟩
    | float =>
      cases hv
      exact ⟨rfl, rfl⟩
  · rintro ⟨hzero, rfl⟩
    cases v with
    | int n =>
      cases hv
      obtain rfl := Binary64.eq_zero_of_isZero_ofInt hzero
      exact .int
    | float z =>
      cases hv
      obtain ⟨negative, magnitude, hlt⟩ := x
      obtain rfl : magnitude = 0 := by simpa [Binary64.isZero] using hzero
      exact .float negative
    | _ => cases hv

theorem oppositeZeros_iff (ha : a.toBinary64? = some x) (hb : b.toBinary64? = some y) :
    OppositeZeros a b ↔ x.isZero = true ∧ y.isZero = true ∧ x.negative ≠ y.negative := by
  constructor
  · rintro ⟨negative, hza, hzb⟩
    obtain ⟨hx, rfl⟩ := (isZero_iff ha).1 hza
    obtain ⟨hy, hsign⟩ := (isZero_iff hb).1 hzb
    exact ⟨hx, hy, fun heq => by simp [← heq] at hsign⟩
  · rintro ⟨hx, hy, hsign⟩
    refine ⟨x.negative, (isZero_iff ha).2 ⟨hx, rfl⟩, (isZero_iff hb).2 ⟨hy, ?_⟩⟩
    cases hnegative : x.negative <;> simp_all

/-! ## Two orders -/

/-- Two strings, or two numbers that are numbers. -/
inductive Comparable : Value → Value → Prop
  | strings (s t : String) (safe safe' : Bool) : Comparable (.string s safe) (.string t safe')
  | numbers {a b : Value} {x y : Binary64} (ha : a.toBinary64? = some x) (hb : b.toBinary64? = some y)
    (hx : x.isNaN = false) (hy : y.isNaN = false) : Comparable a b

theorem kind_of_toBinary64? (h : v.toBinary64? = some x) :
    v.kind = .number ∧ v.nearestKey = x.totalKey := by
  cases v with
  | int | float =>
    cases h
    exact ⟨rfl, rfl⟩
  | _ => cases h

/-- Comparable values are of one kind. -/
theorem Comparable.kind (h : Comparable a b) :
    a.kind = b.kind ∧ (a.kind = .string ∨ a.kind = .number) := by
  cases h with
  | strings => exact ⟨rfl, .inl rfl⟩
  | numbers ha hb =>
    obtain ⟨hkinda, -⟩ := kind_of_toBinary64? ha
    obtain ⟨hkindb, -⟩ := kind_of_toBinary64? hb
    exact ⟨hkinda.trans hkindb.symm, .inr hkinda⟩

theorem Comparable.symm (h : Comparable a b) : Comparable b a := by
  cases h with
  | strings => exact .strings ..
  | numbers ha hb hx hy => exact .numbers hb ha hy hx

/-- Numbers are compared by their places on the number line, and integers of one place as they are. -/
theorem compare?_numbers (ha : a.toBinary64? = some x) (hb : b.toBinary64? = some y)
    (hx : x.isNaN = false) (hy : y.isNaN = false) :
    a.compare? b = some ((Ord.compare x.numericKey y.numericKey).then (compareExact a b)) := by
  have hfloats : x.compare? y = some ((Ord.compare x.numericKey y.numericKey).then .eq) := by
    simp [Binary64.compare?, hx, hy]
  cases a with
  | int m =>
    cases b with
    | int n =>
      cases ha
      cases hb
      have hpositive : ∀ k : Int, (Binary64.ofInt k).isZero = true →
          (Binary64.ofInt k).negative = false := fun k hk => by
        rw [Binary64.eq_zero_of_isZero_ofInt hk]
        rfl
      rw [← Binary64.totalCompare_eq fun h => h.2.2 (by rw [hpositive m h.1, hpositive n h.2.1])]
      exact congrArg some (compare_eq_rounded_then m n)
    | float z =>
      cases ha
      cases hb
      exact hfloats
    | _ => cases hb
  | float z =>
    cases b with
    | int n | float w =>
      cases ha
      cases hb
      exact hfloats
    | _ => cases hb
  | _ => cases ha

theorem comparable_iff : Comparable a b ↔ ∃ o, a.compare? b = some o := by
  constructor
  · intro h
    cases h with
    | strings s t => exact ⟨Ord.compare s t, rfl⟩
    | numbers ha hb hx hy => exact ⟨_, compare?_numbers ha hb hx hy⟩
  · rintro ⟨o, ho⟩
    have hfloats : ∀ {x y : Binary64}, x.compare? y = some o → x.isNaN = false ∧ y.isNaN = false := by
      intro x y h
      unfold Binary64.compare? at h
      split at h
      · cases h
      · next hnan => simpa using hnan
    cases a with
    | string s safe =>
      cases b with
      | string t safe' => exact .strings s t safe safe'
      | _ => cases ho
    | int m =>
      cases b with
      | int n => exact .numbers rfl rfl (Binary64.isNaN_ofInt m) (Binary64.isNaN_ofInt n)
      | float y => exact .numbers rfl rfl (hfloats ho).1 (hfloats ho).2
      | _ => cases ho
    | float x =>
      cases b with
      | int n => exact .numbers rfl rfl (hfloats ho).1 (hfloats ho).2
      | float y => exact .numbers rfl rfl (hfloats ho).1 (hfloats ho).2
      | _ => cases ho
    | _ => cases b <;> cases ho

/-- **The two orders are one**, but for zeros of opposite signs. -/
theorem compare?_eq_compare (h : Comparable a b) (hzeros : ¬ OppositeZeros a b) :
    a.compare? b = some (a.compare b) := by
  cases h with
  | strings => rfl
  | numbers ha hb hx hy =>
    obtain ⟨hkinda, hkeya⟩ := kind_of_toBinary64? ha
    obtain ⟨hkindb, hkeyb⟩ := kind_of_toBinary64? hb
    rw [oppositeZeros_iff ha hb] at hzeros
    rw [compare?_numbers ha hb hx hy, compare_numbers hkinda hkindb, hkeya, hkeyb,
      ← Binary64.totalCompare_eq hzeros]
    rfl

/-- Zeros of opposite signs are equal as numbers, but not as values. -/
theorem compare?_of_oppositeZeros (h : OppositeZeros a b) :
    a.compare? b = some .eq ∧ a.compare b ≠ .eq := by
  obtain ⟨negative, ha, hb⟩ := h
  cases ha with
  | int =>
    cases hb with
    | float => exact ⟨rfl, by decide⟩
  | float =>
    generalize hsign : (!negative) = sign at hb
    cases hb with
    | int =>
      obtain rfl : negative = true := by simpa using hsign
      exact ⟨rfl, by decide⟩
    | float =>
      subst hsign
      cases negative <;> exact ⟨rfl, by decide⟩

theorem OppositeZeros.symm (h : OppositeZeros a b) : OppositeZeros b a := by
  obtain ⟨negative, ha, hb⟩ := h
  exact ⟨!negative, hb, by rwa [Bool.not_not]⟩

/-- The two directions of a comparison are reverse to one another. -/
theorem compare?_swap {o : Ordering} (h : a.compare? b = some o) : b.compare? a = some o.swap := by
  by_cases hzeros : OppositeZeros a b
  · rw [(compare?_of_oppositeZeros hzeros).1] at h
    cases h
    exact (compare?_of_oppositeZeros hzeros.symm).1
  · have hcomparable := comparable_iff.2 ⟨o, h⟩
    rw [compare?_eq_compare hcomparable hzeros] at h
    cases h
    rw [compare?_eq_compare hcomparable.symm fun h => hzeros h.symm, compare_swap a b]

end Value

/-! ## Six functions -/

open Value

/-- What the comparison functions say of two values. -/
structure Verdicts where
  lt : Bool
  le : Bool
  gt : Bool
  ge : Bool
  eq : Bool
  ne : Bool

namespace Verdicts

/-- The verdicts for an order of two values and for whether they are equal. -/
def of (o : Ordering) (equal : Bool) : Verdicts :=
  ⟨o = .lt, o ≠ .gt, o = .gt, o ≠ .lt, equal, !equal⟩

/-- All functions succeed with these verdicts. -/
structure On (r : Verdicts) (a b : Value) : Prop where
  lt : Function.lt [a, b] = .ok (.bool r.lt)
  le : Function.le [a, b] = .ok (.bool r.le)
  gt : Function.gt [a, b] = .ok (.bool r.gt)
  ge : Function.ge [a, b] = .ok (.bool r.ge)
  eq : Function.eq [a, b] = .ok (.bool r.eq)
  ne : Function.ne [a, b] = .ok (.bool r.ne)

/-- Exactly one of less, equal and greater holds, and the other verdicts follow from these three. -/
structure Agree (r : Verdicts) : Prop where
  one : [r.lt, r.eq, r.gt].count true = 1
  le : r.le = (r.lt || r.eq)
  ge : r.ge = (r.gt || r.eq)
  ne : r.ne = !r.eq

theorem agree_of_iff (o : Ordering) (equal : Bool) : (of o equal).Agree ↔ equal = decide (o = .eq) := by
  constructor
  · rintro ⟨hone, -, -, -⟩
    cases o <;> cases equal <;> first | rfl | cases hone
  · rintro rfl
    cases o <;> exact ⟨rfl, rfl, rfl, rfl⟩

variable {a b : Value} {o : Ordering}

theorem ordering_eq_ok (h : a.compare? b = some o) (name : String) (holds : Ordering → Bool) :
    Function.ordering name holds [a, b] = .ok (.bool (holds o)) := by
  simp [Function.ordering, h, pure, Except.pure]

theorem eq_eq_ok (h : Comparable a b) : Function.eq [a, b] = .ok (.bool (a.same b)) := by
  obtain ⟨hkinds, hkind⟩ := h.kind
  have hbasic : Function.isComposite b = false ∧ Function.isComposite a = false := by
    unfold Function.isComposite
    rw [← hkinds]
    rcases hkind with hkind | hkind <;> rw [hkind] <;> exact ⟨rfl, rfl⟩
  have hagree : a.agree b = a.same b := by
    have hmissing : b.kind.isMissing = false := by
      rw [← hkinds]
      rcases hkind with hkind | hkind <;> rw [hkind] <;> rfl
    simp [agree, hkinds, hmissing]
  simp only [Function.eq, Function.agreesWithAny, hbasic, hagree, Bool.or_self, Bool.false_eq_true,
    if_false]
  cases a.same b <;> rfl

theorem on_of (h : a.compare? b = some o) : (of o (a.same b)).On a b :=
  have heq := eq_eq_ok (comparable_iff.2 ⟨o, h⟩)
  { lt := ordering_eq_ok h ..
    le := ordering_eq_ok h ..
    gt := ordering_eq_ok h ..
    ge := ordering_eq_ok h ..
    eq := heq
    ne := by
      change (Function.eq [a, b] >>= fun v => .ok (Value.bool !v.isTrue)) = _
      rw [heq]
      rfl }

end Verdicts

/-- **How the comparison functions agree.** `lt` succeeds exactly for two strings and for two numbers
that are none of them NaN, and then all six functions do. The order of `lt`, `le`, `gt` and `ge` is one
order, which turns around with the arguments, and `ne` is the negation of `eq`. Exactly one of `lt`, `eq`
and `gt` holds, with `le` and `ge` following from them, unless the values are zeros of opposite signs; of
these none of the three holds. -/
theorem comparisons_agree_iff (a b : Value) :
    ((∃ v, Function.lt [a, b] = .ok v) ↔ Comparable a b) ∧
    (Comparable a b → ∃ r r' : Verdicts, r.On a b ∧ r'.On b a ∧ r.lt = r'.gt ∧ r.ne = !r.eq ∧
      (r.le = !r.gt) ∧ (r.ge = !r.lt) ∧ (r.Agree ↔ ¬ OppositeZeros a b) ∧
      (OppositeZeros a b → r.lt = false ∧ r.eq = false ∧ r.gt = false)) := by
  refine ⟨?_, fun h => ?_⟩
  · rw [comparable_iff]
    constructor
    · rintro ⟨v, hv⟩
      cases hcompare : a.compare? b with
      | some o => exact ⟨o, rfl⟩
      | none => simp [Function.lt, Function.ordering, hcompare, throw, throwThe, MonadExceptOf.throw] at hv
    · rintro ⟨o, ho⟩
      exact ⟨_, (Verdicts.on_of ho).lt⟩
  · obtain ⟨o, ho⟩ := comparable_iff.1 h
    refine ⟨.of o (a.same b), .of o.swap (b.same a), Verdicts.on_of ho,
      Verdicts.on_of (compare?_swap ho), ?_, rfl, ?_, ?_, ?_, fun hzeros => ?_⟩
    · cases o <;> rfl
    · cases o <;> rfl
    · cases o <;> rfl
    · rw [Verdicts.agree_of_iff, same]
      constructor
      · intro hequal hzeros
        obtain ⟨hnumbers, hvalues⟩ := compare?_of_oppositeZeros hzeros
        cases ho.symm.trans hnumbers
        exact hvalues (by simpa using hequal)
      · intro hzeros
        rw [compare?_eq_compare h hzeros] at ho
        rw [Option.some.inj ho]
    · obtain ⟨hnumbers, hvalues⟩ := compare?_of_oppositeZeros hzeros
      cases ho.symm.trans hnumbers
      exact ⟨rfl, by simpa [Verdicts.of, same] using hvalues, rfl⟩

/-- An integer and the number that it is rounded to agree on being equal. -/
theorem comparisons_agree_iff_rounded :
    Comparable (.int 9007199254740993) (.float (.ofInt 9007199254740992)) ∧
    ∃ r : Verdicts, r.On (.int 9007199254740993) (.float (.ofInt 9007199254740992)) ∧ r.Agree := by
  have hcomparable : Comparable (.int 9007199254740993) (.float (.ofInt 9007199254740992)) :=
    .numbers rfl rfl (by decide) (by decide)
  obtain ⟨r, -, hr, -, -, -, -, -, hagree, -⟩ := (comparisons_agree_iff _ _).2 hcomparable
  refine ⟨hcomparable, r, hr, hagree.2 ?_⟩
  rintro ⟨negative, hzero, -⟩
  cases hzero

/-- The two zeros are not equal, though neither is less. -/
theorem zeros_compare_apart :
    let zeros := [Value.float .zero, .float { Binary64.zero with negative := true }]
    Function.lt zeros = .ok (.bool false) ∧ Function.eq zeros = .ok (.bool false) ∧
    Function.gt zeros = .ok (.bool false) ∧ Function.le zeros = .ok (.bool true) ∧
    Function.ge zeros = .ok (.bool true) :=
  ⟨rfl, rfl, rfl, rfl, rfl⟩

end Stencil
