import Mathlib.Order.Compare
import Stencil.Proofs.Number.Rounding
import Stencil.Value.Order

/-!
# When the order of values is one

The order of values is an order on most values, but not on all. Two integers may be rounded to the
floating point number that they are compared with, and a fallback is equal to every text, so that
equality is not transitive where such scalars meet.

* `Coherent` says that three comparisons fit an order, and `Value.compare_swap` that the two directions
  of a comparison always fit.
* `Value.Clashes` lists the scalars that cannot be put into an order, and `Value.MadeOf` says which
  scalars a value is made of.
* `Value.coherent_iff` says that the values made of some scalars are ordered exactly if no scalars of
  them clash.
-/

namespace Stencil

/-! ## Coherent comparisons -/

/-- The comparisons of a first thing with a second one, of this with a third one and of the first with
the third, as an order has them: equal things compare alike, and less and greater are transitive. -/
structure Coherent (ab bc ac : Ordering) : Prop where
  eq_left : ab = .eq → ac = bc
  eq_right : bc = .eq → ac = ab
  lt_trans : ab = .lt → bc = .lt → ac = .lt
  gt_trans : ab = .gt → bc = .gt → ac = .gt

namespace Coherent

variable {ab bc ac ab' bc' ac' : Ordering}

theorem ofEq (hab : ab = .eq) (hbc : bc = .eq) (hac : ac = .eq) : Coherent ab bc ac := by
  constructor <;> simp_all

/-- An order is coherent. -/
theorem ord {α : Type} [Ord α] [Std.TransOrd α] (x y z : α) :
    Coherent (compare x y) (compare y z) (compare x z) where
  eq_left := Std.TransCmp.congr_left
  eq_right h := (Std.TransCmp.congr_right h).symm
  lt_trans := Std.TransCmp.lt_trans
  gt_trans := Std.TransCmp.gt_trans

/-- Comparisons that are decided by second ones where they find things equal. -/
theorem andThen (h : Coherent ab bc ac) (h' : ab = .eq → bc = .eq → Coherent ab' bc' ac') :
    Coherent (ab.then ab') (bc.then bc') (ac.then ac') := by
  cases ab with
  | eq =>
    obtain rfl := h.eq_left rfl
    cases ac with
    | eq => exact h' rfl rfl
    | _ => constructor <;> simp
  | _ =>
    cases bc with
    | eq =>
      obtain rfl := h.eq_right rfl
      constructor <;> simp
    | _ =>
      have hlt := h.lt_trans
      have hgt := h.gt_trans
      constructor <;> simp_all

end Coherent

namespace Value

/-! ## Kinds -/

theorem rank_inj {k l : Kind} (h : k.rank = l.rank) : k = l := by
  cases k <;> cases l <;> first | rfl | cases h

/-- Values of different kinds are ordered by their kinds. -/
theorem compare_eq_then (a b : Value) :
    a.compare b = (Ord.compare a.kind.rank b.kind.rank).then (a.compare b) := by
  cases a <;> cases b <;> rfl

theorem compare_of_kind_ne {a b : Value} (h : a.kind ≠ b.kind) :
    a.compare b = Ord.compare a.kind.rank b.kind.rank := by
  have hrank : Ord.compare a.kind.rank b.kind.rank ≠ .eq := fun heq =>
    h (rank_inj (Std.LawfulEqOrd.eq_of_compare heq))
  rw [compare_eq_then]
  cases hcompare : Ord.compare a.kind.rank b.kind.rank with
  | eq => exact absurd hcompare hrank
  | _ => rfl

section Kinds

variable {v : Value}

theorem eq_of_kind_undefined (h : v.kind = .undefined) : v = .undefined := by
  cases v <;> first | rfl | cases h

theorem eq_of_kind_none (h : v.kind = .none) : v = .none := by
  cases v <;> first | rfl | cases h

theorem exists_of_kind_bool (h : v.kind = .bool) : ∃ b, v = .bool b := by
  cases v <;> first | exact ⟨_, rfl⟩ | cases h

theorem exists_of_kind_number (h : v.kind = .number) :
    (∃ n, v = .int n) ∨ ∃ x, v = .float x := by
  cases v <;> first | exact .inl ⟨_, rfl⟩ | exact .inr ⟨_, rfl⟩ | cases h

theorem exists_of_kind_string (h : v.kind = .string) :
    (∃ s safe, v = .string s safe) ∨ ∃ f, v = .fallback f := by
  cases v <;> first | exact .inl ⟨_, _, rfl⟩ | exact .inr ⟨_, rfl⟩ | cases h

theorem exists_of_kind_list (h : v.kind = .list) : ∃ items, v = .list items := by
  cases v <;> first | exact ⟨_, rfl⟩ | cases h

theorem exists_of_kind_map (h : v.kind = .map) : ∃ entries, v = .map entries := by
  cases v <;> first | exact ⟨_, rfl⟩ | cases h

end Kinds

/-! ## Numbers -/

/-- The place of a number among the floating point numbers, an integer being rounded. -/
def nearestKey : Value → Int
  | .int n => (Binary64.ofInt n).totalKey
  | .float x => x.totalKey
  | _ => 0

/-- The order of numbers at one place, where only integers are told apart. -/
def compareExact : Value → Value → Ordering
  | .int m, .int n => Ord.compare m n
  | _, _ => .eq

theorem compareExact_swap (a b : Value) : compareExact b a = (compareExact a b).swap := by
  cases a <;> cases b <;> first | rfl | exact Std.OrientedOrd.eq_swap

theorem compare_ints (m n : Int) : (int m).compare (int n) = Ord.compare m n :=
  Ordering.then_eq

/-- Rounding first does not change the order of integers. -/
theorem compare_eq_rounded_then (m n : Int) :
    Ord.compare m n =
      (Ord.compare (Binary64.ofInt m).totalKey (Binary64.ofInt n).totalKey).then (Ord.compare m n) := by
  cases hkeys : Ord.compare (Binary64.ofInt m).totalKey (Binary64.ofInt n).totalKey with
  | eq => rfl
  | lt =>
    refine Int.compare_eq_lt.2 (Int.not_le.1 fun hle => ?_)
    exact absurd (Binary64.totalKey_ofInt_le hle) (Int.not_le.2 (Int.compare_eq_lt.1 hkeys))
  | gt =>
    refine Int.compare_eq_gt.2 (Int.not_le.1 fun hle => ?_)
    exact absurd (Binary64.totalKey_ofInt_le hle) (Int.not_le.2 (Int.compare_eq_gt.1 hkeys))

/-- Numbers are compared by their places, and integers of one place as they are. -/
theorem compare_numbers {a b : Value} (ha : a.kind = .number) (hb : b.kind = .number) :
    a.compare b = (Ord.compare a.nearestKey b.nearestKey).then (compareExact a b) := by
  rcases exists_of_kind_number ha with ⟨m, rfl⟩ | ⟨x, rfl⟩
  · rcases exists_of_kind_number hb with ⟨n, rfl⟩ | ⟨y, rfl⟩
    · rw [compare_ints]
      exact compare_eq_rounded_then m n
    · rfl
  · rcases exists_of_kind_number hb with ⟨n, rfl⟩ | ⟨y, rfl⟩
    · rfl
    · rfl

/-! ## Both directions -/

mutual

/-- **The two directions of a comparison are reverse to one another.** -/
theorem compare_swap (a b : Value) : b.compare a = (a.compare b).swap := by
  by_cases hkind : a.kind = b.kind
  · cases ha : a.kind with
    | undefined =>
      obtain rfl := eq_of_kind_undefined ha
      obtain rfl := eq_of_kind_undefined (hkind ▸ ha)
      rfl
    | none =>
      obtain rfl := eq_of_kind_none ha
      obtain rfl := eq_of_kind_none (hkind ▸ ha)
      rfl
    | bool =>
      obtain ⟨x, rfl⟩ := exists_of_kind_bool ha
      obtain ⟨y, rfl⟩ := exists_of_kind_bool (hkind ▸ ha)
      cases x <;> cases y <;> rfl
    | number =>
      rw [compare_numbers ha (hkind ▸ ha), compare_numbers (hkind ▸ ha) ha, Ordering.swap_then,
        ← compareExact_swap]
      rw [Std.OrientedOrd.eq_swap (a := b.nearestKey)]
    | string =>
      rcases exists_of_kind_string ha with ⟨s, _, rfl⟩ | ⟨f, rfl⟩
      · rcases exists_of_kind_string (hkind ▸ ha) with ⟨t, _, rfl⟩ | ⟨g, rfl⟩
        · exact Std.OrientedOrd.eq_swap
        · rfl
      · rcases exists_of_kind_string (hkind ▸ ha) with ⟨t, _, rfl⟩ | ⟨g, rfl⟩
        · rfl
        · exact Std.OrientedOrd.eq_swap
    | list =>
      obtain ⟨as, rfl⟩ := exists_of_kind_list ha
      obtain ⟨bs, rfl⟩ := exists_of_kind_list (hkind ▸ ha)
      exact compareItems_swap as bs
    | map =>
      obtain ⟨as, rfl⟩ := exists_of_kind_map ha
      obtain ⟨bs, rfl⟩ := exists_of_kind_map (hkind ▸ ha)
      exact compareEntries_swap as bs
  · rw [compare_of_kind_ne hkind, compare_of_kind_ne (Ne.symm hkind)]
    exact Std.OrientedOrd.eq_swap

theorem compareItems_swap : ∀ as bs : List Value, compareItems bs as = (compareItems as bs).swap
  | [], [] | [], _ :: _ | _ :: _, [] => rfl
  | a :: as, b :: bs => by
    rw [compareItems, compareItems, compare_swap a b, compareItems_swap as bs, Ordering.swap_then]

theorem compareEntries_swap : ∀ as bs : List (String × Value),
    compareEntries bs as = (compareEntries as bs).swap
  | [], [] | [], _ :: _ | _ :: _, [] => rfl
  | (k, a) :: as, (l, b) :: bs => by
    rw [compareEntries, compareEntries, compare_swap a b, compareEntries_swap as bs,
      Std.OrientedOrd.eq_swap (a := l), Ordering.swap_then, Ordering.swap_then]

end

/-! ## Scalars that clash -/

/-- Scalars that cannot be put into an order. -/
inductive Clashes (A : Value → Prop) : Prop where
  /-- Two integers that are rounded to one floating point number, and this number. -/
  | rounded {m n : Int} (hne : m ≠ n) (hm : A (.int m)) (hn : A (.int n))
    (hx : A (.float (.ofInt m))) (h : Binary64.ofInt n = .ofInt m)
  /-- Two texts and a fallback, which is equal to both. -/
  | texts {s t f : String} {safe safe' : Bool} (hne : s ≠ t) (hs : A (.string s safe))
    (ht : A (.string t safe')) (hf : A (.fallback f))
  /-- Two fallbacks and a text, which is equal to both. -/
  | fallbacks {f g s : String} {safe : Bool} (hne : f ≠ g) (hf : A (.fallback f))
    (hg : A (.fallback g)) (hs : A (.string s safe))

mutual

/-- A value is made of some scalars: all values in it that are no lists and no maps are among them. -/
def MadeOf (A : Value → Prop) : Value → Prop
  | .list items => ItemsMadeOf A items
  | .map entries => EntriesMadeOf A entries
  | v => A v

/-- The items of a list are made of some scalars. -/
def ItemsMadeOf (A : Value → Prop) : List Value → Prop
  | [] => True
  | v :: vs => MadeOf A v ∧ ItemsMadeOf A vs

/-- The entries of a map are made of some scalars. -/
def EntriesMadeOf (A : Value → Prop) : List (String × Value) → Prop
  | [] => True
  | (_, v) :: es => MadeOf A v ∧ EntriesMadeOf A es

end

section Scalars

variable {A : Value → Prop} {a b c v : Value}

/-- At the place of a floating point number there is nothing to tell apart. -/
theorem compareExact_eq (hA : ¬ Clashes A) {x : Binary64} (hx : A (.float x)) (ha : A a) (hb : A b)
    (hax : a.nearestKey = x.totalKey) (hbx : b.nearestKey = x.totalKey) : compareExact a b = .eq := by
  cases a with
  | int m =>
    cases b with
    | int n =>
      obtain rfl := Binary64.totalKey_inj hax
      have hmn : m = n := Decidable.byContradiction fun hne =>
        hA (.rounded hne ha hb hx (Binary64.totalKey_inj hbx))
      rw [hmn]
      exact Std.ReflOrd.compare_self
    | _ => rfl
  | _ => rfl

/-- Numbers of one place are told apart only if they are all integers. -/
theorem coherent_compareExact (hA : ¬ Clashes A) (ha : A a) (hb : A b) (hc : A c)
    (hka : a.kind = .number) (hkb : b.kind = .number) (hkc : c.kind = .number)
    (hab : a.nearestKey = b.nearestKey) (hbc : b.nearestKey = c.nearestKey) :
    Coherent (compareExact a b) (compareExact b c) (compareExact a c) := by
  by_cases hfloat : ∃ x, A (.float x) ∧ b.nearestKey = x.totalKey
  · obtain ⟨x, hx, hbx⟩ := hfloat
    exact .ofEq (compareExact_eq hA hx ha hb (hab.trans hbx) hbx)
      (compareExact_eq hA hx hb hc hbx (hbc.symm.trans hbx))
      (compareExact_eq hA hx ha hc (hab.trans hbx) (hbc.symm.trans hbx))
  · have hint : ∀ v : Value, A v → v.kind = .number → b.nearestKey = v.nearestKey → ∃ n, v = .int n :=
      fun v hv hkind hkey => (exists_of_kind_number hkind).resolve_right fun ⟨x, hx⟩ =>
        hfloat ⟨x, hx ▸ hv, by rw [hkey, hx, nearestKey]⟩
    obtain ⟨m, rfl⟩ := hint a ha hka hab.symm
    obtain ⟨n, rfl⟩ := hint b hb hkb rfl
    obtain ⟨k, rfl⟩ := hint c hc hkc hbc
    exact .ord m n k

theorem coherent_numbers (hA : ¬ Clashes A) (ha : A a) (hb : A b) (hc : A c)
    (hka : a.kind = .number) (hkb : b.kind = .number) (hkc : c.kind = .number) :
    Coherent (a.compare b) (b.compare c) (a.compare c) := by
  rw [compare_numbers hka hkb, compare_numbers hkb hkc, compare_numbers hka hkc]
  exact .andThen (.ord _ _ _) fun hab hbc => coherent_compareExact hA ha hb hc hka hkb hkc
    (Std.LawfulEqOrd.eq_of_compare hab) (Std.LawfulEqOrd.eq_of_compare hbc)

/-- Next to a fallback there is only one text. -/
theorem text_unique (hA : ¬ Clashes A) {s t f : String} {safe safe' : Bool} (hs : A (.string s safe))
    (ht : A (.string t safe')) (hf : A (.fallback f)) : Ord.compare s t = .eq := by
  have hst : s = t := Decidable.byContradiction fun hne => hA (.texts hne hs ht hf)
  rw [hst]
  exact Std.ReflOrd.compare_self

/-- Next to a text there is only one fallback. -/
theorem fallback_unique (hA : ¬ Clashes A) {f g s : String} {safe : Bool} (hf : A (.fallback f))
    (hg : A (.fallback g)) (hs : A (.string s safe)) : Ord.compare f g = .eq := by
  have hfg : f = g := Decidable.byContradiction fun hne => hA (.fallbacks hne hf hg hs)
  rw [hfg]
  exact Std.ReflOrd.compare_self

theorem coherent_strings (hA : ¬ Clashes A) (ha : A a) (hb : A b) (hc : A c)
    (hka : a.kind = .string) (hkb : b.kind = .string) (hkc : c.kind = .string) :
    Coherent (a.compare b) (b.compare c) (a.compare c) := by
  rcases exists_of_kind_string hka with ⟨s, _, rfl⟩ | ⟨f, rfl⟩
  · rcases exists_of_kind_string hkb with ⟨t, _, rfl⟩ | ⟨g, rfl⟩
    · rcases exists_of_kind_string hkc with ⟨u, _, rfl⟩ | ⟨h, rfl⟩
      · exact .ord s t u
      · exact .ofEq (text_unique hA ha hb hc) rfl rfl
    · rcases exists_of_kind_string hkc with ⟨u, _, rfl⟩ | ⟨h, rfl⟩
      · exact .ofEq rfl rfl (text_unique hA ha hc hb)
      · exact .ofEq rfl (fallback_unique hA hb hc ha) rfl
  · rcases exists_of_kind_string hkb with ⟨t, _, rfl⟩ | ⟨g, rfl⟩
    · rcases exists_of_kind_string hkc with ⟨u, _, rfl⟩ | ⟨h, rfl⟩
      · exact .ofEq rfl (text_unique hA hb hc ha) rfl
      · exact .ofEq rfl rfl (fallback_unique hA ha hc hb)
    · rcases exists_of_kind_string hkc with ⟨u, _, rfl⟩ | ⟨h, rfl⟩
      · exact .ofEq (fallback_unique hA ha hb hc) rfl rfl
      · exact .ord f g h

theorem madeOf_number (h : v.kind = .number) : MadeOf A v ↔ A v := by
  rcases exists_of_kind_number h with ⟨n, rfl⟩ | ⟨x, rfl⟩ <;> rfl

theorem madeOf_string (h : v.kind = .string) : MadeOf A v ↔ A v := by
  rcases exists_of_kind_string h with ⟨s, _, rfl⟩ | ⟨f, rfl⟩ <;> rfl

mutual

/-- **Values made of scalars that do not clash are ordered.** -/
theorem coherent_of_madeOf (hA : ¬ Clashes A) (a b c : Value) (ha : MadeOf A a) (hb : MadeOf A b)
    (hc : MadeOf A c) : Coherent (a.compare b) (b.compare c) (a.compare c) := by
  rw [compare_eq_then a b, compare_eq_then b c, compare_eq_then a c]
  refine .andThen (.ord _ _ _) fun hab hbc => ?_
  have hkab := rank_inj (Std.LawfulEqOrd.eq_of_compare hab)
  have hkbc := rank_inj (Std.LawfulEqOrd.eq_of_compare hbc)
  cases hka : a.kind with
  | undefined =>
    obtain rfl := eq_of_kind_undefined hka
    obtain rfl := eq_of_kind_undefined (hkab ▸ hka)
    obtain rfl := eq_of_kind_undefined (hkbc ▸ hkab ▸ hka)
    exact .ofEq rfl rfl rfl
  | none =>
    obtain rfl := eq_of_kind_none hka
    obtain rfl := eq_of_kind_none (hkab ▸ hka)
    obtain rfl := eq_of_kind_none (hkbc ▸ hkab ▸ hka)
    exact .ofEq rfl rfl rfl
  | bool =>
    obtain ⟨x, rfl⟩ := exists_of_kind_bool hka
    obtain ⟨y, rfl⟩ := exists_of_kind_bool (hkab ▸ hka)
    obtain ⟨z, rfl⟩ := exists_of_kind_bool (hkbc ▸ hkab ▸ hka)
    exact .andThen (.ord (x.toNat : Int) y.toNat z.toNat) fun _ _ => .ofEq rfl rfl rfl
  | number =>
    have hkb : b.kind = .number := hkab ▸ hka
    have hkc : c.kind = .number := hkbc ▸ hkb
    exact coherent_numbers hA ((madeOf_number hka).1 ha) ((madeOf_number hkb).1 hb)
      ((madeOf_number hkc).1 hc) hka hkb hkc
  | string =>
    have hkb : b.kind = .string := hkab ▸ hka
    have hkc : c.kind = .string := hkbc ▸ hkb
    exact coherent_strings hA ((madeOf_string hka).1 ha) ((madeOf_string hkb).1 hb)
      ((madeOf_string hkc).1 hc) hka hkb hkc
  | list =>
    obtain ⟨as, rfl⟩ := exists_of_kind_list hka
    obtain ⟨bs, rfl⟩ := exists_of_kind_list (hkab ▸ hka)
    obtain ⟨cs, rfl⟩ := exists_of_kind_list (hkbc ▸ hkab ▸ hka)
    exact coherentItems_of_madeOf hA as bs cs ha hb hc
  | map =>
    obtain ⟨as, rfl⟩ := exists_of_kind_map hka
    obtain ⟨bs, rfl⟩ := exists_of_kind_map (hkab ▸ hka)
    obtain ⟨cs, rfl⟩ := exists_of_kind_map (hkbc ▸ hkab ▸ hka)
    exact coherentEntries_of_madeOf hA as bs cs ha hb hc

theorem coherentItems_of_madeOf (hA : ¬ Clashes A) : ∀ as bs cs : List Value, ItemsMadeOf A as →
    ItemsMadeOf A bs → ItemsMadeOf A cs →
      Coherent (compareItems as bs) (compareItems bs cs) (compareItems as cs)
  | a :: as, b :: bs, c :: cs, ha, hb, hc =>
    .andThen (coherent_of_madeOf hA a b c ha.1 hb.1 hc.1) fun _ _ =>
      coherentItems_of_madeOf hA as bs cs ha.2 hb.2 hc.2
  | [], [], [], _, _, _ => .ofEq rfl rfl rfl
  | [], [], _ :: _, _, _, _ | [], _ :: _, [], _, _, _ | [], _ :: _, _ :: _, _, _, _
  | _ :: _, [], [], _, _, _ | _ :: _, [], _ :: _, _, _, _ | _ :: _, _ :: _, [], _, _, _ => by
    constructor <;> simp [compareItems]

theorem coherentEntries_of_madeOf (hA : ¬ Clashes A) : ∀ as bs cs : List (String × Value),
    EntriesMadeOf A as → EntriesMadeOf A bs → EntriesMadeOf A cs →
      Coherent (compareEntries as bs) (compareEntries bs cs) (compareEntries as cs)
  | (k, a) :: as, (l, b) :: bs, (m, c) :: cs, ha, hb, hc =>
    .andThen (.andThen (.ord k l m) fun _ _ => coherent_of_madeOf hA a b c ha.1 hb.1 hc.1)
      fun _ _ => coherentEntries_of_madeOf hA as bs cs ha.2 hb.2 hc.2
  | [], [], [], _, _, _ => .ofEq rfl rfl rfl
  | [], [], _ :: _, _, _, _ | [], _ :: _, [], _, _, _ | [], _ :: _, _ :: _, _, _, _
  | _ :: _, [], [], _, _, _ | _ :: _, [], _ :: _, _, _, _ | _ :: _, _ :: _, [], _, _, _ => by
    constructor <;> simp [compareEntries]

end

/-- Scalars that clash are not ordered. -/
theorem not_coherent_of_clashes (hA : Clashes A) : ¬ ∀ a b c : Value, MadeOf A a → MadeOf A b →
    MadeOf A c → Coherent (a.compare b) (b.compare c) (a.compare c) := by
  intro h
  cases hA with
  | @rounded m n hne hm hn hx hround =>
    have hmx : (int m).compare (.float (.ofInt m)) = .eq :=
      Ordering.then_eq.trans (Binary64.totalCompare_eq_iff.2 rfl)
    have hxn : (float (.ofInt m)).compare (int n) = .eq :=
      Ordering.then_eq.trans (Binary64.totalCompare_eq_iff.2 hround.symm)
    have hmn := ((h (.int m) (.float (.ofInt m)) (.int n) hm hx hn).eq_left hmx).trans hxn
    rw [compare_ints] at hmn
    exact hne (Std.LawfulEqOrd.eq_of_compare hmn)
  | @texts s t f safe safe' hne hs ht hf =>
    have hst := (h (.string s safe) (.fallback f) (.string t safe') hs hf ht).eq_left rfl
    exact hne (Std.LawfulEqOrd.eq_of_compare hst)
  | @fallbacks f g s safe hne hf hg hs =>
    have hfg := (h (.fallback f) (.string s safe) (.fallback g) hf hs hg).eq_left rfl
    exact hne (Std.LawfulEqOrd.eq_of_compare hfg)

end Scalars

/-- **When values are ordered.** The two directions of a comparison are always reverse to one another,
and values are equal exactly if their comparison says so. The values made of some scalars, at any depth,
are ordered (equal values compare alike with all others, and less and greater are transitive) exactly if
no scalars among them clash. Integers up to `2 ^ 53` do not clash with any floating point number. -/
theorem coherent_iff (A : Value → Prop) :
    (∀ a b : Value, b.compare a = (a.compare b).swap) ∧
    (∀ a b : Value, a.same b = true ↔ a.compare b = .eq) ∧
    ((∀ a b c : Value, MadeOf A a → MadeOf A b → MadeOf A c →
      Coherent (a.compare b) (b.compare c) (a.compare c)) ↔ ¬ Clashes A) ∧
    ∀ m n : Int, m.natAbs ≤ 2 ^ 53 → n.natAbs ≤ 2 ^ 53 →
      (Binary64.ofInt m = .ofInt n ↔ m = n) := by
  refine ⟨compare_swap, fun a b => by simp [same], ⟨fun h hA => ?_, fun hA a b c => ?_⟩,
    fun m n => Binary64.ofInt_inj⟩
  · exact not_coherent_of_clashes hA h
  · exact coherent_of_madeOf hA a b c

/-- Equality is not transitive for integers above `2 ^ 53` and the number that they are rounded to, so
that less is not transitive for lists of them. Neither is equality for texts and a fallback. -/
theorem rounded_integers_unordered :
    same (.int 9007199254740993) (.float (.ofInt 9007199254740992)) = true ∧
    same (.float (.ofInt 9007199254740992)) (.int 9007199254740992) = true ∧
    compare (.int 9007199254740993) (.int 9007199254740992) = .gt ∧
    compare (.list [.int 9007199254740993, .int 0])
      (.list [.float (.ofInt 9007199254740992), .int 1]) = .lt ∧
    compare (.list [.float (.ofInt 9007199254740992), .int 1])
      (.list [.int 9007199254740992, .int 2]) = .lt ∧
    compare (.list [.int 9007199254740993, .int 0]) (.list [.int 9007199254740992, .int 2]) = .gt ∧
    same (text "a") (.fallback "x") = true ∧ same (.fallback "x") (text "b") = true ∧
    compare (text "a") (text "b") = .lt := by
  decide +kernel

end Value

end Stencil
