import Stencil.Render.Scope

/-!
# The places of variables

A variable keeps its place while scopes are opened and closed inside of its own and other variables are
declared after it. Places are counted from outside: the scopes from the outermost, and the variables of
a scope from the oldest.

* `Scopes.at?` is the variable in a place and `Scopes.place?` the place of the innermost variable of a
  name; `Scopes.Innermost` says the latter without a search.
* `Scopes.assign?_some` says that an assignment changes the variable in this place and no other one.
* `Scopes.shape` is what remains of the scopes without the values of the variables.
* `Scopes.Leads` is a stretch of execution with the assignments in it. `Leads.widens` and `Leads.after` say
  what it makes of the scopes.
-/

namespace Stencil

/-- A place of a variable: the number of scopes around its own, and the number of older variables. -/
structure Place where
  scope : Nat
  index : Nat
  deriving DecidableEq

namespace Scopes

variable {name : String} {v : Value} {b : String × Value} {bs bs' : List (String × Value)}
  {ss ss' : Scopes} {p q : Place} {i : Nat}

/-! ## The variables of a scope -/

/-- The variable that has a number of older ones. -/
def older? (i : Nat) : List (String × Value) → Option (String × Value)
  | [] => none
  | b :: bs => if i = bs.length then some b else older? i bs

/-- The number of variables that are older than the first one of a name. -/
def index? (name : String) : List (String × Value) → Option Nat
  | [] => none
  | (n, _) :: bs => if n = name then some bs.length else index? name bs

theorem older?_lt (h : older? i bs = some b) : i < bs.length := by
  induction bs with
  | nil => exact nomatch h
  | cons c bs ih =>
    rw [older?] at h
    split at h
    · next hi => rw [hi]; exact Nat.lt_succ_self _
    · exact Nat.lt_succ_of_lt (ih h)

theorem older?_cons (h : older? i bs = some b) (c : String × Value) :
    older? i (c :: bs) = some b := by
  rw [older?, if_neg (Nat.ne_of_lt (older?_lt h)), h]

theorem index?_lt (h : index? name bs = some i) : i < bs.length := by
  induction bs with
  | nil => exact nomatch h
  | cons c bs ih =>
    rw [index?] at h
    split at h
    · cases h
      exact Nat.lt_succ_self _
    · exact Nat.lt_succ_of_lt (ih h)

theorem index?_spec (h : index? name bs = some i) :
    ∃ v, older? i bs = some (name, v) ∧ first? name bs = some v := by
  induction bs with
  | nil => exact nomatch h
  | cons c bs ih =>
    obtain ⟨n, w⟩ := c
    rw [index?] at h
    split at h
    · next hn =>
      cases h
      cases hn
      exact ⟨w, by rw [older?, if_pos rfl], by rw [first?, if_pos rfl]⟩
    · next hn =>
      obtain ⟨v, holder, hfirst⟩ := ih h
      exact ⟨v, older?_cons holder _, by rw [first?, if_neg hn, hfirst]⟩

theorem first?_none (h : index? name bs = none) : first? name bs = none := by
  induction bs with
  | nil => rfl
  | cons c bs ih =>
    rw [index?] at h
    split at h
    · exact nomatch h
    · next hn => rw [first?, if_neg hn, ih h]

/-- No variable of the name is younger than the first one. -/
theorem le_index? (h : index? name bs = some i) {j : Nat} {w : Value}
    (hj : older? j bs = some (name, w)) : j ≤ i := by
  induction bs with
  | nil => exact nomatch h
  | cons c bs ih =>
    rw [index?] at h
    split at h
    · cases h
      exact Nat.le_of_lt_succ (older?_lt hj)
    · next hn =>
      rw [older?] at hj
      split at hj
      · cases hj
        exact absurd rfl hn
      · exact ih h hj

theorem older?_ne (h : index? name bs = none) (i : Nat) (w : Value) :
    older? i bs ≠ some (name, w) := by
  induction bs with
  | nil => exact nofun
  | cons c bs ih =>
    rw [index?] at h
    split at h
    · exact nomatch h
    · next hn =>
      rw [older?]
      split
      · intro hc
        cases hc
        exact hn rfl
      · exact ih h

theorem setFirst?_none (h : setFirst? name v bs = none) : index? name bs = none := by
  induction bs with
  | nil => rfl
  | cons c bs ih =>
    obtain ⟨n, w⟩ := c
    rw [setFirst?] at h
    split at h
    · exact nomatch h
    · next hn => rw [index?, if_neg hn, ih (Option.map_eq_none_iff.1 h)]

theorem setFirst?_some (h : setFirst? name v bs = some bs') : ∃ i, index? name bs = some i ∧
    bs'.map Prod.fst = bs.map Prod.fst ∧
    ∀ j, older? j bs' = if j = i then some (name, v) else older? j bs := by
  induction bs generalizing bs' with
  | nil => exact nomatch h
  | cons c bs ih =>
    obtain ⟨n, w⟩ := c
    rw [setFirst?] at h
    split at h
    · next hn =>
      cases h
      cases hn
      refine ⟨bs.length, by rw [index?, if_pos rfl], rfl, fun j => ?_⟩
      rw [older?, older?]
      split <;> rfl
    · next hn =>
      obtain ⟨cs, hcs, rfl⟩ := Option.map_eq_some_iff.1 h
      obtain ⟨i, hi, hnames, hat⟩ := ih hcs
      have hlength : cs.length = bs.length := by simpa using congrArg List.length hnames
      refine ⟨i, by rw [index?, if_neg hn, hi], by rw [List.map_cons, hnames]; rfl, fun j => ?_⟩
      have hne : bs.length ≠ i := Nat.ne_of_gt (index?_lt hi)
      rw [older?, older?, hlength, hat]
      by_cases hj : j = bs.length
      · rw [if_pos hj, if_pos hj, hj, if_neg hne]
      · rw [if_neg hj, if_neg hj]

/-! ## The variables of all scopes -/

/-- The variable in a place. -/
def at? (p : Place) : Scopes → Option (String × Value)
  | [] => none
  | s :: ss => if p.scope = ss.length then older? p.index s.bindings else at? p ss

/-- The place of the innermost variable of a name. -/
def place? (name : String) : Scopes → Option Place
  | [] => none
  | s :: ss =>
    match index? name s.bindings with
    | some index => some { scope := ss.length, index }
    | none => place? name ss

/-- In the place there is a variable of the name, and all others of that name are further outside or
older. -/
def Innermost (name : String) (ss : Scopes) (p : Place) : Prop :=
  (∃ v, at? p ss = some (name, v)) ∧ ∀ q w, at? q ss = some (name, w) →
    q.scope < p.scope ∨ q.scope = p.scope ∧ q.index ≤ p.index

theorem at?_lt (h : at? p ss = some b) : p.scope < ss.length := by
  induction ss with
  | nil => exact nomatch h
  | cons s ss ih =>
    rw [at?] at h
    split at h
    · next hp => rw [hp]; exact Nat.lt_succ_self _
    · exact Nat.lt_succ_of_lt (ih h)

theorem place?_lt (h : place? name ss = some p) : p.scope < ss.length := by
  induction ss with
  | nil => exact nomatch h
  | cons s ss ih =>
    rw [place?] at h
    split at h
    · cases h
      exact Nat.lt_succ_self _
    · exact Nat.lt_succ_of_lt (ih h)

/-- What is looked up is the variable in the place. -/
theorem place?_at (h : place? name ss = some p) :
    ∃ v, at? p ss = some (name, v) ∧ lookup? name ss = some v := by
  induction ss with
  | nil => exact nomatch h
  | cons s ss ih =>
    rw [place?] at h
    split at h
    · next index hindex =>
      cases h
      obtain ⟨v, holder, hfirst⟩ := index?_spec hindex
      exact ⟨v, by rw [at?, if_pos rfl, holder], by rw [lookup?, hfirst, Option.some_or]⟩
    · next hindex =>
      obtain ⟨v, hat, hlookup⟩ := ih h
      refine ⟨v, by rw [at?, if_neg (Nat.ne_of_lt (at?_lt hat)), hat], ?_⟩
      rw [lookup?, first?_none hindex, Option.none_or, hlookup]

theorem place?_innermost (h : place? name ss = some p) : Innermost name ss p := by
  obtain ⟨v, hat, -⟩ := place?_at h
  refine ⟨⟨v, hat⟩, fun q w hq => ?_⟩
  clear hat
  induction ss with
  | nil => exact nomatch h
  | cons s ss ih =>
    rw [place?] at h
    rw [at?] at hq
    split at h
    · next index hindex =>
      cases h
      split at hq
      · next hscope => exact .inr ⟨hscope, le_index? hindex hq⟩
      · exact .inl (at?_lt hq)
    · next hindex =>
      split at hq
      · exact absurd hq (older?_ne hindex _ _)
      · exact ih h hq

/-! ## What is done to scopes -/

theorem at?_push (dot : Value) (h : at? p ss = some b) : at? p (push dot ss) = some b := by
  rw [push, at?, if_neg (Nat.ne_of_lt (at?_lt h)), h]

theorem at?_declare (name : String) (v : Value) (h : at? p ss = some b) :
    at? p (declare name v ss) = some b := by
  cases ss with
  | nil => exact h
  | cons s ss =>
    rw [at?] at h
    rw [declare, at?]
    split
    · next hp => rw [if_pos hp] at h; exact older?_cons h _
    · next hp => rw [if_neg hp] at h; exact h

theorem at?_tail (h : at? p ss = some b) (hp : p.scope + 1 < ss.length) :
    at? p ss.tail = some b := by
  cases ss with
  | nil => exact nomatch h
  | cons s ss =>
    have hne : p.scope ≠ ss.length := Nat.ne_of_lt (Nat.lt_of_succ_lt_succ hp)
    rw [at?, if_neg hne] at h
    exact h

/-- The data of the scopes and the names of their variables. -/
def shape (ss : Scopes) : List (Value × List String) :=
  ss.map fun s => (s.dot, s.bindings.map Prod.fst)

theorem length_eq_of_shape (h : shape ss' = shape ss) : ss'.length = ss.length := by
  simpa [shape] using congrArg List.length h

theorem dot_eq_of_shape (h : shape ss' = shape ss) : dot ss' = dot ss := by
  match ss, ss', h with
  | [], [], _ => rfl
  | s :: ss, s' :: ss', h => exact congrArg Prod.fst (List.cons.inj h).1

theorem assign?_none (h : assign? name v ss = none) : place? name ss = none := by
  induction ss with
  | nil => rfl
  | cons s ss ih =>
    rw [assign?] at h
    split at h
    · exact nomatch h
    · next hset =>
      rw [place?, setFirst?_none hset]
      exact ih (Option.map_eq_none_iff.1 h)

/-- **An assignment changes the innermost variable of the name**, and leaves all others and the shape
of the scopes as they are. -/
theorem assign?_some (h : assign? name v ss = some ss') : ∃ p, place? name ss = some p ∧
    shape ss' = shape ss ∧ ∀ q, at? q ss' = if q = p then some (name, v) else at? q ss := by
  induction ss generalizing ss' with
  | nil => exact nomatch h
  | cons s ss ih =>
    rw [assign?] at h
    split at h
    · next bs hset =>
      cases h
      obtain ⟨i, hi, hnames, hat⟩ := setFirst?_some hset
      refine ⟨⟨ss.length, i⟩, by rw [place?, hi], by simp [shape, hnames], fun q => ?_⟩
      rw [at?, at?]
      by_cases hq : q.scope = ss.length
      · obtain ⟨scope, j⟩ := q
        cases hq
        rw [if_pos rfl, if_pos rfl, hat]
        by_cases hj : j = i
        · rw [if_pos hj, if_pos (congrArg _ hj)]
        · rw [if_neg hj, if_neg fun h => hj (congrArg Place.index h)]
      · have hne : q ≠ ⟨ss.length, i⟩ := fun h => hq (congrArg Place.scope h)
        rw [if_neg hq, if_neg hq, if_neg hne]
    · next hset =>
      obtain ⟨ts, hts, rfl⟩ := Option.map_eq_some_iff.1 h
      obtain ⟨p, hp, hshape, hat⟩ := ih hts
      have hne : ss.length ≠ p.scope := Nat.ne_of_gt (place?_lt hp)
      refine ⟨p, by rw [place?, setFirst?_none hset, hp], ?_, fun q => ?_⟩
      · rw [shape, List.map_cons]
        exact congrArg _ hshape
      · rw [at?, at?, length_eq_of_shape hshape, hat]
        by_cases hq : q.scope = ss.length
        · have hqp : q ≠ p := fun h => hne (hq.symm.trans (congrArg Place.scope h))
          rw [if_pos hq, if_pos hq, if_neg hqp]
        · rw [if_neg hq, if_neg hq]

end Scopes

/-! ## Stretches of execution -/

/-- An assignment, with the scopes that it finds. -/
structure Assignment where
  name : String
  value : Value
  scopes : Scopes

namespace Assignment

/-- The place of the variable that is assigned to. -/
def place? (a : Assignment) : Option Place := Scopes.place? a.name a.scopes

/-- What becomes of the value in a place by some assignments. -/
def after (p : Place) (v : Value) (as : List Assignment) : Value :=
  as.foldl (fun v a => if a.place? = some p then a.value else v) v

theorem after_append (p : Place) (v : Value) (as bs : List Assignment) :
    after p v (as ++ bs) = after p (after p v as) bs := List.foldl_append

/-- A value changes by an assignment to its place. -/
theorem after_eq_or (p : Place) (v : Value) (as : List Assignment) :
    after p v as = v ∨ ∃ a ∈ as, a.place? = some p ∧ after p v as = a.value := by
  induction as generalizing v with
  | nil => exact .inl rfl
  | cons a as ih =>
    change after p (if a.place? = some p then a.value else v) as = v ∨ ∃ b ∈ a :: as,
      b.place? = some p ∧ after p (if a.place? = some p then a.value else v) as = b.value
    split
    · next ha =>
      rcases ih a.value with h | ⟨b, hb, hplace, h⟩
      · exact .inr ⟨a, List.mem_cons_self, ha, h⟩
      · exact .inr ⟨b, List.mem_cons_of_mem a hb, hplace, h⟩
    · rcases ih v with h | ⟨b, hb, hplace, h⟩
      · exact .inl h
      · exact .inr ⟨b, List.mem_cons_of_mem a hb, hplace, h⟩

end Assignment

namespace Scopes

/-- The first scopes lead to the last ones with some assignments on the way. Variables are declared and
scopes opened without an entry; an assignment that finds no variable changes nothing. -/
inductive Leads : Scopes → List Assignment → Scopes → Prop
  | refl (ss : Scopes) : Leads ss [] ss
  | declare {ss ss' : Scopes} {as : List Assignment} (name : String) (v : Value)
      (rest : Leads (declare name v ss) as ss') : Leads ss as ss'
  | assign {ss ss' : Scopes} {as : List Assignment} (name : String) (v : Value)
      (rest : Leads ((assign? name v ss).getD ss) as ss') :
      Leads ss ({ name, value := v, scopes := ss } :: as) ss'
  | inScope {ss ts ss' : Scopes} {as bs : List Assignment} (dot : Value)
      (inside : Leads (push dot ss) as ts) (rest : Leads ts.tail bs ss') : Leads ss (as ++ bs) ss'

/-- Some names in front of those of the innermost scope. -/
def widen (names : List String) : List (Value × List String) → List (Value × List String)
  | [] => []
  | (dot, ns) :: rest => (dot, names ++ ns) :: rest

theorem widen_widen (names names' : List String) (l : List (Value × List String)) :
    widen names' (widen names l) = widen (names' ++ names) l := by
  cases l with
  | nil => rfl
  | cons p l => simp [widen]

theorem tail_widen (names : List String) (l : List (Value × List String)) :
    (widen names l).tail = l.tail := by
  cases l <;> rfl

theorem length_widen (names : List String) (l : List (Value × List String)) :
    (widen names l).length = l.length := by
  cases l <;> rfl

namespace Leads

variable {as bs : List Assignment}

theorem trans {us : Scopes} (h : Leads ss as ss') (h' : Leads ss' bs us) :
    Leads ss (as ++ bs) us := by
  induction h with
  | refl ss => exact h'
  | declare name v _ ih => exact .declare name v (ih h')
  | assign name v _ ih => exact .assign name v (ih h')
  | inScope dot inside _ _ ih =>
    rw [List.append_assoc]
    exact .inScope dot inside (ih h')

/-- **Nothing but the innermost scope gets other variables**, and that one gets new ones only. -/
theorem widens (h : Leads ss as ss') : ∃ names, ss'.shape = widen names ss.shape := by
  induction h with
  | refl ss =>
    refine ⟨[], ?_⟩
    cases hs : ss.shape <;> rfl
  | @declare ss ss' as name v _ ih =>
    obtain ⟨names, ih⟩ := ih
    refine ⟨names ++ [name], ih.trans ?_⟩
    rw [← widen_widen]
    cases ss <;> rfl
  | @assign ss ss' as name v _ ih =>
    obtain ⟨names, ih⟩ := ih
    refine ⟨names, ih.trans ?_⟩
    cases ha : assign? name v ss with
    | none => rfl
    | some ts =>
      obtain ⟨-, -, hshape, -⟩ := assign?_some ha
      rw [Option.getD_some, hshape]
  | @inScope ss ts ss' as bs dot _ _ ihI ih =>
    obtain ⟨inner, ihI⟩ := ihI
    obtain ⟨names, ih⟩ := ih
    have htail : shape ts.tail = shape ss := by
      rw [shape, List.map_tail]
      exact (congrArg List.tail ihI).trans (tail_widen _ _)
    exact ⟨names, by rw [ih, htail]⟩

/-- Behind a scope that is opened and closed again the shape is what it was. -/
theorem shape_tail {dot : Value} (h : Leads (push dot ss) as ss') : shape ss'.tail = shape ss := by
  obtain ⟨names, h⟩ := h.widens
  rw [Scopes.shape, List.map_tail]
  exact (congrArg List.tail h).trans (tail_widen _ _)

theorem length_eq (h : Leads ss as ss') : ss'.length = ss.length := by
  obtain ⟨names, h⟩ := h.widens
  simpa [Scopes.shape, length_widen] using congrArg List.length h

/-- **A value is what the last assignment to its place has made of it.** -/
theorem after (h : Leads ss as ss') : ∀ {p : Place} {name : String} {v : Value},
    at? p ss = some (name, v) → at? p ss' = some (name, Assignment.after p v as) ∧
      ∀ a ∈ as, a.place? = some p → a.name = name := by
  induction h with
  | refl ss => exact fun hp => ⟨hp, nofun⟩
  | declare name v _ ih => exact fun hp => ih (at?_declare name v hp)
  | @assign ss ss' as name v _ ih =>
    intro p name' w hp
    have hentry : place? name ss = some p → name = name' := fun hplace => by
      obtain ⟨u, hat, -⟩ := place?_at hplace
      rw [hp] at hat
      exact (congrArg Prod.fst (Option.some.inj hat)).symm
    have hnext : at? p ((assign? name v ss).getD ss) =
        some (name', if place? name ss = some p then v else w) := by
      cases ha : assign? name v ss with
      | none => rw [assign?_none ha, if_neg nofun]; exact hp
      | some ts =>
        obtain ⟨q, hq, -, hat⟩ := assign?_some ha
        rw [Option.getD_some, hat, hq]
        by_cases hpq : p = q
        · rw [if_pos hpq, if_pos (congrArg some hpq.symm), hentry (hq.trans (congrArg some hpq.symm))]
        · rw [if_neg hpq, if_neg fun h => hpq (Option.some.inj h).symm, hp]
    obtain ⟨hat, hnames⟩ := ih hnext
    exact ⟨hat, List.forall_mem_cons.2 ⟨hentry, hnames⟩⟩
  | @inScope ss ts ss' as bs dot inside _ ihI ih =>
    intro p name v hp
    -- the place lies outside of the scope that is opened, and so it is there when that is closed
    obtain ⟨hts, hnames⟩ := ihI (at?_push dot hp)
    have hlength : ts.length = ss.length + 1 := inside.length_eq
    obtain ⟨hss', hnames'⟩ := ih (at?_tail hts (by have := at?_lt hp; omega))
    refine ⟨?_, fun a ha => ?_⟩
    · rw [Assignment.after_append, hss']
    · rcases List.mem_append.1 ha with ha | ha
      · exact hnames a ha
      · exact hnames' a ha

end Leads

end Scopes

end Stencil
