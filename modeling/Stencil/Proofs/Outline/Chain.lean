import Stencil.Proofs.Outline.Moved
import Stencil.Proofs.Outline.Program
import Stencil.Proofs.Outline.Walk

/-!
# Chains of branches in an outline

An `else` line can go on with a statement, and what is below that line is then the body of another
branch, whose `else` part is the next line at the same level. That is the same as the statement on a line
of its own below the `else`, with everything that belongs to it one level deeper.

* `Chain` is a branch with its links; `Chain.flatRows` writes every link as an `else` line with a
  statement, and `Chain.deepRows` as a statement below an `else` line.
* `Nest.ofRows_block` says that a row with deeper rows behind it nests exactly those.
* `Tree.elsePart_plain` and `Tree.elsePart_link` say what the two kinds of `else` lines give.
* `Chain.twins_links` is the induction on the links, at whatever levels they are written.
* `Chain.sameTemplates` says that both sources are compiled to the same, or neither can be compiled.
-/

namespace Stencil.Outline

open Text (Tight)

/-! ## Chains -/

/-- A line by its level and its content. -/
abbrev Row := Nat × List Char

/-- The lines `n` levels deeper. -/
def shift (n : Nat) (rows : List Row) : List Row := rows.map fun r => (r.1 + n, r.2)

/-- A branch that can have an `else` part, with what is tested and with the lines of its body, whose
levels count from the body. -/
structure Arm where
  keyword : Keyword
  takesElse : keyword.takesElse = true
  subject : List Char
  tight : Tight subject
  body : List Row

/-- The statement of the branch. -/
def Arm.statement (a : Arm) : List Char := a.keyword.spelling ++ a.subject

/-- A branch that goes on with others behind an `else`. -/
structure Chain where
  sign : Char
  isSign : IsSign sign
  first : Arm
  links : List Arm
  otherwise : Option (List Row)

namespace Chain

/-- An `else` part of its own at a level. -/
def finish (sign : Char) (n : Nat) : Option (List Row) → List Row
  | none => []
  | some o => (n, statementLine sign "else".toList) :: shift (n + 1) o

/-- Every link is an `else` line with a statement. -/
def flat (sign : Char) (otherwise : Option (List Row)) (n : Nat) : List Arm → List Row
  | [] => finish sign n otherwise
  | l :: links => (n, statementLine sign ("else ".toList ++ l.statement)) ::
    (shift (n + 1) l.body ++ flat sign otherwise n links)

/-- Every link is a statement below an `else` line, with its body and the links behind it. -/
def deep (sign : Char) (otherwise : Option (List Row)) (n : Nat) : List Arm → List Row
  | [] => finish sign n otherwise
  | l :: links => (n, statementLine sign "else".toList) :: (n + 1, statementLine sign l.statement) ::
    (shift (n + 2) l.body ++ deep sign otherwise (n + 1) links)

/-- The lines with `else` statements. -/
def flatRows (c : Chain) : List Row :=
  (0, statementLine c.sign c.first.statement) ::
    (shift 1 c.first.body ++ flat c.sign c.otherwise 0 c.links)

/-- The lines with statements below the `else` lines. -/
def deepRows (c : Chain) : List Row :=
  (0, statementLine c.sign c.first.statement) ::
    (shift 1 c.first.body ++ deep c.sign c.otherwise 0 c.links)

end Chain

/-! ## Rows one after the other -/

/-- The rows do not belong below a level. -/
def EndsAbove (n : Nat) (rows : List Row) : Prop := ∀ r ∈ rows.head?, r.1 ≤ n

namespace Nest

variable {n : Nat} {l : Line} {ms ns : List Nest} {content : List Char} {body rest : List Row}

theorem ofRows_cons (r : Row) (rows : List Row) :
    ofRows (r :: rows) = cons (Line.ofRow r) (ofRows rows) := rfl

theorem row_of_mem_ofRows {m : Nest} (h : m ∈ ofRows rest) : (m.line.indent, m.line.content) ∈ rest := by
  have hmem := mem_linesOf h
  rw [ofRows, linesOf_ofLines] at hmem
  obtain ⟨r, hr, heq⟩ := List.mem_map.1 hmem
  rw [← heq]
  exact hr

theorem not_isBelow_head {level : Nat} (h : EndsAbove n rest) (hlevel : n ≤ level) :
    ∀ m ∈ (ofRows rest).head?, isBelow level m = false := by
  cases rest with
  | nil => simp [ofRows, ofLines]
  | cons r rest =>
    rintro m ⟨⟩
    exact decide_eq_false (Nat.not_lt.2 (Nat.le_trans (h r rfl) hlevel))

/-- A line in front of trees nests as many of them as it does without those that it does not reach. -/
theorem cons_append_of_head (l : Line) (ms : List Nest)
    (hns : ∀ m ∈ ns.head?, isBelow l.indent m = false) : cons l (ms ++ ns) = cons l ms ++ ns := by
  have hstop : ns.takeWhile (isBelow l.indent) = [] ∧ ns.dropWhile (isBelow l.indent) = ns := by
    cases ns with
    | nil => exact ⟨rfl, rfl⟩
    | cons m ns => simp [hns m rfl]
  have hsplit : (ms ++ ns).takeWhile (isBelow l.indent) = ms.takeWhile (isBelow l.indent) ∧
      (ms ++ ns).dropWhile (isBelow l.indent) = ms.dropWhile (isBelow l.indent) ++ ns := by
    induction ms with
    | nil => exact hstop
    | cons m ms ih => by_cases hm : isBelow l.indent m = true <;> simp [hm, ih]
  unfold cons
  rw [hsplit.1, hsplit.2, List.cons_append]

/-- Rows that are deeper than those behind them are nested by themselves. -/
theorem ofRows_append (hbody : ∀ r ∈ body, n < r.1) (hrest : EndsAbove n rest) :
    ofRows (body ++ rest) = ofRows body ++ ofRows rest := by
  induction body with
  | nil => rfl
  | cons r body ih =>
    rw [List.forall_mem_cons] at hbody
    rw [List.cons_append, ofRows_cons, ofRows_cons, ih hbody.2]
    exact cons_append_of_head _ _ (not_isBelow_head hrest (Nat.le_of_lt hbody.1))

/-- The rows below a row are nested below its line. -/
theorem ofRows_block (hbody : ∀ r ∈ body, n < r.1) (hrest : EndsAbove n rest) :
    ofRows ((n, content) :: (body ++ rest)) =
      .mk ⟨n, content, 0⟩ (ofRows body) :: ofRows rest := by
  rw [ofRows_cons, ofRows_append hbody hrest]
  refine cons_append (fun m hm => ?_) (not_isBelow_head hrest (Nat.le_refl n))
  exact decide_eq_true (hbody _ (row_of_mem_ofRows hm))

theorem ofRows_below (hbody : ∀ r ∈ body, n < r.1) :
    ofRows ((n, content) :: body) = [.mk ⟨n, content, 0⟩ (ofRows body)] := by
  have hends : EndsAbove n [] := fun _ h => nomatch h
  have hblock := @ofRows_block n content body [] hbody hends
  rwa [List.append_nil] at hblock

/-- Rows that are moved are nested as before. -/
theorem ofRows_shift (k : Nat) (rows : List Row) :
    ofRows (shift k rows) = movedAll k (ofRows rows) := by
  rw [ofRows, ofRows, ← ofLines_moved, shift, List.map_map, List.map_map]
  rfl

end Nest

/-! ## Lines of a chain -/

namespace Arm

variable (a : Arm)

theorem tight_statement : Tight a.statement := by
  refine .append ?_ a.tight
  cases a.keyword <;> exact ⟨_, _, rfl, rfl⟩

theorem parse?_statement : Keyword.parse? a.statement = some (a.keyword, a.subject) := by
  have htrim : Keyword.parse? a.statement = some (a.keyword, Text.trim a.subject) := by
    unfold statement
    cases a.keyword <;> rfl
  rw [htrim, a.tight.trim_eq]

theorem elseClause?_statement : elseClause? a.statement = none := by
  unfold statement
  cases a.keyword <;> rfl

theorem tight_else : Tight ("else ".toList ++ a.statement) :=
  .append ⟨'e', _, rfl, rfl⟩ a.tight_statement

/-- What a link says behind its `else`. -/
theorem chained?_clause : Keyword.chained? (' ' :: a.statement) = some (a.keyword, a.subject) := by
  have htrim : Text.trim (' ' :: a.statement) = a.statement := by
    simpa using a.tight_statement.trim_padded (v := [' ']) (w := []) rfl rfl
  unfold Keyword.chained?
  rw [htrim, a.parse?_statement]
  simp [a.takesElse]

theorem isBlank_clause : Text.isBlank (' ' :: a.statement) = false := by
  obtain ⟨⟨c, t, heq, hc⟩, -⟩ := a.tight_statement
  simp [Text.isBlank, heq, hc]

end Arm

namespace Tree

/-- The `else` part of a branch at a level, and the nodes behind it. -/
def elsePart (s : Settings) (k : Keyword) (level : Nat) (ns : List Nest) :
    Except Fault (List Tree × List Tree) := do
  match ← otherwise? s k level ns with
  | some parts => return parts
  | none =>
    let rest ← ofNests s ns
    return ([], rest)

variable {s : Settings} {sign : Char} {n : Nat} {nested ns : List Nest} {k : Keyword}

/-- The line of a branch is a node with what is below it and with its `else` part. -/
theorem ofNests_arm (hsign : IsSign sign) (a : Arm) :
    ofNests s (.mk ⟨n, statementLine sign a.statement, 0⟩ nested :: ns) = do
      let body ← ofNests s nested
      let parts ← elsePart s a.keyword n ns
      return a.keyword.tree ⟨0, n⟩ a.subject body parts.1 :: parts.2 := by
  have htag : (Line.mk n (statementLine sign a.statement) 0).isTag = false := isTag_statementLine hsign
  have haction : (Line.mk n (statementLine sign a.statement) 0).isActionable = true :=
    isActionable_statementLine hsign
  have hstatement : (Line.mk n (statementLine sign a.statement) 0).statement = a.statement :=
    statement_statementLine hsign a.tight_statement
  rw [ofNests]
  simp only [Nest.line, htag, Line.isElse, haction, hstatement, a.elseClause?_statement, Line.keyword?,
    a.parse?_statement, contents, elsePart, Bool.false_eq_true, if_false, Bool.and_false,
    Option.isSome_none, if_true, bind_assoc]
  refine bind_congr fun body => bind_congr fun found => ?_
  cases found with
  | none => simp only [bind_assoc, pure_bind, Line.place]
  | some parts => rfl

/-- An `else` line is followed by its body. -/
theorem elsePart_plain (hsign : IsSign sign) (hk : k.takesElse = true) :
    elsePart s k n (.mk ⟨n, statementLine sign "else".toList, 0⟩ nested :: ns) = do
      let body ← ofNests s nested
      let rest ← ofNests s ns
      return (body, rest) := by
  have hclause : (Line.mk n (statementLine sign "else".toList) 0).elseClause? n = some [] :=
    elseClause?_elseLine hsign
  have hblank : Text.isBlank [] = true := rfl
  rw [elsePart, otherwise?]
  simp only [Nest.line, hk, if_true, hclause, hblank, contents, bind_assoc, pure_bind]

/-- An `else` line with a statement is a branch, with what is below it and with its `else` part. -/
theorem elsePart_link (hsign : IsSign sign) (hk : k.takesElse = true) (a : Arm) :
    elsePart s k n (.mk ⟨n, statementLine sign ("else ".toList ++ a.statement), 0⟩ nested :: ns) = do
      let body ← ofNests s nested
      let parts ← elsePart s a.keyword n ns
      return ([a.keyword.tree ⟨0, n⟩ a.subject body parts.1], parts.2) := by
  have hclause : (Line.mk n (statementLine sign ("else ".toList ++ a.statement)) 0).elseClause? n =
      some (' ' :: a.statement) := by
    unfold Line.elseClause?
    rw [isActionable_statementLine hsign, statement_statementLine hsign a.tight_else]
    simp only [decide_true, Bool.and_self, if_true]
    rfl
  rw [elsePart, otherwise?]
  simp only [Nest.line, hk, if_true, hclause, a.isBlank_clause, a.chained?_clause, contents,
    Bool.false_eq_true, if_false, bind_assoc, elsePart]
  refine bind_congr fun body => bind_congr fun found => ?_
  cases found with
  | none => simp only [bind_assoc, pure_bind, Line.place]
  | some parts => rfl

end Tree

/-! ## Links -/

namespace Chain

open Tree (Same elsePart)

variable {s : Settings} {sign : Char} {otherwise : Option (List Row)}

theorem lt_of_mem_shift {n : Nat} {rows : List Row} {r : Row} (h : r ∈ shift (n + 1) rows) :
    n < r.1 := by
  obtain ⟨r', -, rfl⟩ := List.mem_map.1 h
  exact Nat.lt_of_lt_of_le (Nat.lt_succ_self n) (Nat.le_add_left ..)

theorem endsAbove_flat (n : Nat) (links : List Arm) : EndsAbove n (flat sign otherwise n links) := by
  cases links with
  | nil => cases otherwise <;> rintro r ⟨⟩; exact Nat.le_refl n
  | cons l links => rintro r ⟨⟩; exact Nat.le_refl n

theorem endsAbove_deep (n : Nat) (links : List Arm) : EndsAbove n (deep sign otherwise n links) := by
  cases links with
  | nil => exact endsAbove_flat n []
  | cons l links => rintro r ⟨⟩; exact Nat.le_refl n

theorem le_of_mem_deep {n : Nat} {links : List Arm} : ∀ r ∈ deep sign otherwise n links, n ≤ r.1 := by
  induction links generalizing n with
  | nil =>
    cases otherwise with
    | none => exact fun r h => nomatch h
    | some o =>
      exact List.forall_mem_cons.2 ⟨Nat.le_refl n, fun r h => Nat.le_of_lt (lt_of_mem_shift h)⟩
  | cons l links ih =>
    refine List.forall_mem_cons.2 ⟨Nat.le_refl n, List.forall_mem_cons.2 ⟨Nat.le_succ n, ?_⟩⟩
    refine List.forall_mem_append.2 ⟨fun r h => ?_, fun r h => Nat.le_of_succ_le (ih r h)⟩
    exact Nat.le_of_succ_le (Nat.le_of_lt (lt_of_mem_shift h))

/-- A body means the same at every level. -/
theorem twins_body (n m : Nat) (rows : List Row) :
    Twins Same (Tree.ofNests s (Nest.ofRows (shift n rows)))
      (Tree.ofNests s (Nest.ofRows (shift m rows))) := by
  rw [Nest.ofRows_shift, Nest.ofRows_shift]
  exact Same.twins_trans (Same.twins_symm (Tree.twins_ofNests _)) (Tree.twins_ofNests _)

/-- A branch with a chain of links is the same with the links in `else` parts. -/
theorem twins_arm (hsign : IsSign sign) (a : Arm) (links : List Arm) {n m : Nat}
    (h : Twins (fun p q => Same p.1 q.1 ∧ p.2 = [] ∧ q.2 = [])
      (elsePart s a.keyword n (Nest.ofRows (flat sign otherwise n links)))
      (elsePart s a.keyword m (Nest.ofRows (deep sign otherwise m links)))) :
    Twins Same
      (Tree.ofNests s (Nest.ofRows ((n, statementLine sign a.statement) ::
        (shift (n + 1) a.body ++ flat sign otherwise n links))))
      (Tree.ofNests s (Nest.ofRows ((m, statementLine sign a.statement) ::
        (shift (m + 1) a.body ++ deep sign otherwise m links)))) := by
  rw [Nest.ofRows_block (fun r => lt_of_mem_shift) (endsAbove_flat n links),
    Nest.ofRows_block (fun r => lt_of_mem_shift) (endsAbove_deep m links), Tree.ofNests_arm hsign,
    Tree.ofNests_arm hsign]
  refine (twins_body _ _ a.body).bind fun body body' hbody => h.bind fun p q hpq => .ok ?_
  obtain ⟨hother, hp, hq⟩ := hpq
  rw [hp, hq]
  exact .cons (hbody.tree hother _ _ _ _) rfl

/-- **The links of a chain are branches in `else` parts**, at whatever levels they are written. -/
theorem twins_links (hsign : IsSign sign) (links : List Arm) : ∀ {k : Keyword} (n m : Nat),
    k.takesElse = true → Twins (fun p q => Same p.1 q.1 ∧ p.2 = [] ∧ q.2 = [])
      (elsePart s k n (Nest.ofRows (flat sign otherwise n links)))
      (elsePart s k m (Nest.ofRows (deep sign otherwise m links))) := by
  -- The levels drift apart: with every link the nested lines go one level deeper and the others do not.
  induction links with
  | nil =>
    intro k n m hk
    cases otherwise with
    | none => exact .ok ⟨rfl, rfl, rfl⟩
    | some o =>
      have hfinish : ∀ n, Nest.ofRows (finish sign n (some o)) =
          [.mk ⟨n, statementLine sign "else".toList, 0⟩ (Nest.ofRows (shift (n + 1) o))] := fun n =>
        Nest.ofRows_below fun r => lt_of_mem_shift
      rw [flat, deep, hfinish, hfinish, Tree.elsePart_plain hsign hk, Tree.elsePart_plain hsign hk]
      exact (twins_body _ _ o).bind fun body body' h => .ok ⟨h, rfl, rfl⟩
  | cons l links ih =>
    intro k n m hk
    have hbelow : ∀ r ∈ (m + 1, statementLine sign l.statement) ::
        (shift (m + 2) l.body ++ deep sign otherwise (m + 1) links), m < r.1 := by
      refine List.forall_mem_cons.2 ⟨Nat.lt_succ_self m, List.forall_mem_append.2 ⟨fun r h => ?_, ?_⟩⟩
      · exact Nat.lt_of_succ_lt (lt_of_mem_shift h)
      · exact le_of_mem_deep
    rw [flat, deep, Nest.ofRows_block (fun r => lt_of_mem_shift) (endsAbove_flat n links),
      Nest.ofRows_below hbelow, Tree.elsePart_link hsign hk, Tree.elsePart_plain hsign hk,
      Nest.ofRows_block (fun r => lt_of_mem_shift) (endsAbove_deep (m + 1) links),
      Tree.ofNests_arm hsign, bind_assoc]
    refine (twins_body _ _ l.body).bind fun body body' hbody => ?_
    rw [bind_assoc]
    refine (ih n (m + 1) l.takesElse).bind fun p q hpq => .ok ?_
    obtain ⟨hother, hp, hq⟩ := hpq
    exact ⟨.cons (hbody.tree hother _ _ _ _) (by rw [hq]), hp, rfl⟩

/-! ## Levels and continuations -/

/-- Behind deeper rows the level of the last of them does not matter. -/
theorem steps_append {n level : Nat} {body rest : List Row} (hbody : ∀ r ∈ body, n < r.1)
    (hrest : EndsAbove n rest) (hlevel : n ≤ level) :
    Steps level (body ++ rest) ↔ Steps level body ∧ Steps n rest := by
  induction body generalizing level with
  | nil =>
    cases rest with
    | nil => exact ⟨fun _ => ⟨trivial, trivial⟩, fun _ => trivial⟩
    | cons r rest =>
      have hr : r.1 ≤ n := hrest r rfl
      simp only [List.nil_append, Steps, true_and]
      exact and_congr_left fun _ => ⟨fun _ => by omega, fun _ => by omega⟩
  | cons r body ih =>
    rw [List.forall_mem_cons] at hbody
    simp only [List.cons_append, Steps, ih hbody.2 (Nat.le_of_lt hbody.1), and_assoc]

theorem steps_shift {level k : Nat} {rows : List Row} :
    Steps (level + k) (shift k rows) ↔ Steps level rows := by
  induction rows generalizing level with
  | nil => exact Iff.rfl
  | cons r rows ih =>
    change (r.1 + k ≤ level + k + 1 ∧ Steps (r.1 + k) (shift k rows)) ↔
      (r.1 ≤ level + 1 ∧ Steps r.1 rows)
    rw [ih]
    exact and_congr_left fun _ => by omega

/-- Whether the lines of a body go down one level at a time does not depend on its level. -/
theorem steps_body (n m : Nat) (rows : List Row) :
    Steps n (shift (n + 1) rows) ↔ Steps m (shift (m + 1) rows) := by
  have hbase : ∀ n, Steps n (shift (n + 1) rows) ↔ Steps 0 (shift 1 rows) := by
    intro n
    have hshift : shift (n + 1) rows = shift n (shift 1 rows) := by
      simp [shift, Function.comp_def, Nat.add_assoc, Nat.add_comm 1]
    rw [hshift]
    have hsteps := @steps_shift 0 n (shift 1 rows)
    rwa [Nat.zero_add] at hsteps
  rw [hbase n, hbase m]

theorem steps_links (links : List Arm) : ∀ n m : Nat,
    Steps n (flat sign otherwise n links) ↔ Steps m (deep sign otherwise m links) := by
  induction links with
  | nil =>
    intro n m
    cases otherwise with
    | none => exact Iff.rfl
    | some o => simp only [flat, deep, finish, Steps, steps_body n m o, Nat.le_succ, true_and]
  | cons l links ih =>
    intro n m
    simp only [flat, deep, Steps, Nat.le_succ, Nat.le_refl, true_and]
    rw [steps_append (fun r => lt_of_mem_shift) (endsAbove_flat n links) (Nat.le_refl n),
      steps_append (fun r => lt_of_mem_shift) (endsAbove_deep (m + 1) links) (Nat.le_refl _),
      steps_body n (m + 1), ih n (m + 1)]

theorem goesOn_statementLine (hsign : IsSign sign) {statement : List Char} (h : Tight statement) :
    goesOn (statementLine sign statement) = decide (statement.getLast? = some '\\') := by
  simp [goesOn, Line.isOpen, isTag_statementLine hsign, isActionable_statementLine hsign,
    statement_statementLine hsign h]

theorem goesOn_else (hsign : IsSign sign) : goesOn (statementLine sign "else".toList) = false := by
  rw [goesOn_statementLine hsign Delimited.Segment.tight_else]
  rfl

/-- A link goes on if its statement does. -/
theorem goesOn_link (hsign : IsSign sign) (l : Arm) :
    goesOn (statementLine sign ("else ".toList ++ l.statement)) =
      goesOn (statementLine sign l.statement) := by
  rw [goesOn_statementLine hsign l.tight_else, goesOn_statementLine hsign l.tight_statement,
    List.getLast?_append, List.getLast?_eq_some_getLast l.tight_statement.ne_nil, Option.some_or]

theorem forall_shift {Q : List Char → Prop} {k : Nat} {rows : List Row} :
    (∀ r ∈ shift k rows, Q r.2) ↔ ∀ r ∈ rows, Q r.2 := List.forall_mem_map

theorem closed_links (hsign : IsSign sign) (links : List Arm) : ∀ n m : Nat,
    (∀ r ∈ flat sign otherwise n links, goesOn r.2 = false) ↔
      ∀ r ∈ deep sign otherwise m links, goesOn r.2 = false := by
  induction links with
  | nil =>
    intro n m
    cases otherwise with
    | none => exact Iff.rfl
    | some o =>
      simp only [flat, deep, finish, List.forall_mem_cons]
      rw [forall_shift (Q := fun c => goesOn c = false), forall_shift (Q := fun c => goesOn c = false)]
  | cons l links ih =>
    intro n m
    simp only [flat, deep, List.forall_mem_cons, List.forall_mem_append, goesOn_else hsign,
      goesOn_link hsign, true_and]
    rw [forall_shift (Q := fun c => goesOn c = false), forall_shift (Q := fun c => goesOn c = false),
      ih n (m + 1)]

/-! ## Sources -/

/-- **A chain of branches is compiled to the same as branches in `else` parts**, up to lines, or neither
source can be compiled. -/
theorem sameTemplates (c : Chain) {source source' : List Char}
    (h : HasRows s.strictIndentation source c.flatRows)
    (h' : HasRows s.strictIndentation source' c.deepRows) (name : String) :
    SameTemplates (parse s name (String.ofList source)).1 (parse s name (String.ofList source')).1 := by
  have hbody : ∀ r ∈ shift 1 c.first.body, 0 < r.1 := fun r => lt_of_mem_shift
  have hsteps : Steps 0 c.flatRows ↔ Steps 0 c.deepRows := by
    simp only [flatRows, deepRows, Steps]
    rw [steps_append hbody (endsAbove_flat 0 c.links) (Nat.le_refl 0),
      steps_append hbody (endsAbove_deep 0 c.links) (Nat.le_refl 0), steps_links c.links 0 0]
  have hclosed : (∀ r ∈ c.flatRows, goesOn r.2 = false) ↔ ∀ r ∈ c.deepRows, goesOn r.2 = false := by
    simp only [flatRows, deepRows, List.forall_mem_cons, List.forall_mem_append,
      closed_links c.isSign c.links 0 0]
  refine sameTemplates_parse (twins_compile h h' (and_congr hsteps hclosed) ?_) name
  exact twins_arm c.isSign c.first c.links (twins_links c.isSign c.links 0 0 c.first.takesElse)

end Chain

end Stencil.Outline
