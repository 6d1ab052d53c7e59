import Stencil.Outline.Template
import Stencil.Proofs.Outline.Division
import Stencil.Proofs.Template.Twins

/-!
# Outlines that are moved

What an outline means depends on its lines and on how deep they are to each other, not on where they
stand.

* `Tree.unplaced` is a node without its place; `Tree.twins_emitAll` says that nodes that differ in their
  places only are written to the same.
* `Line.moved k` moves a line `k` levels deeper, away from its place in the source;
  `Tree.twins_ofNests` says that this changes only the places of the nodes.
* `HasRows strict source rows` says which lines a source has, whatever they are written with;
  `twins_compile` compares two sources by their rows.
-/

namespace Stencil.Outline

/-! ## Nodes without places -/

/-- No place. -/
def Place.none : Place := ⟨0, 0⟩

namespace Tree

mutual

/-- The node without its place. -/
def unplaced : Tree → Tree
  | .raw _ literal => .raw .none literal
  | .text _ content => .text .none content
  | .statement _ content => .statement .none content
  | .leaf _ content => .leaf .none content
  | .opening _ content => .opening .none content
  | .closing _ content => .closing .none content
  | .cond _ negated subject body otherwise =>
    .cond .none negated subject (unplacedAll body) (unplacedAll otherwise)
  | .range _ subject body otherwise =>
    .range .none subject (unplacedAll body) (unplacedAll otherwise)
  | .scope _ subject body => .scope .none subject (unplacedAll body)
  | .filter _ handler body => .filter .none handler body

/-- The nodes without their places. -/
def unplacedAll : List Tree → List Tree
  | [] => []
  | t :: ts => unplaced t :: unplacedAll ts

end

theorem unplacedAll_append (ts us : List Tree) :
    unplacedAll (ts ++ us) = unplacedAll ts ++ unplacedAll us := by
  induction ts with
  | nil => rfl
  | cons t ts ih => rw [List.cons_append, unplacedAll, unplacedAll, ih, List.cons_append]

/-- The nodes differ in their places only. -/
abbrev Same (ts us : List Tree) : Prop := unplacedAll ts = unplacedAll us

theorem Same.twins_trans {e e' e'' : Except Fault (List Tree)} (h : Twins Same e e')
    (h' : Twins Same e' e'') : Twins Same e e'' := h.trans h' fun _ _ _ => Eq.trans

theorem Same.twins_symm {e e' : Except Fault (List Tree)} (h : Twins Same e e') : Twins Same e' e :=
  h.symm.mono fun _ _ => Eq.symm

namespace Same

variable {t u : Tree} {ts us ts' us' : List Tree}

theorem cons (ht : t.unplaced = u.unplaced) (h : Same ts us) : Same (t :: ts) (u :: us) :=
  List.cons_eq_cons.2 ⟨ht, h⟩

theorem append (h : Same ts us) (h' : Same ts' us') : Same (ts ++ ts') (us ++ us') := by
  change unplacedAll _ = unplacedAll _
  rw [unplacedAll_append, unplacedAll_append, h, h']

/-- The branches differ in places only if their parts do. -/
theorem tree (h : Same ts us) (h' : Same ts' us') (k : Keyword) (place place' : Place)
    (subject : List Char) :
    (k.tree place subject ts ts').unplaced = (k.tree place' subject us us').unplaced := by
  have hbody : unplacedAll ts = unplacedAll us := h
  have hother : unplacedAll ts' = unplacedAll us' := h'
  cases k <;> simp only [Keyword.tree, unplaced, hbody, hother]

end Same

/-! ## Writing -/

section Writing

variable {s : Settings}

theorem twins_atLine {α : Type} (o : Outcome α) (line line' : Nat) :
    Build.Twins Builder.Alike Eq (atLine line o) (atLine line' o) := by
  cases o with
  | ok a => exact .pure rfl
  | error c => exact .throw _ _

theorem twins_emitOpening (t : Tag) (pad : Bool) (line line' : Nat) :
    Build.Twins Builder.Alike Eq (emitOpening s t pad line) (emitOpening s t pad line') := by
  unfold emitOpening
  dsimp only
  split
  · exact .interpolated s _ pad _ _
  · exact .seq (.text _) fun _ _ => .space pad

theorem twins_emitTrailing (trailing : List Char) (line line' : Nat) :
    Build.Twins Builder.Alike Eq (emitTrailing s trailing line) (emitTrailing s trailing line') := by
  unfold emitTrailing
  split
  · exact .action _ _ _
  · exact .interpolated s _ true _ _

/-- A branch is written with its pipeline and the nodes of its parts. -/
theorem twins_branch (subject : List Char) {line line' : Nat}
    {body body' otherwise otherwise' : Build PUnit}
    {node node' : Pipeline → List Node → List Node → Node}
    (hbody : Build.Twins Builder.Alike Eq body body')
    (hother : Build.Twins Builder.Alike Eq otherwise otherwise')
    (hnode : ∀ p ns ms ns' ms', Node.unplacedAll id ns = Node.unplacedAll id ns' →
      Node.unplacedAll id ms = Node.unplacedAll id ms' →
        Node.unplaced id (node p ns ms) = Node.unplaced id (node' p ns' ms')) :
    Build.Twins Builder.Alike Eq
      (do
        let p ← Build.pipeline subject line
        let body ← Build.nested body
        let otherwise ← Build.nested otherwise
        modify (·.push (node p body otherwise)))
      (do
        let p ← Build.pipeline subject line'
        let body ← Build.nested body'
        let otherwise ← Build.nested otherwise'
        modify (·.push (node' p body otherwise))) := by
  refine .bind (.pipeline subject line line') fun p _ hp => ?_
  cases hp
  refine .bind (.nested hbody) fun ns ns' hns => .bind (.nested hother) fun ms ms' hms => ?_
  exact .modifyState fun _ _ h => h.push (hnode p ns ms ns' ms' hns hms)

mutual

theorem twins_emit : ∀ t : Tree, Build.Twins Builder.Alike Eq (emit s t) (emit s t.unplaced)
  | .raw _ literal => .text literal
  | .text _ content => .interpolated s content true _ _
  | .statement _ content => .action content _ _
  | .leaf _ content => by
    refine .bind (twins_atLine _ _ _) fun r _ hr => ?_
    cases hr
    dsimp only
    split
    · exact .seq (twins_emitOpening _ false _ _) fun _ _ => .text _
    · exact .seq (twins_emitOpening _ true _ _) fun _ _ =>
        .seq (twins_emitTrailing _ _ _) fun _ _ => .interpolated s _ true _ _
  | .opening _ content => by
    refine .bind (twins_atLine _ _ _) fun r _ hr => ?_
    cases hr
    refine .seq (twins_emitOpening _ false _ _) fun _ _ => ?_
    split
    · exact .pure rfl
    · exact twins_emitTrailing _ _ _
  | .closing _ content => by
    refine .bind (twins_atLine _ _ _) fun r _ hr => ?_
    cases hr
    exact .text _
  | .cond _ negated subject body otherwise =>
    twins_branch subject (twins_emitAll body) (twins_emitAll otherwise) fun p ns ms ns' ms' hns hms => by
      simp only [Node.unplaced, hns, hms]
  | .range _ subject body otherwise =>
    twins_branch subject (twins_emitAll body) (twins_emitAll otherwise) fun p ns ms ns' ms' hns hms => by
      simp only [Node.unplaced, hns, hms]
  | .scope _ subject body => by
    refine .bind (.pipeline subject _ _) fun p _ hp => ?_
    cases hp
    refine .bind (.nested (twins_emitAll body)) fun ns ns' hns => ?_
    exact .modifyState fun _ _ h => h.push (by simp only [Node.unplaced, hns])
  | .filter _ handler body => .interpolated s _ false _ _

/-- **The places of nodes make no difference to what is written** but the lines. -/
theorem twins_emitAll : ∀ ts : List Tree,
    Build.Twins Builder.Alike Eq (emitAll s ts) (emitAll s (unplacedAll ts))
  | [] => .pure rfl
  | t :: ts => .seq (twins_emit t) fun _ _ => twins_emitAll ts

end

/-- Nodes that differ in their places only are written to the same. -/
theorem Same.twins_emitAll {ts us : List Tree} (h : Same ts us) :
    Build.Twins Builder.Alike Eq (emitAll s ts) (emitAll s us) := by
  have hus := Tree.twins_emitAll (s := s) us
  rw [← h] at hus
  exact (Tree.twins_emitAll ts).trans hus.symm

end Writing

end Tree

/-! ## Lines without places -/

/-- The line `k` levels deeper, without its number. -/
def Line.moved (k : Nat) (l : Line) : Line := ⟨l.indent + k, l.content, 0⟩

namespace Nest

mutual

/-- The lines of a tree `k` levels deeper, without their numbers. -/
def moved (k : Nat) : Nest → Nest
  | .mk l nested => .mk (l.moved k) (movedAll k nested)

/-- The lines of some trees `k` levels deeper, without their numbers. -/
def movedAll (k : Nat) : List Nest → List Nest
  | [] => []
  | n :: ns => moved k n :: movedAll k ns

end

variable {k : Nat}

theorem movedAll_eq_map (ns : List Nest) : movedAll k ns = ns.map (moved k) := by
  induction ns with
  | nil => rfl
  | cons n ns ih => rw [movedAll, ih, List.map_cons]

@[simp] theorem line_moved (n : Nest) : (n.moved k).line = n.line.moved k := by
  cases n
  rfl

@[simp] theorem nested_moved (n : Nest) : (n.moved k).nested = movedAll k n.nested := by
  cases n
  rfl

theorem isEmpty_movedAll (ns : List Nest) : (movedAll k ns).isEmpty = ns.isEmpty := by
  cases ns <;> rfl

mutual

theorem lines_moved : ∀ n : Nest, lines (n.moved k) = (lines n).map (Line.moved k)
  | .mk l nested => by rw [moved, lines, lines, linesOf_movedAll, List.map_cons]

theorem linesOf_movedAll : ∀ ns : List Nest, linesOf (movedAll k ns) = (linesOf ns).map (Line.moved k)
  | [] => rfl
  | n :: ns => by rw [movedAll, linesOf, linesOf, lines_moved, linesOf_movedAll, List.map_append]

end

/-- Lines that are moved are nested as before. -/
theorem ofLines_moved (ls : List Line) : ofLines (ls.map (Line.moved k)) = movedAll k (ofLines ls) := by
  induction ls with
  | nil => rfl
  | cons l ls ih =>
    have hbelow : isBelow (l.indent + k) ∘ moved k = isBelow l.indent := by
      funext n
      simp [isBelow, Line.moved]
    change cons (l.moved k) (ofLines (ls.map (Line.moved k))) = movedAll k (cons l (ofLines ls))
    rw [ih, cons, cons, movedAll, moved, movedAll_eq_map, movedAll_eq_map, movedAll_eq_map,
      List.takeWhile_map, List.dropWhile_map]
    simp only [Line.moved, hbelow]

end Nest

namespace Line

variable {k : Nat} {l : Line}

@[simp] theorem content_moved : (l.moved k).content = l.content := rfl

@[simp] theorem indent_moved : (l.moved k).indent = l.indent + k := rfl

@[simp] theorem isTag_moved : (l.moved k).isTag = l.isTag := rfl

@[simp] theorem isActionable_moved : (l.moved k).isActionable = l.isActionable := rfl

@[simp] theorem statement_moved : (l.moved k).statement = l.statement := rfl

@[simp] theorem isElse_moved : (l.moved k).isElse = l.isElse := rfl

@[simp] theorem keyword?_moved : (l.moved k).keyword? = l.keyword? := rfl

@[simp] theorem elseClause?_moved (level : Nat) :
    (l.moved k).elseClause? (level + k) = l.elseClause? level := by
  unfold elseClause?
  simp [moved]
  rfl

/-- The body of a filter keeps the indentation of its lines to each other only. -/
theorem filterBody_moved (level : Nat) (ls : List Line) :
    filterBody (level + k) (ls.map (Line.moved k)) = filterBody level ls := by
  unfold filterBody
  rw [List.map_map]
  congr 2
  funext l
  simp [moved, Nat.add_sub_add_right]

end Line

namespace Tree

variable {s : Settings} {k : Nat}

@[simp] theorem takesLines_unplaced (t : Tree) : t.unplaced.takesLines = t.takesLines := by
  cases t <;> rfl

theorem twins_lineTree (l : Line) (below : List Line) :
    Twins (fun t u => t.unplaced = u.unplaced) (lineTree s l below)
      (lineTree s (l.moved k) (below.map (Line.moved k))) := by
  unfold lineTree
  simp only [Line.isActionable_moved, Line.statement_moved, Line.content_moved, Line.indent_moved,
    Line.filterBody_moved]
  split
  · exact .ok rfl
  · split
    · split
      · exact .ok rfl
      · exact .error
    · split
      · exact .ok rfl
      · exact .error
    · exact .ok rfl

/-- The parts of a branch with the nodes behind it. -/
abbrev SameParts (p q : List Tree × List Tree) : Prop := Same p.1 q.1 ∧ Same p.2 q.2

/-- A line that is no tag and no branch, with what is nested below it and what is behind it. -/
theorem twins_single {n : Nest} {rest rest' : Except Fault (List Tree)}
    (hcontents : Twins Same (contents s n) (contents s (n.moved k))) (hrest : Twins Same rest rest') :
    Twins Same
      (do
        let t ← lineTree s n.line (Nest.linesOf n.nested)
        let inner ← if t.takesLines then pure [] else contents s n
        let rest ← rest
        return t :: inner ++ rest)
      (do
        let t ← lineTree s (n.line.moved k) (Nest.linesOf (n.moved k).nested)
        let inner ← if t.takesLines then pure [] else contents s (n.moved k)
        let rest ← rest'
        return t :: inner ++ rest) := by
  rw [Nest.nested_moved, Nest.linesOf_movedAll]
  refine (twins_lineTree _ _).bind fun t t' ht => ?_
  have htakes : t'.takesLines = t.takesLines := by
    rw [← takesLines_unplaced t', ← ht, takesLines_unplaced]
  have hbehind : ∀ inner inner', Same inner inner' →
      Twins Same (rest >>= fun rest => return t :: inner ++ rest)
        (rest' >>= fun rest => return t' :: inner' ++ rest) := fun inner inner' hinner =>
    hrest.bind fun rest rest' hrest => .ok (.cons ht (hinner.append hrest))
  rw [htakes]
  split
  · exact hbehind [] [] rfl
  · exact hcontents.bind hbehind

mutual

theorem twins_contents : ∀ n : Nest, Twins Same
    (contents s n) (contents s (n.moved k))
  | .mk _ nested => by
    rw [Nest.moved, contents, contents]
    exact twins_ofNests nested

/-- **The nodes of lines that are moved differ in their places only.** -/
theorem twins_ofNests : ∀ ns : List Nest, Twins Same
    (ofNests s ns) (ofNests s (Nest.movedAll k ns))
  | [] => .ok rfl
  | n :: ns => by
    have hcontents := twins_contents n
    have hrest := twins_ofNests ns
    rw [Nest.movedAll, ofNests, ofNests]
    simp only [Nest.line_moved, Line.isTag_moved, Line.isElse_moved, Line.keyword?_moved]
    split
    · refine hcontents.bind fun inner inner' hinner => hrest.bind fun rest rest' hrest => ?_
      rw [Nest.nested_moved, Nest.isEmpty_movedAll]
      split
      · exact .ok (.cons rfl hrest)
      · exact .ok (.cons rfl (hinner.append (.cons rfl hrest)))
    · split
      · exact .error
      · split
        · next k' subject hkeyword =>
          refine hcontents.bind fun body body' hbody => ?_
          refine (twins_otherwise ns k' n.line.indent).bind fun found found' hfound => ?_
          cases hfound with
          | some h => exact .ok (.cons (hbody.tree h.1 _ _ _ _) h.2)
          | none => exact hrest.bind fun _ _ h => .ok (.cons (hbody.tree rfl _ _ _ _) h)
        · exact twins_single hcontents hrest

theorem twins_otherwise : ∀ (ns : List Nest) (k' : Keyword) (level : Nat), Twins (Option.Rel SameParts)
    (otherwise? s k' level ns) (otherwise? s k' (level + k) (Nest.movedAll k ns))
  | [], _, _ => .ok .none
  | n :: ns, k', level => by
    have hcontents := twins_contents n
    have hrest := twins_ofNests ns
    rw [Nest.movedAll, otherwise?, otherwise?]
    simp only [Nest.line_moved, Line.elseClause?_moved]
    split
    · exact .ok .none
    · split
      · exact hcontents.bind fun body body' hbody => hrest.bind fun rest rest' hrest =>
          .ok (.some ⟨hbody, hrest⟩)
      · split
        · exact .error
        · next k'' subject hchained =>
          refine hcontents.bind fun body body' hbody => ?_
          refine (twins_otherwise ns k'' n.line.indent).bind fun found found' hfound => ?_
          cases hfound with
          | some h => exact .ok (.some ⟨.cons (hbody.tree h.1 _ _ _ _) rfl, h.2⟩)
          | none => exact hrest.bind fun _ _ h => .ok (.some ⟨.cons (hbody.tree rfl _ _ _ _) rfl, h⟩)

end

end Tree

/-! ## Rows -/

/-- The source has these lines, each with its level and its content, whatever they are indented with,
however they go on and whatever blank lines there are. -/
def HasRows (strict : Bool) (source : List Char) (rows : List (Nat × List Char)) : Prop :=
  ∃ es, Division strict (numbered source) es ∧ Extent.rows strict es = rows

/-- A line with this level and content. -/
def Line.ofRow (row : Nat × List Char) : Line := ⟨row.1, row.2, 0⟩

/-- Whether a line with this content goes on. -/
def goesOn (content : List Char) : Bool := (Line.mk 0 content 0).isOpen

/-- The nested lines of some rows. -/
def Nest.ofRows (rows : List (Nat × List Char)) : List Nest := ofLines (rows.map Line.ofRow)

section Sources

variable {s : Settings} {strict : Bool} {source source' : List Char}
  {rows rows' : List (Nat × List Char)}

/-- The rows of a source are read unless one is too deep or the last one goes on. -/
theorem HasRows.classify (h : HasRows strict source rows) :
    (∃ ls, Line.classify strict source = .ok ls ∧ ls.map Line.row = rows ∧ Steps 0 rows ∧
        ∀ row ∈ rows, goesOn row.2 = false) ∨
      (∃ f, Line.classify strict source = .error f) ∧
        ¬ (Steps 0 rows ∧ ∀ row ∈ rows, goesOn row.2 = false) := by
  obtain ⟨es, hdivision, rfl⟩ := h
  have hclassify : Line.classify strict source = Extent.verdict strict 0 es :=
    Line.ofPhysical_division hdivision 0
  have hclosed : (∀ row ∈ Extent.rows strict es, goesOn row.2 = false) ↔
      ∀ e ∈ es, (e.line strict).isOpen = false := List.forall_mem_map
  rw [hclassify]
  cases hverdict : Extent.verdict strict 0 es with
  | ok ls =>
    obtain ⟨hall, rfl⟩ := (Extent.verdict_eq_ok hdivision.onlyLastOpen).1 hverdict
    exact .inl ⟨_, rfl, by rw [List.map_map]; rfl, hall.1, hclosed.2 hall.2⟩
  | error f =>
    refine .inr ⟨⟨f, rfl⟩, fun hall => ?_⟩
    rw [(Extent.verdict_eq_ok hdivision.onlyLastOpen).2 ⟨⟨hall.1, hclosed.1 hall.2⟩, rfl⟩] at hverdict
    cases hverdict

/-- A source that is classified has the rows of its lines. -/
theorem hasRows_of_classify {ls : List Line} (h : Line.classify strict source = .ok ls)
    (hrows : ls.map Line.row = rows) : HasRows strict source rows := by
  obtain ⟨es, hdivision⟩ := exists_division strict (Text.lines source) 1
  have hclassify : Line.classify strict source = Extent.verdict strict 0 es :=
    Line.ofPhysical_division hdivision 0
  obtain ⟨-, rfl⟩ := (Extent.verdict_eq_ok hdivision.onlyLastOpen).1 (hclassify.symm.trans h)
  exact ⟨es, hdivision, by rw [← hrows, List.map_map]; rfl⟩

theorem twins_classify (h : HasRows strict source rows) (h' : HasRows strict source' rows')
    (hread : (Steps 0 rows ∧ ∀ row ∈ rows, goesOn row.2 = false) ↔
      (Steps 0 rows' ∧ ∀ row ∈ rows', goesOn row.2 = false)) :
    Twins (fun ls ls' => ls.map Line.row = rows ∧ ls'.map Line.row = rows')
      (Line.classify strict source) (Line.classify strict source') := by
  rcases h.classify with ⟨ls, hls, hrows, hok⟩ | ⟨⟨f, hf⟩, hbad⟩
  · rcases h'.classify with ⟨ls', hls', hrows', -⟩ | ⟨-, hbad'⟩
    · rw [hls, hls']
      exact .ok ⟨hrows, hrows'⟩
    · exact absurd (hread.1 hok) hbad'
  · rcases h'.classify with ⟨-, -, -, hok'⟩ | ⟨⟨f', hf'⟩, -⟩
    · exact absurd (hread.2 hok') hbad
    · rw [hf, hf']
      exact .error

/-- The nodes of a list of lines are those of its rows. -/
theorem twins_analyze {ls : List Line} (h : ls.map Line.row = rows) :
    Twins Tree.Same (analyze s ls)
      (Tree.ofNests s (Nest.ofRows rows)) := by
  have hmoved := Tree.twins_ofNests (s := s) (k := 0) (Nest.ofLines ls)
  rwa [← Nest.ofLines_moved, show ls.map (Line.moved 0) = rows.map Line.ofRow by
    rw [← h, List.map_map]; rfl] at hmoved

theorem twins_ofExcept {α α' : Type} {S : Builder → Builder → Prop} {R : α → α' → Prop}
    {e : Except Fault α} {e' : Except Fault α'} (h : Twins R e e') :
    Build.Twins S R (ofExcept e) (ofExcept e') := by
  cases h with
  | ok h => exact .pure h
  | error => exact .throw _ _

/-- **Sources are compiled to the same if their rows are read alike and mean the same.** -/
theorem twins_compile (h : HasRows s.strictIndentation source rows)
    (h' : HasRows s.strictIndentation source' rows')
    (hread : (Steps 0 rows ∧ ∀ row ∈ rows, goesOn row.2 = false) ↔
      (Steps 0 rows' ∧ ∀ row ∈ rows', goesOn row.2 = false))
    (hnodes : Twins Tree.Same
      (Tree.ofNests s (Nest.ofRows rows)) (Tree.ofNests s (Nest.ofRows rows'))) :
    Build.Twins Builder.Alike Eq (compile s source) (compile s source') := by
  refine (twins_ofExcept (twins_classify h h' hread)).bind fun ls ls' hls => ?_
  have hanalyze : Twins Tree.Same (analyze s ls) (analyze s ls') :=
    Tree.Same.twins_trans (Tree.Same.twins_trans (twins_analyze hls.1) hnodes)
      (Tree.Same.twins_symm (twins_analyze hls.2))
  exact (twins_ofExcept hanalyze).bind fun ts us hts => hts.twins_emitAll

/-- The template of a source that is compiled to the same. -/
theorem sameTemplates_parse
    (h : Build.Twins Builder.Alike Eq (compile s source) (compile s source')) (name : String) :
    SameTemplates (parse s name (String.ofList source)).1 (parse s name (String.ofList source')).1 := by
  unfold parse EStateM.run
  rw [String.toList_ofList, String.toList_ofList]
  have hend := h {} {} (.refl {})
  dsimp only
  generalize compile s source {} = r at hend ⊢
  generalize compile s source' {} = r' at hend ⊢
  cases hend with
  | ok _ hb =>
    refine .ok ?_
    simp only [List.map_cons, List.map_nil, Template.unplaced, hb.nodes]
  | error => exact .error

end Sources

end Stencil.Outline
