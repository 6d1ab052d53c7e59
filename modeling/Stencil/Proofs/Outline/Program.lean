import Stencil.Outline.Template
import Stencil.Proofs.Delimited.Compiling
import Stencil.Proofs.Outline.Reading
import Stencil.Proofs.Pipeline.Parsed

/-!
# Outlines of programs

An outline of a program is compiled to what the program says: its lines are found again, `else` lines
belong to the branch that they end, and bodies are what is indented below their branch.

* `Part.IsSharedAll` says which programs both front ends can write.
* `fit_outline` says that the lines of such a program can be lines of an outline.
* `compiles_outline` compiles nested lines, by induction over the outline; `parse_written` concludes
  for a whole source, whatever its indentation is made of.
-/

namespace Stencil

open Text (Tight IsWord isSpace)
open Delimited (Branch)

/-! ## Programs that both front ends can write -/

/-- The words that begin a statement that is no action, for one front end or the other. -/
def Outline.keywords : List String := ["if", "unless", "range", "with", "else", "end", "define"]

/-- The statement is a single line, without white space around it, and ends at no delimiter. -/
structure IsStatement (s : List Char) : Prop where
  tight : Tight s
  feed : '\n' ∉ s
  closing : ¬ Delimiters.standard.closing <:+: s

namespace Part

mutual

/-- Both front ends can write the part: an outline has no `else` for a `with`. -/
def IsShared : Part → Prop
  | .text s => Outline.IsTextLine s
  | .action statement => IsStatement statement ∧ Build.compiles statement = true ∧
    ∀ word ∈ Outline.keywords, (Delimited.firstWord statement).1 ≠ word.toList
  | .branch _ subject body none => IsStatement subject ∧ (∃ p, parsePipeline subject = .ok p) ∧
    IsSharedAll body
  | .branch b subject body (some otherwise) => b ≠ .scope ∧ IsStatement subject ∧
    (∃ p, parsePipeline subject = .ok p) ∧ IsSharedAll body ∧ IsSharedAll otherwise

/-- Both front ends can write the parts. -/
def IsSharedAll : List Part → Prop
  | [] => True
  | p :: ps => IsShared p ∧ IsSharedAll ps

end

end Part

open Stencil.Part (IsShared IsSharedAll)

/-! ## Statements that have a node -/

/-- A statement with a node ends in no backslash. -/
theorem getLast?_of_compiles {statement : List Char} (h : Build.compiles statement = true) :
    statement.getLast? ≠ some '\\' := by
  unfold Build.compiles Build.actionNode at h
  cases hcall : parseTemplateCall statement with
  | error c =>
    rw [hcall] at h
    cases h
  | ok call =>
    cases call with
    | some call => exact getLast?_of_parseTemplateCall hcall
    | none =>
      cases hp : parsePipeline statement with
      | ok p => exact getLast?_of_parsePipeline hp
      | error c =>
        rw [hcall, hp] at h
        cases h

/-- A statement with a node is no comment. -/
theorem opensComment_of_compiles {statement : List Char} (h : Build.compiles statement = true) :
    Delimited.opensComment statement = false := by
  cases hcomment : Delimited.opensComment statement with
  | false => rfl
  | true =>
    obtain ⟨rest, hrest⟩ := Option.isSome_iff_exists.1 hcomment
    have hread : Lexed.read '/' ('*' :: rest) = .error (.unexpectedChar '/') := rfl
    have hcall : parseTemplateCall statement = .error (.unexpectedChar '/') := by
      rw [Text.after?_eq_some_iff.1 hrest]
      unfold parseTemplateCall
      rw [List.cons_append, Lexeme.next_cons rfl]
      rfl
    unfold Build.compiles Build.actionNode at h
    rw [hcall] at h
    cases h

namespace Outline

/-! ## Lines -/

section Lines

variable {s : Settings} {sign : Char} {content statement : List Char} {n number : Nat}

theorem isTag_of_isTextLine (h : IsTextLine content) :
    (Line.mk n content number).isTag = false := by
  obtain ⟨c, t, rfl, -, hc⟩ := h.start
  simp only [List.mem_cons, List.not_mem_nil, or_false, not_or] at hc
  simp [Line.isTag, Line.startsIn, hc]

theorem isActionable_of_isTextLine (h : IsTextLine content) :
    (Line.mk n content number).isActionable = false := by
  obtain ⟨c, t, rfl, -, hc⟩ := h.start
  simp only [List.mem_cons, List.not_mem_nil, or_false, not_or] at hc
  simp [Line.isActionable, Line.startsIn, hc]

theorem fit_of_isTextLine (h : IsTextLine content) : Fit content := by
  obtain ⟨c, t, heq, hspace, -⟩ := h.start
  refine ⟨⟨c, t, heq, hspace⟩, h.feed, fun hlast => h.carriage (List.mem_of_getLast? hlast),
    fun n number => ?_⟩
  simp [Line.isOpen, isTag_of_isTextLine h, isActionable_of_isTextLine h]

theorem isTag_statementLine (hsign : IsSign sign) :
    (Line.mk n (statementLine sign statement) number).isTag = false := by
  rcases hsign with rfl | rfl <;> rfl

theorem isActionable_statementLine (hsign : IsSign sign) :
    (Line.mk n (statementLine sign statement) number).isActionable = true := by
  rcases hsign with rfl | rfl <;> rfl

theorem statement_statementLine (hsign : IsSign sign) (h : Tight statement) :
    (Line.mk n (statementLine sign statement) number).statement = statement := by
  unfold Line.statement
  rw [if_pos (isActionable_statementLine hsign)]
  have htrim := h.trim_padded (v := [' ']) (w := []) rfl rfl
  rwa [List.append_nil] at htrim

theorem fit_statementLine (hsign : IsSign sign) (h : Tight statement) (hfeed : '\n' ∉ statement)
    (hlast : statement.getLast? ≠ some '\\') : Fit (statementLine sign statement) := by
  obtain ⟨t, c, heq, hc⟩ := h.2
  have hend : (statementLine sign statement).getLast? = some c := by
    rw [statementLine, heq, ← List.cons_append, ← List.cons_append, List.getLast?_concat]
  refine ⟨⟨sign, _, rfl, ?_⟩, ?_, ?_, fun n number => ?_⟩
  · rcases hsign with rfl | rfl <;> rfl
  · rcases hsign with rfl | rfl <;> simpa [statementLine] using hfeed
  · rw [hend]
    rintro hreturn
    cases hreturn
    cases hc
  · simp [Line.isOpen, isTag_statementLine hsign, statement_statementLine hsign h, hlast]

/-! ## Keywords -/

/-- The keyword of a branch. -/
def Keyword.ofBranch : Branch → Keyword
  | .cond => .cond
  | .range => .range
  | .scope => .scope

theorem parse?_statement (b : Branch) {subject : List Char} (h : Tight subject) :
    Keyword.parse? (b.statement subject) = some (.ofBranch b, subject) := by
  have htrim : Keyword.parse? (b.statement subject) =
      some (.ofBranch b, Text.trim subject) := by
    cases b <;> rfl
  rw [htrim, h.trim_eq]

theorem firstWord_of_after? {word rest : List Char} (hword : IsWord word)
    (h : Text.after? word statement = some rest) (hrest : rest = [] ∨ ∃ t, rest = ' ' :: t) :
    (Delimited.firstWord statement).1 = word := by
  rw [Text.after?_eq_some_iff.1 h]
  rcases hrest with rfl | ⟨t, rfl⟩
  · rw [List.append_nil, Delimited.firstWord_self hword]
  · rw [Delimited.firstWord_append_space hword]

/-- A statement that begins with another word has no keyword. -/
theorem parse?_eq_none
    (h : ∀ word ∈ keywords, (Delimited.firstWord statement).1 ≠ word.toList) :
    Keyword.parse? statement = none := by
  have hspelling : ∀ k : Keyword, ∃ word ∈ keywords,
      k.spelling = word.toList ++ [' '] ∧ IsWord word.toList := by
    intro k
    cases k
    · exact ⟨"if", by decide, rfl, by decide⟩
    · exact ⟨"unless", by decide, rfl, by decide⟩
    · exact ⟨"range", by decide, rfl, by decide⟩
    · exact ⟨"with", by decide, rfl, by decide⟩
  unfold Keyword.parse?
  rw [List.findSome?_eq_none_iff]
  intro k _
  obtain ⟨word, hmem, hk, hword⟩ := hspelling k
  cases hafter : Text.after? k.spelling statement with
  | none => rfl
  | some rest =>
    have heq := Text.after?_eq_some_iff.1 hafter
    rw [hk, List.append_assoc] at heq
    exact absurd (firstWord_of_after? hword (Text.after?_eq_some_iff.2 heq) (.inr ⟨rest, rfl⟩))
      (h word hmem)

/-- A statement that begins with another word is no `else` clause. -/
theorem elseClause?_eq_none
    (h : ∀ word ∈ keywords, (Delimited.firstWord statement).1 ≠ word.toList) :
    elseClause? statement = none := by
  have helse := h "else" (by decide)
  have hword : IsWord "else".toList := by decide
  unfold elseClause?
  split
  · next hafter => exact absurd (firstWord_of_after? hword hafter (.inl rfl)) helse
  · next rest hafter => exact absurd (firstWord_of_after? hword hafter (.inr ⟨rest, rfl⟩)) helse
  · rfl

theorem elseClause?_statement (b : Branch) (subject : List Char) :
    elseClause? (b.statement subject) = none := by
  cases b <;> rfl

theorem elseClause?_else : elseClause? "else".toList = some [] := rfl

end Lines

/-! ## Nodes of the outline -/

section Trees

variable {s : Settings} {sign : Char} {content statement : List Char} {n number : Nat}
  {inner nests : List Nest} {trees : List Tree}

theorem lineTree_text (h : IsTextLine content) (below : List Line) :
    lineTree s ⟨n, content, number⟩ below = .ok (.text ⟨number, n⟩ content) := by
  obtain ⟨c, t, heq, -, hc⟩ := h.start
  have hcolon : Text.after? [':'] content = none := by
    rw [Text.after?_eq_none_iff]
    rintro ⟨u, rfl⟩
    cases heq
    exact hc (by simp)
  have hdoctype : Text.after? ['!', '!', '!'] content = none := Text.after?_eq_none_iff.2 h.doctype
  unfold lineTree
  simp only [isActionable_of_isTextLine h, hcolon, hdoctype, Bool.false_eq_true, if_false]
  rfl

/-- A text is a node of its own. -/
theorem ofNests_text (h : IsTextLine content) (hrest : Tree.ofNests s nests = .ok trees) :
    Tree.ofNests s (.mk ⟨n, content, number⟩ [] :: nests) =
      .ok (.text ⟨number, n⟩ content :: trees) := by
  have hactionable : (Line.mk n content number).isActionable = false := isActionable_of_isTextLine h
  have htag : (Line.mk n content number).isTag = false := isTag_of_isTextLine h
  simp [Tree.ofNests, Tree.contents, Nest.line, Nest.nested, htag, Line.isElse, hactionable,
    Line.keyword?, lineTree_text h, Tree.takesLines, hrest, bind, Except.bind, pure, Except.pure]

/-- A statement that begins with no keyword is a node of its own. -/
theorem ofNests_statement (hsign : IsSign sign) (h : Tight statement)
    (hword : ∀ word ∈ keywords, (Delimited.firstWord statement).1 ≠ word.toList)
    (hrest : Tree.ofNests s nests = .ok trees) :
    Tree.ofNests s (.mk ⟨n, statementLine sign statement, number⟩ [] :: nests) =
      .ok (.statement ⟨number, n⟩ statement :: trees) := by
  simp [Tree.ofNests, Tree.contents, Nest.line, isTag_statementLine hsign, Line.isElse,
    isActionable_statementLine hsign, statement_statementLine hsign h, elseClause?_eq_none hword,
    Line.keyword?, parse?_eq_none hword, lineTree, Line.place, Tree.takesLines, hrest, bind,
    Except.bind, pure, Except.pure]

/-- A branch is a node with what is below its line, unless an `else` line follows. -/
theorem ofNests_branch (hsign : IsSign sign) (b : Branch) {subject : List Char} (h : Tight subject)
    {body : List Tree} (hbody : Tree.ofNests s inner = .ok body)
    (helse : ∀ k, Tree.otherwise? s k n nests = .ok none) (hrest : Tree.ofNests s nests = .ok trees) :
    Tree.ofNests s (.mk ⟨n, statementLine sign (b.statement subject), number⟩ inner :: nests) =
      .ok ((Keyword.ofBranch b).tree ⟨number, n⟩ subject body [] :: trees) := by
  have htight := Delimited.Segment.tight_statement b h
  simp [Tree.ofNests, Tree.contents, Nest.line, isTag_statementLine hsign, Line.isElse,
    isActionable_statementLine hsign, statement_statementLine hsign htight, elseClause?_statement,
    Line.keyword?, parse?_statement b h, Line.place, hbody, helse, hrest, bind, Except.bind, pure,
    Except.pure]

/-- An `else` line of the level begins an `else` part, with what is below it. -/
theorem otherwise?_else {l : Line} (hclause : l.elseClause? n = some []) {k : Keyword}
    (hk : k.takesElse = true) {otherwise : List Tree} (hother : Tree.ofNests s inner = .ok otherwise)
    (hrest : Tree.ofNests s nests = .ok trees) :
    Tree.otherwise? s k n (.mk l inner :: nests) = .ok (some (otherwise, trees)) := by
  simp [Tree.otherwise?, Tree.contents, Nest.line, hk, hclause, Text.isBlank, hother, hrest, bind,
    Except.bind, pure, Except.pure]

theorem elseClause?_elseLine (hsign : IsSign sign) :
    (Line.mk n (statementLine sign "else".toList) number).elseClause? n = some [] := by
  unfold Line.elseClause?
  rw [isActionable_statementLine hsign, statement_statementLine hsign Delimited.Segment.tight_else,
    elseClause?_else]
  simp

/-- A branch is a node with what is below its line and with the `else` part that follows. -/
theorem ofNests_choice (hsign : IsSign sign) (b : Branch) {subject : List Char} (h : Tight subject)
    {body otherwise : List Tree} (hbody : Tree.ofNests s inner = .ok body)
    (helse : Tree.otherwise? s (.ofBranch b) n nests = .ok (some (otherwise, trees))) :
    Tree.ofNests s (.mk ⟨n, statementLine sign (b.statement subject), number⟩ inner :: nests) =
      .ok ((Keyword.ofBranch b).tree ⟨number, n⟩ subject body otherwise :: trees) := by
  have htight := Delimited.Segment.tight_statement b h
  simp [Tree.ofNests, Tree.contents, Nest.line, isTag_statementLine hsign, Line.isElse,
    isActionable_statementLine hsign, statement_statementLine hsign htight, elseClause?_statement,
    Line.keyword?, parse?_statement b h, Line.place, hbody, helse, bind, Except.bind, pure,
    Except.pure]

theorem elseClause?_textLine (h : IsTextLine content) :
    (Line.mk n content number).elseClause? n = none := by
  simp [Line.elseClause?, isActionable_of_isTextLine h]

/-- The line of another statement is no `else` line. -/
theorem elseClause?_line (hsign : IsSign sign) (htight : Tight statement)
    (h : elseClause? statement = none) :
    (Line.mk n (statementLine sign statement) number).elseClause? n = none := by
  simp [Line.elseClause?, statement_statementLine hsign htight, h]

/-- Lines of a program do not begin with an `else` line. -/
theorem otherwise?_eq_none {ps : List Part} {plans : List Plan} (h : Outlines ps plans)
    (hps : IsSharedAll ps) (hnests : Nested n plans nests) (k : Keyword) :
    Tree.otherwise? s k n nests = .ok none := by
  have hline : ∀ x ∈ nests.head?, x.line.elseClause? n = none := by
    cases h with
    | nil =>
      cases hnests
      simp
    | text h =>
      cases hnests with
      | cons hinner hnests =>
        rintro x ⟨⟩
        exact elseClause?_textLine hps.1
    | action hsign h =>
      cases hnests with
      | cons hinner hnests =>
        rintro x ⟨⟩
        exact elseClause?_line hsign hps.1.1.tight (elseClause?_eq_none hps.1.2.2)
    | branch hsign _ _ =>
      cases hnests with
      | cons hinner hnests =>
        rintro x ⟨⟩
        exact elseClause?_line hsign (Delimited.Segment.tight_statement _ hps.1.1.tight)
          (elseClause?_statement _ _)
    | choice hsign _ _ _ _ =>
      cases hnests with
      | cons hinner hnests =>
        rintro x ⟨⟩
        exact elseClause?_line hsign (Delimited.Segment.tight_statement _ hps.1.2.1.tight)
          (elseClause?_statement _ _)
  cases nests with
  | nil => rfl
  | cons x nests =>
    have hx := hline x rfl
    rw [Tree.otherwise?]
    simp [hx]
    rfl

end Trees

/-! ## Writing the nodes -/

end Outline

namespace Build

variable {s : Settings} {b : Builder}

/-- A text without a statement in it is written as it is. -/
theorem interpolated_plain {content : List Char}
    (h : Text.cut? s.delimiters.opening content = none) (pad : Bool) (line : Nat) :
    interpolated s content pad line = (do text (String.ofList content); space pad) := by
  have hscan : Interpolated.scan s.delimiters content = { parts := [], rest := content } := by
    rw [Interpolated.scan]
    split
    · rfl
    · next heq => simp [h] at heq
  unfold interpolated
  rw [hscan]
  simp [interpolations]

/-- What is written inside goes to a list of its own. -/
theorem nested_ok {act : Build PUnit} {inside : Builder} (h : act b.inner = .ok ⟨⟩ inside) :
    nested act b = .ok inside.nodes { inside with emitted := b.emitted } := by
  unfold nested
  rw [bind_ok (show (get : Build Builder) b = .ok b b from rfl)]
  rw [bind_ok (show (modify fun b => { b with emitted := [] } : Build PUnit) b =
    .ok ⟨⟩ b.inner from rfl)]
  rw [bind_ok h]
  rfl

end Build

namespace Outline

section Emission

variable {s : Settings} {b : Builder} {place : Place}

theorem emitAll_cons {t : Tree} {ts : List Tree} {b' : Builder}
    (h : Tree.emit s t b = .ok ⟨⟩ b') : Tree.emitAll s (t :: ts) b = Tree.emitAll s ts b' := by
  rw [Tree.emitAll, Build.bind_ok h]

/-- A text is followed by a space. -/
theorem emit_text {content : List Char} (h : Text.cut? s.delimiters.opening content = none) :
    Tree.emit s (.text place content) b = .ok ⟨⟩ (b.text (String.ofList (content ++ [' ']))) := by
  rw [Tree.emit, Build.interpolated_plain h, Builder.text_append (Marker.not_torn_space content [])]
  rfl

theorem emit_statement {statement : List Char} {n : Node}
    (h : Build.actionNode b.context statement place.line = .ok n) :
    Tree.emit s (.statement place statement) b = .ok ⟨⟩ (b.push n) := by
  rw [Tree.emit]
  exact Build.action_ok h

/-- A branch without an `else` part. -/
theorem emit_branch (branch : Branch) {subject : List Char} {p : Pipeline}
    (hp : parsePipeline subject = .ok p) {body : List Tree} {inside : Builder}
    (hbody : Tree.emitAll s body b.inner = .ok ⟨⟩ inside) :
    Tree.emit s ((Keyword.ofBranch branch).tree place subject body []) b =
      .ok ⟨⟩ (b.outer inside (branch.node place.line p inside.nodes [])) := by
  have hpipeline := Build.pipeline_ok hp place.line b
  have hinside := Build.nested_ok hbody
  have hnothing : ∀ c : Builder, Build.nested (Tree.emitAll s []) c = .ok [] c := fun c => rfl
  cases branch with
  | cond =>
    rw [Keyword.ofBranch, Keyword.tree, Tree.emit, Build.bind_ok hpipeline, Build.bind_ok hinside,
      Build.bind_ok (hnothing _)]
    rfl
  | range =>
    rw [Keyword.ofBranch, Keyword.tree, Tree.emit, Build.bind_ok hpipeline, Build.bind_ok hinside,
      Build.bind_ok (hnothing _)]
    rfl
  | scope =>
    rw [Keyword.ofBranch, Keyword.tree, Tree.emit, Build.bind_ok hpipeline, Build.bind_ok hinside]
    rfl

/-- A branch with an `else` part. -/
theorem emit_choice {branch : Branch} (hbranch : branch ≠ .scope) {subject : List Char} {p : Pipeline}
    (hp : parsePipeline subject = .ok p) {body otherwise : List Tree} {inside inside' : Builder}
    (hbody : Tree.emitAll s body b.inner = .ok ⟨⟩ inside)
    (hother : Tree.emitAll s otherwise inside.inner = .ok ⟨⟩ inside') :
    Tree.emit s ((Keyword.ofBranch branch).tree place subject body otherwise) b =
      .ok ⟨⟩ (b.outer inside' (branch.node place.line p inside.nodes inside'.nodes)) := by
  have hpipeline := Build.pipeline_ok hp place.line b
  have hinside := Build.nested_ok hbody
  have hother' : Tree.emitAll s otherwise { inside with emitted := b.emitted }.inner =
    .ok ⟨⟩ inside' := hother
  cases branch with
  | cond =>
    rw [Keyword.ofBranch, Keyword.tree, Tree.emit, Build.bind_ok hpipeline, Build.bind_ok hinside,
      Build.bind_ok (Build.nested_ok hother')]
    rfl
  | range =>
    rw [Keyword.ofBranch, Keyword.tree, Tree.emit, Build.bind_ok hpipeline, Build.bind_ok hinside,
      Build.bind_ok (Build.nested_ok hother')]
    rfl
  | scope => exact absurd rfl hbranch

end Emission

/-! ## Whole outlines -/

/-- The nested lines are compiled to what the program says. -/
def Compiles (s : Settings) (ps : List Part) (nests : List Nest) : Prop :=
  ∃ trees, Tree.ofNests s nests = .ok trees ∧
    ∀ b, ∃ b', Tree.emitAll s trees b = .ok ⟨⟩ b' ∧ Builds [' '] ps b b'

namespace Compiles

variable {s : Settings} {ps : List Part} {n number : Nat} {inner nests : List Nest} {sign : Char}

theorem nil : Compiles s [] [] := ⟨[], rfl, fun b => ⟨b, rfl, .nil⟩⟩

theorem text (hs : s.delimiters = .standard) {content : List Char} (htext : IsTextLine content)
    (h : Compiles s ps nests) :
    Compiles s (.text content :: ps) (.mk ⟨n, content, number⟩ [] :: nests) := by
  obtain ⟨trees, htrees, hemit⟩ := h
  have hcut : Text.cut? s.delimiters.opening content = none := by
    rw [hs]
    exact Text.cut?_eq_none_iff.2 htext.opening
  refine ⟨_, ofNests_text htext htrees, fun b => ?_⟩
  obtain ⟨b', hb', hbuilds⟩ := hemit (b.text (String.ofList (content ++ [' '])))
  exact ⟨b', (emitAll_cons (emit_text hcut)).trans hb', .text hbuilds⟩

theorem action (hsign : IsSign sign) {statement : List Char} (htight : Tight statement)
    (hcompiles : Build.compiles statement = true)
    (hword : ∀ word ∈ keywords, (Delimited.firstWord statement).1 ≠ word.toList)
    (h : Compiles s ps nests) : Compiles s (.action statement :: ps)
      (.mk ⟨n, statementLine sign statement, number⟩ [] :: nests) := by
  obtain ⟨trees, htrees, hemit⟩ := h
  refine ⟨_, ofNests_statement hsign htight hword htrees, fun b => ?_⟩
  rcases Build.actionNode_cases b.context statement number with ⟨-, node, hnode, -⟩ | ⟨hnot, -⟩
  · obtain ⟨b', hb', hbuilds⟩ := hemit (b.push node)
    exact ⟨b', (emitAll_cons (emit_statement hnode)).trans hb', .action hnode hbuilds⟩
  · rw [hcompiles] at hnot
    cases hnot

variable {word : Branch} {subject : List Char} {p : Pipeline} {body otherwise : List Part}

theorem branch (hsign : IsSign sign) (htight : Tight subject) (hp : parsePipeline subject = .ok p)
    (hbody : Compiles s body inner) (helse : ∀ k, Tree.otherwise? s k n nests = .ok none)
    (h : Compiles s ps nests) : Compiles s (.branch word subject body none :: ps)
      (.mk ⟨n, statementLine sign (word.statement subject), number⟩ inner :: nests) := by
  obtain ⟨bodyTrees, hbodyTrees, hbodyEmit⟩ := hbody
  obtain ⟨trees, htrees, hemit⟩ := h
  refine ⟨_, ofNests_branch hsign word htight hbodyTrees helse htrees, fun b => ?_⟩
  obtain ⟨inside, hinside, hinsideBuilds⟩ := hbodyEmit b.inner
  obtain ⟨b', hb', hbuilds⟩ := hemit (b.outer inside (word.node number p inside.nodes []))
  exact ⟨b', (emitAll_cons (emit_branch word hp hinside)).trans hb',
    .branch hp hinsideBuilds hbuilds⟩

theorem choice {sign' : Char} {inner' : List Nest} {number' : Nat} (hsign : IsSign sign)
    (hsign' : IsSign sign') (hword : word ≠ .scope) (htight : Tight subject)
    (hp : parsePipeline subject = .ok p) (hbody : Compiles s body inner)
    (hother : Compiles s otherwise inner') (h : Compiles s ps nests) :
    Compiles s (.branch word subject body (some otherwise) :: ps)
      (.mk ⟨n, statementLine sign (word.statement subject), number⟩ inner ::
        .mk ⟨n, statementLine sign' "else".toList, number'⟩ inner' :: nests) := by
  obtain ⟨bodyTrees, hbodyTrees, hbodyEmit⟩ := hbody
  obtain ⟨otherTrees, hotherTrees, hotherEmit⟩ := hother
  obtain ⟨trees, htrees, hemit⟩ := h
  have htakes : (Keyword.ofBranch word).takesElse = true := by
    cases word with
    | scope => exact absurd rfl hword
    | _ => rfl
  have helse : Tree.otherwise? s (.ofBranch word) n
      (.mk ⟨n, statementLine sign' "else".toList, number'⟩ inner' :: nests) =
        .ok (some (otherTrees, trees)) :=
    otherwise?_else (elseClause?_elseLine hsign') htakes hotherTrees htrees
  refine ⟨_, ofNests_choice hsign word htight hbodyTrees helse, fun b => ?_⟩
  obtain ⟨inside, hinside, hinsideBuilds⟩ := hbodyEmit b.inner
  obtain ⟨inside', hinside', hinsideBuilds'⟩ := hotherEmit inside.inner
  obtain ⟨b', hb', hbuilds⟩ :=
    hemit (b.outer inside' (word.node number p inside.nodes inside'.nodes))
  exact ⟨b', (emitAll_cons (emit_choice hword hp hinside hinside')).trans hb',
    .choice hp hinsideBuilds hinsideBuilds' hbuilds⟩

end Compiles

/-- **Nested lines of a program are compiled to what the program says.** -/
theorem compiles_outline {s : Settings} (hs : s.delimiters = .standard) {ps : List Part}
    {plans : List Plan} (h : Outlines ps plans) : ∀ {n : Nat} {nests : List Nest},
      IsSharedAll ps → Nested n plans nests → Compiles s ps nests := by
  induction h with
  | nil =>
    intro n nests _ hnests
    cases hnests
    exact .nil
  | text _ ih =>
    intro n nests hps hnests
    cases hnests with
    | cons hinner hnests =>
      cases hinner
      exact .text hs hps.1 (ih hps.2 hnests)
  | action hsign _ ih =>
    intro n nests hps hnests
    obtain ⟨⟨hstatement, hcompiles, hword⟩, hps⟩ := hps
    cases hnests with
    | cons hinner hnests =>
      cases hinner
      exact .action hsign hstatement.tight hcompiles hword (ih hps hnests)
  | branch hsign _ hplans ihbody ih =>
    intro n nests hps hnests
    obtain ⟨⟨hsubject, ⟨p, hp⟩, hbody⟩, hps⟩ := hps
    cases hnests with
    | cons hinner hnests =>
      exact .branch hsign hsubject.tight hp (ihbody hbody hinner)
        (otherwise?_eq_none hplans hps hnests) (ih hps hnests)
  | choice hsign hsign' _ _ _ ihbody ihother ih =>
    intro n nests hps hnests
    obtain ⟨⟨hbranch, hsubject, ⟨p, hp⟩, hbody, hother⟩, hps⟩ := hps
    cases hnests with
    | cons hinner hnests =>
      cases hnests with
      | cons hinner' hnests =>
        exact .choice hsign hsign' hbranch hsubject.tight hp (ihbody hbody hinner)
          (ihother hother hinner') (ih hps hnests)

/-! ## Sources -/

/-- The subject of a branch behind its word: one line that ends in no backslash. -/
theorem fit_branchLine {sign : Char} (hsign : IsSign sign) (b : Branch) {subject : List Char}
    (h : IsStatement subject) {p : Pipeline} (hp : parsePipeline subject = .ok p) :
    Fit (statementLine sign (b.statement subject)) := by
  have hword : '\n' ∉ b.word := by cases b <;> decide
  have hfeed : '\n' ∉ b.statement subject := by simp [Branch.statement, hword, h.feed]
  have hlast : (b.statement subject).getLast? = subject.getLast? := by
    obtain ⟨c, t, rfl⟩ := List.exists_cons_of_ne_nil h.tight.ne_nil
    rw [Branch.statement, List.getLast?_append, List.getLast?_cons_cons, List.getLast?_cons]
    rfl
  refine fit_statementLine hsign (Delimited.Segment.tight_statement b h.tight) hfeed ?_
  rw [hlast]
  exact getLast?_of_parsePipeline hp

theorem forall_rowsOf_cons {q : List Char → Prop} {n : Nat} {content : List Char}
    {inner plans : List Plan} (h : q content) (hinner : ∀ row ∈ Plan.rowsOf (n + 1) inner, q row.2)
    (hplans : ∀ row ∈ Plan.rowsOf n plans, q row.2) :
    ∀ row ∈ Plan.rowsOf n (.mk content inner :: plans), q row.2 := by
  intro row hrow
  rw [Plan.rowsOf, Plan.rows, List.cons_append, List.mem_cons, List.mem_append] at hrow
  rcases hrow with rfl | hrow | hrow
  · exact h
  · exact hinner row hrow
  · exact hplans row hrow

/-- **The lines of a program can be lines of an outline.** -/
theorem fit_outline {ps : List Part} {plans : List Plan} (h : Outlines ps plans) :
    IsSharedAll ps → ∀ n, ∀ row ∈ Plan.rowsOf n plans, Fit row.2 := by
  have hnone : ∀ n, ∀ row ∈ Plan.rowsOf n [], Fit row.2 := fun _ _ => nofun
  induction h with
  | nil => exact fun _ => hnone
  | text _ ih =>
    intro hps n
    exact forall_rowsOf_cons (fit_of_isTextLine hps.1) (hnone _) (ih hps.2 n)
  | action hsign _ ih =>
    intro hps n
    obtain ⟨⟨hstatement, hcompiles, -⟩, hps⟩ := hps
    exact forall_rowsOf_cons (fit_statementLine hsign hstatement.tight hstatement.feed
      (getLast?_of_compiles hcompiles)) (hnone _) (ih hps n)
  | @branch _ b _ _ _ _ _ hsign _ _ ihbody ih =>
    intro hps n
    obtain ⟨⟨hsubject, ⟨p, hp⟩, hbody⟩, hps⟩ := hps
    exact forall_rowsOf_cons (fit_branchLine hsign b hsubject hp) (ihbody hbody _) (ih hps n)
  | @choice _ _ b _ _ _ _ _ _ _ hsign hsign' _ _ _ ihbody ihother ih =>
    intro hps n
    obtain ⟨⟨-, hsubject, ⟨p, hp⟩, hbody, hother⟩, hps⟩ := hps
    have helse : Fit (statementLine _ "else".toList) :=
      fit_statementLine hsign' Delimited.Segment.tight_else (by decide) (by decide)
    exact forall_rowsOf_cons (fit_branchLine hsign b hsubject hp) (ihbody hbody _)
      (forall_rowsOf_cons helse (ihother hother _) (ih hps n))

/-- What an outline is compiled to, once its nested lines are. -/
theorem parse_of_lines {s : Settings} {source : List Char} {ls : List Line} {trees : List Tree}
    {b : Builder} (hls : Line.classify s.strictIndentation source = .ok ls)
    (htrees : Tree.ofNests s (Nest.ofLines ls) = .ok trees)
    (hemit : Tree.emitAll s trees {} = .ok ⟨⟩ b) (name : String) :
    (parse s name (String.ofList source)).1 =
      .ok [(baseName name, { name := baseName name, nodes := b.nodes })] := by
  have hrun : (compile s source).run {} = .ok ⟨⟩ b := by
    change compile s source {} = _
    unfold compile
    rw [hls, Build.bind_ok (show ofExcept (.ok ls) {} = .ok ls {} from rfl), analyze, htrees,
      Build.bind_ok (show ofExcept (.ok trees) {} = .ok trees {} from rfl), hemit]
  unfold parse
  rw [String.toList_ofList, hrun]

/-- **The outline of a program is compiled to one template**, with the nodes that the program says. -/
theorem parse_written {s : Settings} (hs : s.delimiters = .standard) {ps : List Part}
    {plans : List Plan} (h : Outlines ps plans) (hps : IsSharedAll ps) {source : List Char}
    (hsource : Written s.strictIndentation (Plan.rowsOf 0 plans) source) (name : String) :
    ∃ b, Builds [' '] ps {} b ∧ (parse s name (String.ofList source)).1 =
      .ok [(baseName name, { name := baseName name, nodes := b.nodes })] := by
  obtain ⟨ls, hls, hnested⟩ := nested_written hsource (fit_outline h hps 0)
  obtain ⟨trees, htrees, hemit⟩ := compiles_outline hs h hps hnested
  obtain ⟨b, hb, hbuilds⟩ := hemit {}
  exact ⟨b, hbuilds, parse_of_lines hls htrees hb name⟩

end Outline

end Stencil
