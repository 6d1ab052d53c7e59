import Mathlib
import Stencil.Proofs.Delimited.Recording
import Stencil.Proofs.Html.Pieces
import Stencil.Proofs.Template.Interpolation

/-!
# What is written for a text

A text is written as its literal text, merged into one node where nothing stands between, and a node for
every statement that can be read. One that cannot be read is written as it stands in the text.

* `Mark` is a piece of what is written, `Interpolated.marks` lists the marks of a text with statements.
* `Shows line pending ms ns` says that marks come to some nodes behind the literal text `pending`.
* `Build.Puts act line ms` says that a computation writes the marks whenever it succeeds; `Puts.seq` puts
  computations together.
* `Build.interpolated_conserves` says that a text is written without loss.
-/

namespace Stencil

open Interpolated (span)

/-- A piece of what is written: literal text, the node of a statement, or the space that pads a text. -/
inductive Mark where
  | text (s : List Char)
  | statement (s : List Char)
  | padding

namespace Mark

variable {line : Nat} {pending s : List Char} {ms : List Mark} {ns : List Node}

/-- The text that a mark is written for; padding is added to the text. -/
def source (d : Delimiters) : Mark → List Char
  | .text s => s
  | .statement s => span d s
  | .padding => []

/-- A space if padding is wanted. -/
def space (pad : Bool) : List Mark := if pad then [.padding] else []

/-- A statement between delimiters: its node if it can be read, and else the text itself, padded. -/
def ofSpan (s : Settings) (pad : Bool) (statement : List Char) : List Mark :=
  if Build.compiles statement then [.statement statement]
  else .text (span s.delimiters statement) :: space pad

/-- The nodes of a literal text: a text, which may be missing if it is empty. -/
inductive Literal : List Char → List Node → Prop
  | missing : Literal [] []
  | node (s : String) : Literal s.toList [.text s]

/-- The marks come to the nodes behind the literal text `pending`: one text for all that are next to
each other, and the node of each statement between them. -/
inductive Shows (line : Nat) : List Char → List Mark → List Node → Prop
  | done {pending : List Char} {ns : List Node} (h : Literal pending ns) : Shows line pending [] ns
  | text {pending s : List Char} {ms : List Mark} {ns : List Node}
    (h : Shows line (pending ++ s) ms ns) : Shows line pending (.text s :: ms) ns
  | padding {pending : List Char} {ms : List Mark} {ns : List Node}
    (h : Shows line (pending ++ [' ']) ms ns) : Shows line pending (.padding :: ms) ns
  | statement {pending statement : List Char} {ms : List Mark} {ns ns' : List Node} {n : Node}
    {context : HtmlContext} (hpending : Literal pending ns)
    (hn : Build.actionNode context statement line = .ok n) (h : Shows line [] ms ns') :
    Shows line pending (.statement statement :: ms) (ns ++ n :: ns')

theorem flatMap_source_space (d : Delimiters) (pad : Bool) : (space pad).flatMap (source d) = [] := by
  cases pad <;> rfl

@[simp] theorem flatMap_source_ofSpan (s : Settings) (pad : Bool) (statement : List Char) :
    (ofSpan s pad statement).flatMap (source s.delimiters) = span s.delimiters statement := by
  unfold ofSpan
  split
  · simp [source]
  · rw [List.flatMap_cons, flatMap_source_space, List.append_nil]
    rfl

end Mark

/-- The marks of a text with statements. Padding stands behind every statement that cannot be read, and
at the end unless the text ends in a statement. -/
def Interpolated.marks (s : Settings) (pad : Bool) (i : Interpolated) : List Mark :=
  i.parts.flatMap (fun p => .text p.1 :: Mark.ofSpan s pad p.2) ++
    if i.rest.isEmpty && !i.parts.isEmpty then [] else .text i.rest :: Mark.space pad

theorem Interpolated.marks_literal (s : Settings) (pad : Bool) (text : List Char) :
    (literal text).marks s pad = .text text :: Mark.space pad := by
  simp [marks, literal]

/-- Marks are written for the text, and padding for no part of it. -/
theorem Interpolated.flatMap_source_marks (s : Settings) (pad : Bool) (i : Interpolated) :
    (i.marks s pad).flatMap (Mark.source s.delimiters) = i.source s.delimiters := by
  have hrest : (if i.rest.isEmpty && !i.parts.isEmpty then [] else
      Mark.text i.rest :: Mark.space pad).flatMap (Mark.source s.delimiters) = i.rest := by
    split
    · next h =>
      rw [Bool.and_eq_true, List.isEmpty_iff] at h
      rw [h.1]
      rfl
    · rw [List.flatMap_cons, Mark.flatMap_source_space, List.append_nil]
      rfl
  rw [marks, List.flatMap_append, hrest, source, List.flatMap_assoc]
  simp only [List.flatMap_cons, Mark.flatMap_source_ofSpan]
  rfl

theorem Interpolated.padding_notMem_marks (s : Settings) (i : Interpolated) :
    Mark.padding ∉ i.marks s false := by
  have hspan : ∀ statement, Mark.padding ∉ Mark.ofSpan s false statement := by
    intro statement
    unfold Mark.ofSpan
    split <;> simp [Mark.space]
  unfold marks
  rw [List.mem_append, not_or]
  constructor
  · simp [hspan]
  · split <;> simp [Mark.space]

/-! ## Builders -/

namespace Builder

open Mark (Literal Shows)

variable {line : Nat} {ms ms' : List Mark} {b b' b'' : Builder}

/-- The text at the end is a node behind the closed ones. -/
theorem exists_literal (b : Builder) : ∃ ns, Literal b.openText ns ∧ b.nodes = b.closed ++ ns := by
  unfold openText closed nodes
  split
  · next t ns h => exact ⟨[.text t], .node t, by rw [h, List.reverse_cons]⟩
  · exact ⟨[], .missing, by rw [List.append_nil]⟩

/-- `b'` is `b` with what the marks come to, and more marks go on from there. -/
def Gains (line : Nat) (ms : List Mark) (b b' : Builder) : Prop :=
  ∃ between, b'.closed = b.closed ++ between ∧ ∀ more ns, Shows line b'.openText more ns →
    Shows line b.openText (ms ++ more) (between ++ ns)

namespace Gains

theorem refl (line : Nat) (b : Builder) : Gains line [] b b :=
  ⟨[], (List.append_nil _).symm, fun _ _ h => h⟩

theorem trans (h : Gains line ms b b') (h' : Gains line ms' b' b'') :
    Gains line (ms ++ ms') b b'' := by
  obtain ⟨between, hclosed, hshows⟩ := h
  obtain ⟨between', hclosed', hshows'⟩ := h'
  refine ⟨between ++ between', by rw [hclosed', hclosed, List.append_assoc], fun more ns hmore => ?_⟩
  rw [List.append_assoc, List.append_assoc]
  exact hshows _ _ (hshows' _ _ hmore)

theorem text (line : Nat) (b : Builder) (s : String) : Gains line [.text s.toList] b (b.text s) := by
  obtain ⟨hclosed, hopen⟩ := b.closed_text s
  refine ⟨[], by rw [hclosed, List.append_nil], fun more ns hmore => ?_⟩
  rw [hopen] at hmore
  exact .text hmore

theorem padding (line : Nat) (b : Builder) : Gains line [.padding] b (b.text " ") := by
  obtain ⟨hclosed, hopen⟩ := b.closed_text " "
  refine ⟨[], by rw [hclosed, List.append_nil], fun more ns hmore => ?_⟩
  rw [hopen] at hmore
  exact .padding hmore

theorem push {statement : List Char} {context : HtmlContext} {n : Node}
    (hn : Build.actionNode context statement line = .ok n) (b : Builder) :
    Gains line [.statement statement] b (b.push n) := by
  have htext : ∀ s, n ≠ .text s := by
    rcases Build.actionNode_cases context statement line with ⟨-, m, hm, htext⟩ | ⟨-, c, hc⟩
    · cases hn.symm.trans hm
      exact htext
    · cases hn.symm.trans hc
  obtain ⟨hclosed, hopen⟩ := b.closed_push htext
  obtain ⟨ns, hns, hnodes⟩ := b.exists_literal
  refine ⟨ns ++ [n], by rw [hclosed, hnodes, List.append_assoc], fun more ns' hmore => ?_⟩
  rw [hopen] at hmore
  rw [List.append_assoc]
  exact .statement hns hn hmore

/-- What is recorded besides the nodes does not matter. -/
theorem event {events : List Event} (h : Gains line ms { b with events } b') : Gains line ms b b' := h

/-- The nodes that were added, with the text at the end that they are merged with. -/
theorem exists_added (h : Gains line ms b b') :
    ∃ added, b'.nodes = b.closed ++ added ∧ Shows line b.openText ms added := by
  obtain ⟨between, hclosed, hshows⟩ := h
  obtain ⟨ns, hns, hnodes⟩ := b'.exists_literal
  refine ⟨between ++ ns, by rw [hnodes, hclosed, List.append_assoc], ?_⟩
  have hall := hshows [] ns (.done hns)
  rwa [List.append_nil] at hall

end Gains

end Builder

/-! ## Computations -/

namespace Build

/-- The computation writes the marks whenever it succeeds. -/
def Puts (act : Build PUnit) (line : Nat) (ms : List Mark) : Prop :=
  ∀ b b', act b = .ok ⟨⟩ b' → b.Gains line ms b'

namespace Puts

variable {act act' : Build PUnit} {line : Nat} {ms ms' : List Mark}

theorem pure (line : Nat) : Puts (Pure.pure ⟨⟩) line [] := by
  intro b b' h
  cases h
  exact .refl line b

theorem seq (h : Puts act line ms) (h' : Puts act' line ms') :
    Puts (do act; act') line (ms ++ ms') := by
  intro b b'' hact
  obtain ⟨_, b', hb, hb'⟩ := bind_eq_ok.1 hact
  exact (h b b' hb).trans (h' b' b'' hb')

theorem text (line : Nat) (s : String) : Puts (Build.text s) line [.text s.toList] := by
  intro b b' h
  cases h
  exact .text line b s

theorem literal (line : Nat) (s : List Char) :
    Puts (Build.text (String.ofList s)) line [.text s] := by
  have h := text line (String.ofList s)
  rwa [String.toList_ofList] at h

theorem space (line : Nat) (pad : Bool) : Puts (Build.space pad) line (Mark.space pad) := by
  cases pad with
  | false => exact pure line
  | true =>
    intro b b' h
    cases h
    exact .padding line b

theorem action (line : Nat) (statement : List Char) :
    Puts (Build.action statement line) line [.statement statement] := by
  intro b b' h
  obtain ⟨_, _, hget, h⟩ := bind_eq_ok.1 h
  cases hget
  cases hn : actionNode b.context statement line with
  | error c =>
    rw [hn] at h
    cases h
  | ok n =>
    rw [hn] at h
    cases h
    exact .push hn b

theorem interpolation (s : Settings) (pad : Bool) (line : Nat) (statement : List Char) :
    Puts (Build.interpolation s pad line statement) line (Mark.ofSpan s pad statement) := by
  intro b b' h
  obtain ⟨_, _, hget, h⟩ := bind_eq_ok.1 h
  cases hget
  unfold Mark.ofSpan
  rcases actionNode_cases b.context statement line with
    ⟨hcompiles, n, hn, -⟩ | ⟨hcompiles, c, hc⟩
  · rw [hn] at h
    cases h
    rw [if_pos hcompiles]
    exact .push hn b
  · rw [hc] at h
    dsimp only at h
    rw [if_neg (by simp [hcompiles])]
    split at h
    · cases h
    · obtain ⟨_, b₁, hevent, h⟩ := bind_eq_ok.1 h
      cases hevent
      have hsource : span s.delimiters statement =
          (s.delimiters.left ++ String.ofList statement ++ s.delimiters.right).toList := by
        simp [span, Delimiters.opening, Delimiters.closing, List.append_assoc]
      rw [hsource]
      exact ((text line _).seq (space line pad) _ _ h).event

theorem interpolations (s : Settings) (pad : Bool) (line : Nat)
    (parts : List (List Char × List Char)) : Puts (Build.interpolations s pad line parts) line
      (parts.flatMap fun p => .text p.1 :: Mark.ofSpan s pad p.2) := by
  induction parts with
  | nil => exact pure line
  | cons p parts ih => exact (literal line p.1).seq ((interpolation s pad line p.2).seq ih)

/-- A text is written as it is split from the left. -/
theorem interpolated (s : Settings) (source : List Char) (pad : Bool) (line : Nat) :
    Puts (Build.interpolated s source pad line) line
      ((Interpolated.scan s.delimiters source).marks s pad) := by
  apply (interpolations s pad line _).seq
  split
  · exact pure line
  · exact (literal line _).seq (space line pad)

end Puts

/-- **A text is written without loss.** If writing a text with interpolations succeeds, the nodes added,
with the text at the end that they are merged with, are those of marks that are written for exactly this
text, split from the left. Only padding is added to it, and none if none is wanted. -/
theorem interpolated_conserves (s : Settings) (source : List Char) (pad : Bool) (line : Nat)
    {b b' : Builder} (h : Build.interpolated s source pad line b = .ok ⟨⟩ b') :
    ∃ i, Interpolated.Splits s.delimiters source i ∧
      (i.marks s pad).flatMap (Mark.source s.delimiters) = source ∧
      (pad = false → .padding ∉ i.marks s pad) ∧
      ∃ last added, b.nodes = b.closed ++ last ∧ Mark.Literal b.openText last ∧
        b'.nodes = b.closed ++ added ∧ Mark.Shows line b.openText (i.marks s pad) added := by
  have hsplits := Interpolated.splits_scan s.delimiters source
  obtain ⟨last, hlast, hnodes⟩ := b.exists_literal
  obtain ⟨added, hadded, hshows⟩ := (Puts.interpolated s source pad line b b' h).exists_added
  refine ⟨_, hsplits, ?_, ?_, last, added, hnodes, hlast, hadded, hshows⟩
  · rw [Interpolated.flatMap_source_marks, hsplits.source_eq]
  · rintro rfl
    exact Interpolated.padding_notMem_marks s _

/-- A text with a statement, a statement that cannot be read and a delimiter that is left open. -/
def mixedText : List Char := "a\x7b\x7b .X \x7d\x7db\x7b\x7b | \x7d\x7dc\x7b\x7b ".toList

/-- A builder that has written a text. -/
def mixedStart : Builder := { emitted := [.text "x"] }

/-- The text is written behind the one before it. -/
theorem interpolated_conserves_mixedText :
    (final (interpolated .standard mixedText true 3) mixedStart).nodes =
        [.text "xa", .action 3 .body { commands := [[.field ["X"]]] },
          .text "b\x7b\x7b | \x7d\x7d c\x7b\x7b  "] ∧
      ∃ i, Interpolated.Splits Delimiters.standard mixedText i ∧
        (i.marks .standard true).flatMap (Mark.source Delimiters.standard) = mixedText ∧
        (true = false → .padding ∉ i.marks .standard true) ∧
        ∃ last added, mixedStart.nodes = mixedStart.closed ++ last ∧
          Mark.Literal mixedStart.openText last ∧
          (final (interpolated .standard mixedText true 3) mixedStart).nodes =
            mixedStart.closed ++ added ∧
          Mark.Shows 3 mixedStart.openText (i.marks .standard true) added := by
  have h : interpolated .standard mixedText true 3 mixedStart =
      .ok ⟨⟩ (final (interpolated .standard mixedText true 3) mixedStart) := by cbv
  exact ⟨by cbv, interpolated_conserves .standard mixedText true 3 h⟩

end Build

end Stencil
