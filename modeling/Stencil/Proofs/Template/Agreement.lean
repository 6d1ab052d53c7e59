import Mathlib
import Stencil.Proofs.Outline.Program

/-!
# Two front ends, one program

A program that is written as an outline and as a delimited source is compiled to the same nodes, with
the same contexts. One front end finds the bodies by their indentation and writes every line by itself,
the other one finds them by their `end` statements and reads the texts between two statements as one.

* `separable_shared` says that the delimiters of such a program are found where they were written;
  every text ends in a space, so that neither a delimiter nor a tag is torn between two texts.
* `readable_shared` says that its statements are read.
* `frontEnds_agree` compares the two templates.
-/

namespace Stencil

open Text (Tight IsWord tight_iff cut?_eq_none_iff)
open Delimited (Branch Segment Keyword)
open Delimited.Segment
open Stencil.Part (segments segmentsOf IsShared IsSharedAll Readable ReadableAll)
open Outline (Plan Outlines Written IsTextLine baseName)

/-! ## Delimiters -/

/-- The texts right before a part: each was followed by a space, and they hold no delimiter. -/
def Padded (pending : List Char) : Prop :=
  pending = [] ∨
    ∃ s, pending = s ++ [' '] ∧ Text.cut? Delimiters.standard.opening s = none

namespace Padded

variable {pending s : List Char}

theorem nil : Padded [] := .inl rfl

theorem append (h : Padded pending) (hs : Text.cut? Delimiters.standard.opening s = none) :
    Padded (pending ++ (s ++ [' '])) := by
  refine .inr ⟨pending ++ s, (List.append_assoc _ _ _).symm, ?_⟩
  rcases h with rfl | ⟨t, rfl, ht⟩
  · exact hs
  · rw [List.append_assoc, List.singleton_append,
      Text.cut?_append_space isWord_opening (Delimiters.opening_ne_nil _) rfl ht, hs]
    rfl

theorem clear (h : Padded pending) : Clear .standard pending := by
  rcases h with rfl | ⟨s, rfl, hs⟩
  · exact clear_nil
  · have hself : Text.cut? Delimiters.standard.opening Delimiters.standard.opening = some ([], []) :=
      rfl
    rw [Clear, List.append_assoc, List.singleton_append,
      Text.cut?_append_space isWord_opening (Delimiters.opening_ne_nil _) rfl hs, hself]
    rfl

theorem not_torn (h : Padded pending) (s : List Char) : ¬ Marker.Torn pending s := by
  rcases h with rfl | ⟨t, rfl, -⟩
  · exact Marker.not_torn_nil s
  · exact Marker.not_torn_behind_space t s

end Padded

theorem spoken_action {statement : List Char} (h : IsStatement statement)
    (hcompiles : Build.compiles statement = true) : Spoken .standard statement :=
  ⟨h.tight, cut?_eq_none_iff.2 h.closing, opensComment_of_compiles hcompiles⟩

theorem spoken_branch (b : Branch) {subject : List Char} (h : IsStatement subject) :
    Spoken .standard (b.statement subject) :=
  spoken_standard b h.tight (cut?_eq_none_iff.2 h.closing)

theorem follows_end {rest : List Segment} (h : Separable .standard [] rest) :
    Follows .standard (.action "end".toList 0 :: rest) := follows_action (spoken_end rfl) h

theorem follows_else {rest : List Segment} (h : Separable .standard [] rest) :
    Follows .standard (.action "else".toList 0 :: rest) := follows_action (spoken_else rfl) h

mutual

/-- The segments of a part behind texts. -/
theorem separable_part : ∀ {part : Part} {pending : List Char} {rest : List Segment},
    IsShared part → Padded pending →
      (∀ pending, Padded pending → Separable .standard pending rest) →
        Separable .standard pending (segments [' '] part ++ rest)
  | .text s, _, _, hpart, hpending, hrest =>
    ⟨hpending.not_torn _, hrest _ (hpending.append (cut?_eq_none_iff.2 hpart.opening))⟩
  | .action statement, _, _, hpart, hpending, hrest =>
    ⟨hpending.clear, spoken_action hpart.1 hpart.2.1, hrest [] .nil⟩
  | .branch b subject body none, pending, rest, hpart, hpending, hrest => by
    obtain ⟨hsubject, -, hbody⟩ := hpart
    have hends := follows_end (hrest [] .nil)
    rw [segments, List.cons_append, List.append_assoc]
    exact ⟨hpending.clear, spoken_branch b hsubject, separable_shared hbody .nil hends⟩
  | .branch b subject body (some otherwise), pending, rest, hpart, hpending, hrest => by
    obtain ⟨-, hsubject, -, hbody, hother⟩ := hpart
    have hends := follows_end (hrest [] .nil)
    have helse := follows_else (separable_shared hother .nil hends)
    rw [segments, List.cons_append, List.append_assoc, List.cons_append, List.append_assoc]
    exact ⟨hpending.clear, spoken_branch b hsubject, separable_shared hbody .nil helse⟩

/-- **The delimiters of a shared program are found where they were written.** -/
theorem separable_shared : ∀ {ps : List Part} {pending : List Char} {rest : List Segment},
    IsSharedAll ps → Padded pending → Follows .standard rest →
      Separable .standard pending (segmentsOf [' '] ps ++ rest)
  | [], _, _, _, hpending, hrest => hrest _ hpending.clear
  | part :: ps, _, _, hps, hpending, hrest => by
    rw [segmentsOf, List.append_assoc]
    exact separable_part hps.1 hpending fun _ h => separable_shared hps.2 h hrest

end

mutual

theorem readable_part : ∀ {part : Part}, IsShared part → Readable part
  | .text s, _ => trivial
  | .action statement, hpart => by
    obtain ⟨-, hcompiles, hword⟩ := hpart
    have hkeywords : ∀ word ∈ ["end", "else", "if", "range", "with", "define"],
        word ∈ Outline.keywords := by decide
    exact ⟨Delimited.keyword_action fun word h => hword word (hkeywords word h), hcompiles⟩
  | .branch b subject body none, hpart =>
    ⟨hpart.1.tight, hpart.2.1, readable_shared hpart.2.2⟩
  | .branch b subject body (some otherwise), hpart =>
    ⟨hpart.2.1.tight, hpart.2.2.1, readable_shared hpart.2.2.2.1, readable_shared hpart.2.2.2.2⟩

/-- **The statements of a shared program are read.** -/
theorem readable_shared : ∀ {ps : List Part}, IsSharedAll ps → ReadableAll ps
  | [], _ => trivial
  | _ :: _, hps => ⟨readable_part hps.1, readable_shared hps.2⟩

end

/-! ## Agreement -/

/-- **Both front ends compile a program to the same nodes**, up to lines: the outline of a program,
whatever its indentation is made of, and its delimited source with a space behind every text. -/
theorem frontEnds_agree (s : Settings) (hs : s.delimiters = .standard) {ps : List Part}
    (hps : IsSharedAll ps) {plans : List Plan} (hplans : Outlines ps plans) {outline : List Char}
    (houtline : Written s.strictIndentation (Plan.rowsOf 0 plans) outline) (name name' : String) :
    ∃ nodes nodes', (Outline.parse s name (String.ofList outline)).1 =
        .ok [(baseName name, { name := baseName name, nodes })] ∧
      (Delimited.parse s name' (String.ofList (Part.source .standard [' '] ps))).1 =
        .ok [(name', { name := name', nodes := nodes' })] ∧
      nodes.map (Node.unplaced id) = nodes'.map (Node.unplaced id) := by
  have hend : Follows .standard [] := fun pending h => h
  have hseparable := separable_shared hps .nil hend
  rw [List.append_nil, ← hs] at hseparable
  obtain ⟨b, hbuilds, hparse⟩ := Outline.parse_written hs hplans hps houtline name
  obtain ⟨b', hbuilds', hparse'⟩ := Delimited.parse_source (hs ▸ isWord_closing)
    (readable_shared hps) hseparable name'
  rw [hs] at hparse'
  have hsame := (hbuilds.alike (.refl _) hbuilds').nodes
  rw [Node.unplacedAll_eq_map, Node.unplacedAll_eq_map] at hsame
  exact ⟨b.nodes, b'.nodes, hparse, hparse', hsame⟩

/-! ## A program -/

/-- A program with a branch of each kind, with an `else` part and with a script. -/
def sharedParts : List Part := [
  .text "<p \x7b".toList,
  .branch .cond ".a".toList
    [.text "\x7b <script>".toList,
      .branch .range "$v := .b".toList [.action "$v".toList] none]
    (some []),
  .branch .scope ".c".toList [.action "template \"t\" .".toList] none,
  .text "</script>".toList]

/-- An outline of the program, with both signs. -/
def sharedPlans : List Plan := [
  .mk "<p \x7b".toList [],
  .mk "= if .a".toList [
    .mk "\x7b <script>".toList [],
    .mk "- range $v := .b".toList [.mk "= $v".toList []]],
  .mk "- else".toList [],
  .mk "- with .c".toList [.mk "= template \"t\" .".toList []],
  .mk "</script>".toList []]

/-- The outline as a source, indented with tabs and spaces. -/
def sharedLines : List Char :=
  ("<p \x7b\n= if .a\n\t\x7b <script>\n  - range $v := .b\n\t  = $v\n".toList ++
    "- else\n- with .c\n  = template \"t\" .\n</script>".toList)

theorem outlines_sharedParts : Outlines sharedParts sharedPlans :=
  .text (.choice (.inl rfl) (.inr rfl)
    (.text (.branch (.inr rfl) (.action (.inl rfl) .nil) .nil)) .nil
    (.branch (.inr rfl) (.action (.inl rfl) .nil) (.text .nil)))

theorem written_sharedLines : Written false (Plan.rowsOf 0 sharedPlans) sharedLines := by
  have hlines : ∃ source, source = sharedLines ∧ Written false (Plan.rowsOf 0 sharedPlans) source :=
    ⟨_, rfl, .line .none (.line .none (.line (.tab .none) (.line (.spaces rfl .none)
      (.line (.tab (.spaces rfl .none)) (.line .none (.line .none (.line (.spaces rfl .none)
        (.last .none))))))))⟩
  obtain ⟨source, rfl, h⟩ := hlines
  exact h

theorem isSharedAll_sharedParts : IsSharedAll sharedParts := by
  have hcond : parsePipeline ".a".toList = .ok { commands := [[.field ["a"]]] } := by cbv
  have hrange : parsePipeline "$v := .b".toList =
      .ok { targets := ["v"], commands := [[.field ["b"]]] } := by cbv
  have hscope : parsePipeline ".c".toList = .ok { commands := [[.field ["c"]]] } := by cbv
  have hvariable : IsShared (.action "$v".toList) :=
    ⟨⟨tight_iff.2 (by decide), by decide, cut?_eq_none_iff.1 rfl⟩, by cbv, by decide⟩
  have hcall : IsShared (.action "template \"t\" .".toList) :=
    ⟨⟨tight_iff.2 (by decide), by decide, cut?_eq_none_iff.1 rfl⟩, by cbv, by decide⟩
  have hopen : IsShared (.text "<p \x7b".toList) :=
    ⟨⟨_, _, rfl, rfl, by decide⟩, by decide, by decide, by decide, cut?_eq_none_iff.1 rfl⟩
  have hscript : IsShared (.text "\x7b <script>".toList) :=
    ⟨⟨_, _, rfl, rfl, by decide⟩, by decide, by decide, by decide, cut?_eq_none_iff.1 rfl⟩
  have hclose : IsShared (.text "</script>".toList) :=
    ⟨⟨_, _, rfl, rfl, by decide⟩, by decide, by decide, by decide, cut?_eq_none_iff.1 rfl⟩
  have hinner : IsShared (.branch .range "$v := .b".toList [.action "$v".toList] none) :=
    ⟨⟨tight_iff.2 (by decide), by decide, cut?_eq_none_iff.1 rfl⟩, ⟨_, hrange⟩, hvariable, trivial⟩
  have houter : IsStatement ".a".toList ∧ IsStatement ".c".toList :=
    ⟨⟨tight_iff.2 (by decide), by decide, cut?_eq_none_iff.1 rfl⟩,
      ⟨tight_iff.2 (by decide), by decide, cut?_eq_none_iff.1 rfl⟩⟩
  exact ⟨hopen, ⟨by decide, houter.1, ⟨_, hcond⟩, ⟨hscript, hinner, trivial⟩, trivial⟩,
    ⟨houter.2, ⟨_, hscope⟩, hcall, trivial⟩, hclose, trivial⟩

/-- The two sources of the program are compiled to the same nodes. -/
theorem frontEnds_agree_sharedParts :
    Part.source .standard [' '] sharedParts =
        ("<p \x7b \x7b\x7b if .a \x7d\x7d\x7b <script> \x7b\x7b range $v := .b \x7d\x7d".toList ++
          "\x7b\x7b $v \x7d\x7d\x7b\x7b end \x7d\x7d\x7b\x7b else \x7d\x7d\x7b\x7b end \x7d\x7d".toList ++
          "\x7b\x7b with .c \x7d\x7d\x7b\x7b template \"t\" . \x7d\x7d\x7b\x7b end \x7d\x7d".toList ++
          "</script> ".toList) ∧
      ∃ nodes nodes', (Outline.parse .standard "page.bham" (String.ofList sharedLines)).1 =
          .ok [(baseName "page.bham", { name := baseName "page.bham", nodes })] ∧
        (Delimited.parse .standard "page"
            (String.ofList (Part.source .standard [' '] sharedParts))).1 =
          .ok [("page", { name := "page", nodes := nodes' })] ∧
        nodes.map (Node.unplaced id) = nodes'.map (Node.unplaced id) :=
  ⟨rfl, frontEnds_agree .standard rfl isSharedAll_sharedParts outlines_sharedParts written_sharedLines
    "page.bham" "page"⟩

end Stencil
