import Mathlib
import Stencil.Proofs.Delimited.Chain
import Stencil.Proofs.Outline.Chain

/-!
# Chains of branches

Both front ends have a way to go on with another branch behind an `else` in one line. It saves an `end`
or a level, and nothing else.

* `else_chain_nests` says so of chains of any length.
-/

namespace Stencil

/-- **A chain of branches is nested branches.** A delimited source with an `else if` for every link and
one `end` is compiled to the same nodes as the one with an `else`, an `if` and an `end` for every link;
and an outline with an `else if` line for every link is compiled to the same nodes, up to lines, as the
one with an `else` line for every link and the branch below it. Or else both sources are refused. -/
theorem else_chain_nests (s : Settings) (name : String) :
    (s.delimiters = .standard → ∀ c : Delimited.Chain,
      SameTemplates (Delimited.parse s name (String.ofList c.flatSource)).1
        (Delimited.parse s name (String.ofList c.deepSource)).1) ∧
      ∀ (c : Outline.Chain) (flat deep : List Char),
        Outline.HasRows s.strictIndentation flat c.flatRows →
        Outline.HasRows s.strictIndentation deep c.deepRows →
          SameTemplates (Outline.parse s name (String.ofList flat)).1
            (Outline.parse s name (String.ofList deep)).1 :=
  ⟨fun hs c => c.sameTemplates hs name, fun c _ _ h h' => c.sameTemplates h h' name⟩

/-! ## A chain -/

/-- A text is a body. -/
theorem Delimited.isBody_text {source : List Char}
    (h : Text.cut? Delimiters.standard.opening source = none) : Delimited.IsBody source := by
  intro line
  rw [Delimited.Segment.scan_last h]
  cases source <;> rfl

/-- A delimited chain with two links and an `else`. -/
def delimitedChain : Delimited.Chain where
  first := ⟨.cond, ".a".toList, Text.tight_iff.2 (by decide), rfl, "A".toList, Delimited.isBody_text rfl⟩
  links := [
    ⟨.cond, ".b".toList, Text.tight_iff.2 (by decide), rfl, "B".toList, Delimited.isBody_text rfl⟩,
    ⟨.cond, ".c".toList, Text.tight_iff.2 (by decide), rfl, "C".toList, Delimited.isBody_text rfl⟩]
  chained := by decide
  otherwise := some ⟨"D".toList, Delimited.isBody_text rfl⟩

/-- A chain of an outline, with a link of each kind and an `else`. -/
def outlineChain : Outline.Chain where
  sign := '='
  isSign := .inl rfl
  first := ⟨.cond, rfl, ".a".toList, Text.tight_iff.2 (by decide), [(0, "A".toList)]⟩
  links := [
    ⟨.condNot, rfl, ".b".toList, Text.tight_iff.2 (by decide), [(0, "B".toList)]⟩,
    ⟨.range, rfl, ".c".toList, Text.tight_iff.2 (by decide), [(0, "%p".toList), (1, "= .".toList)]⟩]
  otherwise := some [(0, "D".toList)]

/-- The outline of the chain with `else` statements. -/
def flatOutline : List Char :=
  "= if .a\n\tA\n= else unless .b\n\tB\n= else range .c\n\t%p\n\t\t= .\n= else\n\tD".toList

/-- The outline of the chain with branches below `else` lines. -/
def deepOutline : List Char :=
  ("= if .a\n\tA\n= else\n\t= unless .b\n\t\tB\n\t= else\n\t\t= range .c\n".toList ++
    "\t\t\t%p\n\t\t\t\t= .\n\t\t= else\n\t\t\tD".toList)

theorem parse_delimitedChain :
    (Delimited.parse .standard "page" (String.ofList delimitedChain.flatSource)).1 =
      .ok [("page", { name := "page", nodes := [
        .cond 1 false { commands := [[.field ["a"]]] } [.text "A"] [
          .cond 1 false { commands := [[.field ["b"]]] } [.text "B"] [
            .cond 1 false { commands := [[.field ["c"]]] } [.text "C"] [.text "D"]]]] })] := by
  cbv

theorem parse_flatOutline :
    (Outline.parse .standard "page.bham" (String.ofList flatOutline)).1 =
      .ok [("page", { name := "page", nodes := [
        .cond 1 false { commands := [[.field ["a"]]] } [.text "A "] [
          .cond 3 true { commands := [[.field ["b"]]] } [.text "B "] [
            .range 5 { commands := [[.field ["c"]]] }
              [.text "<p>", .action 7 .body { commands := [[.dot]] }, .text "</p>"]
              [.text "D "]]]] })] := by
  cbv

/-- The chains are compiled, and to the same in either way. -/
theorem else_chain_nests_links :
    delimitedChain.flatSource =
        ("\x7b\x7b if .a \x7d\x7dA\x7b\x7b else if .b \x7d\x7dB\x7b\x7b else if .c \x7d\x7dC".toList ++
          "\x7b\x7b else \x7d\x7dD\x7b\x7b end \x7d\x7d".toList) ∧
      (Delimited.parse .standard "page" (String.ofList delimitedChain.flatSource)).1.isOk = true ∧
      SameTemplates (Delimited.parse .standard "page" (String.ofList delimitedChain.flatSource)).1
        (Delimited.parse .standard "page" (String.ofList delimitedChain.deepSource)).1 ∧
      (Outline.parse .standard "page.bham" (String.ofList flatOutline)).1.isOk = true ∧
      SameTemplates (Outline.parse .standard "page.bham" (String.ofList flatOutline)).1
        (Outline.parse .standard "page.bham" (String.ofList deepOutline)).1 :=
  ⟨rfl, congrArg Except.isOk parse_delimitedChain,
    (else_chain_nests .standard "page").1 rfl delimitedChain,
    congrArg Except.isOk parse_flatOutline,
    (else_chain_nests .standard "page.bham").2 outlineChain flatOutline deepOutline
      (Outline.hasRows_of_classify rfl rfl) (Outline.hasRows_of_classify rfl rfl)⟩

end Stencil
