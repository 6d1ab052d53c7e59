import Stencil.Proofs.Delimited.Faults
import Stencil.Proofs.Environment.Registration
import Stencil.Proofs.Outline.Faults

/-!
# Where a source is wrong

A source that cannot be compiled is told with the title of its template and with one of its lines, and
a statement that is told with it comes from that line. One fault has no line: that of an `end` in a
delimited source that ends nothing.

* `FrontEnd.ComesFrom` says that a statement comes from a line of a source.
* `FrontEnd.fault_located` is the statement for both front ends.
-/

namespace Stencil.FrontEnd

/-- A statement comes from this line of a source. -/
def ComesFrom : FrontEnd → Settings → List Char → Nat → List Char → Prop
  | .outline, s => Outline.ComesFrom s
  | .delimited, s => Delimited.ComesFrom s.delimiters

/-- **Every fault of a source has a place.** Whatever front end compiles it, with any settings and under
any name, a fault holds the title of the template and one of the lines of the source, and a statement
that it holds comes from that line. The exception is an `end` in a delimited source that ends nothing:
it is told with the title alone. -/
theorem fault_located {f : FrontEnd} {s : Settings} {name source : String} {fault : Fault}
    (h : (f.parse s name source).1 = .error fault) :
    fault.Located (f.title name) (fun line => 1 ≤ line ∧ line ≤ 1 + Text.lineFeeds source.toList)
        (f.ComesFrom s source.toList) ∨
      f = .delimited ∧ fault = { cause := .strayEnd, template := some name } ∧
        Delimited.HasStrayEnd s.delimiters source.toList := by
  cases f with
  | outline => exact .inl (Outline.parse_located h)
  | delimited =>
    exact (Delimited.parse_located h).imp_right fun ⟨hfault, hstray⟩ => ⟨rfl, hfault, hstray⟩

/-- Where the fault of a computation is: its template, line and statement. -/
def faultPlace? {α : Type} : Except Fault α → Option (Option String × Nat × Option String)
  | .ok _ => none
  | .error f => some (f.template, f.line, f.statement)

theorem exists_fault {α : Type} {outcome : Except Fault α} {template statement : Option String}
    {line : Nat} (h : faultPlace? outcome = some (template, line, statement)) :
    ∃ f, outcome = .error f ∧ f.template = template ∧ f.line = line ∧ f.statement = statement := by
  cases outcome with
  | ok a => cases h
  | error f =>
    obtain ⟨htemplate, hline, hstatement⟩ : f.template = template ∧ f.line = line ∧
      f.statement = statement := by simpa [faultPlace?] using h
    exact ⟨f, rfl, htemplate, hline, hstatement⟩

/-- A source that is an `end` alone has one line, but its fault has none. -/
theorem strayEnd_unlocated : ∃ fault,
    (parse .delimited .standard "p" "\x7b\x7b end \x7d\x7d").1 = .error fault ∧
      fault.template = some "p" ∧ ¬ 1 ≤ fault.line := by
  have hplace : faultPlace? (parse .delimited .standard "p" "\x7b\x7b end \x7d\x7d").1 =
      some (some "p", 0, none) := by decide +kernel
  obtain ⟨fault, hfault, htemplate, hline, -⟩ := exists_fault hplace
  exact ⟨fault, hfault, htemplate, by omega⟩

/-- A constant with an argument, in a statement on the second line. -/
theorem fault_located_constantCalls :
    (∃ fault, (parse .outline .standard "page.bham" "%p\n= 1 2").1 = .error fault ∧
      fault.template = some "page" ∧ fault.line = 2 ∧
      Outline.ComesFrom .standard "%p\n= 1 2".toList 2 "1 2".toList) ∧
    ∃ fault, (parse .delimited .standard "page" "a\n\x7b\x7b 1\n2 \x7d\x7d").1 = .error fault ∧
      fault.template = some "page" ∧ fault.line = 2 ∧
      Delimited.ComesFrom Settings.standard.delimiters "a\n\x7b\x7b 1\n2 \x7d\x7d".toList 2
        "1\n2".toList := by
  constructor
  · have hplace : faultPlace? (parse .outline .standard "page.bham" "%p\n= 1 2").1 =
        some (some "page", 2, some "1 2") := by decide +kernel
    obtain ⟨fault, hfault, htemplate, hline, hstatement⟩ := exists_fault hplace
    rcases fault_located hfault with hlocated | ⟨hdelimited, -⟩
    · exact ⟨fault, hfault, htemplate, hline, hline ▸ hlocated.statement _ hstatement⟩
    · cases hdelimited
  · have hplace : faultPlace? (parse .delimited .standard "page"
        "a\n\x7b\x7b 1\n2 \x7d\x7d").1 = some (some "page", 2, some "1\n2") := by decide +kernel
    obtain ⟨fault, hfault, htemplate, hline, hstatement⟩ := exists_fault hplace
    rcases fault_located hfault with hlocated | ⟨-, rfl, -⟩
    · exact ⟨fault, hfault, htemplate, hline, hline ▸ hlocated.statement _ hstatement⟩
    · cases hline

end Stencil.FrontEnd
