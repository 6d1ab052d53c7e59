import Stencil.Template.Builder

/-!
# The faults of a source

What is wrong with a source is told with the line where it is, and with the statement if it is in one.

* `Ends P Q` says of a computation that its value has `P`, or its fault has `Q`; `Build.Ends` says the
  same of a computation that writes to a builder. The lemmas on both follow the ways in which
  computations are put together.
* `Fault.At W S` says of a fault that its line has `W` and that its statement has `S` at this line.
* `Build.Ends.pipeline`, `Build.Ends.action` and `Build.Ends.interpolated` are what the builder adds:
  what cannot be read is told with the line that it is given.
-/

namespace Stencil

/-! ## Computations that may fail -/

section

variable {α β : Type} {P : α → Prop} {P' : β → Prop} {Q : Fault → Prop}

/-- The value has `P`, or the fault has `Q`. -/
def Ends (P : α → Prop) (Q : Fault → Prop) : Except Fault α → Prop
  | .ok a => P a
  | .error f => Q f

namespace Ends

theorem mono {e : Except Fault α} {P' : α → Prop} {Q' : Fault → Prop} (h : Ends P Q e)
    (hP : ∀ a, P a → P' a) (hQ : ∀ f, Q f → Q' f) : Ends P' Q' e := by
  cases e with
  | ok a => exact hP a h
  | error f => exact hQ f h

theorem bind {e : Except Fault α} {k : α → Except Fault β} (h : Ends P Q e)
    (hk : ∀ a, P a → Ends P' Q (k a)) : Ends P' Q (e >>= k) := by
  cases e with
  | ok a => exact hk a h
  | error f => exact h

/-- Nothing is said of what a computation comes to. -/
theorem any (e : Except Fault α) : Ends (fun _ => True) (fun _ => True) e := by
  cases e <;> trivial

end Ends

namespace Build

/-- From every builder the value has `P`, or the fault has `Q`. -/
def Ends (P : α → Prop) (Q : Fault → Prop) (act : Build α) : Prop :=
  ∀ b, match act b with
    | .ok a _ => P a
    | .error f _ => Q f

/-- Only the fault is of interest. -/
abbrev Fails (Q : Fault → Prop) (act : Build α) : Prop := Ends (fun _ => True) Q act

namespace Ends

theorem pure {a : α} (h : P a) : Ends P Q (Pure.pure a : Build α) := fun _ => h

theorem throw {f : Fault} (h : Q f) : Ends P Q (MonadExcept.throw f : Build α) := fun _ => h

theorem bind {act : Build α} {k : α → Build β} (h : Ends P Q act) (hk : ∀ a, P a → Ends P' Q (k a)) :
    Ends P' Q (act >>= k) := by
  intro b
  have hact := h b
  change match EStateM.bind act k b with
    | .ok a _ => P' a
    | .error f _ => Q f
  unfold EStateM.bind
  cases he : act b with
  | ok a b' =>
    rw [he] at hact
    exact hk a hact b'
  | error f b' =>
    rw [he] at hact
    exact hact

theorem mono {act : Build α} {P' : α → Prop} {Q' : Fault → Prop} (h : Ends P Q act)
    (hP : ∀ a, P a → P' a) (hQ : ∀ f, Q f → Q' f) : Ends P' Q' act := by
  intro b
  have hact := h b
  cases he : act b with
  | ok a b' =>
    rw [he] at hact
    exact hP a hact
  | error f b' =>
    rw [he] at hact
    exact hQ f hact

theorem seq {act : Build α} {k : α → Build β} (h : Fails Q act) (hk : ∀ a, Ends P' Q (k a)) :
    Ends P' Q (act >>= k) := h.bind fun a _ => hk a

/-- Nothing is said of what a computation comes to. -/
theorem any (act : Build α) : Ends (fun _ => True) (fun _ => True) act := by
  intro b
  split <;> trivial

/-- What follows a computation counts only for the values that can arise. -/
theorem bind_congr {act : Build α} {k k' : α → Build β} (h : Ends P Q act)
    (hk : ∀ a, P a → k a = k' a) : act >>= k = act >>= k' := by
  funext b
  have hact := h b
  change EStateM.bind act k b = EStateM.bind act k' b
  unfold EStateM.bind
  cases he : act b with
  | ok a b' =>
    rw [he] at hact
    exact congrFun (hk a hact) b'
  | error f b' => rfl

theorem getState {k : Builder → Build β} (hk : ∀ b, Ends P' Q (k b)) :
    Ends P' Q ((get : Build Builder) >>= k) := fun b => hk b b

theorem modifyState (f : Builder → Builder) : Fails Q (modify f : Build PUnit) := fun _ => trivial

theorem text (s : String) : Fails Q (Build.text s) := modifyState _

theorem space (pad : Bool) : Fails Q (Build.space pad) := by
  cases pad with
  | true => exact text " "
  | false => exact pure trivial

theorem nested {act : Build PUnit} (h : Fails Q act) : Fails Q (Build.nested act) :=
  .getState fun _ => .seq (.modifyState _) fun _ => .seq h fun _ => .getState fun _ =>
    .seq (.modifyState _) fun _ => .pure trivial

end Ends

end Build

end

/-! ## Faults with a line -/

/-- A fault that arises in a source, which has no name yet: its line has `W`, and the statement that it
is in has `S` at this line. -/
structure Fault.At (W : Nat → Prop) (S : Nat → List Char → Prop) (f : Fault) : Prop where
  template : f.template = none
  line : W f.line
  statement : ∀ text, f.statement = some text → S f.line text.toList

/-- A fault of the source of a template: its line has `W`, and the statement that it is in has `S` at
this line. -/
structure Fault.Located (template : String) (W : Nat → Prop) (S : Nat → List Char → Prop) (f : Fault) :
    Prop where
  template : f.template = some template
  line : W f.line
  statement : ∀ text, f.statement = some text → S f.line text.toList

/-- A fault without a template keeps its line, also if it is not known. -/
theorem Fault.atPlace_zero (c : Cause) (line : Nat) (statement : Option String) (template : String) :
    Fault.atPlace ⟨c, none, line, statement⟩ template 0 = ⟨c, some template, line, statement⟩ := by
  unfold Fault.atPlace Fault.atLine
  dsimp only
  split
  · next hline => rw [hline]
  · rfl

namespace Fault.At

variable {W : Nat → Prop} {S : Nat → List Char → Prop} {line : Nat}

theorem mono {W' : Nat → Prop} {f : Fault} (h : f.At W S) (hW : ∀ line, W line → W' line) :
    f.At W' S := ⟨h.template, hW _ h.line, h.statement⟩

/-- A fault that is in no statement. -/
theorem ofLine (hline : W line) (c : Cause) : Fault.At W S { cause := c, line } :=
  ⟨rfl, hline, fun _ h => nomatch h⟩

theorem ofStatement {statement : List Char} (hline : W line) (hstatement : S line statement)
    (c : Cause) : Fault.At W S (inStatement { cause := c } (String.ofList statement) line) := by
  refine ⟨rfl, hline, fun text h => ?_⟩
  obtain rfl := Option.some.inj h
  rw [String.toList_ofList]
  exact hstatement

/-- The name of the template is all that is missing. -/
theorem located {f : Fault} (h : f.At W S) (template : String) :
    (f.atPlace template 0).Located template W S := by
  obtain ⟨cause, template?, line, statement⟩ := f
  obtain rfl : template? = none := h.template
  rw [atPlace_zero]
  exact ⟨rfl, h.line, h.statement⟩

end Fault.At

namespace Build.Ends

variable {W : Nat → Prop} {S : Nat → List Char → Prop} {line : Nat} {statement : List Char}

theorem pipeline (hline : W line) (hstatement : S line statement) :
    Fails (Fault.At W S) (Build.pipeline statement line) := by
  unfold Build.pipeline
  split
  · exact .pure trivial
  · exact .throw (.ofStatement hline hstatement _)

theorem action (hline : W line) (hstatement : S line statement) :
    Fails (Fault.At W S) (Build.action statement line) := by
  refine .getState fun b => ?_
  split
  · exact .modifyState _
  · exact .throw (.ofStatement hline hstatement _)

theorem interpolation (s : Settings) (pad : Bool) (hline : W line) (hstatement : S line statement) :
    Fails (Fault.At W S) (Build.interpolation s pad line statement) := by
  refine .getState fun b => ?_
  split
  · exact .modifyState _
  · dsimp only
    split
    · exact .throw (.ofStatement hline hstatement _)
    · exact .seq (.modifyState _) fun _ => .seq (.text _) fun _ => .space _

theorem interpolations (s : Settings) (pad : Bool) (hline : W line)
    {parts : List (List Char × List Char)} (hparts : ∀ part ∈ parts, S line part.2) :
    Fails (Fault.At W S) (Build.interpolations s pad line parts) := by
  induction parts with
  | nil => exact .pure trivial
  | cons part parts ih =>
    obtain ⟨hpart, hparts⟩ := List.forall_mem_cons.1 hparts
    exact .seq (.text _) fun _ => .seq (interpolation s pad hline hpart) fun _ => ih hparts

/-- **An interpolation that cannot be read is told with the line of its text.** -/
theorem interpolated (s : Settings) {source : List Char} (pad : Bool) (hline : W line)
    (hparts : ∀ part ∈ (Interpolated.scan s.delimiters source).parts, S line part.2) :
    Fails (Fault.At W S) (Build.interpolated s source pad line) := by
  refine .seq (interpolations s pad hline hparts) fun _ => ?_
  split
  · exact .pure trivial
  · exact .seq (.text _) fun _ => .space _

end Build.Ends

end Stencil
