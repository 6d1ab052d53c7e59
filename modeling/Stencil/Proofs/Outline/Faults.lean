import Stencil.Outline.Template
import Stencil.Proofs.Template.Faults

/-!
# The faults of an outline

The lines of an outline keep the numbers of the physical lines at which they start, and so do the nodes
that they are nested to. What is wrong with a line, or with a node when it is written, is told with that
number.

* `Line.classify_spans` says that the lines are made of physical lines and numbered by the first of
  them.
* `Line.Says` is what is read of a line as a statement, and `Tree.Placed` says that a node stands at a
  line and that its statements are said by this line.
* `Tree.placed_ofNests` says so of the nodes of nested lines, and `Tree.fails_emitAll` what such nodes
  are told with. `parse_located` concludes for the source of a template.
-/

namespace Stencil.Outline

/-! ## Physical lines -/

/-- There is at most one line more than there are line feeds. -/
theorem length_linesFrom (s : List Char) : ∀ done,
    (Text.linesFrom done s).length ≤ 1 + Text.lineFeeds s := by
  induction s with
  | nil =>
    intro done
    rw [Text.linesFrom]
    split <;> simp
  | cons c s ih =>
    intro done
    rw [Text.linesFrom]
    split
    · next hc =>
      subst hc
      have := ih []
      simp only [List.length_cons, Text.lineFeeds, List.count_cons_self] at this ⊢
      omega
    · next hc =>
      have := ih (c :: done)
      simpa only [Text.lineFeeds, List.count_cons_of_ne hc] using this

namespace Line

/-- The line that a physical line starts. -/
def start (strict : Bool) (raw : List Char) (number : Nat) : Line :=
  { indent := (indentation strict raw).1, content := (indentation strict raw).2, number }

/-- The line is made of the last of some physical lines: of the one that it is numbered by, and of those
behind it that it goes on with. -/
def Reaches (strict : Bool) (done : List (List Char)) (l : Line) : Prop :=
  ∃ before raw more, done = before ++ raw :: more ∧ l.number = before.length + 1 ∧
    l = more.foldl join (start strict raw l.number)

/-- The line is made of some of the physical lines. -/
def Spans (strict : Bool) (physical : List (List Char)) (l : Line) : Prop :=
  ∃ done rest, physical = done ++ rest ∧ l.Reaches strict done

variable {strict : Bool} {physical done : List (List Char)} {l : Line} {raw : List Char}

theorem Reaches.start (done : List (List Char)) (raw : List Char) :
    (Line.start strict raw (done.length + 1)).Reaches strict (done ++ [raw]) :=
  ⟨done, raw, [], rfl, rfl, rfl⟩

theorem Reaches.join (h : l.Reaches strict done) (raw : List Char) :
    (l.join raw).Reaches strict (done ++ [raw]) := by
  obtain ⟨before, first, more, rfl, hnumber, hl⟩ := h
  refine ⟨before, first, more ++ [raw], by simp, hnumber, ?_⟩
  rw [List.foldl_append]
  exact congrArg (Line.join · raw) hl

/-- The line has the number of one of the physical lines. -/
theorem Reaches.number (h : l.Reaches strict done) : 1 ≤ l.number ∧ l.number ≤ done.length := by
  obtain ⟨before, first, more, rfl, hnumber, -⟩ := h
  simp only [List.length_append, List.length_cons]
  omega

theorem Spans.number (h : l.Spans strict physical) : 1 ≤ l.number ∧ l.number ≤ physical.length := by
  obtain ⟨done, rest, rfl, hl⟩ := h
  have := hl.number
  rw [List.length_append]
  omega

/-- What a physical line makes of the line before it is made of the physical lines up to it. -/
theorem next?_reaches {S : Nat → List Char → Prop} (level : Nat) {current : Option Line}
    (hcurrent : ∀ l, current = some l → l.Reaches strict done) (raw : List Char) :
    Ends (fun next => ∀ l, next = some l → l.Reaches strict (done ++ [raw]))
      (Fault.At (fun line => 1 ≤ line ∧ line ≤ done.length + 1) S)
      (next? strict level current raw (done.length + 1)) := by
  unfold next?
  cases current with
  | some l =>
    intro l' hl'
    obtain rfl := Option.some.inj hl'
    exact (hcurrent l rfl).join raw
  | none =>
    dsimp only
    split
    · exact fun l hl => nomatch hl
    · split
      · exact .ofLine ⟨Nat.succ_pos _, Nat.le_refl _⟩ _
      · intro l hl
        obtain rfl := Option.some.inj hl
        exact .start done raw

theorem ofPhysical_spans {S : Nat → List Char → Prop} : ∀ (rest done : List (List Char)) (level : Nat)
    (current : Option Line), (∀ l, current = some l → l.Reaches strict done) →
    Ends (fun ls => ∀ l ∈ ls, l.Spans strict (done ++ rest))
      (Fault.At (fun line => 1 ≤ line ∧ line ≤ (done ++ rest).length) S)
      (ofPhysical strict level current (rest.zipIdx (done.length + 1))) := by
  intro rest
  induction rest with
  | nil =>
    intro done level current hcurrent
    cases current with
    | none => exact fun l hl => nomatch hl
    | some l =>
      have hl := (hcurrent l rfl).number
      exact .ofLine (by simpa using hl) _
  | cons raw rest ih =>
    intro done level current hcurrent
    have happend : done ++ raw :: rest = done ++ [raw] ++ rest := by simp
    have hlength : done.length + 1 + 1 = (done ++ [raw]).length + 1 := by simp
    have hline : ∀ line, 1 ≤ line ∧ line ≤ done.length + 1 →
        1 ≤ line ∧ line ≤ (done ++ [raw] ++ rest).length := fun line hline => by
      simp only [List.length_append, List.length_singleton]
      omega
    have hnext := (next?_reaches (S := S) level hcurrent raw).mono (fun _ h => h) fun f hf =>
      hf.mono hline
    rw [List.zipIdx_cons, ofPhysical, hlength, happend]
    refine hnext.bind fun next hnext => ?_
    cases next with
    | none => exact ih (done ++ [raw]) level none fun l hl => nomatch hl
    | some l =>
      dsimp only
      split
      · exact ih (done ++ [raw]) level (some l) hnext
      · refine (ih (done ++ [raw]) l.indent none fun l hl => nomatch hl).bind fun ls hls => ?_
        exact List.forall_mem_cons.2 ⟨⟨done ++ [raw], rest, rfl, hnext l rfl⟩, hls⟩

/-- **The lines of a source are made of its physical lines**, and where they cannot be told apart the
line is one of the source. -/
theorem classify_spans (S : Nat → List Char → Prop) (strict : Bool) (source : List Char) :
    Ends (fun ls => ∀ l ∈ ls, l.Spans strict (Text.lines source))
      (Fault.At (fun line => 1 ≤ line ∧ line ≤ 1 + Text.lineFeeds source) S)
      (classify strict source) := by
  have hlength := length_linesFrom source []
  refine (ofPhysical_spans (S := S) (Text.lines source) [] 0 none fun l hl => nomatch hl).mono
    (fun ls hls => hls) fun f hf => hf.mono fun line hline => ⟨hline.1, Nat.le_trans hline.2 hlength⟩

end Line

/-! ## The statements of a line -/

/-- A statement stands in a text between delimiters. -/
def Interpolates (s : Settings) (text statement : List Char) : Prop :=
  ∃ before, (before, statement) ∈ (Interpolated.scan s.delimiters text).parts

/-- A tag line has a statement: an inline one behind the tag, or one between delimiters in the text or
in what is written for the tag. -/
def Tag.Says (s : Settings) (content statement : List Char) : Prop :=
  ∃ tag trailing, Tag.parse s.delimiters content = .ok (tag, trailing) ∧
    (inlineStatement? trailing = some statement ∨
      ∃ text ∈ [tag.opening s.idSeparator, trailing, tag.closing], Interpolates s text statement)

/-- A line has a statement; the lines below it are part of it if it is a filter. -/
inductive Line.Says (s : Settings) (l : Line) (below : List Line) : List Char → Prop where
  /-- The line is the statement. -/
  | statement : l.isActionable = true → Line.Says s l below l.statement
  /-- The subject of a statement with a body. -/
  | subject {k : Keyword} {subject : List Char} : l.isActionable = true →
    Keyword.parse? l.statement = some (k, subject) → Line.Says s l below subject
  /-- The subject of the statement that an `else` clause goes on with. -/
  | clause {clause : List Char} {k : Keyword} {subject : List Char} : l.isActionable = true →
    Outline.elseClause? l.statement = some clause → Keyword.chained? clause = some (k, subject) →
    Line.Says s l below subject
  | tag {statement : List Char} : l.isTag = true → Tag.Says s l.content statement →
    Line.Says s l below statement
  | text {statement : List Char} : l.isTag = false → l.isActionable = false →
    Interpolates s l.content statement → Line.Says s l below statement
  /-- A statement between delimiters in what a filter makes of its body. -/
  | filter {trigger : List Char} {f : Filter} {statement : List Char} :
    Text.after? [':'] l.content = some trigger →
    s.filter? (String.ofList (Text.trim trigger)) = some f →
    Interpolates s (f.apply (String.ofList (filterBody l.indent below))).toList statement →
    Line.Says s l below statement

/-! ## Nested lines -/

namespace Nest

mutual

/-- Every line of a tree has `R`, together with the lines below it. -/
def Each (R : Line → List Line → Prop) : Nest → Prop
  | .mk l nested => R l (linesOf nested) ∧ EachOf R nested

/-- Every line of some trees has `R`, together with the lines below it. -/
def EachOf (R : Line → List Line → Prop) : List Nest → Prop
  | [] => True
  | n :: ns => Each R n ∧ EachOf R ns

end

mutual

/-- A line stands in front of the lines below it. -/
theorem each_infix (before after : List Line) : ∀ n : Nest,
    Each (fun l below => l :: below <:+: before ++ lines n ++ after) n
  | .mk l nested => by
    rw [Each, lines]
    refine ⟨⟨before, after, rfl⟩, ?_⟩
    have hnested := eachOf_infix (before ++ [l]) after nested
    simpa using hnested

theorem eachOf_infix (before after : List Line) : ∀ ns : List Nest,
    EachOf (fun l below => l :: below <:+: before ++ linesOf ns ++ after) ns
  | [] => trivial
  | n :: ns => by
    rw [EachOf, linesOf]
    constructor
    · simpa using each_infix before (linesOf ns ++ after) n
    · simpa using eachOf_infix (before ++ lines n) after ns

end

variable {R R' : Line → List Line → Prop}

mutual

theorem Each.mono (h : ∀ l below, R l below → R' l below) : ∀ {n : Nest}, n.Each R → n.Each R'
  | .mk _ _, ⟨hl, hnested⟩ => ⟨h _ _ hl, EachOf.mono h hnested⟩

theorem EachOf.mono (h : ∀ l below, R l below → R' l below) : ∀ {ns : List Nest},
    EachOf R ns → EachOf R' ns
  | [], _ => trivial
  | _ :: _, ⟨hn, hns⟩ => ⟨Each.mono h hn, EachOf.mono h hns⟩

end

theorem Each.line {n : Nest} (h : n.Each R) : R n.line (linesOf n.nested) := by
  cases n with
  | mk l nested => exact h.1

end Nest

/-! ## The nodes of an outline -/

section

variable (s : Settings) (W : Nat → Prop) (S : Nat → List Char → Prop)

mutual

/-- The lines of a node have `W`, and the statements that are read in it have `S` at their line. -/
def Tree.Placed : Tree → Prop
  | .raw _ _ => True
  | .text place content =>
    W place.line ∧ ∀ said, Interpolates s content said → S place.line said
  | .statement place said => W place.line ∧ S place.line said
  | .leaf place tag => W place.line ∧ ∀ said, Tag.Says s tag said → S place.line said
  | .opening place tag =>
    W place.line ∧ ∀ said, Tag.Says s tag said → S place.line said
  | .closing place tag =>
    W place.line ∧ ∀ said, Tag.Says s tag said → S place.line said
  | .cond place _ subject body otherwise =>
    (W place.line ∧ S place.line subject) ∧ PlacedAll body ∧ PlacedAll otherwise
  | .range place subject body otherwise =>
    (W place.line ∧ S place.line subject) ∧ PlacedAll body ∧ PlacedAll otherwise
  | .scope place subject body => (W place.line ∧ S place.line subject) ∧ PlacedAll body
  | .filter place handler body =>
    W place.line ∧ ∀ said,
      Interpolates s (handler.apply (String.ofList body)).toList said → S place.line said

/-- The lines and statements of some nodes. -/
def Tree.PlacedAll : List Tree → Prop
  | [] => True
  | t :: ts => Tree.Placed t ∧ Tree.PlacedAll ts

end

end

variable {s : Settings} {W : Nat → Prop} {S : Nat → List Char → Prop}

theorem Tree.PlacedAll.append {ts us : List Tree} (ht : PlacedAll s W S ts)
    (hu : PlacedAll s W S us) : PlacedAll s W S (ts ++ us) := by
  induction ts with
  | nil => exact hu
  | cons t ts ih => exact ⟨ht.1, ih ht.2⟩

theorem Keyword.placed_tree (k : Keyword) {place : Place} {subject : List Char}
    {body otherwise : List Tree} (hline : W place.line) (hsubject : S place.line subject)
    (hbody : Tree.PlacedAll s W S body) (hother : Tree.PlacedAll s W S otherwise) :
    Tree.Placed s W S (k.tree place subject body otherwise) := by
  cases k with
  | scope => exact ⟨⟨hline, hsubject⟩, hbody⟩
  | _ => exact ⟨⟨hline, hsubject⟩, hbody, hother⟩

/-- The line has `W`, and its statements have `S` at it. -/
def Line.Placed (s : Settings) (W : Nat → Prop) (S : Nat → List Char → Prop) (l : Line)
    (below : List Line) : Prop :=
  W l.number ∧ ∀ statement, l.Says s below statement → S l.number statement

theorem Line.placed_lineTree {l : Line} {below : List Line} (h : l.Placed s W S below)
    (htag : l.isTag = false) : Ends (Tree.Placed s W S) (Fault.At W S) (lineTree s l below) := by
  obtain ⟨hline, hsaid⟩ := h
  unfold lineTree
  split
  · next hactionable => exact ⟨hline, hsaid _ (.statement hactionable)⟩
  · next hactionable =>
    split
    · next trigger htrigger =>
      split
      · next f hf => exact ⟨hline, fun statement h => hsaid _ (.filter htrigger hf h)⟩
      · exact .ofLine hline _
    · split
      · exact trivial
      · exact .ofLine hline _
    · exact ⟨hline, fun statement h => hsaid _ (.text htag (Bool.eq_false_iff.2 hactionable) h)⟩

mutual

theorem Tree.placed_contents : ∀ n : Nest, n.Each (Line.Placed s W S) →
    Ends (PlacedAll s W S) (Fault.At W S) (contents s n)
  | .mk _ nested, h => by
    rw [contents]
    exact placed_ofNests nested h.2

/-- **The nodes of nested lines stand at the numbers of the lines.** -/
theorem Tree.placed_ofNests : ∀ ns : List Nest, Nest.EachOf (Line.Placed s W S) ns →
    Ends (PlacedAll s W S) (Fault.At W S) (ofNests s ns)
  | [], _ => by
    rw [ofNests]
    exact trivial
  | n :: ns, h => by
    obtain ⟨hn, hns⟩ := h
    obtain ⟨hline, hsaid⟩ := hn.line
    have hcontents := placed_contents n hn
    have hrest := placed_ofNests ns hns
    rw [ofNests]
    dsimp only
    split
    · next htag =>
      have htags : ∀ statement, Tag.Says s n.line.content statement → S n.line.number statement :=
        fun statement h => hsaid _ (.tag htag h)
      refine hcontents.bind fun inner hinner => hrest.bind fun rest hrest => ?_
      split
      · exact ⟨⟨hline, htags⟩, hrest⟩
      · exact ⟨⟨hline, htags⟩, hinner.append ⟨⟨hline, htags⟩, hrest⟩⟩
    · next htag =>
      split
      · exact .ofLine hline _
      · split
        · next k subject hkeyword =>
          have hsubject : S n.line.number subject := by
            unfold Line.keyword? at hkeyword
            split at hkeyword
            · next hactionable => exact hsaid _ (.subject hactionable hkeyword)
            · cases hkeyword
          refine hcontents.bind fun body hbody => ?_
          refine (placed_otherwise ns k n.line.indent hns).bind fun found hfound => ?_
          cases found with
          | some parts =>
            obtain ⟨hother, hrest⟩ := hfound parts rfl
            exact show PlacedAll s W S (_ :: _) from ⟨k.placed_tree hline hsubject hbody hother, hrest⟩
          | none =>
            refine hrest.bind fun rest hrest => ?_
            exact show PlacedAll s W S (_ :: _) from
              ⟨k.placed_tree hline hsubject hbody trivial, hrest⟩
        · refine (Line.placed_lineTree hn.line (Bool.eq_false_iff.2 htag)).bind fun t ht => ?_
          have hbehind : ∀ inner, PlacedAll s W S inner → Ends (PlacedAll s W S) (Fault.At W S) (do
              let rest ← ofNests s ns
              return t :: inner ++ rest) := fun inner hinner =>
            hrest.bind fun rest hrest => show PlacedAll s W S (t :: inner ++ rest) from
              ⟨ht, hinner.append hrest⟩
          split
          · exact hbehind [] trivial
          · exact hcontents.bind hbehind

theorem Tree.placed_otherwise : ∀ (ns : List Nest) (k : Keyword) (level : Nat),
    Nest.EachOf (Line.Placed s W S) ns →
    Ends (fun found => ∀ parts, found = some parts → PlacedAll s W S parts.1 ∧ PlacedAll s W S parts.2)
      (Fault.At W S) (otherwise? s k level ns)
  | [], _, _, _ => by
    rw [otherwise?]
    exact fun _ h => nomatch h
  | n :: ns, k, level, h => by
    obtain ⟨hn, hns⟩ := h
    obtain ⟨hline, hsaid⟩ := hn.line
    have hcontents := placed_contents n hn
    have hrest := placed_ofNests ns hns
    rw [otherwise?]
    split
    · exact fun _ h => nomatch h
    · next clause hclause =>
      split
      · refine hcontents.bind fun body hbody => hrest.bind fun rest hrest => ?_
        rintro parts ⟨⟩
        exact ⟨hbody, hrest⟩
      · split
        · exact .ofLine hline _
        · next k' subject hchained =>
          have hsubject : S n.line.number subject := by
            split at hclause
            · unfold Line.elseClause? at hclause
              split at hclause
              · next hactionable =>
                rw [Bool.and_eq_true] at hactionable
                exact hsaid _ (.clause hactionable.2 hclause hchained)
              · cases hclause
            · cases hclause
          refine hcontents.bind fun body hbody => ?_
          refine (placed_otherwise ns k' n.line.indent hns).bind fun found hfound => ?_
          cases found with
          | some parts =>
            obtain ⟨hother, hrest⟩ := hfound parts rfl
            rintro parts ⟨⟩
            exact ⟨⟨k'.placed_tree hline hsubject hbody hother, trivial⟩, hrest⟩
          | none =>
            refine hrest.bind fun rest hrest => ?_
            rintro parts ⟨⟩
            exact ⟨⟨k'.placed_tree hline hsubject hbody trivial, trivial⟩, hrest⟩

end

/-! ## Writing nodes -/

section

variable {line : Nat} {content trailing : List Char} {tag : Tag}

theorem ends_atLine {α : Type} (hline : W line) (o : Outcome α) :
    Build.Ends (fun a => o = .ok a) (Fault.At W S) (atLine line o) := by
  cases o with
  | ok a => exact .pure rfl
  | error c => exact .throw (.ofLine hline c)

theorem fails_interpolated (hline : W line) (pad : Bool) {text : List Char}
    (hsaid : ∀ statement, Interpolates s text statement → S line statement) :
    Build.Fails (Fault.At W S) (Build.interpolated s text pad line) :=
  .interpolated s pad hline fun part hpart => hsaid part.2 ⟨part.1, hpart⟩

theorem fails_emitOpening (hline : W line) (pad : Bool)
    (hsaid : ∀ statement, Interpolates s (tag.opening s.idSeparator) statement → S line statement) :
    Build.Fails (Fault.At W S) (emitOpening s tag pad line) := by
  unfold emitOpening
  dsimp only
  split
  · exact fails_interpolated hline pad hsaid
  · exact .seq (.text _) fun _ => .space pad

theorem fails_emitTrailing (hline : W line)
    (hinline : ∀ statement, inlineStatement? trailing = some statement → S line statement)
    (hsaid : ∀ statement, Interpolates s trailing statement → S line statement) :
    Build.Fails (Fault.At W S) (emitTrailing s trailing line) := by
  unfold emitTrailing
  split
  · next statement hstatement => exact .action hline (hinline statement hstatement)
  · exact fails_interpolated hline true hsaid

/-- The statements of a tag line are read in its parts. -/
theorem fails_tag (hline : W line) (hsaid : ∀ said, Tag.Says s content said → S line said)
    {k : Tag × List Char → Build PUnit}
    (hk : ∀ tag trailing, (∀ pad, Build.Fails (Fault.At W S) (emitOpening s tag pad line)) →
      Build.Fails (Fault.At W S) (emitTrailing s trailing line) →
      (∀ pad, Build.Fails (Fault.At W S) (Build.interpolated s tag.closing pad line)) →
      Build.Fails (Fault.At W S) (k (tag, trailing))) :
    Build.Fails (Fault.At W S) (atLine line (Tag.parse s.delimiters content) >>= k) := by
  refine (ends_atLine hline _).bind fun parsed hparsed => ?_
  obtain ⟨tag, trailing⟩ := parsed
  have hpart : ∀ text ∈ [tag.opening s.idSeparator, trailing, tag.closing], ∀ statement,
      Interpolates s text statement → S line statement := fun text htext statement h =>
    hsaid statement ⟨tag, trailing, hparsed, .inr ⟨text, htext, h⟩⟩
  refine hk tag trailing (fun pad => ?_) ?_ fun pad => ?_
  · exact fails_emitOpening hline pad (hpart _ (by simp))
  · exact fails_emitTrailing hline
      (fun statement h => hsaid statement ⟨tag, trailing, hparsed, .inl h⟩) (hpart _ (by simp))
  · exact fails_interpolated hline pad (hpart _ (by simp))

end

mutual

theorem Tree.fails_emit : ∀ t : Tree, t.Placed s W S → Build.Fails (Fault.At W S) (t.emit s)
  | .raw _ literal, _ => by
    rw [emit]
    exact .text literal
  | .text place content, ⟨hline, hsaid⟩ => by
    rw [emit]
    exact fails_interpolated hline true hsaid
  | .statement place said, ⟨hline, hsaid⟩ => by
    rw [emit]
    exact .action hline hsaid
  | .leaf place tag, ⟨hline, hsaid⟩ => by
    rw [emit]
    refine fails_tag hline hsaid fun tag trailing hopening htrailing hclosing => ?_
    dsimp only
    split
    · exact .seq (hopening false) fun _ => .text _
    · exact .seq (hopening true) fun _ => .seq htrailing fun _ => hclosing true
  | .opening place tag, ⟨hline, hsaid⟩ => by
    rw [emit]
    refine fails_tag hline hsaid fun tag trailing hopening htrailing _ => ?_
    refine .seq (hopening false) fun _ => ?_
    split
    · exact .pure trivial
    · exact htrailing
  | .closing place tag, ⟨hline, hsaid⟩ => by
    rw [emit]
    exact fails_tag hline hsaid fun tag trailing _ _ _ => .text _
  | .cond place negated subject body otherwise, ⟨⟨hline, hsubject⟩, hbody, hother⟩ => by
    rw [emit]
    exact .seq (.pipeline hline hsubject) fun _ => .seq (.nested (fails_emitAll body hbody)) fun _ =>
      .seq (.nested (fails_emitAll otherwise hother)) fun _ => .modifyState _
  | .range place subject body otherwise, ⟨⟨hline, hsubject⟩, hbody, hother⟩ => by
    rw [emit]
    exact .seq (.pipeline hline hsubject) fun _ => .seq (.nested (fails_emitAll body hbody)) fun _ =>
      .seq (.nested (fails_emitAll otherwise hother)) fun _ => .modifyState _
  | .scope place subject body, ⟨⟨hline, hsubject⟩, hbody⟩ => by
    rw [emit]
    exact .seq (.pipeline hline hsubject) fun _ => .seq (.nested (fails_emitAll body hbody)) fun _ =>
      .modifyState _
  | .filter place handler body, ⟨hline, hsaid⟩ => by
    rw [emit]
    exact fails_interpolated hline false hsaid

/-- **Nodes that stand at the numbers of lines are told with these numbers.** -/
theorem Tree.fails_emitAll : ∀ ts : List Tree, PlacedAll s W S ts →
    Build.Fails (Fault.At W S) (emitAll s ts)
  | [], _ => by
    rw [emitAll]
    exact .pure trivial
  | t :: ts, ⟨ht, hts⟩ => by
    rw [emitAll]
    exact .seq (fails_emit t ht) fun _ => fails_emitAll ts hts

end

/-! ## Sources -/

/-- A statement comes from the line of a source at this number. -/
def ComesFrom (s : Settings) (source : List Char) (line : Nat) (statement : List Char) : Prop :=
  ∃ ls l below, Line.classify s.strictIndentation source = .ok ls ∧ (l :: below) <:+: ls ∧
    l.number = line ∧ l.Spans s.strictIndentation (Text.lines source) ∧ l.Says s below statement

/-- **What is wrong with an outline is told with a line of the source**, and with the line from which
the statement comes. -/
theorem fails_compile (s : Settings) (source : List Char) :
    Build.Fails (Fault.At (fun line => 1 ≤ line ∧ line ≤ 1 + Text.lineFeeds source)
      (ComesFrom s source)) (compile s source) := by
  have hspans := Line.classify_spans (ComesFrom s source) s.strictIndentation source
  unfold compile
  cases hclassify : Line.classify s.strictIndentation source with
  | error f =>
    rw [hclassify] at hspans
    exact fun _ => hspans
  | ok ls =>
    rw [hclassify] at hspans
    have hlines : Nest.EachOf (Line.Placed s
        (fun line => 1 ≤ line ∧ line ≤ 1 + Text.lineFeeds source) (ComesFrom s source))
        (Nest.ofLines ls) := by
      have hinfix := Nest.eachOf_infix [] [] (Nest.ofLines ls)
      rw [List.nil_append, List.append_nil, Nest.linesOf_ofLines] at hinfix
      refine hinfix.mono fun l below hbelow => ?_
      have hl : l.Spans s.strictIndentation (Text.lines source) :=
        hspans l (hbelow.subset List.mem_cons_self)
      have hlength := length_linesFrom source []
      exact ⟨⟨hl.number.1, Nat.le_trans hl.number.2 hlength⟩, fun statement h =>
        ⟨ls, l, below, hclassify, hbelow, rfl, hl, h⟩⟩
    have hplaced := Tree.placed_ofNests _ hlines
    change Build.Fails _ (ofExcept (analyze s ls) >>= Tree.emitAll s)
    unfold analyze
    cases htrees : Tree.ofNests s (Nest.ofLines ls) with
    | error f =>
      rw [htrees] at hplaced
      exact fun _ => hplaced
    | ok ts =>
      rw [htrees] at hplaced
      exact Tree.fails_emitAll ts hplaced

theorem parse_located {s : Settings} {name source : String} {f : Fault}
    (h : (parse s name source).1 = .error f) :
    f.Located (baseName name) (fun line => 1 ≤ line ∧ line ≤ 1 + Text.lineFeeds source.toList)
      (ComesFrom s source.toList) := by
  have hcompile := fails_compile s source.toList {}
  unfold parse EStateM.run at h
  cases he : compile s source.toList {} with
  | ok a b =>
    rw [he] at h
    cases h
  | error f' b =>
    rw [he] at h hcompile
    cases h
    exact hcompile.located (baseName name)

end Stencil.Outline
