import Stencil.Proofs.Html.Marker
import Stencil.Template.Builder

/-!
# Text in pieces

A builder merges literal text that is written in pieces, and follows the context over each piece by
itself. The context that it has and the context of the merged text are the same unless a tag is torn
between two pieces.

* `Piece.apart` and `Piece.joined` are the markers found in pieces that are read one by one, and in
  pieces that are read as one text up to the next node. `Piece.joined_eq_apart_iff` says when these are
  the same markers on the same characters.
* `Builder.Writes` says which pieces lead from one builder to another, and `Call.pieces` which pieces
  the calls of a front end write.
* `Builder.context_eq_read_iff` compares the context of a builder with its nodes.
-/

namespace Stencil

/-! ## Pieces -/

/-- What is written at once: literal text, or some other node. -/
inductive Piece where
  | text (s : List Char)
  | node

namespace Piece

/-- The literal text before the next node. -/
def ahead : List Piece → List Char
  | [] => []
  | .text s :: ps => s ++ ahead ps
  | .node :: _ => []

/-- The markers found in the texts, each read by itself. -/
def apart : List Piece → List (Option Marker)
  | [] => []
  | .text s :: ps => Marker.found s [] ++ apart ps
  | .node :: ps => apart ps

/-- The markers found in the texts, those without a node between them read as one. -/
def joined : List Piece → List (Option Marker)
  | [] => []
  | .text s :: ps => Marker.found s (ahead ps) ++ joined ps
  | .node :: ps => joined ps

/-- A tag is torn between a text and the literal text behind it. -/
def Tears : List Piece → Prop
  | [] => False
  | .text s :: ps => Marker.Torn s (ahead ps) ∨ Tears ps
  | .node :: ps => Tears ps

/-- **Pieces hold the same markers apart and joined exactly if no tag is torn between them.** -/
theorem joined_eq_apart_iff (ps : List Piece) : joined ps = apart ps ↔ ¬ Tears ps := by
  induction ps with
  | nil => exact iff_of_true rfl id
  | cons p ps ih =>
    cases p with
    | node => exact ih
    | text s =>
      have hlength : (Marker.found s (ahead ps)).length = (Marker.found s []).length := by
        rw [Marker.length_found, Marker.length_found]
      rw [joined, apart, Tears, not_or, ← ih, ← Marker.found_eq_iff]
      constructor
      · exact fun h => List.append_inj h hlength
      · rintro ⟨hfound, hps⟩
        rw [hfound, hps]

theorem joined_text_text (s t : List Char) (ps : List Piece) :
    joined (.text s :: .text t :: ps) = joined (.text (s ++ t) :: ps) := by
  simp only [joined, ahead, Marker.found_append, List.append_assoc]

end Piece

/-! ## Nodes -/

/-- The context after the literal texts of some nodes, each read as a whole. -/
def HtmlContext.read (c : HtmlContext) (ns : List Node) : HtmlContext :=
  ns.foldl (fun c n => match n with
    | .text s => c.feed s.toList
    | _ => c) c

theorem HtmlContext.read_append (c : HtmlContext) (ns ms : List Node) :
    c.read (ns ++ ms) = (c.read ns).read ms :=
  List.foldl_append

/-- A node that is no text leaves the context alone. -/
theorem HtmlContext.read_single {n : Node} (hn : ∀ s, n ≠ .text s) (c : HtmlContext) :
    c.read [n] = c := by
  cases n with
  | text s => exact absurd rfl (hn s)
  | _ => rfl

namespace Builder

/-! ## What a builder writes -/

/-- The literal text at the end, which more text is merged with. -/
def openText (b : Builder) : List Char :=
  match b.emitted with
  | .text t :: _ => t.toList
  | _ => []

/-- The nodes before the text at the end. -/
def closed (b : Builder) : List Node :=
  match b.emitted with
  | .text _ :: ns => ns.reverse
  | ns => ns.reverse

theorem read_nodes (b : Builder) :
    HtmlContext.body.read b.nodes = (HtmlContext.body.read b.closed).feed b.openText := by
  unfold nodes closed openText
  split
  · next t ns h => rw [h, List.reverse_cons, HtmlContext.read_append]; rfl
  · rfl

/-- Text that is written extends the text at the end. -/
theorem closed_text (b : Builder) (s : String) :
    (b.text s).closed = b.closed ∧ (b.text s).openText = b.openText ++ s.toList := by
  unfold text
  split
  · next h => simp [h]
  · rcases b with ⟨context, emitted, events⟩
    match emitted with
    | [] => exact ⟨rfl, rfl⟩
    | .text t :: ns => exact ⟨rfl, String.toList_append⟩
    | .action .. :: _ => exact ⟨by simp [closed], rfl⟩
    | .cond .. :: _ => exact ⟨by simp [closed], rfl⟩
    | .range .. :: _ => exact ⟨by simp [closed], rfl⟩
    | .scope .. :: _ => exact ⟨by simp [closed], rfl⟩
    | .template .. :: _ => exact ⟨by simp [closed], rfl⟩

/-- A node that is no text closes the text at the end. -/
theorem closed_push (b : Builder) {n : Node} (hn : ∀ s, n ≠ .text s) :
    (b.push n).closed = b.nodes ++ [n] ∧ (b.push n).openText = [] := by
  cases n with
  | text s => exact absurd rfl (hn s)
  | _ => exact ⟨List.reverse_cons, rfl⟩

theorem context_text (b : Builder) (s : String) :
    (b.text s).context = b.context.feed s.toList := by
  unfold text
  split
  · next h => rw [h]; rfl
  · dsimp only
    split <;> rfl

/-- The pieces lead from one builder to another; what is recorded besides does not matter. -/
inductive Writes : Builder → List Piece → Builder → Prop
  | done (b : Builder) : Writes b [] b
  | text {b b' : Builder} {ps : List Piece} (s : String) (h : Writes (b.text s) ps b') :
    Writes b (.text s.toList :: ps) b'
  | node {b b' : Builder} {ps : List Piece} {n : Node} (hn : ∀ s, n ≠ .text s)
    (h : Writes (b.push n) ps b') : Writes b (.node :: ps) b'
  | event {b b' : Builder} {ps : List Piece} (events : List Event)
    (h : Writes { b with events } ps b') : Writes b ps b'

namespace Writes

theorem trans {b b' b'' : Builder} {ps qs : List Piece} (h : Writes b ps b')
    (h' : Writes b' qs b'') : Writes b (ps ++ qs) b'' := by
  induction h with
  | done b => exact h'
  | text s _ ih => exact .text s (ih h')
  | node hn _ ih => exact .node hn (ih h')
  | event events _ ih => exact .event events (ih h')

/-- The builder follows the context over the pieces one by one. -/
theorem context {b b' : Builder} {ps : List Piece} (h : Writes b ps b') :
    b'.context = b.context.after (Piece.apart ps) := by
  induction h with
  | done b => rfl
  | text s _ ih =>
    rw [ih, context_text, Piece.apart, HtmlContext.after_append, ← HtmlContext.feed_eq_after]
  | node _ _ ih => exact ih
  | event _ _ ih => exact ih

/-- The nodes hold the pieces joined, behind the text that was there before. -/
theorem read {b b' : Builder} {ps : List Piece} (h : Writes b ps b') :
    HtmlContext.body.read b'.nodes =
      (HtmlContext.body.read b.closed).after (Piece.joined (.text b.openText :: ps)) := by
  induction h with
  | done b => rw [read_nodes, HtmlContext.feed_eq_after, Piece.joined, Piece.joined, List.append_nil,
      Piece.ahead]
  | @text b _ ps s _ ih =>
    obtain ⟨hclosed, hopen⟩ := closed_text b s
    rw [ih, hclosed, hopen, Piece.joined_text_text]
  | @node b _ ps n hn _ ih =>
    obtain ⟨hclosed, hopen⟩ := closed_push b hn
    rw [ih, hclosed, hopen, HtmlContext.read_append, HtmlContext.read_single hn, read_nodes,
      HtmlContext.feed_eq_after, ← HtmlContext.after_append]
    rfl
  | event _ _ ih => exact ih

end Writes

end Builder

/-! ## Calls of a front end -/

namespace Build

/-- The builder that a computation leaves, also if it fails. -/
def final {α : Type} (act : Build α) (b : Builder) : Builder :=
  match act b with
  | .ok _ b => b
  | .error _ b => b

theorem final_bind_ok {α β : Type} {act : Build α} {k : α → Build β} {b b' : Builder} {a : α}
    (h : act b = .ok a b') : final (act >>= k) b = final (k a) b' := by
  change (match EStateM.bind act k b with | .ok _ b => b | .error _ b => b) = _
  unfold EStateM.bind
  rw [h]
  rfl

/-- Whether a statement has a node. -/
def compiles (statement : List Char) : Bool :=
  match actionNode .body statement 0 with
  | .ok _ => true
  | .error _ => false

/-- Whether a statement has a node does not depend on where it stands. -/
theorem actionNode_cases (context : HtmlContext) (statement : List Char) (line : Nat) :
    (compiles statement = true ∧
      ∃ n, actionNode context statement line = .ok n ∧ ∀ s, n ≠ .text s) ∨
    (compiles statement = false ∧ ∃ c, actionNode context statement line = .error c) := by
  unfold compiles actionNode
  cases parseTemplateCall statement with
  | error c => exact .inr ⟨rfl, c, rfl⟩
  | ok call =>
    cases call with
    | some call => exact .inl ⟨rfl, _, rfl, nofun⟩
    | none =>
      cases parsePipeline statement with
      | error c => exact .inr ⟨rfl, c, rfl⟩
      | ok p => exact .inl ⟨rfl, _, rfl, nofun⟩

end Build

namespace Piece

/-- The space that pads a text. -/
def padding (pad : Bool) : List Piece := if pad then [.text [' ']] else []

/-- The pieces of the interpolations of a text with the text before each, and what follows them
unless one that cannot be read stops it. -/
def interpolations (s : Settings) (pad : Bool) (behind : List Piece) :
    List (List Char × List Char) → List Piece
  | [] => behind
  | (before, statement) :: parts =>
    .text before ::
      if Build.compiles statement then .node :: interpolations s pad behind parts
      else if s.strictInterpolation then []
      else
        .text (s.delimiters.left ++ String.ofList statement ++ s.delimiters.right).toList ::
          (padding pad ++ interpolations s pad behind parts)

end Piece

/-- A call of a front end that writes to a builder. -/
inductive Call where
  | text (s : String)
  | interpolated (source : List Char) (pad : Bool) (line : Nat)
  | action (statement : List Char) (line : Nat)

namespace Call

/-- What a call does. -/
def act (s : Settings) : Call → Build PUnit
  | .text t => Build.text t
  | .interpolated source pad line => Build.interpolated s source pad line
  | .action statement line => Build.action statement line

/-- The builder after some calls; one that fails keeps what it wrote. -/
def run (s : Settings) (cs : List Call) (b : Builder) : Builder :=
  cs.foldl (fun b c => Build.final (c.act s) b) b

/-- The pieces that a call writes. -/
def pieces (s : Settings) : Call → List Piece
  | .text t => [.text t.toList]
  | .interpolated source pad _ =>
    let i := Interpolated.scan s.delimiters source
    Piece.interpolations s pad
      (if i.rest.isEmpty && !i.parts.isEmpty then [] else .text i.rest :: Piece.padding pad) i.parts
  | .action statement _ => if Build.compiles statement then [.node] else []

end Call

namespace Builder

open Build

theorem get_run (b : Builder) : (get : Build Builder) b = .ok b b := rfl

theorem modify_run (f : Builder → Builder) (b : Builder) :
    (modify f : Build PUnit) b = .ok ⟨⟩ (f b) := rfl

theorem text_run (s : String) (b : Builder) : Build.text s b = .ok ⟨⟩ (b.text s) := rfl

theorem writes_ofList (b : Builder) (s : List Char) {ps : List Piece} {b' : Builder}
    (h : Writes (b.text (String.ofList s)) ps b') : Writes b (.text s :: ps) b' := by
  have hw := Writes.text (String.ofList s) h
  rwa [String.toList_ofList] at hw

/-- Padding comes before what follows. -/
theorem writes_space {k : Build PUnit} {ps : List Piece} (hk : ∀ b, Writes b ps (final k b))
    (pad : Bool) (b : Builder) :
    Writes b (Piece.padding pad ++ ps) (final (space pad >>= fun _ => k) b) := by
  cases pad with
  | false => exact hk b
  | true => exact .text " " (hk (b.text " "))

/-- An interpolation comes before what follows, unless it stops. -/
theorem writes_interpolation (s : Settings) (pad : Bool) (line : Nat) {k : Build PUnit}
    {ps : List Piece} (hk : ∀ b, Writes b ps (final k b)) (statement : List Char) (b : Builder) :
    Writes b
      (if compiles statement then .node :: ps
        else if s.strictInterpolation then []
        else .text (s.delimiters.left ++ String.ofList statement ++ s.delimiters.right).toList ::
          (Piece.padding pad ++ ps))
      (final (interpolation s pad line statement >>= fun _ => k) b) := by
  rw [interpolation, bind_assoc, final_bind_ok (get_run b)]
  rcases actionNode_cases b.context statement line with
    ⟨hcompiles, n, hn, htext⟩ | ⟨hcompiles, c, hc⟩
  · rw [hcompiles, hn, if_pos rfl]
    exact .node htext (hk _)
  · rw [hcompiles, hc, if_neg Bool.false_ne_true]
    dsimp only
    split
    · exact .done b
    · rw [bind_assoc, final_bind_ok (modify_run _ b), bind_assoc, final_bind_ok (text_run _ _)]
      exact .event _ (.text _ (writes_space hk pad _))

theorem writes_interpolations (s : Settings) (pad : Bool) (line : Nat) {k : Build PUnit}
    {behind : List Piece} (hk : ∀ b, Writes b behind (final k b))
    (parts : List (List Char × List Char)) : ∀ b : Builder,
      Writes b (Piece.interpolations s pad behind parts)
        (final (interpolations s pad line parts >>= fun _ => k) b) := by
  induction parts with
  | nil => exact hk
  | cons part parts ih =>
    obtain ⟨before, statement⟩ := part
    intro b
    refine writes_ofList b before ?_
    have hfinal : final (interpolations s pad line ((before, statement) :: parts) >>= fun _ => k) b =
        final (interpolation s pad line statement >>= fun _ =>
          interpolations s pad line parts >>= fun _ => k) (b.text (String.ofList before)) := by
      rw [interpolations, bind_assoc, final_bind_ok (text_run _ b), bind_assoc]
    rw [hfinal]
    exact writes_interpolation s pad line ih statement _

theorem writes_act (s : Settings) (c : Call) (b : Builder) :
    Writes b (c.pieces s) (final (c.act s) b) := by
  cases c with
  | text t => exact .text t (.done _)
  | interpolated source pad line =>
    refine writes_interpolations s pad line (fun b => ?_) _ b
    split
    · exact .done b
    · refine writes_ofList b _ ?_
      rw [final_bind_ok (text_run _ b)]
      cases pad with
      | false => exact .done _
      | true => exact .text " " (.done _)
  | action statement line =>
    change Writes b (if compiles statement then [.node] else []) (final (Build.action statement line) b)
    rw [Build.action, final_bind_ok (get_run b)]
    rcases actionNode_cases b.context statement line with
      ⟨hcompiles, n, hn, htext⟩ | ⟨hcompiles, c, hc⟩
    · rw [hcompiles, hn, if_pos rfl]
      exact .node htext (.done _)
    · rw [hcompiles, hc, if_neg Bool.false_ne_true]
      exact .done b

theorem writes_run (s : Settings) (cs : List Call) : ∀ b : Builder,
    Writes b (cs.flatMap (Call.pieces s)) (Call.run s cs b) := by
  induction cs with
  | nil => exact .done
  | cons c cs ih => exact fun b => (writes_act s c b).trans (ih _)

/-- **The context of a builder is that of its text exactly if tears make no difference.** The context
after some calls and the one that their nodes lead to are the same exactly if the markers in the
pieces lead to one context, apart and joined; and these are the same markers, character by character,
exactly if no tag is torn between two pieces. -/
theorem context_eq_read_iff (s : Settings) (cs : List Call) :
    ((Call.run s cs {}).context = HtmlContext.body.read (Call.run s cs {}).nodes ↔
      HtmlContext.body.after (Piece.apart (cs.flatMap (Call.pieces s))) =
        HtmlContext.body.after (Piece.joined (cs.flatMap (Call.pieces s)))) ∧
    (Piece.joined (cs.flatMap (Call.pieces s)) = Piece.apart (cs.flatMap (Call.pieces s)) ↔
      ¬ Piece.Tears (cs.flatMap (Call.pieces s))) := by
  have hw := writes_run s cs {}
  refine ⟨?_, Piece.joined_eq_apart_iff _⟩
  rw [hw.context, hw.read]
  exact Iff.rfl

/-- A tag that is written in two pieces is missed, and a name that goes on in the next piece is taken
for a tag. -/
theorem torn_tag_misleads_context :
    ((Call.run .standard [.text "<scr", .text "ipt>"] {}).context = .body ∧
      HtmlContext.body.read (Call.run .standard [.text "<scr", .text "ipt>"] {}).nodes = .script) ∧
    ((Call.run .standard [.text "<script", .text "s>"] {}).context = .script ∧
      HtmlContext.body.read (Call.run .standard [.text "<script", .text "s>"] {}).nodes = .body) :=
  ⟨⟨rfl, rfl⟩, ⟨rfl, rfl⟩⟩

/-- A tear makes no difference in the end if the element is closed behind it. -/
example :
    (Call.run .standard [.text "<scr", .text "ipt></script>"] {}).context =
      HtmlContext.body.read (Call.run .standard [.text "<scr", .text "ipt></script>"] {}).nodes :=
  rfl

end Builder

end Stencil
