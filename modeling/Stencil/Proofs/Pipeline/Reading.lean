import Stencil.Pipeline.Parser

/-!
# Tokens without places

A field belongs to what it directly follows, and the tokens tell this by their places in bytes. Here
the places are gone: reading a text from left to right, one only has to know how much white space there
has been since the last token.

* `Reads gap s ts` says that the text `s` has the tokens `ts` behind a gap. Like a place a gap has 32 bits,
  so a gap of 4 GiB is taken for none.
* `reads_iff_scan` is its meaning: these are the tokens that `Lexeme.scan` finds, each with the answer
  that its place gives. `tokenize_of_reads` and `reads_of_tokenize` say so for a statement.
-/

namespace Stencil

open Text (isSpace byteSize)

/-! ## Steps of the scanner -/

namespace Lexeme

/-- White space in front only moves the place. -/
theorem next_space {c : Char} (hc : isSpace c = true) (offset : UInt32) (s : List Char) :
    next offset (c :: s) = next (offset + c.utf8Size.toUInt32) s := by
  have hadd (n : Nat) : offset + (c.utf8Size + n).toUInt32 =
      offset + c.utf8Size.toUInt32 + n.toUInt32 := by
    rw [Nat.toUInt32, UInt32.ofNat_add, UInt32.add_assoc]
  unfold next
  simp only [List.dropWhile_cons, List.takeWhile_cons, hc, if_true, byteSize, hadd]

theorem next_nil (offset : UInt32) : next offset [] = .ok none := rfl

/-- A token that is read is the next one. -/
theorem next_token {c : Char} {s : List Char} (hc : isSpace c = false) (offset : UInt32)
    {l : Lexed (c :: s)} (hl : Lexed.read c s = .ok l) :
    next offset (c :: s) =
      .ok (some (⟨l.token, offset, offset + (byteSize l.spelling).toUInt32⟩, l.rest)) := by
  unfold next
  simp [hc, hl, byteSize, bind, Except.bind, pure, Except.pure]

/-- The first token is read where white space ends. -/
theorem next_cons {c : Char} {s : List Char} (hc : isSpace c = false) (offset : UInt32) :
    next offset (c :: s) = (Lexed.read c s).map fun l =>
      some (⟨l.token, offset, offset + (byteSize l.spelling).toUInt32⟩, l.rest) := by
  cases hl : Lexed.read c s with
  | ok l => exact next_token hc offset hl
  | error e =>
    unfold next
    simp [hc, hl, bind, Except.bind, Except.map]

theorem scan_of_next_none {offset : UInt32} {s : List Char} (h : next offset s = .ok none) :
    scan offset s = ([], none) := by
  rw [scan]
  split
  · next heq => simp [h] at heq
  · rfl
  · next heq => simp [h] at heq

theorem scan_of_next_error {offset : UInt32} {s : List Char} {e : Cause} (h : next offset s = .error e) :
    scan offset s = ([], some e) := by
  rw [scan]
  split
  · next heq => simp_all
  · next heq => simp [h] at heq
  · next heq => simp [h] at heq

theorem scan_of_next_some {offset : UInt32} {s rest : List Char} {l : Lexeme}
    (h : next offset s = .ok (some (l, rest))) :
    scan offset s = (l :: (scan l.stop rest).1, (scan l.stop rest).2) := by
  rw [scan]
  split
  · next heq => simp [h] at heq
  · next heq => simp [h] at heq
  · next l' rest' heq =>
    obtain ⟨rfl, rfl⟩ : l = l' ∧ rest = rest' := by simpa [h] using heq
    rfl

theorem scan_space {c : Char} (hc : isSpace c = true) (offset : UInt32) (s : List Char) :
    scan offset (c :: s) = scan (offset + c.utf8Size.toUInt32) s := by
  cases h : next (offset + c.utf8Size.toUInt32) s with
  | error e => rw [scan_of_next_error h, scan_of_next_error (next_space hc offset s ▸ h)]
  | ok o =>
    cases o with
    | none => rw [scan_of_next_none h, scan_of_next_none (next_space hc offset s ▸ h)]
    | some r => rw [scan_of_next_some h, scan_of_next_some (next_space hc offset s ▸ h)]

end Lexeme

/-! ## The tokens of a text -/

/-- The tokens of a text, each with whether it directly follows the token before it; `gap` is the white
space between the last token and the text, if there was a token. -/
inductive Reads : Option UInt32 → List Char → List Glued → Prop
  | done {gap : Option UInt32} : Reads gap [] []
  | space {gap : Option UInt32} {c : Char} {s : List Char} {ts : List Glued} (hc : isSpace c = true)
    (h : Reads (gap.map (· + c.utf8Size.toUInt32)) s ts) : Reads gap (c :: s) ts
  | token {gap : Option UInt32} {c : Char} {s : List Char} {ts : List Glued} (l : Lexed (c :: s))
    (hc : isSpace c = false) (hl : Lexed.read c s = .ok l) (h : Reads (some 0) l.rest ts) :
    Reads gap (c :: s) (⟨l.token, gap = some 0⟩ :: ts)

/-- A space behind a token. -/
theorem Reads.behind_space {s : List Char} {ts : List Glued} (h : Reads (some 1) s ts) :
    Reads (some 0) (' ' :: s) ts := .space rfl h

/-- The end of the last token, as far as the gap in front of byte `offset` says. -/
def lastStop (gap : Option UInt32) (offset : UInt32) : Option UInt32 := gap.map (offset - ·)

theorem lastStop_space (gap : Option UInt32) (offset width : UInt32) :
    lastStop (gap.map (· + width)) (offset + width) = lastStop gap offset := by
  cases gap with
  | none => rfl
  | some n =>
    have hcancel : offset + width - (n + width) = offset - n := by grind
    exact congrArg some hcancel

theorem lastStop_zero (offset : UInt32) : lastStop (some 0) offset = some offset :=
  congrArg some (UInt32.sub_zero offset)

/-- The token that begins behind the gap touches the last one if the gap is nothing. -/
theorem lastStop_eq_iff {gap : Option UInt32} {offset : UInt32} :
    lastStop gap offset = some offset ↔ gap = some 0 := by
  cases gap with
  | none => exact iff_of_false nofun nofun
  | some n =>
    change some (offset - n) = some offset ↔ some n = some 0
    rw [Option.some.injEq, Option.some.injEq, UInt32.sub_eq_iff_eq_add, UInt32.left_eq_add]

/-- **The places of the tokens say what touches what**, and no more. -/
theorem reads_iff_scan {gap : Option UInt32} {s : List Char} {ts : List Glued} (offset : UInt32) :
    Reads gap s ts ↔ (Lexeme.scan offset s).2 = none ∧
      Glued.ofLexemes (lastStop gap offset) (Lexeme.scan offset s).1 = ts := by
  constructor
  · intro h
    induction h generalizing offset with
    | done =>
      rw [Lexeme.scan_of_next_none (Lexeme.next_nil offset)]
      exact ⟨rfl, rfl⟩
    | @space gap c s _ hc _ ih =>
      rw [Lexeme.scan_space hc, ← lastStop_space gap offset c.utf8Size.toUInt32]
      exact ih _
    | token l hc hl _ ih =>
      obtain ⟨hnone, hts⟩ := ih (offset + (byteSize l.spelling).toUInt32)
      rw [lastStop_zero] at hts
      rw [Lexeme.scan_of_next_some (Lexeme.next_token hc offset hl)]
      exact ⟨hnone, by rw [Glued.ofLexemes, decide_eq_decide.2 lastStop_eq_iff, hts]⟩
  · rintro ⟨hnone, rfl⟩
    induction hn : s.length using Nat.strongRecOn generalizing s gap offset with
    | ind n ih =>
    subst hn
    match s with
    | [] =>
      rw [Lexeme.scan_of_next_none (Lexeme.next_nil offset)]
      exact .done
    | c :: s =>
      cases hc : isSpace c with
      | true =>
        rw [Lexeme.scan_space hc, ← lastStop_space gap offset c.utf8Size.toUInt32]
        rw [Lexeme.scan_space hc] at hnone
        exact .space hc (ih s.length (by simp) _ hnone rfl)
      | false =>
        have hnext := Lexeme.next_cons (s := s) hc offset
        cases hl : Lexed.read c s with
        | error e =>
          rw [hl] at hnext
          rw [Lexeme.scan_of_next_error hnext] at hnone
          cases hnone
        | ok l =>
          rw [hl] at hnext
          rw [Lexeme.scan_of_next_some hnext] at hnone ⊢
          have hrest : Reads (some 0) l.rest _ := ih l.rest.length l.rest_length_lt _ hnone rfl
          rw [lastStop_zero] at hrest
          rw [Glued.ofLexemes, decide_eq_decide.2 lastStop_eq_iff]
          exact .token l hc hl hrest

theorem tokenize_of_reads {s : List Char} {ts : List Glued} (h : Reads none s ts) :
    ∃ ls, tokenize s = .ok ls ∧ Glued.ofLexemes none ls = ts := by
  obtain ⟨hnone, hts⟩ := (reads_iff_scan 0).1 h
  refine ⟨(Lexeme.scan 0 s).1, ?_, hts⟩
  unfold tokenize
  split
  · next heq => rw [heq]; rfl
  · next heq => rw [heq] at hnone; cases hnone

theorem reads_of_tokenize {s : List Char} {ls : List Lexeme} (h : tokenize s = .ok ls) :
    Reads none s (Glued.ofLexemes none ls) := by
  refine (reads_iff_scan 0).2 ?_
  unfold tokenize at h
  split at h
  · next heq =>
    cases h
    rw [heq]
    exact ⟨rfl, rfl⟩
  · cases h

/-! ## The pipeline of a text -/

/-- A pipeline is read from the text, inside the drafts `outer` and behind a gap. -/
def Opens (outer : List Draft) (gap : Option UInt32) (s : List Char) (p : Pipeline) : Prop :=
  ∃ ts, Reads gap s ts ∧ Draft.read outer (Draft.start ts).1 (Draft.start ts).2 ts = .ok p

/-- White space in front of a statement makes no difference. -/
theorem Opens.space {outer : List Draft} {s : List Char} {p : Pipeline} (h : Opens outer none s p) :
    Opens outer none (' ' :: s) p :=
  let ⟨ts, hreads, hp⟩ := h
  ⟨ts, .space rfl hreads, hp⟩

theorem parsePipeline_eq_ok_iff {s : List Char} {p : Pipeline} :
    parsePipeline s = .ok p ↔ Opens [] none s p := by
  constructor
  · intro h
    unfold parsePipeline at h
    obtain ⟨ls, hls, h⟩ := Outcome.bind_eq_ok.1 h
    dsimp only at h
    split at h
    · cases h
    · exact ⟨_, reads_of_tokenize hls, h⟩
  · rintro ⟨ts, hreads, hp⟩
    obtain ⟨ls, hls, rfl⟩ := tokenize_of_reads hreads
    have hempty : ls.isEmpty = false := by
      cases ls with
      | nil => cases hp
      | cons l ls => rfl
    unfold parsePipeline
    simp only [hls, bind, Except.bind, hempty]
    exact hp

end Stencil
