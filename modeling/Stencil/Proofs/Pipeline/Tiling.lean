import Mathlib
import Stencil.Proofs.Pipeline.Alone

/-!
# Where the tokens of a statement stand

The places of the tokens divide a statement into their texts, with white space between them.

* `Tiles` says that the tokens stand one behind another in a text, and `tiles_scan` that those that
  `Lexeme.scan` finds do. Places have 32 bits, so they are the numbers of bytes modulo 2 ^ 32.
* `Tiles.slices`, `Tiles.pairwise` and `Tiles.isSpace` are what this means for single places, where the
  text is shorter than 4 GiB; `Spans` puts them together.
* `reads_intercalate` says that the texts of the tokens have these tokens again when they are joined.
* `tokenize_tiling` concludes for every statement that can be read.
-/

namespace Stencil

open Text (isSpace isBlank byteSize byteSize_append byteSize_pos)

/-! ## Tokens one behind another -/

/-- Text `x` stands in `s` from byte `start` to byte `stop`. -/
def IsSlice (s : List Char) (start stop : Nat) (x : List Char) : Prop :=
  ∃ before after, s = before ++ (x ++ after) ∧ byteSize before = start ∧ stop = start + byteSize x

/-- A text at byte `offset` consists of the texts `xs` of the tokens and of white space around them. -/
inductive Tiles : Nat → List Char → List Lexeme → List (List Char) → Prop
  | done {offset : Nat} {gap : List Char} (hgap : isBlank gap = true) : Tiles offset gap [] []
  | token {offset : Nat} {gap x s : List Char} {l : Lexeme} {ls : List Lexeme}
    {xs : List (List Char)} (hgap : isBlank gap = true) (hx : x ≠ [])
    (hstart : l.start = (offset + byteSize gap).toUInt32)
    (hstop : l.stop = (offset + byteSize gap + byteSize x).toUInt32)
    (h : Tiles (offset + byteSize gap + byteSize x) s ls xs) :
    Tiles offset (gap ++ (x ++ s)) (l :: ls) (x :: xs)

theorem toNat_toUInt32 {n : Nat} (h : n < 2 ^ 32) : n.toUInt32.toNat = n := UInt32.toNat_ofNat_of_lt' h

namespace Tiles

variable {offset : Nat} {s : List Char} {ls : List Lexeme} {xs : List (List Char)}

/-- White space in front only moves the places. -/
theorem space {w : Char} (hw : isSpace w = true) (h : Tiles (offset + w.utf8Size) s ls xs) :
    Tiles offset (w :: s) ls xs := by
  have hblank : ∀ {gap : List Char}, isBlank gap = true → isBlank (w :: gap) = true :=
    fun hgap => Bool.and_eq_true_iff.2 ⟨hw, hgap⟩
  cases h with
  | done hgap => exact .done (hblank hgap)
  | @token _ gap x s l ls xs hgap hx hstart hstop h =>
    have hplace : offset + w.utf8Size + byteSize gap = offset + byteSize (w :: gap) := by
      rw [byteSize, Nat.add_assoc]
    rw [hplace] at hstart hstop h
    rw [← List.cons_append]
    exact .token (hblank hgap) hx hstart hstop h

/-- The place of the first token, where places are exact, and the room behind it. -/
theorem exact_places {gap x : List Char} {l : Lexeme}
    (hsize : offset + byteSize (gap ++ (x ++ s)) < 2 ^ 32)
    (hstart : l.start = (offset + byteSize gap).toUInt32)
    (hstop : l.stop = (offset + byteSize gap + byteSize x).toUInt32) :
    l.start.toNat = offset + byteSize gap ∧ l.stop.toNat = offset + byteSize gap + byteSize x ∧
      offset + byteSize gap + byteSize x + byteSize s < 2 ^ 32 := by
  rw [byteSize_append, byteSize_append] at hsize
  rw [hstart, hstop, toNat_toUInt32 (by omega), toNat_toUInt32 (by omega)]
  exact ⟨rfl, rfl, by omega⟩

/-- Every token stands where its place says, behind any text in front. -/
theorem slices (h : Tiles offset s ls xs) : offset + byteSize s < 2 ^ 32 →
    ∀ {front : List Char}, byteSize front = offset →
    List.Forall₂ (fun l x => l.start < l.stop ∧ IsSlice (front ++ s) l.start.toNat l.stop.toNat x)
      ls xs := by
  induction h with
  | done => exact fun _ _ _ => .nil
  | @token offset gap x s l ls xs _ hx hstart hstop _ ih =>
    intro hsize front hfront
    obtain ⟨hfrom, hto, hroom⟩ := exact_places hsize hstart hstop
    have hbefore : byteSize (front ++ gap) = l.start.toNat := by rw [byteSize_append, hfront, hfrom]
    have hbehind : byteSize (front ++ (gap ++ x)) = offset + byteSize gap + byteSize x := by
      rw [byteSize_append, byteSize_append, hfront, Nat.add_assoc]
    have hrest := ih hroom hbehind
    rw [List.append_assoc, List.append_assoc] at hrest
    have hpos := byteSize_pos hx
    refine .cons ⟨UInt32.lt_iff_toNat_lt.2 (by omega), front ++ gap, s, ?_, hbefore, ?_⟩ hrest
    · rw [List.append_assoc]
    · rw [hto, hfrom]

theorem le_start (h : Tiles offset s ls xs) : offset + byteSize s < 2 ^ 32 →
    ∀ l ∈ ls, offset ≤ l.start.toNat := by
  induction h with
  | done => exact fun _ _ => nofun
  | token _ _ hstart hstop _ ih =>
    intro hsize m hm
    obtain ⟨hfrom, -, hroom⟩ := exact_places hsize hstart hstop
    rcases List.mem_cons.1 hm with rfl | hm
    · omega
    · have hle := ih hroom m hm
      omega

/-- No token starts before the end of one that comes before it. -/
theorem pairwise (h : Tiles offset s ls xs) : offset + byteSize s < 2 ^ 32 →
    ls.Pairwise fun l m => l.stop ≤ m.start := by
  induction h with
  | done => exact fun _ => .nil
  | token _ _ hstart hstop h ih =>
    intro hsize
    obtain ⟨-, hto, hroom⟩ := exact_places hsize hstart hstop
    refine .cons (fun m hm => ?_) (ih hroom)
    have hle := h.le_start hroom m hm
    exact UInt32.le_iff_toNat_le.2 (hto ▸ hle)

/-- A character that no token covers is white space. -/
theorem isSpace (h : Tiles offset s ls xs) : offset + byteSize s < 2 ^ 32 →
    ∀ {before after : List Char} {c : Char}, s = before ++ c :: after →
    (∀ l ∈ ls, offset + byteSize before < l.start.toNat ∨
      l.stop.toNat ≤ offset + byteSize before) →
    Text.isSpace c = true := by
  have hmem : ∀ {gap : List Char} {c : Char}, isBlank gap = true → c ∈ gap → Text.isSpace c = true :=
    fun hgap => List.all_eq_true.1 hgap _
  induction h with
  | done hgap =>
    rintro - before after c rfl -
    exact hmem hgap (List.mem_append_right _ List.mem_cons_self)
  | @token offset gap x s l ls xs hgap hx hstart hstop _ ih =>
    intro hsize before after c heq houtside
    obtain ⟨hfrom, hto, hroom⟩ := exact_places hsize hstart hstop
    rcases List.append_eq_append_iff.1 heq with ⟨t, rfl, ht⟩ | ⟨t, rfl, ht⟩
    · -- The character is behind the white space: in the token, or in what follows it.
      rcases List.append_eq_append_iff.1 ht with ⟨u, rfl, hu⟩ | ⟨u, rfl, hu⟩
      · refine ih hroom hu fun m hm => ?_
        have hm := houtside m (List.mem_cons_of_mem l hm)
        rw [byteSize_append, byteSize_append] at hm
        omega
      · cases u with
        | nil =>
          have hfirst : s = [] ++ c :: after := by simpa using hu.symm
          refine ih hroom hfirst fun m hm => ?_
          have hm := houtside m (List.mem_cons_of_mem l hm)
          rw [byteSize_append] at hm
          rw [List.append_nil, byteSize]
          omega
        | cons d u =>
          have hl := houtside l List.mem_cons_self
          have hpos := byteSize_pos (s := d :: u) (by simp)
          rw [byteSize_append] at hl hto
          omega
    · cases t with
      | nil =>
        cases x with
        | nil => exact absurd rfl hx
        | cons d x =>
          have hl := houtside l List.mem_cons_self
          have hpos := byteSize_pos (s := d :: x) (by simp)
          rw [List.append_nil] at hfrom hto
          omega
      | cons d t =>
        obtain rfl : c = d := (List.cons.inj ht).1
        exact hmem hgap (List.mem_append_right _ List.mem_cons_self)

end Tiles

/-! ## The tokens of a text -/

/-- The text of a token, alone or in front of white space. -/
abbrev SpellsAlone (l : Lexeme) (x : List Char) : Prop :=
  ∀ rest, EndsBlank rest → Spells l.token x rest

/-- **The tokens of a text stand one behind another**, each spelled by its own text. -/
theorem tiles_scan {s : List Char} : ∀ offset : Nat, (Lexeme.scan offset.toUInt32 s).2 = none →
    ∃ xs, Tiles offset s (Lexeme.scan offset.toUInt32 s).1 xs ∧
      List.Forall₂ SpellsAlone (Lexeme.scan offset.toUInt32 s).1 xs := by
  have hadd (m n : Nat) : m.toUInt32 + n.toUInt32 = (m + n).toUInt32 := (UInt32.ofNat_add m n).symm
  induction hn : s.length using Nat.strongRecOn generalizing s with
  | ind n ih =>
  subst hn
  intro offset hnone
  match s with
  | [] =>
    rw [Lexeme.scan_of_next_none (Lexeme.next_nil _)]
    exact ⟨[], .done rfl, .nil⟩
  | c :: s =>
    cases hc : isSpace c with
    | true =>
      rw [Lexeme.scan_space hc, hadd] at hnone ⊢
      obtain ⟨xs, htiles, hspells⟩ := ih s.length (by simp) rfl _ hnone
      exact ⟨xs, htiles.space hc, hspells⟩
    | false =>
      have hnext := Lexeme.next_cons (s := s) hc offset.toUInt32
      cases hl : Lexed.read c s with
      | error e =>
        rw [hl] at hnext
        rw [Lexeme.scan_of_next_error hnext] at hnone
        cases hnone
      | ok l =>
        rw [hl] at hnext
        simp only [Except.map, hadd] at hnext
        rw [Lexeme.scan_of_next_some hnext] at hnone ⊢
        obtain ⟨xs, htiles, hspells⟩ := ih l.rest.length l.rest_length_lt rfl _ hnone
        refine ⟨l.spelling :: xs, ?_, .cons (fun _ hrest => Lexed.spells_of_read hc hl hrest) hspells⟩
        have htoken : Tiles offset ([] ++ (l.spelling ++ l.rest))
            (⟨l.token, offset.toUInt32, (offset + byteSize l.spelling).toUInt32⟩ :: _)
            (l.spelling :: xs) :=
          .token rfl l.spelling_ne_nil rfl rfl htiles
        rwa [List.nil_append, l.append_eq] at htoken

/-- The texts of tokens have these tokens again when they are joined with spaces. -/
theorem reads_intercalate {ls : List Lexeme} {xs : List (List Char)}
    (h : List.Forall₂ SpellsAlone ls xs) : ∀ gap,
    ∃ ts, Reads gap ([' '].intercalate xs) ts ∧ ts.map Glued.token = ls.map Lexeme.token := by
  induction h with
  | nil => exact fun _ => ⟨[], .done, rfl⟩
  | @cons l x ls xs hl hls ih =>
    intro gap
    cases hls with
    | nil =>
      rw [List.intercalate_singleton, ← List.append_nil x]
      exact ⟨_, .spelled (hl [] endsBlank_nil) .done gap, rfl⟩
    | cons hm hls =>
      obtain ⟨ts, hreads, hts⟩ := ih (some 1)
      rw [List.intercalate_cons_cons, List.append_assoc]
      refine ⟨_, .spelled (hl _ (endsBlank_cons rfl _)) hreads.behind_space gap, ?_⟩
      rw [List.map_cons, hts]
      rfl

theorem map_token_ofLexemes (ls : List Lexeme) : ∀ stop,
    (Glued.ofLexemes stop ls).map Glued.token = ls.map Lexeme.token := by
  induction ls with
  | nil => exact fun _ => rfl
  | cons l ls ih => exact fun _ => by rw [Glued.ofLexemes, List.map_cons, List.map_cons, ih]

/-! ## Statements -/

/-- The places of the tokens `ls` in a text and the texts `xs` of the tokens. -/
structure Spans (s : List Char) (ls : List Lexeme) (xs : List (List Char)) : Prop where
  /-- The place of a token is not empty and lies between two characters of the text. -/
  slices : List.Forall₂ (fun l x => l.start < l.stop ∧ IsSlice s l.start.toNat l.stop.toNat x) ls xs
  /-- A token starts at or behind the end of the one before it. -/
  ordered : ls.Pairwise fun l m => l.stop ≤ m.start
  /-- A character in front of, between and behind all tokens is white space. -/
  gaps : ∀ before c after, s = before ++ c :: after →
    (∀ l ∈ ls, byteSize before < l.start.toNat ∨ l.stop.toNat ≤ byteSize before) → isSpace c = true

/-- The tokens `ls` of a text and the texts `xs` of the tokens. -/
structure Tiling (s : List Char) (ls : List Lexeme) (xs : List (List Char)) : Prop where
  /-- The texts stand one behind another, at the places of the tokens modulo 2 ^ 32. -/
  tiles : Tiles 0 s ls xs
  /-- The places are exact in a text that they are wide enough for. -/
  spans : byteSize s < 2 ^ 32 → Spans s ls xs
  /-- The text of a token has this token and no other. -/
  alone : List.Forall₂ (fun l x => tokenize x = .ok [⟨l.token, 0, (byteSize x).toUInt32⟩]) ls xs
  /-- The texts, with single spaces between them, have the same tokens. -/
  joined : ∃ ms, tokenize ([' '].intercalate xs) = .ok ms ∧ ms.map Lexeme.token = ls.map Lexeme.token

/-- **The tokens of a statement tile it**: every text that can be read consists of the texts of its
tokens and of white space, and each of these texts is read as its token, alone and with the others. The
places of the tokens are those of their texts, up to the 4 GiB that places with 32 bits can tell apart. -/
theorem tokenize_tiling {s : List Char} {ls : List Lexeme} (h : tokenize s = .ok ls) :
    ∃ xs, Tiling s ls xs := by
  have hscan : (Lexeme.scan 0 s).2 = none ∧ (Lexeme.scan 0 s).1 = ls := by
    unfold tokenize at h
    split at h
    · next heq =>
      cases h
      rw [heq]
      exact ⟨rfl, rfl⟩
    · cases h
  obtain ⟨hnone, hls⟩ := hscan
  have hzero : Nat.toUInt32 0 = 0 := rfl
  obtain ⟨xs, htiles, hspells⟩ := tiles_scan 0 hnone
  rw [hzero, hls] at htiles hspells
  obtain ⟨ts, hreads, hts⟩ := reads_intercalate hspells none
  obtain ⟨ms, hms, rfl⟩ := tokenize_of_reads hreads
  refine ⟨xs, ?_⟩
  constructor
  case tiles => exact htiles
  case spans =>
    intro hsize
    have hroom : 0 + byteSize s < 2 ^ 32 := by rwa [Nat.zero_add]
    constructor
    case slices =>
      have hfront : byteSize [] = 0 := rfl
      exact htiles.slices hroom hfront
    case ordered => exact htiles.pairwise hroom
    case gaps =>
      intro before c after heq houtside
      exact htiles.isSpace hroom heq (by simpa only [Nat.zero_add] using houtside)
  case alone => exact hspells.imp fun _ _ hx => tokenize_of_spells (hx [] endsBlank_nil)
  case joined => exact ⟨ms, hms, by rw [← map_token_ofLexemes ms none, hts]⟩

/-- A statement with a field right behind its variable and a mark with nothing around it. -/
def tightText : List Char := "$a.b|f \"x y\"".toList

/-- The tokens of `tightText`. -/
def tightTokens : List Lexeme :=
  [⟨.variable "a", 0, 2⟩, ⟨.field "b", 2, 4⟩, ⟨.pipe, 4, 5⟩, ⟨.word "f", 5, 6⟩, ⟨.verbatim "x y", 7, 12⟩]

theorem tokenize_tiling_tightText : tokenize tightText = .ok tightTokens ∧
    ∃ xs, Tiling tightText tightTokens xs ∧ Spans tightText tightTokens xs := by
  have h : tokenize tightText = .ok tightTokens := by cbv
  obtain ⟨xs, hxs⟩ := tokenize_tiling h
  exact ⟨h, xs, hxs, hxs.spans (by decide)⟩

end Stencil
