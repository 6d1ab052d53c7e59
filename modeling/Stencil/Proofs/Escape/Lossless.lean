import Stencil.Proofs.Escape.Entities
import Stencil.Proofs.Json.Printing
import Stencil.Proofs.Json.Reading

/-!
# Escaping loses nothing

What is escaped can be read back: the entities of the body are replaced by their characters, and the
escapes of a script denote them inside the strings of JSON.

* `Escape.flatMap_scriptChar_eq` says that only four characters are changed in a script, and none of them
  stands outside of a string.
* `Json.Denotes.script` says that the change keeps what JSON text denotes.
* `Value.escaping_lossless` is the conclusion, for the body and for a script.
-/

namespace Stencil

variable {s t : List Char} {c : Char}

namespace Escape

/-- The characters that are changed in a script. -/
def scriptChanged : List Char := ['<', '>', '&', '\'']

theorem scriptChar_eq (h : c ∉ scriptChanged) : scriptChar c = [c] := by
  simp only [scriptChanged, List.mem_cons, List.not_mem_nil, or_false, not_or] at h
  simp [scriptChar, h]

theorem flatMap_scriptChar_eq (h : ∀ c ∈ s, c ∉ scriptChanged) : s.flatMap scriptChar = s := by
  rw [List.flatMap_congr fun c hc => scriptChar_eq (h c hc)]
  exact List.flatMap_singleton' s

/-- A character that is changed becomes the escape of its code. -/
theorem exists_scriptChar (h : c ∈ scriptChanged) :
    ∃ ds, scriptChar c = '\\' :: 'u' :: ds ∧ FourDigits ds c.toNat := by
  simp only [scriptChanged, List.mem_cons, List.not_mem_nil, or_false] at h
  rcases h with rfl | rfl | rfl | rfl
  · exact ⟨"003c".toList, rfl, fourDigits_of_value rfl (by decide)⟩
  · exact ⟨"003e".toList, rfl, fourDigits_of_value rfl (by decide)⟩
  · exact ⟨"0026".toList, rfl, fourDigits_of_value rfl (by decide)⟩
  · exact ⟨"0027".toList, rfl, fourDigits_of_value rfl (by decide)⟩

end Escape

namespace Json

open Escape (scriptChar scriptChanged scriptChar_eq flatMap_scriptChar_eq exists_scriptChar)

/-! ## Inside of strings -/

/-- The escape of a code unit is not changed. -/
theorem flatMap_scriptChar_unit {ds : List Char} {n : Nat} (h : FourDigits ds n) (s : List Char) :
    ('\\' :: 'u' :: (ds ++ s)).flatMap scriptChar = '\\' :: 'u' :: (ds ++ s.flatMap scriptChar) := by
  have hnone : ∀ c ∈ scriptChanged, c.isAlphanum = false := by simp [scriptChanged]
  have hds : ds.flatMap scriptChar = ds := flatMap_scriptChar_eq fun c hc hmem => by
    have halphanum := h.2.isAlphanum (Nat.le_refl 16) hc
    rw [hnone c hmem] at halphanum
    cases halphanum
  rw [List.flatMap_cons, List.flatMap_cons, List.flatMap_append, hds]
  rfl

/-- **A string of a script denotes what it did.** -/
theorem DenotesString.script (h : DenotesString s t) : DenotesString (s.flatMap scriptChar) t := by
  induction h with
  | nil => exact .nil
  | @char c s t hquote hbackslash hcontrol _ ih =>
    rw [List.flatMap_cons]
    by_cases hc : c ∈ scriptChanged
    · obtain ⟨ds, heq, hds⟩ := exists_scriptChar hc
      rw [heq]
      exact .unit hds ih
    · rw [scriptChar_eq hc]
      exact .char hquote hbackslash hcontrol ih
  | @letter e c s t he _ ih =>
    have hall : ∀ p ∈ stringEscapes, scriptChar p.1 = [p.1] := by decide
    rw [List.flatMap_cons, List.flatMap_cons, hall _ he]
    exact .letter he ih
  | unit hc _ ih =>
    rw [flatMap_scriptChar_unit hc]
    exact .unit hc ih
  | pair hhigh hlow hhighs hlows hc _ ih =>
    rw [flatMap_scriptChar_unit hhigh, flatMap_scriptChar_unit hlow]
    exact .pair hhigh hlow hhighs hlows hc ih

/-! ## Outside of strings -/

theorem NumberText.flatMap_scriptChar (h : NumberText t) : t.flatMap scriptChar = t := by
  have hnone : ∀ c ∈ scriptChanged, isNumeral c = false := by simp [scriptChanged, isNumeral]
  obtain ⟨c, s, rfl, hc, hs⟩ := h.exists_cons
  have hall : (c :: s).all isNumeral = true := by rw [List.all_cons, hc, hs]; rfl
  refine flatMap_scriptChar_eq fun d hd hmem => ?_
  have hnumeral := List.all_eq_true.1 hall d hd
  rw [hnone d hmem] at hnumeral
  cases hnumeral

theorem flatMap_commas {f : Char → List Char} (hcomma : f ',' = [',']) (ts : List (List Char)) :
    (commas ts).flatMap f = commas (ts.map (·.flatMap f)) := by
  induction ts with
  | nil => rfl
  | cons t ts ih =>
    cases ts with
    | nil => simp [commas]
    | cons u ts =>
      have hcommas : commas (t :: u :: ts) = t ++ ',' :: commas (u :: ts) := rfl
      rw [hcommas, List.flatMap_append, List.flatMap_cons, hcomma, ih]
      rfl

theorem flatMap_between {f : Char → List Char} {a b : Char} (ha : f a = [a]) (hb : f b = [b])
    (s : List Char) : (a :: s ++ [b]).flatMap f = a :: s.flatMap f ++ [b] := by
  simp [ha, hb]

/-- A member of an object in a script. -/
def Member.script (m : Member) : Member :=
  { m with nameText := m.nameText.flatMap scriptChar, text := m.text.flatMap scriptChar }

theorem Member.written_script (m : Member) : m.script.written = m.written.flatMap scriptChar := by
  have hquote : scriptChar '"' = ['"'] := rfl
  have hcolon : scriptChar ':' = [':'] := rfl
  simp [written, script, hquote, hcolon]

/-- **JSON text in a script denotes what it did.** -/
theorem Denotes.script {j : Json} (h : Denotes t j) : Denotes (t.flatMap scriptChar) j := by
  induction h with
  | null => exact .null
  | bool b => cases b with
    | false => exact .bool false
    | true => exact .bool true
  | number h hj =>
    rw [h.flatMap_scriptChar]
    exact .number h hj
  | string h =>
    rw [flatMap_between rfl rfl]
    exact .string h.script
  | @array items _ ih =>
    let scripted := items.map fun p => (p.1.flatMap scriptChar, p.2)
    have htexts : (items.map Prod.fst).map (·.flatMap scriptChar) = scripted.map Prod.fst := by
      simp [scripted]
    have hvalues : items.map Prod.snd = scripted.map Prod.snd := by simp [scripted]
    rw [flatMap_between rfl rfl, flatMap_commas rfl, htexts, hvalues]
    exact .array (List.forall_mem_map.2 ih)
  | @object members hnames _ ih =>
    let scripted := members.map Member.script
    have htexts : (members.map Member.written).map (·.flatMap scriptChar) =
        scripted.map Member.written := by
      simp [scripted, Member.written_script]
    have hentries : members.map Member.entry = scripted.map Member.entry := by
      simp [scripted, Member.script, Member.entry]
    rw [flatMap_between rfl rfl, flatMap_commas rfl, htexts, hentries]
    exact .object (List.forall_mem_map.2 fun m hm => (hnames m hm).script) (List.forall_mem_map.2 ih)

end Json

/-! ## Both contexts -/

namespace Value

/-- **Escaping loses nothing.** A text is got back from its escape for the body by replacing entities, and
what is written in a script of a value that is no safe text is JSON text of the value that the JSON text of
the value itself denotes. -/
theorem escaping_lossless (s : String) (v : Value) (hv : v.isSafe = false) :
    Escape.unescape (Escape.html s).toList = s.toList ∧
    ∃ j, Json.Denotes v.toJson.text.toList j ∧ Json.Denotes (v.written .html .script).toList j ∧
      Json.parse? v.toJson.text = some j ∧ Json.parse? (v.written .html .script) = some j := by
  refine ⟨Escape.unescape_html s, ?_⟩
  obtain ⟨j, hj⟩ := Json.exists_denotes v.toJson
  have hplain : Json.Denotes v.toJson.text.toList j := by rwa [Json.text, String.toList_ofList]
  have hwritten : (v.written .html .script).toList = v.toJson.text.toList.flatMap Escape.scriptChar := by
    simp [written, hv, escaped, Escape.script]
  have hscript : Json.Denotes (v.written .html .script).toList j := hwritten ▸ hplain.script
  have hread := Json.parse?_of_denotes hplain
  have hread' := Json.parse?_of_denotes hscript
  rw [String.ofList_toList] at hread hread'
  exact ⟨j, hplain, hscript, hread, hread'⟩

/-- Markup in a text, and in the items and the entries of a map. -/
theorem escaping_lossless_markup :
    let v := Value.map [("<k>", .list [.safeText "</script>", .undefined]), ("n", .int (-3))]
    v.isSafe = false ∧ Escape.unescape (Escape.html "&lt;<é>").toList = "&lt;<é>".toList ∧
    ∃ j, Json.Denotes v.toJson.text.toList j ∧ Json.Denotes (v.written .html .script).toList j ∧
      Json.parse? v.toJson.text = some j ∧ Json.parse? (v.written .html .script) = some j :=
  ⟨rfl, escaping_lossless _ _ rfl⟩

/-- **Safe text is no JSON text.** It is written as it is. -/
theorem safeText_written_as_is :
    ¬ ∃ j, Json.parse? ((Value.safeText "a").written .html .script) = some j ∧
      Json.parse? (Value.safeText "a").toJson.text = some j := by
  rintro ⟨j, hj, -⟩
  have hnone : Json.parse? ((Value.safeText "a").written .html .script) = Option.none := by cbv
  rw [hnone] at hj
  cases hj

end Value

end Stencil
