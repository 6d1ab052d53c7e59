import Stencil.Proofs.Function.ScriptLiteral

/-!
# Texts in the query of an address

What a text becomes in the query of an address, and how it is read back: a percent sign in front of two
digits stands for the byte of the digits, and the bytes are those of the text.

* `Query.Encoded` are the texts of unreserved characters and of bytes in digits.
* `Query.decoded` reads the bytes of a text, and `Query.decoded_encoded` says that it reads encoded bytes.
* `Function.encoders_decodable` puts the escape for the literals of scripts and this one together.
-/

namespace Stencil

open Text (Each)

namespace Query

/-- The digits of bytes, with upper case letters. -/
def hexDigits : List Char := "0123456789ABCDEF".toList

/-- The text consists of letters, figures and marks, and of percent signs with two digits. -/
inductive Encoded : List Char → Prop
  | nil : Encoded []
  | unreserved {c : Char} {s : List Char} (hc : c.isAlphanum = true ∨ c ∈ ['.', '-', '_', '~'])
    (h : Encoded s) : Encoded (c :: s)
  | byte {a b : Char} {s : List Char} (ha : a ∈ hexDigits) (hb : b ∈ hexDigits) (h : Encoded s) :
    Encoded ('%' :: a :: b :: s)

/-- The bytes of a text in which percent signs with two digits stand for bytes. -/
def decoded : List Char → List UInt8
  | [] => []
  | '%' :: a :: b :: s =>
    match digitsValue? 16 [a, b] with
    | some n => UInt8.ofNat n :: decoded s
    | none => String.utf8EncodeChar '%' ++ decoded (a :: b :: s)
  | c :: s => String.utf8EncodeChar c ++ decoded s

variable {s : List Char}

theorem Encoded.append_queryByte (h : Encoded s) (b : UInt8) : Encoded (Function.queryByte b ++ s) := by
  unfold Function.queryByte
  have hdigit : ∀ v < 16, (Nat.digitChar v).toUpper ∈ hexDigits := by decide
  split
  · next hb => exact .unreserved (by simpa [Function.isQueryByte, or_assoc] using hb) h
  · have hlt := b.toNat_lt
    exact .byte (hdigit _ (by omega)) (hdigit _ (by omega)) h

theorem encoded_bytes (bs : List UInt8) : Encoded (bs.flatMap Function.queryByte) := by
  induction bs with
  | nil => exact .nil
  | cons b bs ih => rw [List.flatMap_cons]; exact ih.append_queryByte b

/-- A byte that stays as it is stands for itself. -/
theorem utf8EncodeChar_of_isQueryByte {b : UInt8} (hb : Function.isQueryByte b = true) :
    Char.ofNat b.toNat ≠ '%' ∧ String.utf8EncodeChar (Char.ofNat b.toNat) = [b] := by
  have hall : ∀ n < 256, Function.isQueryByte (UInt8.ofNat n) = true →
      Char.ofNat n ≠ '%' ∧ String.utf8EncodeChar (Char.ofNat n) = [UInt8.ofNat n] := by
    decide +kernel
  have hbyte := hall b.toNat b.toNat_lt
  rw [UInt8.ofNat_toNat] at hbyte
  exact hbyte hb

/-- The digits of a byte are read as the byte. -/
theorem digitsValue?_byte (b : UInt8) :
    digitsValue? 16 [(Nat.digitChar (b.toNat / 16)).toUpper, (Nat.digitChar (b.toNat % 16)).toUpper] =
      some b.toNat := by
  have hall : ∀ n < 256,
      digitsValue? 16 [(Nat.digitChar (n / 16)).toUpper, (Nat.digitChar (n % 16)).toUpper] = some n := by
    decide +kernel
  exact hall b.toNat b.toNat_lt

/-- **A byte is read back.** -/
theorem decoded_queryByte (b : UInt8) (s : List Char) :
    decoded (Function.queryByte b ++ s) = b :: decoded s := by
  unfold Function.queryByte
  split
  · next hb =>
    obtain ⟨hpercent, hencode⟩ := utf8EncodeChar_of_isQueryByte hb
    rw [List.singleton_append, decoded, hencode, List.singleton_append]
    exact fun _ _ _ h => absurd h hpercent
  · simp only [List.cons_append, List.nil_append]
    rw [decoded, digitsValue?_byte]
    dsimp only
    rw [UInt8.ofNat_toNat]

theorem decoded_encoded (bs : List UInt8) : decoded (bs.flatMap Function.queryByte) = bs := by
  induction bs with
  | nil => rfl
  | cons b bs ih => rw [List.flatMap_cons, decoded_queryByte, ih]

end Query

namespace Function

/-- The bytes of a text are decoded to the text. -/
theorem fromUTF8?_bytes (s : String) : String.fromUTF8? ⟨(Value.bytes s).toArray⟩ = some s := by
  have hbytes : (⟨(Value.bytes s).toArray⟩ : ByteArray) = s.toUTF8 := by simp [Value.bytes]
  rw [hbytes]
  exact dif_pos s.isValidUTF8

/-- **What is escaped for a literal or an address can be read back.** -/
theorem encoders_decodable (args : List Value) :
    (∃ t : String, js args = .ok (.text t) ∧
      Each (fun c => c ∉ ['<', '>', '&', '='] ∧ 0x20 ≤ c.toNat) t ∧
      ScriptLiteral.Guarded t.toList ∧
      ∀ quote ∈ ['\'', '"'],
        ScriptLiteral.units? quote t.toList = some ((printed false args).toList.flatMap codeUnits) ∧
        ScriptLiteral.text? quote t.toList = some (printed false args).toList) ∧
    ∃ t : String, urlquery args = .ok (.text t) ∧ Query.Encoded t.toList ∧
      String.fromUTF8? ⟨(Query.decoded t.toList).toArray⟩ = some (printed false args) := by
  refine ⟨⟨_, rfl, ScriptLiteral.each_escaped _, ?_, fun quote hquote => ?_⟩, _, rfl, ?_, ?_⟩
  · rw [String.toList_ofList]
    exact ScriptLiteral.guarded_escaped _
  · simp only [List.mem_cons, List.not_mem_nil, or_false] at hquote
    rw [String.toList_ofList]
    exact ⟨ScriptLiteral.units?_escaped hquote _, ScriptLiteral.text?_escaped hquote _⟩
  · rw [String.toList_ofList]
    exact Query.encoded_bytes _
  · rw [String.toList_ofList, Query.decoded_encoded]
    exact fromUTF8?_bytes _

end Function

end Stencil
