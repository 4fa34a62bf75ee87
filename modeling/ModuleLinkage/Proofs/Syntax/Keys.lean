import ModuleLinkage.Proofs.Syntax.Insertion

/-!
# Written keys

A name is written as the key of a property bare or in quotes (`Text.propertyKey`). Either way the
lexer reads exactly that name where the key stands, and stops behind it (`readToken_propertyKey_iff`),
unless a bare key is made longer by what follows: what `Text.quote` escapes a string literal denotes
(`readToken_quoted`), and an identifier is read as one word exactly where no name goes on behind it
(`readToken_identifier_iff`).
-/

set_option autoImplicit false

namespace ModuleLinkage.Syntax

open Text Unicode

/-! ### Strings in quotes -/

/-- The characters of an escape that has been read are passed over. -/
theorem scanString_skip (quote : Char) (units : List Unit16) (offset : Nat) (escape rest : List Char) :
    scanString quote escape.length units offset (escape ++ rest) =
      scanString quote 0 units (offset + width escape) rest := by
  induction escape generalizing offset with
  | nil => rfl
  | cons c escape ih =>
    rw [List.length_cons, List.cons_append, scanString, ih, width_cons, Nat.add_assoc]

/-- Four digits are read as their number, unless that is half of a character. -/
theorem unicodeEscape_of_lt {a b c d : Char} {code : Nat} (ha : a ≠ '\x7b')
    (hnumber : hexNumber? [a, b, c, d] = some code) (hlt : code < 0xd800) (rest : List Char) :
    unicodeEscape (a :: b :: c :: d :: rest) = some (escapedCode code, 4) := by
  have hsingle : ¬ (decide (0xd800 ≤ code) && decide (code < 0xdc00)) = true := by
    simp only [Bool.and_eq_true, decide_eq_true_eq]
    omega
  unfold unicodeEscape
  split
  · next heq => exact absurd (List.cons.inj heq).1 ha
  · next heq =>
    simp only [List.cons.injEq] at heq
    obtain ⟨rfl, rfl, rfl, rfl, rfl⟩ := heq
    simp only [hnumber, Option.bind_eq_bind, Option.bind_some, fourDigitEscape, if_neg hsingle]
  · next hother => exact absurd rfl (hother _ _ _ _ _)

/-- A control character is written by its code, and read by it. -/
theorem readEscape_fourHex {c : Char} (hc : c < ' ') (rest : List Char) :
    readEscape ('u' :: (fourHex c.toNat ++ rest)) = some (.char c, 5) := by
  have hlt : c.toNat < 32 := hc
  have hall : ∀ code < 32, Nat.digitChar (code / 4096 % 16) ≠ '\x7b' ∧
      hexNumber? (fourHex code) = some code ∧ escapedCode code = .char (Char.ofNat code) := by
    decide
  obtain ⟨hbrace, hnumber, hdenoted⟩ := hall c.toNat hlt
  have hread := unicodeEscape_of_lt hbrace hnumber (by omega) rest
  rw [hdenoted, Char.ofNat_toNat] at hread
  change (unicodeEscape (fourHex c.toNat ++ rest)).map _ = _
  exact congrArg (Option.map _) hread

/-- A character in quotes is written by an escape that denotes it, or stands for itself. -/
theorem escapeChar_cases (c : Char) :
    (∃ escape, escapeChar c = '\\' :: escape ∧
      ∀ rest, readEscape (escape ++ rest) = some (.char c, escape.length)) ∨
    escapeChar c = [c] ∧ c ∉ ['"', '\\', '\n', '\r'] := by
  by_cases hnamed : c ∈ ['"', '\\', '\x08', '\t', '\n', '\x0c', '\r']
  · left
    simp only [List.mem_cons, List.not_mem_nil, or_false] at hnamed
    rcases hnamed with rfl | rfl | rfl | rfl | rfl | rfl | rfl <;> exact ⟨_, rfl, fun _ => rfl⟩
  · simp only [List.mem_cons, List.not_mem_nil, or_false, not_or] at hnamed
    obtain ⟨hquote, hslash, hback, htab, hfeed, hform, hreturn⟩ := hnamed
    by_cases hcontrol : c < ' '
    · left
      refine ⟨'u' :: fourHex c.toNat, ?_, readEscape_fourHex hcontrol⟩
      simp [escapeChar, hquote, hslash, hback, htab, hfeed, hform, hreturn, hcontrol]
    · right
      constructor
      · simp [escapeChar, hquote, hslash, hback, htab, hfeed, hform, hreturn, hcontrol]
      · simp [hquote, hslash, hfeed, hreturn]

/-- A written character is read as that character. -/
theorem scanString_escapeChar (c : Char) (units : List Unit16) (offset : Nat) (rest : List Char) :
    scanString '"' 0 units offset (escapeChar c ++ rest) =
      scanString '"' 0 (.char c :: units) (offset + width (escapeChar c)) rest := by
  rcases escapeChar_cases c with ⟨escape, hescape, hread⟩ | ⟨hplain, hother⟩
  · rw [hescape, List.cons_append, scanString]
    simp only [hread, width_cons]
    rw [← Nat.add_assoc, ← scanString_skip]
    rfl
  · simp only [List.mem_cons, List.not_mem_nil, or_false, not_or] at hother
    obtain ⟨hquote, hslash, hfeed, hreturn⟩ := hother
    rw [hplain, List.singleton_append, scanString]
    simp [hquote, hslash, hfeed, hreturn]

/-- A written text is read as that text, up to the quote behind it. -/
theorem scanString_flatMap_escapeChar (text : List Char) (units : List Unit16) (offset : Nat)
    (rest : List Char) :
    scanString '"' 0 units offset (text.flatMap escapeChar ++ '"' :: rest) =
      some (units.reverse ++ text.map Unit16.char,
        ⟨rest, offset + width (text.flatMap escapeChar) + 1⟩) := by
  induction text generalizing units offset with
  | nil =>
    rw [List.flatMap_nil, List.nil_append, scanString, beq_self_eq_true, if_pos rfl, List.map_nil,
      List.append_nil]
    rfl
  | cons c text ih =>
    rw [List.flatMap_cons, List.append_assoc, scanString_escapeChar, ih]
    simp [Nat.add_assoc]

/-- The value of a string literal without surrogates is its text. -/
theorem ofUnits_map_char (text : List Char) :
    StringValue.ofUnits (text.map Unit16.char) = ⟨String.ofList text, true⟩ := by
  simp [StringValue.ofUnits, List.flatMap_map]

/-- A quoted text is read as a string literal with that value, up to where the text ends. -/
theorem readToken_quoted (text rest : List Char) (offset : Nat) :
    readToken ⟨quote text ++ rest, offset⟩ =
      (.string ⟨String.ofList text, true⟩, ⟨rest, offset + width (quote text)⟩) := by
  have hscan := scanString_flatMap_escapeChar text [] (offset + 1) rest
  have hstart : (isIdentifierStart '"' || '"' == '\\') = false := by decide
  have hdigit : isAsciiDigit '"' = false := by decide
  have hwidth : width (quote text) = 1 + width (text.flatMap escapeChar) + 1 := by
    rw [quote, width_cons, width_append, Nat.add_assoc]
    rfl
  rw [hwidth, quote, List.cons_append, List.append_assoc, List.singleton_append, readToken]
  simp only [hstart, hdigit, Bool.false_eq_true, if_false, beq_self_eq_true, Bool.true_or, if_true]
  change readString '"' ⟨_, offset + 1⟩ = _
  rw [readString, hscan]
  dsimp only
  rw [List.reverse_nil, List.nil_append, ofUnits_map_char, Nat.add_assoc, Nat.add_assoc,
    Nat.add_assoc]

/-! ### Identifiers -/

/-- Whether a name that stands in front of a text goes on in it. -/
def ContinuesName (text : List Char) : Prop :=
  ∃ c ∈ text.head?, isIdentifierPart c = true ∨ c = '\\'

theorem continuesName_cons {c : Char} {text : List Char} :
    ContinuesName (c :: text) ↔ isIdentifierPart c = true ∨ c = '\\' := by
  simp [ContinuesName]

theorem isIdentifier_of_isPlainIdentifier {name : List Char} (hname : isPlainIdentifier name = true) :
    isIdentifier name = true := by
  obtain ⟨c, rest, rfl, hstart, hparts⟩ := exists_of_isPlainIdentifier hname
  refine Bool.and_eq_true_iff.mpr ⟨isIdentifierStart_of_isPlainStart hstart, ?_⟩
  exact List.all_eq_true.mpr fun d hd => isIdentifierPart_of_isPlainPart (List.all_eq_true.mp hparts d hd)

/-- The parts of a name are read one by one. -/
theorem scanName_parts {name : List Char} (hname : name.all isIdentifierPart = true)
    (read : List Char) (offset : Nat) (rest : List Char) :
    scanName false false 0 read offset (name ++ rest) =
      scanName false false 0 (name.reverse ++ read) (offset + width name) rest := by
  induction name generalizing read offset with
  | nil => rfl
  | cons c name ih =>
    rw [List.all_cons, Bool.and_eq_true] at hname
    rw [List.cons_append, scanName_cons, if_pos (show fitsName false c = true from hname.1),
      ih hname.2, width_cons, Nat.add_assoc, List.reverse_cons, List.append_assoc]
    rfl

/-- Where an identifier stands, a name is read that begins with it. -/
theorem readToken_name {name : List Char} (hname : isIdentifier name = true) (rest : List Char)
    (offset : Nat) : readToken ⟨name ++ rest, offset⟩ =
      (scanName false false 0 name.reverse (offset + width name) rest).elim
        (.invalid, ⟨name ++ rest, offset⟩)
        fun found => (.word (String.ofList found.chars) found.escaped, found.next) := by
  rcases name with _ | ⟨c, name⟩
  · cases hname
  obtain ⟨hstart, hparts⟩ := Bool.and_eq_true_iff.mp hname
  rw [List.cons_append, readToken]
  simp only [hstart, Bool.true_or, if_true]
  rw [readNameAs, readName?]
  dsimp only
  rw [scanName_cons, if_pos (show fitsName true c = true from hstart), scanName_parts hparts, width_cons,
    Nat.add_assoc, List.reverse_cons]
  cases scanName false false 0 (name.reverse ++ [c]) (offset + (c.utf8Size + width name)) rest <;> rfl

/-- An identifier is read as that word where no name goes on behind it. -/
theorem readToken_identifier {name rest : List Char} (hname : isIdentifier name = true)
    (hrest : ¬ ContinuesName rest) (offset : Nat) : readToken ⟨name ++ rest, offset⟩ =
      (.word (String.ofList name) false, ⟨rest, offset + width name⟩) := by
  rw [readToken_name hname]
  rcases rest with _ | ⟨c, rest⟩
  · simp [scanName]
  · rw [continuesName_cons, not_or, Bool.not_eq_true] at hrest
    rw [scanName_cons, if_neg (by simp [fitsName, hrest.1]), if_neg hrest.2]
    simp

/-- Where a name goes on behind an identifier, what is read takes more than the identifier. -/
theorem length_of_scanName_of_continues {read rest : List Char} {offset : Nat} {found : Name}
    (hrest : ContinuesName rest) (hscan : scanName false false 0 read offset rest = some found) :
    found.next.rest.length < rest.length := by
  rcases rest with _ | ⟨c, rest⟩
  · obtain ⟨c, hc, -⟩ := hrest
    cases hc
  rw [continuesName_cons] at hrest
  rw [scanName_cons] at hscan
  rw [List.length_cons]
  split at hscan
  · have := length_of_scanName hscan (Nat.zero_le _)
    omega
  · next hpart =>
    obtain rfl : c = '\\' := hrest.resolve_left hpart
    rw [if_pos rfl] at hscan
    split at hscan
    · next hescape =>
      have := length_of_scanName hscan (le_of_nameEscape? hescape).2
      omega
    · cases hscan

/-- An identifier is read as one word exactly where no name goes on behind it. -/
theorem readToken_identifier_iff {name : List Char} (hname : isIdentifier name = true)
    (rest : List Char) (offset : Nat) : readToken ⟨name ++ rest, offset⟩ =
      (.word (String.ofList name) false, ⟨rest, offset + width name⟩) ↔ ¬ ContinuesName rest := by
  refine ⟨fun hread hcontinues => ?_, fun hrest => readToken_identifier hname hrest offset⟩
  rw [readToken_name hname] at hread
  cases hscan : scanName false false 0 name.reverse (offset + width name) rest with
  | some found =>
    rw [hscan] at hread
    have hlength := length_of_scanName_of_continues hcontinues hscan
    rw [(Prod.mk.inj hread).2] at hlength
    exact absurd hlength (Nat.lt_irrefl _)
  | none =>
    rw [hscan] at hread
    cases congrArg Prod.fst hread

/-! ### Keys -/

/-- The token that the written key of a name is. -/
def keyToken (name : List Char) : Token :=
  if isPlainIdentifier name then .word (String.ofList name) false else .string ⟨String.ofList name, true⟩

/-- The name that a token gives to a property, if it may stand in front of one. -/
def propertyName? : Token → Option String
  | .word name _ => some name
  | .string value => some value.text
  | _ => none

/-- Bare or in quotes, a key names the property that it is written for. -/
theorem propertyName?_keyToken (name : List Char) :
    propertyName? (keyToken name) = some (String.ofList name) := by
  unfold keyToken
  split <;> rfl

/-- The written key of a name is read as one token exactly if it is in quotes or no name goes on behind
it. -/
theorem readToken_propertyKey_iff (name rest : List Char) (offset : Nat) :
    readToken ⟨Text.propertyKey name ++ rest, offset⟩ =
        (keyToken name, ⟨rest, offset + width (Text.propertyKey name)⟩) ↔
      (isPlainIdentifier name = true → ¬ ContinuesName rest) := by
  unfold keyToken Text.propertyKey
  by_cases hplain : isPlainIdentifier name = true
  · rw [if_pos hplain, if_pos hplain,
      readToken_identifier_iff (isIdentifier_of_isPlainIdentifier hplain)]
    exact ⟨fun hends _ => hends, fun hends => hends hplain⟩
  · rw [if_neg hplain, if_neg hplain]
    exact ⟨fun _ hpositive => absurd hpositive hplain, fun _ => readToken_quoted name rest offset⟩

/-- **Written keys.** In front of a parenthesis, the written key of a name is read as that name: as a
word or as a string literal. -/
theorem readToken_propertyKey (name rest : List Char) (offset : Nat) :
    ∃ stop, readToken ⟨Text.propertyKey name ++ '(' :: rest, offset⟩ =
      (if isPlainIdentifier name then .word (String.ofList name) false
        else .string ⟨String.ofList name, true⟩, ⟨'(' :: rest, stop⟩) :=
  ⟨_, (readToken_propertyKey_iff name ('(' :: rest) offset).mpr fun _ =>
    continuesName_cons.not.mpr (by decide)⟩

end ModuleLinkage.Syntax
