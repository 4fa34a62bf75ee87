/-!
Places in a source text. An offset counts UTF-8 bytes from the start of the text, while the text
itself is handled as a list of characters; `takeBytes` and `dropBytes` cut such a list at an
offset, and together lose nothing.
-/

set_option autoImplicit false

namespace ModuleLinkage.Text

/-- The bytes from `start` up to, but not including, `stop`. -/
structure Span where
  start : Nat
  stop : Nat
  deriving Repr, DecidableEq, Inhabited

/-- The empty span at one offset. -/
def Span.at (offset : Nat) : Span :=
  ⟨offset, offset⟩

/-- The number of bytes that `text` takes in UTF-8. -/
def width : List Char → Nat
  | [] => 0
  | c :: rest => c.utf8Size + width rest

/-- The characters that lie wholly within the first `bytes` bytes. -/
def takeBytes : Nat → List Char → List Char
  | _, [] => []
  | bytes, c :: rest =>
    if c.utf8Size ≤ bytes then c :: takeBytes (bytes - c.utf8Size) rest else []

/-- What `takeBytes` leaves. -/
def dropBytes : Nat → List Char → List Char
  | _, [] => []
  | bytes, c :: rest =>
    if c.utf8Size ≤ bytes then dropBytes (bytes - c.utf8Size) rest else c :: rest

@[simp] theorem width_nil : width [] = 0 := rfl

@[simp] theorem width_cons (c : Char) (rest : List Char) :
    width (c :: rest) = c.utf8Size + width rest := rfl

@[simp] theorem width_append (first second : List Char) :
    width (first ++ second) = width first + width second := by
  induction first with
  | nil => simp
  | cons c rest ih => simp [ih, Nat.add_assoc]

theorem takeBytes_append_dropBytes (bytes : Nat) (text : List Char) :
    takeBytes bytes text ++ dropBytes bytes text = text := by
  induction text generalizing bytes with
  | nil => rfl
  | cons c rest ih => by_cases h : c.utf8Size ≤ bytes <;> simp [takeBytes, dropBytes, h, ih]

/-- The part of `text` that `span` covers. -/
def slice (text : List Char) (span : Span) : List Char :=
  takeBytes (span.stop - span.start) (dropBytes span.start text)

end ModuleLinkage.Text
