import ModuleLinkage.Text.Span

/-!
Edits over an unchanging source text. Every edit names a range of the source by byte offsets and
the text that replaces it. Rendering puts the edits in order, leaves out those that start inside
an earlier one, and copies everything between the kept ranges as it stands.
-/

set_option autoImplicit false

namespace ModuleLinkage.Text

/-- Where an edit stands among the edits of the same range: a hoisted text comes before every
other text. -/
inductive Placement where
  | hoisted
  | inline
  deriving Repr, DecidableEq, Inhabited

/-- The order of placements, hoisted first. -/
def Placement.rank : Placement → Nat
  | .hoisted => 0
  | .inline => 1

/-- `text` in place of the characters that `span` covers. -/
structure Edit where
  span : Span
  text : List Char
  placement : Placement
  deriving Repr, DecidableEq, Inhabited

namespace Edit

/-- Replaces the characters of `span` by `text`. -/
def replacement (span : Span) (text : List Char) : Edit :=
  ⟨span, text, .inline⟩

/-- The line feeds and carriage returns of `text`. -/
def lineBreaks (text : List Char) : List Char :=
  text.filter fun c => c == '\n' || c == '\r'

/-- Removes from `source` the characters of `span` except for its line breaks, so that later lines
keep their numbers. -/
def removal (source : List Char) (span : Span) : Edit :=
  replacement span (lineBreaks (slice source span))

/-- Puts `text` at `offset`, after the texts put there before. -/
def insertion (offset : Nat) (text : List Char) : Edit :=
  ⟨.at offset, text, .inline⟩

/-- Puts `text` at `offset`, ahead of everything that is inserted there. -/
def hoisting (offset : Nat) (text : List Char) : Edit :=
  ⟨.at offset, text, .hoisted⟩

/-- The order in which edits are rendered: by start, then by end, then hoisted texts first. -/
def precedes (first second : Edit) : Bool :=
  first.span.start < second.span.start ||
    (first.span.start == second.span.start &&
      (first.span.stop < second.span.stop ||
        (first.span.stop == second.span.stop &&
          first.placement.rank ≤ second.placement.rank)))

end Edit

/-- A source text and the edits recorded over it, in the order of recording. -/
structure EditList where
  source : List Char
  recorded : Array Edit
  deriving Repr, Inhabited

namespace EditList

/-- No edits over `source`. -/
def ofSource (source : List Char) : EditList :=
  ⟨source, #[]⟩

/-- The number of recorded edits, those that rendering leaves out included. -/
def size (edits : EditList) : Nat :=
  edits.recorded.size

def isEmpty (edits : EditList) : Bool :=
  edits.recorded.isEmpty

def record (edits : EditList) (edit : Edit) : EditList :=
  { edits with recorded := edits.recorded.push edit }

/-- Records the replacement of the characters of `span` by `text`. -/
def overwrite (edits : EditList) (span : Span) (text : List Char) : EditList :=
  edits.record (.replacement span text)

/-- Records the removal of the characters of `span`, line breaks excepted. -/
def remove (edits : EditList) (span : Span) : EditList :=
  edits.record (.removal edits.source span)

/-- Records `text` to be put at `offset`, after the texts inserted there before. -/
def insert (edits : EditList) (offset : Nat) (text : List Char) : EditList :=
  edits.record (.insertion offset text)

/-- Records `text` to be put at `offset`, ahead of everything that is inserted there. -/
def prepend (edits : EditList) (offset : Nat) (text : List Char) : EditList :=
  edits.record (.hoisting offset text)

/-- Records all of `more`, in order. -/
def recordAll (edits : EditList) (more : List Edit) : EditList :=
  more.foldl record edits

/-- The recorded edits in rendering order; edits that compare equal keep the order of
recording. -/
def ordered (edits : EditList) : List Edit :=
  edits.recorded.toList.mergeSort Edit.precedes

/-- The edits of an ordered list that do not start before `cursor`, the end of the edit kept
last. -/
def keep : Nat → List Edit → List Edit
  | _, [] => []
  | cursor, edit :: rest =>
    if edit.span.start < cursor then keep cursor rest else edit :: keep edit.span.stop rest

/-- The edits that take part in the rendered text. -/
def kept (edits : EditList) : List Edit :=
  keep 0 edits.ordered

/-- `rest`, the source from offset `cursor` on, with the ranges of `edits` replaced. -/
def splice : Nat → List Char → List Edit → List Char
  | _, rest, [] => rest
  | cursor, rest, edit :: edits =>
    takeBytes (edit.span.start - cursor) rest ++ edit.text ++
      splice edit.span.stop (dropBytes (edit.span.stop - cursor) rest) edits

/-- The source with every kept edit in place. -/
def render (edits : EditList) : List Char :=
  splice 0 edits.source edits.kept

@[simp] theorem render_ofSource (source : List Char) : (ofSource source).render = source := by
  simp [render, kept, ordered, ofSource, keep, splice]

@[simp] theorem size_record (edits : EditList) (edit : Edit) :
    (edits.record edit).size = edits.size + 1 := by
  simp [size, record]

end EditList

end ModuleLinkage.Text
