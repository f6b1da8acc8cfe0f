import GridQuery.Text.WordTable
/-!
# Word characters and word edges

Names and keywords are runs of word characters. A position is a word edge when exactly one of its
two neighbours is a word character; the ends of a text count as neighbours that are not.
-/

namespace GridQuery.Text

/-- Whether `c` can be part of a word. -/
def isWord (c : Char) : Bool :=
  if c.toNat < 128 then c.isAlphanum || c == '_' else CodeRange.anyContains wordRanges c

/-- Whether a word edge lies between `before` and `after`, where `none` stands for the end of the
text. -/
def isEdge (before after : Option Char) : Bool := before.any isWord != after.any isWord

@[simp] theorem isEdge_none_none : isEdge none none = false := rfl

end GridQuery.Text
