/-! # Headings — chapters and their parts, numbered by place

    Chapters and their parts form a tree.  The numbers of a heading are the
    positions, counted from one, on the way down to it.  Its title shows as many
    of the innermost numbers as the heading asks for, each followed by a
    point. -/

namespace Pdf

/-- A heading without its numbers, and the headings below it. -/
inductive Heading where
  /-- The title shows at most `visible` numbers. -/
  | node (title : String) (visible : Nat) (children : List Heading)

/-- A heading with its numbers, the one of the chapter first. -/
inductive NumberedHeading where
  | node (title : String) (visible : Nat) (numbers : List Nat)
      (children : List NumberedHeading)

namespace Heading

mutual

/-- A heading that is the `position`-th one below a heading with some
    numbers. -/
def number (parents : List Nat) (position : Nat) : Heading → NumberedHeading
  | node title visible children =>
      .node title visible (parents ++ [position])
        (numberFrom (parents ++ [position]) 1 children)

/-- Headings below a heading with some numbers, counted from `position` on. -/
def numberFrom (parents : List Nat) (position : Nat) :
    List Heading → List NumberedHeading
  | [] => []
  | h :: rest =>
      h.number parents position :: numberFrom parents (position + 1) rest

end

/-- The chapters of a document with their numbers. -/
def numberAll (chapters : List Heading) : List NumberedHeading :=
  numberFrom [] 1 chapters

end Heading

namespace NumberedHeading

/-- The title without numbers. -/
def bareTitle : NumberedHeading → String
  | node title _ _ _ => title

/-- How many numbers the title shows at most. -/
def visible : NumberedHeading → Nat
  | node _ visible _ _ => visible

/-- The numbers of the heading, the one of the chapter first. -/
def numbers : NumberedHeading → List Nat
  | node _ _ numbers _ => numbers

/-- The headings below. -/
def children : NumberedHeading → List NumberedHeading
  | node _ _ _ children => children

/-- How deep the heading lies; chapters have depth 1. -/
def depth (h : NumberedHeading) : Nat := h.numbers.length

/-- The numbers that the title shows: the innermost ones. -/
def shownNumbers (h : NumberedHeading) : List Nat :=
  h.numbers.drop (h.depth - min h.visible h.depth)

/-- Numbers as a title shows them, each followed by a point. -/
def dotted (numbers : List Nat) : String :=
  String.join (numbers.map fun n => toString n ++ ".")

/-- The title behind its numbers. -/
def title (h : NumberedHeading) : String :=
  if h.shownNumbers.isEmpty then h.bareTitle
  else dotted h.shownNumbers ++ " " ++ h.bareTitle

end NumberedHeading

end Pdf
