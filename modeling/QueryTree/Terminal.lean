/-! Lines for a terminal.  A line is a list of spans, each with its style; `Span.render` writes the
style's codes around the text when colours are on, and the text alone when they are off. -/

namespace QueryTree

inductive Color where
  | red
  | green
  | yellow
  | cyan
  | white
deriving DecidableEq

def Color.code : Color → String
  | .red => "31"
  | .green => "32"
  | .yellow => "33"
  | .cyan => "36"
  | .white => "37"

/-- How a span of text looks. -/
inductive Style where
  | plain
  | dimmed
  | color (c : Color)
  | bold (c : Color)
deriving DecidableEq

def Style.codes? : Style → Option String
  | .plain => none
  | .dimmed => some "2"
  | .color c => some c.code
  | .bold c => some ("1;" ++ c.code)

/-- A text in one style. -/
structure Span where
  style : Style
  text : String

/-- A line of spans. -/
abbrev Line := List Span

/-- The escape sequence that switches to the given codes. -/
def escapeSequence (codes : String) : String := "\x1b[" ++ codes ++ "m"

/-- The text of a span.  Where the text itself ends a style, the span's own style starts again. -/
def Span.render (colors : Bool) (s : Span) : String :=
  match colors, s.style.codes? with
  | true, some codes =>
    let start := escapeSequence codes
    let stop := escapeSequence "0"
    start ++ s.text.replace stop (stop ++ start) ++ stop
  | _, _ => s.text

@[simp] theorem Span.render_false (s : Span) : s.render false = s.text := rfl

/-- The text of a line, with its line break. -/
def Line.render (colors : Bool) (line : Line) : String :=
  String.join (line.map (Span.render colors)) ++ "\n"

def Line.renderAll (colors : Bool) (lines : List Line) : String :=
  String.join (lines.map (Line.render colors))

namespace Span

def plain (text : String) : Span := ⟨.plain, text⟩

def dimmed (text : String) : Span := ⟨.dimmed, text⟩

def color (c : Color) (text : String) : Span := ⟨.color c, text⟩

def bold (c : Color) (text : String) : Span := ⟨.bold c, text⟩

end Span

end QueryTree
