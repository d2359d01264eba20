/-!
# Indented source text

Source text is put together from fragments: lines, blank lines, blocks whose body stands one level
deeper, and documentation comments.  Each line is indented by the depth at which it stands; a blank
line is not.
-/

namespace RestPlugin.Code

/-- A piece of source text. -/
inductive Fragment where
  | line (text : String)
  | blank
  | block (header : String) (body : List Fragment) (close : Option String)
  | doc (lines : List String)
deriving Repr, Inhabited

/-- One level of indentation. -/
inductive Indent where
  | tab
  | spaces (width : Nat)
deriving DecidableEq, Repr, Inhabited

/-- The text of one level: a tab, or two or four spaces.  Any other width counts as four. -/
def Indent.unit : Indent → String
  | tab => "\t"
  | spaces 2 => "  "
  | spaces _ => "    "

/-- A line at a given depth. -/
def indented (unit : String) : Nat → String → String
  | 0, text => text
  | depth + 1, text => unit ++ indented unit depth text

/-- The inner line of a documentation comment. -/
def docLine (line : String) : String := if line == "" then " *" else " * " ++ line

/-- The lines of a documentation comment. -/
def docLines (lines : List String) : List String := "/**" :: (lines.map docLine ++ [" */"])

mutual

/-- The lines of a fragment at a given depth. -/
def Fragment.lines (unit : String) (depth : Nat) : Fragment → List String
  | .line text => [indented unit depth text]
  | .blank => [""]
  | .block header body close =>
      indented unit depth header ::
        (linesOf unit (depth + 1) body ++ close.toList.map (indented unit depth))
  | .doc entries => (docLines entries).map (indented unit depth)
termination_by structural fragment => fragment

/-- The lines of fragments at a given depth. -/
def linesOf (unit : String) (depth : Nat) : List Fragment → List String
  | [] => []
  | fragment :: rest => fragment.lines unit depth ++ linesOf unit depth rest
termination_by structural fragments => fragments

end

/-- Lines as a text, each with its line break. -/
def unlines (lines : List String) : String := String.join (lines.map (· ++ "\n"))

/-- The text of fragments. -/
def render (indent : Indent) (fragments : List Fragment) : String :=
  unlines (linesOf indent.unit 0 fragments)

end RestPlugin.Code
