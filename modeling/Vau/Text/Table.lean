import Vau.Text.Width

/-! Tables with a border around them and a rule below the header. -/

set_option autoImplicit false

namespace Vau.Text

structure Table where
  header : List String
  rows : List (List String)

namespace Table

def lines (cell : String) : List String := cell.splitOn "\n"

def cellWidth (cell : String) : Nat := (lines cell).foldl (fun w line => max w (width line)) 0

def widths (t : Table) : List Nat :=
  t.rows.foldl (fun widths row => List.zipWith (fun w cell => max w (cellWidth cell)) widths row)
    (t.header.map cellWidth)

def pad (size : Nat) (line : String) : String :=
  line ++ String.ofList (List.replicate (size - width line) ' ')

def line (widths : List Nat) (lines : List String) : String :=
  let cells := List.zipWith (fun w line => " " ++ pad w line ++ " ") widths lines
  "│" ++ String.intercalate " " cells ++ "│"

/-- A row is as high as its highest cell; the lines that a cell lacks are blank. -/
def row (widths : List Nat) (cells : List String) : List String :=
  let blocks := cells.map lines
  let height := blocks.foldl (fun height block => max height block.length) 0
  (List.range height).map fun n => line widths (blocks.map fun block => (block[n]?).getD "")

def rule (widths : List Nat) (left fill right : Char) : String :=
  let size := widths.foldl (fun size w => size + w + 3) 0 - 1
  String.ofList (left :: List.replicate size fill ++ [right])

def render (t : Table) : String :=
  let widths := t.widths
  String.intercalate "\n" <|
    rule widths '┌' '─' '┐' :: row widths t.header ++ rule widths '╞' '═' '╡' ::
      t.rows.flatMap (row widths) ++ [rule widths '└' '─' '┘']

end Table

end Vau.Text
