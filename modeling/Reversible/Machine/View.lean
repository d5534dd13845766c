import Reversible.Assembly.Listing
import Reversible.Machine
import Reversible.Text.Width

namespace Reversible

namespace Text

/-- Where a scan for color sequences stands: an escape character, an opening bracket, and all up to the next
letter m. -/
inductive ColorScan where
  | outside
  | escape
  | inside

def isVisible (c : Char) : Bool :=
  0x20 ≤ c.toNat && !isBetween 0x7F 0x9F c && charWidth c ≠ 0

/-- How many characters of color sequences would otherwise be seen. The escape character itself is not one of them. -/
def hidden : ColorScan → List Char → Nat
  | _, [] => 0
  | .outside, c :: cs => hidden (if c = '\x1b' then .escape else .outside) cs
  | .escape, c :: cs => if c = '[' then hidden .inside cs + 1 else hidden .outside cs
  | .inside, c :: cs =>
    hidden (if c = 'm' then .outside else .inside) cs + if isVisible c then 1 else 0

def visibleWidth (cs : List Char) : Nat :=
  width cs - hidden .outside cs

inductive Alignment where
  | left
  | right

structure Cell where
  alignment : Alignment := .left
  lines : List (List Char)

structure Table where
  titles : List Cell
  rows : List (List Cell)

namespace Cell

def width (c : Cell) : Nat :=
  (c.lines.map visibleWidth).foldl max 0

def lineIn (c : Cell) (k columns : Nat) : List Char :=
  let line := c.lines.getD k []
  let fill := List.replicate (columns - visibleWidth line) ' '
  match c.alignment with
  | .left => ' ' :: line ++ fill ++ [' ']
  | .right => ' ' :: fill ++ line ++ [' ']

end Cell

namespace Table

def columns (t : Table) : List Nat :=
  t.rows.foldl (fun ws row => List.zipWith max ws (row.map Cell.width)) (t.titles.map Cell.width)

def rowLines (columns : List Nat) (row : List Cell) : List (List Char) :=
  let height := (row.map fun c => c.lines.length).foldl max 1
  (List.range height).map fun k =>
    ' ' :: ['│'].intercalate (List.zipWith (fun c w => c.lineIn k w) row columns) ++ [' ']

def rule (columns : List Nat) (crossing : Char) : List Char :=
  ' ' :: [crossing].intercalate (columns.map fun w => List.replicate (w + 2) '─') ++ [' ']

def lines (t : Table) : List (List Char) :=
  let columns := t.columns
  rowLines columns t.titles ++ [rule columns '┼'] ++ t.rows.flatMap (rowLines columns) ++ [rule columns '┴']

end Table

end Text

namespace Machine

def cell (alignment : Text.Alignment) (text : List Char) : Text.Cell :=
  { alignment, lines := Text.lines text }

def keyed (title : String) (rows : List (List Char × List Char)) : Text.Table :=
  { titles := [cell .right title.toList, cell .left "Contents".toList]
    rows := rows.map fun row => [cell .right (row.1 ++ [' ', '=']), cell .left row.2] }

def stateTable (m : Machine) : Text.Table :=
  keyed "Variable" (m.state.entries.map fun e => (e.1.toList, Text.integer e.2.toInt))

def historyKey (m : Machine) (index : Nat) : List Char :=
  if index + 1 = m.depth then "* --> ".toList ++ Text.natural index else Text.natural index

def historyTable (m : Machine) : Text.Table :=
  keyed "#" (m.history.mapIdx fun index i => (m.historyKey index, Assembly.instruction i))

def table (m : Machine) : Text.Table :=
  { titles := [cell .left "State".toList, cell .left "History".toList]
    rows := [[{ lines := m.stateTable.lines }, { lines := m.historyTable.lines }]] }

def text (m : Machine) : String :=
  String.ofList ("Depth: ".toList ++ Text.natural m.depth ++ '\n' :: m.table.lines.flatMap (· ++ ['\n']))

end Machine

end Reversible
