import LinProg.Text.Blank

/-!
# Display tables

A table is a header and rows of texts. Rows that are pushed are filled up to the width of the
header. A table is printed with its columns aligned to the right.
-/

namespace LinProg

structure Table where
  headers : List String
  rows : List (List String)
  deriving DecidableEq

/-- The row filled up to a width with copies of a cell. -/
def padded (width : Nat) (cell : String) (cells : List String) : List String :=
  cells ++ List.replicate (width - cells.length) cell

@[simp] theorem length_padded (width : Nat) (cell : String) (cells : List String) :
    (padded width cell cells).length = max width cells.length := by
  simp only [padded, List.length_append, List.length_replicate]
  omega

namespace Table

def empty : Table := ⟨[], []⟩

def ofHeaders (headers : List String) : Table := ⟨headers, []⟩

def isEmpty (t : Table) : Bool := t.headers.isEmpty && t.rows.isEmpty

/-- The table with a row at its end. -/
def push (t : Table) (cells : List String) : Table :=
  { t with rows := t.rows ++ [padded t.headers.length "" cells] }

/-- The table with a row at its end that holds a single cell. -/
def pushTitle (t : Table) (title : String) : Table := t.push [title]

/-- The table with further rows at its end, in order. -/
def pushAll (t : Table) (rows : List (List String)) : Table := rows.foldl push t

@[simp] theorem push_headers (t : Table) (cells : List String) :
    (t.push cells).headers = t.headers := rfl

@[simp] theorem push_rows (t : Table) (cells : List String) :
    (t.push cells).rows = t.rows ++ [padded t.headers.length "" cells] := rfl

theorem pushAll_eq (t : Table) (rows : List (List String)) :
    t.pushAll rows = ⟨t.headers, t.rows ++ rows.map (padded t.headers.length "")⟩ := by
  induction rows generalizing t with
  | nil => simp [pushAll]
  | cons cells rows ih =>
    rw [show t.pushAll (cells :: rows) = (t.push cells).pushAll rows from rfl, ih]
    simp

def lines (t : Table) : List (List String) := t.headers :: t.rows

/-- The greatest length of a cell in a column. -/
def columnWidth (t : Table) (column : Nat) : Nat :=
  t.lines.foldl (fun width cells => max width ((cells[column]?.getD "").length)) 0

/-- A cell aligned to the right. -/
def alignRight (width : Nat) (cell : String) : List Char :=
  List.replicate (width - cell.length) ' ' ++ cell.toList

/-- A line of a table: two spaces stand between cells and no blanks at its end. -/
def lineText (widths : List Nat) (cells : List String) : List Char :=
  Text.trimEnd ([' ', ' '].intercalate (List.zipWith alignRight widths cells)) ++ ['\n']

def render (t : Table) : String :=
  let columns := (t.lines.map List.length).foldl max 0
  let widths := (List.range columns).map t.columnWidth
  String.ofList (t.lines.flatMap (lineText widths))

end Table

end LinProg
