import ConicForm.Matrix.Rows

/-! A sparse matrix by compressed columns, the layout in which a form is handed to a solver. In
each column row numbers ascend and none is stored twice. -/
namespace ConicForm

structure ColumnMatrix where
  rows : Nat
  columns : List Line
deriving DecidableEq

namespace ColumnMatrix

def cols (matrix : ColumnMatrix) : Nat := matrix.columns.length

def shape (matrix : ColumnMatrix) : Shape := [matrix.rows, matrix.cols]

/-- Where each column starts among the stored entries, and their number. -/
def pointers (matrix : ColumnMatrix) : List Nat := Line.pointers matrix.columns

def indices (matrix : ColumnMatrix) : List Int :=
  matrix.columns.flatMap fun column => column.map fun entry => entry.1

def values (matrix : ColumnMatrix) : List Binary64 :=
  matrix.columns.flatMap fun column => column.map fun entry => entry.2

def columnLines (cols : Nat) (entries : List Entry) : List Line :=
  (List.range cols).map fun j : Nat =>
    (entries.filter fun entry => entry.col = (j : Int)).map fun entry => (entry.row, entry.value)

/-- Gathers entries by column. Entries that share a position are summed in their order. -/
def ofEntries (rows cols : Nat) (entries : List Entry) : ColumnMatrix where
  rows := rows
  columns := (columnLines cols entries).map Line.combine

/-- Gathers entries that need not be in the order of their rows. Where they are not, long columns
are rearranged before they are summed. -/
def gather (rows cols : Nat) (entries : List Entry) : ColumnMatrix where
  rows := rows
  columns := Line.settle (columnLines cols entries)

def ofRows (matrix : RowMatrix) : ColumnMatrix :=
  ofEntries matrix.rows matrix.cols matrix.entries

def entry? (matrix : ColumnMatrix) (i j : Nat) : Option Binary64 :=
  (matrix.columns[j]?).bind fun column => column.lookup (i : Int)

theorem rows_ofEntries (rows cols : Nat) (entries : List Entry) :
    (ofEntries rows cols entries).rows = rows := rfl

theorem cols_ofEntries (rows cols : Nat) (entries : List Entry) :
    (ofEntries rows cols entries).cols = cols := by
  simp [ofEntries, columnLines, ColumnMatrix.cols]

theorem cols_gather (rows cols : Nat) (entries : List Entry) :
    (gather rows cols entries).cols = cols := by
  simp [gather, columnLines, ColumnMatrix.cols, Line.length_settle]

theorem ascending_of_mem_ofEntries {rows cols : Nat} {entries : List Entry} {column : Line}
    (member : column ∈ (ofEntries rows cols entries).columns) : Line.Ascending column := by
  obtain ⟨line, _, rfl⟩ := List.mem_map.1 member
  exact Line.ascending_combine _

theorem ascending_of_mem_gather {rows cols : Nat} {entries : List Entry} {column : Line}
    (member : column ∈ (gather rows cols entries).columns) : Line.Ascending column :=
  Line.ascending_of_mem_settle member

end ColumnMatrix
end ConicForm
