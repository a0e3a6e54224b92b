import ConicForm.Datum.Number

/-! Nested lists as arrays. Lists inside one list must have one shape; the entries are what is
left inside all lists, in reading order. -/
namespace ConicForm

namespace Datum

mutual

/-- The shape of an array; none if some list holds values of several shapes, or if there are too
many extents. -/
def shape? : Datum → Option Shape
  | .list items =>
    (shapes? items).bind fun shapes =>
      match shapes with
      | [] => some [0]
      | first :: rest =>
        if rest.all (· == first) ∧ first.length < Shape.mostExtents then
          some ((rest.length + 1) :: first)
        else none
  | .zeros shape => some shape
  | _ => some []

def shapes? : List Datum → Option (List Shape)
  | [] => some []
  | item :: items =>
    item.shape?.bind fun first => (shapes? items).map fun rest => first :: rest

end

mutual

def entries : Datum → List Datum
  | .list items => itemEntries items
  | .zeros shape => List.replicate shape.count (.real .zero)
  | d => [d]

def itemEntries : List Datum → List Datum
  | [] => []
  | item :: items => item.entries ++ itemEntries items

end

/-- The elements that a value is run through as: items, code points, names of fields, or rows. Rows
of triplets are not set apart. -/
def elements [Machine] (d : Datum) : Except Fault (List Datum) :=
  match d with
  | .list items => .ok items
  | .text value => .ok ((Text.codePoints value).map fun point => .text (Text.ofCodePoints [point]))
  | .record fields => .ok (fields.map fun field => .text field.1)
  | .zeros (count :: inner) =>
    .ok (List.replicate count (if inner = [] then .real .zero else .zeros inner))
  | .sparse matrix =>
    if matrix.layout = .triplets ∧ matrix.rows ≠ 0 then .error (.data .wrongType)
    else (matrix.checkByRow.mapError .data).map fun _ => matrix.rowMatrices.map .sparse
  | _ => .error (.data .wrongType)

def pair [Machine] (d : Datum) : Except Fault (Datum × Datum) :=
  d.elements.bind fun elements =>
    match elements with
    | [first, second] => .ok (first, second)
    | _ => .error (.data .malformed)

def isText : Datum → Bool
  | .text _ => true
  | _ => false

def isTruth : Datum → Bool
  | .truth _ => true
  | _ => false

/-- The value keeps the entries of an array from being machine numbers or texts. -/
def isLoose : Datum → Bool
  | .absent | .record _ | .sparse _ => true
  | .integer n => n < -Capacity.word || 2 * Capacity.word ≤ n
  | _ => false

def arrayEntries (d : Datum) : Except Fault (List Datum) :=
  match d.shape? with
  | none => .error (.data .malformed)
  | some _ => .ok d.entries

mutual

theorem length_entries : ∀ (d : Datum) {shape : Shape},
    d.shape? = some shape → d.entries.length = shape.count
  | .list items, shape, found => by
    simp only [shape?, Option.bind_eq_some_iff] at found
    obtain ⟨shapes, itemShapes, found⟩ := found
    cases shapes with
    | nil =>
      simp only [Option.some.injEq] at found
      subst found
      simp [entries, length_itemEntries items [] itemShapes (by simp), Shape.count]
    | cons first rest =>
      simp only [Option.ite_none_right_eq_some, Option.some.injEq, List.all_eq_true,
        beq_iff_eq] at found
      obtain ⟨⟨same, _⟩, rfl⟩ := found
      have all : ∀ s ∈ first :: rest, s = first := by
        intro s member
        rcases List.mem_cons.1 member with rfl | member
        · rfl
        · exact same s member
      simp [entries, length_itemEntries items first itemShapes all, Shape.count]
  | .absent, _, found | .truth _, _, found | .integer _, _, found | .real _, _, found
  | .text _, _, found | .record _, _, found | .cone _, _, found | .sense _, _, found
  | .sparse _, _, found => by
    simp only [shape?, Option.some.injEq] at found
    subst found
    simp [entries, Shape.count]
  | .zeros _, _, found => by
    simp only [shape?, Option.some.injEq] at found
    subst found
    simp [entries]

theorem length_itemEntries : ∀ (items : List Datum) {shapes : List Shape} (common : Shape),
    shapes? items = some shapes → (∀ s ∈ shapes, s = common) →
      (itemEntries items).length = shapes.length * Shape.count common
  | [], shapes, common, found, _ => by
    simp only [shapes?, Option.some.injEq] at found
    subst found
    simp [itemEntries]
  | item :: items, shapes, common, found, all => by
    simp only [shapes?, Option.bind_eq_some_iff, Option.map_eq_some_iff] at found
    obtain ⟨first, itemShape, rest, restShapes, rfl⟩ := found
    have same : first = common := all first (by simp)
    have later := length_itemEntries items common restShapes fun s member =>
      all s (List.mem_cons_of_mem _ member)
    simp [itemEntries, later, length_entries item itemShape, same, Nat.add_mul, Nat.add_comm]

end

end Datum

structure NumberArray where
  shape : Shape
  entries : List Binary64
  length_entries : entries.length = shape.count

namespace NumberArray

def dimensions (array : NumberArray) : Nat := array.shape.length

theorem length_of_mapM {f : α → Except ε β} {items : List α} {results : List β}
    (read : items.mapM f = .ok results) : results.length = items.length := by
  induction items generalizing results with
  | nil => simp [pure, Except.pure] at read; simp [← read]
  | cons item items ih =>
    rw [List.mapM_cons] at read
    cases first : f item with
    | error fault => simp [first, bind, Except.bind] at read
    | ok value =>
      cases rest : items.mapM f with
      | error fault => simp [first, rest, bind, Except.bind] at read
      | ok values =>
        simp [first, rest, bind, Except.bind, pure, Except.pure] at read
        simp [← read, ih rest]

def ofDatum (d : Datum) : Except Fault NumberArray :=
  match shaped : d.shape? with
  | none => .error (.data .malformed)
  | some shape =>
    match read : d.entries.mapM Datum.toBinary64 with
    | .error fault => .error fault
    | .ok entries =>
      .ok ⟨shape, entries, by rw [length_of_mapM read, Datum.length_entries d shaped]⟩

def ofVector (entries : List Binary64) : NumberArray where
  shape := [entries.length]
  entries := entries
  length_entries := by simp [Shape.count]

theorem length_eq_of_vector (array : NumberArray) {count : Nat} (vector : array.shape = [count]) :
    array.entries.length = count := by
  simp [array.length_entries, vector, Shape.count]

end NumberArray
end ConicForm
