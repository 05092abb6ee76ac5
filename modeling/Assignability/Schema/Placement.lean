import Assignability.Schema.Basic

namespace Assignability

-- Schemas that have a mark are left as they are, so a schema that is used twice stays one schema.

-- Occurrence 0 has not been placed; `sharedNan` is the one that all texts read share.
def Binary64.sharedNan : Binary64 := .nan 1

def firstMark : Nat := 2

def Scalar.place (n : Nat) : Scalar → Scalar × Nat
  | .real (.nan 0) => (.real (.nan n), n + 1)
  | s => (s, n)

mutual

def Value.place (n : Nat) : Value → Value × Nat
  | .null => (.null, n)
  | .scalar s => let (s, n) := s.place n; (.scalar s, n)
  | .list xs => let (xs, n) := Value.placeAll n xs; (.list xs, n)
  | .tuple xs => let (xs, n) := Value.placeAll n xs; (.tuple xs, n)
  | .table es => let (es, n) := Value.placeEntries n es; (.table es, n)
  | .schema s => let (s, n) := Schema.place n s; (.schema s, n)

def Value.placeAll (n : Nat) : List Value → List Value × Nat
  | [] => ([], n)
  | v :: vs =>
    let (v, n) := Value.place n v
    let (vs, n) := Value.placeAll n vs
    (v :: vs, n)

def Value.placeEntries (n : Nat) : List (Value × Value) → List (Value × Value) × Nat
  | [] => ([], n)
  | (k, v) :: es =>
    let (k, n) := Value.place n k
    let (v, n) := Value.place n v
    let (es, n) := Value.placeEntries n es
    ((k, v) :: es, n)

def Schema.place (n : Nat) : Schema → Schema × Nat
  | .mk mark id optional shape =>
    if mark = 0 then
      let (id, k) := Value.place (n + 1) id
      let (shape, k) := Shape.place k shape
      (.mk n id optional shape, k)
    else (.mk mark id optional shape, n)

def Schema.placeAll (n : Nat) : List Schema → List Schema × Nat
  | [] => ([], n)
  | s :: ss =>
    let (s, n) := Schema.place n s
    let (ss, n) := Schema.placeAll n ss
    (s :: ss, n)

def Part.placeAll (n : Nat) : List Part → List Part × Nat
  | [] => ([], n)
  | .text t :: ps => let (ps, n) := Part.placeAll n ps; (.text t :: ps, n)
  | .schema s :: ps =>
    let (s, n) := Schema.place n s
    let (ps, n) := Part.placeAll n ps
    (.schema s :: ps, n)

def Schema.placeProperties (n : Nat) : List (String × Schema) → List (String × Schema) × Nat
  | [] => ([], n)
  | (name, s) :: ps =>
    let (s, n) := Schema.place n s
    let (ps, n) := Schema.placeProperties n ps
    ((name, s) :: ps, n)

def Value.placeFields (n : Nat) : List (String × Value) → List (String × Value) × Nat
  | [] => ([], n)
  | (name, v) :: fs =>
    let (v, n) := Value.place n v
    let (fs, n) := Value.placeFields n fs
    ((name, v) :: fs, n)

def Shape.place (n : Nat) : Shape → Shape × Nat
  | .basic b => (.basic b, n)
  | .literal s => let (s, n) := s.place n; (.literal s, n)
  | .callable form ps r =>
    let (ps, n) := Schema.placeAll n ps
    let (r, n) := Schema.place n r
    (.callable form ps r, n)
  | .promise s => let (s, n) := Schema.place n s; (.promise s, n)
  | .template ps => let (ps, n) := Part.placeAll n ps; (.template ps, n)
  | .array s => let (s, n) := Schema.place n s; (.array s, n)
  | .tuple ss => let (ss, n) := Schema.placeAll n ss; (.tuple ss, n)
  | .object ps a =>
    let (ps, n) := Schema.placeProperties n ps
    let (a, n) := Value.place n a
    (.object ps a, n)
  | .record k v =>
    let (k, n) := Schema.place n k
    let (v, n) := Schema.place n v
    (.record k v, n)
  | .union ss => let (ss, n) := Schema.placeAll n ss; (.union ss, n)
  | .intersect ss => let (ss, n) := Schema.placeAll n ss; (.intersect ss, n)
  | .reference form t => let (t, n) := Value.place n t; (.reference form t, n)
  | .user kind fs => let (fs, n) := Value.placeFields n fs; (.user kind fs, n)

end

end Assignability
