/-!
# Searching and splitting texts

* `startsWith`, `occursIn`  a text at the start of another, or anywhere in it;
* `splitOn`                 the pieces between occurrences of a separator character;
* `strip`                   a text without the characters of a class at its ends;
* `order`                   texts in the order of their code points.
-/

namespace ListQuery.Text

/-- `t` stands at the start of `s` -/
def startsWith : (s t : List Char) → Bool
  | _, [] => true
  | [], _ :: _ => false
  | c :: s, d :: t => c == d && startsWith s t

/-- `t` stands somewhere in `s` -/
def occursIn (t : List Char) : List Char → Bool
  | [] => t.isEmpty
  | c :: s => startsWith (c :: s) t || occursIn t s

/-- the pieces of a text between the separators; there is one more piece than separators -/
def splitOn (sep : Char) : List Char → List (List Char)
  | [] => [[]]
  | c :: s =>
    if c = sep then [] :: splitOn sep s
    else match splitOn sep s with
      | [] => [[c]]
      | piece :: pieces => (c :: piece) :: pieces

def strip (out : Char → Bool) (s : List Char) : List Char :=
  (((s.dropWhile out).reverse).dropWhile out).reverse

/-- the order of the first differing code points; a shorter text comes before its extensions -/
def order : List Char → List Char → Ordering
  | [], [] => .eq
  | [], _ :: _ => .lt
  | _ :: _, [] => .gt
  | c :: s, d :: t => (compare c.toNat d.toNat).then (order s t)

end ListQuery.Text
