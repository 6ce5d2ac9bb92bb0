import ListQuery.Text.CaseTable

/-!
# Lower case

Every character has its simple lower case, with two exceptions: `İ` becomes an `i` with a combining
dot, and a capital sigma at the end of a word becomes a final sigma.  A sigma ends a word when,
skipped characters aside, a cased character stands before it and none after it.
-/

namespace ListQuery.Text

def lowerDistance? (n : Nat) : Option Int :=
  (lowerRuns.find? fun run => run.first ≤ n && n ≤ run.last && (n - run.first) % run.step = 0).map
    CaseRun.distance

def lowerChar (c : Char) : Char :=
  if c.toNat < 128 then c.toLower
  else match lowerDistance? c.toNat with
    | some d => Char.ofNat (c.toNat + d).toNat
    | none => c

def isCased (c : Char) : Bool := casedOnly.holds c.toNat

def isCaseSkipped (c : Char) : Bool := caseSkipped.holds c.toNat

def meetsCased (cs : List Char) : Bool := ((cs.dropWhile isCaseSkipped).head?.map isCased).getD false

/-- lower case of a text, `before` being what precedes it in reverse -/
def lowerFrom (before : List Char) : List Char → List Char
  | [] => []
  | c :: rest =>
    let here :=
      if c = 'Σ' then [if meetsCased before && !meetsCased rest then 'ς' else 'σ']
      else if c = 'İ' then ['i', Char.ofNat 0x307]
      else [lowerChar c]
    here ++ lowerFrom (c :: before) rest

def lower (s : String) : String := String.ofList (lowerFrom [] s.toList)

end ListQuery.Text
