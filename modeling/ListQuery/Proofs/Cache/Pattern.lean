import Mathlib.Data.List.Infix
import ListQuery.Cache.Remote

/-!
# Patterns for keys

A server is asked for keys by a pattern, which it matches octet by octet: a star stands for any run, a
question mark for any one octet, a class in brackets for one of its octets or, after a caret, for any
other, and a backslash takes the meaning from what follows it.  A text is a pattern for itself only if
it has none of these.

* `Glob.parts`           the parts of a pattern;
* `Glob.matchesParts`    whether the octets of a key match them;
* `Glob.covers`          whether a pattern matches a key;
* `Glob.plain`           a text that is a pattern for itself;
* `Glob.covers_plain`    with a star behind it, such a text matches what begins with it.
-/

namespace ListQuery

namespace Glob

/-! ## patterns -/

def octets (s : String) : List UInt8 := s.toList.flatMap String.utf8EncodeChar

/-- `*` -/
def star : UInt8 := 42

/-- `?` -/
def mark : UInt8 := 63

/-- `[` -/
def opening : UInt8 := 91

/-- `]` -/
def closing : UInt8 := 93

/-- `^` -/
def caret : UInt8 := 94

/-- `-` -/
def dash : UInt8 := 45

/-- the backslash -/
def escape : UInt8 := 92

/-- octets by ranges, whose ends may stand in any order, or all others -/
structure Class where
  negated : Bool
  ranges : List (UInt8 × UInt8)

inductive Part where
  /-- any number of octets -/
  | run
  /-- any octet -/
  | one
  | exactly (octet : UInt8)
  | among (c : Class)

namespace Class

def accepts (c : Class) (o : UInt8) : Bool :=
  (c.ranges.any fun r => min r.1 r.2 ≤ o && o ≤ max r.1 r.2) != c.negated

def adding (c : Class) (first last : UInt8) : Class := { c with ranges := (first, last) :: c.ranges }

end Class

inductive Mode where
  | outside
  /-- after a backslash outside a class -/
  | escaped
  /-- after an opening bracket -/
  | opened
  | within (c : Class)
  /-- after a backslash in a class -/
  | quoted (c : Class)
  /-- after an octet in a class, which may begin a range -/
  | held (c : Class) (first : UInt8)
  /-- after a dash behind such an octet -/
  | ranging (c : Class) (first : UInt8)

namespace Mode

/-- an octet of a class that begins no range -/
def inClass (c : Class) (o : UInt8) : Option Part × Mode :=
  if o = escape then (none, .quoted c)
  else if o = closing then (some (.among c), .outside)
  else (none, .held c o)

/-- the part that an octet completes, if any -/
def step : Mode → UInt8 → Option Part × Mode
  | .outside, o =>
    if o = star then (some .run, .outside)
    else if o = mark then (some .one, .outside)
    else if o = opening then (none, .opened)
    else if o = escape then (none, .escaped)
    else (some (.exactly o), .outside)
  | .escaped, o => (some (.exactly o), .outside)
  | .opened, o => if o = caret then (none, .within ⟨true, []⟩) else inClass ⟨false, []⟩ o
  | .within c, o => inClass c o
  | .quoted c, o => (none, .within (c.adding o o))
  | .held c first, o =>
    if o = dash then (none, .ranging c first) else inClass (c.adding first first) o
  | .ranging c first, o => (none, .within (c.adding first o))

/-- the part that the end of the pattern completes: it closes a class, and a backslash or a dash before
it stands for itself -/
def finish : Mode → Option Part
  | .outside => none
  | .escaped => some (.exactly escape)
  | .opened => some (.among ⟨false, []⟩)
  | .within c => some (.among c)
  | .quoted c => some (.among (c.adding escape escape))
  | .held c first => some (.among (c.adding first first))
  | .ranging c first => some (.among ((c.adding first first).adding dash dash))

end Mode

def parts (m : Mode) : List UInt8 → List Part
  | [] => m.finish.toList
  | o :: rest => (m.step o).1.toList ++ parts (m.step o).2 rest

def matchesParts : List Part → List UInt8 → Bool
  | [], os => os.isEmpty
  | .run :: rest, os => os.tails.any (matchesParts rest)
  | .one :: rest, os => match os with
    | [] => false
    | _ :: later => matchesParts rest later
  | .exactly x :: rest, os => match os with
    | [] => false
    | o :: later => x == o && matchesParts rest later
  | .among c :: rest, os => match os with
    | [] => false
    | o :: later => c.accepts o && matchesParts rest later

/-- whether a pattern matches a key -/
def covers (pattern key : String) : Bool := matchesParts (parts .outside (octets pattern)) (octets key)

example : ["h?llo", "h*llo", "h[ae]llo", "h[^a]llo", "h[a-f]llo", "h\\ello"].map (covers · "hello")
    = [true, true, true, true, true, true] := by decide +kernel

/-! ## texts that are patterns for themselves -/

/-- an octet that stands for others, or takes or gives such a meaning -/
def special (o : UInt8) : Bool := o == star || o == mark || o == opening || o == escape

def plain (text : String) : Bool := (octets text).all fun o => !special o

theorem octets_append (s t : String) : octets (s ++ t) = octets s ++ octets t := by
  rw [octets, String.toList_append, List.flatMap_append]
  rfl

theorem octets_prefix {s t : String} : octets s <+: octets t ↔ ∃ rest, t = s ++ rest := by
  constructor
  · rintro ⟨os, hos⟩
    have hencoded : s.toList.utf8Encode ++ os.toByteArray = t.toList.utf8Encode := by
      show (octets s).toByteArray ++ os.toByteArray = (octets t).toByteArray
      rw [← hos, List.toByteArray_append]
    obtain ⟨later, hlater⟩ := List.isPrefix_of_utf8Encode_append_eq_utf8Encode _ hencoded
    refine ⟨String.ofList later, String.toList_inj.mp ?_⟩
    rw [String.toList_append, String.toList_ofList, hlater]
  · rintro ⟨rest, rfl⟩
    rw [octets_append]
    exact List.prefix_append ..

theorem parts_plain {os : List UInt8} (h : ∀ o ∈ os, special o = false) :
    parts .outside (os ++ [star]) = os.map .exactly ++ [.run] := by
  induction os with
  | nil => rfl
  | cons o rest ih =>
    rw [List.forall_mem_cons] at h
    obtain ⟨ho, hrest⟩ := h
    simp only [special, Bool.or_eq_false_iff, beq_eq_false_iff_ne] at ho
    obtain ⟨⟨⟨hstar, hmark⟩, hopening⟩, hescape⟩ := ho
    have hstep : Mode.outside.step o = (some (.exactly o), .outside) := by
      rw [Mode.step, if_neg hstar, if_neg hmark, if_neg hopening, if_neg hescape]
    rw [List.cons_append, parts, hstep, ih hrest]
    rfl

theorem matchesParts_exactly (xs os : List UInt8) :
    matchesParts (xs.map .exactly ++ [.run]) os = true ↔ xs <+: os := by
  induction xs generalizing os with
  | nil =>
    show os.tails.any List.isEmpty = true ↔ [] <+: os
    rw [List.any_eq_true]
    exact iff_of_true ⟨[], (List.mem_tails [] os).mpr (List.nil_suffix), rfl⟩ List.nil_prefix
  | cons x rest ih =>
    cases os with
    | nil => exact iff_of_false (by simp [matchesParts]) (by simp)
    | cons o later =>
      show (x == o && matchesParts (rest.map .exactly ++ [.run]) later) = true ↔ _
      rw [Bool.and_eq_true, beq_iff_eq, ih, List.cons_prefix_cons]

/-- A plain text and a star match the keys that begin with the text. -/
theorem covers_plain {text : String} (h : plain text = true) {key : String} :
    covers (text ++ "*") key = true ↔ ∃ rest, key = text ++ rest := by
  have hstar : octets "*" = [star] := by decide
  have hplain : ∀ o ∈ octets text, special o = false := by
    intro o ho
    simpa using List.all_eq_true.mp h o ho
  rw [covers, octets_append, hstar, parts_plain hplain, matchesParts_exactly, octets_prefix]

end Glob

end ListQuery
