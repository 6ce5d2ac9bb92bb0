import ListQuery.Text.Printable

/-!
# Quoted texts

A text inside a printed value stands in single quotes, in double quotes when it has single quotes
and no double ones.  The quote and the backslash are escaped, and so is what is not printable.
-/

namespace ListQuery.Text

/-- `n` in hexadecimal, with zeros in front up to `width` -/
def hex (width n : Nat) : List Char :=
  let ds := Nat.toDigits 16 n
  List.replicate (width - ds.length) '0' ++ ds

/-- the quote that needs fewer escapes -/
def quoteFor (s : List Char) : Char :=
  if s.contains '\'' && !s.contains '"' then '"' else '\''

def quotedChar (quote c : Char) : List Char :=
  if c = quote ∨ c = '\\' then ['\\', c]
  else if c = '\n' then ['\\', 'n']
  else if c = '\r' then ['\\', 'r']
  else if c = '\t' then ['\\', 't']
  else if isPrintable c then [c]
  else if c.toNat < 0x100 then '\\' :: 'x' :: hex 2 c.toNat
  else if c.toNat < 0x10000 then '\\' :: 'u' :: hex 4 c.toNat
  else '\\' :: 'U' :: hex 8 c.toNat

def quoted (s : List Char) : List Char :=
  let quote := quoteFor s
  quote :: (s.flatMap (quotedChar quote) ++ [quote])

end ListQuery.Text
