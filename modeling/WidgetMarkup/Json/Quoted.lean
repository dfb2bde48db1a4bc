namespace WidgetMarkup.Json

/-- The escape letters of the control characters that have one. -/
def shortEscape? : Char → Option Char
  | '\x08' => some 'b'
  | '\x09' => some 't'
  | '\x0a' => some 'n'
  | '\x0c' => some 'f'
  | '\x0d' => some 'r'
  | _ => none

/-- A control character without an escape letter is written with four hexadecimal digits. -/
def escaped (c : Char) : List Char :=
  if c == '\x22' || c == '\\' then ['\\', c]
  else match shortEscape? c with
    | some l => ['\\', l]
    | none =>
      if c.toNat < 0x20 then
        ['\\', 'u', '0', '0', Nat.digitChar (c.toNat / 16), Nat.digitChar (c.toNat % 16)]
      else [c]

/-- The string literal for `s`. All but quotes, backslashes and control characters stands as it
is. -/
def quoted (s : List Char) : List Char := '\x22' :: s.flatMap escaped ++ ['\x22']

def quote (s : String) : String := String.ofList (quoted s.toList)

end WidgetMarkup.Json
