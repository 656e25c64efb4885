import Linux011.Printf.Number

/-!
# Formatting a string (`kernel/vsprintf.c`)

A format is the rest of the string at `fmt`; behind its end there is the NUL. The arguments are 32-bit
words in their order, and a string is where its address says. `%n` notes the store in a list.

The parts of a conversion are read one behind the other, each by a function of its own that returns what
is left of the format. Widths and precisions are `int`, with the overflow of one.
-/

namespace Linux011.Printf

/-! ## Code -/

/-- What is written to `buf`, the arguments that are left, and the stores of `%n`. -/
structure Out where
  str : List Byte
  args : List Word
  stores : List (Word × Nat)

def Out.put (s : Out) (c : Byte) : Out := { s with str := s.str ++ [c] }

/-- `va_arg`. -/
def vaArg (s : Out) : Except Stop (Word × Out) :=
  match s.args with
  | [] => .error .missing
  | a :: args => .ok (a, { s with args := args })

/-- `is_digit`. -/
def isDigit (c : Byte) : Bool := decide (48 ≤ c.toNat ∧ c.toNat ≤ 57)

/-- `skip_atoi`. -/
def skipAtoi : List Byte → Word → Word × List Byte
  | [], i => (i, [])
  | c :: fmt, i => if isDigit c then skipAtoi fmt (i * 10 + c.setWidth 32 - 48) else (i, c :: fmt)

/-- `repeat: ++fmt; switch (*fmt)`, for the flags. -/
def scanFlags : List Byte → Flags → Flags × List Byte
  | [], flags => (flags, [])
  | c :: fmt, flags =>
    if c = 45 then scanFlags fmt { flags with left := true }
    else if c = 43 then scanFlags fmt { flags with plus := true }
    else if c = 32 then scanFlags fmt { flags with space := true }
    else if c = 35 then scanFlags fmt { flags with special := true }
    else if c = 48 then scanFlags fmt { flags with zeropad := true }
    else (flags, c :: fmt)

/-- The field width. An asterisk takes an argument, and `fmt` stays where it is. -/
def scanWidth (fmt : List Byte) (flags : Flags) (s : Out) :
    Except Stop (Word × Flags × List Byte × Out) :=
  match fmt with
  | [] => .ok (-1, flags, fmt, s)
  | c :: _ =>
    if isDigit c then .ok ((skipAtoi fmt 0).1, flags, (skipAtoi fmt 0).2, s)
    else if c = 42 then do
      let (width, s) ← vaArg s
      if width.toInt < 0 then return (-width, { flags with left := true }, fmt, s)
      else return (width, flags, fmt, s)
    else .ok (-1, flags, fmt, s)

/-- What stands behind the point of a precision. -/
def scanPoint (fmt : List Byte) (s : Out) : Except Stop (Word × List Byte × Out) :=
  match fmt with
  | [] => .ok (-1, fmt, s)
  | c :: _ =>
    if isDigit c then .ok ((skipAtoi fmt 0).1, (skipAtoi fmt 0).2, s)
    else if c = 42 then do
      let (precision, s) ← vaArg s
      return (precision, fmt, s)
    else .ok (-1, fmt, s)

/-- The precision. -/
def scanPrecision (fmt : List Byte) (s : Out) : Except Stop (Word × List Byte × Out) :=
  match fmt with
  | c :: rest =>
    if c = 46 then do
      let (precision, fmt, s) ← scanPoint rest s
      return (if precision.toInt < 0 then 0 else precision, fmt, s)
    else .ok (-1, fmt, s)
  | [] => .ok (-1, fmt, s)

/-- The qualifier, which nothing looks at. -/
def scanQualifier : List Byte → List Byte
  | c :: fmt => if c = 104 ∨ c = 108 ∨ c = 76 then fmt else c :: fmt
  | [] => []

/-- `while (--n > 0) *str++ = ' ';` -/
def predecrement (n : Word) (str : List Byte) : Word × List Byte :=
  if 0 < (n - 1).toInt then predecrement (n - 1) (str ++ [32]) else (n - 1, str)
termination_by (n - 1).toInt.toNat
decreasing_by
  rename_i h
  have hpred := toInt_pred (n := n - 1) (by omega)
  omega

/-- `case 'c'`. -/
def charText (flags : Flags) (width : Word) (c : Byte) (str : List Byte) : List Byte :=
  let (width, str) := if flags.left then (width, str) else predecrement width str
  (predecrement width (str ++ [c])).2

/-- `case 's'`. -/
def stringText (flags : Flags) (width precision : Word) (s str : List Byte) : List Byte :=
  let len := BitVec.ofNat 32 s.length
  let len := if 0 ≤ precision.toInt ∧ precision.toInt < len.toInt then precision else len
  let (width, str) := if flags.left then (width, str) else countdown 32 len width str
  (countdown 32 len width (str ++ s.take len.toInt.toNat)).2

/-- A conversion of a number. -/
def numberText (base width precision : Word) (flags : Flags) (s : Out) : Except Stop Out := do
  let (num, s) ← vaArg s
  let str ← number s.str num base width precision flags
  return { s with str := str }

/-- `switch (*fmt)`, with the strings that there are in memory. -/
def convert (strings : Word → List Byte) (c : Byte) (flags : Flags) (width precision : Word) (s : Out) :
    Except Stop Out :=
  if c = 99 then do
    let (a, s) ← vaArg s
    return { s with str := charText flags width (a.setWidth 8) s.str }
  else if c = 115 then do
    let (a, s) ← vaArg s
    return { s with str := stringText flags width precision (strings a) s.str }
  else if c = 111 then numberText 8 width precision flags s
  else if c = 112 then
    if width = -1 then numberText 16 8 precision { flags with zeropad := true } s
    else numberText 16 width precision flags s
  else if c = 120 then numberText 16 width precision { flags with small := true } s
  else if c = 88 then numberText 16 width precision flags s
  else if c = 100 ∨ c = 105 then numberText 10 width precision { flags with sign := true } s
  else if c = 117 then numberText 10 width precision flags s
  else if c = 110 then do
    let (ip, s) ← vaArg s
    return { s with stores := (ip, s.str.length) :: s.stores }
  else if c = 37 then return s.put 37
  else return (s.put 37).put c

def noFlags : Flags := ⟨false, false, false, false, false, false, false⟩

/-- The body of the loop behind a '%': what is left of the format. -/
def directive (strings : Word → List Byte) (fmt : List Byte) (s : Out) : Except Stop (List Byte × Out) := do
  let (flags, fmt) := scanFlags fmt noFlags
  let (width, flags, fmt, s) ← scanWidth fmt flags s
  let (precision, fmt, s) ← scanPrecision fmt s
  match scanQualifier fmt with
  | [] => return ([], s.put 37)
  | c :: fmt =>
    let s ← convert strings c flags width precision s
    return (fmt, s)

/-- The loop of `vsprintf`; `n` bounds the rounds. -/
def formatLoop (strings : Word → List Byte) : Nat → List Byte → Out → Except Stop Out
  | 0, _, s => .ok s
  | _ + 1, [], s => .ok s
  | n + 1, c :: fmt, s =>
    if c ≠ 37 then formatLoop strings n fmt (s.put c)
    else do
      let (fmt, s) ← directive strings fmt s
      formatLoop strings n fmt s

/-- `vsprintf`: what is written, and the arguments that are left. It returns `str-buf`. -/
def vsprintf (strings : Word → List Byte) (fmt : List Byte) (args : List Word) : Except Stop (Nat × Out) := do
  let s ← formatLoop strings (fmt.length + 1) fmt ⟨[], args, []⟩
  return (s.str.length, s)

end Linux011.Printf
