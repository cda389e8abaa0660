/-!
# Plain text

* Text for a terminal may hold control sequences, which begin with the escape character.
  `ControlSequence` tells how far one has been read.
* `plain` leaves out control sequences, and control characters other than white space.
* White space in a sequence is shown and suspends it: what follows is shown too, and the next control
  character takes the sequence up again. White space in a string that a sequence carries is left out.
-/

namespace SocketRpc.Text

inductive ControlSequence
  | escape
  | intermediate
  | parameters
  | device
  | deviceParameters
  | deviceIntermediate
  | command
  | string

def between (first last c : Char) : Bool := first ≤ c && c ≤ last

def cancels (c : Char) : Bool := c == '\x18' || c == '\x1a'

def endsString (c : Char) : Bool := (String.utf8EncodeChar c).contains 0x9c

def ControlSequence.next? (s : ControlSequence) (c : Char) : Option ControlSequence :=
  if cancels c then none
  else if c == '\x1b' then some .escape
  else match s with
    | .escape =>
      if between '\x20' '/' c then some .intermediate
      else if c == '[' then some .parameters
      else if c == ']' then some .command
      else if c == 'P' then some .device
      else if c == 'X' || c == '^' || c == '_' then some .string
      else if between '0' '~' c then none
      else some .escape
    | .intermediate => if between '0' '~' c then none else some .intermediate
    | .parameters => if between '@' '~' c then none else some .parameters
    | .device =>
      if between '\x20' '/' c then some .deviceIntermediate
      else if between '0' '?' c then some .deviceParameters
      else if between '@' '~' c then some .string
      else some .device
    | .deviceParameters =>
      if between '\x20' '/' c then some .deviceIntermediate
      else if between '<' '~' c then some .string
      else some .deviceParameters
    | .deviceIntermediate => if between '0' '~' c then some .string else some .deviceIntermediate
    | .command => if c == '\x07' then none else some .command
    | .string => if endsString c then none else some .string

def ControlSequence.showsBlanks : ControlSequence → Bool
  | .escape | .intermediate | .parameters => true
  | .device | .deviceParameters | .deviceIntermediate | .command | .string => false

def isControlBlank (c : Char) : Bool := c == '\t' || c == '\n' || c == '\x0c' || c == '\r'

inductive Reading
  | shown (suspended : Option ControlSequence)
  | hidden (sequence : ControlSequence)

def Reading.ofSequence : Option ControlSequence → Reading
  | some sequence => .hidden sequence
  | none => .shown none

/-- Reads a character, and tells whether it is shown. A shown character beyond ASCII ends what was
suspended. -/
def Reading.step : Reading → Char → Reading × Bool
  | .shown suspended, c =>
    if '\x7f' < c then (.shown none, true)
    else if between '\x20' '~' c || isControlBlank c then (.shown suspended, true)
    else if c == '\x1b' then (.hidden .escape, false)
    else if cancels c then (.shown none, false)
    else (.ofSequence suspended, false)
  | .hidden sequence, c =>
    if sequence.showsBlanks && isControlBlank c then (.shown (some sequence), true)
    else (.ofSequence (sequence.next? c), false)

def Reading.plain (reading : Reading) : List Char → List Char
  | [] => []
  | c :: rest =>
    match reading.step c with
    | (next, true) => c :: next.plain rest
    | (next, false) => next.plain rest

def plain (s : String) : String := String.ofList ((Reading.shown none).plain s.toList)

end SocketRpc.Text
