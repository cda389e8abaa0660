import SocketRpc.Framing.Boundary
import SocketRpc.Framing.Scan
import SocketRpc.Framing.Stream
/-!
# Reading a reply

* A reply ends with the first complete value, when the peer closes, or when `limit` bytes have been
  received.
* `Progress` is what has been received so far. It says how many bytes to ask for, takes them in, and
  gives the verdict on them.
* `conclude` is the answer when no complete value has been found in time.
* `readWith` is the loop, whatever gives the bytes, and `readReply` its run over a stream. The transcript tells
  what was asked for and what was received.
* It is assumed that a buffer of `bufferSize` bytes can be allocated.
-/

namespace SocketRpc.Framing

inductive ReplyError
  | transport (error : IoError)
  | tooLarge (limit : Nat)
  | malformed (error : JsonError)

inductive Note
  | closedAfter (count : Nat)
  | ignored (count : Nat)
deriving DecidableEq

def Note.text : Note → String
  | .closedAfter count => "Peer closed after " ++ toString count ++ " bytes"
  | .ignored count => "Ignoring " ++ toString count ++ " bytes after the response"

structure Progress where
  received : Array UInt8
  boundary : Boundary

namespace Progress

def start : Progress := ⟨#[], .start⟩

def want? (bufferSize limit : Nat) (p : Progress) : Option Nat :=
  if p.received.size < limit then some (min bufferSize (limit - p.received.size)) else none

theorem within_of_want? {bufferSize limit want : Nat} {p : Progress}
    (h : p.want? bufferSize limit = some want) : p.received.size < limit := by
  unfold want? at h
  split at h
  · assumption
  · cases h

def absorb (p : Progress) (chunk : List UInt8) : Progress × Bool :=
  let (boundary, mayEnd) := p.boundary.feed chunk
  (⟨p.received ++ chunk, boundary⟩, mayEnd)

@[simp] theorem toList_received_absorb (p : Progress) (chunk : List UInt8) :
    (p.absorb chunk).1.received.toList = p.received.toList ++ chunk :=
  Array.toList_appendList

@[simp] theorem size_received_absorb (p : Progress) (chunk : List UInt8) :
    (p.absorb chunk).1.received.size = p.received.size + chunk.length := by
  rw [← Array.length_toList, toList_received_absorb, List.length_append, Array.length_toList]

def verdict (p : Progress) (mayEnd : Bool) : Verdict :=
  if mayEnd then scan p.received.toList else .incomplete

end Progress

def remark (trailing : List UInt8) : List Note :=
  if trailing.all Ascii.isWhitespace then [] else [.ignored trailing.length]

def conclude (limit : Nat) (received : List UInt8) (closed : Bool) : Except ReplyError Json :=
  let parsed : Except ReplyError Json := match Json.parse received with
    | .ok value => .ok value
    | .error error => .error (.malformed error)
  match received with
  | [] => .error (.transport .closedEarly)
  | _ :: _ =>
    if closed then parsed
    else match scan received with
      | .incomplete => .error (.tooLarge limit)
      | _ => parsed

inductive Outcome
  | value (value : Json)
  | failed (error : ReplyError)
  | waiting

def Outcome.ofResult : Except ReplyError Json → Outcome
  | .ok reply => .value reply
  | .error error => .failed error

structure Transcript where
  outcome : Outcome
  received : List UInt8
  wants : List Nat
  notes : List Note

def Transcript.after (want : Nat) (t : Transcript) : Transcript := { t with wants := want :: t.wants }

inductive Next
  | settled (t : Transcript)
  | goOn (p : Progress)

/-- What a call comes to that asks for `want` bytes. -/
def Progress.call (limit want : Nat) (p : Progress) : Receipt → Next
  | .waiting => .settled ⟨.waiting, p.received.toList, [want], []⟩
  | .failed error => .settled ⟨.failed (.transport error), p.received.toList, [want], []⟩
  | .bytes [] =>
    let received := p.received.toList
    .settled ⟨.ofResult (conclude limit received true), received, [want], [.closedAfter received.length]⟩
  | .bytes (b :: chunk) =>
    let (next, mayEnd) := p.absorb (b :: chunk)
    match next.verdict mayEnd with
    | .complete value used =>
      let received := next.received.toList
      .settled ⟨.value value, received, [want], remark (received.drop used)⟩
    | .invalid =>
      let received := next.received.toList
      .settled ⟨.ofResult (conclude limit received false), received, [want], []⟩
    | .incomplete => .goOn next

theorem Progress.call_goOn {limit want : Nat} {p next : Progress} {receipt : Receipt}
    (h : p.call limit want receipt = .goOn next) : ∃ b chunk mayEnd, receipt = .bytes (b :: chunk) ∧
      p.absorb (b :: chunk) = (next, mayEnd) ∧ next.verdict mayEnd = .incomplete := by
  rcases receipt with (_ | ⟨b, chunk⟩) | _ | _
  case bytes.cons =>
    simp only [call] at h
    split at h
    · cases h
    · cases h
    · next verdict =>
      cases h
      exact ⟨b, chunk, _, rfl, rfl, verdict⟩
  all_goals cases h

theorem Progress.call_grows {limit want : Nat} {p next : Progress} {receipt : Receipt}
    (h : p.call limit want receipt = .goOn next) : p.received.size < next.received.size := by
  obtain ⟨b, chunk, mayEnd, -, absorb, -⟩ := call_goOn h
  have grown := p.size_received_absorb (b :: chunk)
  simp only [absorb, List.length_cons] at grown
  omega

/-- Reads on, whatever gives the receipts. -/
def Progress.readWith {m : Type → Type} [Monad m] (receive : Nat → m Receipt) (bufferSize limit : Nat)
    (p : Progress) : m Transcript :=
  match asked : p.want? bufferSize limit with
  | none =>
    let received := p.received.toList
    return ⟨.ofResult (conclude limit received false), received, [], []⟩
  | some want => do
    let receipt ← receive want
    match called : p.call limit want receipt with
    | .settled t => return t
    | .goOn next =>
      have := Progress.within_of_want? asked
      have := Progress.call_grows called
      return (← next.readWith receive bufferSize limit).after want
termination_by limit - p.received.size

theorem Progress.readWith_eq {m : Type → Type} [Monad m] (receive : Nat → m Receipt)
    (bufferSize limit : Nat) (p : Progress) :
    p.readWith receive bufferSize limit =
      match p.want? bufferSize limit with
      | none => pure ⟨.ofResult (conclude limit p.received.toList false), p.received.toList, [], []⟩
      | some want => do
        match p.call limit want (← receive want) with
        | .settled t => return t
        | .goOn next => return (← next.readWith receive bufferSize limit).after want := by
  rw [readWith]
  split
  · next none => simp only [none]
  · next want asked =>
    simp only [asked]
    congr 1
    funext receipt
    split
    · next settled => simp only [settled]
    · next goOn => simp only [goOn]

def Progress.readReply (bufferSize limit : Nat) (p : Progress) (s : Stream) : Transcript :=
  (p.readWith (m := StateM Stream) Stream.receive bufferSize limit s).1

theorem Progress.readReply_eq (bufferSize limit : Nat) (p : Progress) (s : Stream) :
    p.readReply bufferSize limit s =
      match p.want? bufferSize limit with
      | none => ⟨.ofResult (conclude limit p.received.toList false), p.received.toList, [], []⟩
      | some want =>
        match p.call limit want (s.receive want).1 with
        | .settled t => t
        | .goOn next => (next.readReply bufferSize limit (s.receive want).2).after want := by
  rw [readReply, readWith_eq]
  cases p.want? bufferSize limit with
  | none => rfl
  | some want =>
    -- A call of the state monad is the pair that `receive` gives.
    show (StateT.bind (m := Id) _ _ s).1 = _
    simp only [StateT.bind, bind, pure]
    cases p.call limit want (s.receive want).1 <;> rfl

def readReply (bufferSize limit : Nat) (s : Stream) : Transcript :=
  Progress.start.readReply bufferSize limit s

end SocketRpc.Framing
