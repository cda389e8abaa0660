import SocketRpc.Proofs.Binary64.Order
import SocketRpc.Proofs.CommandLine.Arguments

/-!
# Timeouts on the command line

A timeout is a number of seconds, which has to be positive. It is kept in nanoseconds, and no client is made
with a timeout of zero. So a positive number that is rounded to no nanosecond passes the first of these checks
and fails the second.

* `Brief` are the texts of such numbers, as `seconds_zero` says.
* `parse_timeouts`: both timeouts of an accepted command line were read from texts.
* `timeouts_positive`: no other timeout is refused.
-/

namespace SocketRpc.Proofs.CommandLine
open SocketRpc.CommandLine SocketRpc.Binary64 SocketRpc.Proofs.Binary64 SocketRpc.Proofs.Decoding

variable {a : Arguments} {x : Binary64} {text : String} {d : Duration} {settings : Settings}
variable {host : String} {port : Nat}

def AtMostHalf (x : Binary64) : Prop := 2 * (units x.magnitude * Duration.perSecond) ≤ unitsPerOne

/-- The text is read as a double of at most half a nanosecond. -/
def Brief (text : String) : Prop :=
  ∃ literal x, Literal.ofText text = .ok literal ∧ literal.value = some x ∧ AtMostHalf x

theorem nanoseconds_rounded (rounded : Duration.ofSeconds? x = some d) :
    d.nanoseconds = roundQuotient (units x.magnitude * Duration.perSecond) unitsPerOne := by
  simp only [Duration.ofSeconds?] at rounded
  generalize roundQuotient (units x.magnitude * Duration.perSecond) unitsPerOne = n at rounded ⊢
  split at rounded
  · rw [← Option.some.inj rounded]
  · cases rounded

theorem rounded_zero (rounded : Duration.ofSeconds? x = some d) : d.nanoseconds = 0 ↔ AtMostHalf x := by
  rw [nanoseconds_rounded rounded]
  exact roundQuotient_eq_zero unitsPerOne_positive

theorem seconds_ok : readSeconds text = .ok d ↔ ∃ literal x, Literal.ofText text = .ok literal ∧
    literal.value = some x ∧ x.negative = false ∧ x.isZero = false ∧ Duration.ofSeconds? x = some d := by
  unfold readSeconds
  cases Literal.ofText text with
  | error e => simp
  | ok literal =>
      cases found : literal.value with
      | none => simp [found]
      | some x =>
          cases sign : x.negative <;> cases zero : x.isZero <;> simp [found, sign, zero]
          cases Duration.ofSeconds? x <;> simp

theorem seconds_zero (read : readSeconds text = .ok d) : d.nanoseconds = 0 ↔ Brief text := by
  obtain ⟨literal, x, reads, value, -, -, rounded⟩ := seconds_ok.1 read
  rw [rounded_zero rounded]
  constructor
  · intro half
    exact ⟨literal, x, reads, value, half⟩
  · rintro ⟨literal', x', reads', value', half⟩
    cases reads.symm.trans reads'
    cases value.symm.trans value'
    exact half

theorem build_zero : Client.build settings host port = .error (.invalidInput .zeroTimeout) ↔
    settings.refusal? host port = some .zeroTimeout := by
  unfold Client.build
  split
  · next accepted => simp [accepted]
  · next refused => simp [refused]

def OtherwiseFit (settings : Settings) (host : String) (port : Nat) : Prop :=
  { settings with timeout := .ofSeconds 30, connectTimeout := .ofSeconds 10 }.refusal? host port = none

theorem refusal_zero : settings.refusal? host port = some .zeroTimeout ↔
    OtherwiseFit settings host port ∧
      (settings.timeout.nanoseconds = 0 ∨ settings.connectTimeout.nanoseconds = 0) := by
  unfold OtherwiseFit Settings.refusal?
  repeat' split
  all_goals simp_all [Duration.ofSeconds]

def Timed (timeout : Option Duration) : Prop := ∀ d, timeout = some d → ∃ text, readSeconds text = .ok d

theorem lasting_timeouts : Lasting fun given => Timed given.timeout ∧ Timed given.connectTimeout where
  start := ⟨nofun, nofun⟩
  value := by
    intro given next setting value h read
    cases setting with
    | timeout =>
        obtain ⟨timeout, found, rfl⟩ := map_ok.1 read
        refine ⟨?_, h.2⟩
        rintro d ⟨⟩
        exact ⟨value, found⟩
    | connectTimeout =>
        obtain ⟨timeout, found, rfl⟩ := map_ok.1 read
        refine ⟨h.1, ?_⟩
        rintro d ⟨⟩
        exact ⟨value, found⟩
    | id | host => cases read; exact h
    | params | port | bufferSize | maxResponseSize =>
        obtain ⟨_, -, rfl⟩ := map_ok.1 read
        exact h
  flag := by
    intro given next flag h set
    rw [setFlag_same set]
    exact h
  method _ h := h

theorem thirty_read : readSeconds "30" = .ok (.ofSeconds 30) :=
  seconds_ok.2 ⟨.finite false 30 0, ⟨false, 4629137466983448576, by decide⟩, by with_unfolding_all rfl,
    by decide +kernel, rfl, rfl, by decide +kernel⟩

theorem ten_read : readSeconds "10" = .ok (.ofSeconds 10) :=
  seconds_ok.2 ⟨.finite false 10 0, ⟨false, 4621819117588971520, by decide⟩, by with_unfolding_all rfl,
    by decide +kernel, rfl, rfl, by decide +kernel⟩

theorem Timed.getD {timeout : Option Duration} (timed : Timed timeout) (read : readSeconds text = .ok d) :
    ∃ text, readSeconds text = .ok (timeout.getD d) := by
  cases timeout with
  | none => exact ⟨text, read⟩
  | some given => exact timed given rfl

theorem parse_timeouts {environment : String → Option String} {arguments : List String}
    (accepted : parse environment arguments = .ok a) :
    ∃ text text', readSeconds text = .ok a.settings.timeout ∧
      readSeconds text' = .ok a.settings.connectTimeout := by
  obtain ⟨given, ⟨timeout, connectTimeout⟩, complete⟩ := parse_lasting lasting_timeouts accepted
  obtain ⟨text, read⟩ := timeout.getD thirty_read
  obtain ⟨text', read'⟩ := connectTimeout.getD ten_read
  unfold Given.complete at complete
  split at complete <;> cases complete
  exact ⟨text, text', read, read'⟩

/-- A timeout that is accepted is positive, unless it is read as at most half a nanosecond. A command line that
is accepted has two such timeouts, and a client is refused for them exactly if it is for one of at most half a
nanosecond; other reasons come first. -/
theorem timeouts_positive (text : String) (environment : String → Option String) (arguments : List String) :
    (∀ d, readSeconds text = .ok d → (0 < d.nanoseconds ↔ ¬ Brief text)) ∧
    ∀ a, parse environment arguments = .ok a → ∃ given given',
      readSeconds given = .ok a.settings.timeout ∧ readSeconds given' = .ok a.settings.connectTimeout ∧
      (Client.build a.settings a.host a.port = .error (.invalidInput .zeroTimeout) ↔
        OtherwiseFit a.settings a.host a.port ∧ (Brief given ∨ Brief given')) := by
  refine ⟨fun d read => ?_, fun a accepted => ?_⟩
  · rw [← seconds_zero read]
    exact Nat.pos_iff_ne_zero
  · obtain ⟨given, given', read, read'⟩ := parse_timeouts accepted
    refine ⟨given, given', read, read', ?_⟩
    rw [build_zero, refusal_zero, seconds_zero read, seconds_zero read']

theorem parse_timeout (read : readSeconds text = .ok d)
    (pending : State.take ⟨{}, some (.timeout, none), false⟩ text =
      .ok ⟨{}, some (.timeout, some text), false⟩) :
    parse (fun _ => none) ["--timeout", text, "foo"] =
      .ok ⟨"foo", none, none, false, "127.0.0.1", 1234, { timeout := d }⟩ := by
  let given : Given := { timeout := some d }
  have set : Given.set {} .timeout text = .ok given := by
    simp only [Given.set, Given.read, read]
    rfl
  have named : State.start.take "--timeout" = .ok ⟨{}, some (.timeout, none), false⟩ := rfl
  have method : State.take ⟨{}, some (.timeout, some text), false⟩ "foo" =
      .ok ⟨{ given with method := some "foo" }, none, false⟩ := by
    change State.takePositional ⟨{}, some (.timeout, some text), false⟩ "foo" = _
    simp only [State.takePositional, State.resolve, set]
    rfl
  simp only [parse, State.takeAll, named, pending, method]
  rfl

theorem half_read : readSeconds "5e-10" = .ok ⟨1⟩ :=
  seconds_ok.2 ⟨.finite false 5 (-10), ⟨false, 4467902934002620053, by decide⟩, by with_unfolding_all rfl,
    by decide +kernel, rfl, rfl, by decide +kernel⟩

theorem half_nanosecond_accepted : readSeconds "5e-10" = .ok ⟨1⟩ ∧ ¬ Brief "5e-10" ∧ ∃ a,
    parse (fun _ => none) ["--timeout", "5e-10", "foo"] = .ok a ∧ a.settings.timeout = ⟨1⟩ ∧
    Client.build a.settings a.host a.port ≠ .error (.invalidInput .zeroTimeout) := by
  have accepted := parse_timeout half_read rfl
  obtain ⟨positive, refused⟩ := timeouts_positive "5e-10" (fun _ => none) ["--timeout", "5e-10", "foo"]
  obtain ⟨given, given', read, read', zero⟩ := refused _ accepted
  refine ⟨half_read, (positive _ half_read).1 (by decide), _, accepted, rfl, fun refusal => ?_⟩
  rcases (zero.1 refusal).2 with brief | brief
  · exact absurd ((seconds_zero read).2 brief) (by decide)
  · exact absurd ((seconds_zero read').2 brief) (by decide)

theorem below_half_read : readSeconds "4.9e-10" = .ok ⟨0⟩ :=
  seconds_ok.2 ⟨.finite false 49 (-11), ⟨false, 4467806219937050882, by decide⟩, by with_unfolding_all rfl,
    by decide +kernel, rfl, rfl, by decide +kernel⟩

/-- A positive number of seconds is accepted, and then refused as it is zero. -/
theorem brief_timeout_refused : readSeconds "4.9e-10" = .ok ⟨0⟩ ∧ ∃ a,
    parse (fun _ => none) ["--timeout", "4.9e-10", "foo"] = .ok a ∧
    Client.build a.settings a.host a.port = .error (.invalidInput .zeroTimeout) :=
  ⟨below_half_read, _, parse_timeout below_half_read rfl, rfl⟩

end SocketRpc.Proofs.CommandLine
