import SocketRpc.CommandLine.Parse
import SocketRpc.Proofs.Decoding.Agreement

namespace SocketRpc.Proofs.CommandLine
open SocketRpc.CommandLine SocketRpc.Proofs.Decoding

variable {P : Given → Prop} {given next : Given} {s : State} {stop : Stop} {made : Except Stop State}
variable {setting : Setting} {value : String} {flag : Flag} {a : Arguments}
variable {environment : String → Option String}

structure Lasting (P : Given → Prop) : Prop where
  start : P {}
  value : ∀ {given next : Given} {setting : Setting} {value : String}, P given →
    given.read setting value = .ok next → P next
  flag : ∀ {given next : Given} {flag : Flag}, P given → given.setFlag flag = .ok next → P next
  method : ∀ {given : Given} (method : String), P given → P { given with method := some method }

theorem Lasting.set (lasting : Lasting P) (h : P given) (set : given.set setting value = .ok next) : P next := by
  unfold Given.set at set
  split at set
  · cases set
  · split at set
    · next read =>
        cases set
        exact lasting.value h read
    · cases set

theorem Lasting.addEnvironment {settings : List Setting} (lasting : Lasting P) (h : P given)
    (added : given.addEnvironment environment settings = .ok next) : P next := by
  induction settings generalizing given with
  | nil => cases added; exact h
  | cons setting settings ih =>
      rw [Given.addEnvironment] at added
      split at added
      · split at added
        · exact ih h added
        · split at added
          · next set => exact ih (lasting.set h set) added
          · cases added
      · exact ih h added

theorem setFlag_same (set : given.setFlag flag = .ok next) :
    next = { given with jsonrpc := next.jsonrpc, shutdownWrite := next.shutdownWrite } := by
  unfold Given.setFlag at set
  split at set
  · cases set
  · cases flag <;> cases set <;> rfl

def Keeps (P : Given → Prop) (made : Except Stop State) : Prop := ∀ next, made = .ok next → P next.given

theorem keeps_ok (h : P s.given) : Keeps P (.ok s) := by
  rintro next ⟨⟩
  exact h

theorem keeps_error : Keeps P (.error stop) := by
  intro next failed
  cases failed

theorem keeps_bind {take : State → Except Stop State} (h : Keeps P made)
    (later : ∀ s, P s.given → Keeps P (take s)) : Keeps P (made >>= take) := by
  intro next taken
  obtain ⟨s, first, taken⟩ := bind_ok.1 taken
  exact later s (h s first) next taken

theorem keeps_resolve (lasting : Lasting P) (h : P s.given) : Keeps P s.resolve := by
  unfold State.resolve
  split
  · exact keeps_ok h
  · exact keeps_error
  · split
    · next set => exact keeps_ok (lasting.set h set)
    · exact keeps_error

theorem keeps_setting (lasting : Lasting P) (setting : Setting) (attached : Option String) (h : P s.given) :
    Keeps P (s.takeSetting setting attached) := by
  refine keeps_bind (keeps_resolve lasting h) fun s h => ?_
  cases attached with
  | none => exact keeps_ok h
  | some value =>
      simp only []
      split
      · next set => exact keeps_ok (lasting.set h set)
      · exact keeps_error

theorem keeps_plain (lasting : Lasting P) (shown : String) (attached : Option String)
    {take : State → Except Stop State} (h : P s.given) (later : ∀ s, P s.given → Keeps P (take s)) :
    Keeps P (s.takePlain shown attached take) := by
  cases attached with
  | none => exact keeps_bind (keeps_resolve lasting h) later
  | some value => exact keeps_error

theorem keeps_flag (lasting : Lasting P) (flag : Flag) (s : State) (h : P s.given) :
    Keeps P (State.takeFlag flag s) := by
  unfold State.takeFlag
  split
  · next set => exact keeps_ok (lasting.flag h set)
  · exact keeps_error

theorem keeps_long (lasting : Lasting P) (name : String) (attached : Option String) (h : P s.given) :
    Keeps P (s.takeLong name attached) := by
  unfold State.takeLong
  repeat' split
  · exact keeps_setting lasting _ attached h
  · exact keeps_plain lasting _ attached h (keeps_flag lasting _)
  · exact keeps_plain lasting _ attached h fun _ _ => keeps_error
  · exact keeps_plain lasting _ attached h fun _ _ => keeps_error
  · exact keeps_error

theorem keeps_short (lasting : Lasting P) (letter : Char) (rest : List Char) (h : P s.given) :
    Keeps P (s.takeShort letter rest) := by
  unfold State.takeShort
  repeat' split
  · exact keeps_setting lasting _ _ h
  · exact keeps_setting lasting _ _ h
  · exact keeps_setting lasting _ _ h
  · exact keeps_bind (keeps_resolve lasting h) fun _ _ => keeps_error
  · exact keeps_bind (keeps_resolve lasting h) fun _ _ => keeps_error
  · exact keeps_error

theorem keeps_positional (lasting : Lasting P) (argument : String) (h : P s.given) :
    Keeps P (s.takePositional argument) := by
  unfold State.takePositional
  split
  · exact keeps_error
  · exact keeps_bind (keeps_resolve lasting h) fun _ h => keeps_ok (lasting.method argument h)

theorem keeps_take (lasting : Lasting P) (argument : String) (h : P s.given) : Keeps P (s.take argument) := by
  unfold State.take State.takeValue
  repeat' split
  · exact keeps_positional lasting argument h
  · exact keeps_ok h
  · exact keeps_long lasting _ _ h
  · exact keeps_long lasting _ _ h
  · exact keeps_short lasting _ _ h
  · exact keeps_ok h
  · exact keeps_positional lasting argument h

theorem keeps_takeAll (lasting : Lasting P) (arguments : List String) (h : P s.given) :
    Keeps P (s.takeAll arguments) := by
  induction arguments generalizing s with
  | nil => exact keeps_ok h
  | cons argument arguments ih =>
      rw [State.takeAll]
      split
      · next taken => exact ih (keeps_take lasting argument h _ taken)
      · exact keeps_error

theorem parse_lasting {arguments : List String} (lasting : Lasting P)
    (accepted : parse environment arguments = .ok a) : ∃ given, P given ∧ given.complete = .ok a := by
  obtain ⟨taken, takes, accepted⟩ := bind_ok.1 accepted
  obtain ⟨resolved, resolves, accepted⟩ := bind_ok.1 accepted
  have kept := keeps_takeAll lasting arguments lasting.start taken takes
  have kept := keeps_resolve lasting kept resolved resolves
  split at accepted
  · cases accepted
  · next given added =>
      refine ⟨given, lasting.addEnvironment kept added, ?_⟩
      split at accepted
      · next complete =>
          cases accepted
          exact complete
      · cases accepted

end SocketRpc.Proofs.CommandLine
