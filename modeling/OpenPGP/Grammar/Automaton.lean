import OpenPGP.Grammar.Symbol
/-!
# The automaton of the message grammar

A configuration is a control state and a stack. Each step looks at the top of
the stack, which it takes away unless it is the bottom, and puts the symbols of
its rule in place. `Automaton` runs a configuration over a history of accepted
symbols and remembers the first rejection for good.

The rules, with the top of the stack last in each column:

    state              input         top        next state         stack grows by
    openPgpMessage     session key   msg        encryptedData      msg
    openPgpMessage     signature     msg        openPgpMessage     msg
    openPgpMessage     one-pass      msg        openPgpMessage     sig msg
    openPgpMessage     literal       msg        literalMessage
    openPgpMessage     compressed    msg        compressedMessage
    openPgpMessage     encrypted     msg        encryptedData
    encryptedData      session key   msg        encryptedData      msg
    encryptedData      encrypted     msg        encryptedData
    an element         signature     sig        signedMessage
    an element         end           terminus   valid
-/
namespace OpenPGP

/-- A control state and a stack, top first. -/
structure Configuration where
  state : ControlState
  stack : List StackSymbol
  deriving DecidableEq, Repr

/-- A symbol the grammar does not allow: what was accepted before it and the configuration it met. -/
structure Rejection where
  history : List InputSymbol
  state : ControlState
  /-- The stack, top first. -/
  stack : List StackSymbol
  input : InputSymbol
  deriving DecidableEq, Repr

/-- The wording of a rejection; the stack is shown bottom first. -/
def Rejection.message (r : Rejection) : String :=
  let stack := ", ".intercalate (r.stack.reverse.map StackSymbol.display)
  s!"unexpected {r.input.display} in state {r.state.display} with stack [{stack}]"

/-- Whether a state follows a complete element of a message. -/
def ControlState.isElement : ControlState → Bool
  | literalMessage | compressedMessage | encryptedData | signedMessage => true
  | openPgpMessage | valid => false

namespace Configuration

/-- A message expected over the bottom. -/
def initial : Configuration := ⟨.openPgpMessage, [.msg, .terminus]⟩

/-- The accepting configuration. -/
def isValid (c : Configuration) : Bool := c.state = .valid && c.stack = [.terminus]

/-- The rule of a state, an input and the top of a stack: the next state and what is put on the
stack, top first. -/
def rule : ControlState → InputSymbol → StackSymbol → Option (ControlState × List StackSymbol)
  | .openPgpMessage, .encryptedSessionKey, .msg => some (.encryptedData, [.msg])
  | .openPgpMessage, .signature, .msg => some (.openPgpMessage, [.msg])
  | .openPgpMessage, .onePassSignature, .msg => some (.openPgpMessage, [.msg, .sig])
  | .openPgpMessage, .literalData, .msg => some (.literalMessage, [])
  | .openPgpMessage, .compressedData, .msg => some (.compressedMessage, [])
  | .openPgpMessage, .encryptedData, .msg => some (.encryptedData, [])
  | .encryptedData, .encryptedSessionKey, .msg => some (.encryptedData, [.msg])
  | .encryptedData, .encryptedData, .msg => some (.encryptedData, [])
  | state, .signature, .sig => if state.isElement then some (.signedMessage, []) else none
  | state, .endOfSequence, .terminus => if state.isElement then some (.valid, []) else none
  | _, _, _ => none

/-- The configuration after an input, if a rule applies. -/
def next? (c : Configuration) (input : InputSymbol) : Option Configuration :=
  match c.stack with
  | [] => none
  | top :: below =>
    (rule c.state input top).map fun (state, push) =>
      ⟨state, push ++ if top = .terminus then c.stack else below⟩

end Configuration

/-- A run of the automaton over the packets of one layer. -/
structure Automaton where
  configuration : Configuration
  /-- The accepted symbols, first first. -/
  history : List InputSymbol
  rejection : Option Rejection
  deriving DecidableEq, Repr

namespace Automaton

def initial : Automaton := ⟨.initial, [], none⟩

/-- The rejection of an input in the current configuration. -/
def reject (a : Automaton) (input : InputSymbol) : Rejection :=
  ⟨a.history, a.configuration.state, a.configuration.stack, input⟩

/-- Feeds one symbol; after a rejection every symbol meets the same rejection. -/
def next (a : Automaton) (input : InputSymbol) : Except Rejection Unit × Automaton :=
  match a.rejection with
  | some rejection => (.error rejection, a)
  | none =>
    match a.configuration.next? input with
    | some configuration => (.ok (), { a with configuration, history := a.history ++ [input] })
    | none =>
      let rejection := a.reject input
      (.error rejection, { a with rejection := some rejection })

def isValid (a : Automaton) : Bool := a.rejection.isNone && a.configuration.isValid

/-- Succeeds in the accepting configuration; otherwise the end of the sequence is what was refused. -/
def assertValid (a : Automaton) : Except Rejection Unit :=
  match a.rejection with
  | some rejection => .error rejection
  | none => if a.configuration.isValid then .ok () else .error (a.reject .endOfSequence)

/-- Feeds symbols one after the other. -/
def feed (a : Automaton) (inputs : List InputSymbol) : Automaton :=
  inputs.foldl (fun a input => (a.next input).2) a

end Automaton

end OpenPGP
