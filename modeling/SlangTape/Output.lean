import SlangTape.Channel

set_option autoImplicit false

namespace SlangTape

structure Event where
  step : Nat
  text : Text
  deriving DecidableEq, Repr

def Event.texts (events : Array Event) : Text := events.toList.flatMap Event.text

structure Sink where
  breaks : Breaks := .never
  calls : Nat := 0

def Sink.take (k : Sink) : Option Failure × Sink :=
  (k.breaks k.calls, { k with calls := k.calls + 1 })

end SlangTape
