import UtilityCss.Files.FileError

/-!
# What a run is connected to

Besides its arguments and files a run has standard input, and somewhere to write its result: standard
output, or a file on some device.  Reading can fail, and writing can break off with part of the result
already written, since a device fills up or nobody reads a pipe to its end.

* `Outlet` — what is written to: how much it takes, and what is told when it takes no more.
* `Streams` — the connections of one run.
-/

namespace UtilityCss.Command

/-- What is written to. -/
inductive Outlet where
  /-- There is always room. -/
  | endless
  /-- There is room for some bytes; the message says why there is none for more. -/
  | breaking (room : Nat) (message : String)

/-- What became of something that was written. -/
structure Sent where
  /-- The bytes that got out. -/
  bytes : ByteArray
  /-- Why no more did. -/
  failure : Option String
  /-- What is left of the outlet. -/
  rest : Outlet

namespace Outlet

/-- Writes some bytes. -/
def send : Outlet → ByteArray → Sent
  | endless, bytes => ⟨bytes, none, endless⟩
  | breaking room message, bytes =>
    if bytes.size ≤ room then ⟨bytes, none, breaking (room - bytes.size) message⟩
    else ⟨bytes.extract 0 room, some message, breaking 0 message⟩

/-- Writes a text and then, unless the text ends with one, a line break. -/
def sendLine (outlet : Outlet) (text : String) : Sent :=
  let first := outlet.send text.toUTF8
  if first.failure.isSome || text.toList.getLast? == some '\n' then first
  else
    let second := first.rest.send "\n".toUTF8
    { second with bytes := first.bytes ++ second.bytes }

end Outlet

/-- The connections of a run. -/
structure Streams where
  /-- Standard input, unless it cannot be read. -/
  stdin : Except FileError ByteArray
  /-- Where the result goes. -/
  result : Outlet := .endless
  /-- Whether standard error is a terminal. -/
  terminal : Bool := false

end UtilityCss.Command
