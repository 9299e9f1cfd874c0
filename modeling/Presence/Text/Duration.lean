/-!
# Durations

A duration is a number of milliseconds.  Below a second it is written in `ms`,
from a second on in `s` with as many of three decimals as are needed.
-/

namespace Presence.Duration

/-- The digits of a fraction of a thousandth without the zeros at its end. -/
def decimals (thousandths : Nat) : List Char :=
  ([thousandths / 100 % 10, thousandths / 10 % 10, thousandths % 10].map Nat.digitChar).reverse
    |>.dropWhile (· == '0') |>.reverse

/-- The text of a duration. -/
def render (milliseconds : Nat) : String :=
  if milliseconds < 1000 then toString milliseconds ++ "ms"
  else
    let seconds := toString (milliseconds / 1000)
    match decimals (milliseconds % 1000) with
    | [] => seconds ++ "s"
    | digits => seconds ++ "." ++ String.ofList digits ++ "s"

end Presence.Duration
