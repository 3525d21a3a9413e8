import DocumentTypes.Decimal.Shortest
import DocumentTypes.Json

/-!
The text of JSON numbers. Integers are written exactly. A float is written as its shortest decimal:
positionally and with at least one digit after the point while the power of its leading digit is in
the range of `Number.isPositional`, in scientific notation with a signed exponent otherwise.
-/

set_option autoImplicit false

namespace DocumentTypes.Json

namespace Number

/-- The leading powers of ten that are written positionally. -/
def isPositional (power : Int) : Bool :=
  -5 ≤ power && power < 16

/-- The text of a positive decimal. -/
def digitsText (d : Decimal.Digits) : String :=
  if isPositional d.power then
    if d.power < 0 then
      "0." ++ String.ofList (List.replicate (-d.power - 1).toNat '0' ++ d.digits)
    else
      let whole := d.power.toNat + 1
      let padded := d.digits ++ List.replicate (whole - d.digits.length) '0'
      let decimals := padded.drop whole
      String.ofList (padded.take whole) ++ "." ++
        (if decimals.isEmpty then "0" else String.ofList decimals)
  else
    let exponent := (if d.power < 0 then "e-" else "e+") ++ toString d.power.natAbs
    match d.digits with
    | [] => exponent
    | [digit] => String.singleton digit ++ exponent
    | digit :: more => String.singleton digit ++ "." ++ String.ofList more ++ exponent

/-- The text of a finite float. -/
def floatText (bits : UInt64) : String :=
  let sign := if bits >>> 63 = 1 then "-" else ""
  let field := (bits >>> 52 &&& 0x7FF).toNat
  let fraction := (bits &&& 0xFFFFFFFFFFFFF).toNat
  if field = 0 then
    if fraction = 0 then sign ++ "0.0"
    else sign ++ digitsText (Decimal.Binary.shortest ⟨fraction, -1074, false⟩)
  else
    sign ++ digitsText (Decimal.Binary.shortest
      ⟨0x10000000000000 + fraction, (field : Int) - 1075, fraction = 0 && field ≠ 1⟩)

def text : Number → String
  | integer value => toString value
  | float bits => floatText bits

end Number

end DocumentTypes.Json
