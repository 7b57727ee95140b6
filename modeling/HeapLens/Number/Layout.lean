import HeapLens.Number.Shortest
import HeapLens.Text.Numeral

set_option autoImplicit false

namespace HeapLens.Number

/-- The choices that one written form of numbers makes. -/
structure Layout where
  positional : Int → Bool
  wholeTail : List Char
  plus : List Char
  tie : Tie

namespace Layout

def diagnostic : Layout := ⟨fun e => -4 ≤ e && e < 16, ['.', '0'], [], .up⟩

def plain : Layout := ⟨fun _ => true, [], [], .up⟩

def jsonDouble : Layout := ⟨fun e => -5 ≤ e && e < 16, ['.', '0'], ['+'], .even⟩

def jsonSingle : Layout := ⟨fun e => -6 ≤ e && e < 13, ['.', '0'], ['+'], .even⟩

def point (layout : Layout) (digits : List Char) (exponent : Int) : List Char :=
  if 0 ≤ exponent then digits ++ List.replicate exponent.toNat '0' ++ layout.wholeTail
  else
    let places := (-exponent).toNat
    if places < digits.length then
      digits.take (digits.length - places) ++ '.' :: digits.drop (digits.length - places)
    else ['0', '.'] ++ List.replicate (places - digits.length) '0' ++ digits

def scientific (layout : Layout) (digits : List Char) (power : Int) : List Char :=
  let mantissa := match digits with
    | first :: second :: rest => first :: '.' :: second :: rest
    | _ => digits
  let mark := if power < 0 then ['-'] else layout.plus
  mantissa ++ 'e' :: mark ++ Text.decimal power.natAbs

def decimal (layout : Layout) (x : Decimal) : List Char :=
  let digits := Text.decimal x.digits
  let power := x.exponent + digits.length - 1
  if layout.positional power then layout.point digits x.exponent
  else layout.scientific digits power

def render (layout : Layout) (f : Format) : Value → String
  | .nan => "NaN"
  | .infinite negative => if negative then "-inf" else "inf"
  | .finite negative significand exponent =>
    let sign := if negative then ['-'] else []
    let body :=
      if significand = 0 then '0' :: layout.wholeTail
      else layout.decimal (f.shortest layout.tie significand exponent)
    String.ofList (sign ++ body)

end Layout

def Binary64.render (x : Binary64) (layout : Layout) : String :=
  layout.render .double x.value

def Binary32.render (x : Binary32) (layout : Layout) : String :=
  layout.render .single x.value

end HeapLens.Number
