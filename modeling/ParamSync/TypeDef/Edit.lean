import ParamSync.TypeDef.Basic

/-!
# Local changes of type definitions

A change names the kind of definition that it is for; for another definition there is no such
change. Only the default of a range can be refused.
-/

namespace ParamSync

/-- Why a local change does not happen. -/
inductive EditError
  /-- The definition has no such option. -/
  | inapplicable
  | refused (e : ProtocolError)
deriving DecidableEq

namespace TypeDef

/-- A local change of a definition. -/
inductive Edit
  | boolean (change : Option Bool)
  | number (kind : NumberKind) (change : NumberDef.Edit kind)
  | string (change : StringDef.Edit)
  | enum (change : EnumDef.Edit)
  | uri (change : UriDef.Edit)
  /-- The default of a colour, with or without opacity. -/
  | color (change : Option Color)
  | ipv4 (change : Option Ipv4)
  | ipv6 (change : Option Ipv6)
  | custom (change : CustomDef.Edit)
  | rangeDefault (change : Option (Value × Value))
  | element (change : Edit)
  | replaceElement (element : TypeDef)

/-- A pair of values can be the default of a range if both are values of its element. -/
def acceptsPair (element : TypeDef) (pair : Value × Value) : Bool :=
  element.accepts pair.1 && element.accepts pair.2

/-- The definition after a change, and what the change reports. -/
def edit : TypeDef → Edit → Except EditError (TypeDef × Report)
  | boolean d, .boolean c => .ok (boolean ⟨d.default.edit c⟩, d.default.report c)
  | number k d, .number l c =>
    if h : l = k then .ok (number k (d.edit (h ▸ c)), d.report (h ▸ c)) else .error .inapplicable
  | string d, .string c => .ok (string (d.edit c), d.report c)
  | enum d, .enum c => .ok (enum (d.edit c), d.report c)
  | uri d, .uri c => .ok (uri (d.edit c), d.report c)
  | rgb d, .color c => .ok (rgb ⟨d.default.edit c⟩, d.default.report c)
  | rgba d, .color c => .ok (rgba ⟨d.default.edit c⟩, d.default.report c)
  | ipv4 d, .ipv4 c => .ok (ipv4 ⟨d.default.edit c⟩, d.default.report c)
  | ipv6 d, .ipv6 c => .ok (ipv6 ⟨d.default.edit c⟩, d.default.report c)
  | custom d, .custom c => .ok (custom (d.edit c), d.report c)
  | range element default, .rangeDefault c =>
    if c.all (acceptsPair element) then
      .ok (range element (default.edit c), default.report c)
    else .error (.refused (.valueMismatch element.datatype))
  | range element default, .element c =>
    match element.edit c with
    | .ok (element', report) => .ok (range element' default, report)
    | .error e => .error e
  | range _ default, .replaceElement element => .ok (range element default, none)
  | _, _ => .error .inapplicable

end TypeDef
end ParamSync
