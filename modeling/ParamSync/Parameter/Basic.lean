import ParamSync.Localized
import ParamSync.TypeDef.Edit

/-!
# Parameters

An entry of the exposed tree: a definition, a value that fits it, and what people are told about
it. The group that a parameter is in is one of its fields; a group also keeps the identifiers of
its members. The two sides of that link are kept together by the registry.
-/

namespace ParamSync

/-- What the watchers of a parameter and of its value are told. -/
inductive Notice
  /-- A peer changed something; the value is what the parameter then holds. -/
  | updated (id : ParamId) (value : Option Value)
  /-- A peer changed the value. -/
  | value (id : ParamId) (value : Value)

/-- An entry of the exposed tree. -/
structure Parameter where
  id : ParamId
  definition : TypeDef
  value : Field Value := {}
  label : LocalizedText := {}
  description : LocalizedText := {}
  tags : Field String := {}
  order : Field Int32 := {}
  /-- The group, where the root may be named or left out. -/
  parent : Field ParamId := {}
  userData : Field Bytes := {}
  userId : Field String := {}
  /-- The members, if the parameter is a group. -/
  children : IdSet := ∅
  /-- Whether somebody is told when a peer has changed anything. -/
  watched : Bool := false
  /-- Whether somebody is told of the value when a peer has changed it. -/
  valueWatched : Bool := false

namespace Parameter

def datatype (p : Parameter) : Datatype := p.definition.datatype

def isGroup (p : Parameter) : Bool := p.definition.isGroup

/-- The members in ascending order. -/
def childList (p : Parameter) : List ParamId := p.children.toList

/-- Parameters are alike when all that travels with them is. -/
instance : Alike Parameter where
  alike p q :=
    p.id == q.id && alike p.definition q.definition && alike p.value q.value
      && alike p.label q.label && alike p.description q.description && alike p.tags q.tags
      && alike p.order q.order && alike p.parent q.parent && alike p.userData q.userData
      && alike p.userId q.userId

/-! ## The group -/

/-- The group that the parameter is in, unless it is the root. -/
def group? (p : Parameter) : Option ParamId := p.parent.value.filter (!·.isRoot)

/-- Puts the parameter into a group, as a change of our own. -/
def setGroup (p : Parameter) (group : Option ParamId) : Parameter :=
  match group.filter (!·.isRoot) with
  | some id => { p with parent := p.parent.set id }
  | none => if p.parent.isPresent then { p with parent := p.parent.clear } else p

/-- Puts the parameter into a group, as a change of a peer. -/
def applyGroup (p : Parameter) (group : Option ParamId) : Parameter :=
  match group.filter (!·.isRoot) with
  | some id => { p with parent := p.parent.apply id }
  | none => if p.parent.isPresent then { p with parent := {} } else p

def insertChild (p : Parameter) (id : ParamId) : Parameter :=
  { p with children := p.children.insert id }

def eraseChild (p : Parameter) (id : ParamId) : Parameter :=
  { p with children := p.children.erase id }

/-- The parameter once nobody watches it or its value any more. -/
def unwatched (p : Parameter) : Parameter := { p with watched := false, valueWatched := false }

/-! ## Local changes -/

/-- Whether anything changed since the last delta write. -/
def hasChanges (p : Parameter) : Bool :=
  p.value.changed || p.label.changed || p.description.changed || p.tags.changed
    || p.order.changed || p.parent.changed || p.userData.changed || p.userId.changed
    || p.definition.hasChanges

/-- A local change of a parameter. -/
inductive Edit
  | value (change : Option Value)
  | label (change : LocalizedText.Edit)
  | description (change : LocalizedText.Edit)
  | tags (change : Option String)
  | order (change : Option Int32)
  | userData (change : Option Bytes)
  | userId (change : Option String)
  | definition (change : TypeDef.Edit)
  | replaceDefinition (definition : TypeDef)
  /-- Says who is told from now on: a watcher of the parameter, a watcher of its value. -/
  | watchers (parameter value : Bool)

/-- Both watchers come, or both go. -/
def Edit.watch (both : Bool) : Edit := .watchers both both

/-- Stores a value that the definition accepts. -/
def setValue (p : Parameter) (v : Value) : Except ProtocolError Parameter :=
  if !p.definition.hasValue then .error (.noValue p.datatype)
  else if !p.definition.accepts v then .error (.valueMismatch p.datatype)
  else .ok { p with value := p.value.set v }

/-- Removes the value; bangs and groups have none to remove. -/
def clearValue (p : Parameter) : Parameter :=
  if p.definition.hasValue then { p with value := p.value.clear } else p

/-- The parameter after a change, and what the change reports. -/
def edit (p : Parameter) : Edit → Except EditError (Parameter × Report)
  | .value (some v) =>
    match p.setValue v with
    | .ok p' => .ok (p', some (p.value.differs v))
    | .error e => .error (.refused e)
  | .value none => .ok (p.clearValue, none)
  | .label c => .ok ({ p with label := p.label.edit c }, p.label.report c)
  | .description c =>
    .ok ({ p with description := p.description.edit c }, p.description.report c)
  | .tags c => .ok ({ p with tags := p.tags.edit c }, p.tags.report c)
  | .order c => .ok ({ p with order := p.order.edit c }, p.order.report c)
  | .userData c => .ok ({ p with userData := p.userData.edit c }, p.userData.report c)
  | .userId c => .ok ({ p with userId := p.userId.edit c }, p.userId.report c)
  | .definition c =>
    match p.definition.edit c with
    | .ok (d, report) => .ok ({ p with definition := d }, report)
    | .error e => .error e
  | .replaceDefinition d => .ok ({ p with definition := d }, none)
  | .watchers parameter value =>
    .ok ({ p with watched := parameter, valueWatched := value }, none)

/-! ## Changes from a peer -/

/-- The value of a peer's parameter, if the definition accepts it. -/
def acceptable (p other : Parameter) : Option Value :=
  other.value.value.filter p.definition.accepts

/-- Whether `merge` would change the value. -/
def gainsValue (p other : Parameter) : Bool := (p.acceptable other).any p.value.differs

/-- The parameter after all that a peer's parameter has was applied, the group apart, which only
the registry can resolve. A value that the definition does not accept is passed over. -/
def merge (p other : Parameter) : Parameter :=
  { p with
    value := match p.acceptable other with
      | some v => p.value.apply v
      | none => p.value
    definition := p.definition.merge other.definition
    label := p.label.merge other.label
    description := p.description.merge other.description
    tags := p.tags.merge other.tags
    order := p.order.merge other.order
    userData := p.userData.merge other.userData
    userId := p.userId.merge other.userId }

/-- Whether `merge` would change anything. -/
def gains (p other : Parameter) : Bool :=
  p.gainsValue other || p.definition.gains other.definition || p.label.gains other.label
    || p.description.gains other.description || p.tags.gains other.tags
    || p.order.gains other.order || p.userData.gains other.userData
    || p.userId.gains other.userId

/-- What a watcher of the value is told after it was changed by a peer. -/
def valueNotices (p : Parameter) : List Notice :=
  match p.valueWatched, p.value.value with
  | true, some v => [.value p.id v]
  | _, _ => []

/-- What a watcher of the parameter is told after anything was changed by a peer. -/
def updatedNotices (p : Parameter) : List Notice :=
  if p.watched then [.updated p.id p.value.value] else []

/-- Applies a bare value of a peer. -/
def applyValue (p : Parameter) (v : Value) : Except ProtocolError Parameter :=
  if p.definition.accepts v then .ok { p with value := p.value.apply v }
  else .error (.valueMismatch p.datatype)

end Parameter
end ParamSync
