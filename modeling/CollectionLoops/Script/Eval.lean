import CollectionLoops.Script.Expr
import CollectionLoops.Store.Equality

/-!
Evaluation of expressions. Operands are evaluated from left to right before their operation, and the
first fault ends an expression. Functions are called through a host, so that evaluation itself
recurses on the expression.
-/
namespace CollectionLoops.Script

/-- A number as an index: the fraction is dropped, and what is no index of 64 bits is cut to the
nearest one. What is no number counts as NaN and so as zero. -/
def toIndex (v : Value) : UInt64 := (v.asNumber?.getD (0.0 / 0.0)).toUInt64

def Arithmetic.apply (op : Arithmetic) (a b : Value) : Value :=
  let x := a.asNumber?.getD (0.0 / 0.0)
  let y := b.asNumber?.getD (0.0 / 0.0)
  match op with
  | .add => .number (x + y)
  | .sub => .number (x - y)
  | .mul => .number (x * y)
  | .div => .number (x / y)
  | .less => .boolean (x < y)

def popItem (v : Value) : Run State Value := do
  match v with
  | .array r =>
    let last := ((← Run.store).items r).back?
    Run.updateStore (·.updateArray r Array.pop)
    return last.getD .undefined
  | _ => return .undefined

def pushItem (v x : Value) : Run State Value := do
  match v with
  | .array r =>
    Run.updateStore (·.push r x)
    return .ofIndex ((← Run.store).length v)
  | _ => return .undefined

/-- Takes a property of an object away; its value. -/
def deleteProperty (v key : Value) : Run State Value := do
  match v, key with
  | .object r, .string k =>
    let old := ((← Run.store).properties r).get? k
    Run.updateStore (·.updateObject r (·.erase k))
    return old.getD .undefined
  | _, _ => return .undefined

/-- Writes an item that is there, or a property. -/
def write (v key x : Value) : Run State Value := do
  match v, key with
  | .array r, _ =>
    Run.updateStore (·.setItem r (toIndex key).toNat x)
    return x
  | .object r, .string k =>
    Run.updateStore (·.updateObject r (·.insert k x))
    return x
  | _, _ => return .undefined

/-- A text as a value; what has no end never becomes one. -/
def ofText (t : Option String) : Run State Value :=
  match t with
  | some t => return .string t
  | none => throw .endless

def Unary.apply (op : Unary) (v : Value) : Run State Value := do
  match op with
  | .wrap => Run.newObject (Store.wrapped v)
  | .truthy => return .boolean v.isTruthy
  | .not => return .boolean !v.isTruthy
  | .asNumber => return v.asNumber?.elim .undefined .number
  | .snapshot =>
    match v with
    | .array r => Run.newArray ((← Run.store).items r)
    | _ => return .undefined
  | .pop => popItem v
  | .read key => Run.read v key
  | .text => do ofText ((← Run.store).text? v)
  | .quotedText => do ofText ((← Run.store).quotedText? v)
  | .length => return .ofIndex ((← Run.store).length v)
  | .isBound => return .boolean (Invoker.resolve v).isBound
  | .invokerText => do ofText ((Invoker.resolve v).debugText? (← Run.store))

def Binary.apply (op : Binary) (a b : Value) : Run State Value := do
  match op with
  | .arithmetic op => return op.apply a b
  | .push => pushItem a b
  | .delete => deleteProperty a b
  | .strictEquals => return .boolean (a.strictEquals b)
  | .equal => return .boolean ((← Run.store).equal a b)
  | .lockedText => do ofText ((← Run.store).text? b (· == a))
  | .element => return (← Run.store).element a (toIndex b)

/-- Calls a loop. A custom one is compiled first, which is logged. -/
def Target.call (t : Target) (h : Host State) (receiver callback : Value)
    (second : Option Value) : Run State Value := do
  match t with
  | .named name => Method.invoke h name receiver callback second
  | .typed name =>
    match ← liftExcept (Method.find name) with
    | .each => receiver.each h callback second
    | .some => return .boolean (← receiver.someTrue h callback second)
    | .every => return .boolean (← receiver.everyTruthy h callback second)
    | .map => receiver.map h callback second
    | .filter => receiver.filter h callback second
    | .reduce => receiver.reduce h callback second
    | .reduceRight => receiver.reduceRight h callback second
    | .legacy => receiver.legacy h callback
  | .custom text =>
    let loop : Loop State := text.spec.compile "custom"
    Run.record loop.compiledRecord
    loop.call h receiver callback second
where
  liftExcept {α : Type} : Except Fault α → Run State α
    | .ok a => pure a
    | .error e => throw e

def newFunction (f : Function) : Run State Value := do
  let index := (← Run.host).functions.size
  Run.updateHost fun | ⟨globals, functions, trace⟩ => ⟨globals, functions.push f, trace⟩
  return .function ⟨f.kind, index⟩

def setVariable (name : String) (v : Value) : Run State Unit :=
  Run.updateHost fun | ⟨globals, functions, trace⟩ => ⟨globals.insert name v, functions, trace⟩

/-- An object that tells a fault. -/
def describe (e : Fault) : Run State Value := do
  let s ← Run.store
  let message ← ofText (e.message? s)
  let text ← ofText (e.text? s)
  let debug ← ofText (e.debugText? s)
  let value := match e with
    | .thrown v => [("value", v)]
    | _ => []
  Run.newObject <| .ofList <|
    [("kind", .string e.kind), ("message", message), ("text", text), ("debug", debug)] ++ value

mutual

def Expr.eval (h : Host State) (a : Activation) : Expr → Run State Value
  | .constant v => pure v
  | .repeated text times => pure (.string (String.join (List.replicate times text)))
  | .array items => do Run.newArray (← evalList h a items).toArray
  | .object properties => do Run.newObject (.ofList (← evalProperties h a properties))
  | .arrayLike items => do Run.newObject (Store.arrayLike (← evalList h a items))
  | .range n => Run.newArray ((Array.range n).map fun i => .ofIndex (.ofNat i))
  | .function kind tag body => newFunction ⟨kind, tag, body⟩
  | .argument i => pure (a.args[i]?.getD .undefined)
  | .argumentCount => pure (.ofIndex (.ofNat a.args.length))
  | .binding => pure a.binding
  | .variable name => do return ((← Run.host).globals.get? name).getD .undefined
  | .assign name e => do
    let v ← e.eval h a
    setVariable name v
    return v
  | .sequence es => do return (← evalList h a es).getLastD .undefined
  | .cond c t e => do if (← c.eval h a).isTruthy then t.eval h a else e.eval h a
  | .throw e => do throw (.thrown (← e.eval h a))
  | .raise fault => throw fault
  | .attempt e handler => tryCatch (e.eval h a) fun fault => do
    if fault.isEndless then throw fault
    setVariable "err" (← describe fault)
    handler.eval h a
  | .unary op e => do op.apply (← e.eval h a)
  | .binary op e₁ e₂ => do
    let v ← e₁.eval h a
    op.apply v (← e₂.eval h a)
  | .put container key value => do
    let c ← container.eval h a
    let k ← key.eval h a
    write c k (← value.eval h a)
  | .concat es => do
    let vs ← evalList h a es
    let s ← Run.store
    ofText ((vs.mapM fun v => s.text? v).map String.join)
  | .call callee args => do
    let f ← callee.eval h a
    h.call f none (← evalList h a args)
  | .callBound callee bound args => do
    let f ← callee.eval h a
    let b ← bound.eval h a
    h.call f (some b) (← evalList h a args)
  | .invoke context callback args => do
    let c ← context.eval h a
    let f ← callback.eval h a
    (Invoker.resolve c).invoke h f (← evalList h a args)
  | .loop target receiver callback second => do
    let r ← receiver.eval h a
    let f ← callback.eval h a
    target.call h r f (← evalOption h a second)

def evalList (h : Host State) (a : Activation) : List Expr → Run State (List Value)
  | [] => pure []
  | e :: es => do
    let v ← e.eval h a
    return v :: (← evalList h a es)

def evalProperties (h : Host State) (a : Activation) :
    List (String × Expr) → Run State (List (String × Value))
  | [] => pure []
  | (k, e) :: es => do
    let v ← e.eval h a
    return (k, v) :: (← evalProperties h a es)

def evalOption (h : Host State) (a : Activation) : Option Expr → Run State (Option Value)
  | none => pure none
  | some e => do return some (← e.eval h a)

end

end CollectionLoops.Script
