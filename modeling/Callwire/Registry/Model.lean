import Mathlib.Data.List.AList

/-!
# The service registries

The registry is written four times: `RegistryServer` in Go, Python and Rust, and the handlers of
`callwire.register` and `callwire.discover` in `initAsOrchestrator` of the TypeScript package. Each
is a step function from a store and an operation to a reply and the next store; the sections under a
lock are single steps, so that operations come one after another.

The TypeScript store is a plain object. A name that is no key of it is looked up in
`Object.prototype`, whose members are functions, and in one case an object.
-/

namespace Callwire.Registry

inductive Op where
  | register (name addr : String)
  | discover (name : String)
  deriving DecidableEq, Repr

def Op.name : Op → String
  | .register name _ | .discover name => name

/-- What an operation returns or throws. -/
inductive Reply where
  | registered
  | addrs (addrs : List String)
  /-- the error of `discover` -/
  | notFound (message : String)
  /-- the value of a property that a JavaScript object inherits -/
  | member (name : String)
  | typeError (message : String)
  deriving DecidableEq, Repr

def notFound (name : String) : Reply := .notFound ("service not found: " ++ name)

/-- The replies to a sequence of operations. -/
def replies {S : Type} (step : S → Op → Reply × S) : S → List Op → List Reply
  | _, [] => []
  | s, op :: ops => (step s op).1 :: replies step (step s op).2 ops

/-- From service names to addresses. -/
abbrev Services := AList fun _ : String => List String

namespace Go

/-- `Register` and `Discover`; a key that is not in a map has the nil slice. -/
def step (services : Services) : Op → Reply × Services
  | .register name addr =>
    let addrs := (services.lookup name).getD []
    if addr ∈ addrs then (.registered, services)
    else (.registered, services.insert name (addrs ++ [addr]))
  | .discover name =>
    match services.lookup name with
    | none => (notFound name, services)
    | some addrs => if addrs = [] then (notFound name, services) else (.addrs addrs, services)

end Go

namespace Py

/-- `services.setdefault(name, [])`, with the list and the dictionary after it. -/
def setdefault (services : Services) (name : String) : List String × Services :=
  match services.lookup name with
  | some addrs => (addrs, services)
  | none => ([], services.insert name [])

/-- `register` and `discover`; an empty list is false. -/
def step (services : Services) : Op → Reply × Services
  | .register name addr =>
    let (addrs, services) := setdefault services name
    if addr ∈ addrs then (.registered, services)
    else (.registered, services.insert name (addrs ++ [addr]))
  | .discover name =>
    match services.lookup name with
    | none => (notFound name, services)
    | some addrs => if addrs = [] then (notFound name, services) else (.addrs addrs, services)

end Py

namespace Rust

/-- `entry(name).or_default()`, with the vector and the map after it. -/
def orDefault (services : Services) (name : String) : List String × Services :=
  match services.lookup name with
  | some addrs => (addrs, services)
  | none => ([], services.insert name [])

/-- `register` and `discover`. -/
def step (services : Services) : Op → Reply × Services
  | .register name addr =>
    let (addrs, services) := orDefault services name
    if addr ∈ addrs then (.registered, services)
    else (.registered, services.insert name (addrs ++ [addr]))
  | .discover name =>
    match services.lookup name with
    | some addrs => (.addrs addrs, services)
    | none => (notFound name, services)

end Rust

namespace Ts

/-- The members of `Object.prototype` with their `length`: the number of parameters of a function,
and none for the object that `__proto__` gives. -/
def objectPrototype : List (String × Option Nat) :=
  [("constructor", some 1), ("__defineGetter__", some 2), ("__defineSetter__", some 2),
    ("hasOwnProperty", some 1), ("__lookupGetter__", some 1), ("__lookupSetter__", some 1),
    ("isPrototypeOf", some 1), ("propertyIsEnumerable", some 1), ("toString", some 0),
    ("valueOf", some 0), ("__proto__", none), ("toLocaleString", some 0)]

/-- What `registryStore[key]` is. -/
inductive Slot where
  | own (addrs : List String)
  | inherited (length : Option Nat)

def get (registryStore : Services) (key : String) : Option Slot :=
  match registryStore.lookup key with
  | some addrs => some (.own addrs)
  | none => (objectPrototype.lookup key).map .inherited

/-- The handlers of `callwire.register` and `callwire.discover`. Arrays and the inherited members
are true, and only arrays have `includes`. -/
def step (registryStore : Services) : Op → Reply × Services
  | .register name addr =>
    let registryStore :=
      match get registryStore name with
      | none => registryStore.insert name []
      | some _ => registryStore
    match get registryStore name with
    | some (.own addrs) =>
      if addr ∈ addrs then (.registered, registryStore)
      else (.registered, registryStore.insert name (addrs ++ [addr]))
    | _ => (.typeError "registryStore[key].includes is not a function", registryStore)
  | .discover name =>
    match get registryStore name with
    | none => (notFound name, registryStore)
    | some (.own addrs) =>
      if addrs.length = 0 then (notFound name, registryStore) else (.addrs addrs, registryStore)
    | some (.inherited length) =>
      if length = some 0 then (notFound name, registryStore) else (.member name, registryStore)

end Ts

end Callwire.Registry
