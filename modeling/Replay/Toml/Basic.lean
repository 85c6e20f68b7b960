import Replay.Json.Basic
set_option autoImplicit false

/-!
TOML documents: values, and tables under construction. A table remembers how it came about, which
decides whether later lines may still add to it.
-/

namespace Replay

inductive Toml where
  | string (s : String)
  | integer (n : Int)
  | real (x : Float)
  | boolean (b : Bool)
  | moment (text : String)
  | array (items : List Toml)
  | table (members : List (String × Toml))
  deriving BEq, Repr, Inhabited

namespace Toml

mutual

/-- The same value as JSON. A moment becomes an object with one member. -/
def toJson : Toml → Json
  | .string s => .string s
  | .integer n => .integer n
  | .real x => .number (.real x)
  | .boolean b => .bool b
  | .moment text => .object [("moment", .string text)]
  | .array items => .array (itemsToJson items)
  | .table members => .object (membersToJson members)

def itemsToJson : List Toml → List Json
  | [] => []
  | x :: xs => x.toJson :: itemsToJson xs

def membersToJson : List (String × Toml) → List (String × Json)
  | [] => []
  | (k, x) :: xs => (k, x.toJson) :: membersToJson xs

end

inductive Origin where
  /-- As a parent in the header of another table. -/
  | implied
  | header
  | dotted
  deriving DecidableEq, Repr

inductive Node where
  | value (v : Toml)
  | table (origin : Origin) (members : List (String × Node))
  /-- An array of tables, the last one first. -/
  | tables (items : List (List (String × Node)))
  deriving Inhabited

namespace Node

abbrev Members := List (String × Node)

def get? (key : String) (members : Members) : Option Node :=
  (members.find? fun m => m.1 == key).map Prod.snd

def set (key : String) (node : Node) : Members → Members
  | [] => [(key, node)]
  | (k, n) :: rest => if k = key then (k, node) :: rest else (k, n) :: set key node rest

/-- Apply a change to the table at a path of keys. Tables that are missing are made by `missing`;
tables that `blocked` holds of must not be entered, and an array stands for its last table. -/
def descend (missing : Origin) (blocked : Origin → Bool)
    (change : Origin → Members → Option Members) :
    List String → Origin → Members → Option Members
  | [], origin, members => change origin members
  | key :: path, _, members =>
    match get? key members with
    | none => do
      let inner ← descend missing blocked change path missing []
      return set key (.table missing inner) members
    | some (.table origin inner) => do
      if blocked origin then none
      let inner ← descend missing blocked change path origin inner
      return set key (.table origin inner) members
    | some (.tables (last :: earlier)) => do
      let last ← descend missing blocked change path .header last
      return set key (.tables (last :: earlier)) members
    | some _ => none

/-- Put a value under a dotted key. Only tables of dotted keys, or the table at hand itself, take
new members, and none takes a member twice. -/
def putValue (path : List String) (key : String) (v : Toml) (members : Members) : Option Members :=
  descend .dotted (· == .header)
    (fun origin inner =>
      if (origin == .dotted) == path.isEmpty || (get? key inner).isSome then none
      else some (set key (.value v) inner))
    path .header members

def openTable (path : List String) (key : String) (root : Members) : Option Members :=
  descend .implied (fun _ => false)
    (fun _ inner =>
      match get? key inner with
      | none => some (set key (.table .header []) inner)
      | some (.table .implied own) => some (set key (.table .header own) inner)
      | some _ => none)
    path .header root

def appendTable (path : List String) (key : String) (root : Members) : Option Members :=
  descend .implied (fun _ => false)
    (fun _ inner =>
      match get? key inner with
      | none => some (set key (.tables [[]]) inner)
      | some (.tables items) => some (set key (.tables ([] :: items)) inner)
      | some _ => none)
    path .header root

def within (path : List String) (change : Members → Option Members) (root : Members) :
    Option Members :=
  descend .implied (fun _ => false) (fun _ inner => change inner) path .header root

mutual

def toValue : Node → Toml
  | .value v => v
  | .table _ members => .table (membersToValue members)
  | .tables items => .array (tablesToValue items).reverse

def membersToValue : List (String × Node) → List (String × Toml)
  | [] => []
  | (k, n) :: rest => (k, n.toValue) :: membersToValue rest

def tablesToValue : List (List (String × Node)) → List Toml
  | [] => []
  | t :: rest => .table (membersToValue t) :: tablesToValue rest

end

end Node

end Toml

end Replay
