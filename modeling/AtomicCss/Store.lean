import AtomicCss.KeyMap
import AtomicCss.Stylesheet
import AtomicCss.Text.Blank
/-!
# The store of a build

Every class that a build has emitted, by name. A name stands for one text and one rule: an emission
that disagrees with what the store holds is an error, and the store keeps what it has.
-/

namespace AtomicCss

/-- Why a name would no longer stand for one thing. Past this point the output of a build would
depend on the order of its parts. -/
inductive IntegrityError where
  | hashCollision (name existing incoming : String)
  | ruleMismatch (name declaration existing incoming : String)
deriving DecidableEq, Repr

def IntegrityError.message : IntegrityError → String
  | hashCollision name existing incoming =>
    "Class name '" ++ name ++ "' was generated for two different declarations: " ++ existing ++
      " and " ++ incoming
  | ruleMismatch name declaration existing incoming =>
    "Declaration " ++ declaration ++ " produced two different rules for '" ++ name ++ "': " ++
      existing ++ " and " ++ incoming

structure Store where
  emissions : KeyMap Emission
deriving DecidableEq

namespace Store

def empty : Store := ⟨∅⟩

instance : EmptyCollection Store := ⟨empty⟩

/-- A source as people read it. -/
def readable (source : String) : String :=
  String.ofList (trim (source.toList.map fun c => if c = '\x1f' then ' ' else c))

/-- What is wrong with an emission beside one of the same name, if anything is. -/
def conflict? (stored incoming : Emission) : Option IntegrityError :=
  let name := incoming.atomic.name
  if stored.source ≠ incoming.source then
    some (.hashCollision name (readable stored.source) (readable incoming.source))
  else if stored.atomic ≠ incoming.atomic then
    some (.ruleMismatch name (readable incoming.source) stored.atomic.rule.shown
      incoming.atomic.rule.shown)
  else none

/-- Emits a class: the store afterwards, and the class that it then has under the name. One that is
there already is left as it is. -/
def emit (store : Store) (emission : Emission) : Except IntegrityError (Store × AtomicClass) :=
  match store.emissions.get? emission.atomic.name with
  | none => .ok (⟨store.emissions.insert emission.atomic.name emission⟩, emission.atomic)
  | some stored =>
    match conflict? stored emission with
    | some error => .error error
    | none => .ok (store, stored.atomic)

/-- The store after an emission. -/
def insert (store : Store) (emission : Emission) : Except IntegrityError Store :=
  (store.emit emission).map Prod.fst

/-- Emits classes one after the other up to the first that fails. -/
def insertAll (store : Store) : List Emission → Store × Except IntegrityError Unit
  | [] => (store, .ok ())
  | emission :: rest =>
    match store.insert emission with
    | .ok store => insertAll store rest
    | .error error => (store, .error error)

def get? (store : Store) (name : String) : Option AtomicClass :=
  (store.emissions.get? name).map (·.atomic)

def size (store : Store) : Nat :=
  store.emissions.size

def isEmpty (store : Store) : Bool :=
  store.emissions.isEmpty

def rules (store : Store) : List Rule :=
  store.emissions.values.map (·.atomic.rule)

/-- All rules of the build in the order of the cascade. -/
def stylesheet (store : Store) : Stylesheet :=
  .ofRules store.rules

end Store

end AtomicCss
