import GotoScript.Bindings
import GotoScript.Service.Basic
import GotoScript.Service.Version
import GotoScript.Text.Quoted

/-!
# The registry of services

Services are registered under a name and a version. For each name the registry keeps every version,
the last registration under the same text replacing earlier ones, and the latest: the first
registration that no later one has surpassed.
-/

namespace GotoScript

structure Registration where
  version : String
  service : Service

/-- The registrations under one name. -/
structure Shelf where
  latest : Registration
  versions : Bindings Registration

namespace Shelf

/-- A shelf with one registration. -/
def single (r : Registration) : Shelf :=
  ⟨r, ({} : Bindings Registration).set r.version r⟩

/-- Adds a registration. It becomes the latest only if its version is greater. -/
def add (shelf : Shelf) (r : Registration) : Shelf where
  latest := if Version.compare r.version shelf.latest.version = .gt then r else shelf.latest
  versions := shelf.versions.set r.version r

end Shelf

structure Registry where
  shelves : Bindings Shelf := {}

/-- A service that was found in the registry. -/
structure Client where
  name : String
  version : String
  service : Service

/-- Describes a client by its name and version. -/
def Client.describe (c : Client) : String :=
  "ServiceClient \x7b name: " ++ Text.quoted c.name ++ ", version: " ++ Text.quoted c.version ++
    ", .. \x7d"

namespace Registry

def register (r : Registry) (name version : String) (service : Service) : Registry :=
  let registration : Registration := ⟨version, service⟩
  match r.shelves.find? name with
  | none => ⟨r.shelves.set name (.single registration)⟩
  | some shelf => ⟨r.shelves.set name (shelf.add registration)⟩

def latestVersion? (r : Registry) (name : String) : Option String :=
  (r.shelves.find? name).map (·.latest.version)

/-- Finds a service by name and version, or its latest version. -/
def resolve (r : Registry) (name : String) (version : Option String) : Except ServiceError Client :=
  let found : Option Registration :=
    match r.shelves.find? name, version with
    | none, _ => none
    | some shelf, none => some shelf.latest
    | some shelf, some v => shelf.versions.find? v
  match found with
  | some registration => .ok ⟨name, registration.version, registration.service⟩
  | none => .error (.notFound name version)

/-- The names in order. -/
def sortedNames (r : Registry) : List String :=
  r.shelves.names.mergeSort

def describe (r : Registry) : String :=
  "ServiceRegistry \x7b services: [" ++ ", ".intercalate (r.sortedNames.map Text.quoted) ++ "] \x7d"

end Registry

/-! ## Text requests and subscriptions -/

namespace Client

/-- Sends a text, at a moment. -/
def sendText (moment : Nat) (client : Client) (request : String) : Except ServiceError String :=
  match client.service with
  | .answering answers => answers.text moment request
  | _ => .error .unsupportedText

def subscribe (client : Client) (request : String) : Except ServiceError (List String) :=
  match client.service with
  | .answering answers => answers.subscription request
  | _ => .error .unsupportedSubscription

end Client

end GotoScript
