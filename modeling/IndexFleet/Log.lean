namespace IndexFleet

inductive Level
  | info
  | warn
  | error
  deriving Repr, DecidableEq, Inhabited

def Level.name : Level → String
  | .info => "INFO"
  | .warn => "WARN"
  | .error => "ERROR"

def Level.rank : Level → Nat
  | .info => 0
  | .warn => 1
  | .error => 2

-- The level that an operator asks for; one that is not known counts as the usual one, and more
-- detail than there is means all messages.
def Level.ofName (name : String) : Level :=
  match name.toLower with
  | "warn" => .warn
  | "error" => .error
  | _ => .info

structure Entry where
  level : Level
  message : String
  deriving Repr, DecidableEq, Inhabited

def Entry.render (entry : Entry) : String :=
  entry.level.name ++ " " ++ entry.message

abbrev Log := List Entry

def Log.atLeast (level : Level) (log : Log) : Log :=
  log.filter fun entry => level.rank ≤ entry.level.rank

def Entry.info (message : String) : Entry := ⟨.info, message⟩
def Entry.warn (message : String) : Entry := ⟨.warn, message⟩
def Entry.error (message : String) : Entry := ⟨.error, message⟩

end IndexFleet
