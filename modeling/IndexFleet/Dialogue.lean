import IndexFleet.Log
import IndexFleet.Peer

namespace IndexFleet

-- A piece of work that talks to index servers and to the operator, one step after the other.
inductive Dialogue (α : Type) : Type
  | done (result : α)
  | say (entry : Entry) (next : Dialogue α)
  | ask (request : Request) (next : Reply → Dialogue α)

namespace Dialogue

variable {α β : Type}

def bind : Dialogue α → (α → Dialogue β) → Dialogue β
  | done result, k => k result
  | say entry next, k => say entry (next.bind k)
  | ask request next, k => ask request fun reply => (next reply).bind k

instance : Monad Dialogue where
  pure := done
  bind := bind

def tell (entry : Entry) : Dialogue Unit := say entry (done ())

def tellAll : Log → Dialogue Unit
  | [] => done ()
  | entry :: rest => say entry (tellAll rest)

structure Transcript (α : Type) where
  calls : List (Request × Reply)
  log : Log
  result : α
  deriving Inhabited

def run (network : Network) : Dialogue α → Transcript α
  | done result => ⟨[], [], result⟩
  | say entry next =>
      let rest := next.run network
      { rest with log := entry :: rest.log }
  | ask request next =>
      let reply := network request
      let rest := (next reply).run network
      { rest with calls := (request, reply) :: rest.calls }

def Transcript.append (first : Transcript α) (second : Transcript β) : Transcript β :=
  ⟨first.calls ++ second.calls, first.log ++ second.log, second.result⟩

end Dialogue

end IndexFleet
