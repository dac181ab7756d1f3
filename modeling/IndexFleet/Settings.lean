import IndexFleet.Decimal.Shortest

namespace IndexFleet

-- How long to wait for an index node, in milliseconds.
structure Timeouts where
  connect : Nat := 60000
  -- for every call without a limit of its own below
  read : Nat := 120000
  commitRead : Nat := 600000
  optimizeRead : Nat := 3600000
  streamFileRead : Nat := 21600000
  deriving Repr, DecidableEq, Inhabited

structure Settings where
  timeouts : Timeouts := {}
  -- the number of rows in one chunk, the header not counted
  maxLinesPerChunk : Nat := 100
  -- times the number of targets, this bounds the uploads of one wave
  threadFactor : Float := 3.0
  deriving Repr, Inhabited

namespace Settings

inductive Fault
  | noLinesPerChunk
  | threadFactorNotPositive (factor : Float)
  deriving Repr

def Fault.message : Fault → String
  | noLinesPerChunk => "max_lines_per_chunk must be at least 1"
  | threadFactorNotPositive factor => s!"thread_factor must be positive, got {Decimal.render factor}"

def check (settings : Settings) : Except Fault Unit :=
  if settings.maxLinesPerChunk = 0 then .error .noLinesPerChunk
  else if settings.threadFactor.isFinite && 0.0 < settings.threadFactor then .ok ()
  else .error (.threadFactorNotPositive settings.threadFactor)

-- The number of uploads in one wave, never below one: the product rounded to the nearest integer,
-- halves away from zero, and no more than 64 bits hold.
def uploadsPerWave (settings : Settings) (targets : Nat) : Nat :=
  max 1 (Float.ofNat targets * settings.threadFactor).round.toUInt64.toNat

theorem uploadsPerWave_pos (settings : Settings) (targets : Nat) :
    0 < settings.uploadsPerWave targets :=
  Nat.lt_of_lt_of_le Nat.one_pos (Nat.le_max_left _ _)

def same (a b : Settings) : Bool :=
  a.timeouts == b.timeouts && a.maxLinesPerChunk == b.maxLinesPerChunk &&
    a.threadFactor == b.threadFactor

end Settings

end IndexFleet
