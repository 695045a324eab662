import BufferPool.Replacement.Policy

/-! # Pool configurations

How many frames a pool has and how it evicts, and which choices are refused.
-/

namespace BufferPool

structure Config where
  poolSize : Nat := 64
  policy : Policy := .lru
  deriving DecidableEq, Repr

inductive ConfigError where
  | noFrames
  | zeroK
  deriving DecidableEq, Repr

def ConfigError.message : ConfigError → String
  | noFrames => "pool_size must be > 0"
  | zeroK => "LRU-K needs k > 0"

/-- The text with which a pool of this configuration is refused. -/
def ConfigError.refusal (e : ConfigError) : String :=
  s!"invalid buffer pool configuration: {e.message}"

namespace Config

def default : Config := {}

def defaultK : Nat := 2

def validate (c : Config) : Except ConfigError Unit :=
  if c.poolSize = 0 then .error .noFrames
  else if c.policy = .lruK 0 then .error .zeroK
  else .ok ()

end Config

end BufferPool
