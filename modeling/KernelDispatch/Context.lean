import KernelDispatch.Settings

/-
  The context of a model: what its factories and executors share.
-/

namespace KernelDispatch

structure Context where
  /-- The requested number of worker threads. -/
  threads : Option Nat
  reuse : ReusePolicy
  overrides : Overrides
  /-- How many dispatch decisions each executor remembers. -/
  cacheSize : Nat
  cacheSize_pos : 0 < cacheSize

namespace Context

/-- The context with the given settings; a cache size of zero stands for the default. -/
def ofSettings (s : Settings) : Context where
  threads := s.threads
  reuse := s.reuse
  overrides := s.overrides
  cacheSize := if s.cacheSize = 0 then (default : Settings).cacheSize else s.cacheSize
  cacheSize_pos := by
    split
    · decide
    · omega

/-- The empty scratch pool of the context. -/
def scratch (c : Context) : Scratch := { policy := c.reuse }

end Context

end KernelDispatch
