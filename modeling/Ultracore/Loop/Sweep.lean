-- SUMMARY: The timeout sweeper's transactions: claiming due waits and arming the next sweep.
import Ultracore.Loop.Waits

/-!
# The timeout sweeper

Package `loop`, file `waittimeout.go`. `Sweep` claims due waits in one statement,
resolves each of them in a transaction of its own, and arms another sweep when the
batch was full or a resolution failed.
-/

namespace Ultracore.Loop

def Settings.batch (cfg : Settings) : Nat := if cfg.sweepBatch > 0 then cfg.sweepBatch else 32

def Settings.retry (cfg : Settings) : Time := if cfg.sweepRetry > 0 then cfg.sweepRetry else 2000

/-- The claim of `Sweep`. -/
def claimDueWaits (cfg : Settings) (t : TenantID) : Tx (List RunWait) := do
  let now ← Tx.now
  Waits.claimDue t now cfg.batch

/-- Schedule another sweep shortly. -/
def rearm (cfg : Settings) (t : TenantID) : Tx Unit := do
  let now ← Tx.now
  Queue.enqueue (.waitTimeout t) (some (now + cfg.retry)) .timeout

end Ultracore.Loop
