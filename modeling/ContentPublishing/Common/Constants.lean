import Mathlib.Data.Rat.Floor

/-!
# Constants and tables shared by the services

Announcement types, the queues that carry them, their schema identifiers on
each chain, and the names of the Redis keys.
-/
namespace ContentPublishing

def millisecondsPerSecond : ℕ := 1000

/-- Number of seconds to create a block in Frequency chain. -/
def secondsPerBlock : ℕ := 12

/-- Batch lock expire time which applies during closing operation. -/
def batchLockExpireSeconds : ℕ := 6

/-- The number of blocks to crawl for a given job. -/
def numberBlocksToCrawl : ℕ := 32

inductive ChainEnvironment where
  | mainNet | rococo | testnetPaseo | dev
  deriving DecidableEq, Repr

inductive AnnouncementTypeDto where
  | broadcast | reply | reaction | update | tombstone | profile
  deriving DecidableEq, Repr

/-- The queues whose jobs are collected into batches. -/
inductive QueueName where
  | broadcastQueue | replyQueue | reactionQueue | updateQueue | tombstoneQueue | profileQueue
  deriving DecidableEq, Repr

def QueueName.text : QueueName → String
  | .broadcastQueue => "broadcastQueue"
  | .replyQueue => "replyQueue"
  | .reactionQueue => "reactionQueue"
  | .updateQueue => "updateQueue"
  | .tombstoneQueue => "tombstoneQueue"
  | .profileQueue => "profileQueue"

def queueNameToAnnouncementMap : QueueName → AnnouncementTypeDto
  | .broadcastQueue => .broadcast
  | .replyQueue => .reply
  | .reactionQueue => .reaction
  | .updateQueue => .update
  | .tombstoneQueue => .tombstone
  | .profileQueue => .profile

def announcementToSchemaIdDev : AnnouncementTypeDto → ℕ
  | .tombstone => 1
  | .broadcast => 2
  | .reply => 3
  | .reaction => 4
  | .profile => 5
  | .update => 6

def announcementToSchemaIdRococo : AnnouncementTypeDto → ℕ
  | .tombstone => 1
  | .broadcast => 2
  | .reply => 3
  | .reaction => 4
  | .profile => 5
  | .update => 6

def announcementToSchemaIdMainNet : AnnouncementTypeDto → ℕ
  | .tombstone => 1
  | .broadcast => 2
  | .reply => 3
  | .reaction => 4
  | .profile => 6
  | .update => 5

def getSchemaId : ChainEnvironment → AnnouncementTypeDto → ℕ
  | .mainNet, t => announcementToSchemaIdMainNet t
  | .testnetPaseo, t => announcementToSchemaIdMainNet t
  | .rococo, t => announcementToSchemaIdRococo t
  | .dev, t => announcementToSchemaIdDev t

def getBatchDataKey (queueName : String) : String := "batch:data:" ++ queueName
def getBatchMetadataKey (queueName : String) : String := "batch:metadata:" ++ queueName
def getLockKey (suffix : String) : String := "locked:" ++ suffix

/-- Name of the timeout in the in-memory scheduler. -/
def capacityEpochTimeoutName : String := "capacity-epoch-timeout"

/-- Longest delay a Node.js timer accepts. -/
def timeoutMax : ℕ := 2 ^ 31 - 1

/-- The delay `setTimeout` really uses: fractions are dropped and a delay
outside `1 .. timeoutMax` becomes one millisecond. -/
def setTimeoutDelay (ms : ℚ) : ℕ :=
  if 1 ≤ ms ∧ ms ≤ timeoutMax then ⌊ms⌋₊ else 1

theorem setTimeoutDelay_natCast {n : ℕ} (hpos : 1 ≤ n) (hmax : n ≤ timeoutMax) :
    setTimeoutDelay n = n := by
  have h : (1 : ℚ) ≤ n ∧ (n : ℚ) ≤ timeoutMax := by exact_mod_cast And.intro hpos hmax
  rw [setTimeoutDelay, if_pos h, Nat.floor_natCast]

end ContentPublishing
