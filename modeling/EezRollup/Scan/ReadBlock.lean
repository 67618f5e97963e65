import EezRollup.Protocol.PublicInputs
import EezRollup.Scan.Logs

/-! Calls label the items of a block, queues name their owners, and each record restates one entry
of its owner's verified bytes. -/
namespace Eez.Scan
open Octets Outcome

def usizeMax : Nat := 2 ^ 64 - 1

def toUsize (v : U256) : Nat := if v.toNat < 2 ^ 64 then v.toNat else usizeMax

structure Reading where
  post : Post
  roles : List (Option EntryRole)
  immediate : Nat
  /-- The leading run: the entries before the first with a proxy hash. -/
  run : Nat
  nextLeading : Nat
  lastTransient : Option Nat
  lastQueued : UInt64 → Option Nat
  applied : List AppliedEntry

def leadingRun (entries : List ExecutionEntrySol) (immediate : Nat) : Nat :=
  ((entries.take immediate).takeWhile fun entry => entry.proxyEntryHash = 0).length

/-- The logs restate the entry: its call and queue, its rolling hash and each
update's rollup and root. -/
def Restates (record : Record) (entry : ExecutionEntrySol) : Prop :=
  (∀ c, record.consumed = some c → (c.hash, c.queue) = (entry.proxyEntryHash, entry.destinationRollupId)) ∧
    entry.rollupUpdates.map (fun u => (u.rollupId, u.newRoot)) = record.roots ∧
    record.rollingHash = entry.rollingHash

instance (record : Record) (entry : ExecutionEntrySol) : Decidable (Restates record entry) := by
  unfold Restates
  infer_instance

def stateRoots (us : UInt64) (entries : List ExecutionEntrySol) (applied : AppliedEntry) :
    Except Halt (Option (B256 × B256)) := do
  let entry ← index entries applied.entryIndex
  return (entry.rollupUpdates.find? fun u => u.rollupId = us).map fun u => (u.currentRoot, u.newRoot)

namespace Reading

def new (post : Post) (us : UInt64) (place : String) : Except Halt Reading := do
  let entries := post.batch.entries
  let immediate := toUsize post.batch.immediateEntryCount
  ensure (immediate ≤ entries.length) (.decode s!"{place}: too many immediates")
  return {
    post
    roles := entryRoles entries us
    immediate
    run := leadingRun entries immediate
    nextLeading := 0
    lastTransient := none
    lastQueued := fun _ => none
    applied := [] }

variable (r : Reading)

/-- The leading run reports each entry in order, before the meta hook. -/
def leading (place : String) : Except Halt (Nat × Reading) := do
  ensure (r.lastTransient = none ∧ r.nextLeading < r.run) (.decode s!"{place}: result past the leading run")
  return (r.nextLeading, { r with nextLeading := r.nextLeading + 1 })

def apply (entryIndex : Nat) (record : Record) (place : String) : Except Halt Reading := do
  let entry ← index r.post.batch.entries entryIndex
  ensure (Restates record entry) (.decode s!"{place}: logs do not restate entry {entryIndex}")
  let role ← index r.roles entryIndex
  return match role with
    | some role => { r with applied := r.applied ++ [⟨entryIndex, role⟩] }
    | none => r

/-- A leading-run entry, or one the meta hook consumed from the rest of the
immediate entries, moving forward. -/
def inCall (record : Record) (place : String) : Except Halt Reading :=
  match record.consumed with
  | none => do
    let (entryIndex, r) ← r.leading place
    r.apply entryIndex record place
  | some consumed => do
    let slot := consumed.index.toNat
    let entryIndex := min (r.run + slot) usizeMax
    ensure (entryIndex < r.immediate ∧ ∀ last, r.lastTransient = some last → last < entryIndex)
      (.decode s!"{place}: bad meta-hook slot {slot}")
    { r with lastTransient := some entryIndex }.apply entryIndex record place

def routed (queue : UInt64) : List Nat :=
  (List.range' r.immediate (r.post.batch.entries.length - r.immediate)).filter fun i =>
    (r.post.batch.entries[i]?.map ExecutionEntrySol.destinationRollupId) = some queue

/-- Slot `k` of a queue is the `k`-th entry routed to it, and its cursor only
moves forward. -/
def deferred (record : Record) (consumed : Consumed) (place : String) : Except Halt Reading := do
  let queue := consumed.queue
  let slot := consumed.index.toNat
  let next := (r.routed queue)[slot]?.filter fun i => (r.lastQueued queue).all fun last => last < i
  let entryIndex ← require next (.decode s!"{place}: queue {queue} has no next slot {slot}")
  let queued := fun q => if q = queue then some entryIndex else r.lastQueued q
  { r with lastQueued := queued }.apply entryIndex record place

/-- The post with what was applied of it, and the end states. -/
def finish (us : UInt64) : Except Halt Post := do
  let roots := fun applied : Option AppliedEntry =>
    match applied with
    | some applied => stateRoots us r.post.batch.entries applied
    | none => .ok none
  let entryState ← roots r.applied.head?
  let finalState ← roots r.applied.getLast?
  let firstOurs := r.roles.findIdx? Option.isSome
  let first := r.applied.head?.map AppliedEntry.entryIndex
  let resumed := first.isSome && first != firstOurs
  return { r.post with
    settlement := Settlement.new r.applied (finalState.map Prod.snd) (entryState.map Prod.fst) resumed }

end Reading

inductive Place where
  /-- Inside the call of the i-th post that lists us. -/
  | ours (i : Nat)
  /-- Inside the call of a post that does not list us. -/
  | foreign
  /-- Between the calls of a transaction that posts for us. -/
  | between
  /-- In a transaction that posts nothing for us, whose calls are not read. -/
  | untraced
  deriving DecidableEq

structure PostEnd where
  last : Nat
  spi : B256
  ids : List UInt64

def postEnds (items : List Item) : List PostEnd :=
  items.filterMap fun item =>
    match item.kind with
    | .posted spi ids => some ⟨item.last, spi, ids⟩
    | _ => none

section
variable (ext : Externals)

/-- The batch a call carried, checked against its own `BatchPosted`. -/
def verify (call : Call) (spi : B256) (ids : List UInt64) (id : PostId) (place : String) : Except Halt EvmBatch := do
  let batch ← (ext.decodePostAndVerifyBatch call.input).mapError fun e => .decode s!"{place}: bad call: {e}"
  ensure ((batch.rollupIdsWithProofSystems.map fun r => r.rollupId) = ids)
    (.decode s!"{place}: call lists other rollups")
  let unsupported := fun detail => Halt.failed (.unsupported id.l1Block id.logIndex detail)
  let commitment ← (batchSharedPublicInput ext.keccak256 batch call.sender).mapError fun e =>
    unsupported s!"{place}: {e.message}"
  let mismatch := s!"{place}: call hashes to {hexB256 commitment}, not {hexB256 spi}"
  -- only another listed rollup's custom data can explain a mismatch
  ensure (commitment = spi ∨ 1 < ids.length) (.decode mismatch)
  ensure (commitment = spi) (unsupported mismatch)
  return batch

variable (block : Block)

def ensureAt (tx : Tx) (position : Nat) (p : Prop) [Decidable p] (message : String) : Except Halt Unit :=
  if p then .ok ()
  else do
    let log ← index tx.logs position
    throw (.decode s!"{atLog block.number log}: {message}")

/-- The label of each log: the call it ran in. Call `k` owns the logs it counted
that end at the k-th `BatchPosted`. -/
def labelCalls (tx : Tx) : Nat → Nat → List (Call × PostEnd) → List (Option Nat) → Except Halt (List (Option Nat))
  | _, _, [], labels => .ok labels
  | k, floor, (call, ended) :: rest, labels => do
    let start := if call.logs ≤ ended.last + 1 then ended.last + 1 - call.logs else usizeMax
    ensureAt block tx ended.last (floor ≤ start ∧ start ≤ ended.last) s!"call {k} claims {call.logs} logs"
    ensure (ended.last < labels.length) .panicked
    let filled := labels.take start ++ List.replicate (ended.last + 1 - start) (some k) ++ labels.drop (ended.last + 1)
    labelCalls tx (k + 1) (ended.last + 1) rest filled

/-- An entry runs inside one call or between calls. -/
def checkStraddle (tx : Tx) (labels : List (Option Nat)) : List Item → Except Halt Unit
  | [] => .ok ()
  | item :: items => do
    ensure (item.first ≤ item.last + 1 ∧ item.last < labels.length) .panicked
    let span := (labels.take (item.last + 1)).drop item.first
    ensureAt block tx item.last (∀ label ∈ span, span.head? = some label) "entry straddles a call boundary"
    checkStraddle tx labels items

/-- Start reading each post that lists us; another's is foreign. -/
def startPosts (us : UInt64) (tx : Tx) (txHash : B256) :
    List (Call × PostEnd) → List Reading → Except Halt (List Place × List Reading)
  | [], posts => .ok ([], posts)
  | (call, ended) :: rest, posts =>
    if us ∈ ended.ids then do
      let log ← index tx.logs ended.last
      let place := atLog block.number log
      let id : PostId := ⟨block.number, block.hash, log.logIndex⟩
      let batch ← verify ext call ended.spi ended.ids id place
      let reading ← Reading.new ⟨id, txHash, call.sender, batch, .none⟩ us place
      let (places, started) ← startPosts us tx txHash rest (posts ++ [reading])
      return (.ours posts.length :: places, started)
    else do
      let (places, started) ← startPosts us tx txHash rest posts
      return (.foreign :: places, started)

def placeOf (byCall : List Place) (labels : List (Option Nat)) (item : Item) : Except Halt Place := do
  let label ← index labels item.first
  match label with
  | some k => index byCall k
  | none => return .between

/-- The place of each item of a transaction, and the posts it starts. -/
def label (tx : Tx) (txCalls : Option (List Call × Nat)) (us : UInt64) (posts : List Reading) :
    Except Halt (List Place × List Reading) :=
  match txCalls with
  | none => .ok (List.replicate tx.items.length .untraced, posts)
  | some (calls, committed) => do
    let head ← index tx.logs 0
    let scanned := tx.logs.length
    let ends := postEnds tx.items
    let counts := s!"{calls.length} calls, {committed} logs traced; {ends.length} BatchPosted, {scanned} logs"
    ensure (committed = scanned ∧ calls.length ≤ ends.length) (.decode s!"{atLog block.number head}: {counts}")
    if calls.length < ends.length then do
      let ended ← index ends calls.length
      let log ← index tx.logs ended.last
      throw (.failed (.unsupported block.number log.logIndex s!"tx {hexB256 head.txHash}: {counts}"))
    else do
      let labels ← labelCalls block tx 0 0 (calls.zip ends) (List.replicate scanned none)
      checkStraddle block tx labels tx.items
      let (byCall, posts) ← startPosts ext block us tx head.txHash (calls.zip ends) posts
      let places ← tx.items.mapM (placeOf byCall labels)
      return (places, posts)

structure Walk where
  posts : List Reading
  owners : UInt64 → Option (Option Nat)

/-- The listed queues now belong to `owner`. -/
def Walk.reset (w : Walk) (ids : List UInt64) (owner : Option Nat) : Walk :=
  { w with owners := fun queue => if queue ∈ ids then some owner else w.owners queue }

def Walk.update (w : Walk) (i : Nat) (r : Reading) : Walk := { w with posts := w.posts.set i r }

def Record.updates (record : Record) (us : UInt64) : Bool := record.roots.any fun root => root.1 == us

def readItem (us : UInt64) (w : Walk) (tx : Tx) (item : Item) (place : Place) : Except Halt Walk := do
  let log ← index tx.logs item.last
  let here := atLog block.number log
  match item.kind, place with
  | .posted _ ids, .ours i => do
    -- by its `BatchPosted` a post reported its whole leading run
    let r ← index w.posts i
    ensure (r.nextLeading = r.run) (.decode s!"{here}: leading run unreported")
    return w.reset ids (some i)
  | .posted _ ids, _ => return w.reset ids none
  | .skipped skipped, .ours i => do
    let r ← index w.posts i
    let (next, r) ← r.leading here
    ensure (skipped = UInt64.ofNat next) (.decode s!"{here}: skip of {skipped}, not {next}")
    return w.update i r
  | .skipped _, place => do
    ensure (place ≠ .between) (.decode s!"{here}: skip outside a call")
    return w
  | .record record, .ours i => do
    let r ← index w.posts i
    let r ← r.inCall record here
    return w.update i r
  | .record record, .foreign => do
    ensure (record.updates us = false) (.decode s!"{here}: our entry in a foreign post")
    return w
  | .record record, place =>
    match record.consumed with
    | none => do
      ensure (place = .untraced ∧ record.updates us = false)
        (.decode s!"{here}: leading-run entry outside a call")
      return w
    | some consumed =>
      if record.updates us then do
        let owner ← require (w.owners consumed.queue).join
          (.decode s!"{here}: no post listing {us} owns queue {consumed.queue}")
        let r ← index w.posts owner
        let r ← r.deferred record consumed here
        return w.update owner r
      else return w

structure Placement where
  tx : Tx
  item : Item
  place : Place

def labelTxs (callsByTx : UInt64 → Option (List Call × Nat)) (us : UInt64) :
    List Tx → List Reading → Except Halt (List Placement × List Reading)
  | [], posts => .ok ([], posts)
  | tx :: txs, posts => do
    let head ← index tx.logs 0
    let (places, posts) ← label ext block tx (callsByTx head.txIndex) us posts
    let (rest, posts) ← labelTxs callsByTx us txs posts
    return ((tx.items.zip places).map (fun p => ⟨tx, p.1, p.2⟩) ++ rest, posts)

def sameTx (a b : ScannedLog) : Bool := a.txIndex == b.txIndex

/-- Every post of the block that lists `us`, in log order. -/
def readBlock (callsByTx : UInt64 → Option (List Call × Nat)) (us : UInt64) : Except Halt (List Post) := do
  let parsed ← (block.logs.splitBy sameTx).mapM (parseTx block.number)
  let (placements, posts) ← labelTxs ext block callsByTx us parsed []
  let walked ← placements.foldlM (fun w p => readItem block us w p.tx p.item p.place) ⟨posts, fun _ => none⟩
  walked.posts.mapM fun r => r.finish us

end

/-- The endpoints: transactions by block hash and index, and the frames of the
asked transactions of a block, in their order. -/
structure Provider where
  transaction : B256 → UInt64 → Except L1Error (Option Transaction)
  traceBlock : UInt64 → B256 → List B256 → Except L1Error (List CallFrame)

def ScannedLog.lists (us : UInt64) (log : ScannedLog) : Bool :=
  match log.event with
  | .posted _ ids => ids.contains us
  | _ => false

def fetchLogTransaction (provider : Provider) (block : UInt64) (blockHash : B256) (txIndex : UInt64) (txHash : B256) :
    Except Halt Transaction := do
  let tx ← (provider.transaction blockHash txIndex).mapError .failed
  require tx (.failed (.sourceIncomplete block
    s!"tx {hexB256 txHash} at ({hexB256 blockHash}, {txIndex}) not served yet; retry"))

abbrev CallsByTx := UInt64 → Option (List Call × Nat)

def CallsByTx.insert (m : CallsByTx) (i : UInt64) (calls : List Call × Nat) : CallsByTx :=
  fun j => if j = i then some calls else m j

/-- The calls of direct posts, and the transactions to trace. -/
def directCalls (provider : Provider) (eez : Address) (us : UInt64) (block : Block) :
    List (List ScannedLog) → CallsByTx → Except Halt (CallsByTx × List (UInt64 × B256))
  | [], calls => .ok (calls, [])
  | logs :: rest, calls => do
    let head ← index logs 0
    if logs.any (ScannedLog.lists us) then do
      let tx ← fetchLogTransaction provider block.number block.hash head.txIndex head.txHash
      match directCall tx eez logs.length with
      | some call => directCalls provider eez us block rest (calls.insert head.txIndex ([call], logs.length))
      | none => do
        let (calls, traced) ← directCalls provider eez us block rest calls
        return (calls, (head.txIndex, head.txHash) :: traced)
    else directCalls provider eez us block rest calls

def tracedCalls (eez : Address) (block : Block) : List ((UInt64 × B256) × CallFrame) → CallsByTx → Except Halt CallsByTx
  | [], calls => .ok calls
  | ((txIndex, txHash), frame) :: rest, calls => do
    let walked ← callsInTx frame eez s!"block {block.number} tx {hexB256 txHash}"
    tracedCalls eez block rest (calls.insert txIndex walked)

/-- One block: only transactions with a post that lists us are fetched, and the
block is traced only when one of them is not a direct post. -/
def scanBlock (ext : Externals) (provider : Provider) (eez : Address) (us : UInt64) (block : Block) :
    Except Halt (List Post) := do
  let (calls, traced) ← directCalls provider eez us block (block.logs.splitBy sameTx) fun _ => none
  let calls ← if traced = [] then pure calls else do
    let frames ← (provider.traceBlock block.number block.hash (traced.map Prod.snd)).mapError .failed
    tracedCalls eez block (traced.zip frames) calls
  readBlock ext block calls us

def readLogs (ext : Externals) (provider : Provider) (eez : Address) (us : UInt64) (raw : List RawLog) :
    Except Halt (List Post) := do
  let blocks ← groupBlocks ext raw
  let posts ← blocks.mapM (scanBlock ext provider eez us)
  return posts.flatten

end Eez.Scan
