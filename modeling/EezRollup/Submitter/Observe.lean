import EezRollup.Scan.Logs

/-! The submitter posts a bundle and polls L1 for its `postBatch` transaction. Every read is a
request of its own, so blocks arrive between any two of them. -/
namespace Eez.Submitter
open Codec Scan

def nextBlockSlack : Nat := 2

/-- Which L1 block the bundle should land in. -/
inductive BundleTarget where
  | nextBlock
  | exactBlock (block : Nat)
  | exact (block timestamp : Nat)

/-- Only an exact target carries the anchored timestamp. -/
def BundleTarget.pinTimestamp : BundleTarget → Option Nat
  | .exact _ timestamp => some timestamp
  | .nextBlock | .exactBlock _ => none

/-- The height the bundle asks for; `head` is the answer of the head read, made
for `nextBlock` alone. -/
def BundleTarget.targetBlock (head : Except String Nat) : BundleTarget → Except L1Error Nat
  | .exact block _ | .exactBlock block => .ok block
  | .nextBlock =>
    match head with
    | .ok head => .ok (head + nextBlockSlack)
    | .error e => .error (.provider ("get_block_number: " ++ e))

inductive SendOutcome where
  | included (l1Block : Nat) (settlement : Settlement)
  | dropped (targetBlock : Nat)
  deriving DecidableEq

/-- What comes back from the POST. -/
inductive Reply where
  | sendFailed (e : String)
  | httpStatus (e : String)
  | undecodable (e : String)
  | rpcError (code : Option Int) (err : String)
  | result

def postBundle : Reply → Except L1Error Unit
  | .sendFailed e => .error (.provider ("eth_sendBundle POST: " ++ e))
  | .httpStatus e => .error (.submission ("eth_sendBundle HTTP: " ++ e))
  | .undecodable e => .error (.provider ("eth_sendBundle decode: " ++ e))
  | .rpcError code err =>
    if code = some (-32601) then .error .bundleRpcUnsupported
    else .error (.submission ("eth_sendBundle: " ++ err))
  | .result => .ok ()

inductive PinnedVerdict where
  | pending
  | included
  | excluded
  | slotSkipped

/-- `block` is the timestamp at the pinned height and whether our transaction is
in it. Inclusion outranks a timestamp mismatch. -/
def pinnedVerdict (block : Option (Nat × Bool)) (pinTs : Nat) : PinnedVerdict :=
  match block with
  | none => .pending
  | some (_, true) => .included
  | some (ts, false) => if ts = pinTs then .excluded else .slotSkipped

/-- The settlement the scan reports for our transaction. -/
def settlementOfOurPost (posts : List Post) (l1Block : Nat) (txHash : B256) (posted : Bool) :
    Except L1Error Settlement :=
  match posts.find? (·.txHash = txHash) with
  | some post => .ok post.settlement
  | none =>
    if posted then
      .error (.sourceIncomplete (.ofNat l1Block)
        ("postBatch " ++ hexB256 txHash ++ ": receipt lists a post the scan lacks; retry"))
    else .ok Settlement.none

inductive Verdict where
  | settled
  | settledPartial
  | failed (slotSkipped : Bool)
  deriving DecidableEq

/-- The background observer's verdict; `timestamp` is the answer of the last
block read, `none` when there is no block or the read fails. -/
def observeBundleOutcome (target : BundleTarget) (expectedFinalRoot : B256)
    (outcome : Except L1Error SendOutcome) (timestamp : Option Nat) : Verdict :=
  let settlement := match outcome with
    | .ok (.included _ settlement) => some settlement
    | _ => none
  if settlement.any (fun s => s.finalState = some expectedFinalRoot) then .settled
  else if settlement.any (fun s => !s.applied.isEmpty) then .settledPartial
  else
    match outcome with
    | .error (.provider _) => .failed true
    | _ =>
      match target with
      | .exact _ pin => .failed (timestamp ≠ some pin)
      | .nextBlock | .exactBlock _ => .failed false

/-- What our `postBatch` transaction did in the block that has it. -/
structure Landing where
  posted : Bool
  settlement : Settlement

structure L1Block where
  timestamp : Nat
  landing : Option Landing

/-- The entries of the batch that the block applies. -/
def L1Block.applied (b : L1Block) : List AppliedEntry :=
  match b.landing with
  | some l => l.settlement.applied
  | none => []

/-- The root the batch's entries reach in the block. -/
def L1Block.finalState (b : L1Block) : Option B256 :=
  match b.landing with
  | some l => l.settlement.finalState
  | none => none

structure Bundle where
  target : BundleTarget
  txHash : B256
  expectedFinalRoot : B256

/-- Where the submitter is: before the target is known, before the POST, at one
of the reads of the polling loop, with an outcome, with a verdict. The ordered
mempool fallback is another path and is not followed. -/
inductive Phase where
  | start
  | posting
  | receipt
  | settlement (l1Block : Nat) (posted : Bool)
  | pinned (pin : Nat)
  | head
  | fallback
  | returned (outcome : Except L1Error SendOutcome)
  | marked (verdict : Verdict)
  deriving DecidableEq

/-- `taken` says whether the relay has the bundle, which the submitter does not
see, and `seen` how long the chain was at the last receipt read. -/
structure Watch where
  chain : List L1Block
  taken : Bool
  targetBlock : Nat
  seen : Nat
  phase : Phase

namespace Watch

def head (w : Watch) : Nat := w.chain.length - 1

def landed (w : Watch) : Option (Nat × Landing) :=
  (w.chain.zipIdx.filterMap fun p => p.1.landing.map fun l => (p.2, l)).head?

def pinnedBlock (w : Watch) : Option (Nat × Bool) :=
  w.chain[w.targetBlock]?.map fun b => (b.timestamp, b.landing.isSome)

end Watch

inductive ReceiptRead where
  | answered
  | withoutNumber
  | failed
  deriving DecidableEq

/-- One thing that happens. A read is answered from the chain at that moment or
it fails. -/
inductive Event where
  | produce (block : L1Block)
  | resolve (headRead : Except String Nat)
  | post (taken : Bool) (reply : Reply)
  | readReceipt (read : ReceiptRead)
  | readSettlement (posts : Except L1Error (List Post))
  | readPinned (answered : Bool)
  | readHead (answered : Bool)
  | mark (timestamp : Option Nat)

namespace Watch

variable (bundle : Bundle)

/-- `send_bundle` up to the POST. -/
def resolve (w : Watch) (headRead : Except String Nat) : Watch :=
  match bundle.target.targetBlock headRead with
  | .ok targetBlock => { w with targetBlock, phase := .posting }
  | .error e => { w with phase := .returned (.error e) }

/-- `dispatch_and_observe`: the relay's answer decides whether to watch. -/
def post (w : Watch) (taken : Bool) (reply : Reply) : Watch :=
  match postBundle reply with
  | .ok () => { w with taken, phase := .receipt }
  | .error .bundleRpcUnsupported => { w with taken, phase := .fallback }
  | .error e => { w with taken, phase := .returned (.error e) }

/-- The head of the polling loop. -/
def readReceipt (w : Watch) : ReceiptRead → Watch
  | .failed => w
  | .withoutNumber =>
    { w with phase := .returned (.error (.provider "receipt present but block_number missing")) }
  | .answered =>
    match w.landed with
    | some (l1Block, l) => { w with phase := .settlement l1Block l.posted }
    | none =>
      match bundle.target.pinTimestamp with
      | some pin => { w with seen := w.chain.length, phase := .pinned pin }
      | none => { w with seen := w.chain.length, phase := .head }

/-- `observe_settlement`: the scan's posts, and our settlement among them. -/
def readSettlement (w : Watch) (l1Block : Nat) (posted : Bool) (posts : Except L1Error (List Post)) : Watch :=
  match posts.bind (settlementOfOurPost · l1Block bundle.txHash posted) with
  | .ok settlement => { w with phase := .returned (.ok (.included l1Block settlement)) }
  | .error e => if e.isTerminal then { w with phase := .returned (.error e) } else { w with phase := .receipt }

/-- A failed read of the pinned block is no verdict. -/
def readPinned (w : Watch) (pin : Nat) (answered : Bool) : Watch :=
  match if answered then pinnedVerdict w.pinnedBlock pin else .pending with
  | .excluded | .slotSkipped => { w with phase := .returned (.ok (.dropped w.targetBlock)) }
  | .included => { w with phase := .receipt }
  | .pending => { w with phase := .head }

def readHead (w : Watch) (answered : Bool) : Watch :=
  if answered ∧ w.head > w.targetBlock then { w with phase := .returned (.ok (.dropped w.targetBlock)) }
  else { w with phase := .receipt }

/-- An event out of turn changes nothing. -/
def step (w : Watch) (event : Event) : Watch :=
  match event, w.phase with
  | .produce block, _ => { w with chain := w.chain ++ [block] }
  | .resolve headRead, .start => w.resolve bundle headRead
  | .post taken reply, .posting => w.post taken reply
  | .readReceipt read, .receipt => w.readReceipt bundle read
  | .readSettlement posts, .settlement l1Block posted => w.readSettlement bundle l1Block posted posts
  | .readPinned answered, .pinned pin => w.readPinned pin answered
  | .readHead answered, .head => w.readHead answered
  | .mark timestamp, .returned outcome =>
    { w with phase := .marked (observeBundleOutcome bundle.target bundle.expectedFinalRoot outcome timestamp) }
  | _, _ => w

end Watch

end Eez.Submitter
